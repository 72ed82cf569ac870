/-
  Identifiers, tokens and orders, and the reasons a call can stop.

  A call of the contract either returns or panics, and a panic undoes all it
  did; so a call is a computation in `Except Panic`.  Amounts and lots are
  natural numbers.  The source computes with overflow checks on: `u128` and
  `u64` are the checks after a sum or a product, `sub` and `div` the checked
  subtraction and division, and `asU64` is the cast `as u64`, which drops the
  high bits without a check.
-/
import Mathlib.Algebra.Ring.Nat
import TonicDex.Lib.Checked
import TonicDex.Lib.FiniteMap

namespace TonicDex

/-! ## Panics -/

/-- The messages of `tonic_sdk::errors`, by the names of their constants. -/
inductive ErrorCode where
  | insufficientStorageBalance
  | accountNotFound
  | insufficientBalance
  | exceededOrderLimit
  | marketExists
  | invalidBaseLotSize
  | invalidQuoteLotSize
  | insufficientMarketDeposit
  | orderNotFound
  | missingLimitPrice
  | zeroOrderAmount
  | exceededSlippageTolerance
  | invalidAction
  deriving DecidableEq, Repr

/-- What stopped a call. -/
inductive Panic where
  /-- an overflow, an underflow or a division by zero -/
  | arithmetic
  /-- `unwrap` of a `None` -/
  | unwrap
  /-- a message of `tonic_sdk::errors` -/
  | error (code : ErrorCode)
  /-- a message of the contract itself -/
  | message (text : String)
  /-- a panic inside `tonic_sdk` -/
  | sdk (text : String)
  deriving DecidableEq, Repr

/-- A call, or a part of one: it returns a value or panics. -/
abbrev Call := Except Panic

/-- `_assert!` and `require!`: panic with `text` unless `p` holds. -/
abbrev assert (p : Prop) [Decidable p] (text : String) : Call Unit :=
  Checked.require (.message text) p

/-! ## Integers -/

abbrev u128 (n : ℕ) : Call ℕ := Checked.fit .arithmetic 128 n

abbrev u64 (n : ℕ) : Call ℕ := Checked.fit .arithmetic 64 n

/-- `U256` arithmetic of `tonic_sdk` panics past 256 bits. -/
abbrev u256 (n : ℕ) : Call ℕ := Checked.fit .arithmetic 256 n

abbrev sub (a b : ℕ) : Call ℕ := Checked.sub .arithmetic a b

abbrev div (a b : ℕ) : Call ℕ := Checked.div .arithmetic a b

/-- The cast `as u64`. -/
abbrev asU64 (n : ℕ) : ℕ := Checked.wrap 64 n

/-- `u64::MAX`. -/
abbrev u64Max : ℕ := 2 ^ 64 - 1

/-- `u128::MAX`. -/
abbrev u128Max : ℕ := 2 ^ 128 - 1

/-! ## Identifiers -/

/-- The characters of an account id. -/
def validChar (c : Char) : Bool := c.isLower || c.isDigit || c == '-' || c == '_' || c == '.'

/-- A NEAR account id: 2 to 64 lower-case letters, digits, dashes, underscores
    and dots. -/
structure AccountId where
  name : String
  valid : 2 ≤ name.length ∧ name.length ≤ 64 ∧ name.toList.all validChar = true
  deriving DecidableEq

theorem AccountId.notMem_name (a : AccountId) {ch : Char} (h : validChar ch = false) :
    ch ∉ a.name.toList := by
  intro hch
  have hvalid := List.all_eq_true.1 a.valid.2.2 ch hch
  rw [h] at hvalid
  cases hvalid

/-- A market id, the 32 bytes of a hash. -/
abbrev MarketId := BitVec 256

abbrev OrderId := ℕ

abbrev ClientId := ℕ

/-- `TokenType` of `tonic_sdk`. -/
inductive TokenType where
  | nativeNear
  | fungibleToken (accountId : AccountId)
  | multiFungibleToken (accountId : AccountId) (subtokenId : String)
  deriving DecidableEq

/-! ## Orders -/

inductive Side where
  | buy
  | sell
  deriving DecidableEq, Repr

/-- The other side of the book. -/
def Side.opposite : Side → Side
  | buy => sell
  | sell => buy

inductive OrderType where
  | limit
  | immediateOrCancel
  | postOnly
  | fillOrKill
  | market
  deriving DecidableEq, Repr

/-- An order resting in a book, as the orderbook's getters return it. -/
structure OpenLimitOrder where
  id : OrderId
  ownerId : AccountId
  side : Side
  limitPriceLots : ℕ
  openQtyLots : ℕ
  clientId : Option ClientId
  deriving DecidableEq

/-- What the orderbook is asked to place. -/
structure NewOrder where
  sequenceNumber : ℕ
  limitPriceLots : Option ℕ
  maxQtyLots : ℕ
  availableQuoteLots : Option ℕ
  side : Side
  orderType : OrderType
  quoteLotSize : ℕ
  baseDenomination : ℕ
  baseLotSize : ℕ
  clientId : Option ClientId
  deriving DecidableEq

/-- One fill of a resting order. -/
structure Match where
  makerOrderId : OrderId
  makerUserId : AccountId
  fillQtyLots : ℕ
  fillPriceLots : ℕ
  nativeQuotePaid : ℕ
  /-- `did_remove_maker_order()` -/
  didRemoveMakerOrder : Bool
  deriving DecidableEq

/-- What placing an order did. -/
structure PlaceOrderResult where
  id : OrderId
  /-- `matches` -/
  fills : List Match
  openQtyLots : ℕ
  /-- `is_posted()` -/
  isPosted : Bool
  bestBid : Option ℕ
  bestAsk : Option ℕ
  deriving DecidableEq

/-- A cancelled order, with the best prices after it left the book. -/
structure CancelOrderResult where
  order : OpenLimitOrder
  priceRank : ℕ
  bestBid : Option ℕ
  bestAsk : Option ℕ
  deriving DecidableEq

/-- What an account records of one of its orders. -/
structure OrderInfo where
  originalSize : ℕ
  timestamp : ℕ
  deriving DecidableEq

/-- The orders an account has in one market. -/
abbrev OrderInfos := HMap OrderId OrderInfo

end TonicDex
