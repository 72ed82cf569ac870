/-
  Markets and fees (`market/v1.rs`, `fees.rs`).

  A market pairs a base and a quote token, each with its lot size and
  decimals.  Orders are priced in quote lots and sized in base lots; the
  functions here convert between lots and native amounts.  Casts to `u64` do
  not check: `quoteNativeToLots` and `baseNativeToLots` wrap.
-/
import TonicDex.Model.Account

namespace TonicDex

variable {B : Type} (S : Sdk B)

/-! ## Markets -/

inductive MarketState where
  /-- created, but waiting for token decimals -/
  | uninitialized
  /-- allows trading -/
  | active
  /-- allows no trading operation -/
  | paused
  /-- allows only cancelling -/
  | cancelOnly
  deriving DecidableEq, Repr

structure Token where
  tokenType : TokenType
  lotSize : ℕ
  decimals : ℕ
  deriving DecidableEq

structure Market (B : Type) where
  state : MarketState
  baseToken : Token
  quoteToken : Token
  orderbook : B
  /-- in basis points -/
  takerFeeBaseRate : ℕ
  /-- in basis points -/
  makerRebateBaseRate : ℕ
  maxOrdersPerAccount : ℕ
  /-- taker fees net of maker and referrer rebates, in the quote token -/
  feesAccrued : ℕ
  /-- least price of a bid, in basis points of the best bid -/
  minimumBidBps : ℕ
  /-- greatest price of an ask, in basis points of the best ask -/
  maximumAskBps : ℕ

inductive PairSide where
  | base
  | quote
  deriving DecidableEq, Repr

/-- Parameters of a new order.  A market order ignores the limit price. -/
structure NewOrderParams where
  limitPrice : Option ℕ
  /-- most to spend, fees included (bids only) -/
  maxSpend : Option ℕ
  quantity : ℕ
  side : Side
  orderType : OrderType
  clientId : Option ClientId
  referrerId : Option AccountId
  deriving DecidableEq

/-- Stands for the decimals while the token contract has not answered. -/
def invalidDecimals : ℕ := 100

def defaultMaxOrders : ℕ := 20

def defaultMinMultiplierBps : ℕ := 1000

def defaultMaxMultiplierBps : ℕ := 300000

def denomination (decimals : ℕ) : Call ℕ := u128 (10 ^ decimals)

namespace Market

variable (m : Market B)

def baseDenomination : Call ℕ := denomination m.baseToken.decimals

def quoteDenomination : Call ℕ := denomination m.quoteToken.decimals

/-- Both decimals are known and `L_q * L_b` is at least `10^D_b`. -/
def validateLotsAndDecimals : Call Bool :=
  if m.baseToken.decimals ≠ invalidDecimals ∧ m.quoteToken.decimals ≠ invalidDecimals then do
    let d ← m.baseDenomination
    return decide (d ≤ m.baseToken.lotSize * m.quoteToken.lotSize)
  else return false

def quoteLotsToNative (lots : ℕ) : Call ℕ := u128 (lots * m.quoteToken.lotSize)

def quoteNativeToLots (amount : ℕ) : Call ℕ := do
  let lots ← div amount m.quoteToken.lotSize
  return asU64 lots

def baseLotsToNative (lots : ℕ) : Call ℕ := u128 (lots * m.baseToken.lotSize)

def baseNativeToLots (amount : ℕ) : Call ℕ := do
  let lots ← div amount m.baseToken.lotSize
  return asU64 lots

def setDecimals (side : PairSide) (decimals : ℕ) : Market B :=
  match side with
  | .base => { m with baseToken := { m.baseToken with decimals := decimals } }
  | .quote => { m with quoteToken := { m.quoteToken with decimals := decimals } }

def incrFeesAccrued (amount : ℕ) : Call (Market B) := do
  let fees ← u128 (m.feesAccrued + amount)
  return { m with feesAccrued := fees }

def bestBid : Option OpenLimitOrder := S.findBbo m.orderbook .buy

def bestAsk : Option OpenLimitOrder := S.findBbo m.orderbook .sell

def assertActive : Call Unit :=
  assert (m.state = .active) "Market must be active to place an order"

def assertCanCancel : Call Unit :=
  assert (m.state = .active ∨ m.state = .cancelOnly)
    "Market must be active or cancel-only to cancel an order"

def setState (newState : MarketState) : Market B := { m with state := newState }

/-- Hand an order to the matching engine. -/
def placeOrder (sequenceNumber : ℕ) (ownerId : AccountId) (limitPriceLots : Option ℕ)
    (maxQtyLots : ℕ) (availableQuoteLots : Option ℕ) (side : Side) (orderType : OrderType)
    (clientId : Option ClientId) : Call (PlaceOrderResult × Market B) := do
  m.assertActive
  let baseDenomination ← m.baseDenomination
  let (result, orderbook) ← S.placeOrder m.orderbook ownerId
    { sequenceNumber, limitPriceLots, maxQtyLots, availableQuoteLots, side, orderType
      quoteLotSize := m.quoteToken.lotSize
      baseDenomination
      baseLotSize := m.baseToken.lotSize
      clientId }
  return (result, { m with orderbook })

end Market

/-! ## Fees -/

/-- One basis point is a hundredth of a percent. -/
def feeToBpsDivisor : ℕ := 10000

/-- What fee calculations depend on. -/
structure FeeCalculator where
  takerFeeBaseRate : ℕ
  makerRebateBaseRate : ℕ

namespace FeeCalculator

def newWithBaseRate (market : Market B) : FeeCalculator :=
  ⟨market.takerFeeBaseRate, market.makerRebateBaseRate⟩

/-- All accounts are in the base tier, so the account does not matter. -/
def new (_account : Account) (market : Market B) : FeeCalculator :=
  ⟨market.takerFeeBaseRate, market.makerRebateBaseRate⟩

variable (f : FeeCalculator)

/-- `quoteQuantity` at a rate in basis points, rounded down. -/
def atRate (rate quoteQuantity : ℕ) : Call ℕ := do
  let product ← Checked.fit .unwrap 128 (quoteQuantity * rate)
  return product / feeToBpsDivisor

def makerRebate (quoteQuantity : ℕ) : Call ℕ := atRate f.makerRebateBaseRate quoteQuantity

def takerFee (quoteQuantity : ℕ) : Call ℕ := atRate f.takerFeeBaseRate quoteQuantity

/-- `quoteQuantity` less the largest fee it can incur. -/
def withholdTakerFee (quoteQuantity : ℕ) : Call ℕ := do
  let fee ← f.takerFee quoteQuantity
  return quoteQuantity - fee

end FeeCalculator

/-- The part of the net taker fee that goes to the referrer: all of it. -/
def referrerRebate (takerFee : ℕ) : ℕ := takerFee

end TonicDex
