/-
  Creating markets, the callbacks that fill in their decimals, and the calls
  of the owner (first half of `market/mod.rs`, `external_tokens.rs`,
  `admin.rs`).
-/
import TonicDex.Model.Balances

namespace TonicDex

variable {B : Type} (S : Sdk B)

/-! ## Creating markets -/

instance neZero_u8 : NeZero 256 := ⟨by decide⟩

structure CreateMarketArgs where
  baseToken : String
  quoteToken : String
  baseTokenLotSize : ℕ
  quoteTokenLotSize : ℕ
  /-- in basis points, a `u8` -/
  takerFeeBaseRate : Fin 256
  makerRebateBaseRate : Fin 256

def genMarketId (baseToken : TokenType) (baseLotSize : ℕ) (quoteToken : TokenType)
    (quoteLotSize : ℕ) : MarketId :=
  S.sha256 (S.currentAccountId.name ++ " " ++ S.key baseToken ++ " " ++ toString baseLotSize ++
    " " ++ S.key quoteToken ++ " " ++ toString quoteLotSize)

def assertValidLotSizes (baseTokenLotSize quoteTokenLotSize : ℕ) : Call Unit := do
  assert (baseTokenLotSize % 10 = 0 ∨ baseTokenLotSize = 1) "Invalid base lot size"
  assert (quoteTokenLotSize % 10 = 0 ∨ quoteTokenLotSize = 1) "Invalid quote lot size"
  Checked.require (.error .invalidBaseLotSize) (baseTokenLotSize ≠ 0)
  Checked.require (.error .invalidQuoteLotSize) (quoteTokenLotSize ≠ 0)

/-- The decimals of a token if they are known at once, else the promise that
    will tell. -/
def getDecimalsForToken (marketId : MarketId) (pairSide : PairSide) (token : TokenType) :
    Option ℕ × List Promise :=
  match token with
  | .nativeNear => (some 24, [])
  | .fungibleToken accountId => (none, [.ftMetadata accountId marketId pairSide])
  | .multiFungibleToken accountId subtokenId =>
    (none, [.mtMetadata accountId subtokenId marketId pairSide])

def createMarket (env : Env) (c : Contract B) (args : CreateMarketArgs) :
    Call (MarketId × List Promise × Contract B) := do
  c.assertActive
  assert (args.makerRebateBaseRate.val < args.takerFeeBaseRate ∨
      (args.makerRebateBaseRate.val = 0 ∧ args.takerFeeBaseRate.val = 0))
    "maker rebate rate must be less than taker fee rate"
  assert (args.baseToken ≠ args.quoteToken) "base and quote tokens should be different"
  let baseToken ← S.fromKey args.baseToken
  let quoteToken ← S.fromKey args.quoteToken
  let marketId := genMarketId S baseToken args.baseTokenLotSize quoteToken args.quoteTokenLotSize
  Checked.require (.error .marketExists) ((c.markets.lookup marketId).isNone = true)
  assertValidLotSizes args.baseTokenLotSize args.quoteTokenLotSize
  let (baseDecimals, basePromises) := getDecimalsForToken marketId .base baseToken
  let (quoteDecimals, quotePromises) := getDecimalsForToken marketId .quote quoteToken
  let c := c.internalSaveMarket marketId
    { baseToken := ⟨baseToken, args.baseTokenLotSize, baseDecimals.getD invalidDecimals⟩
      quoteToken := ⟨quoteToken, args.quoteTokenLotSize, quoteDecimals.getD invalidDecimals⟩
      orderbook := S.emptyBook
      state := .uninitialized
      feesAccrued := 0
      takerFeeBaseRate := args.takerFeeBaseRate
      makerRebateBaseRate := args.makerRebateBaseRate
      maxOrdersPerAccount := defaultMaxOrders
      minimumBidBps := defaultMinMultiplierBps
      maximumAskBps := defaultMaxMultiplierBps }
  let c := { c with marketIterMap := c.marketIterMap ++ [marketId] }
  let depositUsed ← u128 (env.storageIncrease * S.storageByteCost)
  Checked.require (.error .insufficientMarketDeposit) (depositUsed ≤ env.attachedDeposit)
  let refund := env.attachedDeposit - depositUsed
  let refunds := if 0 < refund then [Promise.transfer env.predecessorAccountId refund] else []
  return (marketId, basePromises ++ quotePromises ++ refunds, c)

/-! ## Metadata callbacks -/

/-- The `decimals` a token contract reported: nothing if there is no metadata. -/
def onFtMetadata (c : Contract B) (marketId : MarketId) (pairSide : PairSide)
    (ftMetadata : Option ℕ) : Call (Contract B) := do
  let market ← c.internalUnwrapMarket marketId
  match ftMetadata with
  | some decimals => do
    let market := market.setDecimals pairSide decimals
    let valid ← market.validateLotsAndDecimals
    return c.internalSaveMarket marketId
      (if valid then { market with state := .active } else market)
  | none => return c

/-- `str::parse::<u8>`: decimal digits after an optional plus sign. -/
def parseU8 (s : String) : Option ℕ :=
  let digits := match s.toList with
    | '+' :: rest => rest
    | cs => cs
  if digits ≠ [] ∧ digits.all Char.isDigit = true then
    let n := digits.foldl (fun n d => 10 * n + (d.toNat - '0'.toNat)) 0
    if n < 2 ^ 8 then some n else none
  else none

/-- The `decimals` of each token a multi-token contract reported on.  Unlike
    `onFtMetadata`, this does not validate lot sizes against decimals. -/
def onMtMetadata (c : Contract B) (marketId : MarketId) (pairSide : PairSide)
    (mtMetadata : Option (List (Option String))) : Call (Contract B) := do
  let market ← c.internalUnwrapMarket marketId
  match mtMetadata with
  | some metadata =>
    match (metadata.head?.bind id).bind parseU8 with
    | some decimals =>
      let market := market.setDecimals pairSide decimals
      let market :=
        if market.baseToken.decimals ≠ invalidDecimals ∧
            market.quoteToken.decimals ≠ invalidDecimals then
          { market with state := .active }
        else market
      return c.internalSaveMarket marketId market
    | none => return c.internalSaveMarket marketId market
  | none => return c

/-! ## Calls of the owner -/

def setContractState (env : Env) (c : Contract B) (state : ContractState) :
    Call (Contract B) := do
  c.assertIsOwner env
  return { c with state }

def setOwner (env : Env) (c : Contract B) (accountId : AccountId) : Call (Contract B) := do
  c.assertIsOwner env
  return { c with ownerId := accountId }

def setMarketState (env : Env) (c : Contract B) (marketId : MarketId) (newState : MarketState) :
    Call (Contract B) := do
  c.assertIsOwner env
  let market ← c.internalUnwrapMarket marketId
  return c.internalSaveMarket marketId (market.setState newState)

def setMarketBidWindow (env : Env) (c : Contract B) (marketId : MarketId)
    (minimumBidBps : ℕ) : Call (Contract B) := do
  c.assertIsOwner env
  let market ← c.internalUnwrapMarket marketId
  return c.internalSaveMarket marketId { market with minimumBidBps }

def setMarketAskWindow (env : Env) (c : Contract B) (marketId : MarketId)
    (maximumAskBps : ℕ) : Call (Contract B) := do
  c.assertIsOwner env
  let market ← c.internalUnwrapMarket marketId
  return c.internalSaveMarket marketId { market with maximumAskBps }

/-- `Vector::swap_remove`: the last element takes the place of the removed one. -/
def swapRemove {α : Type} (l : List α) (i : ℕ) : List α :=
  if i + 1 = l.length then l.dropLast
  else match l.getLast? with
    | some last => (l.set i last).dropLast
    | none => l

/-- A market can be deleted while it waits for decimals, or when it is paused
    and its book is empty. -/
def Market.canDelete (market : Market B) : Bool :=
  match market.state with
  | .uninitialized => true
  | .paused => (S.bids market.orderbook).isEmpty && (S.asks market.orderbook).isEmpty
  | _ => false

def adminDeleteMarket (env : Env) (c : Contract B) (marketId : MarketId) :
    Call (Contract B) := do
  c.assertIsOwner env
  let market ← c.internalUnwrapMarket marketId
  assert (market.canDelete S = true) "Market cannot be deleted"
  match c.marketIterMap.findIdx? (· = marketId) with
  | some pos => return { c with
      marketIterMap := swapRemove c.marketIterMap pos, markets := c.markets.erase marketId }
  | none => return c

def adminCancelOrder (env : Env) (c : Contract B) (marketId : MarketId) (orderId : OrderId) :
    Call (Contract B) := do
  c.assertIsOwner env
  let market ← c.internalUnwrapMarket marketId
  let order ← Checked.expect (.error .orderNotFound) (S.getOrder market.orderbook orderId)
  internalCancelOrder S c marketId order.ownerId orderId

def adminCancelAllUserOrders (env : Env) (c : Contract B) (marketId : MarketId)
    (accountId : AccountId) : Call (List OrderId × Contract B) := do
  c.assertIsOwner env
  internalCancelAllOrders S c marketId accountId

def adminClearOrderbook (env : Env) (c : Contract B) (marketId : MarketId)
    (limit : Option ℕ) : Call (List OrderId × Contract B) := do
  c.assertIsOwner env
  internalClearOrderbookOrders S c marketId limit

end TonicDex
