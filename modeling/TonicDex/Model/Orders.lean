/-
  Placing orders (`limit_order.rs`, `market_order.rs`, `swap_order.rs`,
  `new_order` of `market/mod.rs`).

  Every path sizes the order in lots, hands it to the matching engine and
  settles the fills.  Limit and market orders then settle the taker's account,
  which the caller loaded before and saves after; swaps take their input from,
  and send their output to, the taker's wallet.
-/
import TonicDex.Model.Settlement

namespace TonicDex

variable {B : Type} (S : Sdk B)

/-! ## Sizing and reporting -/

namespace Market

variable (m : Market B)

/-- The most a bid may cost: the explicit maximum, or quantity times price. -/
def getMaxBidDebit (params : NewOrderParams) : Call ℕ :=
  match params.maxSpend with
  | some q => return q
  | none => do
    let limitPrice ← Checked.expect (.error .missingLimitPrice) params.limitPrice
    let volume ← u256 (params.quantity * limitPrice)
    let d ← m.baseDenomination
    u128 (volume / d)

/-- A bid must not be priced too far below the best bid. -/
def assertBidWindow (params : NewOrderParams) : Call Unit :=
  match m.bestBid S with
  | none => return ()
  | some bestBid => do
    let limitPrice ← Checked.expect .unwrap params.limitPrice
    let scaled ← u128 (limitPrice * 10000)
    let best ← m.quoteLotsToNative bestBid.limitPriceLots
    let bps ← div scaled best
    assert (m.minimumBidBps ≤ bps) "Bid outside of market trading window"

/-- An ask must not be priced too far above the best ask. -/
def assertAskWindow (params : NewOrderParams) : Call Unit :=
  match m.bestAsk S with
  | none => return ()
  | some bestAsk => do
    let limitPrice ← Checked.expect .unwrap params.limitPrice
    let scaled ← u128 (limitPrice * 10000)
    let best ← m.quoteLotsToNative bestAsk.limitPriceLots
    let bps ← div scaled best
    assert (bps ≤ m.maximumAskBps) "Ask outside of market trading window"

/-- The largest quantity that `availableQuoteLots` can buy at `limitPrice`. -/
def affordableLots (availableQuoteLots limitPrice : ℕ) : Call ℕ := do
  let available ← m.quoteLotsToNative availableQuoteLots
  let d ← m.baseDenomination
  let scaled ← u256 (available * d)
  let base ← div scaled limitPrice
  let lots ← div base m.baseToken.lotSize
  u64 lots

/-- The native quote amount a bid for `openQtyLots` locks. -/
def quoteLocked (openQtyLots limitPrice : ℕ) : Call ℕ := do
  let base ← u256 (openQtyLots * m.baseToken.lotSize)
  let volume ← u256 (base * limitPrice)
  let d ← m.baseDenomination
  u128 (volume / d)

/-- The best prices an event reports, in native amounts. -/
def reportedPrices (bestBid bestAsk : Option ℕ) : Call (Option ℕ × Option ℕ) := do
  let bid ← bestBid.mapM m.quoteLotsToNative
  let ask ← bestAsk.mapM m.quoteLotsToNative
  return (bid, ask)

end Market

/-- Where an order path has left its in-memory copies and the state. -/
structure OrderDone (B : Type) where
  result : PlaceOrderResult
  market : Market B
  takerAccount : Account
  contract : Contract B

/-- Save a posted order on the taker's account. -/
def savePosted (env : Env) (marketId : MarketId) (market : Market B) (takerAccount : Account)
    (result : PlaceOrderResult) (quantityLots : ℕ) : Call Account :=
  if result.isPosted then
    takerAccount.saveNewOrderInfo marketId result.id quantityLots market.maxOrdersPerAccount
      env.blockTimestamp
  else return takerAccount

/-! ## Limit orders -/

def internalPlaceLimitBuy (env : Env) (c : Contract B) (marketId : MarketId) (market : Market B)
    (takerAccountId : AccountId) (takerAccount : Account) (params : NewOrderParams) :
    Call (OrderDone B) := do
  let feeCalculator := FeeCalculator.new takerAccount market
  market.assertBidWindow S params
  -- the quote available for matching is the maximum spend less fees
  let maxQuoteDebit ← market.getMaxBidDebit params
  let availableQuote ← feeCalculator.withholdTakerFee maxQuoteDebit
  let availableQuoteLots ← market.quoteNativeToLots availableQuote
  Checked.require (.error .zeroOrderAmount) (availableQuoteLots ≠ 0)
  let limitPrice ← Checked.expect (.error .missingLimitPrice) params.limitPrice
  let limitPriceLots ← market.quoteNativeToLots limitPrice
  let specified ← market.baseNativeToLots params.quantity
  let affordable ← market.affordableLots availableQuoteLots limitPrice
  let quantityLots := min specified affordable
  let (sequenceNumber, c) ← c.nextSequenceNumber
  let (result, market) ← market.placeOrder S sequenceNumber takerAccountId (some limitPriceLots)
    quantityLots (some availableQuoteLots) params.side params.orderType params.clientId
  let (s, c) ← settleMatches S c marketId market feeCalculator params.side result.fills
    params.referrerId "bid accounting bug: over-counted fees"
  let net ← s.netFee
  let market ← market.incrFeesAccrued net
  -- credit the base purchased, debit the quote spent and locked
  let takerAccount ← takerAccount.deposit S market.baseToken.tokenType s.baseTraded
  let quoteLocked ← market.quoteLocked result.openQtyLots limitPrice
  let spent ← u128 (quoteLocked + s.quoteTraded)
  let totalQuoteDebit ← u128 (spent + s.totalTakerFee)
  assert (totalQuoteDebit ≤ maxQuoteDebit) "bid bug: overspent"
  let takerAccount ← takerAccount.withdraw S market.quoteToken.tokenType totalQuoteDebit
  let takerAccount ← savePosted env marketId market takerAccount result quantityLots
  let _ ← market.baseLotsToNative result.openQtyLots
  let _ ← market.reportedPrices result.bestBid result.bestAsk
  return ⟨result, market, takerAccount, c⟩

def internalPlaceLimitSell (env : Env) (c : Contract B) (marketId : MarketId) (market : Market B)
    (takerAccountId : AccountId) (takerAccount : Account) (params : NewOrderParams) :
    Call (OrderDone B) := do
  let feeCalculator := FeeCalculator.new takerAccount market
  market.assertAskWindow S params
  let maxBaseDebit := params.quantity
  Checked.require (.error .zeroOrderAmount) (maxBaseDebit ≠ 0)
  let quantityLots ← market.baseNativeToLots params.quantity
  let limitPrice ← Checked.expect (.error .missingLimitPrice) params.limitPrice
  let limitPriceLots ← market.quoteNativeToLots limitPrice
  let (sequenceNumber, c) ← c.nextSequenceNumber
  let (result, market) ← market.placeOrder S sequenceNumber takerAccountId (some limitPriceLots)
    quantityLots none params.side params.orderType params.clientId
  let (s, c) ← settleMatches S c marketId market feeCalculator params.side result.fills
    params.referrerId "ask accounting bug: over-counted fees"
  let net ← s.netFee
  let market ← market.incrFeesAccrued net
  -- credit the quote received, debit the base sold and locked
  let received ← sub s.quoteTraded s.totalTakerFee
  let takerAccount ← takerAccount.deposit S market.quoteToken.tokenType received
  let baseLocked ← market.baseLotsToNative result.openQtyLots
  let totalBaseDebit ← u128 (s.baseTraded + baseLocked)
  assert (totalBaseDebit ≤ maxBaseDebit) "ask bug: oversold"
  let takerAccount ← takerAccount.withdraw S market.baseToken.tokenType totalBaseDebit
  let takerAccount ← savePosted env marketId market takerAccount result quantityLots
  let _ ← market.reportedPrices result.bestBid result.bestAsk
  return ⟨result, market, takerAccount, c⟩

/-! ## Market orders -/

/-- The token a taker pays with and the one received. -/
def tradedTokens (market : Market B) (side : Side) : TokenType × TokenType :=
  match side with
  | .buy => (market.quoteToken.tokenType, market.baseToken.tokenType)
  | .sell => (market.baseToken.tokenType, market.quoteToken.tokenType)

/-- The quote lots a market order may spend: no bound is given for asks. -/
def marketOrderBudget (market : Market B) (feeCalculator : FeeCalculator) (side : Side)
    (maxSpend : Option ℕ) : Call (Option ℕ) :=
  match side, maxSpend with
  | .buy, some maxSpend => do
    let maxSpendAfterFees ← feeCalculator.withholdTakerFee maxSpend
    let lots ← market.quoteNativeToLots maxSpendAfterFees
    return some lots
  | .buy, none => return some u64Max
  | .sell, _ => return none

/-- What the taker pays and receives in a trade. -/
def takerAmounts (s : Settled) (side : Side) : Call (ℕ × ℕ) :=
  match side with
  | .buy => do
    let inputDebit ← u128 (s.quoteTraded + s.totalTakerFee)
    return (inputDebit, s.baseTraded)
  | .sell => do
    let outputCredit ← sub s.quoteTraded s.totalTakerFee
    return (s.baseTraded, outputCredit)

def internalPlaceMarketOrder (c : Contract B) (marketId : MarketId) (market : Market B)
    (takerAccountId : AccountId) (takerAccount : Account) (params : NewOrderParams) :
    Call (OrderDone B) := do
  let maxQtyLots ← market.baseNativeToLots params.quantity
  Checked.require (.error .zeroOrderAmount) (maxQtyLots ≠ 0)
  let feeCalculator := FeeCalculator.new takerAccount market
  let availableQuoteLots ← marketOrderBudget market feeCalculator params.side params.maxSpend
  let (sequenceNumber, c) ← c.nextSequenceNumber
  let (result, market) ← market.placeOrder S sequenceNumber takerAccountId none maxQtyLots
    availableQuoteLots params.side params.orderType params.clientId
  let (s, c) ← settleMatches S c marketId market feeCalculator params.side result.fills
    params.referrerId "accounting bug: over-counted fees"
  let (inputToken, outputToken) := tradedTokens market params.side
  let (inputDebit, outputCredit) ← takerAmounts s params.side
  assert (params.side = .buy → inputDebit ≤ params.maxSpend.getD u128Max)
    "market order overspent"
  let takerAccount ← takerAccount.withdraw S inputToken inputDebit
  let takerAccount ← takerAccount.deposit S outputToken outputCredit
  let net ← s.netFee
  let market ← market.incrFeesAccrued net
  let _ ← market.reportedPrices result.bestBid result.bestAsk
  return ⟨result, market, takerAccount, c⟩

/-! ## `new_order` -/

def assertValidOrder (order : NewOrderParams) : Call Unit := do
  assert (order.limitPrice ≠ some 0) "Limit price must be greater than 0"
  assert (order.maxSpend ≠ some 0) "Max spend must be greater than 0"
  assert (0 < order.quantity) "Quantity must be greater than 0"

/-- The path an order takes by its type and side. -/
def placeByType (env : Env) (c : Contract B) (marketId : MarketId) (market : Market B)
    (takerAccountId : AccountId) (takerAccount : Account) (order : NewOrderParams) :
    Call (OrderDone B) :=
  if order.orderType = .market then
    internalPlaceMarketOrder S c marketId market takerAccountId takerAccount order
  else
    match order.side with
    | .buy => internalPlaceLimitBuy S env c marketId market takerAccountId takerAccount order
    | .sell => internalPlaceLimitSell S env c marketId market takerAccountId takerAccount order

/-- Place a new order of the predecessor account. -/
def newOrder (env : Env) (c : Contract B) (marketId : MarketId) (order : NewOrderParams) :
    Call (PlaceOrderResult × Contract B) := do
  c.assertActive
  assertValidOrder order
  let market ← c.internalUnwrapMarket marketId
  market.assertActive
  let takerAccountId := env.predecessorAccountId
  let takerAccount ← c.internalUnwrapAccount takerAccountId
  let done ← placeByType S env c marketId market takerAccountId takerAccount order
  let c ← done.contract.internalSaveAccount S takerAccountId done.takerAccount
  return (done.result, c.internalSaveMarket marketId done.market)

/-! ## Swaps -/

structure SwapAction where
  marketId : MarketId
  side : Side
  minOutputToken : Option ℕ
  referrerId : Option AccountId

structure SwapResult where
  outputToken : TokenType
  outputAmount : ℕ
  inputRefund : ℕ

/-- What a swap asks for: a buy is bounded by its budget only. -/
def swapQuantity (feeCalculator : FeeCalculator) (side : Side) (inputAmount : ℕ) :
    Call (ℕ × Option ℕ) :=
  match side with
  | .buy => do
    let availableQuote ← feeCalculator.withholdTakerFee inputAmount
    return (u128Max, some availableQuote)
  | .sell => return (inputAmount, none)

/-- The part of a swap's input that the trade did not use. -/
def inputRefund (s : Settled) (side : Side) (inputAmount quantity : ℕ) : Call ℕ :=
  match side with
  | .buy => do
    let rest ← sub inputAmount s.quoteTraded
    sub rest s.totalTakerFee
  | .sell => sub quantity s.baseTraded

/-- What a swap pays out. -/
def outputAmount (s : Settled) (side : Side) : Call ℕ :=
  match side with
  | .buy => return s.baseTraded
  | .sell => sub s.quoteTraded s.totalTakerFee

def internalSwap (env : Env) (c : Contract B) (marketId : MarketId) (market : Market B)
    (side : Side) (inputAmount : ℕ) (referrerId : Option AccountId) :
    Call (SwapResult × Market B × Contract B) := do
  market.assertActive
  -- the taker is the signer of the transaction, not the sender of the input
  let takerAccountId := env.signerAccountId
  let feeCalculator := FeeCalculator.newWithBaseRate market
  let (quantity, availableQuote) ← swapQuantity feeCalculator side inputAmount
  let (sequenceNumber, c) ← c.nextSequenceNumber
  let maxQtyLots ← market.baseNativeToLots quantity
  let availableQuoteLots ← availableQuote.mapM market.quoteNativeToLots
  let (result, market) ← market.placeOrder S sequenceNumber takerAccountId none maxQtyLots
    availableQuoteLots side .market none
  let (s, c) ← settleMatches S c marketId market feeCalculator side result.fills referrerId
    "bid accounting bug: over-counted fees"
  let net ← s.netFee
  let market ← market.incrFeesAccrued net
  let outputAmount ← outputAmount s side
  let inputRefund ← inputRefund s side inputAmount quantity
  let (_, outputToken) := tradedTokens market side
  let _ ← market.reportedPrices result.bestBid result.bestAsk
  return (⟨outputToken, outputAmount, inputRefund⟩, market, c)

def executeSwapAction (env : Env) (c : Contract B) (swap : SwapAction) (token : TokenType)
    (amount : ℕ) : Call (SwapResult × Contract B) := do
  let market ← c.internalUnwrapMarket swap.marketId
  let (inputToken, _) := tradedTokens market swap.side
  assert (token = inputToken) "assertion failed: (left == right)"
  let (result, market, c) ←
    internalSwap S env c swap.marketId market swap.side amount swap.referrerId
  Checked.require (.error .exceededSlippageTolerance)
    (swap.minOutputToken.getD 0 ≤ result.outputAmount)
  return (result, c.internalSaveMarket swap.marketId market)

/-- The hops of a swap: each takes what the one before it put out.  The input
    refunds are dropped. -/
def executeHops (env : Env) : Contract B → List SwapAction → TokenType → ℕ →
    Call ((TokenType × ℕ) × Contract B)
  | c, [], token, amount => return ((token, amount), c)
  | c, swap :: swaps, token, amount => do
    let (result, c) ← executeSwapAction S env c swap token amount
    executeHops env c swaps result.outputToken result.outputAmount

/-- Run a chain of swaps and send its output to `senderId`.  The first component
    is the answer of `ft_on_transfer`: how much of the input was not used. -/
def executeSwaps (env : Env) (c : Contract B) (swaps : List SwapAction) (inputToken : TokenType)
    (inputAmount : ℕ) (senderId : AccountId) : Call (ℕ × List Promise × Contract B) := do
  assert (swaps ≠ []) "At least 1 swap action must be provided"
  assert ((swaps.getLast?.bind SwapAction.minOutputToken).isSome)
    "Slippage tolerance must be provided"
  let ((token, amount), c) ← executeHops S env c swaps inputToken inputAmount
  return (0, if 0 < amount then [.send senderId token amount] else [], c)

end TonicDex
