/-
  The events that calls log.

  `emit_event` appends to the log of the transaction, which counts only if the
  call returns.  The functions of `TonicDex.Logging` are those of the same name
  with their `emit_event`; what logs nothing is called as it is.  The price
  ranks that the matching engine reports are left out of the events, as they
  are out of its results.
-/
import TonicDex.Lib.Logged
import TonicDex.Model.System

namespace TonicDex

variable {B : Type} (S : Sdk B)

/-! ## Events -/

structure FillEventData where
  makerOrderId : OrderId
  makerRebate : ℕ
  fillQty : ℕ
  fillPrice : ℕ
  quoteQty : ℕ
  side : Side
  takerAccountId : AccountId
  makerAccountId : AccountId
  deriving DecidableEq

structure NewFillEvent where
  fills : List FillEventData
  marketId : MarketId
  orderId : OrderId

structure NewOrderEvent where
  accountId : AccountId
  marketId : MarketId
  orderId : OrderId
  openQuantity : Option ℕ
  limitPrice : ℕ
  quantity : ℕ
  side : Side
  orderType : OrderType
  takerFee : ℕ
  referrerId : Option AccountId
  referrerRebate : ℕ
  isSwap : Bool
  clientId : Option ClientId
  bestBid : Option ℕ
  bestAsk : Option ℕ
  deriving DecidableEq

structure NewCancelEvent where
  marketId : MarketId
  cancels : List CancelEventData

structure NewMarketEvent where
  creatorId : AccountId
  marketId : MarketId
  baseToken : TokenType
  quoteToken : TokenType

inductive EventType where
  | fill (event : NewFillEvent)
  | order (event : NewOrderEvent)
  | cancel (event : NewCancelEvent)
  | newMarket (event : NewMarketEvent)

abbrev Log := List EventType

/-- A call, or a part of one, with what it logs. -/
abbrev Logging := Logged Panic EventType

def emitEvent (event : EventType) : Logging Unit := Logged.emit event

namespace Logging

/-! ## Settling trades (`settlement.rs`) -/

/-- One round of the loop of `internal_settle_maker_fills`, with the data of the
    fill. -/
def settleMakerFill (marketId : MarketId) (market : Market B) (side : Side)
    (takerAccountId : AccountId) (acc : (MakerSettlementResult × Contract B) × List FillEventData)
    (fill : Match) : Call ((MakerSettlementResult × Contract B) × List FillEventData) := do
  let ((total, c), fills) := acc
  let nativeFillPrice ← market.quoteLotsToNative fill.fillPriceLots
  let nativeFillQty ← market.baseLotsToNative fill.fillQtyLots
  let baseTraded ← u128 (total.baseTraded + nativeFillQty)
  let quoteTraded ← u128 (total.quoteTraded + fill.nativeQuotePaid)
  let makerAccount ← c.internalUnwrapAccount fill.makerUserId
  let (nativeMakerRebate, makerAccount) ←
    creditMaker S marketId market side fill nativeFillQty makerAccount
  let totalMakerRebate ← u128 (total.totalMakerRebate + nativeMakerRebate)
  let c ← c.internalSaveAccount S fill.makerUserId makerAccount
  return ((⟨baseTraded, quoteTraded, totalMakerRebate⟩, c), fills ++
    [{ makerOrderId := fill.makerOrderId
       makerRebate := nativeMakerRebate
       fillQty := nativeFillQty
       fillPrice := nativeFillPrice
       quoteQty := fill.nativeQuotePaid
       side
       takerAccountId
       makerAccountId := fill.makerUserId }])

/-- Without matches nothing is logged. -/
def internalSettleMakerFills (c : Contract B) (marketId : MarketId) (market : Market B)
    (orderId : OrderId) (side : Side) (fills : List Match) (takerAccountId : AccountId) :
    Logging (MakerSettlementResult × Contract B) :=
  if fills.isEmpty then return (.default, c)
  else do
    let (r, data) ← (fills.foldlM (settleMakerFill S marketId market side takerAccountId)
      ((.default, c), []) : Call _)
    emitEvent (.fill ⟨data, marketId, orderId⟩)
    return r

def settleMatches (c : Contract B) (marketId : MarketId) (market : Market B)
    (feeCalculator : FeeCalculator) (orderId : OrderId) (side : Side) (fills : List Match)
    (takerAccountId : AccountId) (referrerId : Option AccountId) (bug : String) :
    Logging (Settled × Contract B) := do
  let (makers, c) ← internalSettleMakerFills S c marketId market orderId side fills takerAccountId
  let totalTakerFee ← feeCalculator.takerFee makers.quoteTraded
  let net ← sub totalTakerFee makers.totalMakerRebate
  let (referrerRebate, c) ←
    internalSettleReferrerRebate S c market.quoteToken.tokenType referrerId net
  let rebates ← u128 (referrerRebate + makers.totalMakerRebate)
  assert (rebates ≤ totalTakerFee) bug
  return (⟨makers, totalTakerFee, referrerRebate⟩, c)

/-! ## Orders (`limit_order.rs`, `market_order.rs`, `new_order`) -/

def internalPlaceLimitBuy (env : Env) (c : Contract B) (marketId : MarketId) (market : Market B)
    (takerAccountId : AccountId) (takerAccount : Account) (params : NewOrderParams) :
    Logging (OrderDone B) := do
  let feeCalculator := FeeCalculator.new takerAccount market
  market.assertBidWindow S params
  let maxQuoteDebit ← market.getMaxBidDebit params
  let availableQuote ← feeCalculator.withholdTakerFee maxQuoteDebit
  let availableQuoteLots ← market.quoteNativeToLots availableQuote
  (Checked.require (.error .zeroOrderAmount) (availableQuoteLots ≠ 0) : Call Unit)
  let limitPrice ← (Checked.expect (.error .missingLimitPrice) params.limitPrice : Call ℕ)
  let limitPriceLots ← market.quoteNativeToLots limitPrice
  let specified ← market.baseNativeToLots params.quantity
  let affordable ← market.affordableLots availableQuoteLots limitPrice
  let quantityLots := min specified affordable
  let (sequenceNumber, c) ← c.nextSequenceNumber
  let (result, market) ← market.placeOrder S sequenceNumber takerAccountId (some limitPriceLots)
    quantityLots (some availableQuoteLots) params.side params.orderType params.clientId
  let (s, c) ← settleMatches S c marketId market feeCalculator result.id params.side result.fills
    takerAccountId params.referrerId "bid accounting bug: over-counted fees"
  let net ← s.netFee
  let market ← market.incrFeesAccrued net
  let takerAccount ← takerAccount.deposit S market.baseToken.tokenType s.baseTraded
  let quoteLocked ← market.quoteLocked result.openQtyLots limitPrice
  let spent ← u128 (quoteLocked + s.quoteTraded)
  let totalQuoteDebit ← u128 (spent + s.totalTakerFee)
  assert (totalQuoteDebit ≤ maxQuoteDebit) "bid bug: overspent"
  let takerAccount ← takerAccount.withdraw S market.quoteToken.tokenType totalQuoteDebit
  let takerAccount ← savePosted env marketId market takerAccount result quantityLots
  let openQuantity ← market.baseLotsToNative result.openQtyLots
  let (bestBid, bestAsk) ← market.reportedPrices result.bestBid result.bestAsk
  emitEvent (.order
    { accountId := takerAccountId
      marketId
      orderId := result.id
      openQuantity := some openQuantity
      limitPrice
      quantity := params.quantity
      side := params.side
      orderType := params.orderType
      takerFee := s.totalTakerFee
      referrerId := params.referrerId
      referrerRebate := s.referrerRebate
      isSwap := false
      clientId := params.clientId
      bestBid
      bestAsk })
  return ⟨result, market, takerAccount, c⟩

def internalPlaceLimitSell (env : Env) (c : Contract B) (marketId : MarketId) (market : Market B)
    (takerAccountId : AccountId) (takerAccount : Account) (params : NewOrderParams) :
    Logging (OrderDone B) := do
  let feeCalculator := FeeCalculator.new takerAccount market
  market.assertAskWindow S params
  let maxBaseDebit := params.quantity
  (Checked.require (.error .zeroOrderAmount) (maxBaseDebit ≠ 0) : Call Unit)
  let quantityLots ← market.baseNativeToLots params.quantity
  let limitPrice ← (Checked.expect (.error .missingLimitPrice) params.limitPrice : Call ℕ)
  let limitPriceLots ← market.quoteNativeToLots limitPrice
  let (sequenceNumber, c) ← c.nextSequenceNumber
  let (result, market) ← market.placeOrder S sequenceNumber takerAccountId (some limitPriceLots)
    quantityLots none params.side params.orderType params.clientId
  let (s, c) ← settleMatches S c marketId market feeCalculator result.id params.side result.fills
    takerAccountId params.referrerId "ask accounting bug: over-counted fees"
  let net ← s.netFee
  let market ← market.incrFeesAccrued net
  let received ← sub s.quoteTraded s.totalTakerFee
  let takerAccount ← takerAccount.deposit S market.quoteToken.tokenType received
  let baseLocked ← market.baseLotsToNative result.openQtyLots
  let totalBaseDebit ← u128 (s.baseTraded + baseLocked)
  assert (totalBaseDebit ≤ maxBaseDebit) "ask bug: oversold"
  let takerAccount ← takerAccount.withdraw S market.baseToken.tokenType totalBaseDebit
  let takerAccount ← savePosted env marketId market takerAccount result quantityLots
  let (bestBid, bestAsk) ← market.reportedPrices result.bestBid result.bestAsk
  emitEvent (.order
    { accountId := takerAccountId
      marketId
      orderId := result.id
      -- computed once more in the source, from the same lots
      openQuantity := some baseLocked
      limitPrice
      quantity := params.quantity
      side := params.side
      orderType := params.orderType
      takerFee := s.totalTakerFee
      referrerId := params.referrerId
      referrerRebate := s.referrerRebate
      isSwap := false
      clientId := params.clientId
      bestBid
      bestAsk })
  return ⟨result, market, takerAccount, c⟩

def internalPlaceMarketOrder (c : Contract B) (marketId : MarketId) (market : Market B)
    (takerAccountId : AccountId) (takerAccount : Account) (params : NewOrderParams) :
    Logging (OrderDone B) := do
  let maxQtyLots ← market.baseNativeToLots params.quantity
  (Checked.require (.error .zeroOrderAmount) (maxQtyLots ≠ 0) : Call Unit)
  let feeCalculator := FeeCalculator.new takerAccount market
  let availableQuoteLots ← marketOrderBudget market feeCalculator params.side params.maxSpend
  let (sequenceNumber, c) ← c.nextSequenceNumber
  let (result, market) ← market.placeOrder S sequenceNumber takerAccountId none maxQtyLots
    availableQuoteLots params.side params.orderType params.clientId
  let (s, c) ← settleMatches S c marketId market feeCalculator result.id params.side result.fills
    takerAccountId params.referrerId "accounting bug: over-counted fees"
  let (inputToken, outputToken) := tradedTokens market params.side
  let (inputDebit, outputCredit) ← takerAmounts s params.side
  assert (params.side = .buy → inputDebit ≤ params.maxSpend.getD u128Max)
    "market order overspent"
  let takerAccount ← takerAccount.withdraw S inputToken inputDebit
  let takerAccount ← takerAccount.deposit S outputToken outputCredit
  let net ← s.netFee
  let market ← market.incrFeesAccrued net
  let (bestBid, bestAsk) ← market.reportedPrices result.bestBid result.bestAsk
  emitEvent (.order
    { accountId := takerAccountId
      marketId
      orderId := result.id
      openQuantity := some 0
      limitPrice := 0
      quantity := params.quantity
      side := params.side
      orderType := params.orderType
      takerFee := s.totalTakerFee
      referrerId := params.referrerId
      referrerRebate := s.referrerRebate
      isSwap := false
      clientId := params.clientId
      bestBid
      bestAsk })
  return ⟨result, market, takerAccount, c⟩

def placeByType (env : Env) (c : Contract B) (marketId : MarketId) (market : Market B)
    (takerAccountId : AccountId) (takerAccount : Account) (order : NewOrderParams) :
    Logging (OrderDone B) :=
  if order.orderType = .market then
    internalPlaceMarketOrder S c marketId market takerAccountId takerAccount order
  else
    match order.side with
    | .buy => internalPlaceLimitBuy S env c marketId market takerAccountId takerAccount order
    | .sell => internalPlaceLimitSell S env c marketId market takerAccountId takerAccount order

def newOrder (env : Env) (c : Contract B) (marketId : MarketId) (order : NewOrderParams) :
    Logging (PlaceOrderResult × Contract B) := do
  c.assertActive
  assertValidOrder order
  let market ← c.internalUnwrapMarket marketId
  market.assertActive
  let takerAccountId := env.predecessorAccountId
  let takerAccount ← c.internalUnwrapAccount takerAccountId
  let done ← placeByType S env c marketId market takerAccountId takerAccount order
  let c ← done.contract.internalSaveAccount S takerAccountId done.takerAccount
  return (done.result, c.internalSaveMarket marketId done.market)

/-! ## Swaps (`swap_order.rs`, `token_receiver.rs`) -/

def internalSwap (env : Env) (c : Contract B) (marketId : MarketId) (market : Market B)
    (side : Side) (inputAmount : ℕ) (referrerId : Option AccountId) :
    Logging (SwapResult × Market B × Contract B) := do
  market.assertActive
  let takerAccountId := env.signerAccountId
  let feeCalculator := FeeCalculator.newWithBaseRate market
  let (quantity, availableQuote) ← swapQuantity feeCalculator side inputAmount
  let (sequenceNumber, c) ← c.nextSequenceNumber
  let maxQtyLots ← market.baseNativeToLots quantity
  let availableQuoteLots ← (availableQuote.mapM market.quoteNativeToLots : Call (Option ℕ))
  let (result, market) ← market.placeOrder S sequenceNumber takerAccountId none maxQtyLots
    availableQuoteLots side .market none
  let (s, c) ← settleMatches S c marketId market feeCalculator result.id side result.fills
    takerAccountId referrerId "bid accounting bug: over-counted fees"
  let net ← s.netFee
  let market ← market.incrFeesAccrued net
  let outputAmount ← outputAmount s side
  let inputRefund ← inputRefund s side inputAmount quantity
  let (_, outputToken) := tradedTokens market side
  let (bestBid, bestAsk) ← market.reportedPrices result.bestBid result.bestAsk
  emitEvent (.order
    { accountId := takerAccountId
      marketId
      orderId := result.id
      openQuantity := some 0
      limitPrice := 0
      quantity
      side
      orderType := .market
      takerFee := s.totalTakerFee
      referrerId
      referrerRebate := s.referrerRebate
      isSwap := true
      clientId := none
      bestBid
      bestAsk })
  return (⟨outputToken, outputAmount, inputRefund⟩, market, c)

def executeSwapAction (env : Env) (c : Contract B) (swap : SwapAction) (token : TokenType)
    (amount : ℕ) : Logging (SwapResult × Contract B) := do
  let market ← c.internalUnwrapMarket swap.marketId
  let (inputToken, _) := tradedTokens market swap.side
  assert (token = inputToken) "assertion failed: (left == right)"
  let (result, market, c) ←
    internalSwap S env c swap.marketId market swap.side amount swap.referrerId
  (Checked.require (.error .exceededSlippageTolerance)
    (swap.minOutputToken.getD 0 ≤ result.outputAmount) : Call Unit)
  return (result, c.internalSaveMarket swap.marketId market)

def executeHops (env : Env) : Contract B → List SwapAction → TokenType → ℕ →
    Logging ((TokenType × ℕ) × Contract B)
  | c, [], token, amount => return ((token, amount), c)
  | c, swap :: swaps, token, amount => do
    let (result, c) ← executeSwapAction S env c swap token amount
    executeHops env c swaps result.outputToken result.outputAmount

def executeSwaps (env : Env) (c : Contract B) (swaps : List SwapAction) (inputToken : TokenType)
    (inputAmount : ℕ) (senderId : AccountId) : Logging (ℕ × List Promise × Contract B) := do
  assert (swaps ≠ []) "At least 1 swap action must be provided"
  assert ((swaps.getLast?.bind SwapAction.minOutputToken).isSome)
    "Slippage tolerance must be provided"
  let ((token, amount), c) ← executeHops S env c swaps inputToken inputAmount
  return (0, if 0 < amount then [.send senderId token amount] else [], c)

def swapNear (env : Env) (c : Contract B) (swaps : List SwapAction) :
    Logging (ℕ × List Promise × Contract B) := do
  c.assertActive
  executeSwaps S env c swaps .nativeNear env.attachedDeposit env.predecessorAccountId

def ftOnTransfer (env : Env) (c : Contract B) (senderId : AccountId) (amount : ℕ)
    (msg : TransferMsg) : Logging (ℕ × List Promise × Contract B) := do
  c.assertActive
  let token := TokenType.fungibleToken env.predecessorAccountId
  match msg with
  | .empty => do
    let c ← c.internalDeposit S senderId token amount
    return (0, [], c)
  | .swap swaps => executeSwaps S env c swaps token amount senderId
  | .otherAction => (throw (.error .invalidAction) : Call _)
  | .invalid => (throw (.message "Invalid message") : Call _)

/-! ## Cancelling (`market/mod.rs`, `admin.rs`) -/

def internalCancelAllOrders (c : Contract B) (marketId : MarketId) (accountId : AccountId) :
    Logging (List OrderId × Contract B) := do
  let market ← c.internalUnwrapMarket marketId
  market.assertCanCancel
  let account ← c.internalUnwrapAccount accountId
  let (orderIds, account) := account.removeAllOrderInfos S marketId
  let (orders, orderbook) ← S.cancelOrders market.orderbook orderIds
  let market := { market with orderbook }
  let (cancels, account) ← processRefunds S market marketId accountId account orders
  let c := c.internalSaveMarket marketId market
  let c ← c.internalSaveAccount S accountId account
  emitEvent (.cancel ⟨marketId, cancels⟩)
  return (orderIds, c)

def internalCancelOrder (c : Contract B) (marketId : MarketId) (accountId : AccountId)
    (orderId : OrderId) : Logging (Contract B) := do
  let market ← c.internalUnwrapMarket marketId
  market.assertCanCancel
  let account ← c.internalUnwrapAccount accountId
  match account.removeOrderInfo marketId orderId with
  | (some _, account) => do
    let (order, orderbook) := S.cancelOrder market.orderbook orderId
    let market := { market with orderbook }
    let order ← (Checked.expect (.error .orderNotFound) order : Call CancelOrderResult)
    let (cancels, account) ← processRefunds S market marketId accountId account [order]
    let c := c.internalSaveMarket marketId market
    let c ← c.internalSaveAccount S accountId account
    emitEvent (.cancel ⟨marketId, cancels⟩)
    return c
  | (none, _) => (throw (.error .orderNotFound) : Call _)

def cancelForOwners (marketId : MarketId) : Contract B → List OpenLimitOrder →
    Logging (Contract B)
  | c, [] => return c
  | c, order :: orders => do
    let c ← internalCancelOrder S c marketId order.ownerId order.id
    cancelForOwners marketId c orders

def internalClearOrderbookOrders (c : Contract B) (marketId : MarketId) (limit : Option ℕ) :
    Logging (List OrderId × Contract B) := do
  let limit := limit.getD (2 ^ 16 - 1)
  let market ← c.internalUnwrapMarket marketId
  market.assertCanCancel
  let orders := (S.orders market.orderbook).take limit
  let c ← cancelForOwners S marketId c orders
  return (orders.map OpenLimitOrder.id, c)

def cancelAllOrders (env : Env) (c : Contract B) (marketId : MarketId) :
    Logging (List OrderId × Contract B) := do
  c.assertActive
  c.assertCanCancel
  internalCancelAllOrders S c marketId env.predecessorAccountId

def cancelOrder (env : Env) (c : Contract B) (marketId : MarketId) (orderId : OrderId) :
    Logging (Contract B) := do
  c.assertCanCancel
  internalCancelOrder S c marketId env.predecessorAccountId orderId

def adminCancelOrder (env : Env) (c : Contract B) (marketId : MarketId) (orderId : OrderId) :
    Logging (Contract B) := do
  c.assertIsOwner env
  let market ← c.internalUnwrapMarket marketId
  let order ← (Checked.expect (.error .orderNotFound) (S.getOrder market.orderbook orderId) :
    Call OpenLimitOrder)
  internalCancelOrder S c marketId order.ownerId orderId

def adminCancelAllUserOrders (env : Env) (c : Contract B) (marketId : MarketId)
    (accountId : AccountId) : Logging (List OrderId × Contract B) := do
  c.assertIsOwner env
  internalCancelAllOrders S c marketId accountId

def adminClearOrderbook (env : Env) (c : Contract B) (marketId : MarketId)
    (limit : Option ℕ) : Logging (List OrderId × Contract B) := do
  c.assertIsOwner env
  internalClearOrderbookOrders S c marketId limit

/-! ## Batches (`actions.rs`) -/

def cancelEachOrder (env : Env) (marketId : MarketId) : Contract B → List OrderId →
    Logging (Contract B)
  | c, [] => return c
  | c, orderId :: orderIds => do
    let c ← cancelOrder S env c marketId orderId
    cancelEachOrder env marketId c orderIds

def executeAction (env : Env) (c : Contract B) : Action → Logging (ActionResult × Contract B)
  | .newOrder marketId params => do
    let (result, c) ← newOrder S env c marketId params
    return (.order result, c)
  | .cancelOrders marketId orderIds => do
    let c ← cancelEachOrder S env marketId c orderIds
    return (.cancel orderIds, c)
  | .cancelAllOrders marketId => do
    let (orderIds, c) ← cancelAllOrders S env c marketId
    return (.cancel orderIds, c)
  | .swap _ => (throw (.error .invalidAction) : Call _)

def executeActions (env : Env) : Contract B → List Action →
    Logging (List ActionResult × Contract B)
  | c, [] => return ([], c)
  | c, action :: actions => do
    let (result, c) ← executeAction S env c action
    let (results, c) ← executeActions env c actions
    return (result :: results, c)

def execute (env : Env) (c : Contract B) (actions : List Action) :
    Logging (List ActionResult × Contract B) := do
  assertOneYocto env
  executeActions S env c actions

/-! ## Calls -/

/-- The event is logged last, with the tokens parsed at the start. -/
def createMarket (env : Env) (c : Contract B) (args : CreateMarketArgs) :
    Logging (MarketId × List Promise × Contract B) := do
  let (marketId, promises, c) ← TonicDex.createMarket S env c args
  let baseToken ← S.fromKey args.baseToken
  let quoteToken ← S.fromKey args.quoteToken
  emitEvent (.newMarket ⟨env.predecessorAccountId, marketId, baseToken, quoteToken⟩)
  return (marketId, promises, c)

def quiet (x : Logging (Contract B)) : Logging (List Promise × Contract B) := do
  let c ← x
  return ([], c)

/-- What a call that returns more than promises and the state keeps of it. -/
def results {α β : Type} (x : Logging (α × β)) : Logging β := do
  let (_, r) ← x
  return r

def dispatch (env : Env) (c : Contract B) : Op → Logging (List Promise × Contract B)
  | .ftOnTransfer senderId amount msg => results (ftOnTransfer S env c senderId amount msg)
  | .swapNear swaps => results (swapNear S env c swaps)
  | .createMarket args => results (createMarket S env c args)
  | .newOrder marketId params => quiet (results (newOrder S env c marketId params))
  | .cancelOrder marketId orderId => quiet (cancelOrder S env c marketId orderId)
  | .cancelAllOrders marketId => quiet (results (cancelAllOrders S env c marketId))
  | .execute actions => quiet (results (execute S env c actions))
  | .adminCancelOrder marketId orderId => quiet (adminCancelOrder S env c marketId orderId)
  | .adminCancelAllUserOrders marketId accountId =>
    quiet (results (adminCancelAllUserOrders S env c marketId accountId))
  | .adminClearOrderbook marketId limit =>
    quiet (results (adminClearOrderbook S env c marketId limit))
  -- the other methods log nothing
  | op => TonicDex.dispatch S env c op

def perform (env : Env) (c : Contract B) (op : Op) : Logging (List Promise × Contract B) := do
  if op.payable then dispatch S env c op
  else do
    assertNoDeposit env
    dispatch S env c op

end Logging

/-! ## The system and its log -/

namespace System

/-- The log after an event: callbacks log nothing. -/
def note (log : Log) (s : System B) : Event → Log
  | .call env op => log ++ (Logging.perform S env s.contract op).events
  | .resolve _ _ => log

/-- The states reached from a new contract, each with what was logged on the way. -/
abbrev Logs : System B × Log → Prop :=
  Runs.Recorded (fun s => ∃ ownerId, s = init ownerId) (step S) (note S) [] fun _ _ => True

end System

end TonicDex
