/-
  Cancelling orders (second half of `market/mod.rs`), and the views that look
  an account's orders up in the book (`views.rs`).
-/
import TonicDex.Model.Orders

namespace TonicDex

variable {B : Type} (S : Sdk B)

/-! ## Refunds -/

/-- The native quote amount of `openQtyLots` at `limitPriceLots`, as a refund
    computes it: every product must fit in 256 bits. -/
def Market.bidRefund (m : Market B) (openQtyLots limitPriceLots : ℕ) : Call ℕ := do
  let d ← m.baseDenomination
  let lots ← u256 (openQtyLots * limitPriceLots)
  let quote ← u256 (lots * m.quoteToken.lotSize)
  let volume ← u256 (quote * m.baseToken.lotSize)
  u128 (volume / d)

/-- The amount and token to refund for a cancelled order. -/
def getRefundAmount (market : Market B) (order : OpenLimitOrder) : Call (ℕ × TokenType) :=
  match order.side with
  | .buy => do
    let refundAmount ← market.bidRefund order.openQtyLots order.limitPriceLots
    return (refundAmount, market.quoteToken.tokenType)
  | .sell => do
    let refundAmount ←
      Checked.fit .unwrap 128 (order.openQtyLots * market.baseToken.lotSize)
    return (refundAmount, market.baseToken.tokenType)

/-- What a cancel event says of one order. -/
structure CancelEventData where
  orderId : OrderId
  refundAmount : ℕ
  refundToken : TokenType
  cancelledQty : ℕ
  priceRank : ℕ
  bestBid : Option ℕ
  bestAsk : Option ℕ

/-- One round of the loop of `process_refunds`. -/
def processRefund (market : Market B) (marketId : MarketId) (accountId : AccountId)
    (acc : List CancelEventData × Account) (cancel : CancelOrderResult) :
    Call (List CancelEventData × Account) := do
  let (cancels, account) := acc
  let order := cancel.order
  assert (order.ownerId = accountId) "order is not owned by account"
  let (refundAmount, token) ← getRefundAmount market order
  let account ← account.deposit S token refundAmount
  let (_, account) := account.removeOrderInfo marketId order.id
  let cancelledQty ← market.baseLotsToNative order.openQtyLots
  let (bestBid, bestAsk) ← market.reportedPrices cancel.bestBid cancel.bestAsk
  return (cancels ++ [⟨order.id, refundAmount, token, cancelledQty, cancel.priceRank, bestBid,
    bestAsk⟩], account)

/-- Credit the account for cancelled orders.  Does not save the account yet. -/
def processRefunds (market : Market B) (marketId : MarketId) (accountId : AccountId)
    (account : Account) (pending : List CancelOrderResult) :
    Call (List CancelEventData × Account) :=
  pending.foldlM (processRefund S market marketId accountId) ([], account)

/-! ## Cancelling -/

/-- Cancel all orders of an account in a market. -/
def internalCancelAllOrders (c : Contract B) (marketId : MarketId) (accountId : AccountId) :
    Call (List OrderId × Contract B) := do
  let market ← c.internalUnwrapMarket marketId
  market.assertCanCancel
  let account ← c.internalUnwrapAccount accountId
  let (orderIds, account) := account.removeAllOrderInfos S marketId
  let (orders, orderbook) ← S.cancelOrders market.orderbook orderIds
  let market := { market with orderbook }
  let (_, account) ← processRefunds S market marketId accountId account orders
  let c := c.internalSaveMarket marketId market
  let c ← c.internalSaveAccount S accountId account
  return (orderIds, c)

/-- Cancel one order of an account. -/
def internalCancelOrder (c : Contract B) (marketId : MarketId) (accountId : AccountId)
    (orderId : OrderId) : Call (Contract B) := do
  let market ← c.internalUnwrapMarket marketId
  market.assertCanCancel
  let account ← c.internalUnwrapAccount accountId
  match account.removeOrderInfo marketId orderId with
  | (some _, account) => do
    let (order, orderbook) := S.cancelOrder market.orderbook orderId
    let market := { market with orderbook }
    let order ← Checked.expect (.error .orderNotFound) order
    let (_, account) ← processRefunds S market marketId accountId account [order]
    let c := c.internalSaveMarket marketId market
    c.internalSaveAccount S accountId account
  | (none, _) => throw (.error .orderNotFound)

/-- Cancel the given orders, each for its owner. -/
def cancelForOwners (marketId : MarketId) : Contract B → List OpenLimitOrder →
    Call (Contract B)
  | c, [] => return c
  | c, order :: orders => do
    let c ← internalCancelOrder S c marketId order.ownerId order.id
    cancelForOwners marketId c orders

/-- Cancel the first `limit` orders of a market, asks before bids. -/
def internalClearOrderbookOrders (c : Contract B) (marketId : MarketId) (limit : Option ℕ) :
    Call (List OrderId × Contract B) := do
  let limit := limit.getD (2 ^ 16 - 1)
  let market ← c.internalUnwrapMarket marketId
  market.assertCanCancel
  let orders := (S.orders market.orderbook).take limit
  let c ← cancelForOwners S marketId c orders
  return (orders.map OpenLimitOrder.id, c)

def cancelAllOrders (env : Env) (c : Contract B) (marketId : MarketId) :
    Call (List OrderId × Contract B) := do
  c.assertActive
  c.assertCanCancel
  internalCancelAllOrders S c marketId env.predecessorAccountId

def cancelOrder (env : Env) (c : Contract B) (marketId : MarketId) (orderId : OrderId) :
    Call (Contract B) := do
  c.assertCanCancel
  internalCancelOrder S c marketId env.predecessorAccountId orderId

/-! ## Views -/

structure OpenLimitOrderView where
  id : OrderId
  limitPrice : ℕ
  openQty : ℕ
  originalQty : Option ℕ
  side : Side
  timestamp : Option ℕ
  clientId : Option ClientId
  deriving DecidableEq

def orderToView (order : OpenLimitOrder) (baseLotSize quoteLotSize : ℕ)
    (originalQtyLots timestamp : Option ℕ) : Call OpenLimitOrderView := do
  let originalQty ← originalQtyLots.mapM fun q => u128 (q * baseLotSize)
  let limitPrice ← u128 (order.limitPriceLots * quoteLotSize)
  let openQty ← u128 (order.openQtyLots * baseLotSize)
  return ⟨order.id, limitPrice, openQty, originalQty, order.side, timestamp, order.clientId⟩

def getOpenOrders (c : Contract B) (marketId : MarketId) (accountId : AccountId) :
    Call (List OpenLimitOrderView) := do
  let m ← c.internalUnwrapMarket marketId
  let account ← c.internalUnwrapAccount accountId
  (account.openOrdersIter S marketId).mapM fun (oid, info) => do
    let o ← Checked.expect .unwrap (S.getOrder m.orderbook oid)
    orderToView o m.baseToken.lotSize m.quoteToken.lotSize info.originalSize info.timestamp

/-- Unlike `getOpenOrders`, this scales by the tokens' denominations. -/
def getOrder (c : Contract B) (marketId : MarketId) (orderId : OrderId) :
    Call (Option OpenLimitOrderView) := do
  let market ← c.internalUnwrapMarket marketId
  (S.getOrder market.orderbook orderId).mapM fun o => do
    let owner ← c.internalUnwrapAccount o.ownerId
    let info ← Checked.expect .unwrap (owner.getOrderInfo marketId orderId)
    let baseDenomination ← market.baseDenomination
    let quoteDenomination ← market.quoteDenomination
    orderToView o baseDenomination quoteDenomination info.originalSize info.timestamp

end TonicDex
