/-
  The views of markets and balances (`views.rs`).  Those of single orders stand
  with the cancellations, in `TonicDex.Model.Cancel`.
-/
import TonicDex.Model.System

namespace TonicDex

variable {B : Type}

/-! ## Books -/

structure L2OpenLimitOrderView where
  limitPrice : ℕ
  openQuantity : ℕ
  owner : Option AccountId
  orderId : Option OrderId
  clientId : Option ClientId
  deriving DecidableEq

def orderToL2View (order : OpenLimitOrder) (baseLotSize quoteLotSize : ℕ)
    (showOwner showOrderId showClientId : Bool) : Call L2OpenLimitOrderView := do
  let limitPrice ← u128 (order.limitPriceLots * quoteLotSize)
  let openQuantity ← u128 (order.openQtyLots * baseLotSize)
  return ⟨limitPrice, openQuantity, if showOwner then some order.ownerId else none,
    if showOrderId then some order.id else none, if showClientId then order.clientId else none⟩

structure OrderbookView where
  bids : List L2OpenLimitOrderView
  asks : List L2OpenLimitOrderView
  deriving DecidableEq

/-- `L2::take_depth` of `tonic_sdk`: the best price levels of a side, each with
    its orders. -/
abbrev TakeDepth (B : Type) := B → Side → ℕ → List (ℕ × List OpenLimitOrder)

/-- What the contract relies on of `take_depth`: the orders it shows are in the
    book. -/
def DepthLaw (S : Sdk B) (takeDepth : TakeDepth B) : Prop :=
  ∀ b side depth, ∀ level ∈ takeDepth b side depth, ∀ o ∈ level.2, o ∈ S.resting b side

/-- It shows all of a side that has fewer price levels than it is asked for. -/
def WholeLaw (S : Sdk B) (takeDepth : TakeDepth B) : Prop :=
  ∀ b side depth, (takeDepth b side depth).length < depth →
    ((takeDepth b side depth).flatMap Prod.snd).Perm (S.resting b side)

section
variable (takeDepth : TakeDepth B)

def orderbookToView (ob : B) (priceDepth baseLotSize quoteLotSize : ℕ)
    (showOwner showOrderId showClientId : Bool) : Call OrderbookView := do
  let bids ← ((takeDepth ob .buy priceDepth).flatMap Prod.snd).mapM fun o =>
    orderToL2View o baseLotSize quoteLotSize showOwner showOrderId showClientId
  let asks ← ((takeDepth ob .sell priceDepth).flatMap Prod.snd).mapM fun o =>
    orderToL2View o baseLotSize quoteLotSize showOwner showOrderId showClientId
  return ⟨bids, asks⟩

/-! ## Markets -/

/-- The token views are the tokens: they have the same fields. -/
structure MarketView where
  id : MarketId
  baseToken : Token
  quoteToken : Token
  orderbook : OrderbookView
  makerRebateBaseRate : ℕ
  takerFeeBaseRate : ℕ
  feesAccrued : ℕ
  maxOrdersPerAccount : ℕ
  totalOrders : Option ℕ
  state : MarketState

variable (S : Sdk B)

/-- The number of resting orders, counted in 32 bits. -/
def Market.totalOrders (market : Market B) : Call ℕ := do
  let totalBids ← Checked.fit .arithmetic 32 (S.bids market.orderbook).length
  let totalAsks ← Checked.fit .arithmetic 32 (S.asks market.orderbook).length
  Checked.fit .arithmetic 32 (totalBids + totalAsks)

/-- The view of a market, which knows its id since it was loaded. -/
def Market.toView (market : Market B) (id : MarketId) (priceDepth : ℕ) (showTotal : Bool) :
    Call MarketView := do
  let orderbook ← orderbookToView takeDepth market.orderbook priceDepth
    market.baseToken.lotSize market.quoteToken.lotSize false false false
  let totalOrders ← if showTotal then some <$> market.totalOrders S else pure none
  return ⟨id, market.baseToken, market.quoteToken, orderbook, market.makerRebateBaseRate,
    market.takerFeeBaseRate, market.feesAccrued, market.maxOrdersPerAccount, totalOrders,
    market.state⟩

def getOrderbook (c : Contract B) (marketId : MarketId) (depth : ℕ)
    (showOwner showOrderId showClientId : Option Bool) : Call (Option OrderbookView) :=
  (c.internalGetMarket marketId).mapM fun m =>
    orderbookToView takeDepth m.orderbook depth m.baseToken.lotSize m.quoteToken.lotSize
      (showOwner.getD false) (showOrderId.getD false) (showClientId.getD false)

def getMarket (c : Contract B) (marketId : MarketId) (showTotal : Option Bool) :
    Call (Option MarketView) :=
  (c.internalGetMarket marketId).mapM fun m =>
    m.toView takeDepth S marketId 8 (showTotal.getD false)

/-- One entry of `list_markets`. -/
def listedMarket (c : Contract B) (index : ℕ) : Call MarketView := do
  let id ← Checked.expect .unwrap c.marketIterMap[index]?
  let market ← c.internalUnwrapMarket id
  market.toView takeDepth S id 8 false

def listMarkets (c : Contract B) (fromIndex limit : ℕ) : Call (List MarketView) := do
  let stop ← u64 (fromIndex + limit)
  let stop := min stop c.marketIterMap.length
  (List.range' fromIndex (stop - fromIndex)).mapM (listedMarket takeDepth S c)

def getNumberOfMarkets (c : Contract B) : ℕ := c.marketIterMap.length

end

/-! ## Balances -/

/-- The entries of the map of balances; their order is that of the hash map. -/
def Account.getBalances (a : Account) : List (String × ℕ) :=
  a.balances.entries.map fun e => (e.1, e.2)

def getBalances (c : Contract B) (accountId : AccountId) : Call (List (String × ℕ)) := do
  let account ← c.internalUnwrapAccount accountId
  return account.getBalances

end TonicDex
