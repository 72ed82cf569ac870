/-
  What calls log.

  A trade logs its fills, if there are any, and then its order
  (`LoggedTrade`); a cancellation logs the orders it removed (`LoggedCancel`);
  a new market logs itself.  `Told S c es c'` is a sequence of effects from `c`
  to `c'` with the events `es` that they log, and `perform_told` says that every
  call that returns is one.
-/
import TonicDex.Invariant.Books
import TonicDex.Spec.Logging

namespace TonicDex

variable {B : Type} {S : Sdk B} {c c' : Contract B} {mid : MarketId} {m m' : Market B}
  {env : Env} {side : Side} {taker owner : AccountId} {a : Account} {fs : List Match}
  {es es' : Log} {p : NewOrderParams}

/-! ## Fills -/

/-- What a fill event says of one fill. -/
def Market.fillData (m : Market B) (side : Side) (taker : AccountId) (f : Match) :
    FillEventData where
  makerOrderId := f.makerOrderId
  makerRebate := m.rebateOf f
  fillQty := m.fillBase f
  fillPrice := f.fillPriceLots * m.quoteToken.lotSize
  quoteQty := f.nativeQuotePaid
  side := side
  takerAccountId := taker
  makerAccountId := f.makerUserId

/-- The event of some fills of the order `id`; none without fills. -/
def Market.fillEvents (m : Market B) (mid : MarketId) (id : OrderId) (side : Side)
    (taker : AccountId) (fs : List Match) : Log :=
  if fs.isEmpty then [] else [.fill ⟨fs.map (m.fillData side taker), mid, id⟩]

theorem settleMakerFill_data {acc acc' : MakerSettlementResult × Contract B} {f : Match}
    {ds ds' : List FillEventData}
    (h : Logging.settleMakerFill S mid m side taker (acc, ds) f = .ok (acc', ds')) :
    ds' = ds ++ [m.fillData side taker f] := by
  simp only [Logging.settleMakerFill, Market.quoteLotsToNative, Market.baseLotsToNative,
    Checked.bind_eq_ok, Checked.fit_eq_ok, Checked.pure_eq_ok, Prod.mk.injEq] at h
  obtain ⟨_, ⟨-, rfl⟩, _, ⟨-, rfl⟩, _, -, _, -, _, -, ⟨rebate, _⟩, hcr, _, -, _, -, -, rfl⟩ := h
  obtain ⟨rfl, -⟩ := creditMaker_eq_ok hcr
  rfl

theorem foldlM_settleMakerFill_data : ∀ {fs : List Match}
    {acc acc' : (MakerSettlementResult × Contract B) × List FillEventData},
    fs.foldlM (Logging.settleMakerFill S mid m side taker) acc = .ok acc' →
      acc'.2 = acc.2 ++ fs.map (m.fillData side taker)
  | [], acc, acc', h => by
    simp only [List.foldlM_nil, Checked.pure_eq_ok] at h
    subst h
    simp
  | f :: fs, acc, acc', h => by
    simp only [List.foldlM_cons, Checked.bind_eq_ok] at h
    obtain ⟨acc₁, h1, h2⟩ := h
    rw [foldlM_settleMakerFill_data h2, settleMakerFill_data h1, List.map_cons,
      List.append_assoc]
    rfl

theorem internalSettleMakerFills_writes {id : OrderId} {r : MakerSettlementResult × Contract B}
    (h : (Logging.internalSettleMakerFills S c mid m id side fs taker).Writes r es) :
    es = m.fillEvents mid id side taker fs := by
  unfold Logging.internalSettleMakerFills at h
  unfold Market.fillEvents
  split_ifs at h ⊢
  · exact (Logged.writes_pure.1 h).2
  · simp only [emitEvent, Logged.writes_lift_bind, Logged.writes_emit_bind,
      Logged.writes_pure] at h
    obtain ⟨⟨_, ds⟩, hf, es', ⟨-, rfl⟩, rfl⟩ := h
    obtain rfl := foldlM_settleMakerFill_data hf
    rfl

theorem settleMatches_writes {fee : FeeCalculator} {id : OrderId} {ref : Option AccountId}
    {bug : String} {r : Settled × Contract B}
    (h : (Logging.settleMatches S c mid m fee id side fs taker ref bug).Writes r es) :
    es = m.fillEvents mid id side taker fs ∧
      settleMatches S c mid m fee side fs ref bug = .ok r := by
  refine ⟨?_, (erase_settleMatches ..).symm.trans h.erase⟩
  simp only [Logging.settleMatches, Logged.writes_bind (x := Logging.internalSettleMakerFills ..),
    Logged.writes_lift_bind, Logged.writes_pure] at h
  obtain ⟨_, _, _, hm, ⟨_, -, _, -, _, -, _, -, _, -, -, rfl⟩, rfl⟩ := h
  rw [List.append_nil]
  exact internalSettleMakerFills_writes hm

/-! ## Trades -/

/-- What the order event of a trade says. -/
structure NewOrderEvent.Of (e : NewOrderEvent) (mid : MarketId) (m : Market B)
    (taker : AccountId) (n : NewOrder) (r : PlaceOrderResult) (s : Settled) : Prop where
  account : e.accountId = taker
  market : e.marketId = mid
  order : e.orderId = r.id
  side : e.side = n.side
  clientId : e.clientId = n.clientId
  quantity : n.maxQtyLots * m.baseToken.lotSize ≤ e.quantity
  /-- a market order leaves nothing open -/
  openQuantity : e.openQuantity = some (r.openQtyLots * m.baseToken.lotSize) ∨
    n.orderType = .market ∧ e.openQuantity = some 0
  limit : ∀ p, n.limitPriceLots = some p → p = asU64 (e.limitPrice / m.quoteToken.lotSize)
  priced : e.limitPrice = 0 ∨ ∃ p, n.limitPriceLots = some p
  takerFee : e.takerFee = s.totalTakerFee
  referrerRebate : e.referrerRebate = s.referrerRebate

/-- What the event of an order that was placed says of what was asked for. -/
structure NewOrderEvent.Asks (e : NewOrderEvent) (p : NewOrderParams) : Prop where
  side : e.side = p.side
  limit : p.orderType ≠ .market → p.limitPrice = some e.limitPrice
  referrerId : e.referrerId = p.referrerId
  isSwap : e.isSwap = false

/-- The log of a trade is that of its fills and its order. -/
structure TradeLog (S : Sdk B) (c : Contract B) (mid : MarketId) (m : Market B)
    (taker : AccountId) (r : PlaceOrderResult) (m' : Market B) (c' : Contract B) (es : Log) where
  n : NewOrder
  s : Settled
  referrerId : Option AccountId
  event : NewOrderEvent
  traded : Traded S c mid m taker n referrerId r m' s c'
  events : es = m.fillEvents mid r.id n.side taker r.fills ++ [.order event]
  told : event.Of mid m taker n r s

theorem internalPlaceLimitBuy_writes {done : OrderDone B}
    (h : (Logging.internalPlaceLimitBuy S env c mid m taker a p).Writes done es) :
    ∃ t : TradeLog S c mid m taker done.result done.market done.contract es, t.event.Asks p := by
  simp only [Logging.internalPlaceLimitBuy, emitEvent, Logged.writes_lift_bind,
    Logged.writes_bind (x := Logging.settleMatches ..), Logged.writes_emit_bind,
    Logged.writes_pure, Checked.expect_eq_ok, Market.quoteNativeToLots_eq_ok,
    Market.baseNativeToLots_eq_ok] at h
  obtain ⟨_, -, _, -, _, -, _, -, _, -, limit, hlimit, _, ⟨-, rfl⟩, _, ⟨-, rfl⟩, afford, -, h⟩ := h
  obtain ⟨⟨seq, c₀⟩, hseq, ⟨r, m₁⟩, hplace, ⟨s, c₁⟩, es₁, es₂, hw, h, rfl⟩ := h
  obtain ⟨net, hnet, m₂, hm, _, -, _, -, _, -, _, -, _, -, _, -, _, -, h⟩ := h
  obtain ⟨openQty, hopen, ⟨bid, ask⟩, -, es', ⟨rfl, rfl⟩, rfl⟩ := h
  obtain ⟨rfl, hset⟩ := settleMatches_writes hw
  obtain ⟨n, hl, hq, -, hns, -, hcl, ⟨tr⟩⟩ := traded_of_ok hseq hplace rfl hset hnet hm
  obtain ⟨-, -, b, -, rfl⟩ := Market.placeOrder_ok hplace
  have hm₂ := tr.market
  rw [hm₂] at hopen
  simp only [Market.baseLotsToNative, Checked.fit_eq_ok] at hopen
  obtain ⟨-, rfl⟩ := hopen
  refine ⟨⟨n, s, _, _, tr, congrArg (· ++ _) (hns ▸ rfl), ?_⟩, rfl, fun _ => hlimit, rfl, rfl⟩
  refine ⟨rfl, rfl, rfl, hns.symm, hcl.symm, ?_, .inl rfl, ?_, .inr ⟨_, hl⟩, rfl, rfl⟩
  · rw [hq]
    exact (Nat.mul_le_mul_right _ (min_le_left ..)).trans (asU64_mul_le ..)
  · intro p' hp'
    rw [hl] at hp'
    cases hp'
    rfl

theorem internalPlaceLimitSell_writes {done : OrderDone B}
    (h : (Logging.internalPlaceLimitSell S env c mid m taker a p).Writes done es) :
    ∃ t : TradeLog S c mid m taker done.result done.market done.contract es, t.event.Asks p := by
  simp only [Logging.internalPlaceLimitSell, emitEvent, Logged.writes_lift_bind,
    Logged.writes_bind (x := Logging.settleMatches ..), Logged.writes_emit_bind,
    Logged.writes_pure, Checked.expect_eq_ok, Market.quoteNativeToLots_eq_ok,
    Market.baseNativeToLots_eq_ok] at h
  obtain ⟨_, -, _, -, _, ⟨-, rfl⟩, limit, hlimit, _, ⟨-, rfl⟩, h⟩ := h
  obtain ⟨⟨seq, c₀⟩, hseq, ⟨r, m₁⟩, hplace, ⟨s, c₁⟩, es₁, es₂, hw, h, rfl⟩ := h
  obtain ⟨net, hnet, m₂, hm, _, -, _, -, locked, hopen, h⟩ := h
  obtain ⟨_, -, _, -, _, -, _, -, ⟨bid, ask⟩, -, es', ⟨rfl, rfl⟩, rfl⟩ := h
  obtain ⟨rfl, hset⟩ := settleMatches_writes hw
  obtain ⟨n, hl, hq, -, hns, -, hcl, ⟨tr⟩⟩ := traded_of_ok hseq hplace rfl hset hnet hm
  obtain ⟨-, -, b, -, rfl⟩ := Market.placeOrder_ok hplace
  have hm₂ := tr.market
  rw [hm₂] at hopen
  simp only [Market.baseLotsToNative, Checked.fit_eq_ok] at hopen
  obtain ⟨-, rfl⟩ := hopen
  refine ⟨⟨n, s, _, _, tr, congrArg (· ++ _) (hns ▸ rfl), ?_⟩, rfl, fun _ => hlimit, rfl, rfl⟩
  refine ⟨rfl, rfl, rfl, hns.symm, hcl.symm, ?_, .inl rfl, ?_, .inr ⟨_, hl⟩, rfl, rfl⟩
  · rw [hq]
    exact asU64_mul_le ..
  · intro p' hp'
    rw [hl] at hp'
    cases hp'
    rfl

theorem internalPlaceMarketOrder_writes {done : OrderDone B} (htype : p.orderType = .market)
    (h : (Logging.internalPlaceMarketOrder S c mid m taker a p).Writes done es) :
    ∃ t : TradeLog S c mid m taker done.result done.market done.contract es, t.event.Asks p := by
  simp only [Logging.internalPlaceMarketOrder, emitEvent, Logged.writes_lift_bind,
    Logged.writes_bind (x := Logging.settleMatches ..), Logged.writes_emit_bind,
    Logged.writes_pure, Market.baseNativeToLots_eq_ok] at h
  obtain ⟨_, ⟨-, rfl⟩, _, -, _, -, h⟩ := h
  obtain ⟨⟨seq, c₀⟩, hseq, ⟨r, m₁⟩, hplace, ⟨s, c₁⟩, es₁, es₂, hw, h, rfl⟩ := h
  obtain ⟨_, -, _, -, _, -, _, -, net, hnet, m₂, hm, _, -, es', ⟨rfl, rfl⟩, rfl⟩ := h
  obtain ⟨rfl, hset⟩ := settleMatches_writes hw
  obtain ⟨n, hl, hq, -, hns, hnt, hcl, ⟨tr⟩⟩ := traded_of_ok hseq hplace rfl hset hnet hm
  obtain ⟨-, -, b, -, rfl⟩ := Market.placeOrder_ok hplace
  refine ⟨⟨n, s, _, _, tr, congrArg (· ++ _) (hns ▸ rfl), ?_⟩, rfl, fun ht => absurd htype ht, rfl,
    rfl⟩
  refine ⟨rfl, rfl, rfl, hns.symm, hcl.symm, ?_, .inr ⟨hnt.trans htype, rfl⟩, ?_, .inl rfl,
    rfl, rfl⟩
  · rw [hq]
    exact asU64_mul_le ..
  · intro p' hp'
    rw [hl] at hp'
    cases hp'

theorem placeByType_writes {done : OrderDone B}
    (h : (Logging.placeByType S env c mid m taker a p).Writes done es) :
    ∃ t : TradeLog S c mid m taker done.result done.market done.contract es, t.event.Asks p := by
  unfold Logging.placeByType at h
  split_ifs at h with ht
  · exact internalPlaceMarketOrder_writes ht h
  · rcases hs : p.side with _ | _
    · rw [hs] at h
      exact internalPlaceLimitBuy_writes h
    · rw [hs] at h
      exact internalPlaceLimitSell_writes h

theorem internalSwap_writes {n : ℕ} {ref : Option AccountId} {out : SwapResult}
    (h : (Logging.internalSwap S env c mid m side n ref).Writes (out, m', c') es) :
    ∃ r, ∃ t : TradeLog S c mid m env.signerAccountId r m' c' es,
      t.event.isSwap = true ∧ t.event.referrerId = t.referrerId := by
  simp only [Logging.internalSwap, emitEvent, Logged.writes_lift_bind,
    Logged.writes_bind (x := Logging.settleMatches ..), Logged.writes_emit_bind,
    Logged.writes_pure, Market.baseNativeToLots_eq_ok, Prod.mk.injEq] at h
  obtain ⟨_, -, ⟨qty, avail⟩, -, ⟨seq, c₀⟩, hseq, _, ⟨-, rfl⟩, _, -, h⟩ := h
  obtain ⟨⟨r, m₁⟩, hplace, ⟨s, c₁⟩, es₁, es₂, hw, h, rfl⟩ := h
  obtain ⟨net, hnet, m₂, hm, _, -, _, -, _, -, es', ⟨⟨-, rfl, rfl⟩, rfl⟩, rfl⟩ := h
  obtain ⟨rfl, hset⟩ := settleMatches_writes hw
  obtain ⟨n, hl, hq, -, hns, hnt, hcl, ⟨tr⟩⟩ := traded_of_ok hseq hplace rfl hset hnet hm
  obtain ⟨-, -, b, -, rfl⟩ := Market.placeOrder_ok hplace
  refine ⟨r, ⟨n, s, _, _, tr, congrArg (· ++ _) (hns ▸ rfl), ?_⟩, rfl, rfl⟩
  refine ⟨rfl, rfl, rfl, hns.symm, hcl.symm, ?_, .inr ⟨hnt, rfl⟩, ?_, .inl rfl, rfl, rfl⟩
  · rw [hq]
    exact asU64_mul_le ..
  · intro p' hp'
    rw [hl] at hp'
    cases hp'

/-! ## Cancellations -/

/-- What a cancel event says of a cancelled order: its id, its open quantity and its refund. -/
def CancelEventData.says (d : CancelEventData) : OrderId × ℕ × ℕ × TokenType :=
  (d.orderId, d.cancelledQty, d.refundAmount, d.refundToken)

def Market.cancelled (m : Market B) (x : OpenLimitOrder) : OrderId × ℕ × ℕ × TokenType :=
  (x.id, x.openQtyLots * m.baseToken.lotSize, m.restingValue x.side x, m.sideToken x.side)

theorem processRefund_told {r : CancelOrderResult} {ds ds' : List CancelEventData} {a' : Account}
    (h : processRefund S m mid owner (ds, a) r = .ok (ds', a')) :
    ds'.map CancelEventData.says = ds.map CancelEventData.says ++ [m.cancelled r.order] := by
  simp only [processRefund, Market.baseLotsToNative, Checked.bind_eq_ok, Checked.fit_eq_ok,
    Checked.pure_eq_ok, Prod.mk.injEq] at h
  obtain ⟨_, -, ⟨n, t⟩, hn, _, -, _, ⟨-, rfl⟩, _, -, rfl, -⟩ := h
  obtain ⟨rfl, rfl⟩ := getRefundAmount_ok hn
  rw [List.map_append]
  rfl

theorem foldlM_processRefund_told : ∀ {rs : List CancelOrderResult}
    {acc acc' : List CancelEventData × Account},
    rs.foldlM (processRefund S m mid owner) acc = .ok acc' →
      acc'.1.map CancelEventData.says =
        acc.1.map CancelEventData.says ++ (rs.map CancelOrderResult.order).map m.cancelled
  | [], acc, acc', h => by
    simp only [List.foldlM_nil, Checked.pure_eq_ok] at h
    subst h
    simp
  | r :: rs, acc, acc', h => by
    simp only [List.foldlM_cons, Checked.bind_eq_ok] at h
    obtain ⟨acc₁, h1, h2⟩ := h
    rw [foldlM_processRefund_told h2, processRefund_told h1, List.map_cons, List.map_cons,
      List.append_assoc]
    rfl

/-- A cancellation with its log. -/
structure LoggedCancel (S : Sdk B) (c : Contract B) (mid : MarketId) (owner : AccountId)
    (ids : List OrderId) (es : Log) (c' : Contract B) where
  run : CancelRun S c mid owner ids c'
  cancels : List CancelEventData
  events : es = [.cancel ⟨mid, cancels⟩]
  told : cancels.map CancelEventData.says =
    (run.results.map CancelOrderResult.order).map run.m.cancelled

/-- A run that cancelled the orders `os` of the market is told by their refunds. -/
theorem CancelRun.logged {ids : List OrderId} {os : List OpenLimitOrder} {b : B}
    {cancels : List CancelEventData} (run : CancelRun S c mid owner ids c')
    (hm : c.markets.lookup mid = some m) (hb : S.cancelEach m.orderbook ids = (os, b))
    (htold : cancels.map CancelEventData.says = os.map m.cancelled) :
    Nonempty (LoggedCancel S c mid owner ids [.cancel ⟨mid, cancels⟩] c') := by
  obtain rfl : run.m = m := Option.some_inj.1 (run.found.symm.trans hm)
  obtain ⟨rfl, -⟩ : run.results.map CancelOrderResult.order = os ∧ _ :=
    Prod.mk.injEq .. ▸ run.cancelled.symm.trans hb
  exact ⟨⟨run, cancels, rfl, htold⟩⟩

theorem internalCancelAllOrders_writes (hB : BookLaws S) {ids : List OrderId}
    (h : (Logging.internalCancelAllOrders S c mid owner).Writes (ids, c') es) :
    Nonempty (LoggedCancel S c mid owner ids es c') := by
  obtain ⟨run⟩ := internalCancelAllOrders_ok hB
    ((erase_internalCancelAllOrders c mid owner).symm.trans h.erase)
  simp only [Logging.internalCancelAllOrders, emitEvent, Logged.writes_lift_bind,
    Logged.writes_emit_bind, Logged.writes_pure, Contract.internalUnwrapMarket_eq_ok,
    Prod.mk.injEq] at h
  obtain ⟨m, hm, _, -, a, -, ⟨rs, b⟩, hb, ⟨ds, a'⟩, hrf, _, -, es', ⟨⟨rfl, -⟩, rfl⟩, rfl⟩ := h
  exact run.logged hm (hB.cancel_each hb) (foldlM_processRefund_told hrf)

theorem internalCancelOrder_writes {id : OrderId}
    (h : (Logging.internalCancelOrder S c mid owner id).Writes c' es) :
    Nonempty (LoggedCancel S c mid owner [id] es c') := by
  obtain ⟨run⟩ := internalCancelOrder_ok
    ((erase_internalCancelOrder c mid owner id).symm.trans h.erase)
  simp only [Logging.internalCancelOrder, Logged.writes_lift_bind,
    Contract.internalUnwrapMarket_eq_ok] at h
  obtain ⟨m, hm, _, -, a, -, h⟩ := h
  rcases hro : a.removeOrderInfo mid id with ⟨_ | id', a₁⟩
  · rw [hro] at h
    cases (Logged.writes_lift.1 h).1
  · rw [hro] at h
    rcases hc : S.cancelOrder m.orderbook id with ⟨r, b⟩
    simp only [hc, emitEvent, Logged.writes_lift_bind, Logged.writes_emit_bind,
      Logged.writes_pure, Checked.expect_eq_ok] at h
    obtain ⟨r, rfl, ⟨ds, a'⟩, hrf, _, -, es', ⟨rfl, rfl⟩, rfl⟩ := h
    have hcancelled : S.cancelEach m.orderbook [id] = ([r].map CancelOrderResult.order, b) := by
      simp [Sdk.cancelEach, hc]
    exact run.logged hm hcancelled (foldlM_processRefund_told hrf)

/-! ## Effects and what they log -/

/-- A trade that was saved, with its log. -/
structure LoggedTrade (S : Sdk B) (c : Contract B) (mid : MarketId) (taker : AccountId)
    (es : Log) (c' : Contract B) where
  m : Market B
  m' : Market B
  r : PlaceOrderResult
  settled : Contract B
  found : c.markets.lookup mid = some m
  log : TradeLog S c mid m taker r m' settled es
  saved : c'.markets = c.markets.insert mid m'
  seq : c'.prevOrderSequenceNumber = c.prevOrderSequenceNumber + 1

/-- The effects that log nothing. -/
def Effect.Quiet : Effect B → Prop
  | .order .. | .hop .. | .cancel .. | .create .. => False
  | _ => True

/-- What an effect logs. -/
inductive Tells (S : Sdk B) (c : Contract B) : Effect B → Log → Contract B → Prop
  | order {env : Env} {mid : MarketId} {p : NewOrderParams} {r : PlaceOrderResult} {es : Log}
      {c' : Contract B} (run : OrderRun S env c mid p r c')
      (log : TradeLog S c mid run.m env.predecessorAccountId run.done.result run.done.market
        run.done.contract es)
      (asks : log.event.Asks p) : Tells S c (.order env mid p r) es c'
  | hop {env : Env} {swap : SwapAction} {token : TokenType} {amount : ℕ} {out : SwapResult}
      {fills : List Match} {es : Log} {c' : Contract B}
      (trade : LoggedTrade S c swap.marketId env.signerAccountId es c')
      (accounts : c'.accounts = trade.settled.accounts) (isSwap : trade.log.event.isSwap = true)
      (referrerId : trade.log.event.referrerId = trade.log.referrerId) :
      Tells S c (.hop env swap token amount out fills) es c'
  | cancel {mid : MarketId} {owner : AccountId} {ids : List OrderId} {es : Log}
      {c' : Contract B} (cancel : LoggedCancel S c mid owner ids es c') :
      Tells S c (.cancel mid owner ids) es c'
  | create {m : Market B} {c' : Contract B} (event : NewMarketEvent)
      (base : event.baseToken = m.baseToken.tokenType)
      (quote : event.quoteToken = m.quoteToken.tokenType) :
      Tells S c (.create event.marketId m) [.newMarket event] c'
  | quiet {e : Effect B} {c' : Contract B} (quiet : e.Quiet) : Tells S c e [] c'

/-- A sequence of effects and what it logs. -/
inductive Told (S : Sdk B) : Contract B → List (Effect B) → Log → Contract B → Prop
  | nil (c : Contract B) : Told S c [] [] c
  | cons {c c₁ c' : Contract B} {e : Effect B} {effects : List (Effect B)} {es es' : Log}
      (head : Does S c e c₁) (tells : Tells S c e es c₁) (tail : Told S c₁ effects es' c') :
      Told S c (e :: effects) (es ++ es') c'

theorem Told.single {e : Effect B} (h : Does S c e c') (ht : Tells S c e es c') :
    Told S c [e] es c' := by
  rw [← List.append_nil es]
  exact .cons h ht (.nil _)

theorem Told.append {c₁ : Contract B} {effects effects' : List (Effect B)}
    (h : Told S c effects es c₁) (h' : Told S c₁ effects' es' c') :
    Told S c (effects ++ effects') (es ++ es') c' := by
  induction h with
  | nil c => exact h'
  | cons head tells _ ih =>
    rw [List.append_assoc]
    exact .cons head tells (ih h')

/-- Effects that log nothing. -/
theorem Effects.told {effects : List (Effect B)} (h : Effects S c effects c')
    (hq : ∀ e ∈ effects, e.Quiet) : Told S c effects [] c' := by
  induction h with
  | nil c => exact .nil c
  | cons head _ ih =>
    obtain ⟨he, hes⟩ := List.forall_mem_cons.1 hq
    exact .cons head (.quiet he) (ih hes)

/-- The log of an order that was placed. -/
def OrderRun.logged {r : PlaceOrderResult} (run : OrderRun S env c mid p r c')
    (log : TradeLog S c mid run.m env.predecessorAccountId run.done.result run.done.market
      run.done.contract es) : LoggedTrade S c mid env.predecessorAccountId es c' where
  m := run.m
  m' := run.done.market
  r := run.done.result
  settled := run.done.contract
  found := run.found
  log := log
  saved := run.markets_eq
  seq := (congrArg Contract.prevOrderSequenceNumber run.state).trans log.traded.seq_eq

/-! ## Calls -/

/-- The methods none of whose effects logs anything. -/
def Op.Quiet : Op → Prop
  | ftOnTransfer .. | swapNear _ | createMarket _ | newOrder .. | cancelOrder .. |
    cancelAllOrders _ | execute _ | adminCancelOrder .. | adminCancelAllUserOrders .. |
    adminClearOrderbook .. => False
  | _ => True

theorem Shape.quiet {op : Op} {ps : List Promise} {effects : List (Effect B)}
    (h : Shape S c env op ps effects) (hq : op.Quiet) : ∀ e ∈ effects, e.Quiet := by
  cases h with
  | swap method hops =>
    obtain ⟨rfl, -⟩ | ⟨rfl, -⟩ := method
    · exact hq.elim
    · exact hq.elim
  | adminCancel method cancels =>
    obtain ⟨_, rfl⟩ | ⟨_, rfl⟩ | ⟨_, rfl⟩ := method
    · exact hq.elim
    · exact hq.elim
    · exact hq.elim
  | ftDeposit | createMarket | newOrder | cancelOrder | cancelAllOrders | execute => exact hq.elim
  | mtDeposit => exact List.forall_mem_map.2 fun _ _ => trivial
  | storageDeposit sum effects =>
    obtain ⟨rfl, -⟩ | rfl := effects
    · exact fun e he => (List.not_mem_nil he).elim
    · exact List.forall_mem_singleton.2 trivial
  | storageKept | notDeleted => exact fun e he => (List.not_mem_nil he).elim
  | _ => exact List.forall_mem_singleton.2 trivial

theorem newOrder_told {r : PlaceOrderResult}
    (h : (Logging.newOrder S env c mid p).Writes (r, c') es) :
    Told S c [.order env mid p r] es c' := by
  simp only [Logging.newOrder, assertValidOrder, Contract.assertActive, Logged.writes_lift_bind,
    Logged.writes_bind (x := Logging.placeByType ..), Logged.writes_pure, Checked.bind_eq_ok,
    Checked.require_eq_ok, Contract.internalUnwrapMarket_eq_ok,
    Contract.internalUnwrapAccount_eq_ok, Contract.internalSaveAccount_eq_ok,
    Prod.mk.injEq] at h
  obtain ⟨_, hact, _, ⟨_, hl, _, hs, hq⟩, m, hm, _, -, a, ha, done, es₁, es₂, hw,
    ⟨_, ⟨hcov, rfl⟩, ⟨rfl, rfl⟩, rfl⟩, rfl⟩ := h
  obtain ⟨path⟩ := placeByType_ok ((erase_placeByType ..).symm.trans hw.erase)
  obtain ⟨log, asks⟩ := placeByType_writes hw
  rw [List.append_nil]
  let run : OrderRun S env c mid p done.result _ :=
    ⟨m, a, done, hact, ⟨hq, hl, hs⟩, hm, ha, path, hcov, rfl, rfl⟩
  exact .single (.order run) (.order run log asks)

theorem executeSwapAction_told {swap : SwapAction} {token : TokenType} {n : ℕ}
    {out : SwapResult} (h : (Logging.executeSwapAction S env c swap token n).Writes (out, c') es) :
    ∃ fills, Told S c [.hop env swap token n out fills] es c' := by
  obtain ⟨fills, hdo⟩ := executeSwapAction_does
    ((erase_executeSwapAction env c swap token n).symm.trans h.erase)
  simp only [Logging.executeSwapAction, Logged.writes_lift_bind,
    Logged.writes_bind (x := Logging.internalSwap ..), Logged.writes_pure,
    Contract.internalUnwrapMarket_eq_ok, Prod.mk.injEq] at h
  obtain ⟨m, hm, _, -, ⟨out', m', c₁⟩, es₁, es₂, hw, ⟨_, -, ⟨rfl, rfl⟩, rfl⟩, rfl⟩ := h
  obtain ⟨r, log, isSwap, referrerId⟩ := internalSwap_writes hw
  rw [List.append_nil]
  refine ⟨fills, .single hdo (.hop ⟨m, m', r, c₁, hm, log, ?_, ?_⟩ rfl isSwap referrerId)⟩
  · rw [← log.traded.markets_eq]
    rfl
  · exact log.traded.seq_eq

theorem executeHops_told : ∀ {swaps : List SwapAction} {c c' : Contract B} {token : TokenType}
    {n : ℕ} {x : TokenType × ℕ} {es : Log},
    (Logging.executeHops S env c swaps token n).Writes (x, c') es →
      ∃ effects, Told S c effects es c' ∧ Hops env swaps (token, n) effects x
  | [], c, c', token, n, x, es, h => by
    simp only [Logging.executeHops, Logged.writes_pure, Prod.mk.injEq] at h
    obtain ⟨⟨rfl, rfl⟩, rfl⟩ := h
    exact ⟨[], .nil _, .nil _⟩
  | swap :: swaps, c, c', token, n, x, es, h => by
    simp only [Logging.executeHops, Logged.writes_bind] at h
    obtain ⟨⟨out, c₁⟩, es₁, es₂, h1, h2, rfl⟩ := h
    obtain ⟨fills, htold⟩ := executeSwapAction_told h1
    obtain ⟨effects, htold', hops⟩ := executeHops_told h2
    exact ⟨_, htold.append htold', .cons hops⟩

theorem executeSwaps_told {swaps : List SwapAction} {token : TokenType} {n unused : ℕ}
    {id : AccountId} {ps : List Promise}
    (h : (Logging.executeSwaps S env c swaps token n id).Writes (unused, ps, c') es) :
    ∃ effects y, Told S c effects es c' ∧ Hops env swaps (token, n) effects y ∧
      ps = if 0 < y.2 then [.send id y.1 y.2] else [] := by
  simp only [Logging.executeSwaps, Logged.writes_lift_bind,
    Logged.writes_bind (x := Logging.executeHops ..), Logged.writes_pure, Prod.mk.injEq] at h
  obtain ⟨_, -, _, -, y, es₁, es₂, hw, ⟨⟨-, rfl, rfl⟩, rfl⟩, rfl⟩ := h
  obtain ⟨effects, htold, hops⟩ := executeHops_told hw
  rw [List.append_nil]
  exact ⟨effects, _, htold, hops, rfl⟩

theorem internalCancelOrder_told {id : OrderId}
    (h : (Logging.internalCancelOrder S c mid owner id).Writes c' es) :
    Told S c [.cancel mid owner [id]] es c' := by
  obtain ⟨hc⟩ := internalCancelOrder_writes h
  exact .single (.cancel hc.run) (.cancel hc)

theorem internalCancelAllOrders_told (hB : BookLaws S) {ids : List OrderId}
    (h : (Logging.internalCancelAllOrders S c mid owner).Writes (ids, c') es) :
    Told S c [.cancel mid owner ids] es c' := by
  obtain ⟨hc⟩ := internalCancelAllOrders_writes hB h
  exact .single (.cancel hc.run) (.cancel hc)

theorem cancelForOwners_told : ∀ {os : List OpenLimitOrder} {c c' : Contract B} {es : Log},
    (Logging.cancelForOwners S mid c os).Writes c' es →
      Told S c (os.map fun o => .cancel mid o.ownerId [o.id]) es c'
  | [], c, c', es, h => by
    simp only [Logging.cancelForOwners, Logged.writes_pure] at h
    obtain ⟨rfl, rfl⟩ := h
    exact .nil _
  | o :: os, c, c', es, h => by
    simp only [Logging.cancelForOwners, Logged.writes_bind] at h
    obtain ⟨c₁, es₁, es₂, h1, h2, rfl⟩ := h
    exact (internalCancelOrder_told h1).append (cancelForOwners_told h2)

theorem cancelOrder_told {id : OrderId} (h : (Logging.cancelOrder S env c mid id).Writes c' es) :
    Told S c [.cancel mid env.predecessorAccountId [id]] es c' := by
  simp only [Logging.cancelOrder, Logged.writes_lift_bind] at h
  obtain ⟨_, -, h⟩ := h
  exact internalCancelOrder_told h

theorem cancelAllOrders_told (hB : BookLaws S) {ids : List OrderId}
    (h : (Logging.cancelAllOrders S env c mid).Writes (ids, c') es) :
    Told S c [.cancel mid env.predecessorAccountId ids] es c' := by
  simp only [Logging.cancelAllOrders, Logged.writes_lift_bind] at h
  obtain ⟨_, -, _, -, h⟩ := h
  exact internalCancelAllOrders_told hB h

theorem cancelEachOrder_told : ∀ {ids : List OrderId} {c c' : Contract B} {es : Log},
    (Logging.cancelEachOrder S env mid c ids).Writes c' es →
      Told S c (ids.map fun id => .cancel mid env.predecessorAccountId [id]) es c'
  | [], c, c', es, h => by
    simp only [Logging.cancelEachOrder, Logged.writes_pure] at h
    obtain ⟨rfl, rfl⟩ := h
    exact .nil _
  | id :: ids, c, c', es, h => by
    simp only [Logging.cancelEachOrder, Logged.writes_bind] at h
    obtain ⟨c₁, es₁, es₂, h1, h2, rfl⟩ := h
    exact (cancelOrder_told h1).append (cancelEachOrder_told h2)

theorem executeAction_told (hB : BookLaws S) {action : Action} {x : ActionResult × Contract B}
    (h : (Logging.executeAction S env c action).Writes x es) :
    ∃ effects, Told S c effects es x.2 ∧ ∀ e ∈ effects, e.Trades env [action] := by
  cases action with
  | newOrder mid p =>
    simp only [Logging.executeAction, Logged.writes_bind, Logged.writes_pure] at h
    obtain ⟨⟨r, c₁⟩, es₁, es₂, hw, ⟨rfl, rfl⟩, rfl⟩ := h
    rw [List.append_nil]
    exact ⟨_, newOrder_told hw,
      List.forall_mem_singleton.2 (.order r (List.mem_singleton_self _))⟩
  | cancelOrders mid ids =>
    simp only [Logging.executeAction, Logged.writes_bind, Logged.writes_pure] at h
    obtain ⟨c₁, es₁, es₂, hw, ⟨rfl, rfl⟩, rfl⟩ := h
    rw [List.append_nil]
    exact ⟨_, cancelEachOrder_told hw, List.forall_mem_map.2 fun _ _ => .cancel ..⟩
  | cancelAllOrders mid =>
    simp only [Logging.executeAction, Logged.writes_bind, Logged.writes_pure] at h
    obtain ⟨⟨ids, c₁⟩, es₁, es₂, hw, ⟨rfl, rfl⟩, rfl⟩ := h
    rw [List.append_nil]
    exact ⟨_, cancelAllOrders_told hB hw, List.forall_mem_singleton.2 (.cancel ..)⟩
  | swap swaps =>
    simp only [Logging.executeAction, Logged.writes_lift, Checked.throw_eq_ok] at h
    exact h.1.elim

theorem executeActions_told (hB : BookLaws S) : ∀ {actions : List Action} {c : Contract B}
    {x : List ActionResult × Contract B} {es : Log},
    (Logging.executeActions S env c actions).Writes x es →
      ∃ effects, Told S c effects es x.2 ∧ ∀ e ∈ effects, e.Trades env actions
  | [], c, x, es, h => by
    simp only [Logging.executeActions, Logged.writes_pure] at h
    obtain ⟨rfl, rfl⟩ := h
    exact ⟨[], .nil _, List.forall_mem_nil _⟩
  | action :: actions, c, x, es, h => by
    simp only [Logging.executeActions, Logged.writes_bind, Logged.writes_pure] at h
    obtain ⟨⟨r, c₁⟩, es₁, _, h1, ⟨⟨rs, c₂⟩, es₂, es₃, h2, ⟨rfl, rfl⟩, rfl⟩, rfl⟩ := h
    obtain ⟨effects, htold, htrades⟩ := executeAction_told hB h1
    obtain ⟨effects', htold', htrades'⟩ := executeActions_told hB h2
    rw [List.append_nil]
    refine ⟨effects ++ effects', htold.append htold', ?_⟩
    intro e he
    rcases List.mem_append.1 he with he | he
    · exact (htrades e he).mono (List.cons_subset_cons _ (List.nil_subset _))
    · exact (htrades' e he).mono (List.subset_cons_self _ _)

/-- What `create_market` puts into a market, of what its event says. -/
theorem createMarket_market {args : CreateMarketArgs} {base quote : TokenType}
    {ps : List Promise} (h : createMarket S env c args = .ok (mid, ps, c'))
    (hbase : S.fromKey args.baseToken = .ok base) (hquote : S.fromKey args.quoteToken = .ok quote) :
    ∃ m, c'.markets.lookup mid = some m ∧ base = m.baseToken.tokenType ∧
      quote = m.quoteToken.tokenType := by
  simp only [createMarket, hbase, hquote, Checked.bind_eq_ok, Checked.pure_eq_ok,
    Except.ok.injEq, Prod.mk.injEq] at h
  obtain ⟨_, -, _, -, _, -, _, rfl, _, rfl, _, -, _, -, _, -, _, -, rfl, -, rfl⟩ := h
  exact ⟨_, AList.lookup_insert _, rfl, rfl⟩

theorem createMarket_told {args : CreateMarketArgs} {ps : List Promise}
    (h : (Logging.createMarket S env c args).Writes (mid, ps, c') es) :
    ∃ m refund, refund ≤ env.attachedDeposit ∧ Told S c [.create mid m] es c' ∧
      ps = metadataPromises mid m ++ transfers env.predecessorAccountId refund := by
  have hc := (erase_createMarket env c args).symm.trans h.erase
  obtain ⟨m, refund, hle, hdo, hps⟩ := createMarket_ok hc
  simp only [Logging.createMarket, emitEvent, Logged.writes_lift_bind, Logged.writes_emit_bind,
    Logged.writes_pure, Prod.mk.injEq] at h
  obtain ⟨⟨mid', ps', c₁⟩, -, base, hbase, quote, hquote, es', ⟨⟨hmid, -, -⟩, rfl⟩, rfl⟩ := h
  obtain ⟨m', hm', hb, hq⟩ := createMarket_market hc hbase hquote
  subst hmid
  refine ⟨m, refund, hle, .single hdo ?_, hps⟩
  cases hdo with
  | create new fresh =>
    have hm : _ = some m' := hm'
    rw [Contract.internalSaveMarket, AList.lookup_insert] at hm
    cases hm
    exact .create ⟨_, mid', base, quote⟩ hb hq

theorem quiet_writes {x : Logging (Contract B)} {ps : List Promise}
    (h : (Logging.quiet x).Writes (ps, c') es) : x.Writes c' es ∧ ps = [] := by
  simp only [Logging.quiet, Logged.writes_bind, Logged.writes_pure, Prod.mk.injEq] at h
  obtain ⟨c₁, es₁, es₂, hw, ⟨⟨rfl, rfl⟩, rfl⟩, rfl⟩ := h
  rw [List.append_nil]
  exact ⟨hw, rfl⟩

theorem results_writes {α β : Type} {x : Logging (α × β)} {b : β}
    (h : (Logging.results x).Writes b es) : ∃ a, x.Writes (a, b) es := by
  simp only [Logging.results, Logged.writes_bind, Logged.writes_pure] at h
  obtain ⟨⟨a, b'⟩, es₁, es₂, hw, ⟨rfl, rfl⟩, rfl⟩ := h
  rw [List.append_nil]
  exact ⟨a, hw⟩

/-- **Every call that returns is a sequence of effects of its method's shape, with
    what they log.** -/
theorem dispatch_told (hB : BookLaws S) {op : Op} {ps : List Promise}
    (h : (Logging.dispatch S env c op).Writes (ps, c') es) :
    ∃ effects, Told S c effects es c' ∧ Shape S c env op ps effects := by
  cases op with
  | ftOnTransfer id n msg =>
    obtain ⟨unused, hw⟩ := results_writes h
    simp only [Logging.ftOnTransfer, Logged.writes_lift_bind] at hw
    obtain ⟨_, -, hw⟩ := hw
    cases msg with
    | empty =>
      simp only [Logged.writes_lift_bind, Logged.writes_pure, Prod.mk.injEq] at hw
      obtain ⟨_, hd, ⟨-, rfl, rfl⟩, rfl⟩ := hw
      exact ⟨_, .single (internalDeposit_does hd) (.quiet trivial), .ftDeposit⟩
    | swap swaps =>
      obtain ⟨effects, y, htold, hops, rfl⟩ := executeSwaps_told hw
      exact ⟨effects, htold, .swap (.inr ⟨rfl, rfl⟩) hops⟩
    | otherAction => cases (Logged.writes_lift.1 hw).1
    | invalid => cases (Logged.writes_lift.1 hw).1
  | swapNear swaps =>
    obtain ⟨unused, hw⟩ := results_writes h
    simp only [Logging.swapNear, Logged.writes_lift_bind] at hw
    obtain ⟨_, -, hw⟩ := hw
    obtain ⟨effects, y, htold, hops, rfl⟩ := executeSwaps_told hw
    exact ⟨effects, htold, .swap (.inl ⟨rfl, rfl, rfl⟩) hops⟩
  | createMarket args =>
    obtain ⟨mid, hw⟩ := results_writes h
    obtain ⟨m, refund, hle, htold, rfl⟩ := createMarket_told hw
    exact ⟨_, htold, .createMarket hle⟩
  | newOrder mid p =>
    obtain ⟨hw, rfl⟩ := quiet_writes h
    obtain ⟨r, hw⟩ := results_writes hw
    exact ⟨_, newOrder_told hw, .newOrder⟩
  | cancelOrder mid id =>
    obtain ⟨hw, rfl⟩ := quiet_writes h
    exact ⟨_, cancelOrder_told hw, .cancelOrder⟩
  | cancelAllOrders mid =>
    obtain ⟨hw, rfl⟩ := quiet_writes h
    obtain ⟨ids, hw⟩ := results_writes hw
    exact ⟨_, cancelAllOrders_told hB hw, .cancelAllOrders⟩
  | execute actions =>
    obtain ⟨hw, rfl⟩ := quiet_writes h
    obtain ⟨rs, hw⟩ := results_writes hw
    simp only [Logging.execute, Logged.writes_lift_bind] at hw
    obtain ⟨_, -, hw⟩ := hw
    obtain ⟨effects, htold, htrades⟩ := executeActions_told hB hw
    exact ⟨effects, htold, .execute htrades⟩
  | adminCancelOrder mid id =>
    obtain ⟨hw, rfl⟩ := quiet_writes h
    simp only [Logging.adminCancelOrder, Logged.writes_lift_bind,
      Contract.internalUnwrapMarket_eq_ok, Checked.expect_eq_ok] at hw
    obtain ⟨_, -, m, hm, o, ho, hw⟩ := hw
    exact ⟨_, internalCancelOrder_told hw, .adminCancel (.inl ⟨_, rfl⟩)
      (List.forall_mem_singleton.2 ⟨_, _, rfl, m, o, hm, ho, rfl⟩)⟩
  | adminCancelAllUserOrders mid id =>
    obtain ⟨hw, rfl⟩ := quiet_writes h
    obtain ⟨ids, hw⟩ := results_writes hw
    simp only [Logging.adminCancelAllUserOrders, Logged.writes_lift_bind] at hw
    obtain ⟨_, -, hw⟩ := hw
    exact ⟨_, internalCancelAllOrders_told hB hw, .adminCancel (.inr (.inl ⟨_, rfl⟩))
      (List.forall_mem_singleton.2 ⟨_, _, rfl, rfl⟩)⟩
  | adminClearOrderbook mid limit =>
    obtain ⟨hw, rfl⟩ := quiet_writes h
    obtain ⟨ids, hw⟩ := results_writes hw
    simp only [Logging.adminClearOrderbook, Logging.internalClearOrderbookOrders,
      Logged.writes_lift_bind, Logged.writes_bind (x := Logging.cancelForOwners ..),
      Logged.writes_pure, Contract.internalUnwrapMarket_eq_ok, Prod.mk.injEq] at hw
    obtain ⟨_, -, m, hm, _, -, c₁, es₁, es₂, hcancels, ⟨⟨-, rfl⟩, rfl⟩, rfl⟩ := hw
    rw [List.append_nil]
    exact ⟨_, cancelForOwners_told hcancels, .adminCancel (.inr (.inr ⟨_, rfl⟩))
      (List.forall_mem_map.2 fun o ho => ⟨_, _, rfl, m, o, hm, List.mem_of_mem_take ho, rfl⟩)⟩
  | _ =>
    obtain ⟨hd, rfl⟩ := Logged.writes_lift.1 h
    obtain ⟨effects, he, shape⟩ := dispatch_effects hB hd
    exact ⟨effects, he.told (shape.quiet trivial), shape⟩

theorem perform_told (hB : BookLaws S) {op : Op} {ps : List Promise}
    (h : (Logging.perform S env c op).Writes (ps, c') es) :
    ∃ effects, Told S c effects es c' ∧ Shape S c env op ps effects := by
  unfold Logging.perform at h
  split_ifs at h
  · exact dispatch_told hB h
  · simp only [Logged.writes_lift_bind] at h
    obtain ⟨_, -, h⟩ := h
    exact dispatch_told hB h

/-! ## Runs -/

theorem Resolution.quiet {promise : Promise} {effects : List (Effect B)}
    {paid : Option (TokenType × ℕ)} (h : Resolution S c promise effects paid) :
    ∀ e ∈ effects, e.Quiet := by
  cases h with
  | credited => exact List.forall_mem_singleton.2 trivial
  | metadata _ _ callback =>
    cases callback with
    | nothing => exact fun e he => (List.not_mem_nil he).elim
    | _ => exact List.forall_mem_singleton.2 trivial
  | _ => exact fun e he => (List.not_mem_nil he).elim

/-- A call that panics logs nothing. -/
theorem events_of_error {op : Op} {e : Panic} (h : perform S env c op = .error e) :
    (Logging.perform S env c op).events = [] := by
  rcases hw : (Logging.perform S env c op).run with e' | ⟨y, es⟩
  · rw [Logged.events, hw]
  · have hok := (erase_perform env c op).symm.trans (Logged.Writes.erase hw)
    rw [h] at hok
    cases hok

theorem events_of_ok (hB : BookLaws S) {op : Op} {ps : List Promise}
    (h : perform S env c op = .ok (ps, c')) : ∃ effects,
      Told S c effects (Logging.perform S env c op).events c' ∧ Shape S c env op ps effects := by
  obtain ⟨es, hw⟩ := Logged.exists_writes ((erase_perform env c op).trans h)
  rw [hw.events]
  exact perform_told hB hw

/-- **What an event logs is told by its effects.** -/
theorem step_told (hB : BookLaws S) (s : System B) (log : Log) (ev : Event) :
    ∃ effects es, System.note S log s ev = log ++ es ∧
      Told S s.contract effects es (System.step S s ev).contract := by
  cases ev with
  | call env op =>
    unfold System.step
    rcases h : perform S env s.contract op with e | ⟨ps, c'⟩
    · simp only [h]
      refine ⟨[], [], ?_, .nil _⟩
      rw [System.note, events_of_error h]
    · simp only [h]
      obtain ⟨effects, htold, -⟩ := events_of_ok hB h
      exact ⟨effects, _, rfl, htold⟩
  | resolve i out =>
    have hcase := step_cases hB s (.resolve i out)
    generalize System.step S s (.resolve i out) = s' at hcase ⊢
    cases hcase with
    | unchanged => exact ⟨[], [], (List.append_nil _).symm, .nil _⟩
    | resolved paid promise effects resolution =>
      exact ⟨_, [], (List.append_nil _).symm, effects.told resolution.quiet⟩

/-- What holds of a new contract and an empty log, and is kept by every effect
    with what it logs, holds in every run. -/
theorem logs_invariant (hB : BookLaws S) {P : Contract B → Log → Prop}
    (h₀ : ∀ id, P (.new id) [])
    (hstep : ∀ c c' e log es, Does S c e c' → Tells S c e es c' → BooksOk S c → P c log →
      P c' (log ++ es)) {x : System B × Log} (hx : System.Logs S x) : P x.1.contract x.2 := by
  have kept : ∀ {c effects es c'}, Told S c effects es c' → ∀ {log}, BooksOk S c → P c log →
      P c' (log ++ es) := by
    intro c effects es c' h
    induction h with
    | nil c =>
      intro log _ hp
      rw [List.append_nil]
      exact hp
    | cons head tells _ ih =>
      intro log hc hp
      rw [← List.append_assoc]
      exact ih (head.booksOk hB hc) (hstep _ _ _ _ _ head tells hc hp)
  refine hx.invariant (P := fun x => P x.1.contract x.2) ?_ fun x ev hr _ hp => ?_
  · rintro ⟨s, log⟩ ⟨⟨id, hs⟩, hlog⟩
    simp only at hs hlog
    subst hs hlog
    exact h₀ id
  · obtain ⟨effects, es, hes, told⟩ := step_told hB x.1 x.2 ev
    show P (System.step S x.1 ev).contract (System.note S x.2 x.1 ev)
    rw [hes]
    exact kept told (booksOk_of_reach hB hr.unrecorded) hp

end TonicDex
