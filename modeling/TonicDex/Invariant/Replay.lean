/-
  The log tells the books.

  An observer who knows nothing but the log keeps, for each market, the orders
  that were announced, what is left of each, and the fees (`MarketIndex`).  Every
  effect keeps this index in step with the market (`Tells.replayed`): in every
  run what is left of an order is what rests of it, every resting order is as
  it was announced (`books_replayed`), and the fees a market accrued are the
  taker fees less the rebates of its log (`fees_replayed`).
-/
import TonicDex.Engine.Library
import TonicDex.Spec.Told

namespace TonicDex

variable {B : Type} {S : Sdk B} {c c' : Contract B} {mid mid' : MarketId} {m m' : Market B}
  {b b' : B} {taker owner : AccountId} {n : NewOrder} {r : PlaceOrderResult} {log es : Log}

/-! ## What an observer keeps of a market -/

structure MarketIndex where
  created : NewMarketEvent
  /-- the orders announced, by id -/
  orders : OrderId → Option NewOrderEvent
  /-- what is left of each order, what was filled of it after it was announced, and what
      was cancelled, in native amounts of base -/
  remaining : OrderId → ℕ
  filled : OrderId → ℕ
  cancelled : OrderId → ℕ
  takerFees : ℕ
  /-- of makers and referrers -/
  rebates : ℕ

namespace MarketIndex

def new (e : NewMarketEvent) : MarketIndex :=
  ⟨e, fun _ => none, fun _ => 0, fun _ => 0, fun _ => 0, 0, 0⟩

def fill (i : MarketIndex) (d : FillEventData) : MarketIndex :=
  { i with
    remaining := fun o => i.remaining o - if d.makerOrderId = o then d.fillQty else 0
    filled := fun o => i.filled o + if d.makerOrderId = o then d.fillQty else 0
    rebates := i.rebates + d.makerRebate }

def order (i : MarketIndex) (e : NewOrderEvent) : MarketIndex :=
  { i with
    orders := fun o => if o = e.orderId then some e else i.orders o
    remaining := fun o => if o = e.orderId then e.openQuantity.getD 0 else i.remaining o
    takerFees := i.takerFees + e.takerFee
    rebates := i.rebates + e.referrerRebate }

def cancel (i : MarketIndex) (d : CancelEventData) : MarketIndex :=
  { i with
    remaining := fun o => i.remaining o - if d.orderId = o then d.cancelledQty else 0
    cancelled := fun o => i.cancelled o + if d.orderId = o then d.cancelledQty else 0 }

end MarketIndex

/-- The index of a market after one more event. -/
def replayEvent (mid : MarketId) (i : Option MarketIndex) : EventType → Option MarketIndex
  | .newMarket e => if e.marketId = mid then some (.new e) else i
  | .fill e => if e.marketId = mid then i.map fun i => e.fills.foldl .fill i else i
  | .order e => if e.marketId = mid then i.map fun i => i.order e else i
  | .cancel e => if e.marketId = mid then i.map fun i => e.cancels.foldl .cancel i else i

/-- What the log says of a market. -/
def replay (mid : MarketId) (log : Log) : Option MarketIndex := log.foldl (replayEvent mid) none

theorem replay_append (mid : MarketId) (log es : Log) :
    replay mid (log ++ es) = es.foldl (replayEvent mid) (replay mid log) :=
  List.foldl_append

/-- The market an event is about. -/
def EventType.marketId : EventType → MarketId
  | .fill e => e.marketId
  | .order e => e.marketId
  | .cancel e => e.marketId
  | .newMarket e => e.marketId

theorem replayEvent_of_ne {i : Option MarketIndex} {e : EventType} (h : e.marketId ≠ mid) :
    replayEvent mid i e = i := by
  cases e with
  | fill e | order e | cancel e | newMarket e => exact if_neg h

/-- Events of other markets do not matter. -/
theorem replay_append_of_ne (h : ∀ e ∈ es, e.marketId ≠ mid) :
    replay mid (log ++ es) = replay mid log := by
  rw [replay_append]
  generalize replay mid log = i
  induction es generalizing i with
  | nil => rfl
  | cons e es ih =>
    obtain ⟨he, hes⟩ := List.forall_mem_cons.1 h
    rw [List.foldl_cons, replayEvent_of_ne he]
    exact ih hes i

theorem replay_concat_of_ne {e : EventType} (h : e.marketId ≠ mid) :
    replay mid (log ++ [e]) = replay mid log :=
  replay_append_of_ne (List.forall_mem_singleton.2 h)

/-- What some fills take off the order `o`, by their events. -/
def qtyFilled (ds : List FillEventData) (o : OrderId) : ℕ :=
  (ds.map fun d => if d.makerOrderId = o then d.fillQty else 0).sum

/-- What some cancellations take off the order `o`, by their events. -/
def qtyCancelled (ds : List CancelEventData) (o : OrderId) : ℕ :=
  (ds.map fun d => if d.orderId = o then d.cancelledQty else 0).sum

namespace MarketIndex

/-- Fills take their quantities off, and add their rebates. -/
theorem foldl_fill : ∀ (ds : List FillEventData) (i : MarketIndex), ds.foldl .fill i =
    { i with
      remaining := fun o => i.remaining o - qtyFilled ds o
      filled := fun o => i.filled o + qtyFilled ds o
      rebates := i.rebates + (ds.map FillEventData.makerRebate).sum }
  | [], i => rfl
  | d :: ds, i => by
    rw [List.foldl_cons, foldl_fill ds]
    simp only [fill, qtyFilled, List.map_cons, List.sum_cons, Nat.add_assoc, Nat.sub_sub]

/-- Cancellations take their quantities off. -/
theorem foldl_cancel : ∀ (ds : List CancelEventData) (i : MarketIndex), ds.foldl .cancel i =
    { i with
      remaining := fun o => i.remaining o - qtyCancelled ds o
      cancelled := fun o => i.cancelled o + qtyCancelled ds o }
  | [], i => rfl
  | d :: ds, i => by
    rw [List.foldl_cons, foldl_cancel ds]
    simp only [cancel, qtyCancelled, List.map_cons, List.sum_cons, Nat.add_assoc, Nat.sub_sub]

end MarketIndex

/-! ## What is open of an order -/

/-- The open lots of the order `o` in a book, none if it does not rest. -/
def Sdk.openLots (S : Sdk B) (b : B) (o : OrderId) : ℕ :=
  (S.getOrder b o).elim 0 OpenLimitOrder.openQtyLots

/-- The lots of the order `o` in a list. -/
def lotsOf (o : OrderId) (x : OpenLimitOrder) : ℕ := if x.id = o then x.openQtyLots else 0

theorem sum_lotsOf_of_not_mem {o : OrderId} {l : List OpenLimitOrder}
    (h : o ∉ l.map OpenLimitOrder.id) : (l.map (lotsOf o)).sum = 0 := by
  induction l with
  | nil => rfl
  | cons x l ih =>
    rw [List.map_cons, List.mem_cons, not_or] at h
    rw [List.map_cons, List.sum_cons, ih h.2, lotsOf, if_neg fun he => h.1 he.symm]

theorem sum_lotsOf {l : List OpenLimitOrder} {x : OpenLimitOrder}
    (hn : (l.map OpenLimitOrder.id).Nodup) (hx : x ∈ l) :
    (l.map (lotsOf x.id)).sum = x.openQtyLots := by
  obtain ⟨l₁, l₂, rfl⟩ := List.append_of_mem hx
  rw [List.map_append, List.map_cons, List.nodup_append, List.nodup_cons] at hn
  obtain ⟨-, ⟨h2, -⟩, h1⟩ := hn
  have h1' : x.id ∉ l₁.map OpenLimitOrder.id := fun h => h1 _ h _ List.mem_cons_self rfl
  rw [List.map_append, List.sum_append, List.map_cons, List.sum_cons, sum_lotsOf_of_not_mem h1',
    sum_lotsOf_of_not_mem h2, lotsOf, if_pos rfl, Nat.zero_add, Nat.add_zero]

theorem openLots_eq_sum (hB : BookLaws S) (hn : (S.ids b).Nodup) (o : OrderId) :
    S.openLots b o = ((S.orders b).map (lotsOf o)).sum := by
  unfold Sdk.openLots
  rcases h : S.getOrder b o with _ | x
  · symm
    refine sum_lotsOf_of_not_mem fun ho => ?_
    obtain ⟨x, hx, hid⟩ := List.mem_map.1 ho
    rw [(hB.getOrder hn).2 ⟨hx, hid⟩] at h
    cases h
  · obtain ⟨hx, rfl⟩ := (hB.getOrder hn).1 h
    exact (sum_lotsOf hn hx).symm

theorem openLots_of_not_mem (hB : BookLaws S) (hn : (S.ids b).Nodup) {o : OrderId}
    (h : o ∉ S.ids b) : S.openLots b o = 0 := by
  rw [openLots_eq_sum hB hn]
  exact sum_lotsOf_of_not_mem h

/-- What some fills take off the order `o`, in lots. -/
def filledLots (fs : List Match) (o : OrderId) : ℕ :=
  (fs.map fun f => if f.makerOrderId = o then f.fillQtyLots else 0).sum

theorem sum_orders (S : Sdk B) (b : B) (side : Side) (w : OpenLimitOrder → ℕ) :
    ((S.orders b).map w).sum =
      ((S.resting b side).map w).sum + ((S.resting b side.opposite).map w).sum := by
  rw [((S.orders_perm b side).map w).sum_nat, List.map_append, List.sum_append]

/-- A trade takes its fills off the resting orders and adds what it posts. -/
theorem Placed.openLots (hB : BookLaws S) (h : Placed S b taker n r b') (hn : (S.ids b).Nodup)
    (hn' : (S.ids b').Nodup) (o : OrderId) :
    S.openLots b' o + filledLots r.fills o =
      S.openLots b o + (if r.id = o then r.openQtyLots else 0) ∧
    filledLots r.fills o ≤ S.openLots b o := by
  rw [openLots_eq_sum hB hn, openLots_eq_sum hB hn', sum_orders S b n.side,
    sum_orders S b' n.side]
  have hopp : ((S.resting b' n.side.opposite).map (lotsOf o)).sum + filledLots r.fills o =
      ((S.resting b n.side.opposite).map (lotsOf o)).sum := by
    refine h.filled.sum_add_eq ?_ (Sdk.resting_nodup hn _)
    intro x f hkey hfit
    have hq := hfit.qty
    have hkey : x.id = f.makerOrderId := hkey
    simp only [fillRule]
    split_ifs with hrem ho ho
    · rw [Option.elim_none, lotsOf, if_pos (hkey.trans ho), hfit.removed.1 hrem, Nat.zero_add]
    · rw [Option.elim_none, lotsOf, if_neg fun hx => ho (hkey.symm.trans hx)]
    · rw [Option.elim_some, lotsOf, lotsOf, if_pos (hkey.trans ho), if_pos (hkey.trans ho)]
      exact Nat.sub_add_cancel hq
    · have hx : ¬ x.id = o := fun hx => ho (hkey.symm.trans hx)
      rw [Option.elim_some, lotsOf, lotsOf, if_neg hx, if_neg hx]
  have hown : ((S.resting b' n.side).map (lotsOf o)).sum =
      ((S.resting b n.side).map (lotsOf o)).sum + if r.id = o then r.openQtyLots else 0 := by
    cases hp : r.isPosted with
    | true =>
      obtain ⟨-, p, -, hperm⟩ := h.posted hp
      rw [(hperm.map _).sum_nat, List.map_cons, List.sum_cons, Nat.add_comm]
      rfl
    | false =>
      obtain ⟨h0, hs⟩ := h.not_posted hp
      rw [hs, h0, ite_self, Nat.add_zero]
  omega

/-- A cancellation takes off what it reports. -/
theorem CancelRun.openLots (hB : BookLaws S) {ids : List OrderId}
    (h : CancelRun S c mid owner ids c') {seq : ℕ} (hm : MarketOk S seq h.m) (o : OrderId) :
    S.openLots h.book o + ((h.results.map CancelOrderResult.order).map (lotsOf o)).sum =
      S.openLots h.m.orderbook o := by
  have hn' : (S.ids h.book).Nodup := (h.marketOk hB hm).nodup
  have hperm := List.filter_append_perm (fun x : OpenLimitOrder => decide (x.id ∈ ids))
    (S.orders h.m.orderbook)
  rw [openLots_eq_sum hB hm.nodup, openLots_eq_sum hB hn', h.orders hB hm,
    ((h.cancelled_perm hB hm).map _).sum_nat, ← (hperm.map _).sum_nat, List.map_append,
    List.sum_append, Nat.add_comm]
  simp only [decide_not]

/-! ## The index and the market -/

/-- An announced order is the one that rests, at the announced limit price, which the
    lot size of the market, not told by the log, turns into lots. -/
structure NewOrderEvent.Announces (e : NewOrderEvent) (m : Market B) (x : OpenLimitOrder) :
    Prop where
  account : e.accountId = x.ownerId
  side : e.side = x.side
  clientId : e.clientId = x.clientId
  price : x.limitPriceLots = asU64 (e.limitPrice / m.quoteToken.lotSize)

theorem NewOrderEvent.Announces.shrunk {e : NewOrderEvent} {x x' : OpenLimitOrder}
    (h : e.Announces m x) (ht : SameTerms m m') (hs : Shrunk x x') : e.Announces m' x' := by
  rw [hs.1]
  exact ⟨h.account, h.side, h.clientId, by rw [ht.quoteLot]; exact h.price⟩

/-- The index of a market says what is in it. -/
structure MarketIndex.Shows (S : Sdk B) (i : MarketIndex) (m : Market B) : Prop where
  base : i.created.baseToken = m.baseToken.tokenType
  quote : i.created.quoteToken = m.quoteToken.tokenType
  remaining : ∀ o, i.remaining o = S.openLots m.orderbook o * m.baseToken.lotSize
  orders : ∀ x ∈ S.orders m.orderbook, ∃ e, i.orders x.id = some e ∧ e.Announces m x
  fees : m.feesAccrued + i.rebates = i.takerFees

namespace MarketIndex.Shows

variable {i : MarketIndex}

/-- What changes neither the book nor the fees does not matter. -/
theorem of_same (h : i.Shows S m) (ht : SameTerms m m') (hb : m'.orderbook = m.orderbook)
    (hf : m'.feesAccrued = m.feesAccrued) : i.Shows S m' where
  base := by rw [ht.base]; exact h.base
  quote := by rw [ht.quote]; exact h.quote
  remaining o := by rw [hb, ht.baseLot]; exact h.remaining o
  orders x hx := by
    rw [hb] at hx
    obtain ⟨e, he, ha⟩ := h.orders x hx
    exact ⟨e, he, ha.shrunk ht (.refl x)⟩
  fees := by rw [hf]; exact h.fees

/-- A new market has nothing in it. -/
theorem fresh (hB : BookLaws S) (hm : m.Fresh S) {e : NewMarketEvent}
    (hb : e.baseToken = m.baseToken.tokenType) (hq : e.quoteToken = m.quoteToken.tokenType) :
    (MarketIndex.new e).Shows S m := by
  have hnil : S.orders m.orderbook = [] := by
    rw [hm.book]
    exact List.append_eq_nil_iff.2 ⟨hB.empty .sell, hB.empty .buy⟩
  have hnodup : (S.ids m.orderbook).Nodup := by
    rw [Sdk.ids, hnil]
    exact List.nodup_nil
  refine ⟨hb, hq, fun o => ?_, fun x hx => ?_, ?_⟩
  · rw [openLots_eq_sum hB hnodup, hnil]
    exact (Nat.zero_mul _).symm
  · rw [hnil] at hx
    cases hx
  · rw [hm.fees]
    rfl

end MarketIndex.Shows

theorem foldl_fillEvents (i : MarketIndex) (m : Market B) (mid : MarketId) (id : OrderId)
    (side : Side) (taker : AccountId) (fs : List Match) :
    (m.fillEvents mid id side taker fs).foldl (replayEvent mid) (some i) =
      some ((fs.map (m.fillData side taker)).foldl .fill i) := by
  unfold Market.fillEvents
  cases fs with
  | nil => rfl
  | cons f fs => exact if_pos rfl

theorem sum_fillData (m : Market B) (side : Side) (taker : AccountId) (o : OrderId) :
    ∀ fs : List Match,
      qtyFilled (fs.map (m.fillData side taker)) o = filledLots fs o * m.baseToken.lotSize
  | [] => (Nat.zero_mul _).symm
  | f :: fs => by
    have ih := sum_fillData m side taker o fs
    simp only [qtyFilled, filledLots, List.map_cons, List.sum_cons, Nat.add_mul] at ih ⊢
    rw [ih]
    congr 1
    show (if f.makerOrderId = o then m.fillBase f else 0) = _
    split_ifs
    · rfl
    · exact (Nat.zero_mul _).symm

theorem sum_rebates (m : Market B) (side : Side) (taker : AccountId) (fs : List Match) :
    ((fs.map (m.fillData side taker)).map FillEventData.makerRebate).sum =
      (m.totals fs).totalMakerRebate := by
  rw [List.map_map]
  rfl

/-- What an order event says is open is what was posted. -/
theorem NewOrderEvent.Of.openQuantity_eq {e : NewOrderEvent} {s : Settled}
    (h : e.Of mid m taker n r s) (hp : Placed S b taker n r b') :
    e.openQuantity.getD 0 = r.openQtyLots * m.baseToken.lotSize := by
  obtain he | ⟨hmarket, he⟩ := h.openQuantity
  · rw [he]
    rfl
  · rw [he, hp.openQty_of_market hmarket, Nat.zero_mul]
    rfl

/-- **The log of a trade keeps the index in step.** -/
theorem MarketIndex.Shows.trade (hB : BookLaws S) {i : MarketIndex} (h : i.Shows S m)
    (hm : MarketOk S c.prevOrderSequenceNumber m) (t : TradeLog S c mid m taker r m' c' es) :
    ∃ i', es.foldl (replayEvent mid) (some i) = some i' ∧ i'.Shows S m' := by
  have hp := t.traded.placement hB hm
  have ht := t.traded.sameTerms
  have hn' := (t.traded.marketOk hB hm).nodup
  have hnew := hp.id_new (t.traded.new hm)
  obtain ⟨n, s, ref, e, traded, rfl, told⟩ := t
  refine ⟨((r.fills.map (m.fillData n.side taker)).foldl .fill i).order e, ?_, ?_⟩
  · rw [List.foldl_append, foldl_fillEvents]
    exact if_pos told.market
  rw [MarketIndex.foldl_fill]
  refine ⟨?_, ?_, fun o => ?_, fun x hx => ?_, ?_⟩
  · rw [ht.base]
    exact h.base
  · rw [ht.quote]
    exact h.quote
  · obtain ⟨hsum, hle⟩ := hp.openLots hB hm.nodup hn' o
    show (if o = e.orderId then e.openQuantity.getD 0 else i.remaining o - _) = _
    rw [told.order, ht.baseLot, sum_fillData, h.remaining o]
    by_cases ho : o = r.id
    · subst ho
      rw [openLots_of_not_mem hB hm.nodup hnew] at hsum hle
      rw [if_pos rfl] at hsum
      rw [if_pos rfl, told.openQuantity_eq hp]
      congr 1
      omega
    · rw [if_neg fun hid => ho hid.symm] at hsum
      rw [if_neg ho, ← Nat.sub_mul]
      congr 1
      omega
  · obtain ⟨side, hx⟩ := Sdk.mem_orders.1 hx
    obtain ⟨x₀, hx₀, hs⟩ | ⟨-, -, p, hl, rfl⟩ := hp.origin hx
    · have hmem : x₀ ∈ S.orders m.orderbook := Sdk.mem_orders.2 ⟨side, hx₀⟩
      obtain ⟨e₀, he₀, ha⟩ := h.orders x₀ hmem
      have hid : x.id = x₀.id := by rw [hs.1]
      have hne : x.id ≠ e.orderId := fun he => by
        rw [hid, told.order] at he
        exact hnew (he ▸ Sdk.mem_ids.2 ⟨x₀, hmem, rfl⟩)
      refine ⟨e₀, ?_, ha.shrunk ht hs⟩
      show (if x.id = e.orderId then some e else i.orders x.id) = some e₀
      rw [if_neg hne, hid, he₀]
    · refine ⟨e, if_pos told.order.symm, told.account, told.side, told.clientId, ?_⟩
      rw [ht.quoteLot]
      exact told.limit p hl
  · have hfee := traded.settled.fee_eq
    have hfees : m'.feesAccrued = m.feesAccrued + s.net := by rw [traded.market]
    have h0 := h.fees
    show m'.feesAccrued + (i.rebates + _ + e.referrerRebate) = i.takerFees + e.takerFee
    rw [hfees, sum_rebates, told.takerFee, told.referrerRebate]
    omega

theorem sum_cancels {cancels : List CancelEventData} {os : List OpenLimitOrder}
    (h : cancels.map CancelEventData.says = os.map m.cancelled) (o : OrderId) :
    qtyCancelled cancels o = (os.map (lotsOf o)).sum * m.baseToken.lotSize := by
  have hsum : ∀ os : List OpenLimitOrder,
      ((os.map m.cancelled).map fun x => if x.1 = o then x.2.1 else 0).sum =
        (os.map (lotsOf o)).sum * m.baseToken.lotSize := by
    intro os
    induction os with
    | nil => exact (Nat.zero_mul _).symm
    | cons x os ih =>
      simp only [List.map_cons, List.sum_cons, Nat.add_mul, ih]
      congr 1
      show (if x.id = o then x.openQtyLots * m.baseToken.lotSize else 0) =
        (if x.id = o then x.openQtyLots else 0) * m.baseToken.lotSize
      split_ifs
      · rfl
      · exact (Nat.zero_mul _).symm
  rw [← hsum, ← h, List.map_map]
  rfl

/-- **The log of a cancellation keeps the index in step.** -/
theorem MarketIndex.Shows.cancel (hB : BookLaws S) {i : MarketIndex} {ids : List OrderId}
    (t : LoggedCancel S c mid owner ids es c') {seq : ℕ} (hm : MarketOk S seq t.run.m)
    (h : i.Shows S t.run.m) :
    ∃ i', es.foldl (replayEvent mid) (some i) = some i' ∧ i'.Shows S t.run.market := by
  obtain ⟨run, cancels, rfl, told⟩ := t
  refine ⟨cancels.foldl .cancel i, if_pos rfl, ?_⟩
  rw [MarketIndex.foldl_cancel]
  refine ⟨h.base, h.quote, fun o => ?_, fun x hx => ?_, h.fees⟩
  · show i.remaining o - _ = S.openLots run.book o * run.m.baseToken.lotSize
    rw [sum_cancels told, h.remaining o, ← Nat.sub_mul, ← run.openLots hB hm o, Nat.add_sub_cancel]
  · have hx' : x ∈ S.orders run.m.orderbook := by
      have hb : x ∈ S.orders run.book := hx
      rw [run.orders hB hm] at hb
      exact (List.mem_filter.1 hb).1
    obtain ⟨e, he, ha⟩ := h.orders x hx'
    exact ⟨e, he, ha.account, ha.side, ha.clientId, ha.price⟩

/-! ## All markets -/

theorem TradeLog.marketId (t : TradeLog S c mid m taker r m' c' es) :
    ∀ e ∈ es, e.marketId = mid := by
  intro e he
  rw [t.events, List.mem_append, List.mem_singleton] at he
  rcases he with he | rfl
  · unfold Market.fillEvents at he
    split_ifs at he
    · cases he
    · rw [List.mem_singleton.1 he]
      rfl
  · exact t.told.market

/-- The log says of every market what is in it. -/
def Replayed (S : Sdk B) (c : Contract B) (log : Log) : Prop :=
  ∀ mid m, c.markets.lookup mid = some m → ∃ i, replay mid log = some i ∧ i.Shows S m

/-- What is logged about one market keeps the index in step, if that market's
    index is. -/
theorem Replayed.save (h : Replayed S c log) (hes : ∀ e ∈ es, e.marketId = mid)
    (hc : c'.markets = c.markets.insert mid m')
    (hm : ∃ i, replay mid (log ++ es) = some i ∧ i.Shows S m') : Replayed S c' (log ++ es) := by
  intro mid₁ m₁ h₁
  rw [hc, HMap.lookup_insert_eq] at h₁
  split_ifs at h₁ with hmid
  · cases h₁
    rw [hmid]
    exact hm
  · rw [replay_append_of_ne fun e he => by rw [hes e he]; exact fun he => hmid he.symm]
    exact h mid₁ m₁ h₁

theorem Replayed.trade (hB : BookLaws S) (h : Replayed S c log) (hc : BooksOk S c)
    (t : LoggedTrade S c mid taker es c') : Replayed S c' (log ++ es) := by
  obtain ⟨i, hi, hs⟩ := h _ _ t.found
  refine h.save t.log.marketId t.saved ?_
  rw [replay_append, hi]
  exact hs.trade hB (hc _ _ t.found) t.log

/-- An effect that logs nothing leaves books and fees as they are. -/
theorem Does.quiet_market {e : Effect B} (h : Does S c e c') (hq : e.Quiet)
    (hm : c'.markets.lookup mid = some m') : ∃ m, c.markets.lookup mid = some m ∧
      SameTerms m m' ∧ m'.orderbook = m.orderbook ∧ m'.feesAccrued = m.feesAccrued := by
  have saved : ∀ {mid₀ m₀ m₁}, c.markets.lookup mid₀ = some m₀ →
      (c.markets.insert mid₀ m₁).lookup mid = some m' → SameTerms m₀ m₁ →
      m₁.orderbook = m₀.orderbook → m₁.feesAccrued = m₀.feesAccrued →
      ∃ m, c.markets.lookup mid = some m ∧ SameTerms m m' ∧ m'.orderbook = m.orderbook ∧
        m'.feesAccrued = m.feesAccrued := by
    intro mid₀ m₀ m₁ h₀ h₁ ht hb hf
    rw [HMap.lookup_insert_eq] at h₁
    split_ifs at h₁ with hmid
    · cases h₁
      exact ⟨m₀, hmid ▸ h₀, ht, hb, hf⟩
    · exact ⟨m', h₁, .refl m', rfl, rfl⟩
  cases h with
  | order | hop | cancel | create => exact hq.elim
  | credit | debit | storage | unregister | admin => exact ⟨m', hm, .refl m', rfl, rfl⟩
  | delete found can =>
    rw [HMap.lookup_erase_eq] at hm
    split_ifs at hm
    exact ⟨m', hm, .refl m', rfl, rfl⟩
  | setState found => exact saved found hm ⟨rfl, rfl, rfl, rfl, rfl, rfl, rfl⟩ rfl rfl
  | setWindow bid ask found => exact saved found hm ⟨rfl, rfl, rfl, rfl, rfl, rfl, rfl⟩ rfl rfl
  | @decimals mid₀ m₀ side d state found =>
    refine saved found hm ?_ ?_ ?_
    · cases side <;> exact ⟨rfl, rfl, rfl, rfl, rfl, rfl, rfl⟩
    · cases side <;> rfl
    · cases side <;> rfl

/-- **Every effect and its log keep the index in step.** -/
theorem Tells.replayed (hB : BookLaws S) {e : Effect B} (hdo : Does S c e c')
    (ht : Tells S c e es c') (hc : BooksOk S c) (h : Replayed S c log) :
    Replayed S c' (log ++ es) := by
  cases ht with
  | order run log => exact h.trade hB hc (run.logged log)
  | hop trade => exact h.trade hB hc trade
  | @cancel mid owner ids es c' cancel =>
    obtain ⟨i, hi, hs⟩ := h _ _ cancel.run.found
    have hes : ∀ e ∈ es, e.marketId = mid := by
      rw [cancel.events]
      exact List.forall_mem_singleton.2 rfl
    have hsaved : c'.markets = c.markets.insert mid cancel.run.market :=
      congrArg Contract.markets cancel.run.result
    refine h.save hes hsaved ?_
    rw [replay_append, hi]
    exact hs.cancel hB cancel (hc _ _ cancel.run.found)
  | create event base quote =>
    cases hdo with
    | create new fresh =>
      have hshows := MarketIndex.Shows.fresh hB fresh base quote
      refine h.save (List.forall_mem_singleton.2 rfl) rfl ⟨.new event, ?_, hshows⟩
      rw [replay_append]
      exact if_pos rfl
  | quiet quiet =>
    intro mid m hm
    obtain ⟨m₀, hm₀, hterms, hb, hf⟩ := hdo.quiet_market quiet hm
    obtain ⟨i, hi, hs⟩ := h mid m₀ hm₀
    exact ⟨i, by rw [List.append_nil]; exact hi, hs.of_same hterms hb hf⟩

/-- **In every run the log says of every market what is in it.** -/
theorem replayed_of_logs (hB : BookLaws S) {x : System B × Log}
    (hx : System.Logs S x) : Replayed S x.1.contract x.2 := by
  refine logs_invariant hB (fun id mid m hm => ?_) ?_ hx
  · cases hm
  · intro c c' e log es hdo ht hc h
    exact ht.replayed hB hdo hc h

open Engine

/-- **The log tells the books.**  In every run, in whatever order its calls and
    callbacks come, an observer who knows nothing but the log knows of every
    market its tokens, of every order what is left of it, and of every resting
    order its owner, side, client id and announced limit price. -/
theorem books_replayed (hB : BookLaws S) {x : System B × Log}
    (hx : System.Logs S x) {mid : MarketId} {m : Market B}
    (hm : x.1.contract.markets.lookup mid = some m) : ∃ i, replay mid x.2 = some i ∧
      (i.created.baseToken = m.baseToken.tokenType ∧
        i.created.quoteToken = m.quoteToken.tokenType) ∧
      (∀ o, i.remaining o = S.openLots m.orderbook o * m.baseToken.lotSize) ∧
      ∀ y ∈ S.orders m.orderbook, ∃ e, i.orders y.id = some e ∧ e.Announces m y := by
  obtain ⟨i, hi, hs⟩ := replayed_of_logs hB hx mid m hm
  exact ⟨i, hi, ⟨hs.base, hs.quote⟩, hs.remaining, hs.orders⟩

-- 410 of Alice's order are left; Bob paid a fee of 11
example : (replay btcUsd (logged bought).2).map (fun i => (i.remaining 1, i.takerFees)) =
    some (410, 11) := by
  decide +kernel

/-- Some of Alice's order is filled. -/
theorem books_replayed_bought : ∃ m, (logged bought).1.contract.markets.lookup btcUsd = some m ∧
    ∃ i, replay btcUsd (logged bought).2 = some i ∧
      (i.created.baseToken = m.baseToken.tokenType ∧
        i.created.quoteToken = m.quoteToken.tokenType) ∧
      (∀ o, i.remaining o = sdk.openLots m.orderbook o * m.baseToken.lotSize) ∧
      ∀ y ∈ sdk.orders m.orderbook, ∃ e, i.orders y.id = some e ∧ e.Announces m y := by
  obtain ⟨m, hm⟩ := market_logged_bought
  exact ⟨m, hm, books_replayed bookLaws (logs_logged bought) hm⟩

/-- **The log tells the fees.**  What a market accrued is the sum of the taker fees
    logged since it was created, less the rebates logged. -/
theorem fees_replayed (hB : BookLaws S) {x : System B × Log}
    (hx : System.Logs S x) {mid : MarketId} {m : Market B}
    (hm : x.1.contract.markets.lookup mid = some m) : ∃ i, replay mid x.2 = some i ∧
      m.feesAccrued + i.rebates = i.takerFees := by
  obtain ⟨i, hi, hs⟩ := replayed_of_logs hB hx mid m hm
  exact ⟨i, hi, hs.fees⟩

/-- Bob paid a fee. -/
theorem fees_replayed_bought : ∃ m, (logged bought).1.contract.markets.lookup btcUsd = some m ∧
    ∃ i, replay btcUsd (logged bought).2 = some i ∧ m.feesAccrued + i.rebates = i.takerFees := by
  obtain ⟨m, hm⟩ := market_logged_bought
  exact ⟨m, hm, fees_replayed bookLaws (logs_logged bought) hm⟩

end TonicDex
