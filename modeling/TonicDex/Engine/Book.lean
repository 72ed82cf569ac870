/-
  A price-time order book.

  Each side is a list with its best order first.  An order is matched against
  the other side from the front, as far as the prices cross and its quantity
  and budget last; what is left of a limit order is queued behind the orders at
  its price.  An order that would be matched with one of the same account panics,
  and a fill-or-kill order that would not be filled whole is rejected.  The book
  satisfies what `BookLaws` and `MatchLaw` ask of the contract's engine.
-/
import Mathlib.Data.List.Sort
import Mathlib.Tactic.Ring
import TonicDex.Model.Sdk

namespace TonicDex.Engine

/-- The resting orders, best first. -/
structure Book where
  bids : List OpenLimitOrder
  asks : List OpenLimitOrder
  deriving DecidableEq

namespace Book

def empty : Book := ⟨[], []⟩

def side (b : Book) : Side → List OpenLimitOrder
  | .buy => b.bids
  | .sell => b.asks

def withSide (b : Book) (l : List OpenLimitOrder) : Side → Book
  | .buy => { b with bids := l }
  | .sell => { b with asks := l }

def orders (b : Book) : List OpenLimitOrder := b.asks ++ b.bids

def bestPrice (b : Book) (side : Side) : Option ℕ :=
  (b.side side).head?.map OpenLimitOrder.limitPriceLots

@[simp] theorem side_withSide (b : Book) (l : List OpenLimitOrder) (s : Side) :
    (b.withSide l s).side s = l := by
  cases s <;> rfl

@[simp] theorem side_withSide_opposite (b : Book) (l : List OpenLimitOrder) (s : Side) :
    (b.withSide l s).side s.opposite = b.side s.opposite := by
  cases s <;> rfl

@[simp] theorem side_withSide_opposite' (b : Book) (l : List OpenLimitOrder) (s : Side) :
    (b.withSide l s.opposite).side s = b.side s := by
  cases s <;> rfl

end Book

/-! ## Matching -/

/-- What is left of the budget of `n` after the fills `fs`. -/
def budget (n : NewOrder) (fs : List Match) : ℕ :=
  n.availableQuoteLots.getD 0 * n.quoteLotSize - (fs.map Match.nativeQuotePaid).sum

/-- The most lots of `o` that what is left of the budget pays for. -/
def affordable (n : NewOrder) (fs : List Match) (o : OpenLimitOrder) : ℕ :=
  let unit := o.limitPriceLots * n.quoteLotSize * n.baseLotSize
  if unit = 0 then o.openQtyLots else budget n fs * n.baseDenomination / unit

/-- A post-only order is rejected if it would be filled, and a fill-or-kill order if
    it would not be filled whole. -/
def rejects (n : NewOrder) (fs : List Match) : Bool :=
  match n.orderType with
  | .postOnly => decide (fs ≠ [])
  | .fillOrKill => decide ((fs.map Match.fillQtyLots).sum ≠ n.maxQtyLots)
  | _ => false

/-- Orders are matched best first, within their budgets. -/
def matching : Matching Book := ⟨Book.side, affordable, rejects⟩

theorem fillQty_le_left (n : NewOrder) (fs : List Match) (o : OpenLimitOrder) :
    matching.fillQty n fs o ≤ n.maxQtyLots - (fs.map Match.fillQtyLots).sum := by
  unfold Matching.fillQty
  dsimp only
  split_ifs
  · exact Nat.min_le_left _ _
  · exact (Nat.min_le_left _ _).trans (Nat.min_le_left _ _)

theorem fillQty_le_open (n : NewOrder) (fs : List Match) (o : OpenLimitOrder) :
    matching.fillQty n fs o ≤ o.openQtyLots := by
  unfold Matching.fillQty
  dsimp only
  split_ifs
  · exact Nat.min_le_right _ _
  · exact (Nat.min_le_left _ _).trans (Nat.min_le_right _ _)

/-- What is bought within a budget costs at most what is left of it. -/
theorem paid_fillQty_le {n : NewOrder} (hq : n.availableQuoteLots ≠ none) (fs : List Match)
    (o : OpenLimitOrder) :
    (n.fill o (matching.fillQty n fs o)).nativeQuotePaid ≤ budget n fs := by
  have hafford : matching.fillQty n fs o ≤ affordable n fs o := by
    unfold Matching.fillQty
    dsimp only
    rw [if_neg hq]
    exact Nat.min_le_right _ _
  generalize matching.fillQty n fs o = qty at hafford
  have hunit : qty * o.limitPriceLots * n.quoteLotSize * n.baseLotSize =
      qty * (o.limitPriceLots * n.quoteLotSize * n.baseLotSize) := by ring
  simp only [NewOrder.fill, quoteValue, hunit]
  unfold affordable at hafford
  dsimp only at hafford
  split_ifs at hafford with h0
  · simp [h0]
  · refine Nat.div_le_of_le_mul ?_
    calc _ ≤ budget n fs * n.baseDenomination / (o.limitPriceLots * n.quoteLotSize *
          n.baseLotSize) * (o.limitPriceLots * n.quoteLotSize * n.baseLotSize) :=
            Nat.mul_le_mul_right _ hafford
      _ ≤ budget n fs * n.baseDenomination := Nat.div_mul_le_self _ _
      _ = n.baseDenomination * budget n fs := Nat.mul_comm _ _

/-- What is left of a budget after one more fill. -/
theorem budget_concat (n : NewOrder) (fs : List Match) (f : Match) :
    budget n (fs ++ [f]) = budget n fs - f.nativeQuotePaid := by
  simp only [budget, List.map_append, List.map_singleton, List.sum_append, List.sum_singleton]
  omega

/-- All that is bought costs at most what is left of the budget. -/
theorem paid_sweep_le (taker : AccountId) {n : NewOrder} (hq : n.availableQuoteLots ≠ none) :
    ∀ (os : List OpenLimitOrder) (fs : List Match),
      ((matching.sweep taker n fs os).map Match.nativeQuotePaid).sum ≤ budget n fs
  | [], _ => Nat.zero_le _
  | o :: os, fs => by
    unfold Matching.sweep
    split_ifs with hpass
    · exact paid_sweep_le taker hq os fs
    · have hcost := paid_fillQty_le hq fs o
      have hrest := paid_sweep_le taker hq os (fs ++ [n.fill o (matching.fillQty n fs o)])
      rw [budget_concat] at hrest
      simp only [List.map_cons, List.sum_cons]
      omega

/-- What matching does: fills that fit the orders they name, for at most the
    quantity that is left. -/
structure Swept (taker : AccountId) (n : NewOrder) (fs : List Match) (os : List OpenLimitOrder)
    (fills : List Match) : Prop where
  used : ∃ rest, fillRule.Used (Fillable taker n) os fills rest
  qty : (fills.map Match.fillQtyLots).sum ≤ n.maxQtyLots - (fs.map Match.fillQtyLots).sum

theorem swept (taker : AccountId) (n : NewOrder) :
    ∀ (os : List OpenLimitOrder) (fs : List Match), (os.map OpenLimitOrder.id).Nodup →
      Swept taker n fs os (matching.sweep taker n fs os)
  | [], _, _ => ⟨⟨[], .nil []⟩, Nat.zero_le _⟩
  | o :: os, fs, hn => by
    rw [List.map_cons, List.nodup_cons] at hn
    have hne : ∀ b ∈ os, fillRule.key b ≠ fillRule.key o :=
      fun b hb he => hn.1 (List.mem_map.2 ⟨b, hb, he⟩)
    unfold Matching.sweep
    split_ifs with hpass
    · -- an order that is passed over stays as it is
      obtain ⟨⟨rest, hused⟩, hqty⟩ := swept taker n os fs hn.2
      exact ⟨⟨o :: rest, hused.cons_left hne⟩, hqty⟩
    · obtain ⟨hown, hrest⟩ := not_or.1 hpass
      obtain ⟨hcross, -⟩ := not_or.1 hrest
      have hleft := fillQty_le_left n fs o
      have hopen := fillQty_le_open n fs o
      dsimp only
      generalize matching.fillQty n fs o = qty at hleft hopen
      obtain ⟨⟨rest, hused⟩, hqty⟩ := swept taker n os (fs ++ [n.fill o qty]) hn.2
      constructor
      · have hfits : Fillable taker n o (n.fill o qty) :=
          NewOrder.fillable_fill hown (by simpa using hcross) hopen
        have hstep : ∃ rest', fillRule.Used (Fillable taker n)
            ((fillRule.reduce o (n.fill o qty)).toList ++ os)
            (matching.sweep taker n (fs ++ [n.fill o qty]) os) rest' := by
          rcases hr : fillRule.reduce o (n.fill o qty) with _ | o'
          · exact ⟨rest, hused⟩
          · exact ⟨o' :: rest, hused.cons_left fun b hb => (fillRule.key_reduce hr) ▸ hne b hb⟩
        obtain ⟨rest', hused'⟩ := hstep
        rw [← Consumption.use_cons_of_eq rfl hne] at hused'
        exact ⟨rest', .cons List.mem_cons_self rfl hfits hused'⟩
      · simp only [List.map_append, List.map_singleton, List.sum_append, List.sum_singleton,
          NewOrder.fill] at hqty
        simp only [List.map_cons, List.sum_cons, NewOrder.fill]
        omega

/-! ## Placing an order -/

/-- Queue an order behind the others at its price. -/
def queue (o : OpenLimitOrder) (l : List OpenLimitOrder) : List OpenLimitOrder :=
  match o.side with
  | .buy => l.orderedInsert (fun x y => y.limitPriceLots < x.limitPriceLots) o
  | .sell => l.orderedInsert (fun x y => x.limitPriceLots < y.limitPriceLots) o

theorem queue_perm (o : OpenLimitOrder) (l : List OpenLimitOrder) : (queue o l).Perm (o :: l) := by
  unfold queue
  split
  · exact List.perm_orderedInsert _ o l
  · exact List.perm_orderedInsert _ o l

/-- Whether what is left of an order rests: of limit and post-only orders. -/
def rests (n : NewOrder) : Bool :=
  match n.orderType with
  | .limit | .postOnly => true
  | _ => false

/-- What fills leave of an order. -/
def left (n : NewOrder) (fs : List Match) : ℕ := n.maxQtyLots - (fs.map Match.fillQtyLots).sum

/-- The book after fills of its orders on a side. -/
def Book.used (b : Book) (side : Side) (fs : List Match) : Book :=
  b.withSide (fs.foldl fillRule.use (b.side side)) side

/-- Whether an order is matched with one of the same account. -/
def meetsOwn (taker : AccountId) (n : NewOrder) : List Match → List OpenLimitOrder → Bool
  | _, [] => false
  | fs, o :: os =>
    if n.crosses o = false ∨ matching.fillQty n fs o = 0 then meetsOwn taker n fs os
    else decide (o.ownerId = taker) ||
      meetsOwn taker n (fs ++ [n.fill o (matching.fillQty n fs o)]) os

/-- Place an order: match it unless it is rejected, then queue what is left if it is to
    rest.  The sequence number is the id. -/
def placeOrder (b : Book) (taker : AccountId) (n : NewOrder) : Call (PlaceOrderResult × Book) :=
  let fills := matching.fills taker n b
  let used := b.used n.side.opposite fills
  if meetsOwn taker n [] (b.side n.side.opposite) = true then throw (.sdk "self trade")
  else
    match rests n && !rejects n (matching.offered taker n b) && decide (left n fills ≠ 0),
        n.limitPriceLots with
    | true, some p =>
      let o : OpenLimitOrder := ⟨n.sequenceNumber, taker, n.side, p, left n fills, n.clientId⟩
      let b := used.withSide (queue o (used.side n.side)) n.side
      return (⟨n.sequenceNumber, fills, left n fills, true, b.bestPrice .buy,
        b.bestPrice .sell⟩, b)
    | _, _ =>
      return (⟨n.sequenceNumber, fills, 0, false, used.bestPrice .buy, used.bestPrice .sell⟩, used)

/-- What has become of an order that is placed: of what its fills leave, all rests or
    nothing. -/
structure Ran (b : Book) (taker : AccountId) (n : NewOrder) (r : PlaceOrderResult) (b' : Book) :
    Prop where
  id : r.id = n.sequenceNumber
  fills : r.fills = matching.fills taker n b
  posted : r.isPosted = true → rests n = true ∧ r.openQtyLots = left n r.fills ∧
    r.openQtyLots ≠ 0 ∧ ∃ p, n.limitPriceLots = some p ∧
      b' = (b.used n.side.opposite r.fills).withSide
        (queue ⟨r.id, taker, n.side, p, r.openQtyLots, n.clientId⟩
          ((b.used n.side.opposite r.fills).side n.side)) n.side
  dropped : r.isPosted = false → r.openQtyLots = 0 ∧ b' = b.used n.side.opposite r.fills

theorem ran {b b' : Book} {taker : AccountId} {n : NewOrder} {r : PlaceOrderResult}
    (h : placeOrder b taker n = .ok (r, b')) : Ran b taker n r b' := by
  unfold placeOrder at h
  dsimp only at h
  split_ifs at h
  split at h
  · next p hrest hp =>
    cases h
    obtain ⟨hrests, hleft⟩ := Bool.and_eq_true_iff.1 hrest
    exact ⟨rfl, rfl, fun _ => ⟨(Bool.and_eq_true_iff.1 hrests).1, rfl, of_decide_eq_true hleft,
      p, hp, rfl⟩, Bool.noConfusion⟩
  · cases h
    exact ⟨rfl, rfl, Bool.noConfusion, fun _ => ⟨rfl, rfl⟩⟩

/-! ## Finding and cancelling orders -/

def findBbo (b : Book) (side : Side) : Option OpenLimitOrder := (b.side side).head?

def getOrder (b : Book) (id : OrderId) : Option OpenLimitOrder :=
  b.orders.find? fun o => decide (o.id = id)

/-- The book without the order `id`. -/
def Book.drop (b : Book) (id : OrderId) : Book :=
  ⟨b.bids.filter (·.id ≠ id), b.asks.filter (·.id ≠ id)⟩

def cancelOrder (b : Book) (id : OrderId) : Option CancelOrderResult × Book :=
  match getOrder b id with
  | none => (none, b)
  | some o =>
    let rank := (b.side o.side).findIdx fun o => decide (o.id = id)
    (some ⟨o, rank, (b.drop id).bestPrice .buy, (b.drop id).bestPrice .sell⟩, b.drop id)

def cancelOrders : Book → List OrderId → Call (List CancelOrderResult × Book)
  | b, [] => return ([], b)
  | b, id :: ids =>
    match cancelOrder b id with
    | (none, _) => throw (.sdk "order not found")
    | (some r, b) => do
      let (rs, b) ← cancelOrders b ids
      return (r :: rs, b)

theorem mem_getOrder {b : Book} {id : OrderId} {o : OpenLimitOrder}
    (hn : (b.orders.map OpenLimitOrder.id).Nodup) :
    getOrder b id = some o ↔ o ∈ b.orders ∧ o.id = id := by
  constructor
  · intro h
    exact ⟨List.mem_of_find?_eq_some h, by simpa using List.find?_some h⟩
  · rintro ⟨ho, rfl⟩
    rcases h : getOrder b o.id with _ | o'
    · exact absurd (List.find?_eq_none.1 h o ho) (by simp)
    · have ho' : o' ∈ b.orders := List.mem_of_find?_eq_some h
      have hid : o'.id = o.id := by simpa using List.find?_some h
      rw [List.inj_on_of_nodup_map hn ho' ho hid]

theorem getOrder_eq_none {b : Book} {id : OrderId} :
    getOrder b id = none ↔ id ∉ b.orders.map OpenLimitOrder.id := by
  simp [getOrder]

theorem orders_drop (b : Book) (id : OrderId) :
    (b.drop id).orders = b.orders.filter (·.id ≠ id) := by
  simp [Book.drop, Book.orders]

end TonicDex.Engine
