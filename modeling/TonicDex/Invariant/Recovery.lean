/-
  Locked funds can be recovered.

  A resting order was sized when it was posted, so that every product of a refund
  fits (`Market.Fits`), and stays so while it is filled and the scale of its market
  is kept.  What is refunded was received, and so its sum with the balance fits
  as well.  What is left is the storage of the account: `cancel_order` goes through
  just in case the balance is stored already, or there is room for a new entry in
  place of the record of the order (`cancel_order_iff`).
-/
import TonicDex.Invariant.LimitPrice
import TonicDex.Invariant.Degenerate
import TonicDex.Invariant.Solvency

namespace TonicDex

variable {B : Type} {S : Sdk B} {c c' : Contract B} {e : Effect B} {es : List (Effect B)}
  {mid : MarketId} {m m' : Market B} {env : Env} {p : NewOrderParams} {r : PlaceOrderResult}
  {x x' : OpenLimitOrder}

/-! ## Amounts of a refund -/

/-- The amounts that are computed when the order is cancelled fit. -/
structure Market.Fits (m : Market B) (x : OpenLimitOrder) : Prop where
  price : x.limitPriceLots * m.quoteToken.lotSize < 2 ^ 128
  qty : x.openQtyLots * m.baseToken.lotSize < 2 ^ 128
  bid : x.side = .buy → m.denom < 2 ^ 128 ∧ m.restingValue .buy x < 2 ^ 128 ∧
    x.openQtyLots * x.limitPriceLots * m.quoteToken.lotSize * m.baseToken.lotSize < 2 ^ 256

/-- A refund that fits is computed. -/
theorem Market.Fits.getRefundAmount_eq {seq : ℕ} (h : m.Fits x) (hm : MarketOk S seq m) :
    getRefundAmount m x = .ok (m.restingValue x.side x, m.sideToken x.side) := by
  unfold getRefundAmount
  rcases hs : x.side with _ | _
  · obtain ⟨hdenom, hvalue, hvolume⟩ := h.bid hs
    -- the products before the last are no larger
    have hquote : x.openQtyLots * x.limitPriceLots * m.quoteToken.lotSize < 2 ^ 256 :=
      (Nat.le_mul_of_pos_right _ (Nat.pos_of_ne_zero hm.baseLot)).trans_lt hvolume
    have hlots : x.openQtyLots * x.limitPriceLots < 2 ^ 256 :=
      (Nat.le_mul_of_pos_right _ (Nat.pos_of_ne_zero hm.quoteLot)).trans_lt hquote
    have hrefund : m.bidRefund x.openQtyLots x.limitPriceLots = .ok (m.restingValue .buy x) := by
      simp only [Market.bidRefund, Checked.bind_eq_ok, Checked.fit_eq_ok,
        Market.baseDenomination_eq_ok]
      exact ⟨_, ⟨hdenom, rfl⟩, _, ⟨hlots, rfl⟩, _, ⟨hquote, rfl⟩, _, ⟨hvolume, rfl⟩, hvalue, rfl⟩
    simp only [hrefund, Checked.ok_bind]
    rfl
  · simp only [Checked.fit_of_lt h.qty, Checked.ok_bind]
    rfl

/-- Fills make the amounts smaller. -/
theorem Market.Fits.shrunk (h : m.Fits x) (hsh : Shrunk x x')
    (hquote : m'.quoteToken.lotSize = m.quoteToken.lotSize)
    (hbase : m'.baseToken.lotSize = m.baseToken.lotSize) (hdenom : m'.denom = m.denom) :
    m'.Fits x' := by
  have hprice : x'.limitPriceLots = x.limitPriceLots := by rw [hsh.1]
  have hside : x'.side = x.side := by rw [hsh.1]
  have hvolume : x'.openQtyLots * x'.limitPriceLots * m'.quoteToken.lotSize *
      m'.baseToken.lotSize ≤
      x.openQtyLots * x.limitPriceLots * m.quoteToken.lotSize * m.baseToken.lotSize := by
    rw [hprice, hquote, hbase]
    gcongr
    exact hsh.2
  refine ⟨?_, ?_, fun hs => ?_⟩
  · rw [hprice, hquote]
    exact h.price
  · rw [hbase]
    exact (Nat.mul_le_mul_right _ hsh.2).trans_lt h.qty
  · obtain ⟨hd, hvalue, hvol⟩ := h.bid (hside ▸ hs)
    refine ⟨hdenom ▸ hd, lt_of_le_of_lt ?_ hvalue, hvolume.trans_lt hvol⟩
    unfold Market.restingValue quoteValue
    rw [hdenom]
    exact Nat.div_le_div_right hvolume

/-- What a posted order locks was computed at the limit of its owner, which is no
    less than its price. -/
theorem OrderRun.posted_fits (h : OrderRun S env c mid p r c')
    (htyped : ∀ l, p.limitPrice = some l → l < 2 ^ 128) (htype : p.orderType ≠ .market)
    {price : ℕ} (hprice : h.path.n.limitPriceLots = some price)
    (hx : x = Placed.postedOrder env.predecessorAccountId h.path.n h.done.result price) :
    h.m.Fits x := by
  obtain ⟨limit, hlimit, -, hlots, hlocked, -⟩ := h.path.limit htype
  obtain ⟨hqty, hbid⟩ := h.path.fits htype
  cases hlots.symm.trans hprice
  have hle : asU64 (limit / h.m.quoteToken.lotSize) * h.m.quoteToken.lotSize ≤ limit :=
    asU64_within (.inl rfl)
  subst hx
  refine ⟨hle.trans_lt (htyped limit hlimit), hqty, fun hs => ?_⟩
  have hside : p.side = .buy := h.path.side.symm.trans hs
  obtain ⟨hvolume, hvalue⟩ := hbid hside limit hlimit
  have hvol : h.done.result.openQtyLots * asU64 (limit / h.m.quoteToken.lotSize) *
      h.m.quoteToken.lotSize * h.m.baseToken.lotSize ≤
        h.done.result.openQtyLots * h.m.baseToken.lotSize * limit := by
    calc _ = h.done.result.openQtyLots * h.m.baseToken.lotSize *
          (asU64 (limit / h.m.quoteToken.lotSize) * h.m.quoteToken.lotSize) := by ring
      _ ≤ _ := Nat.mul_le_mul_left _ hle
  refine ⟨h.path.traded.of.denom, lt_of_le_of_lt ?_ hvalue, hvol.trans_lt hvolume⟩
  rw [hlocked, hside]
  exact Nat.div_le_div_right hvol

/-! ## Every resting order can be refunded -/

/-- The limit price of an order is an amount of 128 bits. -/
def Effect.Typed : Effect B → Prop
  | order _ _ p _ => ∀ l, p.limitPrice = some l → l < 2 ^ 128
  | _ => True

/-- The amounts of every resting order fit. -/
def OrdersFit (S : Sdk B) (c : Contract B) : Prop :=
  ∀ mid m x, c.markets.lookup mid = some m → x ∈ S.orders m.orderbook → m.Fits x

/-- What holds of the orders that rested, is kept when they shrink, and holds of
    the posted order, holds of all that rest after a trade. -/
theorem Traded.forall_resting {taker : AccountId} {n : NewOrder} {referrerId : Option AccountId}
    {s : Settled} (hB : BookLaws S) (h : Traded S c mid m taker n referrerId r m' s c')
    (hm : MarketOk S c.prevOrderSequenceNumber m) {P : OpenLimitOrder → Prop}
    (hold : ∀ x ∈ S.orders m.orderbook, ∀ x', Shrunk x x' → P x')
    (hpost : ∀ price, n.orderType ≠ .market → n.limitPriceLots = some price →
      P (Placed.postedOrder taker n r price)) :
    ∀ x ∈ S.orders m'.orderbook, P x := by
  intro x' hx'
  have hp := h.placement hB hm
  obtain ⟨side, hside⟩ := Sdk.mem_orders.1 hx'
  obtain ⟨x, hx, hsh⟩ | ⟨-, hposted, price, hprice, rfl⟩ := hp.origin hside
  · exact hold x (Sdk.mem_orders.2 ⟨side, hx⟩) x' hsh
  · exact hpost price (hp.posted hposted).1 hprice

/-- **A property of resting orders is kept by an effect** if it is kept when an
    order shrinks and its market keeps its terms, and holds of posted orders. -/
theorem Does.forall_resting (hB : BookLaws S) {P : Market B → OpenLimitOrder → Prop}
    (h : Does S c e c') (hc : BooksOk S c)
    (shrunk : ∀ {m m' x x'}, SameTerms m m' → (¬ e.Rescales S c → m'.denom = m.denom) →
      Shrunk x x' → P m x → P m' x')
    (posted : ∀ {env mid p r c'} (run : OrderRun S env c mid p r c') {price : ℕ},
      e = .order env mid p r → p.orderType ≠ .market → run.path.n.limitPriceLots = some price →
      P run.m (Placed.postedOrder env.predecessorAccountId run.path.n run.done.result price))
    (hP : ∀ mid m x, c.markets.lookup mid = some m → x ∈ S.orders m.orderbook → P m x) :
    ∀ mid m x, c'.markets.lookup mid = some m → x ∈ S.orders m.orderbook → P m x := by
  intro mid m' x hm' hx
  by_cases htrade : ∃ t, e.trade = some t ∧ t.marketId = mid
  · obtain ⟨t, ht, rfl⟩ := htrade
    have denom : ∀ {mid m taker n referrerId r m' s c'},
        Traded S c mid m taker n referrerId r m' s c' → m'.denom = m.denom := by
      intro mid m taker n referrerId r m' s c' tr
      rw [tr.market]
      rfl
    cases h with
    | order run =>
      cases ht
      cases (AList.lookup_insert _).symm.trans (run.markets_eq ▸ hm')
      have tr := run.path.traded
      refine tr.forall_resting hB (hc _ _ run.found)
        (fun x hx x' hsh => shrunk tr.sameTerms (fun _ => denom tr) hsh (hP _ _ x run.found hx))
        (fun price htype hprice => ?_) x hx
      exact shrunk tr.sameTerms (fun _ => denom tr) (.refl _)
        (posted run rfl (run.path.type ▸ htype) hprice)
    | hop run =>
      cases ht
      cases (AList.lookup_insert _).symm.trans (run.markets_eq ▸ hm')
      have tr := run.traded
      exact tr.forall_resting hB (hc _ _ run.found)
        (fun x hx x' hsh => shrunk tr.sameTerms (fun _ => denom tr) hsh (hP _ _ x run.found hx))
        (fun price htype _ => absurd run.type htype) x hx
    | _ => cases ht
  · obtain ⟨m, hm, hmove, hold⟩ :=
      h.resting_origin hB hc (fun t ht hmid => htrade ⟨t, ht, hmid⟩) hm' hx
    refine shrunk hmove.sameTerms (fun hok => ?_) (.refl x) (hP mid m x hm hold)
    exact congrArg (10 ^ ·) (h.keeps_scale hB hc hok hm (List.ne_nil_of_mem hold) hm')

/-- **Every effect that keeps the scale keeps the amounts of resting orders.** -/
theorem Does.ordersFit (hB : BookLaws S) (h : Does S c e c') (hc : BooksOk S c)
    (hok : ¬ e.Rescales S c) (htyped : e.Typed) (hf : OrdersFit S c) : OrdersFit S c' := by
  refine h.forall_resting hB hc (P := Market.Fits) ?_ ?_ hf
  · intro m m' x x' ht hdenom hsh hfits
    exact hfits.shrunk hsh ht.quoteLot ht.baseLot (hdenom hok)
  · intro env mid p r c' run price he htype hprice
    subst he
    exact run.posted_fits htyped htype hprice rfl

/-- The limit prices of a call are amounts of 128 bits. -/
def Event.Typed : Event → Prop
  | call _ op => ∀ x ∈ op.orders, ∀ l, x.2.limitPrice = some l → l < 2 ^ 128
  | resolve .. => True

instance : DecidablePred Event.Typed
  | .call _ op => inferInstanceAs (Decidable (∀ x ∈ op.orders, ∀ l ∈ x.2.limitPrice, l < 2 ^ 128))
  | .resolve .. => .isTrue trivial

/-- An effect that is an order is one of the call. -/
theorem Shape.mem_orders {op : Op} {ps : List Promise} (h : Shape S c env op ps es)
    {env' : Env} (he : .order env' mid p r ∈ es) : (mid, p) ∈ op.orders := by
  cases h with
  | newOrder =>
    cases List.mem_singleton.1 he
    exact List.mem_singleton_self _
  | execute trades =>
    cases trades _ he with
    | order r action => exact List.mem_filterMap.2 ⟨_, action, rfl⟩
  | swap method hops => cases hops.no_orders _ he
  | storageDeposit sum effects =>
    obtain ⟨rfl, -⟩ | rfl := effects
    · cases he
    · cases List.mem_singleton.1 he
  | adminCancel method cancels =>
    obtain ⟨_, _, he, -⟩ := cancels _ he
    cases he
  | mtDeposit =>
    obtain ⟨_, -, he⟩ := List.mem_map.1 he
    cases he
  | storageKept | notDeleted => cases he
  | _ => cases List.mem_singleton.1 he

theorem Shape.typed {op : Op} {ps : List Promise} (h : Shape S c env op ps es)
    (htyped : (Event.call env op).Typed) : ∀ e ∈ es, e.Typed := by
  intro e he
  cases e with
  | order env' mid p r => exact htyped _ (h.mem_orders he)
  | _ => trivial

theorem Resolution.typed {promise : Promise} {paid : Option (TokenType × ℕ)}
    (h : Resolution S c promise es paid) : ∀ e ∈ es, e.Typed := by
  intro e he
  have hno := h.no_orders e he
  cases e with
  | order => cases hno
  | _ => trivial

/-- The event keeps what resting orders can be refunded: its limit prices are
    amounts of 128 bits, and it gives no market with resting orders other base
    decimals. -/
def KeepsRefunds (S : Sdk B) (s : System B) (ev : Event) : Prop := ev.Typed ∧ KeepsScale S s ev

theorem ordersFit_of_reach (hB : BookLaws S) {s : System B}
    (hs : System.Reach S (KeepsRefunds S) s) : OrdersFit S s.contract := by
  refine hs.invariant (P := fun s => OrdersFit S s.contract) ?_ fun s ev hr hev hf => ?_
  · rintro s ⟨id, rfl⟩ mid m x hm
    cases hm
  have hc := booksOk_of_reach hB hr
  have fits : ∀ {es c'}, EachEffect S (fun c e _ => ¬ e.Rescales S c) s.contract es c' →
      (∀ e ∈ es, e.Typed) → OrdersFit S c' := fun h htyped =>
    (h.and_mem htyped).invariant hB hc
      (fun _ _ _ head hc hP hf => head.ordersFit hB hc hP.1 hP.2 hf) hf
  obtain ⟨htyped, hkeep⟩ := hev
  unfold KeepsScale at hkeep
  have hcase := step_cases hB s ev
  generalize System.step S s ev = s' at hcase hkeep ⊢
  cases hcase with
  | unchanged => exact hf
  | called performed effects shape =>
    exact fits (effects.each hB hc fun e he c _ _ _ => shape.not_rescales e he c)
      (shape.typed htyped)
  | resolved paid promise effects resolution =>
    exact fits (resolution.not_rescales effects hkeep) resolution.typed

/-! ## Refunds go through -/

theorem Market.reportedPrices_eq {bestBid bestAsk : Option ℕ}
    (hbid : ∀ p, bestBid = some p → p * m.quoteToken.lotSize < 2 ^ 128)
    (hask : ∀ p, bestAsk = some p → p * m.quoteToken.lotSize < 2 ^ 128) :
    ∃ prices, m.reportedPrices bestBid bestAsk = .ok prices := by
  have native : ∀ {best : Option ℕ}, (∀ p, best = some p → p * m.quoteToken.lotSize < 2 ^ 128) →
      ∃ price, best.mapM m.quoteLotsToNative = .ok price := by
    intro best h
    cases best with
    | none => exact ⟨none, rfl⟩
    | some p =>
      have hp : m.quoteLotsToNative p = .ok (p * m.quoteToken.lotSize) :=
        Checked.fit_of_lt (h p rfl)
      exact ⟨some _, by rw [Option.mapM_some, hp]; rfl⟩
  obtain ⟨bid, hbid⟩ := native hbid
  obtain ⟨ask, hask⟩ := native hask
  exact ⟨(bid, ask), by rw [Market.reportedPrices, hbid, hask]; rfl⟩

/-- A cancelled order that `processRefund` accepts: it is of the owner, its
    amounts fit, and so do the prices that are left. -/
structure Refundable (m : Market B) (owner : AccountId) (r : CancelOrderResult) : Prop where
  owner : r.order.ownerId = owner
  fits : m.Fits r.order
  amount : getRefundAmount m r.order =
    .ok (m.restingValue r.order.side r.order, m.sideToken r.order.side)
  bid : ∀ p, r.bestBid = some p → p * m.quoteToken.lotSize < 2 ^ 128
  ask : ∀ p, r.bestAsk = some p → p * m.quoteToken.lotSize < 2 ^ 128

/-- What the cancelled orders pay back in `token`. -/
def refundTotal (m : Market B) (rs : List CancelOrderResult) (token : TokenType) : ℕ :=
  (rs.map fun r => if token = m.sideToken r.order.side
    then m.restingValue r.order.side r.order else 0).sum

variable {owner : AccountId} {a : Account}

theorem processRefund_eq (mid : MarketId) {o : CancelOrderResult} (h : Refundable m owner o)
    (hfits : a.getBalance S (m.sideToken o.order.side) + m.restingValue o.order.side o.order <
      2 ^ 128) (es : List CancelEventData) :
    ∃ es', processRefund S m mid owner (es, a) o = .ok (es', refund S m mid a o.order) := by
  obtain ⟨prices, hprices⟩ := m.reportedPrices_eq h.bid h.ask
  have hdeposit : a.deposit S (m.sideToken o.order.side) (m.restingValue o.order.side o.order) =
      .ok (a.credit (S.key (m.sideToken o.order.side)) (m.restingValue o.order.side o.order)) := by
    refine Account.deposit_eq_ok.2 ⟨fun y hy => ?_, rfl⟩
    rw [Account.getBalance, Account.balance_of_lookup hy, Nat.add_comm] at hfits
    exact hfits
  have hqty : m.baseLotsToNative o.order.openQtyLots =
      .ok (o.order.openQtyLots * m.baseToken.lotSize) := Checked.fit_of_lt h.fits.qty
  unfold processRefund
  simp only [assert, Checked.require_pos h.owner, h.amount, hdeposit, hqty, hprices,
    Checked.ok_bind]
  exact ⟨_, rfl⟩

/-- **Refunds that fit into the balances go through.** -/
theorem processRefunds_eq (hT : TokenLaws S) (mid : MarketId) :
    ∀ {rs : List CancelOrderResult} {a : Account},
    (∀ o ∈ rs, Refundable m owner o) →
    (∀ o ∈ rs, a.getBalance S (m.sideToken o.order.side) +
      refundTotal m rs (m.sideToken o.order.side) < 2 ^ 128) →
    ∀ es : List CancelEventData, ∃ es', rs.foldlM (processRefund S m mid owner) (es, a) =
      .ok (es', (rs.map CancelOrderResult.order).foldl (refund S m mid) a)
  | [], a, _, _, es => ⟨es, rfl⟩
  | o :: rs, a, h, hfits, es => by
    obtain ⟨ho, hrs⟩ := List.forall_mem_cons.1 h
    have hsum : ∀ token, refundTotal m (o :: rs) token =
        (if token = m.sideToken o.order.side then m.restingValue o.order.side o.order else 0) +
          refundTotal m rs token := fun token => List.sum_cons
    obtain ⟨es₁, h1⟩ := processRefund_eq (S := S) (a := a) mid ho (by
      have := hfits o (List.mem_cons_self ..)
      rw [hsum, if_pos rfl] at this
      omega) es
    obtain ⟨es₂, h2⟩ := processRefunds_eq hT mid (a := refund S m mid a o.order) hrs
      (fun o' ho' => by
        have := hfits o' (List.mem_cons_of_mem _ ho')
        rw [balance_refund hT]
        rw [hsum] at this
        omega) es₁
    rw [List.foldlM_cons, h1, Checked.ok_bind, h2, List.map_cons, List.foldl_cons]
    exact ⟨es₂, rfl⟩

/-! ## Cancelled orders can be refunded -/

/-- **Orders of one owner whose amounts fit can be refunded once cancelled.** -/
theorem cancelled_refundable (hB : BookLaws S) {seq : ℕ} (hm : MarketOk S seq m)
    (hf : ∀ x ∈ S.orders m.orderbook, m.Fits x) {ids : List OrderId}
    (hown : ∀ x ∈ S.orders m.orderbook, x.id ∈ ids → x.ownerId = owner)
    {rs : List CancelOrderResult} {b : B}
    (h : S.cancelEach m.orderbook ids = (rs.map CancelOrderResult.order, b))
    (hprices : ∀ r ∈ rs, S.ReportsPrices m.orderbook r) :
    (∀ o ∈ rs, Refundable m owner o) ∧
      ∀ token, refundTotal m rs token = refundCredits S m ids token := by
  have hperm := (cancelEach_spec hB hm.nodup h).2
  refine ⟨fun o ho => ?_, fun token => ?_⟩
  · have hmem := hperm.mem_iff.1 (List.mem_map_of_mem ho)
    obtain ⟨hx, hid⟩ := List.mem_filter.1 hmem
    have prices : ∀ p, o.bestBid = some p ∨ o.bestAsk = some p →
        p * m.quoteToken.lotSize < 2 ^ 128 := by
      intro p hp
      obtain ⟨y, hy, rfl⟩ := hprices o ho p hp
      exact (hf y hy).price
    exact ⟨hown _ hx (of_decide_eq_true hid), hf _ hx, (hf _ hx).getRefundAmount_eq hm,
      fun p hp => prices p (.inl hp), fun p hp => prices p (.inr hp)⟩
  · have hsum := (hperm.map fun x => if token = m.sideToken x.side
      then m.restingValue x.side x else 0).sum_eq
    rw [List.map_map] at hsum
    exact hsum

/-- What is refunded was locked. -/
theorem refundCredits_le {seq : ℕ} (hm : MarketOk S seq m) (ids : List OrderId)
    (token : TokenType) : refundCredits S m ids token ≤ m.attributed S token := by
  have hle : ∀ side, (((S.resting m.orderbook side).filter (·.id ∈ ids)).map
      (m.restingValue side)).sum ≤ m.lockedOn S side :=
    fun side => (List.filter_sublist.map _).sum_le_sum fun _ _ => Nat.zero_le _
  have hsell := hle .sell
  have hbuy := hle .buy
  have h1 : _ = amountOf (m.baseToken.tokenType, _) token :=
    CancelRun.cancelled_sum hm ids .sell token
  have h2 : _ = amountOf (m.quoteToken.tokenType, _) token :=
    CancelRun.cancelled_sum hm ids .buy token
  unfold refundCredits Market.attributed Market.locked
  rw [Sdk.orders, List.filter_append, List.map_append, List.sum_append]
  rw [amountOf] at h1 h2
  simp only [Sdk.resting] at h1 h2 hbuy hsell
  split_ifs at h1 h2 ⊢ <;> omega

/-- **A refund fits into the balance**, if what was received of the token and not
    sent out does. -/
theorem Backed.refund_fits {s : System B} (h : Backed S s) {token : TokenType}
    (hsupply : s.received token < 2 ^ 128 + s.sent token)
    (ha : s.contract.accounts.lookup owner = some a) (hm : s.contract.markets.lookup mid = some m)
    (ids : List OrderId) : a.getBalance S token + refundCredits S m ids token < 2 ^ 128 := by
  have hbalance := HMap.le_total ha fun _ a => a.getBalance S token
  have hmarket := HMap.le_total hm fun _ m => m.attributed S token
  have hrefund := refundCredits_le (h.books mid m hm) ids token
  have hcovered := h.covered token
  simp only [Contract.owed, Contract.attributed, Contract.balances] at hcovered
  omega

/-! ## Cancelling an order -/

/-- **An order whose refund fits is cancelled, up to the saving of the account.** -/
theorem internalCancelOrder_eq (hB : BookLaws S) (hT : TokenLaws S) {seq : ℕ}
    (hm : c.markets.lookup mid = some m) (hst : m.state = .active ∨ m.state = .cancelOnly)
    (ha : c.accounts.lookup x.ownerId = some a) (hok : MarketOk S seq m)
    (hf : ∀ x ∈ S.orders m.orderbook, m.Fits x) (hx : x ∈ S.orders m.orderbook) {i : OrderInfo}
    (hi : a.getOrderInfo mid x.id = some i)
    (hsum : a.getBalance S (m.sideToken x.side) +
      refundCredits S m [x.id] (m.sideToken x.side) < 2 ^ 128) :
    ∃ b, (∀ side, S.resting b side = (S.resting m.orderbook side).filter (·.id ≠ x.id)) ∧
      internalCancelOrder S c mid x.ownerId x.id =
        (c.internalSaveMarket mid { m with orderbook := b }).internalSaveAccount S x.ownerId
          (refund S m mid (a.forget mid x.id) x) := by
  obtain ⟨r, b, hcancel, hr, hrest, hprices⟩ := hB.cancel_some hok.nodup hx
  have heach : S.cancelEach m.orderbook [x.id] = ([r].map CancelOrderResult.order, b) := by
    simp [Sdk.cancelEach, hcancel]
  have hown : ∀ y ∈ S.orders m.orderbook, y.id ∈ [x.id] → y.ownerId = x.ownerId := by
    intro y hy hid
    rw [List.inj_on_of_nodup_map hok.nodup hy hx (List.mem_singleton.1 hid)]
  obtain ⟨hrefundable, htotal⟩ := cancelled_refundable hB hok hf hown heach
    (List.forall_mem_singleton.2 hprices)
  have hremove : a.removeOrderInfo mid x.id = (some x.id, a.forget mid x.id) := by
    refine Prod.ext ?_ rfl
    rw [Account.removeOrderInfo_fst, hi]
    rfl
  obtain ⟨es, hrefunds⟩ := processRefunds_eq hT mid (a := a.forget mid x.id) hrefundable
    (fun o ho => by
      rw [List.mem_singleton.1 ho, htotal, hr, Account.getBalance, Account.balance_forget]
      exact hsum) []
  have hsame : processRefund S { m with orderbook := b } mid x.ownerId =
      processRefund S m mid x.ownerId := rfl
  refine ⟨b, hrest, ?_⟩
  unfold internalCancelOrder processRefunds Market.assertCanCancel
  rw [Contract.internalUnwrapMarket_eq_ok.2 hm, Checked.ok_bind, assert, Checked.require_pos hst,
    Checked.ok_bind, Contract.internalUnwrapAccount_eq_ok.2 ha, Checked.ok_bind, hremove]
  simp only [hcancel, hsame, hrefunds, Checked.expect, Checked.ok_bind]
  rw [List.map_singleton, List.foldl_cons, List.foldl_nil, hr]

/-- There is an entry under the key `k`, or the storage balance has room for one
    in place of the record of an order. -/
def Account.RoomFor (S : Sdk B) (a : Account) (k : String) (mid : MarketId) (o : OrderId) : Prop :=
  a.balances.lookup k = none →
    (a.borshSize S + S.entryBorshSize k - a.freed S mid o) * S.storageByteCost ≤ a.storageBalance

/-- An entry no larger than the record of an order takes its place. -/
theorem Account.roomFor_of_entry_le {k : String} {o : OrderId} {i : OrderInfo}
    (hcov : a.isStorageCovered S) (hi : a.getOrderInfo mid o = some i)
    (hk : S.entryBorshSize k ≤ orderBytes) : a.RoomFor S k mid o := by
  intro _
  refine le_trans (Nat.mul_le_mul_right _ ?_) hcov
  have hfreed : orderBytes ≤ a.freed S mid o := by
    rw [freed, hi]
    exact Nat.le_add_right _ _
  omega

theorem borshSize_refund (hZ : SizeLaws S) (a : Account) (mid : MarketId) (x : OpenLimitOrder) :
    (refund S m mid (a.forget mid x.id) x).borshSize S + a.freed S mid x.id =
      a.borshSize S + a.missing S (S.key (m.sideToken x.side)) := by
  have hforget := Account.borshSize_forget (S := S) a mid x.id
  have hcredit := Account.borshSize_credit hZ (a.forget mid x.id) (S.key (m.sideToken x.side))
    (m.restingValue x.side x)
  have hagain := Account.borshSize_forget (S := S) ((a.forget mid x.id).credit
    (S.key (m.sideToken x.side)) (m.restingValue x.side x)) mid x.id
  -- the refund forgets the order once more, which is not recorded any longer
  have hnone : ((a.forget mid x.id).credit (S.key (m.sideToken x.side))
      (m.restingValue x.side x)).freed S mid x.id = 0 := by
    have hinfo : ((a.forget mid x.id).credit (S.key (m.sideToken x.side))
        (m.restingValue x.side x)).getOrderInfo mid x.id = none :=
      Account.getOrderInfo_forget.trans (if_pos ⟨rfl, rfl⟩)
    rw [Account.freed, hinfo]
  rw [Account.missing_forget] at hcredit
  unfold refund
  omega

/-- **The account that is refunded is covered just in case there is room.** -/
theorem refund_covered_iff (hZ : SizeLaws S) (hcov : a.isStorageCovered S) (mid : MarketId)
    (x : OpenLimitOrder) : (refund S m mid (a.forget mid x.id) x).isStorageCovered S ↔
      a.RoomFor S (S.key (m.sideToken x.side)) mid x.id := by
  have hsize := borshSize_refund (m := m) hZ a mid x
  unfold Account.isStorageCovered Account.storageBalanceLocked at hcov ⊢
  rw [storageBalance_refund, Account.storageBalance_forget]
  unfold Account.RoomFor Account.missing at *
  rcases hentry : a.balances.lookup (S.key (m.sideToken x.side)) with _ | n
  · have heq : (refund S m mid (a.forget mid x.id) x).borshSize S =
        a.borshSize S + S.entryBorshSize (S.key (m.sideToken x.side)) - a.freed S mid x.id := by
      rw [hentry] at hsize
      simp only [Option.isSome_none, Bool.false_eq_true, if_false] at hsize
      omega
    rw [heq]
    exact ⟨fun h _ => h, fun h => h rfl⟩
  · refine ⟨nofun, fun _ => le_trans (Nat.mul_le_mul_right _ ?_) hcov⟩
    rw [hentry] at hsize
    simp only [Option.isSome_some, if_true] at hsize
    omega

/-- `c'` is `c` with the order `x` of the market `m` cancelled and refunded, and
    nothing else changed. -/
structure Recovered (S : Sdk B) (c : Contract B) (mid : MarketId) (m : Market B)
    (x : OpenLimitOrder) (c' : Contract B) : Prop where
  market : ∃ b, c'.markets.lookup mid = some { m with orderbook := b } ∧
    ∀ side, S.resting b side = (S.resting m.orderbook side).filter (·.id ≠ x.id)
  markets : ∀ mid', mid' ≠ mid → c'.markets.lookup mid' = c.markets.lookup mid'
  accounts : ∀ id, id ≠ x.ownerId → c'.accounts.lookup id = c.accounts.lookup id
  credited : ∃ n t, getRefundAmount m x = .ok (n, t) ∧ ∀ token,
    (c'.accountOf x.ownerId).getBalance S token =
      (c.accountOf x.ownerId).getBalance S token + if token = t then n else 0
  forgotten : ∀ mid' o, (c'.accountOf x.ownerId).getOrderInfo mid' o =
    if mid' = mid ∧ o = x.id then none else (c.accountOf x.ownerId).getOrderInfo mid' o
  storage : (c'.accountOf x.ownerId).storageBalance = (c.accountOf x.ownerId).storageBalance

theorem recovered_of_saved (hT : TokenLaws S) {seq : ℕ} (hok : MarketOk S seq m)
    (hfits : m.Fits x) (ha : c.accounts.lookup x.ownerId = some a) {b : B}
    (hrest : ∀ side, S.resting b side = (S.resting m.orderbook side).filter (·.id ≠ x.id)) :
    Recovered S c mid m x ((c.internalSaveMarket mid { m with orderbook := b }).putAccount
      x.ownerId (refund S m mid (a.forget mid x.id) x)) := by
  have hself : ((c.internalSaveMarket mid { m with orderbook := b }).putAccount x.ownerId
      (refund S m mid (a.forget mid x.id) x)).accountOf x.ownerId =
        refund S m mid (a.forget mid x.id) x := by
    rw [accountOf_putAccount, if_pos rfl]
  refine ⟨⟨b, AList.lookup_insert _, hrest⟩, fun mid' hne => AList.lookup_insert_ne hne,
    fun id hne => AList.lookup_insert_ne hne,
    ⟨_, _, hfits.getRefundAmount_eq hok, fun token => ?_⟩, fun mid' o => ?_, ?_⟩
  · rw [hself, balance_refund hT, accountOf_of_lookup ha, Account.getBalance, Account.getBalance,
      Account.balance_forget]
  · rw [hself, getOrderInfo_refund, Account.getOrderInfo_forget, accountOf_of_lookup ha]
    split_ifs <;> rfl
  · rw [hself, storageBalance_refund, Account.storageBalance_forget, accountOf_of_lookup ha]

/-! ## Recovery -/

/-- Without deletions of markets their scale is kept. -/
theorem keepsRefunds_of_noDelete (hB : BookLaws S) (hT : TokenLaws S) {s : System B} {ev : Event}
    (hs : System.Reach S (fun s ev => NoDelete s ev ∧ ev.Typed) s)
    (hev : NoDelete s ev ∧ ev.Typed) : KeepsRefunds S s ev := by
  have hsolvent := solvent_of_reach hB hT (Runs.Reach.imp (fun _ _ _ h => h.1) hs)
  exact ⟨hev.2, hsolvent.awaits.keepsScale hB hev.1 hsolvent.books hsolvent.priced⟩

/-- **Locked funds are recoverable just in case there is room for them.**  In every
    run whose limit prices are amounts of 128 bits and that gives no market with
    resting orders other base decimals, as every run without deletions of markets,
    and for every order that rests in a market that can cancel: the account of its
    owner is stored, and `cancel_order` succeeds, takes off exactly this order and
    credits exactly `get_refund_amount`, if and only if the owner has an entry for
    the refunded token or the storage balance covers the account with the entry
    added and the record of the order dropped.  An entry no larger than that record,
    as those of tokens that accounts can deposit are, always has room.  Of the token
    no more than 128 bits were received and not sent out. -/
theorem cancel_order_iff (hB : BookLaws S) (hT : TokenLaws S) (hZ : SizeLaws S) (hK : KeysLaw S)
    (env : Env) {s : System B} (hs : System.Reach S (KeepsRefunds S) s)
    (hstate : s.contract.state = .active ∨ s.contract.state = .cancelOnly)
    (hm : s.contract.markets.lookup mid = some m)
    (hst : m.state = .active ∨ m.state = .cancelOnly) (hx : x ∈ S.orders m.orderbook)
    (howner : env.predecessorAccountId = x.ownerId)
    (hsupply : s.received (m.sideToken x.side) < 2 ^ 128 + s.sent (m.sideToken x.side)) :
    ∃ a, s.contract.accounts.lookup x.ownerId = some a ∧
      ((∃ c', cancelOrder S env s.contract mid x.id = .ok c' ∧
          Recovered S s.contract mid m x c') ↔
        a.RoomFor S (S.key (m.sideToken x.side)) mid x.id) ∧
      (S.entryBorshSize (S.key (m.sideToken x.side)) ≤ Account.orderBytes →
        a.RoomFor S (S.key (m.sideToken x.side)) mid x.id) := by
  have hbacked := backed_of_reach hB hT (fun _ _ h => h.2) hs
  have hok := hbacked.books mid m hm
  have hfits := fun y hy => ordersFit_of_reach hB hs mid m y hm hy
  obtain ⟨i, hi⟩ := allRecorded_of_reach hB hK hs mid m x hm hx
  obtain ⟨a, ha⟩ : ∃ a, s.contract.accounts.lookup x.ownerId = some a := by
    rcases ha : s.contract.accounts.lookup x.ownerId with _ | a
    · rw [Contract.accountOf, ha] at hi
      cases hi
    · exact ⟨a, rfl⟩
  rw [accountOf_of_lookup ha] at hi
  obtain ⟨b, hrest, heq⟩ := internalCancelOrder_eq hB hT hm hst ha hok hfits hx hi
    (hbacked.refund_fits hsupply ha hm [x.id])
  have hcancel : cancelOrder S env s.contract mid x.id =
      (s.contract.internalSaveMarket mid { m with orderbook := b }).internalSaveAccount S x.ownerId
        (refund S m mid (a.forget mid x.id) x) := by
    rw [cancelOrder, Contract.assertCanCancel, assert, Checked.require_pos hstate, Checked.ok_bind,
      howner, heq]
  have hcov := covered_of_reach hB hs _ a ha
  refine ⟨a, ha, ?_, Account.roomFor_of_entry_le hcov hi⟩
  rw [← refund_covered_iff hZ hcov mid x, hcancel]
  constructor
  · rintro ⟨c', hc', -⟩
    exact (Contract.internalSaveAccount_eq_ok.1 hc').1
  · intro hcovered
    exact ⟨_, Contract.internalSaveAccount_eq_ok.2 ⟨hcovered, rfl⟩,
      recovered_of_saved hT hok (hfits x hx) ha hrest⟩

theorem reach_keepsRefunds {es : List Event}
    (h : ∀ e ∈ es, (∀ env mid, e ≠ .call env (.adminDeleteMarket mid)) ∧ e.Typed) :
    System.Reach Engine.sdk (KeepsRefunds Engine.sdk) (Engine.run es) :=
  Runs.Reach.imp (fun _ _ hs => keepsRefunds_of_noDelete Engine.bookLaws Engine.tokenLaws hs)
    (Engine.reach_run fun e he _ => h e he)

/-- Alice takes her order off. -/
theorem cancel_order_asked : ∃ c', cancelOrder Engine.sdk (Engine.calling Engine.alice 0)
    (Engine.run Engine.asked).contract Engine.btcUsd 1 = .ok c' := by
  have hreach : System.Reach Engine.sdk (KeepsRefunds Engine.sdk) (Engine.run Engine.asked) :=
    reach_keepsRefunds fun e he => ⟨(Engine.mem_asked he).1, by
      revert e
      decide⟩
  obtain ⟨m, hm, hbase, -⟩ := Engine.market_asked
  have hrests : ((Engine.run Engine.asked).contract.markets.lookup Engine.btcUsd).map (fun m =>
      (m.state, Engine.sdk.orders m.orderbook)) =
        some (.active, [⟨1, Engine.alice, .sell, 2, 1000, none⟩]) := by decide +kernel
  rw [hm, Option.map_some, Option.some_inj, Prod.mk.injEq] at hrests
  obtain ⟨hstate, horders⟩ := hrests
  have htoken : m.sideToken .sell = .fungibleToken Engine.btc := by
    rw [Market.sideToken, hbase]
  obtain ⟨a, ha, hiff, hroom⟩ := cancel_order_iff Engine.bookLaws Engine.tokenLaws Engine.sizeLaws
    Engine.keysLaw (Engine.calling Engine.alice 0) hreach (.inl (by decide +kernel)) hm
    (.inl hstate) (horders ▸ List.mem_singleton_self _) rfl (by
      rw [htoken]
      decide +kernel)
  obtain ⟨c', hc', -⟩ := hiff.2 (hroom (by
    rw [htoken]
    decide +kernel))
  exact ⟨c', hc'⟩

/-- The market of `btc` and a token with a long id, in lots of 1 and 1. -/
def btcEdition : MarketId := genMarketId Engine.sdk (.fungibleToken Engine.btc) 1
  (.multiFungibleToken Engine.game Engine.edition) 1

/-- Bob asks, which makes him an entry of nothing for that token, and then bids so
    little that the entry goes and nothing is locked.  He withdraws all storage he can. -/
def bidsNothing : List Event := [Engine.register Engine.dao, Engine.register Engine.bob,
  .call (Engine.calling Engine.dao (10 ^ 22))
    (.createMarket ⟨"ft:btc.near", "mft:game.near:" ++ Engine.edition, 1, 1, 0, 0⟩),
  .resolve 0 (.ftMetadata (some 1)), .resolve 0 (.mtMetadata (some [some "0"])),
  Engine.pay Engine.btc Engine.bob 1,
  .call (Engine.calling Engine.bob 0)
    (.newOrder btcEdition (Engine.order .sell .limit 5 1 none)),
  .call (Engine.calling Engine.bob 0)
    (.newOrder btcEdition ⟨some 1, some 1, 5, .buy, .limit, none, none⟩),
  .call (Engine.calling Engine.bob 1) (.storageWithdraw none)]

/-- The entry he needs to take the bid back is larger than the record of the order. -/
theorem cancel_order_stuck :
    System.Reach Engine.sdk (KeepsRefunds Engine.sdk) (Engine.run bidsNothing) ∧
    (Engine.run bidsNothing).contract.state = .active ∧
    ((Engine.run bidsNothing).contract.markets.lookup btcEdition).map (fun m =>
      (m.state, Engine.sdk.orders m.orderbook)) = some (.active,
        [⟨1, Engine.bob, .sell, 5, 1, none⟩, ⟨2, Engine.bob, .buy, 1, 5, none⟩]) ∧
    ((Engine.run bidsNothing).received (.multiFungibleToken Engine.game Engine.edition),
      (Engine.run bidsNothing).sent (.multiFungibleToken Engine.game Engine.edition)) = (0, 0) ∧
    cancelOrder Engine.sdk (Engine.calling Engine.bob 0) (Engine.run bidsNothing).contract
      btcEdition 2 = .error (.error .insufficientStorageBalance) := by
  -- the run is evaluated once for all four
  have hrun : ((Engine.run bidsNothing).contract.state = .active ∧
      ((Engine.run bidsNothing).contract.markets.lookup btcEdition).map (fun m =>
        (m.state, Engine.sdk.orders m.orderbook)) = some (.active,
          [⟨1, Engine.bob, .sell, 5, 1, none⟩, ⟨2, Engine.bob, .buy, 1, 5, none⟩])) ∧
      ((Engine.run bidsNothing).received (.multiFungibleToken Engine.game Engine.edition),
        (Engine.run bidsNothing).sent (.multiFungibleToken Engine.game Engine.edition)) =
        (0, 0) ∧
      Engine.stoppedBy (cancelOrder Engine.sdk (Engine.calling Engine.bob 0)
        (Engine.run bidsNothing).contract btcEdition 2) =
        some (.error .insufficientStorageBalance) := by decide +kernel
  obtain ⟨⟨hstate, hmarket⟩, hmoved, hstopped⟩ := hrun
  refine ⟨reach_keepsRefunds fun e he => ⟨?_, by revert e; decide⟩, hstate, hmarket, hmoved,
    Engine.eq_error_of_stoppedBy hstopped⟩
  rintro env mid rfl
  simp [bidsNothing, Engine.register, Engine.pay] at he

end TonicDex
