/-
  The order books in every reachable state.

  `MarketOk` says that a market's book lists every order once and on its side,
  that no order is from the future, and that the terms of the market are those
  it was created with.  Every effect keeps it (`Does.booksOk`), whatever the
  owner of the contract does.
-/
import TonicDex.Spec.Calls

namespace TonicDex

variable {B : Type} {S : Sdk B}

/-! ## What a trade does to a book -/

/-- `o'` is `o` after some fills. -/
def Shrunk (o o' : OpenLimitOrder) : Prop :=
  o' = { o with openQtyLots := o'.openQtyLots } ∧ o'.openQtyLots ≤ o.openQtyLots

theorem Shrunk.refl (o : OpenLimitOrder) : Shrunk o o := ⟨rfl, le_rfl⟩

theorem Shrunk.trans {o₁ o₂ o₃ : OpenLimitOrder} (h : Shrunk o₁ o₂) (h' : Shrunk o₂ o₃) :
    Shrunk o₁ o₃ := by
  refine ⟨?_, h'.2.trans h.2⟩
  rw [h'.1, h.1]

theorem Shrunk.of_reduce {o o' : OpenLimitOrder} {f : Match} (h : fillRule.reduce o f = some o') :
    Shrunk o o' := by
  simp only [fillRule] at h
  split_ifs at h
  cases h
  exact ⟨rfl, Nat.sub_le _ _⟩

namespace Placed

variable {b b' : B} {taker : AccountId} {n : NewOrder} {r : PlaceOrderResult}

/-- The order a trade posts. -/
def postedOrder (taker : AccountId) (n : NewOrder) (r : PlaceOrderResult) (p : ℕ) :
    OpenLimitOrder :=
  ⟨r.id, taker, n.side, p, r.openQtyLots, n.clientId⟩

/-- An order that rests after a trade rested before, or was posted. -/
theorem origin (h : Placed S b taker n r b') {side : Side} {o' : OpenLimitOrder}
    (ho' : o' ∈ S.resting b' side) : (∃ o ∈ S.resting b side, Shrunk o o') ∨
      (side = n.side ∧ r.isPosted = true ∧
        ∃ p, n.limitPriceLots = some p ∧ o' = postedOrder taker n r p) := by
  by_cases hs : side = n.side
  · subst hs
    cases hp : r.isPosted with
    | true =>
      obtain ⟨-, p, hl, hperm⟩ := h.posted hp
      rcases List.mem_cons.1 (hperm.mem_iff.1 ho') with rfl | ho
      · exact .inr ⟨rfl, rfl, p, hl, rfl⟩
      · exact .inl ⟨o', ho, .refl o'⟩
    | false =>
      rw [(h.not_posted hp).2] at ho'
      exact .inl ⟨o', ho', .refl o'⟩
  · have hs' : side = n.side.opposite := by
      revert hs; cases side <;> cases n.side <;> decide
    subst hs'
    obtain ⟨o, ho, -, hr⟩ := h.filled.origin Shrunk.refl (fun _ _ _ => Shrunk.trans)
      (fun _ _ _ => Shrunk.of_reduce) o' ho'
    exact .inl ⟨o, ho, hr⟩

/-- A market order leaves nothing open. -/
theorem openQty_of_market (h : Placed S b taker n r b') (ht : n.orderType = .market) :
    r.openQtyLots = 0 := by
  cases hp : r.isPosted with
  | true => exact absurd ht (h.posted hp).1
  | false => exact (h.not_posted hp).1

/-- A posted order is new to the book. -/
theorem id_new (h : Placed S b taker n r b')
    (hold : ∀ id ∈ S.ids b, S.seqOf id < n.sequenceNumber) :
    r.id ∉ S.ids b := fun hid => by
  have := hold _ hid
  rw [h.seq] at this
  omega

theorem own_ids (h : Placed S b taker n r b') :
    ((S.resting b' n.side).map OpenLimitOrder.id).Perm
      ((if r.isPosted then [r.id] else []) ++ (S.resting b n.side).map OpenLimitOrder.id) := by
  cases hp : r.isPosted with
  | true =>
    obtain ⟨-, p, -, hperm⟩ := h.posted hp
    exact hperm.map _
  | false => rw [(h.not_posted hp).2]; exact List.Perm.refl _

theorem opposite_ids (h : Placed S b taker n r b') :
    ((S.resting b' n.side.opposite).map OpenLimitOrder.id).Sublist
      ((S.resting b n.side.opposite).map OpenLimitOrder.id) :=
  h.filled.keys_sublist

theorem mem_ids_of (h : Placed S b taker n r b') {id : OrderId} (hid : id ∈ S.ids b') :
    id ∈ S.ids b ∨ (r.isPosted = true ∧ id = r.id) := by
  rw [(S.ids_perm b' n.side).mem_iff, List.mem_append] at hid
  rw [(S.ids_perm b n.side).mem_iff, List.mem_append]
  rcases hid with hid | hid
  · rw [h.own_ids.mem_iff, List.mem_append] at hid
    rcases hid with hid | hid
    · split_ifs at hid with hp
      · exact .inr ⟨hp, List.mem_singleton.1 hid⟩
      · cases hid
    · exact .inl (.inl hid)
  · exact .inl (.inr (h.opposite_ids.subset hid))

theorem ids_nodup (h : Placed S b taker n r b') (hn : (S.ids b).Nodup)
    (hold : ∀ id ∈ S.ids b, S.seqOf id < n.sequenceNumber) : (S.ids b').Nodup := by
  have hnew := h.id_new hold
  rw [(S.ids_perm b n.side).mem_iff, List.mem_append, not_or] at hnew
  rw [(S.ids_perm b n.side).nodup_iff, List.nodup_append] at hn
  obtain ⟨hown, hopp, hdisj⟩ := hn
  rw [(S.ids_perm b' n.side).nodup_iff, List.nodup_append]
  refine ⟨?_, hopp.sublist h.opposite_ids, fun x hx y hy => ?_⟩
  · rw [h.own_ids.nodup_iff]
    split_ifs
    · exact List.nodup_cons.2 ⟨hnew.1, hown⟩
    · exact hown
  · rw [h.own_ids.mem_iff, List.mem_append] at hx
    have hy' := h.opposite_ids.subset hy
    rcases hx with hx | hx
    · split_ifs at hx
      · rintro rfl
        rw [List.mem_singleton.1 hx] at hy'
        exact hnew.2 hy'
      · cases hx
    · exact hdisj x hx y hy'

end Placed

/-! ## What cancelling does to a book -/

/-- **Cancelling some orders one after the other removes exactly them.** -/
theorem cancelEach_spec (hB : BookLaws S) : ∀ {ids : List OrderId} {b b' : B}
    {os : List OpenLimitOrder}, (S.ids b).Nodup → S.cancelEach b ids = (os, b') →
    (∀ side, S.resting b' side = (S.resting b side).filter (·.id ∉ ids)) ∧
      os.Perm ((S.orders b).filter (·.id ∈ ids))
  | [], b, b', os, hn, h => by
    simp only [Sdk.cancelEach, Prod.mk.injEq] at h
    obtain ⟨rfl, rfl⟩ := h
    simp
  | id :: ids, b, b', os, hn, h => by
    have hno : (S.orders b).Nodup := List.Nodup.of_map _ hn
    by_cases hid : id ∈ S.ids b
    · obtain ⟨o, ho, rfl⟩ := Sdk.mem_ids.1 hid
      obtain ⟨r, b₁, hc, hr, hrest, -⟩ := hB.cancel_some hn ho
      rcases hx : S.cancelEach b₁ ids with ⟨os', b₂⟩
      simp only [Sdk.cancelEach, hc, hx, Prod.mk.injEq] at h
      obtain ⟨rfl, rfl⟩ := h
      have horders : S.orders b₁ = (S.orders b).filter (·.id ≠ o.id) := by
        rw [Sdk.orders, Sdk.orders, List.filter_append]
        exact congrArg₂ _ (hrest .sell) (hrest .buy)
      have hn₁ : (S.ids b₁).Nodup := by
        rw [Sdk.ids, horders]
        exact hn.sublist (List.filter_sublist.map _)
      obtain ⟨h1, h2⟩ := cancelEach_spec hB hn₁ hx
      refine ⟨fun side => ?_, ?_⟩
      · rw [h1, hrest, List.filter_filter]
        refine List.filter_congr fun x _ => ?_
        simp [Bool.and_comm]
      · simp only [Option.toList_some, List.map_singleton, List.singleton_append, hr]
        rw [horders] at h2
        refine (h2.cons o).trans ?_
        refine (List.perm_ext_iff_of_nodup ?_ (hno.filter _)).2 fun x => ?_
        · exact List.nodup_cons.2 ⟨by simp, (hno.filter _).filter _⟩
        · simp only [List.mem_cons, List.mem_filter, decide_eq_true_eq]
          constructor
          · rintro (rfl | ⟨⟨hx, -⟩, hi⟩)
            · exact ⟨ho, .inl rfl⟩
            · exact ⟨hx, .inr hi⟩
          · rintro ⟨hx, hi⟩
            by_cases hxo : x.id = o.id
            · exact .inl (List.inj_on_of_nodup_map hn hx ho hxo)
            · exact .inr ⟨⟨hx, hxo⟩, hi.resolve_left hxo⟩
    · rcases hx : S.cancelEach b ids with ⟨os', b₂⟩
      simp only [Sdk.cancelEach, hB.cancel_none hid, hx, Prod.mk.injEq] at h
      obtain ⟨rfl, rfl⟩ := h
      obtain ⟨h1, h2⟩ := cancelEach_spec hB hn hx
      have hne : ∀ o ∈ S.orders b, o.id ≠ id := fun o ho he => hid (Sdk.mem_ids.2 ⟨o, ho, he⟩)
      refine ⟨fun side => ?_, ?_⟩
      · rw [h1]
        refine List.filter_congr fun x hx => ?_
        simp [hne x (Sdk.mem_orders.2 ⟨side, hx⟩)]
      · refine h2.trans (List.Perm.of_eq (List.filter_congr fun x hx => ?_))
        simp [hne x hx]

/-! ## Markets -/

/-- What holds of a market in every reachable state, `seq` being the last
    sequence number used. -/
structure MarketOk (S : Sdk B) (seq : ℕ) (m : Market B) : Prop where
  nodup : (S.ids m.orderbook).Nodup
  side : ∀ side, ∀ o ∈ S.resting m.orderbook side, o.side = side
  old : ∀ id ∈ S.ids m.orderbook, S.seqOf id ≤ seq
  rates : m.makerRebateBaseRate < m.takerFeeBaseRate ∨
    (m.makerRebateBaseRate = 0 ∧ m.takerFeeBaseRate = 0)
  takerRate : m.takerFeeBaseRate < 256
  baseLot : m.baseToken.lotSize ≠ 0
  quoteLot : m.quoteToken.lotSize ≠ 0
  maxOrders : m.maxOrdersPerAccount = defaultMaxOrders

/-- The terms of a market that stay the same as long as it exists. -/
structure SameTerms (m m' : Market B) : Prop where
  base : m'.baseToken.tokenType = m.baseToken.tokenType
  quote : m'.quoteToken.tokenType = m.quoteToken.tokenType
  baseLot : m'.baseToken.lotSize = m.baseToken.lotSize
  quoteLot : m'.quoteToken.lotSize = m.quoteToken.lotSize
  maker : m'.makerRebateBaseRate = m.makerRebateBaseRate
  taker : m'.takerFeeBaseRate = m.takerFeeBaseRate
  maxOrders : m'.maxOrdersPerAccount = m.maxOrdersPerAccount

namespace SameTerms

variable {m m' m'' : Market B}

theorem refl (m : Market B) : SameTerms m m := ⟨rfl, rfl, rfl, rfl, rfl, rfl, rfl⟩

theorem trans (h : SameTerms m m') (h' : SameTerms m' m'') : SameTerms m m'' where
  base := h'.base.trans h.base
  quote := h'.quote.trans h.quote
  baseLot := h'.baseLot.trans h.baseLot
  quoteLot := h'.quoteLot.trans h.quoteLot
  maker := h'.maker.trans h.maker
  taker := h'.taker.trans h.taker
  maxOrders := h'.maxOrders.trans h.maxOrders

end SameTerms

namespace MarketOk

variable {seq seq' : ℕ} {m m' : Market B}

/-- The market with another book. -/
theorem withBook (h : MarketOk S seq m) (ht : SameTerms m m')
    (hn : (S.ids m'.orderbook).Nodup)
    (hside : ∀ side, ∀ o ∈ S.resting m'.orderbook side, o.side = side)
    (hold : ∀ id ∈ S.ids m'.orderbook, S.seqOf id ≤ seq') : MarketOk S seq' m' where
  nodup := hn
  side := hside
  old := hold
  rates := by rw [ht.maker, ht.taker]; exact h.rates
  takerRate := by rw [ht.taker]; exact h.takerRate
  baseLot := by rw [ht.baseLot]; exact h.baseLot
  quoteLot := by rw [ht.quoteLot]; exact h.quoteLot
  maxOrders := by rw [ht.maxOrders]; exact h.maxOrders

/-- A market keeps what holds of it when its terms and its book are kept. -/
theorem of_sameTerms (h : MarketOk S seq m) (ht : SameTerms m m') (hle : seq ≤ seq')
    (hbook : m'.orderbook = m.orderbook) : MarketOk S seq' m' := by
  refine h.withBook ht ?_ ?_ ?_
  · exact hbook ▸ h.nodup
  · exact hbook ▸ h.side
  · exact hbook ▸ fun id hid => (h.old id hid).trans hle

theorem mono (h : MarketOk S seq m) (hle : seq ≤ seq') : MarketOk S seq' m :=
  h.of_sameTerms ⟨rfl, rfl, rfl, rfl, rfl, rfl, rfl⟩ hle rfl

theorem of_fresh (hB : BookLaws S) (h : m.Fresh S) : MarketOk S seq m := by
  have hrest : ∀ side, S.resting m.orderbook side = [] := by rw [h.book]; exact hB.empty
  have horders : S.orders m.orderbook = [] := by
    rw [Sdk.orders]
    exact List.append_eq_nil_iff.2 ⟨hrest .sell, hrest .buy⟩
  have hids : S.ids m.orderbook = [] := by rw [Sdk.ids, horders]; rfl
  refine ⟨?_, fun side o ho => ?_, fun id hid => ?_, h.rates, h.takerRate, h.baseLot,
    h.quoteLot, h.maxOrders⟩
  · rw [hids]; exact List.nodup_nil
  · rw [hrest] at ho; cases ho
  · rw [hids] at hid; cases hid

end MarketOk

/-! ## Trades in a well-formed market -/

namespace Traded

variable {c c' : Contract B} {mid : MarketId} {m m' : Market B} {taker : AccountId}
  {n : NewOrder} {referrerId : Option AccountId} {r : PlaceOrderResult} {s : Settled}

theorem contract_eq (h : Traded S c mid m taker n referrerId r m' s c') :
    c' = { c with
      accounts := c'.accounts, prevOrderSequenceNumber := c.prevOrderSequenceNumber + 1 } :=
  h.settled.frame

theorem markets_eq (h : Traded S c mid m taker n referrerId r m' s c') :
    c'.markets = c.markets := by rw [h.contract_eq]

theorem seq_eq (h : Traded S c mid m taker n referrerId r m' s c') :
    c'.prevOrderSequenceNumber = c.prevOrderSequenceNumber + 1 := by rw [h.contract_eq]

theorem sameTerms (h : Traded S c mid m taker n referrerId r m' s c') : SameTerms m m' := by
  rw [h.market]; exact ⟨rfl, rfl, rfl, rfl, rfl, rfl, rfl⟩

theorem new (h : Traded S c mid m taker n referrerId r m' s c')
    (hm : MarketOk S c.prevOrderSequenceNumber m) :
    ∀ id ∈ S.ids m.orderbook, S.seqOf id < n.sequenceNumber := fun id hid => by
  have := hm.old id hid
  rw [h.seq]; omega

theorem placement (hB : BookLaws S) (h : Traded S c mid m taker n referrerId r m' s c')
    (hm : MarketOk S c.prevOrderSequenceNumber m) :
    Placed S m.orderbook taker n r m'.orderbook :=
  hB.place hm.nodup (h.new hm) h.placed

theorem marketOk (hB : BookLaws S) (h : Traded S c mid m taker n referrerId r m' s c')
    (hm : MarketOk S c.prevOrderSequenceNumber m) :
    MarketOk S (c.prevOrderSequenceNumber + 1) m' := by
  have hp := h.placement hB hm
  refine hm.withBook h.sameTerms (hp.ids_nodup hm.nodup (h.new hm))
    (fun side o ho => ?_) fun id hid => ?_
  · obtain ⟨o₀, ho₀, hsh⟩ | ⟨rfl, -, p, -, rfl⟩ := hp.origin ho
    · rw [hsh.1]; exact hm.side side o₀ ho₀
    · rfl
  · obtain hid | ⟨-, rfl⟩ := hp.mem_ids_of hid
    · exact (hm.old id hid).trans (Nat.le_succ _)
    · rw [hp.seq, h.seq]

/-- Every fill is one of a resting order, whose owner is not the taker. -/
theorem fill_target (hB : BookLaws S) (h : Traded S c mid m taker n referrerId r m' s c')
    (hm : MarketOk S c.prevOrderSequenceNumber m) {f : Match} (hf : f ∈ r.fills) :
    ∃ o ∈ S.resting m.orderbook n.side.opposite, o.id = f.makerOrderId ∧
      ∃ o', Shrunk o o' ∧ Fillable taker n o' f :=
  (h.placement hB hm).filled.target Shrunk Shrunk.refl (fun _ _ _ => Shrunk.trans)
    (fun _ _ _ => Shrunk.of_reduce) f hf

theorem maker_ne (hB : BookLaws S) (h : Traded S c mid m taker n referrerId r m' s c')
    (hm : MarketOk S c.prevOrderSequenceNumber m) {f : Match} (hf : f ∈ r.fills) :
    f.makerUserId ≠ taker := by
  obtain ⟨_, -, -, o', -, hfit⟩ := h.fill_target hB hm hf
  rw [hfit.maker]
  exact hfit.other

/-- No fill settles the taker as a maker. -/
theorem makers_lookup (hB : BookLaws S) (h : Traded S c mid m taker n referrerId r m' s c')
    (hm : MarketOk S c.prevOrderSequenceNumber m) :
    h.settled.makers.accounts.lookup taker = c.accounts.lookup taker := by
  rw [h.settled.settled.lookup]
  cases c.accounts.lookup taker with
  | none => rfl
  | some a => rw [Option.map_some, fillsOf_of_ne fun f hf => h.maker_ne hB hm hf]

/-- While a trade is settled, the stored account of the taker changes only if
    the taker is also the referrer and is paid as such. -/
theorem taker_lookup (hB : BookLaws S) (h : Traded S c mid m taker n referrerId r m' s c')
    (hm : MarketOk S c.prevOrderSequenceNumber m) {a : Account}
    (ha : c.accounts.lookup taker = some a) :
    c'.accounts.lookup taker = some a ∨ (referrerId = some taker ∧
      (a.credit (S.key m.quoteToken.tokenType) s.referrerRebate).isStorageCovered S ∧
      s.net = 0 ∧ c'.accounts.lookup taker =
        some (a.credit (S.key m.quoteToken.tokenType) s.referrerRebate)) := by
  have hmk := (h.makers_lookup hB hm).trans ha
  obtain ⟨he, -⟩ | ⟨href, hr, b, hb, hcov, he⟩ := h.settled.referrer.lookup taker
  · exact .inl (he.trans hmk)
  · rw [hmk] at hb
    cases hb
    rw [← hr] at hcov he
    refine .inr ⟨href, hcov, ?_, he⟩
    have := h.settled.fee_eq
    omega

end Traded

/-! ## Cancellations in a well-formed market -/

namespace CancelRun

variable {c c' : Contract B} {mid : MarketId} {owner : AccountId} {ids : List OrderId}

theorem resting (hB : BookLaws S) (h : CancelRun S c mid owner ids c') {seq : ℕ}
    (hm : MarketOk S seq h.m) (side : Side) :
    S.resting h.book side = (S.resting h.m.orderbook side).filter (·.id ∉ ids) :=
  (cancelEach_spec hB hm.nodup h.cancelled).1 side

theorem cancelled_perm (hB : BookLaws S) (h : CancelRun S c mid owner ids c') {seq : ℕ}
    (hm : MarketOk S seq h.m) : (h.results.map CancelOrderResult.order).Perm
      ((S.orders h.m.orderbook).filter (·.id ∈ ids)) :=
  (cancelEach_spec hB hm.nodup h.cancelled).2

theorem orders (hB : BookLaws S) (h : CancelRun S c mid owner ids c') {seq : ℕ}
    (hm : MarketOk S seq h.m) :
    S.orders h.book = (S.orders h.m.orderbook).filter (·.id ∉ ids) := by
  rw [Sdk.orders, Sdk.orders, List.filter_append]
  exact congrArg₂ _ (h.resting hB hm .sell) (h.resting hB hm .buy)

/-- The market with the orders gone. -/
def market (h : CancelRun S c mid owner ids c') : Market B := { h.m with orderbook := h.book }

theorem marketOk (hB : BookLaws S) (h : CancelRun S c mid owner ids c') {seq : ℕ}
    (hm : MarketOk S seq h.m) : MarketOk S seq h.market := by
  have hids : (S.ids h.book).Sublist (S.ids h.m.orderbook) := by
    rw [Sdk.ids, h.orders hB hm]; exact List.filter_sublist.map _
  refine hm.withBook ⟨rfl, rfl, rfl, rfl, rfl, rfl, rfl⟩ (hm.nodup.sublist hids)
    (fun side o ho => ?_) fun id hid => hm.old id (hids.subset hid)
  rw [market, h.resting hB hm] at ho
  exact hm.side side o (List.mem_filter.1 ho).1

end CancelRun

/-! ## What orders and hops do to the markets -/

namespace OrderRun

variable {env : Env} {c c' : Contract B} {mid : MarketId} {p : NewOrderParams}
  {r : PlaceOrderResult}

theorem markets_eq (h : OrderRun S env c mid p r c') :
    c'.markets = c.markets.insert mid h.done.market := by
  rw [congrArg Contract.markets h.state, ← h.path.traded.markets_eq]; rfl

theorem seq_eq (h : OrderRun S env c mid p r c') :
    c'.prevOrderSequenceNumber = c.prevOrderSequenceNumber + 1 :=
  (congrArg Contract.prevOrderSequenceNumber h.state).trans h.path.traded.seq_eq

end OrderRun

namespace HopRun

variable {env : Env} {c c' : Contract B} {swap : SwapAction} {token : TokenType} {amount : ℕ}
  {out : SwapResult}

theorem markets_eq (h : HopRun S env c swap token amount out c') :
    c'.markets = c.markets.insert swap.marketId h.m' := by
  rw [congrArg Contract.markets h.state, ← h.traded.markets_eq]; rfl

theorem seq_eq (h : HopRun S env c swap token amount out c') :
    c'.prevOrderSequenceNumber = c.prevOrderSequenceNumber + 1 :=
  (congrArg Contract.prevOrderSequenceNumber h.state).trans h.traded.seq_eq

end HopRun

/-! ## All markets -/

/-- Every market is as `MarketOk` says. -/
def BooksOk (S : Sdk B) (c : Contract B) : Prop :=
  ∀ mid m, c.markets.lookup mid = some m → MarketOk S c.prevOrderSequenceNumber m

theorem BooksOk.save {c c' : Contract B} {mid : MarketId} {m' : Market B}
    (h : BooksOk S c) (hle : c.prevOrderSequenceNumber ≤ c'.prevOrderSequenceNumber)
    (hc : c'.markets = c.markets.insert mid m')
    (hm : MarketOk S c'.prevOrderSequenceNumber m') : BooksOk S c' := by
  unfold BooksOk
  rw [hc]
  exact HMap.forall_insert (fun mid₁ m₁ h₁ => (h mid₁ m₁ h₁).mono hle) hm

/-- **Every effect keeps the books well formed.** -/
theorem Does.booksOk (hB : BookLaws S) {c c' : Contract B} {e : Effect B} (h : Does S c e c')
    (hc : BooksOk S c) : BooksOk S c' := by
  cases h with
  | credit | debit | storage | unregister | admin => exact hc
  | order run =>
    have hm := run.path.traded.marketOk hB (hc _ _ run.found)
    exact hc.save (run.seq_eq ▸ Nat.le_succ _) run.markets_eq (run.seq_eq ▸ hm)
  | hop run =>
    have hm := run.traded.marketOk hB (hc _ _ run.found)
    exact hc.save (run.seq_eq ▸ Nat.le_succ _) run.markets_eq (run.seq_eq ▸ hm)
  | cancel run =>
    rw [run.result]
    exact hc.save le_rfl rfl (run.marketOk hB (hc _ _ run.found))
  | create new fresh => exact hc.save le_rfl rfl (.of_fresh hB fresh)
  | delete found can => exact HMap.forall_erase hc
  | setState found =>
    exact hc.save le_rfl rfl ((hc _ _ found).of_sameTerms ⟨rfl, rfl, rfl, rfl, rfl, rfl, rfl⟩
      le_rfl rfl)
  | setWindow bid ask found =>
    exact hc.save le_rfl rfl ((hc _ _ found).of_sameTerms ⟨rfl, rfl, rfl, rfl, rfl, rfl, rfl⟩
      le_rfl rfl)
  | @decimals mid m side d state found =>
    refine hc.save le_rfl rfl ((hc _ _ found).of_sameTerms ?_ le_rfl ?_)
    · cases side <;> exact ⟨rfl, rfl, rfl, rfl, rfl, rfl, rfl⟩
    · cases side <;> rfl

/-! ## Sequences of effects with a property -/

/-- A sequence of effects each of which has the property `P`. -/
inductive EachEffect (S : Sdk B) (P : Contract B → Effect B → Contract B → Prop) :
    Contract B → List (Effect B) → Contract B → Prop
  | nil (c : Contract B) : EachEffect S P c [] c
  | cons {c c₁ c' : Contract B} {e : Effect B} {es : List (Effect B)} (head : Does S c e c₁)
      (holds : P c e c₁) (tail : EachEffect S P c₁ es c') : EachEffect S P c (e :: es) c'

theorem Effects.each (hB : BookLaws S) {P : Contract B → Effect B → Contract B → Prop}
    {c c' : Contract B} {es : List (Effect B)} (h : Effects S c es c') (hc : BooksOk S c)
    (hP : ∀ e ∈ es, ∀ c c', Does S c e c' → BooksOk S c → P c e c') : EachEffect S P c es c' := by
  induction h with
  | nil c => exact .nil c
  | cons head tail ih =>
    exact .cons head (hP _ (List.mem_cons_self ..) _ _ head hc)
      (ih (head.booksOk hB hc) fun e he => hP e (List.mem_cons_of_mem _ he))

/-- What holds of every effect in the list can be added to the property. -/
theorem EachEffect.and_mem {P : Contract B → Effect B → Contract B → Prop} {Q : Effect B → Prop}
    {c c' : Contract B} {es : List (Effect B)} (h : EachEffect S P c es c') (hQ : ∀ e ∈ es, Q e) :
    EachEffect S (fun c e c' => P c e c' ∧ Q e) c es c' := by
  induction h with
  | nil c => exact .nil c
  | cons head holds tail ih =>
    obtain ⟨he, hes⟩ := List.forall_mem_cons.1 hQ
    exact .cons head ⟨holds, he⟩ (ih hes)

/-- What every effect with the property keeps, every sequence of them keeps. -/
theorem EachEffect.invariant (hB : BookLaws S) {P : Contract B → Effect B → Contract B → Prop}
    {Q : Contract B → Prop} {c c' : Contract B} {es : List (Effect B)}
    (h : EachEffect S P c es c') (hc : BooksOk S c)
    (step : ∀ e c c', Does S c e c' → BooksOk S c → P c e c' → Q c → Q c') (h₀ : Q c) : Q c' := by
  induction h with
  | nil c => exact h₀
  | cons head holds tail ih =>
    exact ih (head.booksOk hB hc) (step _ _ _ head hc holds h₀)

theorem EachEffect.booksOk (hB : BookLaws S) {P : Contract B → Effect B → Contract B → Prop}
    {c c' : Contract B} {es : List (Effect B)} (h : EachEffect S P c es c') (hc : BooksOk S c) :
    BooksOk S c' :=
  h.invariant hB hc (fun _ _ _ head hc _ _ => head.booksOk hB hc) hc

/-! ## Runs -/

theorem StepCase.effects {s s' : System B} {ev : Event} (h : StepCase S s ev s') :
    ∃ es, Effects S s.contract es s'.contract := by
  cases h with
  | unchanged => exact ⟨[], .nil _⟩
  | called _ effects _ => exact ⟨_, effects⟩
  | resolved _ _ effects _ => exact ⟨_, effects⟩

/-- What holds of a new contract and is kept by every effect holds of every
    reachable state. -/
theorem reach_invariant (hB : BookLaws S) {ok : System B → Event → Prop}
    {P : Contract B → Prop} (h₀ : ∀ id, P (.new id))
    (hstep : ∀ e c c', Does S c e c' → P c → P c') {s : System B} (hs : System.Reach S ok s) :
    P s.contract := by
  refine hs.invariant (P := fun s => P s.contract) ?_ fun s ev _ _ h => ?_
  · rintro s ⟨id, rfl⟩; exact h₀ id
  · obtain ⟨es, hes⟩ := (step_cases hB s ev).effects
    exact hes.invariant (fun e _ c c' he => hstep e c c' he) h

/-- **In every reachable state the books are well formed.** -/
theorem booksOk_of_reach (hB : BookLaws S) {ok : System B → Event → Prop}
    {s : System B} (hs : System.Reach S ok s) : BooksOk S s.contract :=
  reach_invariant hB (fun _ _ _ h => by cases h) (fun _ _ _ he hc => he.booksOk hB hc) hs

end TonicDex
