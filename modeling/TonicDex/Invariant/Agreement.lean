/-
  Agreement of the two indexes in every run, and what follows for the code that
  relies on it: an order that an account records is found in the book, so that
  cancelling it does not fail for want of the order, and the views that unwrap
  the result of a look-up do not panic there.
-/
import TonicDex.Engine.Library
import TonicDex.Invariant.Index
import TonicDex.Spec.Panics

namespace TonicDex

variable {B : Type} {S : Sdk B} {c c' : Contract B} {e : Effect B} {es : List (Effect B)}

/-! ## Runs -/

/-- The owner deletes a market only when its book is empty. -/
def DeletesEmpty (S : Sdk B) (s : System B) (ev : Event) : Prop :=
  ∀ env mid m, ev = .call env (.adminDeleteMarket mid) →
    s.contract.markets.lookup mid = some m → S.orders m.orderbook = []

theorem Effects.indexed (hB : BookLaws S) (hK : KeysLaw S) (h : Effects S c es c')
    (hc : BooksOk S c) (hok : ∀ e ∈ es, ∀ mid, e ≠ .delete mid) (hi : Indexed S c) :
    Indexed S c' := by
  induction h with
  | nil c => exact hi
  | @cons c c₁ c' e es head tail ih =>
    have hnot : ¬ e.Strands S c := by
      intro hs
      unfold Effect.Strands at hs
      split at hs
      · exact hok _ (List.mem_cons_self ..) _ rfl
      · exact hs
    exact ih (head.booksOk hB hc) (fun e he => hok e (List.mem_cons_of_mem _ he))
      (head.indexed hB hK hc hnot hi)

theorem Indexed.step (hB : BookLaws S) (hK : KeysLaw S) {s : System B}
    {ev : Event} (hok : DeletesEmpty S s ev) (hc : BooksOk S s.contract)
    (h : Indexed S s.contract) : Indexed S (System.step S s ev).contract := by
  have hcase := step_cases hB s ev
  generalize System.step S s ev = s' at hcase ⊢
  cases hcase with
  | unchanged => exact h
  | @called env op c' ps es performed effects shape =>
    by_cases hop : ∃ mid, op = .adminDeleteMarket mid
    · obtain ⟨mid, rfl⟩ := hop
      obtain rfl | rfl := shape.of_market.1 mid rfl
      · cases effects with
        | nil => exact h
      · refine effects.of_single.indexed hB hK hc ?_ h
        rintro ⟨m, hm, hne⟩
        exact hne (hok env mid m rfl hm)
    · refine effects.indexed hB hK hc (fun e he mid hdel => hop ⟨mid, ?_⟩) h
      exact shape.causedBy _ (hdel ▸ he)
  | @resolved i out p c' es paid promise effects resolution =>
    refine effects.indexed hB hK hc (fun e he mid => ?_) h
    obtain rfl | ⟨e', rfl, hdel, -⟩ := resolution.cases_effects
    · cases he
    · rw [List.mem_singleton.1 he]
      exact hdel mid

theorem Indexed.new (id : AccountId) : Indexed S (Contract.new id) := by
  constructor
  · intro id mid o i h; cases h
  · intro mid m x h; cases h
  · intro id mid; exact Nat.zero_le _
  · intro id mid os h; cases h

theorem indexed_of_reach (hB : BookLaws S) (hK : KeysLaw S) {s : System B}
    (hs : System.Reach S (DeletesEmpty S) s) : Indexed S s.contract := by
  refine hs.invariant (P := fun s => Indexed S s.contract) ?_ fun s ev hr hok h =>
    h.step hB hK hok (booksOk_of_reach hB hr)
  rintro s ⟨id, rfl⟩
  exact .new id

/-! ## Look-ups that cannot fail -/

variable {mid : MarketId} {m : Market B} {id : AccountId} {a : Account} {o : OrderId}
  {i : OrderInfo}

/-- A recorded order is found in the book. -/
theorem Indexed.found (hB : BookLaws S) (h : Indexed S c) (hc : BooksOk S c)
    (hm : c.markets.lookup mid = some m) (hi : (c.accountOf id).getOrderInfo mid o = some i) :
    ∃ x, S.getOrder m.orderbook o = some x ∧ x ∈ S.orders m.orderbook ∧ x.id = o := by
  obtain ⟨m', x, hm', hx, hid, -⟩ := h.recorded id mid o i hi
  rw [hm] at hm'
  cases hm'
  exact ⟨x, (hB.getOrder (hc mid m hm).nodup).2 ⟨hx, hid⟩, hx, hid⟩

/-- **Cancelling a recorded order does not fail for want of the order.** -/
theorem Indexed.cancel_ne_error (hB : BookLaws S) (h : Indexed S c) (hc : BooksOk S c)
    (ha : c.accounts.lookup id = some a) (hi : a.getOrderInfo mid o = some i) :
    internalCancelOrder S c mid id o ≠ .error (.error .orderNotFound) := by
  have hrec : (c.accountOf id).getOrderInfo mid o = some i := by
    rw [accountOf_of_lookup ha]; exact hi
  obtain ⟨m, x, hm, hx, hid, -⟩ := h.recorded id mid o i hrec
  obtain ⟨r, b, hcancel, -⟩ := hB.cancel_some (hc mid m hm).nodup hx
  rw [hid] at hcancel
  have hmarket : c.internalUnwrapMarket mid = .ok m := Contract.internalUnwrapMarket_eq_ok.2 hm
  have haccount : c.internalUnwrapAccount id = .ok a := Contract.internalUnwrapAccount_eq_ok.2 ha
  have hfst : (a.removeOrderInfo mid o).1 = some o := by
    rw [Account.removeOrderInfo_fst, hi]; rfl
  unfold internalCancelOrder
  rw [hmarket, Checked.ok_bind]
  refine Checked.FailsOnly.ne ?_
  refine .bind (.require nofun) fun _ _ => ?_
  rw [haccount, Checked.ok_bind]
  rcases hro : a.removeOrderInfo mid o with ⟨_ | o', a'⟩
  · rw [hro] at hfst; cases hfst
  simp only [hcancel]
  refine .bind (.pure _) fun r' _ => ?_
  refine .bind (.bind (processRefund_fails nofun nofun nofun) fun _ _ => .pure _) fun _ _ => ?_
  exact Contract.internalSaveAccount_fails nofun

/-- What an account lists as open in a market it records. -/
theorem getOrderInfo_of_mem_iter {x : OrderId × OrderInfo} (hx : x ∈ a.openOrdersIter S mid) :
    a.getOrderInfo mid x.1 = some x.2 := by
  unfold Account.openOrdersIter at hx
  unfold Account.getOrderInfo
  rcases hos : a.openOrders.lookup mid with _ | os
  · rw [hos] at hx; cases hx
  · rw [hos] at hx
    obtain ⟨o, -, ho⟩ := List.mem_filterMap.1 hx
    obtain ⟨i, hi, rfl⟩ := Option.map_eq_some_iff.1 ho
    exact hi

/-- **Listing the open orders of an account does not panic on a look-up.** -/
theorem Indexed.getOpenOrders_ne_error (hB : BookLaws S) (h : Indexed S c) (hc : BooksOk S c)
    (hm : c.markets.lookup mid = some m) : getOpenOrders S c mid id ≠ .error .unwrap := by
  have hmarket : c.internalUnwrapMarket mid = .ok m := Contract.internalUnwrapMarket_eq_ok.2 hm
  unfold getOpenOrders
  rw [hmarket, Checked.ok_bind]
  refine Checked.FailsOnly.ne ?_
  refine .bind (.expect nofun) fun a ha => .mapM fun x hx => ?_
  have hrec := getOrderInfo_of_mem_iter hx
  rw [← accountOf_of_lookup (Contract.internalUnwrapAccount_eq_ok.1 ha)] at hrec
  obtain ⟨y, hy, -⟩ := h.found hB hc hm hrec
  simp only [hy]
  exact .bind (.pure _) fun _ _ => orderToView_fails nofun

/-- **Looking up an order does not panic for want of its owner or its record.** -/
theorem Indexed.getOrder_ne_error (hB : BookLaws S) (h : Indexed S c) (hc : BooksOk S c)
    (hm : c.markets.lookup mid = some m) {e : Panic} (he : Panic.arithmetic ≠ e) :
    getOrder S c mid o ≠ .error e := by
  have hmarket : c.internalUnwrapMarket mid = .ok m := Contract.internalUnwrapMarket_eq_ok.2 hm
  unfold getOrder
  rw [hmarket, Checked.ok_bind]
  refine Checked.FailsOnly.ne ?_
  refine .option_mapM fun x hx => ?_
  obtain ⟨hmem, hid⟩ := (hB.getOrder (hc mid m hm).nodup).1 hx
  obtain ⟨i, hi⟩ := h.rests mid m x hm hmem
  have hacc : c.internalUnwrapAccount x.ownerId = .ok (c.accountOf x.ownerId) := by
    rw [Contract.internalUnwrapAccount_eq_ok]
    rcases ha : c.accounts.lookup x.ownerId with _ | a
    · rw [Contract.accountOf, ha] at hi; cases hi
    · rw [Contract.accountOf, ha]; rfl
  rw [hacc, Checked.ok_bind, ← hid, hi]
  refine .bind (.pure _) fun _ _ => .bind (.fit he) fun _ _ => .bind (.fit he) fun _ _ => ?_
  exact orderToView_fails he

/-! ## Agreement -/

/-- **Agreement of the two order indexes.** In every state reached without
    deleting a market that has orders, an order is recorded on an account just
    in case it rests in the book for that account; then at most its original
    size is open; no account exceeds the limit of a market; and none lists a
    market without orders.  So the look-ups of recorded orders do not fail. -/
theorem index_agreement (hB : BookLaws S) (hK : KeysLaw S) {s : System B}
    (hs : System.Reach S (DeletesEmpty S) s) :
    (∀ id mid o, (∃ a i, s.contract.accounts.lookup id = some a ∧
        a.getOrderInfo mid o = some i) ↔
      ∃ m x, s.contract.markets.lookup mid = some m ∧ x ∈ S.orders m.orderbook ∧ x.id = o ∧
        x.ownerId = id) ∧
    (∀ mid m x a i, s.contract.markets.lookup mid = some m → x ∈ S.orders m.orderbook →
      s.contract.accounts.lookup x.ownerId = some a → a.getOrderInfo mid x.id = some i →
      x.openQtyLots ≤ i.originalSize) ∧
    (∀ id a mid m, s.contract.accounts.lookup id = some a →
      s.contract.markets.lookup mid = some m → a.ordersIn mid ≤ m.maxOrdersPerAccount) ∧
    (∀ id a, s.contract.accounts.lookup id = some a → a.Tidy) ∧
    (∀ id a mid o i, s.contract.accounts.lookup id = some a → a.getOrderInfo mid o = some i →
      internalCancelOrder S s.contract mid id o ≠ .error (.error .orderNotFound)) ∧
    (∀ mid m, s.contract.markets.lookup mid = some m →
      (∀ id, getOpenOrders S s.contract mid id ≠ .error .unwrap) ∧
        ∀ o, getOrder S s.contract mid o ≠ .error .unwrap) := by
  have h := indexed_of_reach hB hK hs
  have hc := booksOk_of_reach hB hs
  refine ⟨fun id mid o => ⟨?_, ?_⟩, ?_, ?_, ?_, ?_, ?_⟩
  · rintro ⟨a, i, ha, hi⟩
    rw [← accountOf_of_lookup ha] at hi
    obtain ⟨m, x, hm, hx, hid, hown, -⟩ := h.recorded id mid o i hi
    exact ⟨m, x, hm, hx, hid, hown⟩
  · rintro ⟨m, x, hm, hx, rfl, rfl⟩
    obtain ⟨i, hi⟩ := h.rests mid m x hm hx
    rcases ha : s.contract.accounts.lookup x.ownerId with _ | a
    · rw [Contract.accountOf, ha] at hi; cases hi
    · exact ⟨a, i, rfl, accountOf_of_lookup ha ▸ hi⟩
  · intro mid m x a i hm hx ha hi
    rw [← accountOf_of_lookup ha] at hi
    obtain ⟨m', y, hm', hy, hid, -, hsize⟩ := h.recorded x.ownerId mid x.id i hi
    rw [hm] at hm'
    cases hm'
    obtain rfl : y = x := List.inj_on_of_nodup_map (hc mid m hm).nodup hy hx hid
    exact hsize
  · intro id a mid m ha hm
    rw [(hc mid m hm).maxOrders, ← accountOf_of_lookup ha]
    exact h.limit id mid
  · intro id a ha
    exact accountOf_of_lookup ha ▸ h.tidy id
  · intro id a mid o i ha hi
    exact h.cancel_ne_error hB hc ha hi
  · intro mid m hm
    exact ⟨fun id => h.getOpenOrders_ne_error hB hc hm,
      fun o => h.getOrder_ne_error hB hc hm (by decide)⟩

/-- While Alice's order rests. -/
theorem index_agreement_asked :
    ((∃ a i, (Engine.run Engine.asked).contract.accounts.lookup Engine.alice = some a ∧
        a.getOrderInfo Engine.btcUsd 1 = some i) ↔
      ∃ m x, (Engine.run Engine.asked).contract.markets.lookup Engine.btcUsd = some m ∧
        x ∈ Engine.sdk.orders m.orderbook ∧ x.id = 1 ∧ x.ownerId = Engine.alice) ∧
    getOpenOrders Engine.sdk (Engine.run Engine.asked).contract Engine.btcUsd Engine.alice ≠
      .error .unwrap := by
  have hs : System.Reach Engine.sdk (DeletesEmpty Engine.sdk) (Engine.run Engine.asked) :=
    Engine.reach_run fun e he _ env mid _ heq => absurd heq ((Engine.mem_asked he).1 env mid)
  obtain ⟨hagree, -, -, -, -, hviews⟩ :=
    index_agreement Engine.bookLaws Engine.keysLaw hs
  obtain ⟨m, hm, -⟩ := Engine.market_asked
  exact ⟨hagree Engine.alice Engine.btcUsd 1, (hviews Engine.btcUsd m hm).1 Engine.alice⟩

end TonicDex
