/-
  Clearing a book.

  `admin_clear_orderbook` goes through a snapshot of the book, and each round
  loads, changes and saves the market and one of the accounts.  `Cleared` says
  what the rounds done so far left: it holds of one round and composes
  (`Cleared.trans`), as long as the orders still to come rest unchanged in the
  stored book, which they do because no order is in the snapshot twice.
-/
import TonicDex.Invariant.CancelAll

namespace TonicDex

variable {B : Type} {S : Sdk B} {c c₁ c' : Contract B} {mid : MarketId} {m m₁ m' : Market B}
  {a a₁ a' : Account} {xs ys : List OpenLimitOrder} {x : OpenLimitOrder}

/-! ## What the rounds leave -/

/-- The native amount of a token that the given orders pay back. -/
def Market.refunds (m : Market B) (token : TokenType) (xs : List OpenLimitOrder) : ℕ :=
  (xs.map fun x => if token = m.sideToken x.side then m.restingValue x.side x else 0).sum

/-- The orders `xs` of an account are refunded to it, each once, and taken off
    its records; nothing else changes on it. -/
structure Refunded (S : Sdk B) (mid : MarketId) (m : Market B) (xs : List OpenLimitOrder)
    (a a' : Account) : Prop where
  recorded : ∀ x ∈ xs, ∃ i, a.getOrderInfo mid x.id = some i
  records : ∀ o, a'.getOrderInfo mid o =
    if o ∈ xs.map OpenLimitOrder.id then none else a.getOrderInfo mid o
  openOrders : ∀ mid', mid' ≠ mid → a'.openOrders.lookup mid' = a.openOrders.lookup mid'
  balance : ∀ token, a'.getBalance S token = a.getBalance S token + m.refunds token xs
  entries : ∀ k, (∀ x ∈ xs, S.key (m.sideToken x.side) ≠ k) →
    a'.balances.lookup k = a.balances.lookup k
  storage : a'.storageBalance = a.storageBalance
  same : xs = [] → a' = a

/-- The orders `xs` of the market `m` are cancelled, each for its owner, and
    nothing else changes. -/
structure Cleared (S : Sdk B) (mid : MarketId) (c : Contract B) (m : Market B)
    (xs : List OpenLimitOrder) (c' : Contract B) (m' : Market B) : Prop where
  found : c'.markets.lookup mid = some m'
  market : m' = { m with orderbook := m'.orderbook }
  resting : ∀ side, S.resting m'.orderbook side =
    (S.resting m.orderbook side).filter (·.id ∉ xs.map OpenLimitOrder.id)
  markets : ∀ mid', mid' ≠ mid → c'.markets.lookup mid' = c.markets.lookup mid'
  accounts : ∀ id, Option.Rel (Refunded S mid m (xs.filter (·.ownerId = id)))
    (c.accounts.lookup id) (c'.accounts.lookup id)
  amounts : ∀ x ∈ xs,
    getRefundAmount m x = .ok (m.restingValue x.side x, m.sideToken x.side)
  contract : c' = { c with accounts := c'.accounts, markets := c'.markets }

theorem Refunded.refl (m : Market B) (a : Account) : Refunded S mid m [] a a where
  recorded := fun x hx => (List.not_mem_nil hx).elim
  records := fun o => by simp
  openOrders := fun _ _ => rfl
  balance := fun _ => rfl
  entries := fun _ _ => rfl
  storage := rfl
  same := fun _ => rfl

theorem Refunded.trans (h : Refunded S mid m xs a a₁) (h' : Refunded S mid m ys a₁ a') :
    Refunded S mid m (xs ++ ys) a a' where
  recorded := by
    intro x hx
    obtain hx | hx := List.mem_append.1 hx
    · exact h.recorded x hx
    · obtain ⟨i, hi⟩ := h'.recorded x hx
      rw [h.records] at hi
      split_ifs at hi
      exact ⟨i, hi⟩
  records := by
    intro o
    rw [h'.records, h.records, List.map_append]
    by_cases ho : o ∈ ys.map OpenLimitOrder.id
    · rw [if_pos ho, if_pos (List.mem_append_right _ ho)]
    · rw [if_neg ho]
      simp only [List.mem_append, ho, or_false]
  openOrders := fun mid' hne => (h'.openOrders mid' hne).trans (h.openOrders mid' hne)
  balance := by
    intro token
    rw [h'.balance, h.balance, Nat.add_assoc, Market.refunds, Market.refunds, Market.refunds,
      List.map_append, List.sum_append]
  entries := by
    intro k hk
    rw [h'.entries k fun x hx => hk x (List.mem_append_right _ hx),
      h.entries k fun x hx => hk x (List.mem_append_left _ hx)]
  storage := h'.storage.trans h.storage
  same := by
    intro hnil
    obtain ⟨hxs, hys⟩ := List.append_eq_nil_iff.1 hnil
    rw [h'.same hys, h.same hxs]

/-- What is locked does not depend on the book. -/
theorem Refunded.of_book {b : B} (h : Refunded S mid { m with orderbook := b } xs a a') :
    Refunded S mid m xs a a' :=
  ⟨h.recorded, h.records, h.openOrders, h.balance, h.entries, h.storage, h.same⟩

namespace Cleared

theorem refl (hm : c.markets.lookup mid = some m) : Cleared S mid c m [] c m where
  found := hm
  market := rfl
  resting := fun side => by simp
  markets := fun _ _ => rfl
  accounts := by
    intro id
    rcases c.accounts.lookup id with _ | a
    · exact .none
    · exact .some (.refl m a)
  amounts := fun x hx => (List.not_mem_nil hx).elim
  contract := rfl

theorem trans (h : Cleared S mid c m xs c₁ m₁) (h' : Cleared S mid c₁ m₁ ys c' m') :
    Cleared S mid c m (xs ++ ys) c' m' where
  found := h'.found
  market := by rw [h'.market, h.market]
  resting := by
    intro side
    rw [h'.resting, h.resting, List.filter_filter, List.map_append]
    refine List.filter_congr fun x _ => ?_
    by_cases hx : x.id ∈ xs.map OpenLimitOrder.id <;> simp [hx]
  markets := fun mid' hne => (h'.markets mid' hne).trans (h.markets mid' hne)
  accounts := by
    intro id
    have hfirst := h.accounts id
    have hrest := h'.accounts id
    rw [List.filter_append]
    generalize c.accounts.lookup id = o at hfirst ⊢
    generalize c₁.accounts.lookup id = o₁ at hfirst hrest
    generalize c'.accounts.lookup id = o' at hrest ⊢
    cases hfirst with
    | none =>
      cases hrest with
      | none => exact .none
    | some hfirst =>
      cases hrest with
      | some hrest =>
        rw [h.market] at hrest
        exact .some (hfirst.trans hrest.of_book)
  amounts := by
    intro x hx
    obtain hx | hx := List.mem_append.1 hx
    · exact h.amounts x hx
    · have hx' := h'.amounts x hx
      rw [h.market] at hx'
      exact hx'
  contract := by rw [h'.contract, h.contract]

theorem orders (h : Cleared S mid c m xs c' m') : S.orders m'.orderbook =
    (S.orders m.orderbook).filter (·.id ∉ xs.map OpenLimitOrder.id) := by
  rw [Sdk.orders, Sdk.orders, List.filter_append]
  exact congrArg₂ _ (h.resting .sell) (h.resting .buy)

end Cleared

/-! ## One round -/

/-- The order of a snapshot is the only one with its id. -/
theorem filter_id {l : List OpenLimitOrder} (hn : (l.map OpenLimitOrder.id).Nodup) (hx : x ∈ l) :
    l.filter (·.id ∈ [x.id]) = [x] := by
  have hsame : ∀ y ∈ l, decide (y.id ∈ [x.id]) = (y == x) := by
    intro y hy
    rw [Bool.eq_iff_iff, decide_eq_true_eq, List.mem_singleton, beq_iff_eq]
    exact ⟨fun hid => List.inj_on_of_nodup_map hn hy hx hid, fun h => h ▸ rfl⟩
  rw [List.filter_congr hsame, List.filter_beq,
    List.count_eq_one_of_mem (List.Nodup.of_map _ hn) hx, List.replicate_one]

/-- **A round cancels the order it comes to**, which rests in the stored book. -/
theorem internalCancelOrder_cleared (hB : BookLaws S) (hT : TokenLaws S) (hK : KeysLaw S)
    (hc : BooksOk S c) (hm : c.markets.lookup mid = some m) (hx : x ∈ S.orders m.orderbook)
    (h : internalCancelOrder S c mid x.ownerId x.id = .ok c') :
    ∃ m', Cleared S mid c m [x] c' m' := by
  obtain ⟨run⟩ := internalCancelOrder_ok h
  obtain rfl : run.m = m := Option.some.inj (run.found.symm.trans hm)
  have hok := hc mid _ hm
  obtain ⟨a', hleaves⟩ := run.leaves hB hK hok
  have hrecorded := (run.forgets.recorded hK).2 x.id (List.mem_singleton_self _)
  have hfilter := filter_id hok.nodup hx
  have horder : run.results.map CancelOrderResult.order = [x] :=
    List.perm_singleton.1 (hfilter ▸ run.cancelled_perm hB hok)
  have hrefunded : Refunded S mid run.m [x] run.a a' := by
    refine ⟨List.forall_mem_singleton.2 hrecorded, hleaves.records, hleaves.openOrders,
      fun token => ?_, fun k hk => ?_, hleaves.storage, nofun⟩
    · have hentry := hleaves.balances (S.key token)
      rw [hfilter] at hentry
      rw [Account.getBalance, Account.balance, hentry, List.foldl_cons, List.foldl_nil,
        refundEntry, Market.refunds, List.map_singleton, List.sum_singleton, Account.getBalance,
        Account.balance]
      by_cases htoken : token = run.m.sideToken x.side
      · rw [if_pos htoken, if_pos (htoken ▸ rfl), Option.getD_some]
      · rw [if_neg htoken, if_neg fun hk => htoken (hT.key_injective hk).symm, Nat.add_zero]
    · rw [hleaves.balances, hfilter, List.foldl_cons, List.foldl_nil, refundEntry,
        if_neg (hk x (List.mem_singleton_self _))]
  refine ⟨_, hleaves.found, hleaves.market, hleaves.resting, hleaves.markets, fun id => ?_, ?_, ?_⟩
  · by_cases hid : id = x.ownerId
    · subst hid
      rw [hleaves.account, run.account, List.filter_cons_of_pos (by simp), List.filter_nil]
      exact .some hrefunded
    · rw [hleaves.accounts id hid, List.filter_cons_of_neg (by simpa using Ne.symm hid),
        List.filter_nil]
      rcases c.accounts.lookup id with _ | b
      · exact .none
      · exact .some (.refl _ b)
  · obtain ⟨r, hr, hrx⟩ := List.mem_map.1 (horder.symm ▸ List.mem_singleton_self x)
    exact List.forall_mem_singleton.2 (hrx ▸ (run.amounts r hr).2)
  · rw [run.result]
    rfl

/-! ## The loop -/

/-- Cancelling the given orders one by one, each for its owner, every single
    call succeeds. -/
inductive EachCancels (S : Sdk B) (mid : MarketId) : Contract B → List OpenLimitOrder → Prop
  | nil (c : Contract B) : EachCancels S mid c []
  | cons {c c₁ : Contract B} {x : OpenLimitOrder} {xs : List OpenLimitOrder}
      (head : internalCancelOrder S c mid x.ownerId x.id = .ok c₁)
      (tail : EachCancels S mid c₁ xs) : EachCancels S mid c (x :: xs)

theorem eachCancels_of_ok : ∀ {xs : List OpenLimitOrder} {c c' : Contract B},
    cancelForOwners S mid c xs = .ok c' → EachCancels S mid c xs
  | [], c, _, _ => .nil c
  | x :: xs, c, c', h => by
    simp only [cancelForOwners, Checked.bind_eq_ok] at h
    obtain ⟨c₁, h1, h2⟩ := h
    exact .cons h1 (eachCancels_of_ok h2)

/-- **The loop cancels the orders of its snapshot**, which all rest in the stored
    book when it starts. -/
theorem EachCancels.cleared (hB : BookLaws S) (hT : TokenLaws S) (hK : KeysLaw S)
    (h : EachCancels S mid c xs) (hc : BooksOk S c) (hm : c.markets.lookup mid = some m)
    (hrest : ∀ x ∈ xs, x ∈ S.orders m.orderbook) (hn : (xs.map OpenLimitOrder.id).Nodup) :
    ∃ c' m', cancelForOwners S mid c xs = .ok c' ∧ Cleared S mid c m xs c' m' := by
  induction h generalizing m with
  | nil c => exact ⟨c, m, rfl, .refl hm⟩
  | @cons c c₁ x xs head tail ih =>
    obtain ⟨hx, hrest⟩ := List.forall_mem_cons.1 hrest
    obtain ⟨hnew, hn⟩ := List.nodup_cons.1 hn
    obtain ⟨m₁, hfirst⟩ := internalCancelOrder_cleared hB hT hK hc hm hx head
    -- the orders to come are not the one just cancelled
    have hrest₁ : ∀ y ∈ xs, y ∈ S.orders m₁.orderbook := by
      intro y hy
      rw [hfirst.orders]
      refine List.mem_filter.2 ⟨hrest y hy, decide_eq_true fun hid => hnew ?_⟩
      rw [← List.mem_singleton.1 hid]
      exact List.mem_map_of_mem hy
    obtain ⟨c', m', hcancel, hcleared⟩ :=
      ih ((internalCancelOrder_does head).booksOk hB hc) hfirst.found hrest₁ hn
    refine ⟨c', m', ?_, hfirst.trans hcleared⟩
    rw [cancelForOwners, head, Checked.ok_bind]
    exact hcancel

/-! ## Clearing -/

theorem filter_take_ids {l : List OpenLimitOrder} (k : ℕ) (hn : (l.map OpenLimitOrder.id).Nodup) :
    l.filter (·.id ∉ (l.take k).map OpenLimitOrder.id) = l.drop k := by
  have hsplit := List.take_append_drop k l
  generalize l.take k = xs at hsplit ⊢
  generalize l.drop k = ys at hsplit ⊢
  subst hsplit
  rw [List.map_append, List.nodup_append] at hn
  have htaken : xs.filter (·.id ∉ xs.map OpenLimitOrder.id) = [] :=
    List.filter_eq_nil_iff.2 fun x hx => by simpa using ⟨x, hx, rfl⟩
  have hkept : ys.filter (·.id ∉ xs.map OpenLimitOrder.id) = ys :=
    List.filter_eq_self.2 fun y hy => decide_eq_true fun hid =>
      hn.2.2 _ hid _ (List.mem_map_of_mem hy) rfl
  rw [List.filter_append, htaken, hkept, List.nil_append]

/-- **Clearing the book cancels each order once.**  In every reachable state, if
    the market is active or cancel-only and every single cancel succeeds, the owner
    gets the ids of the first `k` orders in book order, asks before bids, without
    repetition; just these are refunded to their owners and taken off the book and
    off the records of their owners, and nothing else changes. -/
theorem clear_orderbook_once (hB : BookLaws S) (hT : TokenLaws S) (hK : KeysLaw S)
    {s : System B} (hs : System.Reachable S s) (env : Env)
    (howner : env.predecessorAccountId = s.contract.ownerId)
    (hm : s.contract.markets.lookup mid = some m)
    (hst : m.state = .active ∨ m.state = .cancelOnly) (k : ℕ)
    (hcancels : EachCancels S mid s.contract ((S.orders m.orderbook).take k)) :
    ∃ ids c' m', adminClearOrderbook S env s.contract mid (some k) = .ok (ids, c') ∧
      ids = ((S.asks m.orderbook ++ S.bids m.orderbook).take k).map OpenLimitOrder.id ∧
      ids.length = min k (S.asks m.orderbook ++ S.bids m.orderbook).length ∧ ids.Nodup ∧
      Cleared S mid s.contract m ((S.orders m.orderbook).take k) c' m' ∧
      S.orders m'.orderbook = (S.orders m.orderbook).drop k := by
  have hbooks := booksOk_of_reach hB hs
  have hnodup := (hbooks mid m hm).nodup
  have htaken : (((S.orders m.orderbook).take k).map OpenLimitOrder.id).Nodup :=
    hnodup.sublist ((List.take_sublist k _).map _)
  obtain ⟨c', m', hcancel, hcleared⟩ := hcancels.cleared hB hT hK hbooks hm
    (fun x hx => List.mem_of_mem_take hx) htaken
  refine ⟨_, c', m', ?_, rfl, ?_, htaken, hcleared, ?_⟩
  · unfold adminClearOrderbook internalClearOrderbookOrders
    rw [Contract.assertIsOwner, assert, Checked.require_pos howner, Checked.ok_bind,
      Contract.internalUnwrapMarket_eq_ok.2 hm, Checked.ok_bind, Market.assertCanCancel, assert,
      Checked.require_pos hst, Checked.ok_bind, Option.getD_some]
    dsimp only
    rw [hcancel]
    rfl
  · rw [List.length_map, List.length_take]
  · rw [hcleared.orders, filter_take_ids k hnodup]

/-- Alice asks 40, and Bob bids 20 and 19. -/
def crowded : List Event := Engine.listed ++ [Engine.pay Engine.btc Engine.alice 1000,
  Engine.pay Engine.usd Engine.bob 100000,
  .call (Engine.calling Engine.alice 0)
    (.newOrder Engine.btcUsd (Engine.order .sell .limit 40 500 none)),
  .call (Engine.calling Engine.bob 0)
    (.newOrder Engine.btcUsd (Engine.order .buy .limit 20 500 none)),
  .call (Engine.calling Engine.bob 0)
    (.newOrder Engine.btcUsd (Engine.order .buy .limit 19 500 none))]

/-- Clearing two orders takes off Alice's ask and Bob's best bid. -/
theorem clear_orderbook_crowded : ∃ c' m', adminClearOrderbook Engine.sdk
    (Engine.calling Engine.dao 0) (Engine.run crowded).contract Engine.btcUsd (some 2) =
      .ok ([1, 2], c') ∧ c'.markets.lookup Engine.btcUsd = some m' ∧
    Engine.sdk.ids m'.orderbook = [3] := by
  have hmarket : ((Engine.run crowded).contract.markets.lookup Engine.btcUsd).map (fun m =>
      (m.state, Engine.sdk.ids m.orderbook, (cancelForOwners Engine.sdk Engine.btcUsd
        (Engine.run crowded).contract ((Engine.sdk.orders m.orderbook).take 2)).isOk)) =
      some (.active, [1, 2, 3], true) := by decide +kernel
  obtain ⟨m, hm, hmarket⟩ := Option.map_eq_some_iff.1 hmarket
  simp only [Prod.mk.injEq] at hmarket
  obtain ⟨hst, hids, hok⟩ := hmarket
  have hcancels : EachCancels Engine.sdk Engine.btcUsd (Engine.run crowded).contract
      ((Engine.sdk.orders m.orderbook).take 2) := by
    obtain ⟨c', hc⟩ := Engine.eq_ok_of_isOk hok
    exact eachCancels_of_ok hc
  obtain ⟨ids, c', m', hclear, hfirst, -, -, hcleared, hrest⟩ := clear_orderbook_once
    Engine.bookLaws Engine.tokenLaws Engine.keysLaw (Engine.reachable_run crowded)
    (Engine.calling Engine.dao 0) (by decide +kernel) hm (.inl hst) 2 hcancels
  have hids' : (Engine.sdk.orders m.orderbook).map OpenLimitOrder.id = [1, 2, 3] := hids
  refine ⟨c', m', ?_, hcleared.found, ?_⟩
  · rw [hclear, hfirst, List.map_take]
    exact congrArg (fun l => Except.ok (l.take 2, c')) hids'
  · rw [Sdk.ids, hrest, List.map_drop, hids']
    rfl

end TonicDex
