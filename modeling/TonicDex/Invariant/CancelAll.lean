/-
  Cancelling all orders, and cancelling them one by one.

  `Cancelled` says what the cancellation of some orders of an account leaves, up
  to the order in which maps list their entries.  It holds of one cancellation
  and of several after each other (`Cancelled.trans`), and refunds commute, so
  `cancel_all_orders` agrees with `cancel_order` on each order in any order
  (`Cancelled.alike`).  When it goes through at all is decided by the state of
  the contract and the storage of the account (`cancel_all_orders_iff`).
-/
import TonicDex.Invariant.Agreement
import TonicDex.Invariant.Recovery

namespace TonicDex

variable {B : Type} {S : Sdk B} {c c' : Contract B} {mid : MarketId} {m m' : Market B} {env : Env}
  {a a' : Account} {owner : AccountId} {ids : List OrderId} {x : OpenLimitOrder}
  {xs ys : List OpenLimitOrder}

/-! ## Refunds in any order -/

/-- What the refund of an order leaves of an entry under the key `k`. -/
def refundEntry (S : Sdk B) (m : Market B) (k : String) (old : Option ℕ) (x : OpenLimitOrder) :
    Option ℕ :=
  if S.key (m.sideToken x.side) = k then some (old.getD 0 + m.restingValue x.side x) else old

theorem entry_refund (m : Market B) (k : String) (a : Account) (x : OpenLimitOrder) :
    (refund S m mid a x).balances.lookup k = refundEntry S m k (a.balances.lookup k) x := by
  rw [refund, Account.balances_forget, Account.credit, HMap.lookup_insert_eq, refundEntry,
    Account.balance]
  by_cases hk : k = S.key (m.sideToken x.side)
  · rw [if_pos hk, if_pos hk.symm, hk]
  · rw [if_neg hk, if_neg fun h => hk h.symm]

theorem entry_refunds (m : Market B) (k : String) : ∀ (xs : List OpenLimitOrder) (a : Account),
    (xs.foldl (refund S m mid) a).balances.lookup k =
      xs.foldl (refundEntry S m k) (a.balances.lookup k)
  | [], _ => rfl
  | x :: xs, a => by
    rw [List.foldl_cons, entry_refunds m k xs, entry_refund, List.foldl_cons]

/-- **Refunds can be made in any order.** -/
theorem refundEntry_perm (m : Market B) (k : String) (h : xs.Perm ys) (old : Option ℕ) :
    xs.foldl (refundEntry S m k) old = ys.foldl (refundEntry S m k) old := by
  refine h.foldl_eq' (fun x _ y _ old => ?_) old
  unfold refundEntry
  split_ifs
  · simp only [Option.getD_some, Nat.add_right_comm]
  all_goals rfl

/-! ## What cancellations leave -/

/-- The orders `ids` of the account `a` in the market `m` are cancelled, and
    nothing else changes. -/
structure Cancelled (S : Sdk B) (mid : MarketId) (owner : AccountId) (m : Market B) (a : Account)
    (c : Contract B) (ids : List OrderId) (c' : Contract B) (m' : Market B) (a' : Account) :
    Prop where
  found : c'.markets.lookup mid = some m'
  account : c'.accounts.lookup owner = some a'
  markets : ∀ mid', mid' ≠ mid → c'.markets.lookup mid' = c.markets.lookup mid'
  accounts : ∀ id, id ≠ owner → c'.accounts.lookup id = c.accounts.lookup id
  market : m' = { m with orderbook := m'.orderbook }
  resting : ∀ side,
    S.resting m'.orderbook side = (S.resting m.orderbook side).filter (·.id ∉ ids)
  balances : ∀ k, a'.balances.lookup k = ((S.orders m.orderbook).filter (·.id ∈ ids)).foldl
    (refundEntry S m k) (a.balances.lookup k)
  openOrders : ∀ mid', mid' ≠ mid → a'.openOrders.lookup mid' = a.openOrders.lookup mid'
  records : ∀ o, a'.getOrderInfo mid o = if o ∈ ids then none else a.getOrderInfo mid o
  tidy : a.Tidy → a'.Tidy
  storage : a'.storageBalance = a.storageBalance

namespace Cancelled

theorem refl (hm : c.markets.lookup mid = some m) (ha : c.accounts.lookup owner = some a) :
    Cancelled S mid owner m a c [] c m a where
  found := hm
  account := ha
  markets := fun _ _ => rfl
  accounts := fun _ _ => rfl
  market := rfl
  resting := fun side => by simp
  balances := fun k => by simp
  openOrders := fun _ _ => rfl
  records := fun o => by simp
  tidy := id
  storage := rfl

theorem orders (h : Cancelled S mid owner m a c ids c' m' a') :
    S.orders m'.orderbook = (S.orders m.orderbook).filter (·.id ∉ ids) := by
  rw [Sdk.orders, Sdk.orders, List.filter_append]
  exact congrArg₂ _ (h.resting .sell) (h.resting .buy)

/-- The orders that two cancellations take off, one after the other. -/
theorem filter_perm (l : List OpenLimitOrder) (ids ids' : List OrderId) :
    (l.filter (·.id ∈ ids) ++ (l.filter (·.id ∉ ids)).filter (·.id ∈ ids')).Perm
      (l.filter (·.id ∈ ids ++ ids')) := by
  have hsplit := List.filter_append_perm (fun x : OpenLimitOrder => decide (x.id ∈ ids))
    (l.filter (·.id ∈ ids ++ ids'))
  refine List.Perm.trans (List.Perm.of_eq ?_) hsplit
  rw [List.filter_filter, List.filter_filter, List.filter_filter]
  refine congrArg₂ _ (List.filter_congr fun x _ => ?_) (List.filter_congr fun x _ => ?_)
  · by_cases hx : x.id ∈ ids <;> simp [hx]
  · by_cases hx : x.id ∈ ids <;> simp [hx]

theorem trans {c₁ : Contract B} {m₁ : Market B} {a₁ : Account} {ids' : List OrderId}
    (h : Cancelled S mid owner m a c ids c₁ m₁ a₁)
    (h' : Cancelled S mid owner m₁ a₁ c₁ ids' c' m' a') :
    Cancelled S mid owner m a c (ids ++ ids') c' m' a' where
  found := h'.found
  account := h'.account
  markets := fun mid' hne => (h'.markets mid' hne).trans (h.markets mid' hne)
  accounts := fun id hne => (h'.accounts id hne).trans (h.accounts id hne)
  market := by rw [h'.market, h.market]
  resting := fun side => by
    rw [h'.resting, h.resting, List.filter_filter]
    refine List.filter_congr fun x _ => ?_
    by_cases hx : x.id ∈ ids <;> simp [hx]
  balances := fun k => by
    have hsame : refundEntry S m₁ k = refundEntry S m k := by rw [h.market]; rfl
    rw [h'.balances, h.balances, h.orders, hsame, ← List.foldl_append]
    exact refundEntry_perm m k (filter_perm _ ids ids') _
  openOrders := fun mid' hne => (h'.openOrders mid' hne).trans (h.openOrders mid' hne)
  records := fun o => by
    rw [h'.records, h.records]
    by_cases ho : o ∈ ids <;> simp [ho]
  tidy := fun ht => h'.tidy (h.tidy ht)
  storage := h'.storage.trans h.storage

end Cancelled

theorem openOrders_refunds_of_ne (m : Market B) {mid' : MarketId} (hne : mid' ≠ mid) :
    ∀ (xs : List OpenLimitOrder) (a : Account),
      (xs.foldl (refund S m mid) a).openOrders.lookup mid' = a.openOrders.lookup mid'
  | [], _ => rfl
  | x :: xs, a => by
    rw [List.foldl_cons, openOrders_refunds_of_ne m hne xs, refund,
      Account.lookup_forget_of_ne hne, Account.openOrders_credit]

/-- **One cancellation leaves what `Cancelled` says.** -/
theorem CancelRun.leaves (hB : BookLaws S) (hK : KeysLaw S) (h : CancelRun S c mid owner ids c')
    {seq : ℕ} (hm : MarketOk S seq h.m) :
    ∃ a', Cancelled S mid owner h.m h.a c ids c' h.market a' := by
  have hmarkets : c'.markets = c.markets.insert mid h.market := congrArg Contract.markets h.result
  have haccounts : c'.accounts = c.accounts.insert owner
      ((h.results.map CancelOrderResult.order).foldl (refund S h.m mid) h.kept) :=
    congrArg Contract.accounts h.result
  refine ⟨_, by rw [hmarkets, AList.lookup_insert], by rw [haccounts, AList.lookup_insert],
    fun mid' hne => by rw [hmarkets, AList.lookup_insert_ne hne],
    fun id hne => by rw [haccounts, AList.lookup_insert_ne hne], rfl,
    h.resting hB hm, fun k => ?_, fun mid' hne => ?_, fun o => ?_, fun ht => ?_, ?_⟩
  · rw [entry_refunds, h.forgets.balances]
    exact refundEntry_perm h.m k (h.cancelled_perm hB hm) _
  · rw [openOrders_refunds_of_ne h.m hne, h.forgets.lookup_of_ne hne]
  · have hgone : ∀ o ∈ (h.results.map CancelOrderResult.order).map OpenLimitOrder.id, o ∈ ids := by
      intro o ho
      obtain ⟨x, hx, rfl⟩ := List.mem_map.1 ho
      exact of_decide_eq_true (List.mem_filter.1 ((h.cancelled_perm hB hm).mem_iff.1 hx)).2
    rw [getOrderInfo_refunds, h.forgets.getOrderInfo hK]
    by_cases ho : o ∈ ids
    · simp [ho]
    · have hno : o ∉ (h.results.map CancelOrderResult.order).map OpenLimitOrder.id :=
        fun hc => ho (hgone o hc)
      rw [if_neg fun hc => hno hc.2, if_neg fun hc => ho hc.2, if_neg ho]
  · exact (index_refunds h.m _ (h.forgets.tidy ht)).1
  · rw [storageBalance_refunds, h.forgets.storageBalance]

/-- Cancelling one by one leaves the same. -/
theorem cancelEachOrder_leaves (hB : BookLaws S) (hK : KeysLaw S) :
    ∀ {ids : List OrderId} {c c' : Contract B} {m : Market B} {a : Account}, BooksOk S c →
    c.markets.lookup mid = some m → c.accounts.lookup env.predecessorAccountId = some a →
    cancelEachOrder S env mid c ids = .ok c' →
    ∃ m' a', Cancelled S mid env.predecessorAccountId m a c ids c' m' a'
  | [], c, c', m, a, _, hm, ha, h => by
    simp only [cancelEachOrder, Checked.pure_eq_ok] at h
    subst h
    exact ⟨m, a, .refl hm ha⟩
  | id :: ids, c, c', m, a, hc, hm, ha, h => by
    simp only [cancelEachOrder, Checked.bind_eq_ok] at h
    obtain ⟨c₁, h1, h2⟩ := h
    have hc₁ := (cancelOrder_does h1).booksOk hB hc
    simp only [cancelOrder, Checked.bind_eq_ok] at h1
    obtain ⟨_, -, h1⟩ := h1
    obtain ⟨run⟩ := internalCancelOrder_ok h1
    cases hm.symm.trans run.found
    cases ha.symm.trans run.account
    obtain ⟨a₁, hfirst⟩ := run.leaves hB hK (hc mid _ run.found)
    obtain ⟨m', a', hrest⟩ := cancelEachOrder_leaves hB hK hc₁ hfirst.found hfirst.account h2
    exact ⟨m', a', hfirst.trans hrest⟩

/-! ## Alike states -/

/-- Accounts with the same entries, in whatever order. -/
structure Account.Alike (a a' : Account) : Prop where
  balances : ∀ k, a'.balances.lookup k = a.balances.lookup k
  openOrders : ∀ mid, a'.openOrders.lookup mid = a.openOrders.lookup mid
  storageBalance : a'.storageBalance = a.storageBalance

/-- Markets with the same resting orders. -/
structure Market.Alike (S : Sdk B) (m m' : Market B) : Prop where
  market : m' = { m with orderbook := m'.orderbook }
  resting : ∀ side, S.resting m'.orderbook side = S.resting m.orderbook side

/-- States with the same accounts and markets. -/
structure Contract.Alike (S : Sdk B) (c c' : Contract B) : Prop where
  accounts : ∀ id, Option.Rel Account.Alike (c.accounts.lookup id) (c'.accounts.lookup id)
  markets : ∀ mid, Option.Rel (Market.Alike S) (c.markets.lookup mid) (c'.markets.lookup mid)

/-- A market without records is not listed. -/
theorem Account.Tidy.lookup_eq_none (ht : a.Tidy) (h : ∀ o, a.getOrderInfo mid o = none) :
    a.openOrders.lookup mid = none := by
  rcases hos : a.openOrders.lookup mid with _ | os
  · rfl
  · refine absurd ((HMap.keys_eq_nil_iff os).2 fun o => ?_) (ht mid os hos)
    have ho := h o
    rw [getOrderInfo, hos] at ho
    exact ho

/-- **Cancelling all recorded orders leaves the same in any order.** -/
theorem Cancelled.alike {ids' : List OrderId} {c₁ c₂ : Contract B} {m₁ m₂ : Market B}
    {a₁ a₂ : Account} (h₁ : Cancelled S mid owner m a c ids c₁ m₁ a₁)
    (h₂ : Cancelled S mid owner m a c ids' c₂ m₂ a₂) (hperm : ids'.Perm ids) (ht : a.Tidy)
    (hall : ∀ o i, a.getOrderInfo mid o = some i → o ∈ ids) : c₁.Alike S c₂ := by
  have hmem : ∀ o, decide (o ∈ ids') = decide (o ∈ ids) := fun o =>
    decide_eq_decide.2 hperm.mem_iff
  have hnone : ∀ o, (if o ∈ ids then none else a.getOrderInfo mid o) = none := by
    intro o
    split_ifs with ho
    · rfl
    · rcases hi : a.getOrderInfo mid o with _ | i
      · rfl
      · exact absurd (hall o i hi) ho
  have haccount : Account.Alike a₁ a₂ := by
    refine ⟨fun k => ?_, fun mid' => ?_, h₂.storage.trans h₁.storage.symm⟩
    · rw [h₂.balances, h₁.balances]
      simp only [hmem]
    · by_cases hmid : mid' = mid
      · subst hmid
        rw [(h₁.tidy ht).lookup_eq_none fun o => (h₁.records o).trans (hnone o),
          (h₂.tidy ht).lookup_eq_none fun o => by
            rw [h₂.records]
            simp only [hperm.mem_iff]
            exact hnone o]
      · rw [h₂.openOrders mid' hmid, h₁.openOrders mid' hmid]
  have hmarket : Market.Alike S m₁ m₂ := by
    refine ⟨by rw [h₂.market, h₁.market], fun side => ?_⟩
    rw [h₂.resting, h₁.resting]
    simp only [hperm.mem_iff]
  constructor
  · intro id
    by_cases hid : id = owner
    · rw [hid, h₁.account, h₂.account]
      exact .some haccount
    · rw [h₁.accounts id hid, h₂.accounts id hid]
      rcases c.accounts.lookup id with _ | a
      · exact .none
      · exact .some ⟨fun _ => rfl, fun _ => rfl, rfl⟩
  · intro mid'
    by_cases hmid : mid' = mid
    · rw [hmid, h₁.found, h₂.found]
      exact .some hmarket
    · rw [h₁.markets mid' hmid, h₂.markets mid' hmid]
      rcases c.markets.lookup mid' with _ | m
      · exact .none
      · exact .some ⟨rfl, fun _ => rfl⟩

/-! ## Cancelling all orders -/

/-- **All orders of an account are cancelled, up to the saving of the account**,
    if they rest and their refunds fit. -/
theorem internalCancelAllOrders_eq (hB : BookLaws S) (hT : TokenLaws S) (hK : KeysLaw S) {seq : ℕ}
    (hm : c.markets.lookup mid = some m) (hst : m.state = .active ∨ m.state = .cancelOnly)
    (ha : c.accounts.lookup owner = some a) (hok : MarketOk S seq m)
    (hf : ∀ x ∈ S.orders m.orderbook, m.Fits x)
    (hrests : ∀ o i, a.getOrderInfo mid o = some i →
      ∃ x ∈ S.orders m.orderbook, x.id = o ∧ x.ownerId = owner)
    (hsum : ∀ side, a.getBalance S (m.sideToken side) +
      refundCredits S m (a.removeAllOrderInfos S mid).1 (m.sideToken side) < 2 ^ 128) :
    ∃ (rs : List CancelOrderResult) (b : B),
      S.cancelEach m.orderbook (a.removeAllOrderInfos S mid).1 =
        (rs.map CancelOrderResult.order, b) ∧
      internalCancelAllOrders S c mid owner = (do
        let c ← (c.internalSaveMarket mid { m with orderbook := b }).internalSaveAccount S owner
          ((rs.map CancelOrderResult.order).foldl (refund S m mid) (a.removeAllOrderInfos S mid).2)
        return ((a.removeAllOrderInfos S mid).1, c)) := by
  have hforgets := removeAllOrderInfos_forgets (S := S) a mid
  obtain ⟨hnodup, hrecorded⟩ := hforgets.recorded hK
  rcases hro : a.removeAllOrderInfos S mid with ⟨ids, kept⟩
  rw [hro] at hforgets hnodup hrecorded hsum
  have hown : ∀ x ∈ S.orders m.orderbook, x.id ∈ ids → x.ownerId = owner := by
    intro x hx hid
    obtain ⟨i, hi⟩ := hrecorded x.id hid
    obtain ⟨y, hy, hyid, hyown⟩ := hrests x.id i hi
    rw [← List.inj_on_of_nodup_map hok.nodup hy hx hyid]
    exact hyown
  have hids : ∀ id ∈ ids, id ∈ S.ids m.orderbook := by
    intro id hid
    obtain ⟨i, hi⟩ := hrecorded id hid
    obtain ⟨x, hx, hxid, -⟩ := hrests id i hi
    exact Sdk.mem_ids.2 ⟨x, hx, hxid⟩
  obtain ⟨⟨rs, b⟩, hcancel⟩ := hB.cancel_resting hok.nodup hnodup hids
  have heach := hB.cancel_each hcancel
  obtain ⟨hrefundable, htotal⟩ := cancelled_refundable hB hok hf hown heach
    (hB.cancel_prices hok.nodup hcancel)
  obtain ⟨es, hrefunds⟩ := processRefunds_eq hT mid (a := kept) hrefundable (fun o _ => by
    rw [htotal, Account.getBalance, Account.balance, hforgets.balances]
    exact hsum o.order.side) []
  have hsame : processRefund S { m with orderbook := b } mid owner =
      processRefund S m mid owner := rfl
  refine ⟨rs, b, heach, ?_⟩
  unfold internalCancelAllOrders processRefunds Market.assertCanCancel
  rw [Contract.internalUnwrapMarket_eq_ok.2 hm, Checked.ok_bind, assert, Checked.require_pos hst,
    Checked.ok_bind, Contract.internalUnwrapAccount_eq_ok.2 ha, Checked.ok_bind, hro]
  simp only [hcancel, hsame, hrefunds, Checked.ok_bind]

/-! ## Storage -/

/-- What the refunds of orders add to the size of an account. -/
def Market.newEntries (S : Sdk B) (m : Market B) (a : Account) (xs : List OpenLimitOrder) : ℕ :=
  a.missingAll S (xs.map fun x => S.key (m.sideToken x.side))

/-- The storage balance has room for the account without its orders in a market,
    and with the entries that their refunds need. -/
def Account.RoomForAll (S : Sdk B) (m : Market B) (a : Account) (mid : MarketId)
    (xs : List OpenLimitOrder) : Prop :=
  ({ a with openOrders := a.openOrders.erase mid }.borshSize S + m.newEntries S a xs) *
    S.storageByteCost ≤ a.storageBalance

instance (m : Market B) (a : Account) (mid : MarketId) (xs : List OpenLimitOrder) :
    Decidable (a.RoomForAll S m mid xs) := inferInstanceAs (Decidable (_ ≤ _))

theorem Market.newEntries_perm (m : Market B) (a : Account) (h : xs.Perm ys) :
    m.newEntries S a xs = m.newEntries S a ys :=
  (((h.map _).dedup).map _).sum_eq

/-- **Refunds add the entries they need.** -/
theorem borshSize_refunds (hZ : SizeLaws S) :
    ∀ (xs : List OpenLimitOrder) {a : Account}, (∀ o, a.getOrderInfo mid o = none) →
      (xs.foldl (refund S m mid) a).borshSize S = a.borshSize S + m.newEntries S a xs
  | [], a, _ => by simp [Market.newEntries, Account.missingAll]
  | x :: xs, a, ha => by
    have hcredit : refund S m mid a x =
        a.credit (S.key (m.sideToken x.side)) (m.restingValue x.side x) := by
      obtain ⟨-, he⟩ | ⟨os, i, hos, hi, -⟩ := Account.forget_cases
        (a.credit (S.key (m.sideToken x.side)) (m.restingValue x.side x)) mid x.id
      · exact he
      · have hnone := ha x.id
        rw [Account.getOrderInfo, ← Account.openOrders_credit, hos] at hnone
        exact absurd (hi.symm.trans hnone) (Option.some_ne_none i)
    -- the first credit makes the entry, if it is missing
    have hentries := Account.missingAll_credit (S := S) a (S.key (m.sideToken x.side))
      (m.restingValue x.side x) (xs.map fun x => S.key (m.sideToken x.side))
    have ih := borshSize_refunds hZ xs
      (a := a.credit (S.key (m.sideToken x.side)) (m.restingValue x.side x)) ha
    rw [List.foldl_cons, hcredit, ih, Account.borshSize_credit hZ, Market.newEntries,
      Market.newEntries, List.map_cons, ← hentries, Nat.add_assoc]

/-- The account after `cancel_all_orders` is covered just in case there is room. -/
theorem refunds_covered_iff (hZ : SizeLaws S) (mid : MarketId) (a : Account)
    (hperm : xs.Perm ys) :
    (xs.foldl (refund S m mid) (a.removeAllOrderInfos S mid).2).isStorageCovered S ↔
      a.RoomForAll S m mid ys := by
  have hkept : (a.removeAllOrderInfos S mid).2 =
      { a with openOrders := a.openOrders.erase mid } := by
    unfold Account.removeAllOrderInfos
    rcases hos : a.openOrders.lookup mid with _ | os
    · dsimp only
      rw [HMap.erase_of_none hos]
    · rfl
  have hnone : ∀ o,
      ({ a with openOrders := a.openOrders.erase mid } : Account).getOrderInfo mid o = none := by
    intro o
    rw [Account.getOrderInfo, AList.lookup_erase]
    rfl
  have hentries : m.newEntries S { a with openOrders := a.openOrders.erase mid } xs =
      m.newEntries S a ys := m.newEntries_perm a hperm
  unfold Account.isStorageCovered Account.storageBalanceLocked Account.RoomForAll
  rw [hkept, borshSize_refunds hZ xs hnone, hentries, storageBalance_refunds]

/-! ## Agreement -/

/-- `cancel_all_orders` returned the ids of all orders of the account, and
    changed no other account and no other market. -/
structure AllCancelled (S : Sdk B) (c : Contract B) (mid : MarketId) (m : Market B)
    (owner : AccountId) (ids : List OrderId) (c' : Contract B) : Prop where
  nodup : ids.Nodup
  recorded : ∀ o, o ∈ ids ↔ ∃ i, (c.accountOf owner).getOrderInfo mid o = some i
  resting : ∀ o, o ∈ ids ↔ ∃ x ∈ S.orders m.orderbook, x.ownerId = owner ∧ x.id = o
  markets : ∀ mid', mid' ≠ mid → c'.markets.lookup mid' = c.markets.lookup mid'
  accounts : ∀ id, id ≠ owner → c'.accounts.lookup id = c.accounts.lookup id

/-- The orders that `cancel_all_orders` looks up are all orders of the account. -/
theorem Indexed.all_orders (hK : KeysLaw S) (h : Indexed S c) (hm : c.markets.lookup mid = some m)
    (ha : c.accounts.lookup owner = some a) : (a.removeAllOrderInfos S mid).1.Nodup ∧
      (∀ o, o ∈ (a.removeAllOrderInfos S mid).1 ↔ ∃ i, a.getOrderInfo mid o = some i) ∧
      ∀ o, o ∈ (a.removeAllOrderInfos S mid).1 ↔
        ∃ x ∈ S.orders m.orderbook, x.ownerId = owner ∧ x.id = o := by
  have hforgets := removeAllOrderInfos_forgets (S := S) a mid
  obtain ⟨hnodup, hmem⟩ := hforgets.recorded hK
  have hall : ∀ o, (a.removeAllOrderInfos S mid).2.getOrderInfo mid o = none := by
    intro o
    unfold Account.removeAllOrderInfos
    rcases hos : a.openOrders.lookup mid with _ | os
    · simp only [Account.getOrderInfo, hos, Option.bind_none]
    · simp only [Account.getOrderInfo, AList.lookup_erase, Option.bind_none]
  have hrecorded : ∀ o, o ∈ (a.removeAllOrderInfos S mid).1 ↔
      ∃ i, a.getOrderInfo mid o = some i := by
    refine fun o => ⟨hmem o, ?_⟩
    rintro ⟨i, hi⟩
    by_contra hno
    have hkept := hforgets.getOrderInfo hK mid o
    rw [hall, if_neg fun hc => hno hc.2, hi] at hkept
    cases hkept
  refine ⟨hnodup, hrecorded, fun o => ?_⟩
  rw [hrecorded, ← accountOf_of_lookup ha]
  constructor
  · rintro ⟨i, hi⟩
    obtain ⟨m', x, hm', hx, hid, hown, -⟩ := h.recorded owner mid o i hi
    cases hm.symm.trans hm'
    exact ⟨x, hx, hown, hid⟩
  · rintro ⟨x, hx, rfl, rfl⟩
    exact h.rests mid m x hm hx

/-- What is cancelled then are the orders of the account. -/
theorem Account.cancelled_perm (hB : BookLaws S) {seq : ℕ} (hok : MarketOk S seq m)
    (hresting : ∀ o, o ∈ (a.removeAllOrderInfos S mid).1 ↔
      ∃ x ∈ S.orders m.orderbook, x.ownerId = owner ∧ x.id = o) {os : List OpenLimitOrder}
    {b : B} (heach : S.cancelEach m.orderbook (a.removeAllOrderInfos S mid).1 = (os, b)) :
    os.Perm ((S.orders m.orderbook).filter (·.ownerId = owner)) := by
  refine (cancelEach_spec hB hok.nodup heach).2.trans (List.Perm.of_eq ?_)
  refine List.filter_congr fun x hx => decide_eq_decide.2 ?_
  rw [hresting]
  constructor
  · rintro ⟨y, hy, hown, hid⟩
    rw [← List.inj_on_of_nodup_map hok.nodup hy hx hid]
    exact hown
  · exact fun hown => ⟨x, hx, hown, rfl⟩

/-- **Cancelling all orders agrees with cancelling them one by one just in case
    the contract is active and there is room.**  In every run that keeps refunds
    and deletes no market with resting orders, for a market in which orders can be
    cancelled and an account: `cancel_all_orders` succeeds, returns each open order
    of the account in the market once, and leaves the same as `cancel_order` on each
    of them in any order in which all calls succeed, if and only if the contract is
    active, and the storage balance covers the account without these orders and with
    the entries that their refunds need. -/
theorem cancel_all_orders_iff (hB : BookLaws S) (hT : TokenLaws S) (hZ : SizeLaws S)
    (hK : KeysLaw S) (env : Env) {s : System B}
    (hs : System.Reach S (fun s ev => KeepsRefunds S s ev ∧ DeletesEmpty S s ev) s)
    (hstate : s.contract.state = .active ∨ s.contract.state = .cancelOnly)
    (hm : s.contract.markets.lookup mid = some m)
    (hst : m.state = .active ∨ m.state = .cancelOnly)
    (ha : s.contract.accounts.lookup env.predecessorAccountId = some a)
    (hsupply : ∀ side, s.received (m.sideToken side) < 2 ^ 128 + s.sent (m.sideToken side)) :
    (∃ ids c', cancelAllOrders S env s.contract mid = .ok (ids, c') ∧
        AllCancelled S s.contract mid m env.predecessorAccountId ids c' ∧
        ∀ ids' c'', ids'.Perm ids → cancelEachOrder S env mid s.contract ids' = .ok c'' →
          c'.Alike S c'') ↔
      s.contract.state = .active ∧ a.RoomForAll S m mid
        ((S.orders m.orderbook).filter (·.ownerId = env.predecessorAccountId)) := by
  have hrefunds := Runs.Reach.imp (fun _ _ _ h => h.1) hs
  have hbacked := backed_of_reach hB hT (fun _ _ h => h.2) hrefunds
  have hok := hbacked.books mid m hm
  have hindexed := indexed_of_reach hB hK (Runs.Reach.imp (fun _ _ _ h => h.2) hs)
  obtain ⟨hnodup, hrecorded, hresting⟩ := hindexed.all_orders hK hm ha
  obtain ⟨rs, b, heach, heq⟩ := internalCancelAllOrders_eq hB hT hK hm hst ha hok
    (fun y hy => ordersFit_of_reach hB hrefunds mid m y hm hy) (fun o i hi => by
      obtain ⟨x, hx, hown, hid⟩ := (hresting o).1 ((hrecorded o).2 ⟨i, hi⟩)
      exact ⟨x, hx, hid, hown⟩)
    fun side => hbacked.refund_fits (hsupply side) ha hm _
  rw [← refunds_covered_iff hZ mid a
    (Account.cancelled_perm hB hok hresting heach)]
  constructor
  · rintro ⟨ids, c', hcancel, -⟩
    simp only [cancelAllOrders, Contract.assertActive, Checked.bind_eq_ok, Checked.require_eq_ok,
      heq, Contract.internalSaveAccount_eq_ok] at hcancel
    obtain ⟨_, hactive, _, -, _, ⟨hcov, -⟩, -⟩ := hcancel
    exact ⟨hactive, hcov⟩
  · rintro ⟨hactive, hcov⟩
    obtain ⟨c', hinternal⟩ : ∃ c', internalCancelAllOrders S s.contract mid
        env.predecessorAccountId = .ok ((a.removeAllOrderInfos S mid).1, c') :=
      ⟨_, heq.trans (by rw [Contract.internalSaveAccount_eq_ok.2 ⟨hcov, rfl⟩]; rfl)⟩
    have hcancel : cancelAllOrders S env s.contract mid =
        .ok ((a.removeAllOrderInfos S mid).1, c') := by
      rw [cancelAllOrders, Contract.assertActive, assert, Checked.require_pos hactive,
        Checked.ok_bind, Contract.assertCanCancel, assert, Checked.require_pos hstate,
        Checked.ok_bind]
      exact hinternal
    obtain ⟨run⟩ := internalCancelAllOrders_ok hB hinternal
    have hrm : run.m = m := Option.some.inj (run.found.symm.trans hm)
    have hra : run.a = a := Option.some.inj (run.account.symm.trans ha)
    obtain ⟨a', hleaves⟩ := run.leaves hB hK (hrm ▸ hok)
    rw [hrm, hra] at hleaves
    have hacc := accountOf_of_lookup ha
    refine ⟨_, _, hcancel, ⟨hnodup, fun o => ?_, hresting, hleaves.markets, hleaves.accounts⟩,
      fun ids' c'' hperm heach' => ?_⟩
    · rw [hacc]
      exact hrecorded o
    · obtain ⟨m₂, a₂, hleaves'⟩ := cancelEachOrder_leaves hB hK hbacked.books hm ha heach'
      exact hleaves.alike hleaves' hperm (hacc ▸ hindexed.tidy _)
        fun o i hi => (hrecorded o).2 ⟨i, hi⟩

/-- Alice asks 40 and bids 20. -/
def bothSides : List Event := Engine.listed ++ [Engine.pay Engine.btc Engine.alice 1000,
  Engine.pay Engine.usd Engine.alice 100000,
  .call (Engine.calling Engine.alice 0)
    (.newOrder Engine.btcUsd (Engine.order .sell .limit 40 500 none)),
  .call (Engine.calling Engine.alice 0)
    (.newOrder Engine.btcUsd (Engine.order .buy .limit 20 500 none))]

/-- She takes both orders off at once, or one after the other. -/
theorem cancel_all_orders_both : ∃ ids c', cancelAllOrders Engine.sdk
    (Engine.calling Engine.alice 0) (Engine.run bothSides).contract Engine.btcUsd = .ok (ids, c') ∧
    ∀ ids' c'', ids'.Perm ids → cancelEachOrder Engine.sdk (Engine.calling Engine.alice 0)
      Engine.btcUsd (Engine.run bothSides).contract ids' = .ok c'' → c'.Alike Engine.sdk c'' := by
  have hevents : ∀ e ∈ bothSides, ∀ s : System Engine.Book, NoDelete s e ∧ e.Typed := by
    refine fun e he s => ⟨?_, by revert e; decide⟩
    rintro env mid rfl
    simp [bothSides, Engine.listed, Engine.register, Engine.pay] at he
  have hreach := Runs.Reach.imp (fun s ev hs hev =>
      (⟨keepsRefunds_of_noDelete Engine.bookLaws Engine.tokenLaws hs hev,
        fun env mid _ he => absurd he (hev.1 env mid)⟩ :
        KeepsRefunds Engine.sdk s ev ∧ DeletesEmpty Engine.sdk s ev))
    (Engine.reach_run hevents)
  have hmarket : ((Engine.run bothSides).contract.markets.lookup Engine.btcUsd).map (fun m =>
      (m.state, m.baseToken.tokenType, m.quoteToken.tokenType)) =
        some (.active, .fungibleToken Engine.btc, .fungibleToken Engine.usd) := by decide +kernel
  have hroom : ((Engine.run bothSides).contract.accounts.lookup Engine.alice).bind (fun a =>
      ((Engine.run bothSides).contract.markets.lookup Engine.btcUsd).map fun m =>
        decide (a.RoomForAll Engine.sdk m Engine.btcUsd ((Engine.sdk.orders m.orderbook).filter
          (·.ownerId = Engine.alice)))) = some true := by decide +kernel
  obtain ⟨m, hm, hmarket⟩ := Option.map_eq_some_iff.1 hmarket
  simp only [Prod.mk.injEq] at hmarket
  obtain ⟨hst, hbase, hquote⟩ := hmarket
  obtain ⟨a, ha, hroom⟩ := Option.bind_eq_some_iff.1 hroom
  rw [hm, Option.map_some, Option.some_inj, decide_eq_true_eq] at hroom
  have hactive : (Engine.run bothSides).contract.state = .active := by decide +kernel
  obtain ⟨ids, c', hcancel, -, hagree⟩ := (cancel_all_orders_iff Engine.bookLaws Engine.tokenLaws
    Engine.sizeLaws Engine.keysLaw (Engine.calling Engine.alice 0) hreach (.inl hactive) hm
    (.inl hst) ha (fun side => by
      rcases side with _ | _
      · rw [Market.sideToken, hquote]
        decide +kernel
      · rw [Market.sideToken, hbase]
        decide +kernel)).2 ⟨hactive, hroom⟩
  exact ⟨ids, c', hcancel, hagree⟩

/-- While Alice's order rests, the owner lets orders be cancelled only. -/
def cancelOnly : List Event := Engine.asked ++
  [.call (Engine.calling Engine.dao 0) (.setContractState .cancelOnly)]

/-- She can take it off by its id, but not with all her orders. -/
theorem cancel_all_orders_stopped : System.Reachable Engine.sdk (Engine.run cancelOnly) ∧
    (Engine.run cancelOnly).contract.state = .cancelOnly ∧
    ((Engine.run cancelOnly).contract.markets.lookup Engine.btcUsd).map (fun m =>
      (m.state, Engine.sdk.orders m.orderbook)) =
        some (.active, [⟨1, Engine.alice, .sell, 2, 1000, none⟩]) ∧
    (cancelOrder Engine.sdk (Engine.calling Engine.alice 0) (Engine.run cancelOnly).contract
      Engine.btcUsd 1).isOk = true ∧
    cancelAllOrders Engine.sdk (Engine.calling Engine.alice 0) (Engine.run cancelOnly).contract
      Engine.btcUsd = .error (.message "Contract is not active") :=
  ⟨Engine.reachable_run cancelOnly, by decide +kernel, by decide +kernel, by decide +kernel,
    Engine.eq_error_of_stoppedBy (by decide +kernel)⟩

end TonicDex
