/-
  What cancelling does.

  `CancelRun` describes `internal_cancel_order` and `internal_cancel_all_orders`
  at once: the account forgets some of its orders in a market, the book cancels
  them one after the other, and the account is credited what each one locked.
-/
import TonicDex.Spec.Orders

namespace TonicDex

variable {B : Type} {S : Sdk B} {c c' : Contract B} {mid : MarketId} {m : Market B}
  {a a' : Account} {owner : AccountId} {ids : List OrderId} {id : OrderId} {o : OpenLimitOrder}

/-! ## Refunds -/

namespace Market

variable (m : Market B)

/-- The token that orders of a side lock. -/
def sideToken : Side → TokenType
  | .buy => m.quoteToken.tokenType
  | .sell => m.baseToken.tokenType

/-- The native amount that a resting order of a side locks. -/
def restingValue (side : Side) (o : OpenLimitOrder) : ℕ :=
  match side with
  | .buy => quoteValue o.openQtyLots o.limitPriceLots m.quoteToken.lotSize m.baseToken.lotSize
      m.denom
  | .sell => o.openQtyLots * m.baseToken.lotSize

end Market

theorem getRefundAmount_ok {n : ℕ} {t : TokenType} (h : getRefundAmount m o = .ok (n, t)) :
    n = m.restingValue o.side o ∧ t = m.sideToken o.side := by
  unfold getRefundAmount at h
  rcases hs : o.side with _ | _
  · rw [hs] at h
    simp only [Market.bidRefund, Checked.bind_eq_ok, Checked.fit_eq_ok,
      Market.baseDenomination_eq_ok, Checked.pure_eq_ok, Prod.mk.injEq] at h
    obtain ⟨_, ⟨_, ⟨-, rfl⟩, _, ⟨-, rfl⟩, _, ⟨-, rfl⟩, _, ⟨-, rfl⟩, -, rfl⟩, rfl, rfl⟩ := h
    exact ⟨rfl, rfl⟩
  · rw [hs] at h
    simp only [Checked.bind_eq_ok, Checked.fit_eq_ok, Checked.pure_eq_ok, Prod.mk.injEq] at h
    obtain ⟨_, ⟨-, rfl⟩, rfl, rfl⟩ := h
    exact ⟨rfl, rfl⟩

/-- The account credited for one cancelled order, which it forgets. -/
def refund (S : Sdk B) (m : Market B) (mid : MarketId) (a : Account) (o : OpenLimitOrder) :
    Account :=
  (a.credit (S.key (m.sideToken o.side)) (m.restingValue o.side o)).forget mid o.id

theorem processRefund_ok {r : CancelOrderResult} {es es' : List CancelEventData}
    (h : processRefund S m mid owner (es, a) r = .ok (es', a')) :
    r.order.ownerId = owner ∧ getRefundAmount m r.order =
        .ok (m.restingValue r.order.side r.order, m.sideToken r.order.side) ∧
      a' = refund S m mid a r.order := by
  simp only [processRefund, Checked.bind_eq_ok, Checked.require_eq_ok, Account.deposit_eq_ok,
    Checked.pure_eq_ok, Prod.mk.injEq] at h
  obtain ⟨_, hown, ⟨n, t⟩, hn, _, ⟨-, rfl⟩, _, -, _, -, -, rfl⟩ := h
  obtain ⟨rfl, rfl⟩ := getRefundAmount_ok hn
  exact ⟨hown, hn, rfl⟩

theorem processRefunds_ok : ∀ {rs : List CancelOrderResult} {es es' : List CancelEventData}
    {a a' : Account}, rs.foldlM (processRefund S m mid owner) (es, a) = .ok (es', a') →
    (∀ r ∈ rs, r.order.ownerId = owner ∧ getRefundAmount m r.order =
        .ok (m.restingValue r.order.side r.order, m.sideToken r.order.side)) ∧
      a' = (rs.map CancelOrderResult.order).foldl (refund S m mid) a
  | [], es, es', a, a', h => by
    simp only [List.foldlM_nil, Checked.pure_eq_ok, Prod.mk.injEq] at h
    obtain ⟨-, rfl⟩ := h
    exact ⟨fun r hr => (List.not_mem_nil hr).elim, rfl⟩
  | r :: rs, es, es', a, a', h => by
    simp only [List.foldlM_cons, Checked.bind_eq_ok] at h
    obtain ⟨⟨es₁, a₁⟩, h1, h2⟩ := h
    obtain ⟨hown, hamount, rfl⟩ := processRefund_ok h1
    obtain ⟨hrest, rfl⟩ := processRefunds_ok h2
    exact ⟨List.forall_mem_cons.2 ⟨⟨hown, hamount⟩, hrest⟩, rfl⟩

@[simp] theorem storageBalance_refund : (refund S m mid a o).storageBalance = a.storageBalance := by
  simp [refund]

theorem storageBalance_refunds (mid : MarketId) (m : Market B) :
    ∀ (xs : List OpenLimitOrder) (a : Account),
      (xs.foldl (refund S m mid) a).storageBalance = a.storageBalance
  | [], _ => rfl
  | x :: xs, a => by
    rw [List.foldl_cons, storageBalance_refunds mid m xs, storageBalance_refund]

theorem balance_refund (hS : TokenLaws S) (token : TokenType) :
    (refund S m mid a o).getBalance S token = a.getBalance S token +
      if token = m.sideToken o.side then m.restingValue o.side o else 0 := by
  simp only [refund, Account.getBalance, Account.balance_forget, Account.balance_credit,
    hS.key_injective.eq_iff]

theorem getOrderInfo_refund (m' : MarketId) (id : OrderId) :
    (refund S m mid a o).getOrderInfo m' id =
      if m' = mid ∧ id = o.id then none else a.getOrderInfo m' id :=
  Account.getOrderInfo_forget

/-! ## Forgetting orders -/

/-- The account forgets some of its orders in a market. -/
inductive Forgets (S : Sdk B) (mid : MarketId) (a : Account) : List OrderId → Account → Prop
  | one {id : OrderId} {i : OrderInfo} (recorded : a.getOrderInfo mid id = some i) :
      Forgets S mid a [id] (a.forget mid id)
  | all {os : OrderInfos} (recorded : a.openOrders.lookup mid = some os) :
      Forgets S mid a (S.intoKeys os) { a with openOrders := a.openOrders.erase mid }
  | none (recorded : a.openOrders.lookup mid = .none) : Forgets S mid a [] a

namespace Forgets

theorem balances (h : Forgets S mid a ids a') : a'.balances = a.balances := by
  cases h with
  | one => exact Account.balances_forget
  | all => rfl
  | none => rfl

theorem storageBalance (h : Forgets S mid a ids a') : a'.storageBalance = a.storageBalance := by
  cases h with
  | one => exact Account.storageBalance_forget
  | all => rfl
  | none => rfl

theorem tidy (h : Forgets S mid a ids a') (ht : a.Tidy) : a'.Tidy := by
  cases h with
  | one => exact Account.tidy_forget ht
  | all =>
    intro m os hm
    by_cases hmm : m = mid
    · subst hmm; rw [AList.lookup_erase] at hm; cases hm
    · rw [AList.lookup_erase_ne hmm] at hm; exact ht m os hm
  | none => exact ht

theorem ordersIn_le (h : Forgets S mid a ids a') (m : MarketId) :
    a'.ordersIn m ≤ a.ordersIn m := by
  cases h with
  | one => exact Account.ordersIn_forget_le
  | all =>
    by_cases hmm : m = mid
    · subst hmm; rw [Account.ordersIn, AList.lookup_erase]; exact Nat.zero_le _
    · rw [Account.ordersIn, AList.lookup_erase_ne hmm, Account.ordersIn]
  | none => exact le_rfl

/-- Forgotten orders were recorded, each listed once. -/
theorem recorded (hS : KeysLaw S) (h : Forgets S mid a ids a') :
    ids.Nodup ∧ ∀ id ∈ ids, ∃ i, a.getOrderInfo mid id = some i := by
  cases h with
  | @one id i hi =>
    refine ⟨List.nodup_singleton _, fun id' h' => ⟨i, ?_⟩⟩
    rw [List.mem_singleton.1 h']; exact hi
  | @all os hos =>
    refine ⟨(hS os).nodup_iff.2 os.nodupKeys, fun id hid => ?_⟩
    obtain ⟨i, hi⟩ := (HMap.mem_keys_iff os id).1 ((hS os).mem_iff.1 hid)
    exact ⟨i, by rw [Account.getOrderInfo, hos]; exact hi⟩
  | none => exact ⟨List.nodup_nil, fun id hid => (List.not_mem_nil hid).elim⟩

theorem getOrderInfo (hS : KeysLaw S) (h : Forgets S mid a ids a') (m : MarketId)
    (id : OrderId) :
    a'.getOrderInfo m id = if m = mid ∧ id ∈ ids then .none else a.getOrderInfo m id := by
  cases h with
  | one => rw [Account.getOrderInfo_forget]; simp only [List.mem_singleton]
  | @all os hos =>
    simp only [Account.getOrderInfo, HMap.lookup_erase_eq]
    by_cases hm : m = mid
    · subst hm
      rw [if_pos rfl, hos]
      simp only [true_and, Option.bind_none, Option.bind_some]
      split_ifs with hid
      · rfl
      · rcases hi : os.lookup id with _ | i
        · rfl
        · exact absurd ((hS os).mem_iff.2 ((HMap.mem_keys_iff os id).2 ⟨i, hi⟩)) hid
    · rw [if_neg hm, if_neg fun hc => hm hc.1]
  | none => simp

theorem lookup_of_ne (h : Forgets S mid a ids a') {m : MarketId} (hne : m ≠ mid) :
    a'.openOrders.lookup m = a.openOrders.lookup m := by
  cases h with
  | one => exact Account.lookup_forget_of_ne hne
  | all => exact AList.lookup_erase_ne hne
  | none => rfl

end Forgets

theorem removeAllOrderInfos_forgets (a : Account) (mid : MarketId) :
    Forgets S mid a (a.removeAllOrderInfos S mid).1 (a.removeAllOrderInfos S mid).2 := by
  unfold Account.removeAllOrderInfos
  rcases hos : a.openOrders.lookup mid with _ | os
  · exact .none hos
  · exact .all hos

/-! ## Cancelling -/

/-- What cancelling the orders `ids` of an account does. -/
structure CancelRun (S : Sdk B) (c : Contract B) (mid : MarketId) (owner : AccountId)
    (ids : List OrderId) (c' : Contract B) where
  m : Market B
  a : Account
  kept : Account
  results : List CancelOrderResult
  book : B
  found : c.markets.lookup mid = some m
  state : m.state = .active ∨ m.state = .cancelOnly
  account : c.accounts.lookup owner = some a
  forgets : Forgets S mid a ids kept
  cancelled : S.cancelEach m.orderbook ids = (results.map CancelOrderResult.order, book)
  amounts : ∀ r ∈ results, r.order.ownerId = owner ∧ getRefundAmount m r.order =
    .ok (m.restingValue r.order.side r.order, m.sideToken r.order.side)
  covered : ((results.map CancelOrderResult.order).foldl (refund S m mid)
    kept).isStorageCovered S
  result : c' = (c.internalSaveMarket mid { m with orderbook := book }).putAccount owner
    ((results.map CancelOrderResult.order).foldl (refund S m mid) kept)

theorem internalCancelAllOrders_ok (hS : BookLaws S)
    (h : internalCancelAllOrders S c mid owner = .ok (ids, c')) :
    Nonempty (CancelRun S c mid owner ids c') := by
  simp only [internalCancelAllOrders, Market.assertCanCancel, Checked.bind_eq_ok,
    Contract.internalUnwrapMarket_eq_ok, Checked.require_eq_ok,
    Contract.internalUnwrapAccount_eq_ok, Contract.internalSaveAccount_eq_ok,
    Checked.pure_eq_ok, Prod.mk.injEq] at h
  obtain ⟨m, hm, _, hst, a, ha, ⟨rs, b⟩, hb, ⟨es, a₁⟩, hrf, _, ⟨hcov, rfl⟩, rfl, rfl⟩ := h
  obtain ⟨hown, rfl⟩ := processRefunds_ok hrf
  exact ⟨⟨m, a, _, rs, b, hm, hst, ha, removeAllOrderInfos_forgets a mid, hS.cancel_each hb, hown,
    hcov, rfl⟩⟩

theorem internalCancelOrder_ok (h : internalCancelOrder S c mid owner id = .ok c') :
    Nonempty (CancelRun S c mid owner [id] c') := by
  simp only [internalCancelOrder, Market.assertCanCancel, Checked.bind_eq_ok,
    Contract.internalUnwrapMarket_eq_ok, Checked.require_eq_ok,
    Contract.internalUnwrapAccount_eq_ok] at h
  obtain ⟨m, hm, _, hst, a, ha, h⟩ := h
  have hfst : (a.removeOrderInfo mid id).1 = _ := Account.removeOrderInfo_fst
  rcases hro : a.removeOrderInfo mid id with ⟨_ | id', a₁⟩
  · rw [hro] at h; cases h
  rw [hro] at h hfst
  obtain ⟨i, hi, rfl⟩ := Option.map_eq_some_iff.1 hfst.symm
  rcases hc : S.cancelOrder m.orderbook id with ⟨r, b⟩
  simp only [hc, Checked.bind_eq_ok, Checked.expect_eq_ok, processRefunds,
    Contract.internalSaveAccount_eq_ok] at h
  obtain ⟨r, rfl, ⟨es, a₂⟩, hrf, hcov, rfl⟩ := h
  obtain ⟨hown, rfl⟩ := processRefunds_ok hrf
  have ha₁ : a₁ = a.forget mid id := by rw [Account.forget, hro]
  have hcancel : S.cancelEach m.orderbook [id] = ([r].map CancelOrderResult.order, b) := by
    simp [Sdk.cancelEach, hc]
  exact ⟨⟨m, a, a₁, [r], b, hm, hst, ha, ha₁ ▸ .one hi, hcancel, hown, hcov, rfl⟩⟩

end TonicDex
