/-
  Contracts that are not active.

  While the contract is not active, the calls of others than the owner can do no
  more than cancel the caller's own orders (`dispatch_halted`), and callbacks
  credit failed transfers or initialise markets.  So without calls of the owner
  the contract only winds down (`halted_winds_down`), and a paused one stands
  still (`paused_stands_still`).
-/
import TonicDex.Invariant.Access

namespace TonicDex

variable {B : Type} {S : Sdk B} {c c₁ c₂ c' : Contract B} {env : Env} {op : Op}
  {ps : List Promise} {mid : MarketId} {m m₁ m₂ m' : Market B} {s s₀ s' : System B} {p : Promise}

/-! ## Calls -/

/-- Cancellations of orders of the caller, one after another, in a contract that
    allows them only. -/
inductive OwnCancels (S : Sdk B) (env : Env) : Contract B → Contract B → Prop
  | nil (c : Contract B) : OwnCancels S env c c
  | cons {c c₁ c' : Contract B} {mid : MarketId} {id : OrderId} (state : c.state = .cancelOnly)
      (run : CancelRun S c mid env.predecessorAccountId [id] c₁)
      (tail : OwnCancels S env c₁ c') : OwnCancels S env c c'

theorem OwnCancels.append (h : OwnCancels S env c c₁) (h' : OwnCancels S env c₁ c') :
    OwnCancels S env c c' := by
  induction h with
  | nil c => exact h'
  | cons state run _ ih => exact .cons state run (ih h')

theorem OwnCancels.state_eq (h : OwnCancels S env c c') : c'.state = c.state := by
  induction h with
  | nil c => rfl
  | cons state run _ ih =>
    rw [ih, run.result]
    rfl

theorem cancelOrder_halted {id : OrderId} (hstate : c.state ≠ .active)
    (h : cancelOrder S env c mid id = .ok c') : OwnCancels S env c c' := by
  simp only [cancelOrder, Contract.assertCanCancel, Checked.bind_eq_ok,
    Checked.require_eq_ok] at h
  obtain ⟨_, hcan, h⟩ := h
  obtain ⟨run⟩ := internalCancelOrder_ok h
  exact .cons (hcan.resolve_left hstate) run (.nil _)

theorem cancelEachOrder_halted : ∀ {ids : List OrderId} {c c' : Contract B},
    c.state ≠ .active → cancelEachOrder S env mid c ids = .ok c' → OwnCancels S env c c'
  | [], c, c', _, h => by
    simp only [cancelEachOrder, Checked.pure_eq_ok] at h
    subst h
    exact .nil _
  | id :: ids, c, c', hstate, h => by
    simp only [cancelEachOrder, Checked.bind_eq_ok] at h
    obtain ⟨c₁, h1, h2⟩ := h
    have head := cancelOrder_halted hstate h1
    exact head.append (cancelEachOrder_halted (head.state_eq ▸ hstate) h2)

theorem executeAction_halted {action : Action} {r : ActionResult} (hstate : c.state ≠ .active)
    (h : executeAction S env c action = .ok (r, c')) : OwnCancels S env c c' := by
  obtain ⟨e, he⟩ : ∃ e, c.assertActive = .error e := ⟨_, if_neg hstate⟩
  cases action with
  | newOrder mid p =>
    simp only [executeAction, newOrder, he, Checked.error_bind] at h
    cases h
  | cancelOrders mid ids =>
    simp only [executeAction, Checked.bind_eq_ok, Checked.pure_eq_ok, Prod.mk.injEq] at h
    obtain ⟨c₁, h, -, rfl⟩ := h
    exact cancelEachOrder_halted hstate h
  | cancelAllOrders mid =>
    simp only [executeAction, cancelAllOrders, he, Checked.error_bind] at h
    cases h
  | swap swaps => cases h

theorem executeActions_halted : ∀ {actions : List Action} {c c' : Contract B}
    {rs : List ActionResult}, c.state ≠ .active →
      executeActions S env c actions = .ok (rs, c') → OwnCancels S env c c'
  | [], c, c', rs, _, h => by
    simp only [executeActions, Checked.pure_eq_ok, Prod.mk.injEq] at h
    obtain ⟨-, rfl⟩ := h
    exact .nil _
  | action :: actions, c, c', rs, hstate, h => by
    simp only [executeActions, Checked.bind_eq_ok, Checked.pure_eq_ok, Prod.mk.injEq] at h
    obtain ⟨⟨r, c₁⟩, h1, ⟨rs', c₂⟩, h2, -, rfl⟩ := h
    have head := executeAction_halted hstate h1
    exact head.append (executeActions_halted (head.state_eq ▸ hstate) h2)

/-- **While the contract is not active**, the calls of others than the owner can
    only cancel orders of the caller: nothing is promised and nothing taken in. -/
theorem dispatch_halted (hstate : c.state ≠ .active)
    (howner : env.predecessorAccountId ≠ c.ownerId) (h : dispatch S env c op = .ok (ps, c')) :
    ps = [] ∧ paidIn env op = [] ∧ OwnCancels S env c c' := by
  have hadmin : ¬ op.Admin := fun hop => howner (dispatch_admin hop h)
  obtain ⟨e, he⟩ : ∃ e, c.assertActive = .error e := ⟨_, if_neg hstate⟩
  cases op with
  | cancelOrder mid id =>
    simp only [dispatch, quiet, Checked.bind_eq_ok, Checked.pure_eq_ok, Prod.mk.injEq] at h
    obtain ⟨c₁, h, rfl, rfl⟩ := h
    exact ⟨rfl, rfl, cancelOrder_halted hstate h⟩
  | execute actions =>
    simp only [dispatch, quiet, execute, Checked.bind_eq_ok, Checked.map_eq_ok,
      Checked.pure_eq_ok, Prod.mk.injEq] at h
    obtain ⟨_, ⟨⟨rs, c₁⟩, ⟨_, -, h⟩, rfl⟩, rfl, rfl⟩ := h
    exact ⟨rfl, rfl, executeActions_halted hstate h⟩
  | setContractState | setOwner | setMarketState | setMarketBidWindow | setMarketAskWindow
  | adminDeleteMarket | adminCancelOrder | adminCancelAllUserOrders | adminClearOrderbook =>
    exact (hadmin trivial).elim
  | _ =>
    simp only [dispatch, quiet, depositNear, withdrawNear, withdrawFt, withdrawMt, ftOnTransfer,
      mtOnTransfer, swapNear, storageDeposit, storageWithdraw, storageUnregister, createMarket,
      newOrder, cancelAllOrders, he, Checked.error_bind, Checked.error_map] at h
    cases h

/-! ## Winding down -/

/-- The account has lost nothing: no tokens, and no storage. -/
structure Account.Whole (S : Sdk B) (a a' : Account) : Prop where
  balances : ∀ t, a.getBalance S t ≤ a'.getBalance S t
  storage : a'.storageBalance = a.storageBalance

/-- Of the market only resting orders are gone, whole ones. -/
structure Market.Emptied (S : Sdk B) (m m' : Market B) : Prop where
  terms : SameTerms m m'
  fees : m'.feesAccrued = m.feesAccrued
  orders : (S.orders m'.orderbook).Sublist (S.orders m.orderbook)

/-- From `c` to `c'` orders were cancelled, and no account lost anything. -/
structure WoundDown (S : Sdk B) (c c' : Contract B) : Prop where
  seq : c'.prevOrderSequenceNumber = c.prevOrderSequenceNumber
  markets : ∀ mid m, c.markets.lookup mid = some m →
    ∃ m', c'.markets.lookup mid = some m' ∧ m.Emptied S m'
  noMarket : ∀ mid, c.markets.lookup mid = none → c'.markets.lookup mid = none
  accounts : ∀ id a, c.accounts.lookup id = some a →
    ∃ a', c'.accounts.lookup id = some a' ∧ a.Whole S a'
  noAccount : ∀ id, c.accounts.lookup id = none → c'.accounts.lookup id = none

namespace WoundDown

theorem refl (c : Contract B) : WoundDown S c c where
  seq := rfl
  markets _ m hm := ⟨m, hm, .refl m, rfl, .refl _⟩
  noMarket _ hm := hm
  accounts _ a ha := ⟨a, ha, fun _ => le_rfl, rfl⟩
  noAccount _ ha := ha

theorem trans (h : WoundDown S c c₁) (h' : WoundDown S c₁ c₂) : WoundDown S c c₂ where
  seq := h'.seq.trans h.seq
  markets mid m hm := by
    obtain ⟨m₁, hm₁, h1⟩ := h.markets mid m hm
    obtain ⟨m₂, hm₂, h2⟩ := h'.markets mid m₁ hm₁
    exact ⟨m₂, hm₂, h1.terms.trans h2.terms, h2.fees.trans h1.fees, h2.orders.trans h1.orders⟩
  noMarket mid hm := h'.noMarket mid (h.noMarket mid hm)
  accounts id a ha := by
    obtain ⟨a₁, ha₁, h1⟩ := h.accounts id a ha
    obtain ⟨a₂, ha₂, h2⟩ := h'.accounts id a₁ ha₁
    exact ⟨a₂, ha₂, fun t => (h1.balances t).trans (h2.balances t), h2.storage.trans h1.storage⟩
  noAccount id ha := h'.noAccount id (h.noAccount id ha)

/-- A market and an account saved. -/
theorem of_save {id : AccountId} {a a' : Account} (hm : c.markets.lookup mid = some m)
    (hmarket : m.Emptied S m') (ha : c.accounts.lookup id = some a) (haccount : a.Whole S a') :
    WoundDown S c ((c.internalSaveMarket mid m').putAccount id a') where
  seq := rfl
  markets mid₁ m₁ h₁ := by
    rw [Contract.markets_putAccount, Contract.lookup_internalSaveMarket]
    split_ifs with hmid
    · obtain rfl : m = m₁ := Option.some.inj (hm.symm.trans (hmid ▸ h₁))
      exact ⟨m', rfl, hmarket⟩
    · exact ⟨m₁, h₁, .refl m₁, rfl, .refl _⟩
  noMarket mid₁ h₁ := by
    rw [Contract.markets_putAccount, Contract.lookup_internalSaveMarket]
    split_ifs with hmid
    · rw [hmid, hm] at h₁
      cases h₁
    · exact h₁
  accounts id₁ a₁ h₁ := by
    rw [Contract.lookup_putAccount]
    split_ifs with hid
    · obtain rfl : a = a₁ := Option.some.inj (ha.symm.trans (hid ▸ h₁))
      exact ⟨a', rfl, haccount⟩
    · exact ⟨a₁, h₁, fun _ => le_rfl, rfl⟩
  noAccount id₁ h₁ := by
    rw [Contract.lookup_putAccount]
    split_ifs with hid
    · rw [hid, ha] at h₁
      cases h₁
    · exact h₁

end WoundDown

theorem CancelRun.woundDown (hB : BookLaws S) (hT : TokenLaws S) {owner : AccountId}
    {ids : List OrderId} (h : CancelRun S c mid owner ids c') (hc : BooksOk S c) :
    WoundDown S c c' := by
  have hm := hc _ _ h.found
  rw [h.result]
  refine .of_save h.found ⟨⟨rfl, rfl, rfl, rfl, rfl, rfl, rfl⟩, rfl, ?_⟩ h.account ⟨fun t => ?_, ?_⟩
  · rw [h.orders hB hm]
    exact List.filter_sublist
  · rw [CancelRun.getBalance_refunds hT, Account.getBalance, Account.getBalance, Account.balance,
      Account.balance, h.forgets.balances]
    exact Nat.le_add_right _ _
  · rw [storageBalance_refunds, h.forgets.storageBalance]

theorem OwnCancels.woundDown (hB : BookLaws S) (hT : TokenLaws S) (h : OwnCancels S env c c')
    (hc : BooksOk S c) : WoundDown S c c' := by
  induction h with
  | nil c => exact .refl c
  | cons state run _ ih =>
    exact (run.woundDown hB hT hc).trans (ih ((Does.cancel run).booksOk hB hc))

theorem Answered.woundDown (h : Answered S c p c') : WoundDown S c c' := by
  cases h with
  | nothing => exact .refl c
  | @credited id token n a found =>
    refine ⟨rfl, fun mid m hm => ⟨m, hm, .refl m, rfl, .refl _⟩, fun mid hm => hm,
      fun id₁ a₁ h₁ => ?_, fun id₁ h₁ => ?_⟩
    · rw [Contract.lookup_putAccount]
      split_ifs with hid
      · obtain rfl : a = a₁ := Option.some.inj (found.symm.trans (hid ▸ h₁))
        refine ⟨_, rfl, fun t => ?_, rfl⟩
        rw [Account.getBalance, Account.getBalance, Account.balance_credit]
        exact Nat.le_add_right _ _
      · exact ⟨a₁, h₁, fun _ => le_rfl, rfl⟩
    · rw [Contract.lookup_putAccount]
      split_ifs with hid
      · rw [hid, found] at h₁
        cases h₁
      · exact h₁
  | @decimals p mid m side d state found kept =>
    refine ⟨rfl, fun mid₁ m₁ h₁ => ?_, fun mid₁ h₁ => ?_, fun id a ha =>
      ⟨a, ha, fun _ => le_rfl, rfl⟩, fun id ha => ha⟩
    · rw [Contract.lookup_internalSaveMarket]
      split_ifs with hmid
      · obtain rfl : m = m₁ := Option.some.inj (found.symm.trans (hmid ▸ h₁))
        refine ⟨_, rfl, ?_⟩
        cases side with
        | base => exact ⟨⟨rfl, rfl, rfl, rfl, rfl, rfl, rfl⟩, rfl, .refl _⟩
        | quote => exact ⟨⟨rfl, rfl, rfl, rfl, rfl, rfl, rfl⟩, rfl, .refl _⟩
      · exact ⟨m₁, h₁, .refl m₁, rfl, .refl _⟩
    · rw [Contract.lookup_internalSaveMarket]
      split_ifs with hmid
      · rw [hmid, found] at h₁
        cases h₁
      · exact h₁

/-- **What an event can do to a contract that is not active**, unless its owner
    makes a call: somebody cancels orders, or a promise is resolved. -/
theorem step_halted {ev : Event} (hstate : s.contract.state ≠ .active)
    (hev : ev.NotBy s.contract.ownerId) :
    System.step S s ev = s ∨
      (∃ env c', OwnCancels S env s.contract c' ∧
        System.step S s ev = { s with contract := c' }) ∨
      ∃ i p c' sent, s.pending[i]? = some p ∧ Answered S s.contract p c' ∧
        System.step S s ev = ⟨c', s.pending.eraseIdx i, s.received, sent⟩ := by
  cases ev with
  | call env op =>
    rcases hp : perform S env s.contract op with e | ⟨ps, c'⟩
    · simp only [System.step, hp, true_or]
    · obtain ⟨rfl, hpaid, hcancels⟩ := dispatch_halted hstate hev (dispatch_of_perform hp)
      refine .inr (.inl ⟨env, c', hcancels, ?_⟩)
      simp only [System.step, hp, hpaid, List.append_nil, List.foldl_nil]
  | resolve i out =>
    rcases hi : s.pending[i]? with _ | p
    · simp only [System.step, hi, true_or]
    · obtain ⟨c', sent, hstep, hanswered⟩ := resolved_answered out hi
      exact .inr (.inr ⟨i, p, c', sent, hi, hanswered, hstep⟩)

theorem OwnCancels.owner_eq (h : OwnCancels S env c c') : c'.ownerId = c.ownerId := by
  induction h with
  | nil c => rfl
  | cons state run _ ih =>
    rw [ih, run.result]
    rfl

/-- What is known of a run of a contract that is not active. -/
structure Halted (S : Sdk B) (s₀ s : System B) : Prop where
  reachable : System.Reachable S s
  owner : s.contract.ownerId = s₀.contract.ownerId
  state : s.contract.state = s₀.contract.state
  contract : WoundDown S s₀.contract s.contract
  pending : s.pending.Sublist s₀.pending
  received : s.received = s₀.received

theorem Halted.of_alone (hB : BookLaws S) (hT : TokenLaws S) (h₀ : System.Reachable S s₀)
    (hstate : s₀.contract.state ≠ .active) (h : System.Alone S s₀ s) : Halted S s₀ s := by
  refine h.invariant (P := Halted S s₀) ?_ fun s ev _ hev hs => ?_
  · rintro s rfl
    exact ⟨h₀, rfl, rfl, .refl _, .refl _, rfl⟩
  have hr : System.Reachable S (System.step S s ev) := .step hs.reachable trivial
  have hc := booksOk_of_reach hB hs.reachable
  have hcases := step_halted (S := S) (hs.state ▸ hstate) (hs.owner ▸ hev)
  generalize System.step S s ev = s' at hcases hr
  obtain rfl | ⟨env, c', hcancels, rfl⟩ | ⟨i, p, c', sent, hp, hanswered, rfl⟩ := hcases
  · exact hs
  · exact ⟨hr, hcancels.owner_eq.trans hs.owner, hcancels.state_eq.trans hs.state,
      hs.contract.trans (hcancels.woundDown hB hT hc), hs.pending, hs.received⟩
  · exact ⟨hr, hanswered.ownerOnly.owner.trans hs.owner,
      hanswered.ownerOnly.state.trans hs.state, hs.contract.trans hanswered.woundDown,
      (List.eraseIdx_sublist ..).trans hs.pending, hs.received⟩

/-! ## A paused contract -/

def Promise.isSend : Promise → Bool
  | .send .. => true
  | _ => false

/-- The transfers that failed, as far as their failure is told to the contract. -/
def System.noteFailed (failed : List Promise) (s : System B) : Event → List Promise
  | .call .. => failed
  | .resolve _ .successful => failed
  | .resolve i _ => failed ++ s.pending[i]?.toList.filter Promise.isSend

/-- The states reached from `s₀` while its owner makes no call, each with the
    transfers that have failed since. -/
abbrev System.Failing (S : Sdk B) (s₀ : System B) : System B × List Promise → Prop :=
  Runs.Recorded (· = s₀) (System.step S) System.noteFailed []
    fun _ ev => ev.NotBy s₀.contract.ownerId

theorem System.Failing.fails {failed : List Promise} (h : System.Failing S s₀ (s, failed)) {i : ℕ}
    (hp : s.pending[i]? = some p) (hsend : p.isSend = true) :
    System.Failing S s₀ (System.step S s (.resolve i .failed), failed ++ [p]) := by
  have hev : (Event.resolve i .failed).NotBy s₀.contract.ownerId := trivial
  have hstep := Runs.Reach.step h hev
  simp only [noteFailed, hp, Option.toList_some, List.filter_cons_of_pos hsend,
    List.filter_nil] at hstep
  exact hstep

theorem System.Failing.succeeds {failed : List Promise} (h : System.Failing S s₀ (s, failed))
    (i : ℕ) : System.Failing S s₀ (System.step S s (.resolve i .successful), failed) :=
  have hev : (Event.resolve i .successful).NotBy s₀.contract.ownerId := trivial
  Runs.Reach.step h hev

/-- What the promise credits to the account when its transfer fails. -/
def refundTo (c : Contract B) (id : AccountId) (t : TokenType) : Promise → ℕ
  | .send receiverId token n => if token = t ∧ c.refundee receiverId = id then n else 0
  | _ => 0

def refundsTo (c : Contract B) (failed : List Promise) (id : AccountId) (t : TokenType) : ℕ :=
  (failed.map (refundTo c id t)).sum

theorem refundsTo_append (c : Contract B) (ps ps' : List Promise) (id : AccountId) (t : TokenType) :
    refundsTo c (ps ++ ps') id t = refundsTo c ps id t + refundsTo c ps' id t := by
  rw [refundsTo, List.map_append, List.sum_append]
  rfl

/-- From `c₀` to `c` nothing has moved but balances, which grew by `failed` transfers. -/
structure StoodStill (S : Sdk B) (c₀ c : Contract B) (failed : List Promise) : Prop where
  markets : ∀ mid m, c₀.markets.lookup mid = some m →
    ∃ m', c.markets.lookup mid = some m' ∧ m'.orderbook = m.orderbook ∧
      m'.feesAccrued = m.feesAccrued
  accounts : ∀ id a, c₀.accounts.lookup id = some a →
    ∃ a', c.accounts.lookup id = some a' ∧ a'.openOrders = a.openOrders ∧
      ∀ t, a'.getBalance S t ≤ a.getBalance S t + refundsTo c₀ failed id t

variable {failed failed' : List Promise}

theorem StoodStill.refl (c : Contract B) : StoodStill S c c [] :=
  ⟨fun _ m hm => ⟨m, hm, rfl, rfl⟩, fun _ a ha => ⟨a, ha, rfl, fun _ => Nat.le_add_right _ _⟩⟩

/-- More transfers may have failed. -/
theorem StoodStill.mono (h : StoodStill S c₁ c failed)
    (hle : ∀ id t, refundsTo c₁ failed id t ≤ refundsTo c₁ failed' id t) :
    StoodStill S c₁ c failed' := by
  refine ⟨h.markets, fun id a ha => ?_⟩
  obtain ⟨a', ha', horders, hbal⟩ := h.accounts id a ha
  exact ⟨a', ha', horders, fun t => (hbal t).trans (Nat.add_le_add_left (hle id t) _)⟩

theorem WoundDown.refundee_eq (h : WoundDown S c c') (howner : c'.ownerId = c.ownerId)
    (id : AccountId) : c'.refundee id = c.refundee id := by
  unfold Contract.refundee
  rcases ha : c.accounts.lookup id with _ | a
  · rw [h.noAccount id ha, howner]
  · obtain ⟨a', ha', -⟩ := h.accounts id a ha
    rw [ha', Option.isSome_some, Option.isSome_some, if_pos rfl, if_pos rfl]

/-- **What a callback does to a paused contract**: of all promises only a transfer
    moves a balance, by its amount. -/
theorem StoodStill.answered (hT : TokenLaws S) (h : StoodStill S c₁ c failed)
    (hrefundee : ∀ id, c.refundee id = c₁.refundee id) (hanswered : Answered S c p c') :
    StoodStill S c₁ c' (failed ++ [p].filter Promise.isSend) := by
  have hmono : StoodStill S c₁ c (failed ++ [p].filter Promise.isSend) := h.mono fun id t => by
    rw [refundsTo_append]
    exact Nat.le_add_right _ _
  cases hanswered with
  | nothing => exact hmono
  | @credited r token n b found =>
    refine ⟨h.markets, fun id a ha => ?_⟩
    obtain ⟨a', ha', horders, hle⟩ := h.accounts id a ha
    rw [hrefundee] at found ⊢
    rw [Contract.lookup_putAccount]
    have hrefunds : ∀ t, refundsTo c₁ (failed ++ [Promise.send r token n].filter Promise.isSend)
        id t = refundsTo c₁ failed id t +
          if token = t ∧ c₁.refundee r = id then n else 0 := by
      intro t
      rw [refundsTo_append]
      exact congrArg (_ + ·) (Nat.add_zero _)
    split_ifs with hid
    · obtain rfl : b = a' := Option.some.inj (found.symm.trans (hid ▸ ha'))
      refine ⟨_, rfl, horders, fun t => ?_⟩
      have hbal := hle t
      rw [Account.getBalance] at hbal
      rw [hrefunds, Account.getBalance, Account.balance_credit]
      by_cases ht : token = t
      · rw [if_pos (congrArg S.key ht.symm), if_pos ⟨ht, hid.symm⟩]
        omega
      · rw [if_neg fun hk => ht (hT.key_injective hk).symm]
        omega
    · refine ⟨a', ha', horders, fun t => (hle t).trans ?_⟩
      rw [hrefunds]
      omega
  | @decimals p mid m side d state found kept metadata =>
    refine ⟨fun mid₁ m₁ h₁ => ?_, hmono.accounts⟩
    obtain ⟨m', hm', hbook, hfees⟩ := h.markets mid₁ m₁ h₁
    rw [Contract.lookup_internalSaveMarket]
    split_ifs with hmid
    · obtain rfl : m = m' := Option.some.inj (found.symm.trans (hmid ▸ hm'))
      cases side with
      | base | quote => exact ⟨_, rfl, hbook, hfees⟩
    · exact ⟨m', hm', hbook, hfees⟩

theorem OwnCancels.eq_of_paused (h : OwnCancels S env c c') (hc : c.state = .paused) : c' = c := by
  cases h with
  | nil => rfl
  | cons state =>
    rw [hc] at state
    cases state

/-- Calls of others find the contract paused. -/
theorem step_paused (hstate : s.contract.state = .paused)
    (howner : env.predecessorAccountId ≠ s.contract.ownerId) :
    System.step S s (.call env op) = s := by
  have hne : s.contract.state ≠ .active := by
    rw [hstate]
    exact ContractState.noConfusion
  rcases hp : perform S env s.contract op with e | ⟨ps, c'⟩
  · simp only [System.step, hp]
  · obtain ⟨rfl, hpaid, hcancels⟩ := dispatch_halted hne howner (dispatch_of_perform hp)
    obtain rfl := hcancels.eq_of_paused hstate
    simp only [System.step, hp, hpaid, List.append_nil, List.foldl_nil]

/-- A transfer that goes through leaves the contract as it is, as do promises
    that are not answered. -/
theorem resolved_successful {i : ℕ} :
    (System.step S s (.resolve i .successful)).contract = s.contract := by
  simp only [System.step]
  rcases s.pending[i]? with _ | p
  · rfl
  · cases p with
    | _ => rfl

/-- The transfers that failed were on their way. -/
theorem noteFailed_subperm {i : ℕ} {out : Outcome} (hp : s.pending[i]? = some p) :
    (System.noteFailed failed s (.resolve i out) ++ s.pending.eraseIdx i).Subperm
      (failed ++ s.pending) := by
  have hkeep : (failed ++ s.pending.eraseIdx i).Subperm (failed ++ s.pending) :=
    ((List.eraseIdx_sublist ..).append_left failed).subperm
  have hfail : (failed ++ [p].filter Promise.isSend ++ s.pending.eraseIdx i).Subperm
      (failed ++ s.pending) := by
    refine List.Subperm.trans (List.Sublist.subperm ?_)
      ((System.pending_perm hp).append_left failed).subperm
    rw [List.append_assoc]
    exact (List.filter_sublist.append_right _).append_left failed
  cases out with
  | successful => exact hkeep
  | _ =>
    simp only [System.noteFailed, hp]
    exact hfail

/-- What is known of a run of a paused contract. -/
structure Paused (S : Sdk B) (s₀ : System B) (x : System B × List Promise) : Prop where
  still : StoodStill S s₀.contract x.1.contract x.2
  pending : (x.2 ++ x.1.pending).Subperm s₀.pending

theorem Paused.of_failing (hB : BookLaws S) (hT : TokenLaws S) (h₀ : System.Reachable S s₀)
    (hstate : s₀.contract.state = .paused) {x : System B × List Promise}
    (h : System.Failing S s₀ x) : Paused S s₀ x := by
  have hne : s₀.contract.state ≠ .active := by
    rw [hstate]
    exact ContractState.noConfusion
  refine h.invariant (P := Paused S s₀) ?_ ?_
  · rintro ⟨s, failed⟩ ⟨rfl, hfailed⟩
    simp only at hfailed
    subst hfailed
    exact ⟨.refl _, .refl _⟩
  rintro ⟨s, failed⟩ ev hr hev ⟨hstill, hpending⟩
  have hhalted := Halted.of_alone hB hT h₀ hne (hr.forget fun _ _ he => he)
  simp only at hstill hpending hhalted
  cases ev with
  | call env op =>
    rw [step_paused (hhalted.state.trans hstate) (hhalted.owner ▸ hev)]
    exact ⟨hstill, hpending⟩
  | resolve i out =>
    rcases hp : s.pending[i]? with _ | p
    · have hnone : System.step S s (.resolve i out) = s := by simp only [System.step, hp]
      have hfailed : System.noteFailed failed s (.resolve i out) = failed := by
        cases out with
        | successful => rfl
        | _ =>
          simp only [System.noteFailed, hp]
          exact List.append_nil failed
      rw [hnone, hfailed]
      exact ⟨hstill, hpending⟩
    · obtain ⟨c', sent, hstep, hanswered⟩ := resolved_answered out hp
      have hrefundee := hhalted.contract.refundee_eq hhalted.owner
      refine ⟨?_, ?_⟩
      · cases out with
        | successful =>
          rw [resolved_successful]
          exact hstill
        | _ =>
          rw [hstep]
          simp only [System.noteFailed, hp]
          exact hstill.answered hT hrefundee hanswered
      · rw [hstep]
        exact (noteFailed_subperm hp).trans hpending

/-! ## Runs -/

open Engine

/-- **A contract that is not active winds down.**  However calls of others and
    callbacks are interleaved, until its owner makes a call: no order is placed
    or filled, no fee accrues, no market and no account comes or goes, nothing is
    taken in and no transfer begun; orders leave the books whole, and no account
    loses any tokens or storage. -/
theorem halted_winds_down (hB : BookLaws S) (hT : TokenLaws S) (h₀ : System.Reachable S s₀)
    (hstate : s₀.contract.state ≠ .active) (h : System.Alone S s₀ s) :
    WoundDown S s₀.contract s.contract ∧ s.pending.Sublist s₀.pending ∧
      s.received = s₀.received := by
  have hs := Halted.of_alone hB hT h₀ hstate h
  exact ⟨hs.contract, hs.pending, hs.received⟩

/-- The owner allows cancellations only. -/
def winding : List Event := asked ++ [.call (calling dao 0) (.setContractState .cancelOnly)]

def aliceCancels : System Book :=
  System.step sdk (run winding) (.call (calling alice 0) (.cancelOrder btcUsd 1))

theorem halted_winds_down_cancelled :
    WoundDown sdk (run winding).contract aliceCancels.contract ∧
      aliceCancels.pending.Sublist (run winding).pending ∧
      aliceCancels.received = (run winding).received := by
  have halice : alice ≠ (run winding).contract.ownerId := by decide +kernel
  have hstate : (run winding).contract.state ≠ .active := by decide +kernel
  exact halted_winds_down bookLaws tokenLaws (reachable_run winding) hstate
    (.step (.init rfl) halice)

/-- **A paused contract stands still.**  However calls of others and callbacks are
    interleaved, until its owner makes a call: every book, the accrued fees and
    every account's orders and storage are as they were, and a balance grows at
    most by transfers that were on their way before and have failed since. -/
theorem paused_stands_still (hB : BookLaws S) (hT : TokenLaws S) (h₀ : System.Reachable S s₀)
    (hstate : s₀.contract.state = .paused) {x : System B × List Promise}
    (h : System.Failing S s₀ x) :
    StoodStill S s₀.contract x.1.contract x.2 ∧ (x.2 ++ x.1.pending).Subperm s₀.pending ∧
      WoundDown S s₀.contract x.1.contract ∧ x.1.pending.Sublist s₀.pending ∧
      x.1.received = s₀.received := by
  have hs := Halted.of_alone hB hT h₀ (by rw [hstate]; exact ContractState.noConfusion)
    (h.forget fun _ _ he => he)
  obtain ⟨hstill, hpending⟩ := Paused.of_failing hB hT h₀ hstate h
  exact ⟨hstill, hpending, hs.contract, hs.pending, hs.received⟩

/-- Bob withdraws twice, and the owner pauses the contract. -/
def pausedOn : List Event := asked ++ [.call (calling bob 1) (.withdrawFt usd 5),
  .call (calling bob 1) (.withdrawFt usd 7), .call (calling dao 0) (.setContractState .paused)]

/-- The first transfer to Bob fails, the second goes through. -/
def returned : System Book :=
  System.step sdk (System.step sdk (run pausedOn)
    (.resolve ((run pausedOn).pending.length - 2) .failed))
    (.resolve ((run pausedOn).pending.length - 2) .successful)

example : (returned.contract.accountOf bob).getBalance sdk (.fungibleToken usd) =
    ((run pausedOn).contract.accountOf bob).getBalance sdk (.fungibleToken usd) + 5 := by
  decide +kernel

theorem paused_stands_still_returned :
    StoodStill sdk (run pausedOn).contract returned.contract
        [.send bob (.fungibleToken usd) 5] ∧
      WoundDown sdk (run pausedOn).contract returned.contract ∧
      returned.received = (run pausedOn).received := by
  have hstate : (run pausedOn).contract.state = .paused := by decide +kernel
  have hfirst : (run pausedOn).pending[(run pausedOn).pending.length - 2]? =
      some (.send bob (.fungibleToken usd) 5) := by decide +kernel
  have hrun : System.Failing sdk (run pausedOn) (returned, [.send bob (.fungibleToken usd) 5]) :=
    (System.Failing.fails (.init ⟨rfl, rfl⟩) hfirst rfl).succeeds _
  obtain ⟨hstill, -, hwound, -, hreceived⟩ :=
    paused_stands_still bookLaws tokenLaws (reachable_run pausedOn) hstate hrun
  exact ⟨hstill, hwound, hreceived⟩

end TonicDex
