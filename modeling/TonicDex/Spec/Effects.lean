/-
  Calls as sequences of effects.

  An `Effect` is one elementary change of the contract's state, with the data
  of the call that made it: a credit or debit of one account, a change of a
  storage balance, an order, a hop of a swap, a cancellation, a change of a
  market.  `Effects S c es c'` says that the effects `es`, one after the other,
  lead from `c` to `c'`.  Every call that returns is such a sequence
  (`dispatch_effects`), and `Shape` says which effects and promises a method
  can have.  So a property of states is an invariant when every effect keeps
  it, and a property of a method is read off the effects of its shape.
-/
import TonicDex.Spec.Cancels

namespace TonicDex

variable {B : Type}

inductive Effect (B : Type) where
  | credit (id : AccountId) (token : TokenType) (n : ℕ)
  | debit (id : AccountId) (token : TokenType) (n : ℕ)
  /-- a storage balance grows by `inn` and shrinks by `out` -/
  | storage (id : AccountId) (inn out : ℕ)
  | unregister (id : AccountId) (n : ℕ)
  | order (env : Env) (mid : MarketId) (p : NewOrderParams) (r : PlaceOrderResult)
  | hop (env : Env) (swap : SwapAction) (token : TokenType) (amount : ℕ) (out : SwapResult)
      (fills : List Match)
  | cancel (mid : MarketId) (owner : AccountId) (ids : List OrderId)
  | create (mid : MarketId) (m : Market B)
  | delete (mid : MarketId)
  | setState (mid : MarketId) (state : MarketState)
  | setWindow (mid : MarketId)
  | decimals (mid : MarketId) (side : PairSide) (d : ℕ) (state : MarketState)
  /-- the owner or the state of the contract changes -/
  | admin

/-- What `create_market` puts into a new market. -/
structure Market.Fresh (S : Sdk B) (m : Market B) : Prop where
  state : m.state = .uninitialized
  book : m.orderbook = S.emptyBook
  fees : m.feesAccrued = 0
  rates : m.makerRebateBaseRate < m.takerFeeBaseRate ∨
    (m.makerRebateBaseRate = 0 ∧ m.takerFeeBaseRate = 0)
  takerRate : m.takerFeeBaseRate < 256
  baseLot : m.baseToken.lotSize ≠ 0
  quoteLot : m.quoteToken.lotSize ≠ 0
  maxOrders : m.maxOrdersPerAccount = defaultMaxOrders
  baseDecimals : m.baseToken.decimals =
    if m.baseToken.tokenType = .nativeNear then 24 else invalidDecimals
  quoteDecimals : m.quoteToken.decimals =
    if m.quoteToken.tokenType = .nativeNear then 24 else invalidDecimals

/-- What an effect does to the state. -/
inductive Does (S : Sdk B) (c : Contract B) : Effect B → Contract B → Prop
  | credit {id : AccountId} {a : Account} {token : TokenType} {n : ℕ}
      (found : c.accounts.lookup id = some a)
      (covered : (a.credit (S.key token) n).isStorageCovered S) :
      Does S c (.credit id token n) (c.putAccount id (a.credit (S.key token) n))
  | debit {id : AccountId} {a a' : Account} {token : TokenType} {n : ℕ}
      (found : c.accounts.lookup id = some a) (paid : a.withdraw S token n = .ok a')
      (covered : a'.isStorageCovered S) :
      Does S c (.debit id token n) (c.putAccount id a')
  | storage {id : AccountId} {a : Account} {inn out total : ℕ}
      (found : c.accounts.lookup id = some a ∨ c.accounts.lookup id = none ∧ a = .new)
      (sum : total + out = a.storageBalance + inn)
      (covered : { a with storageBalance := total }.isStorageCovered S) :
      Does S c (.storage id inn out) (c.putAccount id { a with storageBalance := total })
  | unregister {id : AccountId} {a : Account} (found : c.accounts.lookup id = some a)
      (empty : a.isEmpty = true) :
      Does S c (.unregister id a.storageBalance) { c with accounts := c.accounts.erase id }
  | order {env : Env} {mid : MarketId} {p : NewOrderParams} {r : PlaceOrderResult}
      {c' : Contract B} (run : OrderRun S env c mid p r c') : Does S c (.order env mid p r) c'
  | hop {env : Env} {swap : SwapAction} {token : TokenType} {amount : ℕ} {out : SwapResult}
      {c' : Contract B} (run : HopRun S env c swap token amount out c') :
      Does S c (.hop env swap token amount out run.r.fills) c'
  | cancel {mid : MarketId} {owner : AccountId} {ids : List OrderId} {c' : Contract B}
      (run : CancelRun S c mid owner ids c') : Does S c (.cancel mid owner ids) c'
  | create {mid : MarketId} {m : Market B} (new : c.markets.lookup mid = none)
      (fresh : m.Fresh S) : Does S c (.create mid m)
        { c.internalSaveMarket mid m with marketIterMap := c.marketIterMap ++ [mid] }
  | delete {mid : MarketId} {m : Market B} {ids : List MarketId}
      (found : c.markets.lookup mid = some m) (can : m.canDelete S = true) :
      Does S c (.delete mid) { c with marketIterMap := ids, markets := c.markets.erase mid }
  | setState {mid : MarketId} {m : Market B} {state : MarketState}
      (found : c.markets.lookup mid = some m) :
      Does S c (.setState mid state) (c.internalSaveMarket mid (m.setState state))
  | setWindow {mid : MarketId} {m : Market B} (bid ask : ℕ)
      (found : c.markets.lookup mid = some m) : Does S c (.setWindow mid)
        (c.internalSaveMarket mid { m with minimumBidBps := bid, maximumAskBps := ask })
  | decimals {mid : MarketId} {m : Market B} {side : PairSide} {d : ℕ} {state : MarketState}
      (found : c.markets.lookup mid = some m) : Does S c (.decimals mid side d state)
        (c.internalSaveMarket mid { m.setDecimals side d with state })
  | admin (owner : AccountId) (state : ContractState) :
      Does S c .admin { c with ownerId := owner, state := state }

/-- A sequence of effects. -/
inductive Effects (S : Sdk B) : Contract B → List (Effect B) → Contract B → Prop
  | nil (c : Contract B) : Effects S c [] c
  | cons {c c₁ c' : Contract B} {e : Effect B} {es : List (Effect B)} (head : Does S c e c₁)
      (tail : Effects S c₁ es c') : Effects S c (e :: es) c'

variable {S : Sdk B} {c c' : Contract B} {e : Effect B} {es : List (Effect B)} {env : Env}

theorem Effects.single (h : Does S c e c') : Effects S c [e] c' := .cons h (.nil _)

theorem Effects.of_single (h : Effects S c [e] c') : Does S c e c' := by
  cases h with
  | cons head tail =>
    cases tail
    exact head

/-- What every effect keeps, every sequence keeps. -/
theorem Effects.invariant {P : Contract B → Prop}
    (h : Effects S c es c') (step : ∀ e ∈ es, ∀ c c', Does S c e c' → P c → P c') (h₀ : P c) :
    P c' := by
  induction h with
  | nil c => exact h₀
  | cons head _ ih =>
    exact ih (fun e he => step e (List.mem_cons_of_mem _ he))
      (step _ (List.mem_cons_self ..) _ _ head h₀)

/-! ## Single effects -/

theorem internalDeposit_does {id : AccountId} {token : TokenType} {n : ℕ}
    (h : c.internalDeposit S id token n = .ok c') : Does S c (.credit id token n) c' := by
  obtain ⟨a, ha, -, hcov, rfl⟩ := Contract.internalDeposit_eq_ok.1 h
  exact .credit ha hcov

theorem depositNear_does (h : depositNear S env c = .ok c') :
    Does S c (.credit env.predecessorAccountId .nativeNear env.attachedDeposit) c' := by
  simp only [depositNear, Checked.bind_eq_ok] at h
  obtain ⟨_, -, h⟩ := h
  exact internalDeposit_does (by simpa only [Contract.internalDeposit, Checked.bind_eq_ok] using h)

theorem internalWithdraw_does {id : AccountId} {token : TokenType} {n : ℕ} {ps : List Promise}
    (h : internalWithdraw S c id token n = .ok (ps, c')) :
    0 < n ∧ ps = [.send id token n] ∧ Does S c (.debit id token n) c' := by
  simp only [internalWithdraw, Checked.bind_eq_ok, Checked.require_eq_ok,
    Contract.internalUnwrapAccount_eq_ok, Contract.internalSaveAccount_eq_ok, Checked.pure_eq_ok,
    Prod.mk.injEq] at h
  obtain ⟨_, hn, a, ha, a', ha', _, ⟨hcov, rfl⟩, rfl, rfl⟩ := h
  exact ⟨hn, rfl, .debit ha ha' hcov⟩

theorem newOrder_does {mid : MarketId} {p : NewOrderParams} {r : PlaceOrderResult}
    (h : newOrder S env c mid p = .ok (r, c')) : Does S c (.order env mid p r) c' := by
  obtain ⟨run⟩ := newOrder_ok h
  exact .order run

theorem executeSwapAction_does {swap : SwapAction} {token : TokenType} {amount : ℕ}
    {out : SwapResult} (h : executeSwapAction S env c swap token amount = .ok (out, c')) :
    ∃ fills, Does S c (.hop env swap token amount out fills) c' := by
  obtain ⟨run⟩ := executeSwapAction_ok h
  exact ⟨_, .hop run⟩

theorem internalCancelOrder_does {mid : MarketId} {owner : AccountId} {id : OrderId}
    (h : internalCancelOrder S c mid owner id = .ok c') : Does S c (.cancel mid owner [id]) c' := by
  obtain ⟨run⟩ := internalCancelOrder_ok h
  exact .cancel run

theorem internalCancelAllOrders_does (hS : BookLaws S) {mid : MarketId} {owner : AccountId}
    {ids : List OrderId} (h : internalCancelAllOrders S c mid owner = .ok (ids, c')) :
    Does S c (.cancel mid owner ids) c' := by
  obtain ⟨run⟩ := internalCancelAllOrders_ok hS h
  exact .cancel run

/-! ## Sequences of effects -/

theorem Effects.append {c₁ : Contract B} {es' : List (Effect B)} (h : Effects S c es c₁)
    (h' : Effects S c₁ es' c') : Effects S c (es ++ es') c' := by
  induction h with
  | nil c => exact h'
  | cons head _ ih => exact .cons head (ih h')

/-- The effects of a chain of hops: each takes what the one before it put out. -/
inductive Hops (env : Env) : List SwapAction → TokenType × ℕ → List (Effect B) →
    TokenType × ℕ → Prop
  | nil (x : TokenType × ℕ) : Hops env [] x [] x
  | cons {swap : SwapAction} {swaps : List SwapAction} {token : TokenType} {amount : ℕ}
      {out : SwapResult} {fills : List Match} {es : List (Effect B)} {x : TokenType × ℕ}
      (rest : Hops env swaps (out.outputToken, out.outputAmount) es x) :
      Hops env (swap :: swaps) (token, amount) (.hop env swap token amount out fills :: es) x

theorem executeHops_effects : ∀ {swaps : List SwapAction} {c c' : Contract B} {token : TokenType}
    {amount : ℕ} {x : TokenType × ℕ}, executeHops S env c swaps token amount = .ok (x, c') →
    ∃ es, Effects S c es c' ∧ Hops env swaps (token, amount) es x
  | [], c, c', token, amount, x, h => by
    simp only [executeHops, Checked.pure_eq_ok, Prod.mk.injEq] at h
    obtain ⟨rfl, rfl⟩ := h
    exact ⟨[], .nil _, .nil _⟩
  | swap :: swaps, c, c', token, amount, x, h => by
    simp only [executeHops, Checked.bind_eq_ok] at h
    obtain ⟨⟨out, c₁⟩, h1, h2⟩ := h
    obtain ⟨fills, hd⟩ := executeSwapAction_does h1
    obtain ⟨es, hes, hops⟩ := executeHops_effects h2
    exact ⟨_ :: es, .cons hd hes, .cons hops⟩

theorem mtDeposits_effects {tokenId : AccountId} :
    ∀ {xs : List ((String × ℕ) × AccountId)} {c c' : Contract B},
    mtDeposits S tokenId c xs = .ok c' → Effects S c
      (xs.map fun x => .credit x.2 (.multiFungibleToken tokenId x.1.1) x.1.2) c'
  | [], c, c', h => by
    simp only [mtDeposits, Checked.pure_eq_ok] at h
    subst h; exact .nil _
  | ((subtokenId, n), owner) :: xs, c, c', h => by
    simp only [mtDeposits, Checked.bind_eq_ok] at h
    obtain ⟨c₁, h1, h2⟩ := h
    exact .cons (internalDeposit_does h1) (mtDeposits_effects h2)

theorem cancelForOwners_effects {mid : MarketId} : ∀ {os : List OpenLimitOrder}
    {c c' : Contract B}, cancelForOwners S mid c os = .ok c' →
    Effects S c (os.map fun o => .cancel mid o.ownerId [o.id]) c'
  | [], c, c', h => by
    simp only [cancelForOwners, Checked.pure_eq_ok] at h
    subst h; exact .nil _
  | o :: os, c, c', h => by
    simp only [cancelForOwners, Checked.bind_eq_ok] at h
    obtain ⟨c₁, h1, h2⟩ := h
    exact .cons (internalCancelOrder_does h1) (cancelForOwners_effects h2)

theorem cancelOrder_does {mid : MarketId} {id : OrderId} (h : cancelOrder S env c mid id = .ok c') :
    Does S c (.cancel mid env.predecessorAccountId [id]) c' := by
  simp only [cancelOrder, Checked.bind_eq_ok] at h
  obtain ⟨_, -, h⟩ := h
  exact internalCancelOrder_does h

theorem cancelAllOrders_does (hS : BookLaws S) {mid : MarketId} {ids : List OrderId}
    (h : cancelAllOrders S env c mid = .ok (ids, c')) :
    Does S c (.cancel mid env.predecessorAccountId ids) c' := by
  simp only [cancelAllOrders, Checked.bind_eq_ok] at h
  obtain ⟨_, -, _, -, h⟩ := h
  exact internalCancelAllOrders_does hS h

theorem cancelEachOrder_effects {mid : MarketId} : ∀ {ids : List OrderId} {c c' : Contract B},
    cancelEachOrder S env mid c ids = .ok c' →
    Effects S c (ids.map fun id => .cancel mid env.predecessorAccountId [id]) c'
  | [], c, c', h => by
    simp only [cancelEachOrder, Checked.pure_eq_ok] at h
    subst h; exact .nil _
  | id :: ids, c, c', h => by
    simp only [cancelEachOrder, Checked.bind_eq_ok] at h
    obtain ⟨c₁, h1, h2⟩ := h
    exact .cons (cancelOrder_does h1) (cancelEachOrder_effects h2)

/-- The effects an account can have by trading for itself with a batch of actions. -/
inductive Effect.Trades (env : Env) (actions : List Action) : Effect B → Prop
  | order {mid : MarketId} {p : NewOrderParams} (r : PlaceOrderResult)
      (action : .newOrder mid p ∈ actions) : Trades env actions (.order env mid p r)
  | cancel (mid : MarketId) (ids : List OrderId) :
      Trades env actions (.cancel mid env.predecessorAccountId ids)

theorem Effect.Trades.mono {actions actions' : List Action} (h : e.Trades env actions)
    (hsub : actions ⊆ actions') : e.Trades env actions' := by
  cases h with
  | order r action => exact .order r (hsub action)
  | cancel mid ids => exact .cancel mid ids

theorem executeAction_effects (hS : BookLaws S) {action : Action} {res : ActionResult}
    (h : executeAction S env c action = .ok (res, c')) :
    ∃ es, Effects S c es c' ∧ ∀ e ∈ es, e.Trades env [action] := by
  cases action with
  | newOrder mid p =>
    simp only [executeAction, Checked.bind_eq_ok, Checked.pure_eq_ok, Prod.mk.injEq] at h
    obtain ⟨⟨r, c₁⟩, h, -, rfl⟩ := h
    exact ⟨_, .single (newOrder_does h),
      List.forall_mem_singleton.2 (.order _ (List.mem_singleton_self _))⟩
  | cancelOrders mid ids =>
    simp only [executeAction, Checked.bind_eq_ok, Checked.pure_eq_ok, Prod.mk.injEq] at h
    obtain ⟨c₁, h, -, rfl⟩ := h
    exact ⟨_, cancelEachOrder_effects h, List.forall_mem_map.2 fun _ _ => .cancel ..⟩
  | cancelAllOrders mid =>
    simp only [executeAction, Checked.bind_eq_ok, Checked.pure_eq_ok, Prod.mk.injEq] at h
    obtain ⟨⟨ids, c₁⟩, h, -, rfl⟩ := h
    exact ⟨_, .single (cancelAllOrders_does hS h), List.forall_mem_singleton.2 (.cancel ..)⟩
  | swap swaps => cases h

theorem executeActions_effects (hS : BookLaws S) : ∀ {actions : List Action} {c c' : Contract B}
    {res : List ActionResult}, executeActions S env c actions = .ok (res, c') →
    ∃ es, Effects S c es c' ∧ ∀ e ∈ es, e.Trades env actions
  | [], c, c', res, h => by
    simp only [executeActions, Checked.pure_eq_ok, Prod.mk.injEq] at h
    obtain ⟨-, rfl⟩ := h
    exact ⟨[], .nil _, fun e he => (List.not_mem_nil he).elim⟩
  | action :: actions, c, c', res, h => by
    simp only [executeActions, Checked.bind_eq_ok, Checked.pure_eq_ok, Prod.mk.injEq] at h
    obtain ⟨⟨r, c₁⟩, h1, ⟨rs, c₂⟩, h2, -, rfl⟩ := h
    obtain ⟨es, hes, ht⟩ := executeAction_effects hS h1
    obtain ⟨es', hes', ht'⟩ := executeActions_effects hS h2
    refine ⟨es ++ es', hes.append hes', fun e he => ?_⟩
    obtain he | he := List.mem_append.1 he
    · exact (ht e he).mono (List.cons_subset_cons _ (List.nil_subset _))
    · exact (ht' e he).mono (List.subset_cons_self _ _)

end TonicDex
