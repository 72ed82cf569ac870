/-
  A batch is its calls, one after another.

  The actions of `execute` are calls that the account could make itself, without
  the yoctoNEAR.  A batch returns if and only if it has no swap and its calls
  all return, each in the state that the one before it left; it then leaves the
  state and the log that they leave (`execute_calls`).
-/
import TonicDex.Spec.Logging

namespace TonicDex

variable {B : Type} {S : Sdk B} {env : Env} {c c' : Contract B} {mid : MarketId} {op : Op}
  {ops : List Op} {es : Log} {ps : List Promise}

/-! ## The calls of a batch -/

/-- The calls that an action stands for. -/
def Action.calls : Action → List Op
  | .newOrder mid params => [.newOrder mid params]
  | .cancelOrders mid orderIds => orderIds.map (.cancelOrder mid)
  | .cancelAllOrders mid => [.cancelAllOrders mid]
  | .swap _ => []

/-- Swaps cannot be part of a batch. -/
def Action.IsSwap : Action → Prop
  | .swap _ => True
  | _ => False

/-- A call by the same account, with nothing attached. -/
def Env.free (env : Env) : Env := { env with attachedDeposit := 0 }

/-- The calls `ops`, one after another, all return and log `es`. -/
def Returns (S : Sdk B) (env : Env) : Contract B → List Op → Log → Contract B → Prop
  | c, [], es, c' => c = c' ∧ es = []
  | c, op :: ops, es, c' => ∃ ps c₁ es₁ es₂,
    (Logging.perform S env c op).Writes (ps, c₁) es₁ ∧ Returns S env c₁ ops es₂ c' ∧
      es = es₁ ++ es₂

theorem returns_append {ops' : List Op} : Returns S env c (ops ++ ops') es c' ↔
    ∃ c₁ es₁ es₂, Returns S env c ops es₁ c₁ ∧ Returns S env c₁ ops' es₂ c' ∧
      es = es₁ ++ es₂ := by
  induction ops generalizing c es with
  | nil =>
    constructor
    · intro h
      exact ⟨c, [], es, ⟨rfl, rfl⟩, h, rfl⟩
    · rintro ⟨c₁, es₁, es₂, ⟨rfl, rfl⟩, h, rfl⟩
      exact h
  | cons op ops ih =>
    constructor
    · rintro ⟨ps, c₁, es₁, es₂, h1, h2, rfl⟩
      obtain ⟨c₂, es₃, es₄, h3, h4, rfl⟩ := ih.1 h2
      exact ⟨c₂, es₁ ++ es₃, es₄, ⟨ps, c₁, es₁, es₃, h1, h3, rfl⟩, h4,
        (List.append_assoc ..).symm⟩
    · rintro ⟨c₂, es₁, es₂, ⟨ps, c₁, es₃, es₄, h1, h3, rfl⟩, h4, rfl⟩
      exact ⟨ps, c₁, es₃, es₄ ++ es₂, h1, ih.2 ⟨c₂, es₄, es₂, h3, h4, rfl⟩,
        List.append_assoc ..⟩

theorem returns_singleton : Returns S env c [op] es c' ↔
    ∃ ps, (Logging.perform S env c op).Writes (ps, c') es := by
  constructor
  · rintro ⟨ps, c₁, es₁, es₂, h, ⟨rfl, rfl⟩, rfl⟩
    rw [List.append_nil]
    exact ⟨ps, h⟩
  · rintro ⟨ps, h⟩
    exact ⟨ps, c', es, [], h, ⟨rfl, rfl⟩, (List.append_nil es).symm⟩

/-! ## Single calls -/

theorem writes_quiet {x : Logging (Contract B)} :
    (Logging.quiet x).Writes (ps, c') es ↔ ps = [] ∧ x.Writes c' es := by
  simp only [Logging.quiet, Logged.writes_bind, Logged.writes_pure, Prod.mk.injEq]
  constructor
  · rintro ⟨_, es₁, _, h, ⟨⟨rfl, rfl⟩, rfl⟩, rfl⟩
    rw [List.append_nil]
    exact ⟨rfl, h⟩
  · rintro ⟨rfl, h⟩
    exact ⟨c', es, [], h, ⟨⟨rfl, rfl⟩, rfl⟩, (List.append_nil es).symm⟩

theorem writes_results {α β : Type} {x : Logging (α × β)} {b : β} :
    (Logging.results x).Writes b es ↔ ∃ a, x.Writes (a, b) es := by
  simp only [Logging.results, Logged.writes_bind, Logged.writes_pure]
  constructor
  · rintro ⟨⟨a, _⟩, es₁, _, h, ⟨rfl, rfl⟩, rfl⟩
    rw [List.append_nil]
    exact ⟨a, h⟩
  · rintro ⟨a, h⟩
    exact ⟨(a, b), es, [], h, ⟨rfl, rfl⟩, (List.append_nil es).symm⟩

/-- A method that takes no deposit is called with none. -/
theorem writes_perform_free (h : op.payable = false) :
    (Logging.perform S env.free c op).Writes (ps, c') es ↔
      (Logging.dispatch S env.free c op).Writes (ps, c') es := by
  have hfree : assertNoDeposit env.free = .ok () := rfl
  unfold Logging.perform
  rw [h, if_neg Bool.false_ne_true, Logged.writes_lift_bind, hfree]
  constructor
  · rintro ⟨_, -, h⟩
    exact h
  · intro h
    exact ⟨(), rfl, h⟩

theorem returns_free (h : op.payable = false) : Returns S env.free c [op] es c' ↔
    ∃ ps, (Logging.dispatch S env.free c op).Writes (ps, c') es := by
  rw [returns_singleton]
  exact exists_congr fun ps => writes_perform_free h

theorem returns_newOrder {p : NewOrderParams} : Returns S env.free c [.newOrder mid p] es c' ↔
    ∃ r, (Logging.newOrder S env c mid p).Writes (r, c') es := by
  rw [returns_free rfl]
  show (∃ ps, (Logging.quiet (Logging.results (Logging.newOrder S env c mid p))).Writes
    (ps, c') es) ↔ _
  simp only [writes_quiet, writes_results, exists_eq_left]

theorem returns_cancelOrder {id : OrderId} :
    Returns S env.free c [.cancelOrder mid id] es c' ↔
      (Logging.cancelOrder S env c mid id).Writes c' es := by
  rw [returns_free rfl]
  show (∃ ps, (Logging.quiet (Logging.cancelOrder S env c mid id)).Writes (ps, c') es) ↔ _
  simp only [writes_quiet, exists_eq_left]

theorem returns_cancelAllOrders : Returns S env.free c [.cancelAllOrders mid] es c' ↔
    ∃ ids, (Logging.cancelAllOrders S env c mid).Writes (ids, c') es := by
  rw [returns_free rfl]
  show (∃ ps, (Logging.quiet (Logging.results (Logging.cancelAllOrders S env c mid))).Writes
    (ps, c') es) ↔ _
  simp only [writes_quiet, writes_results, exists_eq_left]

/-! ## Actions -/

theorem writes_cancelEachOrder {ids : List OrderId} :
    (Logging.cancelEachOrder S env mid c ids).Writes c' es ↔
      Returns S env.free c (ids.map (.cancelOrder mid)) es c' := by
  induction ids generalizing c es with
  | nil => exact Logged.writes_pure
  | cons id ids ih =>
    show _ ↔ Returns S env.free c ([.cancelOrder mid id] ++ ids.map (.cancelOrder mid)) es c'
    rw [returns_append, Logging.cancelEachOrder, Logged.writes_bind]
    simp only [ih, returns_cancelOrder]

theorem writes_executeAction {action : Action} :
    (∃ r, (Logging.executeAction S env c action).Writes (r, c') es) ↔
      ¬ action.IsSwap ∧ Returns S env.free c action.calls es c' := by
  cases action with
  | newOrder mid p =>
    rw [Action.calls, returns_newOrder]
    simp only [Logging.executeAction, Logged.writes_bind, Logged.writes_pure, Prod.mk.injEq]
    constructor
    · rintro ⟨_, ⟨r, _⟩, es₁, _, h, ⟨⟨rfl, rfl⟩, rfl⟩, rfl⟩
      rw [List.append_nil]
      exact ⟨id, r, h⟩
    · rintro ⟨-, r, h⟩
      exact ⟨_, (r, c'), es, [], h, ⟨⟨rfl, rfl⟩, rfl⟩, (List.append_nil es).symm⟩
  | cancelOrders mid ids =>
    rw [Action.calls, ← writes_cancelEachOrder]
    simp only [Logging.executeAction, Logged.writes_bind, Logged.writes_pure, Prod.mk.injEq]
    constructor
    · rintro ⟨_, _, es₁, _, h, ⟨⟨rfl, rfl⟩, rfl⟩, rfl⟩
      rw [List.append_nil]
      exact ⟨id, h⟩
    · rintro ⟨-, h⟩
      exact ⟨_, c', es, [], h, ⟨⟨rfl, rfl⟩, rfl⟩, (List.append_nil es).symm⟩
  | cancelAllOrders mid =>
    rw [Action.calls, returns_cancelAllOrders]
    simp only [Logging.executeAction, Logged.writes_bind, Logged.writes_pure, Prod.mk.injEq]
    constructor
    · rintro ⟨_, ⟨ids, _⟩, es₁, _, h, ⟨⟨rfl, rfl⟩, rfl⟩, rfl⟩
      rw [List.append_nil]
      exact ⟨id, ids, h⟩
    · rintro ⟨-, ids, h⟩
      exact ⟨_, (ids, c'), es, [], h, ⟨⟨rfl, rfl⟩, rfl⟩, (List.append_nil es).symm⟩
  | swap swaps =>
    constructor
    · rintro ⟨r, h⟩
      cases (Logged.writes_lift.1 h).1
    · rintro ⟨h, -⟩
      exact (h trivial).elim

/-- **A batch returns what its calls do**, by induction on its actions. -/
theorem writes_executeActions {actions : List Action} :
    (∃ rs, (Logging.executeActions S env c actions).Writes (rs, c') es) ↔
      (∀ a ∈ actions, ¬ a.IsSwap) ∧ Returns S env.free c (actions.flatMap Action.calls) es c' := by
  induction actions generalizing c es with
  | nil =>
    simp only [Logging.executeActions, Logged.writes_pure, Prod.mk.injEq]
    constructor
    · rintro ⟨_, ⟨rfl, rfl⟩, rfl⟩
      exact ⟨fun a ha => (List.not_mem_nil ha).elim, rfl, rfl⟩
    · rintro ⟨-, rfl, rfl⟩
      exact ⟨[], ⟨rfl, rfl⟩, rfl⟩
  | cons action actions ih =>
    simp only [Logging.executeActions, Logged.writes_bind, Logged.writes_pure, Prod.mk.injEq]
    rw [List.flatMap_cons, returns_append, List.forall_mem_cons]
    constructor
    · rintro ⟨_, ⟨r, c₁⟩, es₁, _, h1, ⟨⟨rs, _⟩, es₂, _, h2, ⟨⟨rfl, rfl⟩, rfl⟩, rfl⟩, rfl⟩
      obtain ⟨hswap, hcalls⟩ := writes_executeAction.1 ⟨r, h1⟩
      obtain ⟨hswaps, hrest⟩ := ih.1 ⟨rs, h2⟩
      exact ⟨⟨hswap, hswaps⟩, c₁, es₁, es₂, hcalls, hrest, by rw [List.append_nil]⟩
    · rintro ⟨⟨hswap, hswaps⟩, c₁, es₁, es₂, hcalls, hrest, rfl⟩
      obtain ⟨r, h1⟩ := writes_executeAction.2 ⟨hswap, hcalls⟩
      obtain ⟨rs, h2⟩ := ih.2 ⟨hswaps, hrest⟩
      exact ⟨_, (r, c₁), es₁, es₂, h1, ⟨(rs, c'), es₂, [], h2, ⟨⟨rfl, rfl⟩, rfl⟩,
        (List.append_nil es₂).symm⟩, rfl⟩

theorem writes_execute {actions : List Action} :
    (Logging.perform S env c (.execute actions)).Writes (ps, c') es ↔
      ps = [] ∧ env.attachedDeposit = 1 ∧ (∀ a ∈ actions, ¬ a.IsSwap) ∧
        Returns S env.free c (actions.flatMap Action.calls) es c' := by
  show (Logging.quiet (Logging.results (Logging.execute S env c actions))).Writes (ps, c') es ↔ _
  simp only [writes_quiet, writes_results, Logging.execute, Logged.writes_lift_bind,
    assertOneYocto, Checked.require_eq_ok]
  rw [← writes_executeActions]
  constructor
  · rintro ⟨rfl, rs, _, hone, h⟩
    exact ⟨rfl, hone, rs, h⟩
  · rintro ⟨rfl, hone, rs, h⟩
    exact ⟨rfl, rs, (), hone, h⟩

/-! ## The system -/

/-- A call of one of the methods that batches are made of. -/
def Op.Single : Op → Prop
  | .newOrder .. | .cancelOrder .. | .cancelAllOrders _ => True
  | _ => False

theorem Action.single_of_mem_calls {a : Action} (h : op ∈ a.calls) : op.Single := by
  cases a with
  | newOrder mid p | cancelAllOrders mid =>
    rw [List.mem_singleton.1 h]
    trivial
  | cancelOrders mid ids =>
    obtain ⟨id, -, rfl⟩ := List.mem_map.1 h
    trivial
  | swap swaps => cases h

/-- Single calls promise nothing. -/
theorem Op.Single.promises (hop : op.Single)
    (h : (Logging.perform S env.free c op).Writes (ps, c') es) : ps = [] := by
  cases op with
  | newOrder | cancelOrder | cancelAllOrders =>
    rw [writes_perform_free rfl] at h
    exact (writes_quiet.1 h).1
  | _ => exact hop.elim

/-- One step of the system and its log. -/
def logStep (S : Sdk B) (x : System B × Log) (ev : Event) : System B × Log :=
  (System.step S x.1 ev, System.note S x.2 x.1 ev)

theorem logStep_of_writes {s : System B} {log : Log}
    (h : (Logging.perform S env s.contract op).Writes ([], c') es) (hpaid : paidIn env op = []) :
    logStep S (s, log) (.call env op) = ({ s with contract := c' }, log ++ es) := by
  have hok := (erase_perform env s.contract op).symm.trans h.erase
  unfold logStep System.step System.note
  simp only [hok, hpaid, h.events, List.append_nil, List.foldl_nil]

theorem Op.Single.paidIn (hop : op.Single) : paidIn env op = [] := by
  cases op with
  | newOrder | cancelOrder | cancelAllOrders => rfl
  | _ => exact hop.elim

/-- Calls that return one after another lead through their states. -/
theorem Returns.foldl {s : System B} {log : Log} (hops : ∀ op ∈ ops, op.Single)
    (h : Returns S env.free s.contract ops es c') :
    (ops.map (.call env.free)).foldl (logStep S) (s, log) =
      ({ s with contract := c' }, log ++ es) := by
  induction ops generalizing s log es with
  | nil =>
    obtain ⟨rfl, rfl⟩ := h
    rw [List.append_nil]
    rfl
  | cons op ops ih =>
    obtain ⟨ps, c₁, es₁, es₂, h1, h2, rfl⟩ := h
    obtain ⟨hop, hops⟩ := List.forall_mem_cons.1 hops
    obtain rfl := hop.promises h1
    rw [List.map_cons, List.foldl_cons, logStep_of_writes h1 hop.paidIn, ← List.append_assoc]
    exact ih hops h2

/-- One yoctoNEAR is attached, no action is a swap, and the calls of the actions,
    made without a deposit one after another, all return. -/
def Batched (S : Sdk B) (env : Env) (c : Contract B) (actions : List Action) : Prop :=
  env.attachedDeposit = 1 ∧ (∀ a ∈ actions, ¬ a.IsSwap) ∧
    ∃ es c', Returns S env.free c (actions.flatMap Action.calls) es c'

/-- A batch returns just in case its calls do. -/
theorem execute_returns_iff {actions : List Action} :
    (∃ y, perform S env c (.execute actions) = .ok y) ↔ Batched S env c actions := by
  have herase := erase_perform (S := S) env c (.execute actions)
  constructor
  · rintro ⟨⟨ps, c'⟩, hp⟩
    obtain ⟨es, h⟩ := Logged.exists_writes (herase.trans hp)
    obtain ⟨-, hone, hswap, h⟩ := writes_execute.1 h
    exact ⟨hone, hswap, es, c', h⟩
  · rintro ⟨hone, hswap, es, c', h⟩
    exact ⟨_, herase.symm.trans (writes_execute.2 ⟨rfl, hone, hswap, h⟩).erase⟩

/-- A call that does not return leaves everything as it is. -/
theorem logStep_of_not_ok {s : System B} {log : Log}
    (h : ¬ ∃ y, perform S env s.contract op = .ok y) :
    logStep S (s, log) (.call env op) = (s, log) := by
  have herase := erase_perform (S := S) env s.contract op
  unfold logStep System.step System.note
  rcases hp : perform S env s.contract op with e | y
  · rw [hp] at herase
    rcases hw : (Logging.perform S env s.contract op).run with e' | ⟨y, es⟩
    · simp only [hp, Logged.events, hw, List.append_nil]
    · have hok := herase.symm.trans (Logged.Writes.erase hw)
      cases hok
  · exact (h ⟨y, hp⟩).elim

/-- **A batch is its calls, one after another.**  It returns if and only if one
    yoctoNEAR is attached, no action is a swap, and the calls of the actions, made
    without a deposit one after another, all return.  It then leads to the state and
    the log that they lead to, and otherwise leaves both as they are. -/
theorem execute_calls (S : Sdk B) (env : Env) (actions : List Action) (x : System B × Log) :
    ((∃ y, perform S env x.1.contract (.execute actions) = .ok y) ↔
      Batched S env x.1.contract actions) ∧
    (Batched S env x.1.contract actions →
      logStep S x (.call env (.execute actions)) =
        ((actions.flatMap Action.calls).map (.call env.free)).foldl (logStep S) x) ∧
    (¬ Batched S env x.1.contract actions → logStep S x (.call env (.execute actions)) = x) := by
  obtain ⟨s, log⟩ := x
  refine ⟨execute_returns_iff, ?_, fun hno => ?_⟩
  · rintro ⟨hone, hswap, es, c', h⟩
    have hsingle : ∀ op ∈ actions.flatMap Action.calls, op.Single := by
      intro op hop
      obtain ⟨a, -, ha⟩ := List.mem_flatMap.1 hop
      exact Action.single_of_mem_calls ha
    rw [logStep_of_writes (writes_execute.2 ⟨rfl, hone, hswap, h⟩) rfl, h.foldl hsingle]
  · exact logStep_of_not_ok fun hret => hno (execute_returns_iff.1 hret)

end TonicDex
