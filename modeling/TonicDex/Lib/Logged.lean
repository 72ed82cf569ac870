/-
  Computations that may abort and that write a log.

  A `Logged` computation returns a value with the events it wrote, or aborts,
  and then nothing it wrote counts.  `erase` forgets the log.  Erasing goes
  through a sequence step by step, so that a program with its log is compared
  with the plain one by the lemmas `erase_*`.  `x.Writes a es` says that `x`
  returns `a` and writes `es`; the lemmas `writes_*` take such a run apart.
-/
import TonicDex.Lib.Checked

/-- A value with the events written on the way, or an error. -/
structure Logged (ε ω α : Type) where
  run : Except ε (α × List ω)

namespace Logged

variable {ε ω α β : Type}

instance instMonad : Monad (Logged ε ω) where
  pure a := ⟨.ok (a, [])⟩
  bind x f := ⟨do
    let (a, es) ← x.run
    let (b, es') ← (f a).run
    return (b, es ++ es')⟩

/-- A computation that writes nothing. -/
instance instMonadLift : MonadLift (Except ε) (Logged ε ω) where
  monadLift x := ⟨do
    let a ← x
    return (a, [])⟩

/-- Write one event. -/
def emit (e : ω) : Logged ε ω Unit := ⟨.ok ((), [e])⟩

/-- The computation without its log. -/
def erase (x : Logged ε ω α) : Except ε α := Prod.fst <$> x.run

/-- The computation returns `a` and writes `es`. -/
def Writes (x : Logged ε ω α) (a : α) (es : List ω) : Prop := x.run = .ok (a, es)

variable {x : Logged ε ω α} {y : Except ε α} {f : α → Logged ε ω β} {g : α → Except ε β}
  {a : α} {b : β} {e : ω} {es : List ω}

/-! ## Forgetting the log -/

@[simp] theorem erase_pure : (pure a : Logged ε ω α).erase = pure a := rfl

@[simp] theorem erase_lift : (liftM y : Logged ε ω α).erase = y := by
  cases y <;> rfl

theorem erase_bind (hx : x.erase = y) (hf : ∀ a, (f a).erase = g a) :
    (x >>= f).erase = y >>= g := by
  subst hx
  obtain ⟨_ | ⟨a, es⟩⟩ := x
  · rfl
  · show Prod.fst <$> (do
      let (b, es') ← (f a).run
      pure (b, es ++ es') : Except ε _) = g a
    rw [← hf, erase]
    cases (f a).run <;> rfl

theorem erase_lift_bind (hf : ∀ a, (f a).erase = g a) :
    ((liftM y : Logged ε ω α) >>= f).erase = y >>= g :=
  erase_bind erase_lift hf

/-- An event that is written does not show. -/
theorem erase_emit_bind {f : Unit → Logged ε ω β} {z : Except ε β} (hf : (f ()).erase = z) :
    (emit e >>= f).erase = z := by
  refine (erase_bind (y := pure ()) (g := fun _ => z) rfl fun _ => hf).trans ?_
  exact pure_bind ..

/-! ## What is written -/

theorem Writes.erase (h : x.Writes a es) : x.erase = .ok a := by
  rw [Logged.erase, h]
  rfl

theorem exists_writes (h : x.erase = .ok a) : ∃ es, x.Writes a es := by
  simp only [Logged.erase, Checked.map_eq_ok] at h
  obtain ⟨⟨a', es⟩, hx, rfl⟩ := h
  exact ⟨es, hx⟩

/-- The events written, none if the computation aborted. -/
def events (x : Logged ε ω α) : List ω :=
  match x.run with
  | .ok (_, es) => es
  | .error _ => []

theorem Writes.events (h : x.Writes a es) : x.events = es := by
  rw [Logged.events, h]

@[simp] theorem writes_pure {a' : α} :
    (pure a : Logged ε ω α).Writes a' es ↔ a = a' ∧ es = [] := by
  show Except.ok (a, []) = Except.ok (a', es) ↔ _
  rw [Except.ok.injEq, Prod.mk.injEq, eq_comm (a := es)]

@[simp] theorem writes_lift : (liftM y : Logged ε ω α).Writes a es ↔ y = .ok a ∧ es = [] := by
  show (do let a ← y; pure (a, []) : Except ε (α × List ω)) = .ok (a, es) ↔ _
  simp only [Checked.bind_eq_ok, Checked.pure_eq_ok, Prod.mk.injEq]
  constructor
  · rintro ⟨_, hy, rfl, rfl⟩
    exact ⟨hy, rfl⟩
  · rintro ⟨hy, rfl⟩
    exact ⟨a, hy, rfl, rfl⟩

theorem writes_bind : (x >>= f).Writes b es ↔
    ∃ a es₁ es₂, x.Writes a es₁ ∧ (f a).Writes b es₂ ∧ es = es₁ ++ es₂ := by
  show (do
    let (a, es) ← x.run
    let (b, es') ← (f a).run
    pure (b, es ++ es') : Except ε (β × List ω)) = .ok (b, es) ↔ _
  simp only [Checked.bind_eq_ok, Checked.pure_eq_ok, Prod.mk.injEq]
  constructor
  · rintro ⟨⟨a, es₁⟩, hx, ⟨b', es₂⟩, hf, rfl, rfl⟩
    exact ⟨a, es₁, es₂, hx, hf, rfl⟩
  · rintro ⟨a, es₁, es₂, hx, hf, rfl⟩
    exact ⟨(a, es₁), hx, (b, es₂), hf, rfl, rfl⟩

@[simp] theorem writes_lift_bind :
    ((liftM y : Logged ε ω α) >>= f).Writes b es ↔ ∃ a, y = .ok a ∧ (f a).Writes b es := by
  rw [writes_bind]
  constructor
  · rintro ⟨a, es₁, es₂, hw, hf, rfl⟩
    obtain ⟨hy, rfl⟩ := writes_lift.1 hw
    exact ⟨a, hy, hf⟩
  · rintro ⟨a, hy, hf⟩
    exact ⟨a, [], es, writes_lift.2 ⟨hy, rfl⟩, hf, rfl⟩

@[simp] theorem writes_emit_bind {f : Unit → Logged ε ω β} :
    (emit e >>= f).Writes b es ↔ ∃ es', (f ()).Writes b es' ∧ es = e :: es' := by
  rw [writes_bind]
  constructor
  · rintro ⟨a, es₁, es₂, he, hf, rfl⟩
    cases he
    exact ⟨es₂, hf, rfl⟩
  · rintro ⟨es', hf, rfl⟩
    exact ⟨(), [e], es', rfl, hf, rfl⟩

end Logged
