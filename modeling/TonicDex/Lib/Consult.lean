/-
  Computations that consult an oracle.

  Such a computation is a function of the oracle, which answers a question or
  aborts.  `Asks x q` says that `x` asks `q`: it is what it makes of the answer
  to `q`, whatever the oracle is.  `AsksOnly Q x` says that `x` aborts without
  asking, or asks something that satisfies `Q`; its rules follow the sequencing
  of computations up to the question.
-/
import Mathlib.Logic.Nontrivial.Basic
import TonicDex.Lib.Checked

namespace Consult

variable {κ ρ ε α β : Type} {Q : κ → Prop} {x : (κ → Except ε ρ) → Except ε α} {q q' : κ}

/-- `x` asks `q`, and goes on from the answer. -/
def Asks (x : (κ → Except ε ρ) → Except ε α) (q : κ) : Prop :=
  ∃ rest : (κ → Except ε ρ) → ρ → Except ε α, ∀ f, x f = f q >>= rest f

/-- `x` aborts without asking, or asks something that satisfies `Q`. -/
def AsksOnly (Q : κ → Prop) (x : (κ → Except ε ρ) → Except ε α) : Prop :=
  (∃ e, ∀ f, x f = .error e) ∨ ∃ q, Q q ∧ Asks x q

/-- An oracle that aborts decides how `x` aborts. -/
theorem Asks.eq_error (h : Asks x q) {f : κ → Except ε ρ} {e : ε} (hf : f q = .error e) :
    x f = .error e := by
  obtain ⟨rest, h⟩ := h
  rw [h, hf, Checked.error_bind]

/-- **There is one question that `x` asks.** -/
theorem Asks.unique [Nontrivial ε] (h : Asks x q) (h' : Asks x q') : q = q' := by
  classical
  obtain ⟨e, e', hne⟩ := exists_pair_ne ε
  by_contra hq
  -- an oracle that tells the two questions apart
  let f : κ → Except ε ρ := fun k => if k = q then .error e else .error e'
  have h₁ : x f = .error e := h.eq_error (if_pos rfl)
  have h₂ : x f = .error e' := h'.eq_error (if_neg (Ne.symm hq))
  exact hne (Except.error.inj (h₁.symm.trans h₂))

theorem asks_self (k : (κ → Except ε ρ) → ρ → Except ε α) (q : κ) :
    Asks (fun f => f q >>= k f) q :=
  ⟨k, fun _ => rfl⟩

/-- A computation that starts with the question `q` asks nothing else. -/
theorem asks_self_iff [Nontrivial ε] (k : (κ → Except ε ρ) → ρ → Except ε α) :
    Asks (fun f => f q >>= k f) q' ↔ q' = q :=
  ⟨fun h => h.unique (asks_self k q), fun h => h ▸ asks_self k q⟩

theorem not_asks_error [Nontrivial ε] {e : ε} (hx : ∀ f, x f = .error e) : ¬ Asks x q := by
  intro h
  obtain ⟨e', hne⟩ := exists_ne e
  have he : x (fun _ => .error e') = .error e' := h.eq_error rfl
  rw [hx] at he
  exact hne (Except.error.inj he).symm

/-- What comes before the question has to return. -/
theorem asks_bind_left_iff [Nontrivial ε] {z : (κ → Except ε ρ) → Except ε β} {y : Except ε β}
    {k : (κ → Except ε ρ) → β → Except ε α} (hz : ∀ f, z f = y) :
    Asks (fun f => z f >>= k f) q ↔ ∃ a, y = .ok a ∧ Asks (fun f => k f a) q := by
  rcases y with e | a
  · refine iff_of_false (not_asks_error (e := e) fun f => ?_) nofun
    rw [hz, Checked.error_bind]
  · have hk : (fun f => z f >>= k f) = fun f => k f a := by
      funext f
      rw [hz, Checked.ok_bind]
    rw [hk]
    simp only [Except.ok.injEq, exists_eq_left']

/-- What comes after the question does not matter. -/
theorem Asks.bind {y : (κ → Except ε ρ) → Except ε β} (hy : Asks y q)
    {k : (κ → Except ε ρ) → β → Except ε α} : Asks (fun f => y f >>= k f) q := by
  obtain ⟨rest, hrest⟩ := hy
  refine ⟨fun f r => rest f r >>= k f, fun f => ?_⟩
  dsimp only
  rw [hrest]
  exact bind_assoc (f q) (rest f) (k f)

namespace AsksOnly

/-- What does not depend on the oracle comes before the question. -/
theorem bind_left {z : (κ → Except ε ρ) → Except ε β} {y : Except ε β}
    {k : (κ → Except ε ρ) → β → Except ε α} (hz : ∀ f, z f = y)
    (h : ∀ a, y = .ok a → AsksOnly Q fun f => k f a) : AsksOnly Q fun f => z f >>= k f := by
  rcases hy : y with e | a
  · refine .inl ⟨e, fun f => ?_⟩
    dsimp only
    rw [hz, hy, Checked.error_bind]
  · have hk : (fun f => z f >>= k f) = fun f => k f a := by
      funext f
      rw [hz, hy, Checked.ok_bind]
    rw [hk]
    exact h a hy

/-- What comes after the question does not matter. -/
protected theorem bind {y : (κ → Except ε ρ) → Except ε β} (hy : AsksOnly Q y)
    {k : (κ → Except ε ρ) → β → Except ε α} : AsksOnly Q fun f => y f >>= k f := by
  obtain ⟨e, he⟩ | ⟨q, hq, hask⟩ := hy
  · refine .inl ⟨e, fun f => ?_⟩
    dsimp only
    rw [he, Checked.error_bind]
  · exact .inr ⟨q, hq, hask.bind⟩

theorem ask (hq : Q q) : AsksOnly Q fun f : κ → Except ε ρ => f q :=
  .inr ⟨q, hq, fun _ r => pure r, fun f => (bind_pure (f q)).symm⟩

/-- What is asked satisfies `Q`. -/
theorem of_asks [Nontrivial ε] (h : AsksOnly Q x) (hq : Asks x q) : Q q := by
  obtain ⟨e, he⟩ | ⟨q', hq', hask⟩ := h
  · exact absurd hq (not_asks_error he)
  · rw [hq.unique hask]
    exact hq'

/-- Where one part of a computation asks at most, all of it asks the same. -/
theorem bind_iff [Nontrivial ε] {y : (κ → Except ε ρ) → Except ε β} (hy : AsksOnly Q y)
    {k : (κ → Except ε ρ) → β → Except ε α} : Asks (fun f => y f >>= k f) q ↔ Asks y q := by
  obtain ⟨e, he⟩ | ⟨q', -, hask⟩ := hy
  · refine iff_of_false (not_asks_error (e := e) fun f => ?_) (not_asks_error he)
    rw [he, Checked.error_bind]
  · constructor
    · intro h
      rw [h.unique hask.bind]
      exact hask
    · exact fun h => h.bind

/-- A computation that returns has asked. -/
theorem of_ok (h : AsksOnly Q x) {f : κ → Except ε ρ} {a : α} (hx : x f = .ok a) :
    ∃ q, Q q ∧ Asks x q := by
  obtain ⟨e, he⟩ | h := h
  · rw [he] at hx
    cases hx
  · exact h

end AsksOnly

end Consult
