/-
  Computations that may abort, and natural numbers with overflow checks.

  A call either returns a value or aborts with an error of some type `ε`.  The
  lemmas `*_eq_ok` invert a call that returned: `bind_eq_ok` takes a sequence
  apart, and the others read off what a check, a narrowing or a subtraction
  that passed has established.  `FailsOnly` bounds the errors of a computation
  by those of its parts.
-/
import Mathlib.Data.List.Forall2
import Mathlib.Algebra.Ring.Nat
import Mathlib.Tactic.Common

namespace Checked

variable {ε α β : Type}

/-! ## Calls that returned -/

@[simp] theorem bind_eq_ok {x : Except ε α} {f : α → Except ε β} {b : β} :
    x >>= f = .ok b ↔ ∃ a, x = .ok a ∧ f a = .ok b := by
  cases x with
  | ok a => simp [bind, Except.bind]
  | error e => simp [bind, Except.bind]

@[simp] theorem map_eq_ok {x : Except ε α} {f : α → β} {b : β} :
    f <$> x = .ok b ↔ ∃ a, x = .ok a ∧ f a = b := by
  cases x with
  | ok a => simp [Functor.map, Except.map]
  | error e => simp [Functor.map, Except.map]

@[simp] theorem pure_eq_ok {a b : α} : (pure a : Except ε α) = .ok b ↔ a = b := by
  simp [pure, Except.pure]

@[simp] theorem throw_eq_ok {e : ε} {b : α} : (throw e : Except ε α) = .ok b ↔ False := by
  simp [throw, throwThe, MonadExceptOf.throw]

@[simp] theorem ok_bind (a : α) (f : α → Except ε β) : (Except.ok a >>= f) = f a := rfl

@[simp] theorem error_bind (e : ε) (f : α → Except ε β) : (Except.error e >>= f) = .error e := rfl

theorem error_map (e : ε) (f : α → β) : f <$> (Except.error e : Except ε α) = .error e := rfl

/-- Going through a list returns what its elements return. -/
theorem mapM_eq_ok {f : α → Except ε β} : ∀ {l : List α} {bs : List β},
    l.mapM f = .ok bs ↔ List.Forall₂ (fun a b => f a = .ok b) l bs
  | [], bs => by
    rw [List.mapM_nil, pure_eq_ok, List.forall₂_nil_left_iff]
    exact eq_comm
  | a :: l, bs => by
    rw [List.mapM_cons, List.forall₂_cons_left_iff]
    simp only [bind_eq_ok, pure_eq_ok, mapM_eq_ok]
    constructor
    · rintro ⟨b, hb, bs, hbs, rfl⟩
      exact ⟨b, bs, hb, hbs, rfl⟩
    · rintro ⟨b, bs, hb, hbs, rfl⟩
      exact ⟨b, hb, bs, hbs, rfl⟩

/-- Going through a list returns if each of its elements does. -/
theorem mapM_total {f : α → Except ε β} {l : List α} (h : ∀ a ∈ l, ∃ b, f a = .ok b) :
    ∃ bs, l.mapM f = .ok bs := by
  induction l with
  | nil => exact ⟨[], rfl⟩
  | cons a l ih =>
    obtain ⟨b, hb⟩ := h a List.mem_cons_self
    obtain ⟨bs, hbs⟩ := ih fun a ha => h a (List.mem_cons_of_mem _ ha)
    exact ⟨b :: bs, by rw [List.mapM_cons, hb, hbs]; rfl⟩

theorem mapM_eq_map {f : α → Except ε β} {g : α → β} {l : List α}
    (h : ∀ a ∈ l, f a = .ok (g a)) : l.mapM f = .ok (l.map g) := by
  rw [mapM_eq_ok, List.forall₂_map_right_iff, List.forall₂_same]
  exact h

/-- Going through a list returns only if each of its elements does. -/
theorem mapM_ok_iff {f : α → Except ε β} {l : List α} :
    (∃ bs, l.mapM f = .ok bs) ↔ ∀ a ∈ l, ∃ b, f a = .ok b := by
  refine ⟨?_, mapM_total⟩
  rintro ⟨bs, h⟩
  rw [mapM_eq_ok] at h
  induction h with
  | nil => exact fun a ha => absurd ha List.not_mem_nil
  | cons hab _ ih => exact List.forall_mem_cons.2 ⟨⟨_, hab⟩, ih⟩

/-- What going through a list returns is what its elements return. -/
theorem mem_of_mapM {f : α → Except ε β} {l : List α} {bs : List β} (h : l.mapM f = .ok bs)
    {b : β} : b ∈ bs ↔ ∃ a ∈ l, f a = .ok b := by
  rw [mapM_eq_ok] at h
  induction h with
  | nil => simp
  | cons hab _ ih =>
    rw [List.mem_cons, ih, List.exists_mem_cons_iff, hab, Except.ok.injEq]
    exact or_congr eq_comm Iff.rfl

/-! ## Checks -/

/-- Abort with `e` unless `p` holds. -/
def require (e : ε) (p : Prop) [Decidable p] : Except ε Unit :=
  if p then .ok () else .error e

@[simp] theorem require_eq_ok {e : ε} {p : Prop} [Decidable p] {u : Unit} :
    require e p = .ok u ↔ p := by
  unfold require; split <;> simp_all

theorem require_pos {e : ε} {p : Prop} [Decidable p] (h : p) : require e p = .ok () := by
  simp [h]

/-- The value of an option, or abort with `e`. -/
def expect (e : ε) : Option α → Except ε α
  | some a => .ok a
  | none => .error e

@[simp] theorem expect_eq_ok {e : ε} {o : Option α} {a : α} : expect e o = .ok a ↔ o = some a := by
  cases o <;> simp [expect]

/-! ## Bounded naturals -/

/-- `n`, provided it fits in `bits` bits. -/
def fit (e : ε) (bits n : ℕ) : Except ε ℕ :=
  if n < 2 ^ bits then .ok n else .error e

@[simp] theorem fit_eq_ok {e : ε} {bits n m : ℕ} :
    fit e bits n = .ok m ↔ n < 2 ^ bits ∧ n = m := by
  by_cases h : n < 2 ^ bits
  · rw [fit, if_pos h]; simp [h]
  · rw [fit, if_neg h]; simp [h]

theorem fit_of_lt {e : ε} {bits n : ℕ} (h : n < 2 ^ bits) : fit e bits n = .ok n := by
  simp [h]

/-- Subtraction that aborts when it would go below zero. -/
def sub (e : ε) (a b : ℕ) : Except ε ℕ :=
  if b ≤ a then .ok (a - b) else .error e

@[simp] theorem sub_eq_ok {e : ε} {a b n : ℕ} : sub e a b = .ok n ↔ b ≤ a ∧ a - b = n := by
  by_cases h : b ≤ a
  · rw [sub, if_pos h]; simp [h]
  · rw [sub, if_neg h]; simp [h]

/-- Floor division that aborts on a zero divisor. -/
def div (e : ε) (a b : ℕ) : Except ε ℕ :=
  if b = 0 then .error e else .ok (a / b)

@[simp] theorem div_eq_ok {e : ε} {a b n : ℕ} : div e a b = .ok n ↔ b ≠ 0 ∧ a / b = n := by
  unfold div; split <;> simp_all

/-- Reduction to `bits` bits, as an unchecked narrowing cast does it. -/
def wrap (bits n : ℕ) : ℕ := n % 2 ^ bits

theorem wrap_le (bits n : ℕ) : wrap bits n ≤ n := Nat.mod_le _ _

theorem wrap_of_lt {bits n : ℕ} (h : n < 2 ^ bits) : wrap bits n = n := Nat.mod_eq_of_lt h

theorem wrap_lt (bits n : ℕ) : wrap bits n < 2 ^ bits := Nat.mod_lt _ (Nat.two_pow_pos _)

/-! ## Calls that aborted -/

/-- A sequence aborts where one of its parts does. -/
theorem bind_eq_error {x : Except ε α} {f : α → Except ε β} {e : ε} :
    x >>= f = .error e ↔ x = .error e ∨ ∃ a, x = .ok a ∧ f a = .error e := by
  cases x with
  | ok a => simp [bind, Except.bind]
  | error e => simp [bind, Except.bind]

theorem pure_ne_error {a : α} {e : ε} : (pure a : Except ε α) ≠ .error e := nofun

theorem require_eq_error {e e' : ε} {p : Prop} [Decidable p] :
    require e p = .error e' ↔ ¬ p ∧ e = e' := by
  unfold require; split <;> simp_all

theorem fit_eq_error {e e' : ε} {bits n : ℕ} :
    fit e bits n = .error e' ↔ 2 ^ bits ≤ n ∧ e = e' := by
  by_cases h : n < 2 ^ bits
  · rw [fit, if_pos h]; simp [Nat.not_le_of_lt h]
  · rw [fit, if_neg h]; simp [Nat.le_of_not_lt h]

/-! ## The errors a computation can abort with -/

/-- Every error that `x` aborts with satisfies `P`. -/
def FailsOnly (P : ε → Prop) (x : Except ε α) : Prop := ∀ e, x = .error e → P e

namespace FailsOnly

variable {P : ε → Prop} {e : ε} {x : Except ε α} {f : α → Except ε β} {p : Prop} [Decidable p]

theorem ne_error (h : FailsOnly P x) (he : ¬ P e) : x ≠ .error e := fun hx => he (h e hx)

theorem ne (h : FailsOnly (fun e' => e' ≠ e) x) : x ≠ .error e := fun hx => h e hx rfl

protected theorem pure (a : α) : FailsOnly P (pure a : Except ε α) := by
  intro e h; cases h

protected theorem throw (h : P e) : FailsOnly P (throw e : Except ε α) := by
  intro e' h'; cases h'; exact h

/-- A sequence aborts where one of its parts does. -/
protected theorem bind (hx : FailsOnly P x) (hf : ∀ a, x = .ok a → FailsOnly P (f a)) :
    FailsOnly P (x >>= f) := by
  intro e h
  rcases hxe : x with e' | a
  · rw [hxe] at h; cases h; exact hx e hxe
  · rw [hxe] at h; exact hf a hxe e h

theorem require (h : P e) : FailsOnly P (require e p) := by
  unfold Checked.require
  split
  · exact .pure ()
  · exact .throw h

/-- A check of what holds does not abort. -/
theorem require_of (hp : p) : FailsOnly P (Checked.require e p) := by
  rw [require_pos hp]; exact .pure ()

theorem expect {o : Option α} (h : P e) : FailsOnly P (expect e o) := by
  cases o with
  | none => exact .throw h
  | some a => exact .pure a

theorem fit {bits n : ℕ} (h : P e) : FailsOnly P (fit e bits n) := by
  unfold Checked.fit
  split
  · exact .pure n
  · exact .throw h

theorem sub {a b : ℕ} (h : P e) : FailsOnly P (sub e a b) := by
  unfold Checked.sub
  split
  · exact .pure _
  · exact .throw h

theorem div {a b : ℕ} (h : P e) : FailsOnly P (div e a b) := by
  unfold Checked.div
  split
  · exact .throw h
  · exact .pure _

/-- Going through a list aborts only where one of its elements does. -/
protected theorem mapM : ∀ {l : List α}, (∀ a ∈ l, FailsOnly P (f a)) → FailsOnly P (l.mapM f)
  | [], _ => .pure []
  | a :: l, h => by
    rw [List.mapM_cons]
    refine .bind (h a (List.mem_cons_self ..)) fun b _ => ?_
    refine .bind (FailsOnly.mapM fun a ha => h a (List.mem_cons_of_mem _ ha)) fun bs _ => ?_
    exact .pure _

theorem option_mapM {o : Option α} (h : ∀ a, o = some a → FailsOnly P (f a)) :
    FailsOnly P (o.mapM f) := by
  cases o with
  | none => exact .pure none
  | some a => exact .bind (h a rfl) fun b _ => .pure _

/-- A loop aborts only where one of its rounds does. -/
protected theorem foldlM {g : β → α → Except ε β} (h : ∀ b a, FailsOnly P (g b a)) :
    ∀ {l : List α} {b : β}, FailsOnly P (l.foldlM g b)
  | [], b => .pure b
  | a :: l, b => by
    rw [List.foldlM_cons]
    exact .bind (h b a) fun b _ => FailsOnly.foldlM h

end FailsOnly

end Checked
