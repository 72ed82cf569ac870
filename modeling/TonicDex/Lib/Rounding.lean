/-
  Rounding down, term by term and at once.

  `IsFloor a d q` bounds a quotient from both sides.  Rounding the terms of a
  sum down loses the sum of their remainders: `sum_div_le` compares the two
  ways of rounding, and `sum_div_eq_iff` says when nothing is lost.
-/
import Mathlib.Algebra.BigOperators.Group.List.Basic
import Mathlib.Algebra.Ring.Nat
import Mathlib.Order.Bounds.Basic
import Mathlib.Tactic.Common

namespace Rounding

variable {α : Type} {a d q : ℕ} {f : α → ℕ}

/-! ## One quotient -/

/-- `q` is `a / d`, rounded down. -/
def IsFloor (a d q : ℕ) : Prop := q * d ≤ a ∧ a < (q + 1) * d

theorem isFloor_iff (hd : 0 < d) : IsFloor a d q ↔ q = a / d := by
  unfold IsFloor
  constructor
  · rintro ⟨hle, hlt⟩
    exact Nat.le_antisymm ((Nat.le_div_iff_mul_le hd).2 hle)
      (Nat.lt_succ_iff.1 ((Nat.div_lt_iff_lt_mul hd).2 hlt))
  · rintro rfl
    exact ⟨Nat.div_mul_le_self a d, Nat.lt_mul_of_div_lt (Nat.lt_succ_self _) hd⟩

/-- A quotient that is reduced modulo `n` is exact if it was below `n`. -/
theorem isFloor_mod_iff (hd : 0 < d) {n : ℕ} (hn : 0 < n) :
    IsFloor a d (a / d % n) ↔ a / d < n := by
  rw [isFloor_iff hd]
  exact ⟨fun h => h ▸ Nat.mod_lt _ hn, Nat.mod_eq_of_lt⟩

/-- **Nested floors find the greatest quantity within two bounds**: so many parts
    of `u` do not exceed `b`, nor `x` when each of them costs `v`. -/
theorem isGreatest_min_div {u v : ℕ} (hu : 0 < u) (hv : 0 < v) (b x : ℕ) :
    IsGreatest {n | n * u ≤ b ∧ n * u * v ≤ x} (min (b / u) (x / v / u)) := by
  have hset : {n | n * u ≤ b ∧ n * u * v ≤ x} = Set.Iic (min (b / u) (x / v / u)) := by
    ext n
    rw [Set.mem_Iic, Nat.le_min, Nat.le_div_iff_mul_le hu, Nat.le_div_iff_mul_le hu,
      Nat.le_div_iff_mul_le hv]
    rfl
  rw [hset]
  exact isGreatest_Iic

/-- What is left after taking off a part, rounded down, grows with the whole. -/
theorem sub_mul_div_mono {r : ℕ} (hr : r ≤ d) : Monotone fun x => x - x * r / d := by
  rcases Nat.eq_zero_or_pos d with rfl | hd
  · simp only [Nat.div_zero, Nat.sub_zero]
    exact monotone_id
  · refine monotone_nat_of_le_succ fun x => ?_
    have hle : (x + 1) * r / d ≤ x * r / d + 1 := by
      rw [← Nat.add_div_right _ hd, Nat.succ_mul]
      exact Nat.div_le_div_right (Nat.add_le_add_left hr _)
    omega

/-! ## Sums of quotients -/

/-- What rounding down takes off each term, together. -/
theorem mul_sum_div_add (f : α → ℕ) (d : ℕ) : ∀ l : List α,
    d * (l.map fun x => f x / d).sum + (l.map fun x => f x % d).sum = (l.map f).sum
  | [] => by simp
  | x :: l => by
    have ih := mul_sum_div_add f d l
    have hx := Nat.div_add_mod (f x) d
    simp only [List.map_cons, List.sum_cons, Nat.mul_add]
    omega

/-- Rounding each term is at most rounding the sum. -/
theorem sum_div_le (f : α → ℕ) (d : ℕ) (l : List α) :
    (l.map fun x => f x / d).sum ≤ (l.map f).sum / d := by
  rcases Nat.eq_zero_or_pos d with rfl | hd
  · simp
  · rw [Nat.le_div_iff_mul_le hd, Nat.mul_comm, ← mul_sum_div_add f d l]
    exact Nat.le_add_right _ _

/-- **Rounding the terms loses nothing just in case their remainders, with what
    comes on top, stay below the divisor.** -/
theorem sum_div_eq_iff (hd : 0 < d) (f : α → ℕ) (l : List α) (e : ℕ) :
    ((l.map f).sum + e) / d = (l.map fun x => f x / d).sum ↔
      (l.map fun x => f x % d).sum + e < d := by
  have hsum : (l.map f).sum + e =
      (l.map fun x => f x % d).sum + e + d * (l.map fun x => f x / d).sum := by
    rw [← mul_sum_div_add f d l]
    omega
  rw [hsum, Nat.add_mul_div_left _ _ hd, Nat.add_eq_right, Nat.div_eq_zero_iff_lt hd]

/-! ## Exact quotients -/

/-- Multiples of the divisor can be added before or after dividing. -/
theorem sum_mul_div (k : ℕ) (h : d ∣ k) (l : List ℕ) :
    (l.map fun x => x * k / d).sum = l.sum * k / d := by
  simp only [Nat.mul_div_assoc _ h]
  induction l with
  | nil => simp
  | cons x l ih => rw [List.map_cons, List.sum_cons, List.sum_cons, ih, Nat.add_mul]

end Rounding
