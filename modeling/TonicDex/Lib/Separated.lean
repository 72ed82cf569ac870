/-
  Texts joined by a separator.

  What comes before the first separator of a joined text, and what comes after
  the last one, can be read off it (`first`, `last`).  What lies between cannot
  if it may contain separators itself: `append_eq_iff` lists the ways in which
  two joined texts can be equal, and `word_eq_iff` those in which two texts
  with a separator-free word in the middle can be.
-/
import Mathlib.Data.List.Basic
import Mathlib.Tactic.Common

namespace Separated

variable {α : Type} {s : α} {a b c d k l q k' l' q' : List α}

/-- Two joined texts are equal when their parts are, or when one text's first
    part runs over the separator into the other's second part. -/
theorem append_eq_iff : a ++ s :: c = b ++ s :: d ↔
    (a = b ∧ c = d) ∨ (∃ w, a = b ++ s :: w ∧ d = w ++ s :: c) ∨
      ∃ w, b = a ++ s :: w ∧ c = w ++ s :: d := by
  rw [List.append_eq_append_iff]
  constructor
  · rintro (⟨v, rfl, h⟩ | ⟨v, rfl, h⟩)
    · rcases v with _ | ⟨x, w⟩
      · exact .inl ⟨by simp, (List.cons.inj h).2⟩
      · obtain ⟨rfl, rfl⟩ := List.cons.inj h
        exact .inr (.inr ⟨w, rfl, rfl⟩)
    · rcases v with _ | ⟨x, w⟩
      · exact .inl ⟨by simp, (List.cons.inj h).2.symm⟩
      · obtain ⟨rfl, rfl⟩ := List.cons.inj h
        exact .inr (.inl ⟨w, rfl, rfl⟩)
  · rintro (⟨rfl, rfl⟩ | ⟨w, rfl, rfl⟩ | ⟨w, rfl, rfl⟩)
    · exact .inl ⟨[], by simp, rfl⟩
    · exact .inr ⟨s :: w, rfl, rfl⟩
    · exact .inl ⟨s :: w, rfl, rfl⟩

theorem mem_middle : s ∈ a ++ s :: b := List.mem_append_right _ List.mem_cons_self

/-- The text before the first separator. -/
theorem first (ha : s ∉ a) (hb : s ∉ b) (h : a ++ s :: c = b ++ s :: d) : a = b ∧ c = d := by
  obtain h | ⟨w, rfl, -⟩ | ⟨w, rfl, -⟩ := append_eq_iff.1 h
  · exact h
  · exact absurd mem_middle ha
  · exact absurd mem_middle hb

/-- The text after the last separator. -/
theorem last (hc : s ∉ c) (hd : s ∉ d) (h : a ++ s :: c = b ++ s :: d) : a = b ∧ c = d := by
  obtain h | ⟨w, -, rfl⟩ | ⟨w, -, rfl⟩ := append_eq_iff.1 h
  · exact h
  · exact absurd mem_middle hd
  · exact absurd mem_middle hc

/-- The first text of `k l q` runs over `k' l'`, and what it has left over makes
    up `q'`, with the rest. -/
def Straddles (s : α) (k l q k' l' q' : List α) : Prop :=
  ∃ w, k = k' ++ s :: (l' ++ w) ∧ w ++ s :: (l ++ s :: q) = s :: q'

theorem Straddles.eq (h : Straddles s k l q k' l' q') :
    k ++ s :: (l ++ s :: q) = k' ++ s :: (l' ++ s :: q') := by
  obtain ⟨w, rfl, h⟩ := h
  rw [← h]
  simp only [List.append_assoc, List.cons_append]

/-- A text that runs over a word does so up to a separator. -/
theorem Straddles.of_eq {v : List α} (hl : s ∉ l') (h : l' ++ s :: q' = v ++ s :: (l ++ s :: q)) :
    Straddles s (k' ++ s :: v) l q k' l' q' := by
  obtain ⟨rfl, rfl⟩ | ⟨w, rfl, -⟩ | ⟨w, rfl, rfl⟩ := append_eq_iff.1 h
  · exact ⟨[], by simp, rfl⟩
  · exact absurd mem_middle hl
  · exact ⟨s :: w, rfl, rfl⟩

/-- **Two texts with a word in the middle are equal when their parts are, or
    when one straddles the other.** -/
theorem word_eq_iff (hl : s ∉ l) (hl' : s ∉ l') :
    k ++ s :: (l ++ s :: q) = k' ++ s :: (l' ++ s :: q') ↔
      (k = k' ∧ l = l' ∧ q = q') ∨ Straddles s k l q k' l' q' ∨ Straddles s k' l' q' k l q := by
  constructor
  · intro h
    obtain ⟨rfl, hr⟩ | ⟨v, rfl, hr⟩ | ⟨v, rfl, hr⟩ := append_eq_iff.1 h
    · exact .inl ⟨rfl, first hl hl' hr⟩
    · exact .inr (.inl (.of_eq hl' hr))
    · exact .inr (.inr (.of_eq hl hr))
  · rintro (⟨rfl, rfl, rfl⟩ | h | h)
    · rfl
    · exact h.eq
    · exact h.eq.symm

/-- Without separators in the first texts, only equal parts make equal texts. -/
theorem not_straddles (hk : s ∉ k) : ¬ Straddles s k l q k' l' q' := by
  rintro ⟨w, rfl, -⟩
  exact hk mem_middle

/-- If the first texts have as many marks `x`, the text that is left over has none,
    and does not reach the first mark of `q'`. -/
theorem not_straddles_of_marks [DecidableEq α] {x : α} {p t : List α} (hxs : x ≠ s)
    (hk : k.count x ≤ k'.count x) (hl : x ∉ l) (hp : s ∉ p) :
    ¬ Straddles s k l q k' l' (p ++ x :: t) := by
  rintro ⟨w, rfl, h⟩
  have hw : x ∉ w := by
    rw [List.count_append, List.count_cons_of_ne hxs.symm, List.count_append] at hk
    exact List.count_eq_zero.1 (by omega)
  have hjoin : (w ++ s :: l) ++ s :: q = (s :: p) ++ x :: t := by simpa using h
  obtain ⟨v, hv, hr⟩ | ⟨v, hv, hr⟩ := List.append_eq_append_iff.1 hjoin
  · -- the separator after `l` stands before the mark
    rcases v with _ | ⟨y, v⟩
    · exact hxs (List.cons.inj hr).1.symm
    · obtain ⟨rfl, -⟩ := List.cons.inj hr
      rcases w with _ | ⟨z, w⟩
      · exact hp ((List.cons.inj hv).2 ▸ by simp)
      · exact hp ((List.cons.inj hv).2 ▸ by simp)
  · rcases v with _ | ⟨y, v⟩
    · exact hxs (List.cons.inj hr).1
    · obtain ⟨rfl, -⟩ := List.cons.inj hr
      have hmem : x ∈ w ++ s :: l := hv ▸ by simp
      rcases List.mem_append.1 hmem with h | h
      · exact hw h
      · exact (List.mem_cons.1 h).elim hxs hl

end Separated
