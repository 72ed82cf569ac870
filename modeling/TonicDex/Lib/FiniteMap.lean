/-
  Finite maps, as association lists without repeated keys, and totals over
  them.

  `total m f` sums `f` over the entries of `m`.  `total_insert_add` and
  `total_erase_add` say how a write to one key moves a total; they are stated
  as equations between sums, so that no subtraction occurs.
-/
import Mathlib.Algebra.BigOperators.Ring.List
import Mathlib.Algebra.Order.BigOperators.Group.List
import Mathlib.Algebra.Order.Ring.Nat
import Mathlib.Data.List.AList
import Mathlib.Tactic.Common

/-- A finite map from `κ` to `ν`. -/
abbrev HMap (κ ν : Type) := AList (fun _ : κ => ν)

namespace HMap

variable {κ ν : Type} [DecidableEq κ]

/-! ## Lookups -/

theorem lookup_insert_eq (m : HMap κ ν) (k k' : κ) (v : ν) :
    (m.insert k v).lookup k' = if k' = k then some v else m.lookup k' := by
  split
  · next h => subst h; exact AList.lookup_insert m
  · next h => exact AList.lookup_insert_ne h

theorem lookup_erase_eq (m : HMap κ ν) (k k' : κ) :
    (m.erase k).lookup k' = if k' = k then none else m.lookup k' := by
  split
  · next h => subst h; exact AList.lookup_erase _ m
  · next h => exact AList.lookup_erase_ne h

theorem erase_of_none {m : HMap κ ν} {k : κ} (h : m.lookup k = none) : m.erase k = m :=
  AList.ext (List.kerase_of_notMem_keys (AList.lookup_eq_none.1 h))

theorem erase_insert (m : HMap κ ν) (k : κ) (v : ν) : (m.insert k v).erase k = m.erase k :=
  AList.ext (List.kerase_cons_eq rfl)

/-- What holds of every entry, and of the one written, holds after the write. -/
theorem forall_insert {P : κ → ν → Prop} {m : HMap κ ν} {k : κ} {v : ν}
    (h : ∀ k v, m.lookup k = some v → P k v) (hv : P k v) :
    ∀ k' v', (m.insert k v).lookup k' = some v' → P k' v' := by
  intro k' v' hl
  rw [lookup_insert_eq] at hl
  split_ifs at hl with hk
  · cases hl
    exact hk ▸ hv
  · exact h k' v' hl

theorem forall_erase {P : κ → ν → Prop} {m : HMap κ ν} {k : κ}
    (h : ∀ k v, m.lookup k = some v → P k v) :
    ∀ k' v', (m.erase k).lookup k' = some v' → P k' v' := by
  intro k' v' hl
  rw [lookup_erase_eq] at hl
  split_ifs at hl
  exact h k' v' hl

theorem forall_lookup_iff {m : HMap κ ν} {P : κ → ν → Prop} :
    (∀ k v, m.lookup k = some v → P k v) ↔ ∀ e ∈ m.entries, P e.1 e.2 :=
  ⟨fun h e he => h e.1 e.2 (AList.mem_lookup_iff.2 he),
    fun h _ _ hl => h _ (AList.mem_lookup_iff.1 hl)⟩

theorem mem_keys_iff (m : HMap κ ν) (k : κ) : k ∈ m.keys ↔ ∃ v, m.lookup k = some v := by
  rw [← AList.mem_keys, ← AList.lookup_isSome, Option.isSome_iff_exists]

theorem keys_eq_nil_iff (m : HMap κ ν) : m.keys = [] ↔ ∀ k, m.lookup k = none := by
  constructor
  · intro h k
    rw [AList.lookup_eq_none, AList.mem_keys, h]
    simp
  · intro h
    refine List.eq_nil_iff_forall_not_mem.2 fun k hk => ?_
    obtain ⟨v, hv⟩ := (mem_keys_iff m k).1 hk
    rw [h k] at hv; cases hv

/-- The number of entries. -/
def size (m : HMap κ ν) : ℕ := m.keys.length

theorem size_insert_of_none {m : HMap κ ν} {k : κ} {v : ν} (h : m.lookup k = none) :
    size (m.insert k v) = size m + 1 := by
  have hk : k ∉ m.keys := fun hk => AList.lookup_eq_none.1 h (AList.mem_keys.2 hk)
  simp only [size, AList.keys_insert, List.length_cons, List.erase_of_not_mem hk]

theorem size_insert_of_some {m : HMap κ ν} {k : κ} {v w : ν} (h : m.lookup k = some w) :
    size (m.insert k v) = size m := by
  have hk : k ∈ m.keys := (mem_keys_iff m k).2 ⟨w, h⟩
  have := List.length_pos_of_mem hk
  simp only [size, AList.keys_insert, List.length_cons, List.length_erase_of_mem hk]
  omega

theorem size_insert_le (m : HMap κ ν) (k : κ) (v : ν) : size (m.insert k v) ≤ size m + 1 := by
  rcases h : m.lookup k with _ | w
  · exact Nat.le_of_eq (size_insert_of_none h)
  · rw [size_insert_of_some h]
    exact Nat.le_succ _

theorem size_erase_of_some {m : HMap κ ν} {k : κ} {w : ν} (h : m.lookup k = some w) :
    size (m.erase k) + 1 = size m := by
  have hk : k ∈ m.keys := (mem_keys_iff m k).2 ⟨w, h⟩
  have := List.length_pos_of_mem hk
  simp only [size, AList.keys_erase, List.length_erase_of_mem hk]
  omega

/-! ## Totals -/

/-- The sum of `f` over the entries. -/
def total (m : HMap κ ν) (f : κ → ν → ℕ) : ℕ := (m.entries.map fun e => f e.1 e.2).sum

theorem sum_kerase_add (f : κ → ν → ℕ) (k : κ) :
    ∀ l : List (Sigma fun _ : κ => ν),
      ((l.kerase k).map fun e => f e.1 e.2).sum + (l.dlookup k).elim 0 (f k) =
        (l.map fun e => f e.1 e.2).sum
  | [] => by simp
  | ⟨k', v⟩ :: l => by
    by_cases h : k' = k
    · subst h
      simp [List.kerase_cons_eq, Nat.add_comm]
    · have hne : k ≠ k' := fun he => h he.symm
      have ih := sum_kerase_add f k l
      rw [List.kerase_cons_ne hne, List.dlookup_cons_ne l ⟨k', v⟩ hne]
      simp only [List.map_cons, List.sum_cons]
      omega

theorem total_erase_add (m : HMap κ ν) (f : κ → ν → ℕ) (k : κ) :
    total (m.erase k) f + (m.lookup k).elim 0 (f k) = total m f :=
  sum_kerase_add f k m.entries

theorem le_total {m : HMap κ ν} {k : κ} {v : ν} (h : m.lookup k = some v) (f : κ → ν → ℕ) :
    f k v ≤ total m f := by
  have := total_erase_add m f k
  rw [h] at this
  simp only [Option.elim_some] at this
  omega

theorem total_insert (m : HMap κ ν) (f : κ → ν → ℕ) (k : κ) (v : ν) :
    total (m.insert k v) f = f k v + total (m.erase k) f := by
  rw [total, AList.entries_insert, List.map_cons, List.sum_cons]
  rfl

/-- A write to `k` replaces the weight of the old value by that of the new. -/
theorem total_insert_add (m : HMap κ ν) (f : κ → ν → ℕ) (k : κ) (v : ν) :
    total (m.insert k v) f + (m.lookup k).elim 0 (f k) = total m f + f k v := by
  rw [total_insert, ← total_erase_add m f k]; omega

/-- A write of equal weight leaves the total as it is. -/
theorem total_insert_same {m : HMap κ ν} {f : κ → ν → ℕ} {k : κ} {v w : ν}
    (h : m.lookup k = some w) (hf : f k v = f k w) : total (m.insert k v) f = total m f := by
  have := total_insert_add m f k v
  rw [h] at this
  simp only [Option.elim_some] at this
  omega

theorem total_congr {m : HMap κ ν} {f g : κ → ν → ℕ}
    (h : ∀ k v, m.lookup k = some v → f k v = g k v) : total m f = total m g := by
  refine congrArg List.sum (List.map_congr_left fun e he => h e.1 e.2 ?_)
  exact AList.mem_lookup_iff.2 he

theorem total_le_total {m : HMap κ ν} {f g : κ → ν → ℕ}
    (h : ∀ k v, m.lookup k = some v → f k v ≤ g k v) : total m f ≤ total m g :=
  List.sum_le_sum fun e he => h e.1 e.2 (AList.mem_lookup_iff.2 he)

omit [DecidableEq κ] in
theorem total_add (m : HMap κ ν) (f g : κ → ν → ℕ) :
    (total m fun k v => f k v + g k v) = total m f + total m g :=
  List.sum_map_add

omit [DecidableEq κ] in
theorem total_mul (m : HMap κ ν) (f : κ → ν → ℕ) (n : ℕ) :
    (total m fun k v => n * f k v) = n * total m f :=
  List.sum_map_mul_left ..

omit [DecidableEq κ] in
theorem total_const (m : HMap κ ν) (n : ℕ) : (total m fun _ _ => n) = n * size m := by
  rw [total, List.map_const', List.sum_replicate_nat, Nat.mul_comm, size, AList.keys,
    List.keys, List.length_map]

/-- The entry of one key makes up a total of ones at that key. -/
theorem total_single {m : HMap κ ν} {k : κ} (h : k ∈ m.keys) :
    (total m fun k' _ => if k = k' then 1 else 0) = 1 := by
  obtain ⟨v, hv⟩ := (mem_keys_iff m k).1 h
  have hrest : (total (m.erase k) fun k' _ => if k = k' then 1 else 0) = 0 := by
    refine List.sum_eq_zero ?_
    intro n hn
    obtain ⟨e, he, rfl⟩ := List.mem_map.1 hn
    have hl : (m.erase k).lookup e.1 = some e.2 := AList.mem_lookup_iff.2 he
    rw [lookup_erase_eq] at hl
    split_ifs at hl with hk
    show (if k = e.1 then 1 else 0) = 0
    rw [if_neg (Ne.symm hk)]
  have hsum := total_erase_add m (fun k' _ => if k = k' then 1 else 0) k
  rw [hrest, hv, Option.elim_some, if_pos rfl] at hsum
  omega

/-- The elements of a list, counted by the keys they belong to. -/
theorem total_filter {α : Type} (m : HMap κ ν) (f : α → κ) {l : List α}
    (h : ∀ x ∈ l, f x ∈ m.keys) :
    (total m fun k _ => (l.filter (f · = k)).length) = l.length := by
  induction l with
  | nil =>
    have hnil : (total m fun k _ => (([] : List α).filter (f · = k)).length) =
        total m fun _ _ => 0 := rfl
    rw [hnil, total_const, Nat.zero_mul, List.length_nil]
  | cons x l ih =>
    have hx := total_single (h x (List.mem_cons_self ..))
    have hl := ih fun y hy => h y (List.mem_cons_of_mem _ hy)
    have hsplit : (total m fun k _ => ((x :: l).filter (f · = k)).length) =
        total m fun k _ => (if f x = k then 1 else 0) + (l.filter (f · = k)).length := by
      refine total_congr ?_
      intro k v _
      rw [List.filter_cons]
      by_cases hk : f x = k <;> simp [hk, Nat.add_comm]
    rw [hsplit, total_add, hx, hl, List.length_cons, Nat.add_comm]

end HMap
