/-
  Lists of keyed items that are used up by requests.

  A request names an item by its key and leaves what `reduce` says of it, or
  nothing.  `Used ok l rs l'` says that the requests `rs`, one after the other,
  each naming an item of the list that it fits by `ok`, turn `l` into `l'`.
  The rules below carry a property of one request over to all of them:

  * `Used.sum_add_le`, `Used.sum_add_eq`: what the items weigh before is at
    least (exactly) what they weigh after plus the costs of the requests;
  * `Used.origin`: an item left over comes from one with the same key;
  * `Used.keeps`: what fitting requests keep of an item holds of all left over;
  * `Used.target`: a request fits a descendant of the original item it names;
  * `Used.mem_keys_iff`: the keys that are left are those no request removed.
-/
import Mathlib.Data.List.Nodup
import Mathlib.Algebra.BigOperators.Group.List.Basic
import Mathlib.Algebra.Ring.Nat
import Mathlib.Tactic.Common

/-- How requests `β` use up items `α` with keys `κ`. -/
structure Consumption (α β κ : Type) where
  key : α → κ
  target : β → κ
  reduce : α → β → Option α
  key_reduce : ∀ {a r a'}, reduce a r = some a' → key a' = key a

namespace Consumption

variable {α β κ : Type} [DecidableEq κ] (R : Consumption α β κ)

/-- The list after one request. -/
def use (l : List α) (r : β) : List α :=
  l.filterMap fun a => if R.key a = R.target r then R.reduce a r else some a

/-- Requests that fit turn a list into another. -/
inductive Used (ok : α → β → Prop) : List α → List β → List α → Prop
  | nil (l : List α) : Used ok l [] l
  | cons {l l' : List α} {a : α} {r : β} {rs : List β} (mem : a ∈ l)
      (key : R.key a = R.target r) (fits : ok a r) (rest : Used ok (R.use l r) rs l') :
      Used ok l (r :: rs) l'

variable {R} {ok : α → β → Prop} {l l' : List α} {a : α} {r : β} {rs : List β}

/-! ## One request -/

theorem mem_use {a' : α} : a' ∈ R.use l r ↔
    (a' ∈ l ∧ R.key a' ≠ R.target r) ∨
      ∃ a ∈ l, R.key a = R.target r ∧ R.reduce a r = some a' := by
  simp only [use, List.mem_filterMap]
  constructor
  · rintro ⟨a, ha, h⟩
    split_ifs at h with hk
    · exact .inr ⟨a, ha, hk, h⟩
    · cases h; exact .inl ⟨ha, hk⟩
  · rintro (⟨ha, hk⟩ | ⟨a, ha, hk, h⟩)
    · exact ⟨a', ha, if_neg hk⟩
    · exact ⟨a, ha, by rw [if_pos hk, h]⟩

theorem use_keys_sublist : ∀ l : List α, ((R.use l r).map R.key).Sublist (l.map R.key)
  | [] => by simp [use]
  | a :: l => by
    have ih := use_keys_sublist l
    simp only [use, List.filterMap_cons] at ih ⊢
    split_ifs with hk
    · rcases h : R.reduce a r with _ | a'
      · simpa using ih.cons (R.key a)
      · simpa [R.key_reduce h] using ih.cons_cons (R.key a)
    · simpa using ih.cons_cons (R.key a)

theorem use_of_forall_ne (h : ∀ a ∈ l, R.key a ≠ R.target r) : R.use l r = l := by
  have : ∀ a ∈ l, (if R.key a = R.target r then R.reduce a r else some a) = some a :=
    fun a ha => if_neg (h a ha)
  rw [use, List.filterMap_congr this]
  exact List.filterMap_some

theorem use_cons_of_ne (h : R.key a ≠ R.target r) (l : List α) :
    R.use (a :: l) r = a :: R.use l r := by
  simp only [use, List.filterMap_cons, if_neg h]

theorem use_cons_of_eq (hk : R.key a = R.target r) (h : ∀ b ∈ l, R.key b ≠ R.key a) :
    R.use (a :: l) r = (R.reduce a r).toList ++ l := by
  have hl : R.use l r = l := use_of_forall_ne fun b hb he => h b hb (he.trans hk.symm)
  rcases hr : R.reduce a r with _ | a'
  · simpa [use, List.filterMap_cons, if_pos hk, hr] using hl
  · simpa [use, List.filterMap_cons, if_pos hk, hr] using hl

/-- With distinct keys, a request changes the weight of the item it names only. -/
theorem sum_use_add (w : α → ℕ) : ∀ {l : List α}, (l.map R.key).Nodup → a ∈ l →
    R.key a = R.target r →
    ((R.use l r).map w).sum + w a = (l.map w).sum + (R.reduce a r).elim 0 w
  | b :: l, hn, ha, hk => by
    simp only [List.map_cons, List.nodup_cons, List.mem_map, not_exists, not_and] at hn
    obtain ⟨hb, hn⟩ := hn
    rcases List.mem_cons.1 ha with rfl | ha
    · have hl : R.use l r = l := use_of_forall_ne fun x hx he => hb x hx (he.trans hk.symm)
      simp only [use, List.filterMap_cons, if_pos hk] at hl ⊢
      rcases R.reduce a r with _ | a'
      · simp [hl, Nat.add_comm]
      · simp only [hl, List.map_cons, List.sum_cons, Option.elim_some]; omega
    · have hne : R.key b ≠ R.target r := fun he => hb a ha (hk.trans he.symm)
      have ih := sum_use_add w hn ha hk
      simp only [use, List.filterMap_cons, if_neg hne, List.map_cons, List.sum_cons] at ih ⊢
      omega

/-! ## Many requests -/

namespace Used

/-- The requests determine what is left. -/
theorem eq_foldl (h : R.Used ok l rs l') : l' = rs.foldl R.use l := by
  induction h with
  | nil l => rfl
  | cons _ _ _ _ ih => exact ih

theorem keys_sublist (h : R.Used ok l rs l') : (l'.map R.key).Sublist (l.map R.key) := by
  induction h with
  | nil l => exact List.Sublist.refl _
  | cons _ _ _ _ ih => exact ih.trans (use_keys_sublist _)

/-- Requests for other items pass over an item. -/
theorem cons_left (h : R.Used ok l rs l') :
    (∀ b ∈ l, R.key b ≠ R.key a) → R.Used ok (a :: l) rs (a :: l') := by
  induction h with
  | nil l => exact fun _ => .nil _
  | @cons l l' b r rs mem key fits rest ih =>
    intro hne
    have hr : R.key a ≠ R.target r := fun he => hne b mem (key.trans he.symm)
    refine .cons (List.mem_cons_of_mem a mem) key fits ?_
    rw [use_cons_of_ne hr]
    refine ih fun c hc => ?_
    have hcl := (use_keys_sublist (r := r) l).subset (List.mem_map_of_mem hc)
    obtain ⟨d, hd, hdc⟩ := List.mem_map.1 hcl
    exact hdc ▸ hne d hd

/-- Costs and what is left add up to at most the weight before. -/
theorem sum_add_le {w : α → ℕ} {cost : β → ℕ}
    (hw : ∀ a r, ok a r → (R.reduce a r).elim 0 w + cost r ≤ w a)
    (h : R.Used ok l rs l') (hn : (l.map R.key).Nodup) :
    (l'.map w).sum + (rs.map cost).sum ≤ (l.map w).sum := by
  induction h with
  | nil l => simp
  | @cons l l' a r rs mem key fits rest ih =>
    have h1 := ih (hn.sublist (use_keys_sublist _))
    have h2 := sum_use_add w hn mem key
    have h3 := hw a r fits
    simp only [List.map_cons, List.sum_cons]
    omega

/-- Costs and what is left add up to the weight before. -/
theorem sum_add_eq {w : α → ℕ} {cost : β → ℕ}
    (hw : ∀ a r, R.key a = R.target r → ok a r → (R.reduce a r).elim 0 w + cost r = w a)
    (h : R.Used ok l rs l') (hn : (l.map R.key).Nodup) :
    (l'.map w).sum + (rs.map cost).sum = (l.map w).sum := by
  induction h with
  | nil l => simp
  | @cons l l' a r rs mem key fits rest ih =>
    have h1 := ih (hn.sublist (use_keys_sublist _))
    have h2 := sum_use_add w hn mem key
    have h3 := hw a r key fits
    simp only [List.map_cons, List.sum_cons]
    omega

/-- An item left over comes from one it is related to, with the same key. -/
theorem origin {rel : α → α → Prop} (refl : ∀ a, rel a a)
    (trans : ∀ a b c, rel a b → rel b c → rel a c)
    (step : ∀ a r a', R.reduce a r = some a' → rel a a') (h : R.Used ok l rs l') :
    ∀ a' ∈ l', ∃ a ∈ l, R.key a = R.key a' ∧ rel a a' := by
  induction h with
  | nil l => exact fun a ha => ⟨a, ha, rfl, refl a⟩
  | cons _ _ _ _ ih =>
    intro a' ha'
    obtain ⟨b, hb, hkb, hr⟩ := ih a' ha'
    obtain ⟨hb, -⟩ | ⟨a, ha, -, hab⟩ := mem_use.1 hb
    · exact ⟨b, hb, hkb, hr⟩
    · exact ⟨a, ha, (R.key_reduce hab).symm.trans hkb, trans _ _ _ (step _ _ _ hab) hr⟩

/-- What fitting requests keep holds of every item left over. -/
theorem keeps {P : α → Prop} (step : ∀ a r a', ok a r → R.reduce a r = some a' → P a → P a')
    (h : R.Used ok l rs l') (hl : ∀ a ∈ l, P a) (hn : (l.map R.key).Nodup) : ∀ a ∈ l', P a := by
  induction h with
  | nil l => exact hl
  | @cons l l' a r rs mem key fits rest ih =>
    refine ih (fun a' ha' => ?_) (hn.sublist (use_keys_sublist _))
    obtain ⟨ha', -⟩ | ⟨b, hb, hkb, hred⟩ := mem_use.1 ha'
    · exact hl a' ha'
    · obtain rfl : a = b := List.inj_on_of_nodup_map hn mem hb (key.trans hkb.symm)
      exact step a r a' fits hred (hl a mem)

/-- A request fits something that comes from the original item it names. -/
theorem target (rel : α → α → Prop) (refl : ∀ a, rel a a)
    (trans : ∀ a b c, rel a b → rel b c → rel a c)
    (step : ∀ a r a', R.reduce a r = some a' → rel a a') (h : R.Used ok l rs l') :
    ∀ r ∈ rs, ∃ a ∈ l, R.key a = R.target r ∧ ∃ b, rel a b ∧ ok b r := by
  induction h with
  | nil l => intro r hr; cases hr
  | @cons l l' a r rs mem key fits rest ih =>
    intro x hx
    rcases List.mem_cons.1 hx with rfl | hx
    · exact ⟨a, mem, key, a, refl a, fits⟩
    · obtain ⟨b, hb, hkb, c, hbc, hc⟩ := ih x hx
      obtain ⟨hb, -⟩ | ⟨a₀, ha₀, -, hab⟩ := mem_use.1 hb
      · exact ⟨b, hb, hkb, c, hbc, hc⟩
      · exact ⟨a₀, ha₀, (R.key_reduce hab).symm.trans hkb, c,
          trans _ _ _ (step _ _ _ hab) hbc, hc⟩

/-- The keys left over are those that no request removed. -/
theorem mem_keys_iff {removes : β → Prop}
    (hr : ∀ a r, ok a r → (R.reduce a r = none ↔ removes r))
    (h : R.Used ok l rs l') (hn : (l.map R.key).Nodup) (k : κ) :
    k ∈ l'.map R.key ↔ k ∈ l.map R.key ∧ ∀ r ∈ rs, R.target r = k → ¬ removes r := by
  induction h with
  | nil l => simp
  | @cons l l' a r rs mem key fits rest ih =>
    rw [ih (hn.sublist (use_keys_sublist _)), List.forall_mem_cons, ← and_assoc]
    refine and_congr_left fun _ => ?_
    simp only [List.mem_map, mem_use]
    constructor
    · rintro ⟨x, ⟨hx, hxk⟩ | ⟨b, hb, hkb, hbx⟩, rfl⟩
      · exact ⟨⟨x, hx, rfl⟩, fun he => absurd he.symm hxk⟩
      · have hab : a = b := List.inj_on_of_nodup_map hn mem hb (key.trans hkb.symm)
        subst hab
        refine ⟨⟨a, mem, (R.key_reduce hbx).symm⟩, fun _ hrem => ?_⟩
        rw [(hr a r fits).2 hrem] at hbx; cases hbx
    · rintro ⟨⟨x, hx, rfl⟩, hrem⟩
      by_cases hxk : R.key x = R.target r
      · have hax : a = x := List.inj_on_of_nodup_map hn mem hx (key.trans hxk.symm)
        subst hax
        rcases hred : R.reduce a r with _ | a'
        · exact absurd ((hr a r fits).1 hred) (hrem hxk.symm)
        · exact ⟨a', .inr ⟨a, mem, key, hred⟩, R.key_reduce hred⟩
      · exact ⟨x, .inl ⟨hx, hxk⟩, rfl⟩

end Used

end Consumption
