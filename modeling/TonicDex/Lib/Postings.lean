/-
  Postings, and journals that say what is posted.

  A posting is a signed amount under a key, and `net xs k` is what the postings
  `xs` come to under `k`.  What an entry of a journal posts may depend on the
  entries before it: `posted f xs` are the postings of the entries `xs`, if
  `f past x` are those of `x` after `past`.
-/
import Mathlib.Algebra.BigOperators.Group.List.Basic
import Mathlib.Algebra.Order.Ring.Int
import Mathlib.Data.List.Induction

namespace Postings

variable {α β κ : Type}

/-! ## Net amounts -/

section net

variable [DecidableEq κ]

def net (xs : List (κ × ℤ)) (k : κ) : ℤ := (xs.map fun x => if x.1 = k then x.2 else 0).sum

@[simp] theorem net_nil (k : κ) : net [] k = 0 := rfl

@[simp] theorem net_cons (x : κ × ℤ) (xs : List (κ × ℤ)) (k : κ) :
    net (x :: xs) k = (if x.1 = k then x.2 else 0) + net xs k := List.sum_cons

theorem net_append (xs ys : List (κ × ℤ)) (k : κ) : net (xs ++ ys) k = net xs k + net ys k := by
  rw [net, List.map_append, List.sum_append]
  rfl

end net

/-! ## Journals -/

def posted (f : List α → α → List β) (xs : List α) : List β :=
  (xs.foldl (fun (acc : List α × List β) x => (acc.1 ++ [x], acc.2 ++ f acc.1 x)) ([], [])).2

@[simp] theorem posted_nil (f : List α → α → List β) : posted f [] = [] := rfl

theorem posted_concat (f : List α → α → List β) (xs : List α) (x : α) :
    posted f (xs ++ [x]) = posted f xs ++ f xs x := by
  have past : ∀ xs : List α, (xs.foldl (fun (acc : List α × List β) x =>
      (acc.1 ++ [x], acc.2 ++ f acc.1 x)) ([], [])).1 = xs := by
    intro xs
    induction xs using List.reverseRecOn with
    | nil => rfl
    | append_singleton xs x ih =>
      rw [List.foldl_append, List.foldl_cons, List.foldl_nil, ih]
  rw [posted, List.foldl_append, List.foldl_cons, List.foldl_nil, past]
  rfl

end Postings
