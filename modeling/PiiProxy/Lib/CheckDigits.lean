import Mathlib

/-!
# What check digits notice

A check digit compares a sum over the digits of a number, each weighted by its position, modulo some
number. A digit that is read wrong changes one term of the sum, and two neighbours that are swapped
change two, so what goes unnoticed is a matter of these terms.

## Main definitions

* `CheckDigits.total`: the sum over the positions.

## Main results

* `CheckDigits.total_substitute_modEq_iff`: when a wrong digit goes unnoticed.
* `CheckDigits.total_swap_modEq_iff`: when a swap goes unnoticed.
-/

namespace CheckDigits

variable {α : Type*} {f : ℕ → α → ℕ} {p q : List α} {a b : α} {m : ℕ}

/-- The sum of the terms at the positions. -/
def total (f : ℕ → α → ℕ) (s : List α) : ℕ := (s.mapIdx f).sum

theorem total_cons (f : ℕ → α → ℕ) (a : α) (s : List α) :
    total f (a :: s) = f 0 a + total (fun i => f (i + 1)) s := by
  rw [total, List.mapIdx_cons, List.sum_cons]
  rfl

theorem total_append (f : ℕ → α → ℕ) (p q : List α) :
    total f (p ++ q) = total f p + total (fun i => f (p.length + i)) q := by
  induction p generalizing f with
  | nil => simp [total]
  | cons a p ih =>
    rw [List.cons_append, total_cons, total_cons, ih, Nat.add_assoc]
    simp only [List.length_cons, Nat.add_right_comm _ 1]

/-- **A wrong digit goes unnoticed** exactly when its term is that of the right one. -/
theorem total_substitute_modEq_iff :
    total f (p ++ a :: q) ≡ total f (p ++ b :: q) [MOD m] ↔
      f p.length a ≡ f p.length b [MOD m] := by
  simp only [total_append, total_cons, Nat.add_zero]
  constructor
  · intro h
    exact Nat.ModEq.add_right_cancel' _ (Nat.ModEq.add_left_cancel' _ h)
  · intro h
    exact (h.add_right _).add_left _

/-- **Swapped neighbours go unnoticed** exactly when their terms have the same sum. -/
theorem total_swap_modEq_iff :
    total f (p ++ a :: b :: q) ≡ total f (p ++ b :: a :: q) [MOD m] ↔
      f p.length a + f (p.length + 1) b ≡ f p.length b + f (p.length + 1) a [MOD m] := by
  simp only [total_append, total_cons, Nat.add_zero, ← Nat.add_assoc]
  constructor
  · intro h
    have hsum := Nat.ModEq.add_right_cancel' _ h
    simp only [Nat.add_assoc] at hsum
    exact Nat.ModEq.add_left_cancel' _ hsum
  · intro h
    have hsum := (h.add_left (total f p)).add_right (total (fun i => f (p.length + (i + 1 + 1))) q)
    simpa only [Nat.add_assoc] using hsum

end CheckDigits
