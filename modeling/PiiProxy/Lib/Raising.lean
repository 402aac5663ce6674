import Mathlib

/-!
# Computations that may raise

How a computation in `Except` that returned came to its result: through the results of its steps,
and for a loop through states that keep every invariant of the loop body.

## Main results

* `Except.bind_eq_ok`, `Except.foldlM_cons_eq_ok`: a sequence that returned, a loop that returned.
* `Except.exists_of_any`: a computation whose result passes a test.
* `Except.foldlM_invariant`: the invariant rule of a loop.
-/

universe u v

namespace Except

variable {ε : Type u} {α β : Type v}

/-- A sequence returns exactly when both of its steps do. -/
theorem bind_eq_ok {x : Except ε α} {f : α → Except ε β} {b : β} :
    x >>= f = .ok b ↔ ∃ a, x = .ok a ∧ f a = .ok b := by
  cases x with
  | error e =>
    constructor
    · intro h
      cases h
    · rintro ⟨a, ha, -⟩
      cases ha
  | ok a =>
    constructor
    · exact fun h => ⟨a, rfl, h⟩
    · rintro ⟨a', ha, h⟩
      cases ha
      exact h

/-- A computation whose result passes a test returned. -/
theorem exists_of_any {x : Except ε α} {test : α → Bool} (h : x.toOption.any test = true) :
    ∃ a, x = .ok a ∧ test a = true := by
  cases x with
  | error e => cases h
  | ok a => exact ⟨a, rfl, h⟩

/-- A loop returns exactly when its first round and the rest of it do. -/
theorem foldlM_cons_eq_ok {f : β → α → Except ε β} {a : α} {l : List α} {b b' : β} :
    (a :: l).foldlM f b = .ok b' ↔ ∃ b₁, f b a = .ok b₁ ∧ l.foldlM f b₁ = .ok b' := by
  rw [List.foldlM_cons]
  exact bind_eq_ok

/-- What every round of a loop over elements of the list keeps, the loop keeps. -/
theorem foldlM_invariant_of_mem {f : β → α → Except ε β} {P : β → Prop} {l : List α} {b b' : β}
    (hf : ∀ b a b', a ∈ l → P b → f b a = .ok b' → P b') (hb : P b)
    (h : l.foldlM f b = .ok b') : P b' := by
  induction l generalizing b with
  | nil =>
    cases h
    exact hb
  | cons a l ih =>
    obtain ⟨b₁, hb₁, h⟩ := foldlM_cons_eq_ok.mp h
    exact ih (fun b a' b' ha' => hf b a' b' (List.mem_cons_of_mem _ ha'))
      (hf b a b₁ List.mem_cons_self hb hb₁) h

/-- What every round of a loop keeps, the loop keeps. -/
theorem foldlM_invariant {f : β → α → Except ε β} {P : β → Prop}
    (hf : ∀ b a b', P b → f b a = .ok b' → P b') {l : List α} {b b' : β} (hb : P b)
    (h : l.foldlM f b = .ok b') : P b' :=
  foldlM_invariant_of_mem (fun b a b' _ => hf b a b') hb h

end Except
