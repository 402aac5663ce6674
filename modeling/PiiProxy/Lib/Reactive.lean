import Mathlib

/-!
# Reactive machines

A reactive machine answers inputs one after another, and an answer may depend on the state that the
earlier inputs have left. Two machines answer alike when a relation between their states, which may
speak of the inputs that are still to come, makes one answer agree and is kept by it.

## Main definitions

* `Reactive.final`, `Reactive.outputs`: the last state, and the answers.
* `Reactive.Logged`: the logs of a machine that may answer in several ways.

## Main results

* `Reactive.outputs_append`: the answers to more inputs.
* `Reactive.forall₂_outputs_of_simulation`: a simulation relates all answers.
* `Reactive.map_outputs_eq_of_simulation`: machines that simulate each other answer alike.
* `Reactive.Logged.outputs_eq`: simulation up to refusals.
-/

universe u v w

namespace Reactive

variable {ι : Type u} {σ : Type v} {ο : Type w}

/-- The state after inputs. -/
def final (step : ι → σ → ο × σ) (is : List ι) (s : σ) : σ :=
  is.foldl (fun s i => (step i s).2) s

/-- The answers to inputs, one after another. -/
def outputs (step : ι → σ → ο × σ) : List ι → σ → List ο
  | [], _ => []
  | i :: is, s => (step i s).1 :: outputs step is (step i s).2

variable (step : ι → σ → ο × σ)

@[simp] theorem final_nil (s : σ) : final step [] s = s := rfl

@[simp] theorem final_cons (i : ι) (is : List ι) (s : σ) :
    final step (i :: is) s = final step is (step i s).2 := rfl

theorem final_append (is is' : List ι) (s : σ) :
    final step (is ++ is') s = final step is' (final step is s) := List.foldl_append

theorem length_outputs (is : List ι) (s : σ) : (outputs step is s).length = is.length := by
  induction is generalizing s with
  | nil => rfl
  | cons i is ih => rw [outputs, List.length_cons, List.length_cons, ih]

theorem outputs_append (is is' : List ι) (s : σ) :
    outputs step (is ++ is') s = outputs step is s ++ outputs step is' (final step is s) := by
  induction is generalizing s with
  | nil => rfl
  | cons i is ih => rw [List.cons_append, outputs, outputs, ih, List.cons_append, final_cons]

/-- The answer to the input behind some others. -/
theorem getElem?_outputs (is : List ι) (i : ι) (is' : List ι) (s : σ) :
    (outputs step (is ++ i :: is') s)[is.length]? = some (step i (final step is s)).1 := by
  rw [outputs_append, List.getElem?_append_right (length_outputs step is s).le, length_outputs,
    Nat.sub_self, outputs, List.getElem?_cons_zero]

variable {step}

/-- **Simulation.** When related states give related answers and stay related, all answers are
related. -/
theorem forall₂_outputs_of_simulation {ι' : Type*} {σ' : Type*} {ο' : Type*}
    {step' : ι' → σ' → ο' × σ'} (input : ι → ι') {view : ο → ο' → Prop}
    {R : List ι → σ → σ' → Prop}
    (hstep : ∀ i is s s', R (i :: is) s s' →
      view (step i s).1 (step' (input i) s').1 ∧ R is (step i s).2 (step' (input i) s').2)
    (is : List ι) {s : σ} {s' : σ'} (h : R is s s') :
    List.Forall₂ view (outputs step is s) (outputs step' (is.map input) s') := by
  induction is generalizing s s' with
  | nil => exact .nil
  | cons i is ih =>
    obtain ⟨hanswer, hnext⟩ := hstep i is s s' h
    exact .cons hanswer (ih hnext)

/-- When related states give the same answer and stay related, all answers are the same. -/
theorem map_outputs_eq_of_simulation {ι' : Type*} {σ' : Type*} {ο' ω : Type*}
    {step' : ι' → σ' → ο' × σ'} (input : ι → ι') (view : ο → ω) (view' : ο' → ω)
    {R : List ι → σ → σ' → Prop}
    (hstep : ∀ i is s s', R (i :: is) s s' →
      view (step i s).1 = view' (step' (input i) s').1 ∧
        R is (step i s).2 (step' (input i) s').2)
    (is : List ι) {s : σ} {s' : σ'} (h : R is s s') :
    (outputs step is s).map view = (outputs step' (is.map input) s').map view' := by
  have hrelated : List.Forall₂ (fun o o' => view o = view' o') (outputs step is s)
      (outputs step' (is.map input) s') := forall₂_outputs_of_simulation input hstep is h
  rw [← List.forall₂_eq_eq_eq, List.forall₂_map_left_iff, List.forall₂_map_right_iff]
  exact hrelated

/-! ### Machines that may answer in several ways -/

/-- The log of a machine of which `serves i s o s'` tells how it may answer: inputs with their
answers, one after another. -/
inductive Logged (serves : ι → σ → ο → σ → Prop) : σ → List (ι × ο) → σ → Prop
  | nil (s : σ) : Logged serves s [] s
  | cons {i : ι} {s : σ} {o : ο} {s₁ : σ} {log : List (ι × ο)} {s' : σ} (h : serves i s o s₁)
      (hlog : Logged serves s₁ log s') : Logged serves s ((i, o) :: log) s'

/-- An invariant of the states, and what it says of the answers. -/
theorem Logged.forall_answers {serves : ι → σ → ο → σ → Prop} {I : σ → Prop} {Q : ο → Prop}
    (hserves : ∀ i s o s', I s → serves i s o s' → Q o ∧ I s') {s s' : σ} {log : List (ι × ο)}
    (hlog : Logged serves s log s') (h : I s) : ∀ e ∈ log, Q e.2 := by
  induction hlog with
  | nil => exact fun e he => absurd he List.not_mem_nil
  | @cons i s o s₁ log s' hi _ ih =>
    obtain ⟨ho, hnext⟩ := hserves i s o s₁ h hi
    exact List.forall_mem_cons.2 ⟨ho, ih hnext⟩

/-- **Simulation up to refusals.** When each answer is that of the other machine in a related state,
and the states stay related, or is a refusal, and the other machine need not move, then what is not
refused is answered as by the other machine. -/
theorem Logged.outputs_eq {τ : Type*} {serves : ι → τ → ο → τ → Prop} {R : σ → τ → Prop}
    {refused : ο → Bool}
    (hserves : ∀ i s t o t', R s t → serves i t o t' →
      (o = (step i s).1 ∧ refused o = false ∧ R (step i s).2 t') ∨ (refused o = true ∧ R s t'))
    {t t' : τ} {log : List (ι × ο)} (hlog : Logged serves t log t') {s : σ} (h : R s t) :
    let answered := log.filter fun e => !refused e.2
    answered.map Prod.snd = outputs step (answered.map Prod.fst) s := by
  induction hlog generalizing s with
  | nil => rfl
  | @cons i t o t₁ log t' hi _ ih =>
    rcases hserves i s t o t₁ h hi with ⟨ho, hanswered, hnext⟩ | ⟨hrefused, hnext⟩
    · rw [List.filter_cons_of_pos (by rw [hanswered]; rfl)]
      simp only [List.map_cons, outputs]
      exact congrArg₂ _ ho (ih hnext)
    · rw [List.filter_cons_of_neg (by rw [hrefused]; exact Bool.false_ne_true)]
      exact ih hnext

end Reactive
