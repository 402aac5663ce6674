import PiiProxy.Lib.Program

/-!
# What programs return after their histories

A program may be run against any system. A specification of its results by its history, the calls
with the answers that they got, does not depend on the system: every call may get any answer. Such a
specification is proved call by call, and holds of every thread of a pool, whatever the other
threads and the environment do.

## Main definitions

* `Prog.Every`: a specification that holds of every result.

## Main results

* `Prog.Every.bind`, `Prog.Every.mono`, `Prog.Every.translate_call`, `Prog.Every.inr`: the rules.
* `Prog.Every.of_steps`: threads of a pool.
-/

universe u v w x

namespace Prog

variable {E : Type u} {R : E → Type v} {α β : Type v} {σ : Type x}

/-- Whatever answers the calls after the history get, the result satisfies `Q`. -/
def Every (Q : List (Event E R) → α → Prop) : List (Event E R) → Prog E R α → Prop
  | h, .ret a => Q h a
  | h, .call e k => ∀ r, Every Q (h ++ [⟨e, r⟩]) (k r)

namespace Every

variable {Q Q' : List (Event E R) → α → Prop} {h : List (Event E R)} {p : Prog E R α}

theorem mono (hQ : ∀ h a, Q h a → Q' h a) (hp : Every Q h p) : Every Q' h p := by
  induction p generalizing h with
  | ret a => exact hQ h a hp
  | call e k ih => exact fun r => ih r (hp r)

/-- Sequencing. -/
theorem bind {Q : List (Event E R) → β → Prop} {f : α → Prog E R β}
    (hp : Every (fun h a => Every Q h (f a)) h p) : Every Q h (p.bind f) := by
  induction p generalizing h with
  | ret a => exact hp
  | call e k ih => exact fun r => ih r (hp r)

/-- A call of an implemented operation. -/
theorem translate_call {E' : Type u} {R' : E' → Type v} {f : (e : E') → Prog E R (R' e)} {e : E'}
    {k : R' e → Prog E' R' α} (hf : Every (fun h r => Every Q h ((k r).translate f)) h (f e)) :
    Every Q h ((Prog.call e k).translate f) :=
  bind hf

/-- A part of a program that makes other calls as well. -/
theorem inr {F : Type u} {RF : F → Type v} {h' : List (Event (F ⊕ E) (Sum.elim RF R))}
    (hp : Every Q h p) : Every (fun h'' a => ∃ calls : List (Event E R),
      h'' = h' ++ calls.map Event.inr ∧ Q (h ++ calls) a) h' p.inr := by
  induction p generalizing h h' with
  | ret a => exact ⟨[], by simp, (List.append_nil h).symm ▸ hp⟩
  | call e k ih =>
    intro r
    refine (ih r (hp r)).mono ?_
    rintro _ a ⟨calls, rfl, hQ⟩
    exact ⟨⟨e, r⟩ :: calls, by simp [Event.inr], by simpa using hQ⟩

variable {ι : Type*} [DecidableEq ι] {S : Sys σ E R}

/-- One step of a pool. -/
theorem of_step {Q : ι → List (Event E R) → α → Prop} {c c' : σ × (ι → Thread E R α)}
    (hstep : Step S c c') (hp : ∀ i, Every (Q i) (c.2 i).hist (c.2 i).prog) (i : ι) :
    Every (Q i) (c'.2 i).hist (c'.2 i).prog := by
  cases hstep with
  | @call s s' p j e k r hpj hr =>
    by_cases hi : i = j
    · subst hi
      have hi := hp i
      simp only [hpj] at hi
      simpa only [Function.update_self] using hi r
    · simpa only [Function.update_of_ne hi] using hp i
  | env he => exact hp i

/-- Steps of a pool. -/
theorem all_of_steps {Q : ι → List (Event E R) → α → Prop} {c c' : σ × (ι → Thread E R α)}
    (hc : Steps S c c') (hp : ∀ i, Every (Q i) (c.2 i).hist (c.2 i).prog) (i : ι) :
    Every (Q i) (c'.2 i).hist (c'.2 i).prog := by
  induction hc generalizing i with
  | refl => exact hp i
  | tail _ hstep ih => exact of_step hstep ih i

/-- **Every finished thread** of a pool satisfies its specification. -/
theorem of_steps {Q : ι → List (Event E R) → α → Prop} {c c' : σ × (ι → Thread E R α)}
    (hc : Steps S c c') (hp : ∀ i, Every (Q i) (c.2 i).hist (c.2 i).prog) {i : ι} {a : α}
    (hi : (c'.2 i).prog = .ret a) : Q i (c'.2 i).hist a := by
  have h := all_of_steps hc hp i
  rw [hi] at h
  exact h

end Every

end Prog
