import PiiProxy.Lib.Program

/-!
# Programs that follow a protocol

A protocol says which calls a thread may make in which phase, and to which phase the answer takes
it. When every thread of a pool follows the protocol, an invariant that relates the shared state to
the phases of all threads needs to be shown for single calls that the protocol allows, and then
holds in every interleaving.

## Main definitions

* `Prog.Protocol`: the calls of each phase, the answers that they may get, and the next phase.
* `Prog.Protocol.Follows`: a program follows the protocol from a phase on.
* `Prog.Protocol.Kept`: an invariant that the calls of the protocol keep.

## Main results

* `Prog.Protocol.Follows.bind`: sequencing.
* `Prog.Protocol.Kept.steps`: the invariant holds in every run of a pool.
* `Prog.sum_update`: what a sum over the threads becomes when one of them moves.
-/

universe u v w x

namespace Prog

variable {E : Type u} {R : E → Type v} {α β : Type v} {Q : Type w} {σ : Type x}

/-- The calls that each phase allows, the answers that calls may get, and the phase after an
answer. -/
structure Protocol (E : Type u) (R : E → Type v) (Q : Type w) where
  Allows : Q → E → Prop
  Answers : (e : E) → R e → Prop
  next : Q → (e : E) → R e → Q

namespace Protocol

variable (P : Protocol E R Q)

/-- The program makes only calls that its phase allows, and its last phase and its result satisfy
`post`. -/
def Follows (post : Q → α → Prop) : Q → Prog E R α → Prop
  | q, .ret a => post q a
  | q, .call e k => P.Allows q e ∧ ∀ r, P.Answers e r → Follows post (P.next q e r) (k r)

variable {P} {post post' : Q → α → Prop} {q : Q} {p : Prog E R α}

theorem Follows.mono (hpost : ∀ q a, post q a → post' q a) (hp : P.Follows post q p) :
    P.Follows post' q p := by
  induction p generalizing q with
  | ret a => exact hpost q a hp
  | call e k ih => exact ⟨hp.1, fun r hr => ih r (hp.2 r hr)⟩

/-- Sequencing: the second program goes on in the last phase of the first one. -/
theorem Follows.bind {post : Q → β → Prop} {f : α → Prog E R β}
    (hp : P.Follows (fun q a => P.Follows post q (f a)) q p) : P.Follows post q (p.bind f) := by
  induction p generalizing q with
  | ret a => exact hp
  | call e k ih => exact ⟨hp.1, fun r hr => ih r (hp.2 r hr)⟩

/-- A part of a program, whose calls keep the phase. -/
theorem Follows.inr {F : Type u} {RF : F → Type v} {P : Protocol (F ⊕ E) (Sum.elim RF R) Q}
    {post : Q → α → Prop} {q : Q} (hcalls : ∀ e, P.Allows q (.inr e))
    (hnext : ∀ e (r : R e), P.next q (.inr e) r = q) (hpost : ∀ a, post q a) (p : Prog E R α) :
    P.Follows post q p.inr := by
  induction p with
  | ret a => exact hpost a
  | call e k ih =>
    refine ⟨hcalls e, fun r _ => ?_⟩
    have hr : P.next q (.inr e) r = q := hnext e r
    rw [hr]
    exact ih r

variable {ι : Type*} [DecidableEq ι]

/-- What relates the shared state to the phases of the threads is kept by every call that the
protocol allows, and by the environment. -/
structure Kept (P : Protocol E R Q) (S : Sys σ E R) (I : σ → (ι → Q) → Prop) : Prop where
  call : ∀ {s phase i e r s'}, I s phase → P.Allows (phase i) e → S.handle e s r s' →
    P.Answers e r ∧ I s' (Function.update phase i (P.next (phase i) e r))
  env : ∀ {s s' phase}, I s phase → S.env s s' → I s' phase

/-- The threads follow the protocol from their phases on, which satisfy the invariant. -/
def Running (P : Protocol E R Q) (post : ι → Q → α → Prop) (I : σ → (ι → Q) → Prop)
    (c : σ × (ι → Thread E R α)) : Prop :=
  ∃ phase : ι → Q, (∀ i, P.Follows (post i) (phase i) (c.2 i).prog) ∧ I c.1 phase

variable {S : Sys σ E R} {I : σ → (ι → Q) → Prop} {post : ι → Q → α → Prop}
  {c c' : σ × (ι → Thread E R α)}

/-- One step of the pool. -/
theorem Kept.step (hI : P.Kept S I) (hc : P.Running post I c) (hstep : Step S c c') :
    P.Running post I c' := by
  obtain ⟨phase, hfollows, hinv⟩ := hc
  cases hstep with
  | @call s s' p i e k r hp hr =>
    have hi := hfollows i
    simp only [hp] at hi
    obtain ⟨hanswers, hinv'⟩ := hI.call hinv hi.1 hr
    refine ⟨_, fun j => ?_, hinv'⟩
    by_cases hj : j = i
    · subst hj
      simp only [Function.update_self]
      exact hi.2 r hanswers
    · simp only [Function.update_of_ne hj]
      exact hfollows j
  | env he => exact ⟨phase, hfollows, hI.env hinv he⟩

/-- **Every interleaving** of threads that follow the protocol keeps the invariant. -/
theorem Kept.steps (hI : P.Kept S I) (hc : P.Running post I c) (hsteps : Steps S c c') :
    P.Running post I c' := by
  induction hsteps with
  | refl => exact hc
  | tail _ hstep ih => exact hI.step ih hstep

end Protocol

/-- A thread that moves to the phase `q` moves a sum over the threads by its own change. -/
theorem sum_update {ι M : Type*} [Fintype ι] [DecidableEq ι] [AddCommMonoid M] (weight : Q → M)
    (phase : ι → Q) (i : ι) (q : Q) :
    ∑ j, weight (Function.update phase i q j) + weight (phase i) =
      ∑ j, weight (phase j) + weight q := by
  have hrest : ∑ j ∈ Finset.univ.erase i, weight (Function.update phase i q j) =
      ∑ j ∈ Finset.univ.erase i, weight (phase j) :=
    Finset.sum_congr rfl fun j hj => by rw [Function.update_of_ne (Finset.ne_of_mem_erase hj)]
  rw [← Finset.add_sum_erase _ _ (Finset.mem_univ i),
    ← Finset.add_sum_erase _ _ (Finset.mem_univ i), Function.update_self, hrest,
    add_comm (weight q), add_comm (weight (phase i)), add_right_comm]

end Prog
