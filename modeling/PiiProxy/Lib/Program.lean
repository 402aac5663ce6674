import Mathlib

/-!
# Programs that call operations of a shared state

A program is a tree of calls to operations `e : E`, each answered by an element of `R e`. A system
gives the operations their effect on a shared state: an operation may have several answers, so
failures are modelled by answers, and the environment may act on its own between calls. Programs run
alone (`Prog.Exec`) or as a pool of threads interleaved at single calls in any order
(`Prog.Step`). Each thread keeps the history of its own calls with their answers.

The proof rule is rely–guarantee with one relation for everybody. A *law* is an invariant `I` of
states with a preorder `L` on states that the environment obeys. A program is *safe* for a law and
a postcondition when, whatever steps of the law happen between its calls, each of its calls obeys
the law and its result satisfies the postcondition. If every thread of a pool is safe, every
interleaving obeys the law and every finished thread satisfies its postcondition
(`Prog.Steps.safe`).

## Main definitions

* `Prog`, `Prog.bind`, `Prog.op`: programs, sequencing, a single call.
* `Sys`, `Prog.Exec`, `Prog.Step`: systems, runs of one program, steps of a pool.
* `Prog.Wp`: what a program run alone establishes.
* `Prog.Law`, `Prog.Safe`: laws of the shared state, safety of a program.
* `Sys.restrict`: the system in which only some of the effects happen.
* `Prog.translate`: replace every operation by a program over another set of operations.
* `Prog.simulate`, `Prog.advances`: the run of a program, and the run of a pool under a schedule,
  when a function answers the calls.
* `Prog.Trace`: the calls and answers on the way to a result, whatever answers the calls.

## Main results

* `Prog.Trace.bind_inv`: the traces of programs in sequence.
* `Prog.Wp.mono`, `Prog.Wp.bind`, `Prog.Exec.wp`: the rules for `Prog.Wp`.
* `Prog.exec_simulate`, `Prog.exec_of_checks`, `Prog.steps_advances`, `Prog.steps_of_checks`: these
  are runs.
* `Prog.simulate_of_checks`: what the calls of the run of a program keep.
* `Prog.Safe.stable`, `Prog.Safe.mono`, `Prog.Safe.since`, `Prog.Safe.bind`,
  `Prog.Safe.translate_call`: the rules for `Prog.Safe`.
* `Prog.Steps.safe`, `Prog.Steps.post`: safe programs run safely.
-/

universe u v x

/-- A program that returns an `α` and calls operations `e : E` with answers in `R e`. -/
inductive Prog (E : Type u) (R : E → Type v) (α : Type v) where
  | ret (a : α)
  | call (e : E) (k : R e → Prog E R α)

/-- A shared state with operations: `handle e s r s'` says that calling `e` in the state `s` may
be answered by `r` and leave `s'`. The environment may turn `s` into `s'` when `env s s'`. -/
structure Sys (σ : Type x) (E : Type u) (R : E → Type v) where
  handle : (e : E) → σ → R e → σ → Prop
  env : σ → σ → Prop

/-- The system in which a call has only those effects that meet the condition `C`. -/
def Sys.restrict {σ : Type x} {E : Type u} {R : E → Type v} (S : Sys σ E R)
    (C : (e : E) → σ → R e → σ → Prop) : Sys σ E R where
  handle e s r s' := S.handle e s r s' ∧ C e s r s'
  env := S.env

namespace Prog

variable {E : Type u} {R : E → Type v} {α β : Type v} {σ : Type x}

/-! ### Sequencing -/

/-- Run `p`, then the program given by its result. -/
def bind : Prog E R α → (α → Prog E R β) → Prog E R β
  | .ret a, f => f a
  | .call e k, f => .call e fun r => bind (k r) f

instance : Monad (Prog E R) where
  pure := .ret
  bind := bind

/-- A single call. -/
def op (e : E) : Prog E R (R e) := .call e .ret

@[simp] theorem pure_eq (a : α) : (pure a : Prog E R α) = .ret a := rfl

@[simp] theorem bind_eq (p : Prog E R α) (f : α → Prog E R β) : p >>= f = p.bind f := rfl

@[simp] theorem bind_ret (a : α) (f : α → Prog E R β) : (Prog.ret a).bind f = f a := rfl

@[simp] theorem bind_call (e : E) (k : R e → Prog E R α) (f : α → Prog E R β) :
    (Prog.call e k).bind f = .call e fun r => (k r).bind f := rfl

@[simp] theorem bind_op (e : E) (f : R e → Prog E R β) :
    (op e : Prog E R (R e)).bind f = .call e f := rfl

theorem bind_ret_right (p : Prog E R α) : p.bind .ret = p := by
  induction p with
  | ret a => rfl
  | call e k ih => exact congrArg (Prog.call e) (funext ih)

/-- The result when operation `e` is always answered by `answer e`. -/
def eval (answer : (e : E) → R e) : Prog E R α → α
  | .ret a => a
  | .call e k => eval answer (k (answer e))

/-- Replace every call of `e` by the program `f e`. -/
def translate {E' : Type u} {R' : E' → Type v} (f : (e : E) → Prog E' R' (R e)) :
    Prog E R α → Prog E' R' α
  | .ret a => .ret a
  | .call e k => (f e).bind fun r => translate f (k r)

/-- The program as a part of one that makes other calls as well. -/
def inr {F : Type u} {RF : F → Type v} (p : Prog E R α) : Prog (F ⊕ E) (Sum.elim RF R) α :=
  p.translate fun e => .call (.inr e) .ret

/-! ### Traces -/

/-- A call with its answer. -/
abbrev Event (E : Type u) (R : E → Type v) : Type (max u v) := Σ e : E, R e

/-- A call of a part. -/
def Event.inr {F : Type u} {RF : F → Type v} (x : Event E R) : Event (F ⊕ E) (Sum.elim RF R) :=
  ⟨.inr x.1, x.2⟩

/-- `Trace p h a`: with the calls and answers `h`, whatever they are, `p` returns `a`. -/
inductive Trace : Prog E R α → List (Event E R) → α → Prop
  | ret (a : α) : Trace (.ret a) [] a
  | call {e k r h a} (hk : Trace (k r) h a) : Trace (.call e k) (⟨e, r⟩ :: h) a

/-- A trace of two programs in sequence is a trace of the one followed by a trace of the other. -/
theorem Trace.bind_inv {p : Prog E R α} {f : α → Prog E R β} {h : List (Event E R)} {b : β}
    (ht : Trace (p.bind f) h b) :
    ∃ h₁ h₂ a, h = h₁ ++ h₂ ∧ Trace p h₁ a ∧ Trace (f a) h₂ b := by
  induction p generalizing h with
  | ret a => exact ⟨[], h, a, rfl, .ret a, ht⟩
  | call e k ih =>
    rw [bind_call] at ht
    cases ht with
    | @call _ _ r h' _ hk =>
      obtain ⟨h₁, h₂, a, rfl, h₁a, h₂b⟩ := ih r hk
      exact ⟨⟨e, r⟩ :: h₁, h₂, a, rfl, .call h₁a, h₂b⟩

/-! ### Running a program alone -/

/-- `Exec S h p s h' a s'`: from the state `s`, with the environment acting between calls, `p`
returns `a` in the state `s'`, the history of its calls growing from `h` to `h'`. -/
inductive Exec (S : Sys σ E R) :
    List (Event E R) → Prog E R α → σ → List (Event E R) → α → σ → Prop
  | ret (h a s) : Exec S h (.ret a) s h a s
  | env {h p s s₁ h' a s'} (he : S.env s s₁) (hp : Exec S h p s₁ h' a s') :
      Exec S h p s h' a s'
  | call {h e k s r s₁ h' a s'} (hr : S.handle e s r s₁)
      (hk : Exec S (h ++ [⟨e, r⟩]) (k r) s₁ h' a s') : Exec S h (.call e k) s h' a s'

/-- The run in which `respond` answers the calls: the history, the result and the last state. -/
def simulate (respond : (e : E) → σ → R e × σ) :
    List (Event E R) → Prog E R α → σ → List (Event E R) × α × σ
  | h, .ret a, s => (h, a, s)
  | h, .call e k, s => simulate respond (h ++ [⟨e, (respond e s).1⟩]) (k (respond e s).1)
      (respond e s).2

/-- The result and the last state do not depend on the history. -/
theorem simulate_snd (respond : (e : E) → σ → R e × σ) (h h' : List (Event E R)) (p : Prog E R α)
    (s : σ) : (simulate respond h p s).2 = (simulate respond h' p s).2 := by
  induction p generalizing h h' s with
  | ret a => rfl
  | call e k ih => exact ih _ _ _ _

/-- Every call of this run meets the test `ok` in the state in which it is made. -/
def simulateChecks (ok : E → σ → Bool) (respond : (e : E) → σ → R e × σ) :
    Prog E R α → σ → Bool
  | .ret _, _ => true
  | .call e k, s => ok e s && simulateChecks ok respond (k (respond e s).1) (respond e s).2

/-- This is a run when the answers to the calls that meet the test are answers of the system, and
every call meets it. -/
theorem exec_of_checks {S : Sys σ E R} {ok : E → σ → Bool} {respond : (e : E) → σ → R e × σ}
    (hrespond : ∀ e s, ok e s = true → S.handle e s (respond e s).1 (respond e s).2)
    (h : List (Event E R)) (p : Prog E R α) (s : σ) (hok : simulateChecks ok respond p s = true) :
    Exec S h p s (simulate respond h p s).1 (simulate respond h p s).2.1
      (simulate respond h p s).2.2 := by
  induction p generalizing h s with
  | ret a => exact .ret h a s
  | call e k ih =>
    rw [simulateChecks, Bool.and_eq_true] at hok
    exact .call (hrespond e s hok.1) (ih _ _ _ hok.2)

/-- What calls that meet the test keep holds at the end. -/
theorem simulate_of_checks {ok : E → σ → Bool} {respond : (e : E) → σ → R e × σ} {P : σ → Prop}
    (hrespond : ∀ e s, ok e s = true → P s → P (respond e s).2) (h : List (Event E R))
    (p : Prog E R α) {s : σ} (hs : P s) (hok : simulateChecks ok respond p s = true) :
    P (simulate respond h p s).2.2 := by
  induction p generalizing h s with
  | ret a => exact hs
  | call e k ih =>
    rw [simulateChecks, Bool.and_eq_true] at hok
    exact ih _ _ (hrespond e s hok.1 hs) hok.2

/-- This is a run when the answers are answers of the system. -/
theorem exec_simulate {S : Sys σ E R} {respond : (e : E) → σ → R e × σ}
    (hrespond : ∀ e s, S.handle e s (respond e s).1 (respond e s).2) (h : List (Event E R))
    (p : Prog E R α) (s : σ) :
    Exec S h p s (simulate respond h p s).1 (simulate respond h p s).2.1
      (simulate respond h p s).2.2 := by
  have hok : simulateChecks (fun _ _ => true) respond p s = true := by
    induction p generalizing s with
    | ret a => rfl
    | call e k ih => rw [simulateChecks, ih, Bool.true_and]
  exact exec_of_checks (fun e s _ => hrespond e s) h p s hok

/-- The environment may act first. -/
theorem Exec.envs {S : Sys σ E R} {h h' : List (Event E R)} {p : Prog E R α} {s s₁ s' : σ} {a : α}
    (he : Relation.ReflTransGen S.env s s₁) (hx : Exec S h p s₁ h' a s') :
    Exec S h p s h' a s' := by
  induction he using Relation.ReflTransGen.head_induction_on with
  | refl => exact hx
  | head hstep _ ih => exact .env hstep ih

/-- This is a run when the answers are answers of the system after what the environment does before
each call. -/
theorem exec_simulate_moves {S : Sys σ E R} {move : E → σ → σ}
    (hmove : ∀ e s, Relation.ReflTransGen S.env s (move e s)) {respond : (e : E) → σ → R e × σ}
    (hrespond : ∀ e s, S.handle e s (respond e s).1 (respond e s).2) (h : List (Event E R))
    (p : Prog E R α) (s : σ) :
    Exec S h p s (simulate (fun e s => respond e (move e s)) h p s).1
      (simulate (fun e s => respond e (move e s)) h p s).2.1
      (simulate (fun e s => respond e (move e s)) h p s).2.2 := by
  induction p generalizing h s with
  | ret a => exact .ret h a s
  | call e k ih => exact .envs (hmove e s) (.call (hrespond e (move e s)) (ih _ _ _))

/-- `Wp S Q h p s`: run alone from the state `s` after the calls `h`, with the environment acting
between the calls, `p` can only end with its postcondition. -/
def Wp (S : Sys σ E R) (Q : List (Event E R) → α → σ → Prop) :
    List (Event E R) → Prog E R α → σ → Prop
  | h, .ret a, s => ∀ s', Relation.ReflTransGen S.env s s' → Q h a s'
  | h, .call e k, s => ∀ s₁, Relation.ReflTransGen S.env s s₁ → ∀ r s₂, S.handle e s₁ r s₂ →
      Wp S Q (h ++ [⟨e, r⟩]) (k r) s₂

namespace Wp

variable {S : Sys σ E R} {Q Q' : List (Event E R) → α → σ → Prop} {h : List (Event E R)}
  {p : Prog E R α} {s s' : σ}

/-- What the environment does does not hurt. -/
theorem env (hp : Wp S Q h p s) (he : Relation.ReflTransGen S.env s s') : Wp S Q h p s' := by
  cases p with
  | ret a => exact fun s₁ h₁ => hp s₁ (he.trans h₁)
  | call e k => exact fun s₁ h₁ => hp s₁ (he.trans h₁)

theorem mono (hQ : ∀ h a s, Q h a s → Q' h a s) (hp : Wp S Q h p s) : Wp S Q' h p s := by
  induction p generalizing h s with
  | ret a => exact fun s₁ h₁ => hQ _ _ _ (hp s₁ h₁)
  | call e k ih => exact fun s₁ h₁ r s₂ hr => ih r (hp s₁ h₁ r s₂ hr)

/-- Sequencing. -/
theorem bind {Q : List (Event E R) → β → σ → Prop} {f : α → Prog E R β}
    (hp : Wp S (fun h a s => Wp S Q h (f a) s) h p s) : Wp S Q h (p.bind f) s := by
  induction p generalizing h s with
  | ret a => exact hp s .refl
  | call e k ih => exact fun s₁ h₁ r s₂ hr => ih r (hp s₁ h₁ r s₂ hr)

end Wp

/-- A run ends with the postcondition. -/
theorem Exec.wp {S : Sys σ E R} {Q : List (Event E R) → α → σ → Prop} {h h' : List (Event E R)}
    {p : Prog E R α} {s s' : σ} {a : α} (hx : Exec S h p s h' a s') (hp : Wp S Q h p s) :
    Q h' a s' := by
  induction hx with
  | ret h a s => exact hp s .refl
  | env he _ ih => exact ih (hp.env (.single he))
  | call hr _ ih => exact ih (hp _ .refl _ _ hr)

/-! ### Interleaving a pool of threads -/

/-- A program with the history of the calls made so far. -/
structure Thread (E : Type u) (R : E → Type v) (α : Type v) where
  hist : List (Event E R)
  prog : Prog E R α

/-- The thread that has not made a call yet. -/
def start (p : Prog E R α) : Thread E R α := ⟨[], p⟩

variable {ι : Type*} [DecidableEq ι]

/-- One step of a pool: some thread makes its next call, or the environment acts. -/
inductive Step (S : Sys σ E R) :
    σ × (ι → Thread E R α) → σ × (ι → Thread E R α) → Prop
  | call {s s' p} (i : ι) {e k r} (hp : (p i).prog = .call e k) (hr : S.handle e s r s') :
      Step S (s, p) (s', Function.update p i ⟨(p i).hist ++ [⟨e, r⟩], k r⟩)
  | env {s s' p} (he : S.env s s') : Step S (s, p) (s', p)

/-- Any number of steps of a pool. -/
abbrev Steps (S : Sys σ E R) :
    σ × (ι → Thread E R α) → σ × (ι → Thread E R α) → Prop :=
  Relation.ReflTransGen (Step S)

/-- A run of a system is a run of a system that can do more. -/
theorem Steps.mono {S S' : Sys σ E R} (hhandle : ∀ e s r s', S.handle e s r s' → S'.handle e s r s')
    (henv : ∀ s s', S.env s s' → S'.env s s') {c c' : σ × (ι → Thread E R α)}
    (hc : Steps S c c') : Steps S' c c' := by
  induction hc with
  | refl => exact .refl
  | tail _ hstep ih =>
    cases hstep with
    | call i hp hr => exact ih.tail (.call i hp (hhandle _ _ _ _ hr))
    | env he => exact ih.tail (.env (henv _ _ he))

/-- A run can be extended by the next call of a thread; the other threads stay. -/
theorem Steps.extend {S : Sys σ E R} {c₀ c : σ × (ι → Thread E R α)} (hc : Steps S c₀ c) (i : ι)
    (e : E) (r : R e) (s' : σ) {k : R e → Prog E R α} (hp : (c.2 i).prog = .call e k)
    (hr : S.handle e c.1 r s') :
    ∃ c', Steps S c₀ c' ∧ c'.1 = s' ∧ c'.2 i = ⟨(c.2 i).hist ++ [⟨e, r⟩], k r⟩ ∧
      ∀ j, j ≠ i → c'.2 j = c.2 j :=
  ⟨_, hc.tail (.call i hp hr), rfl, Function.update_self _ _ _,
    fun _ hj => Function.update_of_ne hj _ _⟩

/-- A thread that has made no call is where it started. -/
theorem Steps.eq_of_hist_eq_nil {S : Sys σ E R} {c c' : σ × (ι → Thread E R α)}
    (hc : Steps S c c') {i : ι} (hi : (c'.2 i).hist = []) : c'.2 i = c.2 i := by
  induction hc with
  | refl => rfl
  | tail _ hstep ih =>
    cases hstep with
    | @call s s' p j e k r hp hr =>
      by_cases hj : i = j
      · subst hj
        simp only [Function.update_self] at hi
        exact absurd hi (List.append_ne_nil_of_right_ne_nil _ (List.cons_ne_nil _ _))
      · simp only [Function.update_of_ne hj] at hi ⊢
        exact ih hi
    | env he => exact ih hi

/-- The result of a program that has returned. -/
def result? : Prog E R α → Option α
  | .ret a => some a
  | .call _ _ => none

theorem eq_ret_of_result? {p : Prog E R α} {a : α} (h : p.result? = some a) : p = .ret a := by
  cases p with
  | ret b => rw [Option.some.inj h]
  | call e k => cases h

/-- The next call of thread `i`, answered by `respond`. -/
def advance (respond : (e : E) → σ → R e × σ) (c : σ × (ι → Thread E R α)) (i : ι) :
    σ × (ι → Thread E R α) :=
  match (c.2 i).prog with
  | .ret _ => c
  | .call e k =>
    ((respond e c.1).2, Function.update c.2 i
      ⟨(c.2 i).hist ++ [⟨e, (respond e c.1).1⟩], k (respond e c.1).1⟩)

/-- The calls of the threads in the order of the schedule, answered by `respond`. -/
def advances (respond : (e : E) → σ → R e × σ) (schedule : List ι)
    (c : σ × (ι → Thread E R α)) : σ × (ι → Thread E R α) :=
  schedule.foldl (advance respond) c

/-- Every call of the schedule meets the test `ok` in the state in which it is made. -/
def checks (ok : E → σ → Bool) (respond : (e : E) → σ → R e × σ) :
    List ι → σ × (ι → Thread E R α) → Bool
  | [], _ => true
  | i :: schedule, c =>
    (match (c.2 i).prog with
      | .ret _ => true
      | .call e _ => ok e c.1) && checks ok respond schedule (advance respond c i)

/-- A schedule is a run when the answers to the calls that meet the test are answers of the
system, and every call meets it. -/
theorem steps_of_checks {S : Sys σ E R} {ok : E → σ → Bool} {respond : (e : E) → σ → R e × σ}
    (hrespond : ∀ e s, ok e s = true → S.handle e s (respond e s).1 (respond e s).2)
    (schedule : List ι) (c : σ × (ι → Thread E R α)) (hok : checks ok respond schedule c = true) :
    Steps S c (advances respond schedule c) := by
  induction schedule generalizing c with
  | nil => exact .refl
  | cons i schedule ih =>
    rw [checks, Bool.and_eq_true] at hok
    obtain ⟨hi, hok⟩ := hok
    refine Relation.ReflTransGen.trans ?_ (ih (advance respond c i) hok)
    unfold advance
    split
    · exact .refl
    · next e k hp =>
      rw [hp] at hi
      exact .single (.call i hp (hrespond e c.1 hi))

/-- A schedule is a run when the answers are answers of the system. -/
theorem steps_advances {S : Sys σ E R} {respond : (e : E) → σ → R e × σ}
    (hrespond : ∀ e s, S.handle e s (respond e s).1 (respond e s).2) (schedule : List ι)
    (c : σ × (ι → Thread E R α)) : Steps S c (advances respond schedule c) := by
  have hok (c : σ × (ι → Thread E R α)) :
      checks (fun _ _ => true) respond schedule c = true := by
    induction schedule generalizing c with
    | nil => rfl
    | cons i schedule ih =>
      rw [checks, ih, Bool.and_true]
      split <;> rfl
  exact steps_of_checks (fun e s _ => hrespond e s) schedule c (hok c)

/-! ### Laws and safety -/

/-- An invariant with a preorder on states, both obeyed by the environment. -/
structure Law (S : Sys σ E R) (I : σ → Prop) (L : σ → σ → Prop) : Prop where
  refl : ∀ s, L s s
  trans : ∀ {s₁ s₂ s₃}, L s₁ s₂ → L s₂ s₃ → L s₁ s₃
  env : ∀ {s s'}, I s → S.env s s' → I s' ∧ L s s'

/-- `p` is safe in the state `s` after the calls `h`: whatever steps of the law happen in between,
each of its calls obeys the law, and its result satisfies `Q` from then on. -/
def Safe (S : Sys σ E R) (I : σ → Prop) (L : σ → σ → Prop)
    (Q : List (Event E R) → α → σ → Prop) : List (Event E R) → Prog E R α → σ → Prop
  | h, .ret a, s => ∀ s', L s s' → I s' → Q h a s'
  | h, .call e k, s => ∀ s₁, L s s₁ → I s₁ → ∀ r s₂, S.handle e s₁ r s₂ →
      I s₂ ∧ L s₁ s₂ ∧ Safe S I L Q (h ++ [⟨e, r⟩]) (k r) s₂

variable {S : Sys σ E R} {I : σ → Prop} {L : σ → σ → Prop}

namespace Safe

variable {Q Q' : List (Event E R) → α → σ → Prop} {h : List (Event E R)} {p : Prog E R α}
  {s s' : σ}

/-- Steps of the law do not hurt a safe program. -/
theorem stable (hL : Law S I L) (hp : Safe S I L Q h p s) (hs : L s s') : Safe S I L Q h p s' := by
  cases p with
  | ret a => exact fun s₁ h₁ => hp s₁ (hL.trans hs h₁)
  | call e k => exact fun s₁ h₁ => hp s₁ (hL.trans hs h₁)

theorem mono (hQ : ∀ h a s, I s → Q h a s → Q' h a s) (hp : Safe S I L Q h p s) :
    Safe S I L Q' h p s := by
  induction p generalizing h s with
  | ret a => exact fun s₁ h₁ hI => hQ _ _ _ hI (hp s₁ h₁ hI)
  | call e k ih =>
    intro s₁ h₁ hI r s₂ hr
    obtain ⟨hI₂, hL, hk⟩ := hp s₁ h₁ hI r s₂ hr
    exact ⟨hI₂, hL, ih r hk⟩

/-- The result of a safe program is related to the state that it was begun in. -/
theorem since (hL : Law S I L) (hp : Safe S I L Q h p s) :
    Safe S I L (fun h a s' => L s s' ∧ Q h a s') h p s := by
  have hgeneral (s₀ : σ) (h₀ : L s₀ s) : Safe S I L (fun h a s' => L s₀ s' ∧ Q h a s') h p s := by
    induction p generalizing h s with
    | ret a => exact fun s₁ h₁ hI => ⟨hL.trans h₀ h₁, hp s₁ h₁ hI⟩
    | call e k ih =>
      intro s₁ h₁ hI r s₂ hr
      obtain ⟨hI₂, hL₂, hk⟩ := hp s₁ h₁ hI r s₂ hr
      exact ⟨hI₂, hL₂, ih r hk (hL.trans (hL.trans h₀ h₁) hL₂)⟩
  exact hgeneral s (hL.refl s)

/-- Sequencing: the first program establishes that the second one is safe. -/
theorem bind (hL : Law S I L) {Q : List (Event E R) → β → σ → Prop} {f : α → Prog E R β}
    (hs : I s) (hp : Safe S I L (fun h a s => Safe S I L Q h (f a) s) h p s) :
    Safe S I L Q h (p.bind f) s := by
  induction p generalizing h s with
  | ret a => exact hp s (hL.refl s) hs
  | call e k ih =>
    intro s₁ h₁ hI r s₂ hr
    obtain ⟨hI₂, hL, hk⟩ := hp s₁ h₁ hI r s₂ hr
    exact ⟨hI₂, hL, ih r hI₂ hk⟩

end Safe

/-- A call of an implemented operation: what the program of the operation establishes is what its
continuation starts from. -/
theorem Safe.translate_call (hL : Law S I L) {E' : Type u} {R' : E' → Type v}
    {f : (e : E') → Prog E R (R' e)} {e : E'} {k : R' e → Prog E' R' α}
    {P : R' e → σ → Prop} {Q : List (Event E R) → α → σ → Prop} {h : List (Event E R)} {s : σ}
    (hs : I s) (hf : Safe S I L (fun _ r s' => P r s') h (f e) s)
    (hk : ∀ h' r s', I s' → P r s' → Safe S I L Q h' ((k r).translate f) s') :
    Safe S I L Q h ((Prog.call e k).translate f) s :=
  Safe.bind hL hs (hf.mono fun h' r s' hI hP => hk h' r s' hI hP)

/-- One step of a pool of safe threads obeys the law and leaves every thread safe. -/
theorem Step.safe (hL : Law S I L) {Q : ι → List (Event E R) → α → σ → Prop}
    {c c' : σ × (ι → Thread E R α)} (hc : Step S c c') (hs : I c.1)
    (hp : ∀ i, Safe S I L (Q i) (c.2 i).hist (c.2 i).prog c.1) :
    I c'.1 ∧ L c.1 c'.1 ∧ ∀ i, Safe S I L (Q i) (c'.2 i).hist (c'.2 i).prog c'.1 := by
  cases hc with
  | @call s s' p i e k r hpi hr =>
    have hi := hp i
    simp only [hpi] at hi
    obtain ⟨hI', hlaw, hk⟩ := hi s (hL.refl s) hs r s' hr
    refine ⟨hI', hlaw, fun j => ?_⟩
    by_cases hj : j = i
    · subst hj
      simpa only [Function.update_self] using hk
    · simpa only [Function.update_of_ne hj] using (hp j).stable hL hlaw
  | env he =>
    obtain ⟨hI', hlaw⟩ := hL.env hs he
    exact ⟨hI', hlaw, fun j => (hp j).stable hL hlaw⟩

/-- **Interleaved safe threads.** Every run of a pool of safe threads obeys the law and leaves
every thread safe. -/
theorem Steps.safe (hL : Law S I L) {Q : ι → List (Event E R) → α → σ → Prop}
    {c c' : σ × (ι → Thread E R α)} (hc : Steps S c c') (hs : I c.1)
    (hp : ∀ i, Safe S I L (Q i) (c.2 i).hist (c.2 i).prog c.1) :
    I c'.1 ∧ L c.1 c'.1 ∧ ∀ i, Safe S I L (Q i) (c'.2 i).hist (c'.2 i).prog c'.1 := by
  induction hc with
  | refl => exact ⟨hs, hL.refl _, hp⟩
  | tail _ hstep ih =>
    obtain ⟨hI₁, h₁, h₂⟩ := ih
    obtain ⟨hI₂, h₃, h₄⟩ := hstep.safe hL hI₁ h₂
    exact ⟨hI₂, hL.trans h₁ h₃, h₄⟩

/-- Every finished thread of a run of safe threads satisfies its postcondition. -/
theorem Steps.post (hL : Law S I L) {Q : ι → List (Event E R) → α → σ → Prop}
    {c c' : σ × (ι → Thread E R α)} (hc : Steps S c c') (hs : I c.1)
    (hp : ∀ i, Safe S I L (Q i) (c.2 i).hist (c.2 i).prog c.1) {i : ι} {a : α}
    (hi : (c'.2 i).prog = .ret a) : Q i (c'.2 i).hist a c'.1 := by
  obtain ⟨hI', -, hsafe⟩ := hc.safe hL hs hp
  have h := hsafe i
  rw [hi] at h
  exact h _ (hL.refl _) hI'

end Prog
