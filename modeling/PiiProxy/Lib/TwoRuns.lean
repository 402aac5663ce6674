import PiiProxy.Lib.Program

/-!
# Two runs of programs

A hyperproperty compares two runs. Two programs are alike when they make the same calls and, as long
as they get related answers, go on alike up to the same result. When the two stores of two pools
give related answers from related states and leave related states, whatever one thread of a pool
does the same thread of the other pool does too, at every point of the run. The relation may be
confined to answers that satisfy a condition, if the first run gets no others.

## Main definitions

* `Prog.After`: what is left of a program after some calls and answers.
* `Prog.Alike`: the programs make the same calls and return the same, given related answers.

## Main results

* `Prog.advance_alike`: one call of the same thread in two runs.
* `Prog.advance_after`: the history of a thread leads from its start to where it is.
-/

universe u v x

namespace Prog

variable {E : Type u} {R : E → Type v} {α : Type v} {σ : Type x}

/-! ### What is left of a program -/

/-- `After p h q`: with the calls and answers `h`, the program `p` has become `q`. -/
inductive After : Prog E R α → List (Event E R) → Prog E R α → Prop
  | refl (p : Prog E R α) : After p [] p
  | call {e k r h q} (hk : After (k r) h q) : After (.call e k) (⟨e, r⟩ :: h) q

theorem After.snoc {p : Prog E R α} {h : List (Event E R)} {e : E} {k : R e → Prog E R α}
    (hp : After p h (.call e k)) (r : R e) : After p (h ++ [⟨e, r⟩]) (k r) := by
  generalize hq : Prog.call e k = q at hp
  induction hp with
  | refl p =>
    subst hq
    exact .call (.refl _)
  | call _ ih => exact .call (ih hq)

/-- A history that leads to a result is a trace. -/
theorem After.trace {p : Prog E R α} {h : List (Event E R)} {a : α} (hp : After p h (.ret a)) :
    Trace p h a := by
  generalize hq : Prog.ret a = q at hp
  induction hp with
  | refl p =>
    subst hq
    exact .ret a
  | call _ ih => exact .call (ih hq)

/-- A program can be run to its end with any answers. -/
theorem After.exists_trace (answer : (e : E) → R e) {p q : Prog E R α} {h : List (Event E R)}
    (hp : After p h q) : ∃ h' a, Trace p (h ++ h') a ∧ ∀ ev ∈ h', ev.2 = answer ev.1 := by
  induction q generalizing h with
  | ret a => exact ⟨[], a, by rw [List.append_nil]; exact hp.trace, fun ev hev => nomatch hev⟩
  | call e k ih =>
    obtain ⟨h', a, htrace, hanswers⟩ := ih (answer e) (hp.snoc (answer e))
    rw [List.append_assoc] at htrace
    exact ⟨_, a, htrace, List.forall_mem_cons.2 ⟨rfl, hanswers⟩⟩

/-! ### Programs that are alike -/

/-- The programs make the same calls and return the same, as long as the answers are related by `A`
and the answers to the first program satisfy `Ok`. -/
inductive Alike (A : (e : E) → R e → R e → Prop) (Ok : (e : E) → R e → Prop) :
    Prog E R α → Prog E R α → Prop
  | ret (a : α) : Alike A Ok (.ret a) (.ret a)
  | call {e k k'} (hk : ∀ r r', A e r r' → Ok e r → Alike A Ok (k r) (k' r')) :
      Alike A Ok (.call e k) (.call e k')

theorem Alike.result? {A : (e : E) → R e → R e → Prop} {Ok : (e : E) → R e → Prop}
    {p p' : Prog E R α} (h : Alike A Ok p p') : p.result? = p'.result? := by
  cases h <;> rfl

/-! ### Two pools of threads -/

variable {ι : Type*} [DecidableEq ι]

/-- **One call of the same thread in two runs.** From related states the two stores give related
answers and leave related states, so all threads stay alike. -/
theorem advance_alike {respond respond' : (e : E) → σ → R e × σ} {S : σ → σ → Prop}
    {A : (e : E) → R e → R e → Prop} {Ok : ι → (e : E) → R e → Prop}
    (hrespond : ∀ e s s', S s s' →
      A e (respond e s).1 (respond' e s').1 ∧ S (respond e s).2 (respond' e s').2)
    {c c' : σ × (ι → Thread E R α)} (hs : S c.1 c'.1)
    (hp : ∀ j, Alike A (Ok j) (c.2 j).prog (c'.2 j).prog) (i : ι)
    (hok : ∀ e k, (c.2 i).prog = .call e k → Ok i e (respond e c.1).1) :
    S (advance respond c i).1 (advance respond' c' i).1 ∧
      ∀ j, Alike A (Ok j) ((advance respond c i).2 j).prog ((advance respond' c' i).2 j).prog := by
  have hi := hp i
  unfold advance
  generalize hprog : (c.2 i).prog = p at hi
  generalize hprog' : (c'.2 i).prog = p' at hi
  cases hi with
  | ret a => exact ⟨hs, hp⟩
  | @call e k k' hk =>
    obtain ⟨hanswer, hstate⟩ := hrespond e c.1 c'.1 hs
    refine ⟨hstate, fun j => ?_⟩
    by_cases hj : j = i
    · subst hj
      simp only [Function.update_self]
      exact hk _ _ hanswer (hok e k hprog)
    · simp only [Function.update_of_ne hj]
      exact hp j

/-- **The history of a thread leads from its start to where it is**, and its answers satisfy what
all answers to the thread satisfy. -/
theorem advance_after {respond : (e : E) → σ → R e × σ} {Ok : ι → (e : E) → R e → Prop}
    {p : ι → Prog E R α} {c : σ × (ι → Thread E R α)}
    (hp : ∀ j, After (p j) (c.2 j).hist (c.2 j).prog ∧ ∀ ev ∈ (c.2 j).hist, Ok j ev.1 ev.2) (i : ι)
    (hok : ∀ e k, (c.2 i).prog = .call e k → Ok i e (respond e c.1).1) (j : ι) :
    After (p j) ((advance respond c i).2 j).hist ((advance respond c i).2 j).prog ∧
      ∀ ev ∈ ((advance respond c i).2 j).hist, Ok j ev.1 ev.2 := by
  unfold advance
  split
  · exact hp j
  · next e k hprog =>
    by_cases hj : j = i
    · subst hj
      simp only [Function.update_self]
      obtain ⟨hafter, hevents⟩ := hp j
      rw [hprog] at hafter
      refine ⟨hafter.snoc _, fun ev hev => ?_⟩
      rcases List.mem_append.1 hev with hev | hev
      · exact hevents ev hev
      · rw [List.mem_singleton.1 hev]
        exact hok e k hprog
    · simp only [Function.update_of_ne hj]
      exact hp j

end Prog
