import PiiProxy.Lib.Program

/-!
# Threads over separate parts of a store

A store has a part for each key, and a call touches the part of one key at most. When each thread
keeps to one key, the threads of a key run as if the others did not exist: leaving out the turns of
all other threads changes neither what these threads do nor the part of the store that is theirs.

## Main definitions

* `Prog.KeepsTo`: every call of a program satisfies a condition.
* `Prog.Separate`: what a call answers and changes is a matter of its key alone.

## Main results

* `Prog.KeepsTo.bind`, `Prog.KeepsTo.translate`: sequencing, and calls taken apart.
* `Prog.isolated`: the threads of one key, with and without the others.
-/

universe u v x

namespace Prog

variable {E : Type u} {R : E → Type v} {α β : Type v}

/-- Every call of the program satisfies the condition, whatever the answers are. -/
def KeepsTo (ok : E → Prop) : Prog E R α → Prop
  | .ret _ => True
  | .call e k => ok e ∧ ∀ r, KeepsTo ok (k r)

theorem KeepsTo.bind {ok : E → Prop} {p : Prog E R α} {f : α → Prog E R β} (hp : p.KeepsTo ok)
    (hf : ∀ a, (f a).KeepsTo ok) : (p.bind f).KeepsTo ok := by
  induction p with
  | ret a => exact hf a
  | call e k ih => exact ⟨hp.1, fun r => ih r (hp.2 r)⟩

/-- Taking calls apart keeps the condition when the programs for the calls keep it. -/
theorem KeepsTo.translate {E' : Type u} {R' : E' → Type v} {ok : E → Prop} {ok' : E' → Prop}
    {f : (e : E) → Prog E' R' (R e)} {p : Prog E R α} (hp : p.KeepsTo ok)
    (hf : ∀ e, ok e → (f e).KeepsTo ok') : (p.translate f).KeepsTo ok' := by
  induction p with
  | ret a => trivial
  | call e k ih => exact (hf e hp.1).bind fun r => ih r (hp.2 r)

variable {κ : Type*} {τ : Type x}

/-- What a call answers and changes is a matter of its key alone. -/
structure Separate (key : E → Option κ) (respond : (e : E) → (κ → τ) → R e × (κ → τ)) : Prop where
  /-- The answer, and the part of the key, depend on that part only. -/
  own : ∀ e s s', (∀ k, key e = some k → s k = s' k) →
    (respond e s).1 = (respond e s').1 ∧
      ∀ k, key e = some k → (respond e s).2 k = (respond e s').2 k
  /-- The other parts stay. -/
  others : ∀ e s k, key e ≠ some k → (respond e s).2 k = s k

variable {ι : Type*} [DecidableEq ι] {key : E → Option κ} {owner : ι → κ}

/-- The thread touches the part of its owner at most. -/
abbrev Keeps (key : E → Option κ) (k : κ) (p : Prog E R α) : Prop :=
  p.KeepsTo fun e => key e = none ∨ key e = some k

/-- The two pools agree on a key: its part, and its threads, are the same. -/
structure AgreeOn (owner : ι → κ) (k : κ) (c c' : (κ → τ) × (ι → Thread E R α)) : Prop where
  part : c.1 k = c'.1 k
  threads : ∀ i, owner i = k → c.2 i = c'.2 i

variable {respond : (e : E) → (κ → τ) → R e × (κ → τ)} {k : κ}
  {c c' : (κ → τ) × (ι → Thread E R α)}

/-- A turn of a thread leaves every thread with its owner. -/
theorem keeps_advance (hkeeps : ∀ i, Keeps key (owner i) (c.2 i).prog) (i j : ι) :
    Keeps key (owner j) ((advance respond c i).2 j).prog := by
  unfold advance
  split
  · exact hkeeps j
  · next e k hp =>
    by_cases hj : j = i
    · subst hj
      have hj := hkeeps j
      rw [hp] at hj
      simpa only [Function.update_self] using hj.2 _
    · simpa only [Function.update_of_ne hj] using hkeeps j

/-- A turn of another key changes nothing for this one. -/
theorem AgreeOn.left (hsep : Separate key respond) (h : AgreeOn owner k c c') {i : ι}
    (hkeeps : Keeps key (owner i) (c.2 i).prog) (hi : owner i ≠ k) :
    AgreeOn owner k (advance respond c i) c' := by
  unfold advance
  split
  · exact h
  · next e next hp =>
    rw [hp] at hkeeps
    have hkey : key e ≠ some k := by
      rintro heq
      obtain hnone | hsome := hkeeps.1
      · rw [heq] at hnone
        cases hnone
      · exact hi (Option.some.inj (hsome.symm.trans heq))
    refine ⟨(hsep.others e c.1 k hkey).trans h.part, fun j hj => ?_⟩
    have hne : j ≠ i := fun heq => hi (heq ▸ hj)
    simpa only [Function.update_of_ne hne] using h.threads j hj

/-- A turn of this key does the same in both pools. -/
theorem AgreeOn.both (hsep : Separate key respond) (h : AgreeOn owner k c c') {i : ι}
    (hkeeps : Keeps key (owner i) (c.2 i).prog) (hi : owner i = k) :
    AgreeOn owner k (advance respond c i) (advance respond c' i) := by
  have hthread := h.threads i hi
  unfold advance
  rw [← hthread]
  split
  · exact h
  · next e next hp =>
    rw [hp] at hkeeps
    have hown : ∀ k', key e = some k' → c.1 k' = c'.1 k' := by
      intro k' hk'
      obtain hnone | hsome := hkeeps.1
      · rw [hk'] at hnone
        cases hnone
      · obtain rfl : k' = k := (Option.some.inj (hk'.symm.trans hsome)).trans hi
        exact h.part
    obtain ⟨hanswer, hpart⟩ := hsep.own e c.1 c'.1 hown
    refine ⟨?_, fun j hj => ?_⟩
    · by_cases hkey : key e = some k
      · exact hpart k hkey
      · exact (hsep.others e c.1 k hkey).trans (h.part.trans (hsep.others e c'.1 k hkey).symm)
    · rw [hanswer]
      by_cases hne : j = i
      · subst hne
        simp only [Function.update_self]
      · simpa only [Function.update_of_ne hne] using h.threads j hj

variable {turn : Type*} [DecidableEq κ]

/-- **Isolation.** Under every schedule of turns, each with answers of its own, the threads of a key
and their part of the store are what they are when all other turns are left out. -/
theorem isolated (thread : turn → ι) (respond : turn → (e : E) → (κ → τ) → R e × (κ → τ))
    (hsep : ∀ t, Separate key (respond t)) (schedule : List turn)
    (hkeeps : ∀ i, Keeps key (owner i) (c.2 i).prog) (h : AgreeOn owner k c c') :
    AgreeOn owner k (schedule.foldl (fun c t => advance (respond t) c (thread t)) c)
      ((schedule.filter fun t => owner (thread t) = k).foldl
        (fun c t => advance (respond t) c (thread t)) c') := by
  induction schedule generalizing c c' with
  | nil => exact h
  | cons t schedule ih =>
    have hnext (j : ι) : Keeps key (owner j) ((advance (respond t) c (thread t)).2 j).prog :=
      keeps_advance hkeeps (thread t) j
    by_cases ht : owner (thread t) = k
    · rw [List.filter_cons_of_pos (by simpa using ht)]
      exact ih hnext (h.both (hsep t) (hkeeps _) ht)
    · rw [List.filter_cons_of_neg (by simpa using ht)]
      exact ih hnext (h.left (hsep t) (hkeeps _) ht)

end Prog
