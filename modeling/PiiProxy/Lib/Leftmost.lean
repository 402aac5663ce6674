import PiiProxy.Lib.PySeq
import PiiProxy.Lib.RegexLanguage

/-!
# Leftmost spans

A reader who goes through a text from left to right takes a span wherever one begins and goes on
behind it. Which spans there are is a relation between two positions; at a position at most one
begins. A span is taken exactly when no span that is taken before *runs into* it, so the taken spans
are determined by the spans of the text alone: any choice of spans that do not run into each other
and that cover every beginning of a span is that of the reader.

## Main definitions

* `Leftmost.AtMostOne`: at a position at most one span begins.
* `Leftmost.Taken`: the spans that the reader takes.
* `Leftmost.NextFrom`: a span begins at a position or behind it, and none begins in between.

## Main results

* `Leftmost.exists_taken`: every beginning of a span is covered by a taken span.
* `Leftmost.taken_of_nextFrom`: behind a taken span the reader takes the one that comes next.
* `Leftmost.iff_taken`: the choice of the reader is the only one.
* `Regex.mem_finditer_iff_taken`: the successive matches of an expression are taken so.
-/

namespace Leftmost

variable {Span F : ℕ → ℕ → Prop} {i j i' j' k : ℕ}

/-- At a position at most one span begins. -/
def AtMostOne (Span : ℕ → ℕ → Prop) : Prop :=
  ∀ ⦃i j j'⦄, Span i j → Span i j' → j = j'

/-- The span is taken: no span that is taken before runs into it. -/
def Taken (Span : ℕ → ℕ → Prop) (i j : ℕ) : Prop :=
  Span i j ∧ ∀ i₀, i₀ < i → ∀ j₀, Taken Span i₀ j₀ → j₀ ≤ i
termination_by i

/-- The span from `i` to `j` begins at `k` or behind it, and no other one begins in between. -/
def NextFrom (Span : ℕ → ℕ → Prop) (k i j : ℕ) : Prop :=
  k ≤ i ∧ Span i j ∧ ∀ i₀, k ≤ i₀ → i₀ < i → ∀ j₀, ¬Span i₀ j₀

theorem taken_iff : Taken Span i j ↔ Span i j ∧ ∀ i₀, i₀ < i → ∀ j₀, Taken Span i₀ j₀ → j₀ ≤ i := by
  rw [Taken]

theorem Taken.span (h : Taken Span i j) : Span i j := (taken_iff.mp h).1

/-- Taken spans do not run into each other. -/
theorem Taken.le_of_lt (h : Taken Span i j) (h' : Taken Span i' j') (hlt : i' < i) : j' ≤ i :=
  (taken_iff.mp h).2 i' hlt j' h'

/-- **Every beginning of a span is covered by a taken span.** -/
theorem exists_taken (hpos : i < j) (h : Span i j) :
    ∃ i' j', Taken Span i' j' ∧ i' ≤ i ∧ i < j' := by
  by_cases htaken : Taken Span i j
  · exact ⟨i, j, htaken, le_rfl, hpos⟩
  · by_contra hno
    refine htaken (taken_iff.mpr ⟨h, fun i₀ hlt j₀ h₀ => ?_⟩)
    by_contra hle
    exact hno ⟨i₀, j₀, h₀, hlt.le, Nat.not_le.mp hle⟩

/-- **Behind a taken span the reader takes the one that comes next.** -/
theorem taken_of_nextFrom (hone : AtMostOne Span) (h : Taken Span i j)
    (hij : i < j) (hnext : NextFrom Span j i' j') : Taken Span i' j' := by
  obtain ⟨hle, hspan, hfirst⟩ := hnext
  refine taken_iff.mpr ⟨hspan, fun i₀ hlt j₀ h₀ => ?_⟩
  rcases lt_trichotomy i₀ i with hbefore | rfl | hbehind
  · have := h.le_of_lt h₀ hbefore
    omega
  · rw [hone h₀.span h.span]
    exact hle
  · exact absurd h₀.span (hfirst i₀ (h₀.le_of_lt h hbehind) hlt j₀)

/-- Two taken spans that begin at one place are one. -/
theorem Taken.eq_or_le (hone : AtMostOne Span) (h : Taken Span i j)
    (h' : Taken Span i' j') : (i = i' ∧ j = j') ∨ j ≤ i' ∨ j' ≤ i := by
  rcases lt_trichotomy i i' with hlt | rfl | hlt
  · exact .inr (.inl (h'.le_of_lt h hlt))
  · exact .inl ⟨rfl, hone h.span h'.span⟩
  · exact .inr (.inr (h.le_of_lt h' hlt))

/-- **The choice of the reader is the only one**: spans that do not run into each other and cover
every beginning of a span are the taken ones. -/
theorem iff_taken (hone : AtMostOne Span)
    (hspan : ∀ {i j}, F i j → Span i j)
    (hapart : ∀ {i j i' j'}, F i j → F i' j' → i' < i → j' ≤ i)
    (hcover : ∀ {i j}, Span i j → ∃ i' j', F i' j' ∧ i' ≤ i ∧ i < j') :
    F i j ↔ Taken Span i j := by
  induction i using Nat.strong_induction_on generalizing j with
  | h i ih =>
    rw [taken_iff]
    constructor
    · intro h
      exact ⟨hspan h, fun i₀ hlt j₀ h₀ => hapart h ((ih i₀ hlt).mpr h₀) hlt⟩
    · rintro ⟨h, hfree⟩
      obtain ⟨i', j', h', hle, hlt⟩ := hcover h
      rcases hle.lt_or_eq with hbefore | rfl
      · exact absurd (hfree i' hbefore j' ((ih i' hbefore).mp h')) (Nat.not_le.mpr hlt)
      · rwa [hone h (hspan h')]

end Leftmost

namespace Regex

variable {α : Type*} [BEq α] [LawfulBEq α] {r : Regex α} {s : List α} {Span : ℕ → ℕ → Prop}

/-- **The successive matches of an expression** are the spans that a reader takes, when the matches
are spans and the expression matches wherever a span begins. -/
theorem mem_finditer_iff_taken (hr : 0 < r.minLen) (hone : Leftmost.AtMostOne Span)
    (hspan : ∀ m ∈ finditer r s, Span m.start m.stop)
    (hrun : ∀ {i j}, Span i j →
      i ≤ s.length ∧ run r (cursorAt (start s) (s.take i) (s.drop i)) ≠ [])
    {i j : ℕ} :
    (∃ m ∈ finditer r s, m.start = i ∧ m.stop = j) ↔ Leftmost.Taken Span i j := by
  refine Leftmost.iff_taken (F := fun i j => ∃ m ∈ finditer r s, m.start = i ∧ m.stop = j) hone
    ?_ ?_ ?_
  · rintro _ _ ⟨m, hm, rfl, rfl⟩
    exact hspan m hm
  · rintro _ _ _ _ ⟨m, hm, rfl, rfl⟩ ⟨m', hm', rfl, rfl⟩ hlt
    rcases PySeq.eq_or_rel_of_pairwise (pairwise_finditer r s) hm hm' with rfl | hle | hle
    · exact absurd hlt (lt_irrefl _)
    · have hmin := (isPiece_of_mem_finditer hm).2
      omega
    · exact hle
  · intro i j h
    obtain ⟨hi, hne⟩ := hrun h
    have hcovering : ∃ m ∈ r.finditer (s.take i ++ s.drop i), m.start = (s.take i).length ∨
        m.start < (s.take i).length ∧ (s.take i).length < m.stop :=
      exists_covering hr (by rwa [List.take_append_drop])
    obtain ⟨m, hm, hcovers⟩ := hcovering
    rw [List.take_append_drop] at hm
    rw [List.length_take, min_eq_left hi] at hcovers
    have hmin := (isPiece_of_mem_finditer hm).2
    exact ⟨_, _, ⟨m, hm, rfl, rfl⟩, by omega, by omega⟩

end Regex
