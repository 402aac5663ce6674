import PiiProxy.Core.Models
import PiiProxy.Lib.Greedy
import PiiProxy.Lib.PySeq

/-!
# Overlap resolution

One candidate is picked for each cluster of overlapping spans (`app/context/overlap.py`): higher
confidence first, then the longer span, then the earlier start. The chosen candidates are returned
in the order of the text.

## Main definitions

* `Candidate.overlaps`, `Candidate.priority`, `resolveOverlaps`.
* `Preferred`: the order in which the candidates are considered.
* `GreedyChoice`: a choice from a list that drops a candidate only for one preferred to it.

## Main results

* `mem_of_mem_resolveOverlaps`: only candidates of the input are returned.
* `pairwise_resolveOverlaps`: each returned span ends before the next one starts.
* `resolveOverlaps_greedy`: which candidates are returned.
-/

namespace PiiProxy

/-- The spans share a position. -/
def Candidate.overlaps (c c' : Candidate) : Bool :=
  decide (c.start < c'.stop) && decide (c'.start < c.stop)

/-- The sort key of `resolve_overlaps`. -/
def Candidate.priority (c : Candidate) : ℚ ×ₗ ℤ ×ₗ ℕ :=
  toLex (-c.detectorConfidence, toLex (-((c.stop : ℤ) - c.start), c.start))

/-- `resolve_overlaps`. -/
def resolveOverlaps (candidates : List Candidate) : List Candidate :=
  PySeq.sortedBy Candidate.start
    (Greedy.select Candidate.overlaps [] (PySeq.sortedBy Candidate.priority candidates))

/-- Only candidates of the input are returned. -/
theorem mem_of_mem_resolveOverlaps {candidates : List Candidate} {c : Candidate}
    (hc : c ∈ resolveOverlaps candidates) : c ∈ candidates := by
  rw [resolveOverlaps, PySeq.mem_sortedBy] at hc
  have hsub := (Greedy.select_sublist Candidate.overlaps [] _).subset hc
  rwa [List.nil_append, PySeq.mem_sortedBy] at hsub

/-- **The chosen spans are disjoint and in order.** Each returned span ends before the next one
starts, provided that no span of the input is empty. -/
theorem pairwise_resolveOverlaps {candidates : List Candidate}
    (hc : ∀ c ∈ candidates, c.start < c.stop) :
    (resolveOverlaps candidates).Pairwise fun c c' => c.stop ≤ c'.start :=
  Greedy.pairwise_sortedBy_select fun c hsorted => hc c (PySeq.mem_sortedBy.1 hsorted)

/-! ### The greedy choice -/

/-- The numbered candidate `x` is considered before `y`: by confidence, then by length, then by
start, then by its place in the input. -/
def Preferred (x y : Candidate × ℕ) : Prop :=
  y.1.detectorConfidence < x.1.detectorConfidence ∨
    x.1.detectorConfidence = y.1.detectorConfidence ∧
      ((y.1.stop : ℤ) - y.1.start < (x.1.stop : ℤ) - x.1.start ∨
        (x.1.stop : ℤ) - x.1.start = (y.1.stop : ℤ) - y.1.start ∧
          (x.1.start < y.1.start ∨ x.1.start = y.1.start ∧ x.2 < y.2))

/-- The numbered candidates `kept` are chosen from `candidates` greedily by preference. -/
structure GreedyChoice (candidates : List Candidate) (kept : List (Candidate × ℕ)) : Prop where
  subperm : kept.Subperm candidates.zipIdx
  ordered : kept.Pairwise fun x y => x.1.stop ≤ y.1.start
  dropped_iff : ∀ x ∈ candidates.zipIdx,
    x ∉ kept ↔ ∃ y ∈ kept, Preferred y x ∧ x.1.overlaps y.1 = true

/-- The sort key of a numbered candidate. -/
private def numberedKey (x : Candidate × ℕ) : (ℚ ×ₗ ℤ ×ₗ ℕ) ×ₗ ℕ := toLex (x.1.priority, x.2)

private theorem numberedKey_lt_iff {x y : Candidate × ℕ} :
    numberedKey x < numberedKey y ↔ Preferred x y := by
  simp only [numberedKey, Candidate.priority, Preferred, Prod.Lex.toLex_lt_toLex, neg_lt_neg_iff,
    EmbeddingLike.apply_eq_iff_eq, Prod.mk.injEq, neg_inj]
  tauto

/-- The numbered candidates in the order in which they are considered. -/
private def considered (candidates : List Candidate) : List (Candidate × ℕ) :=
  PySeq.sortedBy numberedKey candidates.zipIdx

private theorem pairwise_considered (candidates : List Candidate) :
    (considered candidates).Pairwise Preferred := by
  have hkeys := PySeq.pairwise_sortedBy numberedKey candidates.zipIdx
  have hnumbers : (considered candidates).Pairwise fun x y => x.2 ≠ y.2 := by
    refine List.Pairwise.of_map Prod.snd (fun _ _ => id) ?_
    refine ((PySeq.sortedBy_perm _ _).map Prod.snd).nodup_iff.2 ?_
    rw [List.zipIdx_map_snd]
    exact List.nodup_range'
  refine (hkeys.and hnumbers).imp fun {x y} ⟨hle, hne⟩ => numberedKey_lt_iff.1 ?_
  refine lt_of_le_of_ne hle fun heq => hne ?_
  exact (Prod.mk.inj (toLex.injective heq)).2

/-- The choice of `resolve_overlaps`, in the order of the text. -/
private def keptNumbered (candidates : List Candidate) : List (Candidate × ℕ) :=
  PySeq.sortedBy (fun x => x.1.start)
    (Greedy.select (fun x y => x.1.overlaps y.1) [] (considered candidates))

private theorem map_fst_keptNumbered (candidates : List Candidate) :
    (keptNumbered candidates).map Prod.fst = resolveOverlaps candidates := by
  rw [keptNumbered, resolveOverlaps, ← PySeq.map_fst_sortedBy_zipIdx Candidate.priority]
  have hselect := @Greedy.select_map _ Candidate.overlaps _ Prod.fst []
    (considered candidates)
  rw [List.map_nil] at hselect
  exact (PySeq.sortedBy_map Candidate.start Prod.fst _).symm.trans (congrArg _ hselect)

private theorem greedyChoice_keptNumbered {candidates : List Candidate}
    (hc : ∀ c ∈ candidates, c.start < c.stop) :
    GreedyChoice candidates (keptNumbered candidates) where
  subperm := by
    have hsub := Greedy.select_sublist (fun x y => x.1.overlaps y.1) [] (considered candidates)
    exact (PySeq.sortedBy_perm _ _).subperm.trans
      (hsub.subperm.trans (PySeq.sortedBy_perm numberedKey _).subperm)
  ordered := by
    have hpairs := pairwise_resolveOverlaps hc
    rw [← map_fst_keptNumbered] at hpairs
    exact List.pairwise_map.1 hpairs
  dropped_iff x hx := by
    have hasymm (x y : Candidate × ℕ) (h : Preferred x y) : ¬Preferred y x := by
      rw [← numberedKey_lt_iff] at h ⊢
      exact h.asymm
    have hkept : x ∈ Greedy.select (fun x y => x.1.overlaps y.1) [] (considered candidates) ↔ _ :=
      Greedy.mem_select_iff hasymm (pairwise_considered candidates) (PySeq.mem_sortedBy.2 hx)
    rw [keptNumbered]
    simp only [PySeq.mem_sortedBy, hkept, not_forall, Bool.not_eq_false, exists_prop]

/-- **Overlap resolution is the greedy choice by preference.** The candidates returned are disjoint,
stand in the order of the text, and a candidate is dropped exactly when it overlaps one returned
that is preferred to it. So every candidate is returned or overlaps one that is, and a candidate
preferred to all that it overlaps is returned. -/
theorem resolveOverlaps_greedy {candidates : List Candidate}
    (hc : ∀ c ∈ candidates, c.start < c.stop) :
    ∃ kept, resolveOverlaps candidates = kept.map Prod.fst ∧ GreedyChoice candidates kept ∧
      (∀ x ∈ candidates.zipIdx, x ∈ kept ∨ ∃ y ∈ kept, x.1.overlaps y.1 = true) ∧
      ∀ x ∈ candidates.zipIdx,
        (∀ y ∈ candidates.zipIdx, y ≠ x → x.1.overlaps y.1 = true → Preferred x y) → x ∈ kept := by
  have hchoice := greedyChoice_keptNumbered hc
  refine ⟨_, (map_fst_keptNumbered candidates).symm, hchoice, fun x hx => ?_, fun x hx hfirst => ?_⟩
  · by_cases hkept : x ∈ keptNumbered candidates
    · exact .inl hkept
    · obtain ⟨y, hy, -, hoverlaps⟩ := (hchoice.dropped_iff x hx).1 hkept
      exact .inr ⟨y, hy, hoverlaps⟩
  · by_contra hdropped
    obtain ⟨y, hy, hpreferred, hoverlaps⟩ := (hchoice.dropped_iff x hx).1 hdropped
    have hne : y ≠ x := fun heq => hdropped (heq ▸ hy)
    have hxy := hfirst y (hchoice.subperm.subset hy) hne hoverlaps
    rw [← numberedKey_lt_iff] at hpreferred hxy
    exact hxy.asymm hpreferred

/-- Ten digits that one detector reports as a phone number and another as an INN. -/
def tenDigits : List Candidate :=
  [{ type := .phone, value := "1234567890".toList, start := 0, stop := 10,
     detector := "phone".toList, detectorConfidence := 1 / 2 },
   { type := .inn, value := "1234567890".toList, start := 0, stop := 10,
     detector := "inn".toList, detectorConfidence := 9 / 10 }]

/-- The case of two candidates with one span. -/
theorem resolveOverlaps_greedy_tenDigits :
    ∃ kept, resolveOverlaps tenDigits = kept.map Prod.fst ∧ GreedyChoice tenDigits kept := by
  obtain ⟨kept, hkept, hchoice, -⟩ := @resolveOverlaps_greedy tenDigits (by decide)
  exact ⟨kept, hkept, hchoice⟩

end PiiProxy
