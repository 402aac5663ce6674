import PiiProxy.Lib.Greedy

/-!
# Sorting and choosing block by block

A line is cut at a position that no span crosses. Then the spans on either side have nothing to do
with each other: sorting, and the greedy choice of spans that share no position, may be done on the
two sides apart.

## Main results

* `PySeq.filter_sortedBy`, `PySeq.sortedBy_congr`: the stable sort goes through a filter, and
  depends on the order of the keys only.
* `Greedy.filter_select`: the choice goes through a filter that separates the conflicts.
* `Greedy.sortedBy_select_append`: sorting and choosing on either side of a cut.
-/

namespace PySeq

variable {α κ : Type*} [LinearOrder κ] (key : α → κ)

private theorem filter_orderedInsert (p : α → Bool) (a : α) {s : List α}
    (hs : s.Pairwise fun b c => key b ≤ key c) :
    (s.orderedInsert (fun b c => key b ≤ key c) a).filter p =
      if p a then (s.filter p).orderedInsert (fun b c => key b ≤ key c) a else s.filter p := by
  induction s with
  | nil => rw [List.orderedInsert_nil, List.filter_cons, List.filter_nil, List.orderedInsert_nil]
  | cons b s ih =>
    obtain ⟨hb, hs⟩ := List.pairwise_cons.1 hs
    rw [List.orderedInsert_cons]
    by_cases hab : key a ≤ key b
    · rw [if_pos hab, List.filter_cons]
      -- the element goes first, and so it does among those that are left
      refine if_congr Iff.rfl ?_ rfl
      cases hleft : (b :: s).filter p with
      | nil => rfl
      | cons c left =>
        have hc : c ∈ b :: s := List.mem_of_mem_filter (hleft ▸ List.mem_cons_self)
        have hac : key a ≤ key c := by
          rcases List.mem_cons.1 hc with rfl | hc
          · exact hab
          · exact hab.trans (hb c hc)
        rw [List.orderedInsert_cons, if_pos hac]
    · rw [if_neg hab, List.filter_cons, ih hs]
      by_cases hpb : p b = true
      · rw [if_pos hpb, List.filter_cons_of_pos hpb, List.orderedInsert_cons, if_neg hab]
        split_ifs <;> rfl
      · rw [if_neg hpb, List.filter_cons_of_neg hpb]

/-- **The stable sort goes through a filter.** -/
theorem filter_sortedBy (p : α → Bool) (s : List α) :
    (sortedBy key s).filter p = sortedBy key (s.filter p) := by
  induction s with
  | nil => rfl
  | cons a s ih =>
    rw [sortedBy] at ih
    rw [sortedBy, List.insertionSort_cons,
      filter_orderedInsert key p a (List.pairwise_insertionSort _ s), ih, List.filter_cons]
    split_ifs
    · rfl
    · rfl

/-- The stable sort depends on the order of the keys only. -/
theorem sortedBy_congr {κ' : Type*} [LinearOrder κ'] {key : α → κ} {key' : α → κ'}
    (hkey : ∀ a b, key a ≤ key b ↔ key' a ≤ key' b) (s : List α) :
    sortedBy key s = sortedBy key' s := by
  have hmap := List.map_insertionSort (fun a b => key a ≤ key b) (fun a b => key' a ≤ key' b) id s
    fun a _ b _ => hkey a b
  rwa [List.map_id, List.map_id] at hmap

/-- A sorted sequence has the elements below a bound in front. -/
theorem filter_append_filter {start : α → ℕ} {s : List α}
    (hs : s.Pairwise fun a b => start a ≤ start b) (k : ℕ) :
    s.filter (fun a => start a < k) ++ s.filter (fun a => !decide (start a < k)) = s := by
  induction s with
  | nil => rfl
  | cons a s ih =>
    obtain ⟨ha, hs⟩ := List.pairwise_cons.1 hs
    by_cases hak : start a < k
    · rw [List.filter_cons_of_pos (by simpa using hak),
        List.filter_cons_of_neg (by simpa using hak), List.cons_append, ih hs]
    · have hnone : s.filter (fun b => start b < k) = [] := by
        rw [List.filter_eq_nil_iff]
        intro b hb
        have hab := ha b hb
        simp only [decide_eq_true_eq]
        omega
      have hall : s.filter (fun b => !decide (start b < k)) = s := by
        have hih := ih hs
        rwa [hnone, List.nil_append] at hih
      rw [List.filter_cons_of_neg (by simpa using hak),
        List.filter_cons_of_pos (by simpa using hak), hnone, hall, List.nil_append]

end PySeq

namespace Greedy

variable {α : Type*} {conflicts : α → α → Bool}

/-- **The choice goes through a filter** when no element that passes conflicts with one that does
not. -/
theorem filter_select (p : α → Bool) : (kept as : List α) →
    (∀ a ∈ as, ∀ b ∈ kept ++ as, p a ≠ p b → conflicts a b = false) →
      (select conflicts kept as).filter p = select conflicts (kept.filter p) (as.filter p)
  | kept, [], _ => by rw [List.filter_nil, select, select]
  | kept, a :: as, hapart => by
    have ha := hapart a List.mem_cons_self
    have hrest (kept' : List α) (hsub : kept' ⊆ kept ++ [a]) :
        ∀ b ∈ as, ∀ c ∈ kept' ++ as, p b ≠ p c → conflicts b c = false := by
      refine fun b hb c hc => hapart b (List.mem_cons_of_mem a hb) c ?_
      rcases List.mem_append.1 hc with hc | hc
      · rcases List.mem_append.1 (hsub hc) with hc | hc
        · exact List.mem_append_left _ hc
        · exact List.mem_append_right _ (List.mem_singleton.1 hc ▸ List.mem_cons_self)
      · exact List.mem_append_right _ (List.mem_cons_of_mem a hc)
    by_cases hpa : p a = true
    · have hany : (kept.filter p).any (conflicts a) = kept.any (conflicts a) := by
        -- what conflicts with the element passes as it does
        rw [Bool.eq_iff_iff, List.any_eq_true, List.any_eq_true]
        refine exists_congr fun b => and_congr_left fun hab => ?_
        rw [List.mem_filter, and_iff_left_iff_imp]
        intro hb
        by_contra hpb
        rw [ha b (List.mem_append_left _ hb) fun heq => hpb (heq ▸ hpa)] at hab
        cases hab
      rw [List.filter_cons_of_pos hpa, select, select, hany]
      split_ifs
      · exact filter_select p kept as (hrest kept (List.subset_append_left _ _))
      · rw [filter_select p (kept ++ [a]) as (hrest _ (List.Subset.refl _)), List.filter_append,
          List.filter_cons_of_pos hpa, List.filter_nil]
    · rw [List.filter_cons_of_neg hpa, select]
      split_ifs
      · exact filter_select p kept as (hrest kept (List.subset_append_left _ _))
      · rw [filter_select p (kept ++ [a]) as (hrest _ (List.Subset.refl _)), List.filter_append,
          List.filter_cons_of_neg hpa, List.filter_nil, List.append_nil]

/-- **Sorting and choosing on either side of a cut.** When no span crosses the position `k`, the
spans before it and those behind it are chosen apart. -/
theorem sortedBy_select_append {κ : Type*} [LinearOrder κ] (key : α → κ) {start stop : α → ℕ}
    (k : ℕ) {as : List α} (hcut : ∀ a ∈ as, start a < stop a ∧ (start a < k → stop a ≤ k)) :
    PySeq.sortedBy start (select (sharePosition start stop) [] (PySeq.sortedBy key as)) =
      PySeq.sortedBy start (select (sharePosition start stop) []
          (PySeq.sortedBy key (as.filter fun a => start a < k))) ++
        PySeq.sortedBy start (select (sharePosition start stop) []
          (PySeq.sortedBy key (as.filter fun a => !decide (start a < k)))) := by
  have hapart (p : α → Bool) (hp : ∀ a b, p a ≠ p b → decide (start a < k) ≠ decide (start b < k)) :
      ∀ a ∈ PySeq.sortedBy key as, ∀ b ∈ [] ++ PySeq.sortedBy key as, p a ≠ p b →
        sharePosition start stop a b = false := by
    intro a ha b hb hab
    rw [List.nil_append, PySeq.mem_sortedBy] at hb
    have hsides := hp a b hab
    have hacut := hcut a (PySeq.mem_sortedBy.1 ha)
    have hbcut := hcut b hb
    simp only [sharePosition, Bool.and_eq_false_iff, decide_eq_false_iff_not]
    simp only [ne_eq, decide_eq_decide] at hsides
    omega
  have hsorted := PySeq.pairwise_sortedBy start
    (select (sharePosition start stop) [] (PySeq.sortedBy key as))
  rw [← PySeq.filter_append_filter hsorted k, PySeq.filter_sortedBy, PySeq.filter_sortedBy,
    filter_select _ _ _ (hapart _ fun _ _ => id),
    filter_select _ _ _ (hapart _ fun a b h heq => h (by rw [heq])), PySeq.filter_sortedBy,
    PySeq.filter_sortedBy, List.filter_nil, List.filter_nil]

end Greedy
