import PiiProxy.Lib.PySeq

/-!
# Greedy selection

A walk through a list keeps an element unless it conflicts with an element kept before. The kept
elements stand in the order of the list and do not conflict with each other.

## Main definitions

* `Greedy.select`: the elements kept by the walk.
* `Greedy.sharePosition`: two spans conflict when they share a position.

## Main results

* `Greedy.select_sublist`: the kept elements are a sublist.
* `Greedy.pairwise_select`: no kept element conflicts with one kept before it.
* `Greedy.exists_conflict`: an element that is not kept conflicts with one kept before it.
* `Greedy.mem_select_iff`: which elements of a strictly ordered list are kept.
* `Greedy.pairwise_sortedBy_select`: spans kept for sharing no position follow each other.
* `Greedy.select_map`: the walk goes through a map that the conflicts are read through.
-/

namespace Greedy

variable {α : Type*} (conflicts : α → α → Bool)

/-- Keep each element that conflicts with none of the elements `kept` before it. -/
def select : List α → List α → List α
  | kept, [] => kept
  | kept, a :: as =>
    if kept.any (conflicts a) then select kept as else select (kept ++ [a]) as

theorem select_sublist : (kept as : List α) → (select conflicts kept as).Sublist (kept ++ as)
  | kept, [] => by rw [select, List.append_nil]
  | kept, a :: as => by
      rw [select]
      split_ifs
      · exact (select_sublist kept as).trans
          (List.sublist_append_right [a] as |>.append_left kept)
      · have h := select_sublist (kept ++ [a]) as
        rwa [List.append_assoc] at h

/-- No kept element conflicts with one kept before it. -/
theorem pairwise_select : (kept as : List α) →
    kept.Pairwise (fun a b => conflicts b a = false) →
      (select conflicts kept as).Pairwise fun a b => conflicts b a = false
  | _, [], h => by rwa [select]
  | kept, a :: as, h => by
      rw [select]
      split_ifs with ha
      · exact pairwise_select kept as h
      · refine pairwise_select (kept ++ [a]) as ?_
        rw [List.pairwise_append]
        refine ⟨h, List.pairwise_singleton _ _, fun b hb c hc => ?_⟩
        rw [List.mem_singleton.mp hc]
        rw [List.any_eq_true] at ha
        exact Bool.eq_false_iff.mpr fun hab => ha ⟨b, hb, hab⟩

/-- What is kept at the beginning stays kept. -/
theorem kept_subset_select : (kept as : List α) → kept ⊆ select conflicts kept as
  | kept, [] => by
      rw [select]
      exact List.Subset.refl kept
  | kept, a :: as => by
      rw [select]
      split_ifs
      · exact kept_subset_select kept as
      · exact List.Subset.trans (List.subset_append_left kept [a])
          (kept_subset_select (kept ++ [a]) as)

variable {conflicts}

/-- **An element that is not kept conflicts with one kept before it.** -/
theorem exists_conflict {r : α → α → Prop} {kept as : List α} (h : (kept ++ as).Pairwise r) {a : α}
    (ha : a ∈ as) (hdropped : a ∉ select conflicts kept as) :
    ∃ b ∈ select conflicts kept as, conflicts a b = true ∧ r b a := by
  induction as generalizing kept with
  | nil => cases ha
  | cons a' as ih =>
    have happend : kept ++ a' :: as = (kept ++ [a']) ++ as := by simp
    rw [select] at hdropped ⊢
    split_ifs at hdropped ⊢ with hany
    · rcases List.mem_cons.1 ha with rfl | ha
      · obtain ⟨b, hb, hab⟩ := List.any_eq_true.1 hany
        have hba : r b a := (List.pairwise_append.1 h).2.2 b hb a List.mem_cons_self
        exact ⟨b, kept_subset_select conflicts kept as hb, hab, hba⟩
      · exact ih (h.sublist (List.sublist_cons_self a' as |>.append_left kept)) ha hdropped
    · rcases List.mem_cons.1 ha with rfl | ha
      · have hkept : a ∈ kept ++ [a] := List.mem_append_right kept (List.mem_singleton_self a)
        exact absurd (kept_subset_select conflicts (kept ++ [a]) as hkept) hdropped
      · exact ih (happend ▸ h) ha hdropped

/-- **Which elements are kept.** In a strictly ordered list, those that conflict with no kept
element before them. -/
theorem mem_select_iff {r : α → α → Prop} (hasymm : ∀ a b, r a b → ¬r b a) {as : List α}
    (h : as.Pairwise r) {a : α} (ha : a ∈ as) :
    a ∈ select conflicts [] as ↔ ∀ b ∈ select conflicts [] as, r b a → conflicts a b = false := by
  have hkept := (pairwise_select conflicts [] as List.Pairwise.nil).and
    (h.sublist (select_sublist conflicts [] as))
  constructor
  · intro ha b hb hba
    rcases PySeq.eq_or_rel_of_pairwise hkept ha hb with rfl | ⟨-, hab⟩ | ⟨hfree, -⟩
    · exact absurd hba (hasymm a a hba)
    · exact absurd hba (hasymm a b hab)
    · exact hfree
  · intro hfree
    by_contra hdropped
    obtain ⟨b, hb, hconflict, hba⟩ := @exists_conflict _ conflicts r [] as h a ha hdropped
    rw [hfree b hb hba] at hconflict
    cases hconflict

/-- The walk goes through a map that the conflicts are read through. -/
theorem select_map {β : Type*} (f : β → α) : (kept as : List β) →
    (select (fun a b => conflicts (f a) (f b)) kept as).map f =
      select conflicts (kept.map f) (as.map f)
  | _, [] => rfl
  | kept, a :: as => by
      have hany : (kept.map f).any (conflicts (f a)) = kept.any fun b => conflicts (f a) (f b) :=
        List.any_map
      rw [List.map_cons, select, select, hany]
      split_ifs
      · exact select_map f kept as
      · rw [select_map f (kept ++ [a]) as, List.map_append, List.map_singleton]

/-! ### Spans -/

/-- The spans from `start a` to `stop a` and from `start b` to `stop b` share a position. -/
def sharePosition (start stop : α → ℕ) (a b : α) : Bool :=
  decide (start a < stop b) && decide (start b < stop a)

/-- Spans that are kept for sharing no position, and are not empty, follow each other when they are
sorted. -/
theorem pairwise_sortedBy_select {start stop : α → ℕ} {as : List α}
    (hpos : ∀ a ∈ as, start a < stop a) :
    (PySeq.sortedBy start (select (sharePosition start stop) [] as)).Pairwise
      fun a b => stop a ≤ start b := by
  have hfree := pairwise_select (sharePosition start stop) [] as List.Pairwise.nil
  refine PySeq.pairwise_sortedBy_of_disjoint
    (fun a ha => hpos a ((select_sublist _ [] as).subset ha)) (hfree.imp fun {a b} hab => ?_)
  simp only [sharePosition, Bool.and_eq_false_iff, decide_eq_false_iff_not] at hab
  omega

end Greedy
