import Mathlib

/-!
# Grouping a list by keys

A loop that puts one element after the other into the group of its key. The groups stand in the
order in which their keys appear first, and each holds its elements in the order of the list.

## Main definitions

* `KeyGroups.add`: one step of the loop.
* `KeyGroups.Groups`: the groups of a list.

## Main results

* `KeyGroups.Groups.add`, `KeyGroups.groups_foldl`: the loop computes the groups.
* `KeyGroups.Groups.share_iff`: two elements share a group when their keys are equal.
* `KeyGroups.Groups.head_rel`, `KeyGroups.Groups.pairwise_heads`: in a sorted list each group starts
  with its first element, and the groups are in the order of these.
-/

namespace KeyGroups

variable {α κ : Type*} [DecidableEq κ]

/-- An element joins the group of its key, or founds it behind the others. -/
def add (k : κ) (a : α) (groups : List (κ × List α)) : List (κ × List α) :=
  match groups.findIdx? (·.1 = k) with
  | some i => groups.modify i fun g => (g.1, g.2 ++ [a])
  | none => groups ++ [(k, [a])]

/-- A change at an index that a map turns into another change. -/
theorem map_modify {β : Type*} (f : α → β) {g : α → α} (g' : β → β) (h : ∀ a, f (g a) = g' (f a))
    (l : List α) (i : ℕ) : (l.modify i g).map f = (l.map f).modify i g' := by
  refine List.ext_getElem? fun k => ?_
  rw [List.getElem?_map, List.getElem?_modify, List.getElem?_modify, List.getElem?_map,
    Option.map_eq_map, Option.map_eq_map, Option.map_map, Option.map_map]
  congr 1
  funext a
  dsimp only [Function.comp]
  split_ifs
  · exact h a
  · rfl

/-- What one step does. -/
theorem add_cases (k : κ) (a : α) (groups : List (κ × List α)) :
    (∃ before members after, groups = before ++ (k, members) :: after ∧
      add k a groups = before ++ (k, members ++ [a]) :: after) ∨
    (k ∉ groups.map Prod.fst ∧ add k a groups = groups ++ [(k, [a])]) := by
  unfold add
  split
  · rename_i i hi
    left
    obtain ⟨hlt, hkey, -⟩ := List.findIdx?_eq_some_iff_getElem.1 hi
    obtain ⟨before, ⟨k', members⟩, after, heq, hlength, hmodify⟩ :=
      List.exists_of_modify (fun g : κ × List α => (g.1, g.2 ++ [a])) hlt
    have hget : groups[i] = (k', members) := by
      refine Option.some.inj ((List.getElem?_eq_getElem hlt).symm.trans ?_)
      rw [heq, List.getElem?_append_right hlength.le, hlength, Nat.sub_self]
      rfl
    rw [hget, decide_eq_true_eq] at hkey
    obtain rfl : k' = k := hkey
    exact ⟨before, members, after, heq, hmodify⟩
  · rename_i hi
    refine .inr ⟨fun hk => ?_, rfl⟩
    obtain ⟨g, hg, rfl⟩ := List.mem_map.1 hk
    have hno := List.findIdx?_eq_none_iff.1 hi g hg
    rw [decide_eq_false_iff_not] at hno
    exact hno rfl

/-- **The groups of a list**: one for each key, with the elements of the key in their order, and in
the order of their first elements. -/
structure Groups (key : α → κ) (l : List α) (groups : List (κ × List α)) : Prop where
  nodup : (groups.map Prod.fst).Nodup
  members : ∀ g ∈ groups, g.2 = l.filter (key · = g.1)
  covers : ∀ a ∈ l, key a ∈ groups.map Prod.fst
  nonempty : ∀ g ∈ groups, g.2 ≠ []
  perm : (groups.flatMap Prod.snd).Perm l
  heads : (groups.filterMap (·.2.head?)).Sublist l

variable {key : α → κ} {l : List α} {groups : List (κ × List α)}

theorem groups_nil (key : α → κ) : Groups key [] [] :=
  ⟨List.nodup_nil, (fun _ h => nomatch h), (fun _ h => nomatch h), (fun _ h => nomatch h), .refl _,
    .refl _⟩

/-- The members of a group do not change when an element of another key comes. -/
private theorem filter_concat_of_ne {k : κ} {a : α} (h : key a ≠ k) :
    (l ++ [a]).filter (key · = k) = l.filter (key · = k) := by
  rw [List.filter_append, List.filter_singleton, decide_eq_false h]
  exact List.append_nil _

private theorem filter_concat_self (a : α) :
    (l ++ [a]).filter (key · = key a) = l.filter (key · = key a) ++ [a] := by
  rw [List.filter_append, List.filter_singleton, decide_eq_true rfl]
  rfl

/-- An element joins a group. -/
private theorem Groups.join {before after : List (κ × List α)} {members : List α} {a : α}
    (h : Groups key l (before ++ (key a, members) :: after)) :
    Groups key (l ++ [a]) (before ++ (key a, members ++ [a]) :: after) := by
  have hne : members ≠ [] := h.nonempty (key a, members) List.mem_append_cons_self
  have hkeys : ((before ++ (key a, members ++ [a]) :: after).map Prod.fst) =
      (before ++ (key a, members) :: after).map Prod.fst := by
    rw [List.map_append, List.map_append, List.map_cons, List.map_cons]
  -- no other group has the key of the element
  have hother : ∀ g ∈ before ++ after, key a ≠ g.1 := by
    intro g hg heq
    have hnodup := h.nodup
    rw [List.map_append, List.map_cons, List.nodup_middle, List.nodup_cons,
      ← List.map_append] at hnodup
    exact hnodup.1 (List.mem_map.2 ⟨g, hg, heq.symm⟩)
  have hold : ∀ g ∈ before ++ after, g.2 = (l ++ [a]).filter (key · = g.1) ∧ g.2 ≠ [] := by
    intro g hg
    have hmem : g ∈ before ++ (key a, members) :: after := by
      rw [List.mem_append, List.mem_cons]
      exact (List.mem_append.1 hg).imp_right .inr
    rw [filter_concat_of_ne (hother g hg)]
    exact ⟨h.members g hmem, h.nonempty g hmem⟩
  have hnew : members ++ [a] = (l ++ [a]).filter (key · = key a) := by
    have hmembers : members = _ := h.members (key a, members) List.mem_append_cons_self
    rw [filter_concat_self, ← hmembers]
  have hall : ∀ g ∈ before ++ (key a, members ++ [a]) :: after,
      g.2 = (l ++ [a]).filter (key · = g.1) ∧ g.2 ≠ [] := by
    intro g hg
    rw [List.mem_append, List.mem_cons] at hg
    rcases hg with hg | rfl | hg
    · exact hold g (List.mem_append_left _ hg)
    · exact ⟨hnew, List.append_ne_nil_of_right_ne_nil _ (List.cons_ne_nil _ _)⟩
    · exact hold g (List.mem_append_right _ hg)
  refine ⟨hkeys ▸ h.nodup, fun g hg => (hall g hg).1, fun b hb => ?_, fun g hg =>
    (hall g hg).2, ?_, ?_⟩
  · rw [hkeys]
    rcases List.mem_append.1 hb with hb | hb
    · exact h.covers b hb
    · rw [List.mem_singleton.1 hb]
      exact List.mem_map.2 ⟨_, List.mem_append_cons_self, rfl⟩
  · have hperm := h.perm
    rw [List.flatMap_append, List.flatMap_cons] at hperm ⊢
    change (_ ++ ((members ++ [a]) ++ _)).Perm _
    rw [List.append_assoc]
    refine .trans (List.Perm.append_left _ (List.Perm.append_left _ List.perm_append_comm)) ?_
    rw [← List.append_assoc, ← List.append_assoc, List.append_assoc (before.flatMap _)]
    exact hperm.append_right _
  · have hhead : (members ++ [a]).head? = members.head? := by
      rw [List.head?_append, List.head?_eq_some_head hne, Option.some_or]
    have hheads := h.heads
    rw [List.filterMap_append, List.filterMap_cons] at hheads ⊢
    dsimp only at hheads ⊢
    rw [hhead]
    exact hheads.trans (List.sublist_append_left _ _)

/-- An element founds a group. -/
private theorem Groups.found (h : Groups key l groups) {a : α}
    (hnew : key a ∉ groups.map Prod.fst) :
    Groups key (l ++ [a]) (groups ++ [(key a, [a])]) := by
  have hne : ∀ g ∈ groups, key a ≠ g.1 := fun g hg heq => hnew (heq ▸ List.mem_map_of_mem hg)
  have hfilter : l.filter (key · = key a) = [] := by
    refine List.filter_eq_nil_iff.2 fun b hb heq => hnew ?_
    rw [← of_decide_eq_true heq]
    exact h.covers b hb
  refine ⟨?_, fun g hg => ?_, fun b hb => ?_, fun g hg => ?_, ?_, ?_⟩
  · rw [List.map_append, List.map_singleton, ← List.concat_eq_append]
    exact h.nodup.concat hnew
  · rcases List.mem_append.1 hg with hg | hg
    · rw [filter_concat_of_ne (hne g hg)]
      exact h.members g hg
    · rw [List.mem_singleton.1 hg, filter_concat_self, hfilter, List.nil_append]
  · rw [List.map_append, List.mem_append]
    refine (List.mem_append.1 hb).imp (h.covers b) fun hb => ?_
    rw [List.mem_singleton.1 hb]
    exact List.mem_singleton_self _
  · rcases List.mem_append.1 hg with hg | hg
    · exact h.nonempty g hg
    · rw [List.mem_singleton.1 hg]
      exact List.cons_ne_nil _ _
  · rw [List.flatMap_append]
    exact h.perm.append_right _
  · rw [List.filterMap_append]
    exact h.heads.append (.refl _)

/-- **One step keeps the groups.** -/
theorem Groups.add (h : Groups key l groups) (a : α) :
    Groups key (l ++ [a]) (add (key a) a groups) := by
  rcases add_cases (key a) a groups with ⟨before, members, after, rfl, hadd⟩ | ⟨hnew, hadd⟩
  · rw [hadd]
    exact h.join
  · rw [hadd]
    exact h.found hnew

/-- **The loop computes the groups.** -/
theorem groups_foldl (key : α → κ) (l : List α) :
    Groups key l (l.foldl (fun groups a => KeyGroups.add (key a) a groups) []) := by
  induction l using List.reverseRecOn with
  | nil => exact groups_nil key
  | append_singleton l a ih =>
    rw [List.foldl_concat]
    exact ih.add a

theorem Groups.mem_iff (h : Groups key l groups) {g : κ × List α} (hg : g ∈ groups) {a : α} :
    a ∈ g.2 ↔ a ∈ l ∧ key a = g.1 := by
  rw [h.members g hg, List.mem_filter, decide_eq_true_eq]

/-- **Two elements share a group when their keys are equal.** -/
theorem Groups.share_iff (h : Groups key l groups) {a b : α} (ha : a ∈ l) (hb : b ∈ l) :
    (∃ g ∈ groups, a ∈ g.2 ∧ b ∈ g.2) ↔ key a = key b := by
  constructor
  · rintro ⟨g, hg, hag, hbg⟩
    exact ((h.mem_iff hg).1 hag).2.trans ((h.mem_iff hg).1 hbg).2.symm
  · intro heq
    obtain ⟨g, hg, hkey⟩ := List.mem_map.1 (h.covers a ha)
    exact ⟨g, hg, (h.mem_iff hg).2 ⟨ha, hkey.symm⟩, (h.mem_iff hg).2 ⟨hb, (hkey.trans heq).symm⟩⟩

/-- In a sorted list a group starts with its first element. -/
theorem Groups.head_rel {r : α → α → Prop} (h : Groups key l groups) (hl : l.Pairwise r)
    {g : κ × List α} (hg : g ∈ groups) : g.2.Pairwise r := by
  rw [h.members g hg]
  exact hl.filter _

/-- In a sorted list the groups are in the order of their first elements. -/
theorem Groups.pairwise_heads {r : α → α → Prop} (h : Groups key l groups) (hl : l.Pairwise r) :
    (groups.filterMap (·.2.head?)).Pairwise r :=
  hl.sublist h.heads

end KeyGroups
