import Mathlib

/-!
# Slices and stable sorting of sequences

The sequence operations of Python over an arbitrary element type: the slice `s[i:j]` with its
treatment of negative and out-of-range indices, and `sorted(s, key=...)`, which is stable.

## Main definitions

* `PySeq.index`, `PySeq.slice`: the position a slice index denotes, and the slice `s[i:j]`.
* `PySeq.sortedBy`: the stable sort by a key.
* `PySeq.hasSub`: the substring test `needle in s`.

## Main results

* `PySeq.slice_natCast`: between two non-negative indices a slice is a `take` of a `drop`.
* `PySeq.slice_append_slice`: adjacent slices join.
* `PySeq.sortedBy_eq_self`: sorting a sorted sequence changes nothing.
* `PySeq.map_fst_sortedBy_zipIdx`: the sort is stable.
-/

namespace PySeq

variable {α : Type*}

/-! ### Slices -/

/-- The position between `0` and `n` that the slice index `i` denotes in a sequence of length
`n`: negative indices count from the end, and everything is clamped. -/
def index (n : ℕ) (i : ℤ) : ℕ :=
  if i < 0 then (i + n).toNat else min i.toNat n

/-- The slice `s[i:j]`. -/
def slice (s : List α) (i j : ℤ) : List α :=
  (s.take (index s.length j)).drop (index s.length i)

@[simp] theorem index_natCast (n k : ℕ) : index n (k : ℤ) = min k n := by
  have h : ¬ (k : ℤ) < 0 := by omega
  simp only [index, h, ↓reduceIte, Int.toNat_natCast]

/-- Between two non-negative indices the slice is a `take` followed by a `drop`. -/
theorem slice_natCast (s : List α) (i j : ℕ) : slice s i j = (s.take j).drop i := by
  rw [slice, index_natCast, index_natCast]
  have htake : s.take (min j s.length) = s.take j := by
    rcases le_total j s.length with h | h
    · rw [min_eq_left h]
    · rw [min_eq_right h, List.take_length, List.take_of_length_le h]
  rw [htake]
  rcases le_total i s.length with h | h
  · rw [min_eq_left h]
  · rw [min_eq_right h, List.drop_eq_nil_of_le, List.drop_eq_nil_of_le]
    · exact (List.length_take_le' j s).trans h
    · exact List.length_take_le' j s

theorem length_slice_natCast (s : List α) {i j : ℕ} (hj : j ≤ s.length) :
    (slice s i j).length = j - i := by
  rw [slice_natCast, List.length_drop, List.length_take, min_eq_left hj]

/-- A slice to the end of the sequence is a `drop`. -/
theorem slice_to_length (s : List α) (i : ℕ) : slice s i (s.length : ℤ) = s.drop i := by
  rw [slice_natCast, List.take_length]

/-- Adjacent slices join. -/
theorem slice_append_slice (s : List α) {i j k : ℕ} (hij : i ≤ j) (hjk : j ≤ k) :
    slice s i j ++ slice s j k = slice s i k := by
  simp only [slice_natCast]
  rw [← List.take_append_drop (j - i) ((s.take k).drop i), List.take_drop, List.drop_drop,
    Nat.add_sub_cancel' hij, List.take_take, min_eq_left hjk]

/-- A slice from the start of the sequence is a `take`. -/
theorem take_append_slice (s : List α) {i j : ℕ} (hij : i ≤ j) :
    s.take i ++ slice s i j = s.take j := by
  have hzero (k : ℕ) : slice s 0 k = s.take k := by
    rw [show (0 : ℤ) = ((0 : ℕ) : ℤ) from rfl, slice_natCast, List.drop_zero]
  rw [← hzero i, ← hzero j]
  exact_mod_cast slice_append_slice s (Nat.zero_le i) hij

/-- A slice joins with everything after it. -/
theorem slice_append_drop (s : List α) {i j : ℕ} (hij : i ≤ j) :
    slice s i j ++ s.drop j = s.drop i := by
  rw [slice_natCast, ← List.take_append_drop (j - i) (s.drop i), List.take_drop, List.drop_drop,
    Nat.add_sub_cancel' hij]

theorem length_slice_le (s : List α) (i j : ℕ) : (slice s i j).length ≤ j - i := by
  rw [slice_natCast, List.length_drop, List.length_take]
  omega

/-- The elements of a slice are those of the sequence. -/
theorem getElem?_slice (s : List α) {i j n : ℕ} (h : i + n < j) :
    (slice s i j)[n]? = s[i + n]? := by
  rw [slice_natCast, List.getElem?_drop, List.getElem?_take_of_lt h]

/-- Two members of a list whose members stand in a relation are related, one way or the other. -/
theorem eq_or_rel_of_pairwise {R : α → α → Prop} {s : List α} (h : s.Pairwise R) {a b : α}
    (ha : a ∈ s) (hb : b ∈ s) : a = b ∨ R a b ∨ R b a := by
  have : Std.Symm fun a b => a = b ∨ R a b ∨ R b a :=
    ⟨fun _ _ h => h.elim (fun h => .inl h.symm) fun h => .inr h.symm⟩
  have hpairs : s.Pairwise fun a b => a = b ∨ R a b ∨ R b a := h.imp fun h => .inr (.inl h)
  exact hpairs.forall_of_forall (fun _ _ => .inl rfl) ha hb

/-! ### Stable sorting -/

section Sorting

variable {κ : Type*} [LinearOrder κ]

/-- `sorted(s, key=key)`: the stable sort by `key`. -/
def sortedBy (key : α → κ) (s : List α) : List α :=
  s.insertionSort fun a b => key a ≤ key b

instance total_key_le (key : α → κ) : Std.Total fun a b : α => key a ≤ key b :=
  ⟨fun a b => le_total (key a) (key b)⟩

instance isTrans_key_le (key : α → κ) : IsTrans α fun a b => key a ≤ key b :=
  ⟨fun _ _ _ => le_trans⟩

theorem sortedBy_perm (key : α → κ) (s : List α) : (sortedBy key s).Perm s :=
  List.perm_insertionSort _ s

@[simp] theorem mem_sortedBy {key : α → κ} {s : List α} {a : α} :
    a ∈ sortedBy key s ↔ a ∈ s :=
  (sortedBy_perm key s).mem_iff

@[simp] theorem length_sortedBy (key : α → κ) (s : List α) :
    (sortedBy key s).length = s.length :=
  (sortedBy_perm key s).length_eq

theorem pairwise_sortedBy (key : α → κ) (s : List α) :
    (sortedBy key s).Pairwise fun a b => key a ≤ key b :=
  List.pairwise_insertionSort _ s

/-- Sorting a sorted sequence changes nothing. -/
theorem sortedBy_eq_self {key : α → κ} {s : List α}
    (h : s.Pairwise fun a b => key a ≤ key b) : sortedBy key s = s :=
  h.insertionSort_eq

/-- Sorting goes through a map that the key is read through. -/
theorem sortedBy_map {β : Type*} (key : β → κ) (f : α → β) (s : List α) :
    sortedBy key (s.map f) = (sortedBy (key ∘ f) s).map f := by
  rw [sortedBy, sortedBy, List.map_insertionSort (fun a b => (key ∘ f) a ≤ (key ∘ f) b)
    (fun a b => key a ≤ key b) f s fun _ _ _ _ => Iff.rfl]

/-- The sorted sequence is the only rearrangement with increasing keys. -/
theorem sortedBy_eq_of_perm {key : α → κ} {s t : List α} (hperm : t.Perm s)
    (ht : t.Pairwise fun a b => key a < key b) : sortedBy key s = t := by
  refine List.Perm.eq_of_pairwise (fun a b ha hb hab hba => ?_) (pairwise_sortedBy key s)
    (ht.imp le_of_lt) ((sortedBy_perm key s).trans hperm.symm)
  by_contra hne
  have hkeys : t.Pairwise fun a b => key a ≠ key b := ht.imp ne_of_lt
  have ha : a ∈ t := hperm.mem_iff.mpr (mem_sortedBy.mp ha)
  have : Std.Symm fun a b : α => key a ≠ key b := ⟨fun _ _ h => h.symm⟩
  exact hkeys.forall ha hb hne (le_antisymm hab hba)

private theorem map_orderedInsert_of_iff {β : Type*} {r : α → α → Prop} {r' : β → β → Prop}
    [DecidableRel r] [DecidableRel r'] (f : α → β) {a : α} {s : List α}
    (h : ∀ b ∈ s, r a b ↔ r' (f a) (f b)) :
    (s.orderedInsert r a).map f = (s.map f).orderedInsert r' (f a) := by
  induction s with
  | nil => rfl
  | cons b s ih =>
    have ih := ih fun b' hb' => h b' (List.mem_cons_of_mem b hb')
    have hb := h b List.mem_cons_self
    rw [List.orderedInsert_cons, List.map_cons, List.orderedInsert_cons]
    split_ifs with hab hab' hab'
    · rfl
    · exact absurd (hb.1 hab) hab'
    · exact absurd (hb.2 hab') hab
    · rw [List.map_cons, ih]

/-- **The sort is stable**: elements with equal keys keep the order of their numbers. -/
theorem map_fst_sortedBy (key : α → κ) {s : List (α × ℕ)} (h : s.Pairwise fun x y => x.2 < y.2) :
    (sortedBy (fun x => toLex (key x.1, x.2)) s).map Prod.fst = sortedBy key (s.map Prod.fst) := by
  induction s with
  | nil => rfl
  | cons x s ih =>
    obtain ⟨hx, hs⟩ := List.pairwise_cons.1 h
    have ih := ih hs
    rw [sortedBy, sortedBy] at ih ⊢
    rw [List.map_cons, List.insertionSort_cons, List.insertionSort_cons, ← ih]
    refine map_orderedInsert_of_iff Prod.fst fun y hy => ?_
    have hlt : x.2 < y.2 := hx y ((List.perm_insertionSort _ s).mem_iff.1 hy)
    rw [Prod.Lex.toLex_le_toLex, @le_iff_lt_or_eq κ _ (key x.1)]
    exact or_congr_right (and_iff_left hlt.le)

/-- The stable sort, with the positions of the elements. -/
theorem map_fst_sortedBy_zipIdx (key : α → κ) (s : List α) :
    (sortedBy (fun x => toLex (key x.1, x.2)) s.zipIdx).map Prod.fst = sortedBy key s := by
  have hlt : s.zipIdx.Pairwise fun x y => x.2 < y.2 := by
    refine List.Pairwise.of_map Prod.snd (fun _ _ => id) ?_
    rw [List.zipIdx_map_snd]
    exact List.pairwise_lt_range'
  rw [map_fst_sortedBy key hlt, List.zipIdx_map_fst]

/-- Disjoint spans that are not empty follow each other when they are sorted by their start. -/
theorem pairwise_sortedBy_of_disjoint {start stop : α → ℕ} {s : List α}
    (hpos : ∀ a ∈ s, start a < stop a)
    (hdisjoint : s.Pairwise fun a b => stop a ≤ start b ∨ stop b ≤ start a) :
    (sortedBy start s).Pairwise fun a b => stop a ≤ start b := by
  have hsorted := pairwise_sortedBy start s
  refine ((hdisjoint.perm (sortedBy_perm start s).symm Or.symm).and hsorted).imp_of_mem ?_
  rintro a b - hb ⟨hab | hba, hle⟩
  · exact hab
  · exact absurd hle (Nat.not_le.2 ((hpos b (mem_sortedBy.1 hb)).trans_le hba))

end Sorting

/-! ### Substrings -/

/-- `needle in s`. -/
def hasSub [BEq α] (needle : List α) : List α → Bool
  | [] => needle.isEmpty
  | a :: s => needle.isPrefixOf (a :: s) || hasSub needle s

theorem hasSub_iff [BEq α] [LawfulBEq α] (needle : List α) :
    (s : List α) → hasSub needle s = true ↔ needle <:+: s
  | [] => by simp [hasSub, List.infix_nil]
  | a :: s => by
      rw [hasSub, Bool.or_eq_true, List.isPrefixOf_iff_prefix, hasSub_iff needle s,
        List.infix_cons_iff]

/-! ### Joined sequences -/

/-- Joined sequences have no element with a property when none of them has and the separator has
none. -/
theorem any_intercalate {p : α → Bool} {sep : List α} (hsep : sep.any p = false)
    {parts : List (List α)} (h : ∀ part ∈ parts, part.any p = false) :
    (sep.intercalate parts).any p = false := by
  induction parts with
  | nil => rfl
  | cons part parts ih =>
    obtain ⟨hpart, hparts⟩ := List.forall_mem_cons.1 h
    cases parts with
    | nil =>
      rw [List.intercalate_singleton]
      exact hpart
    | cons part' parts =>
      rw [List.intercalate_cons_cons, List.any_append, List.any_append, hpart, hsep, ih hparts]
      rfl

/-! ### Sequences side by side -/

/-- Of two sequences related element by element, each element of the first has a partner. -/
theorem exists_of_forall₂ {β : Type*} {r : α → β → Prop} {s : List α} {t : List β}
    (h : List.Forall₂ r s t) {a : α} (ha : a ∈ s) : ∃ b ∈ t, r a b := by
  induction h with
  | nil => cases ha
  | cons hfirst _ ih =>
    rcases List.mem_cons.mp ha with rfl | ha
    · exact ⟨_, List.mem_cons_self, hfirst⟩
    · obtain ⟨b, hb, hab⟩ := ih ha
      exact ⟨b, List.mem_cons_of_mem _ hb, hab⟩

end PySeq
