import PiiProxy.Lib.Splice

/-!
# Substituting patterns in a sequence

A scan from left to right replaces every pattern that it meets and goes on after it, so that what it
has put in is not scanned again. When no two patterns can overlap, not even a pattern with itself,
the scan replaces all occurrences of all patterns, and the order of the patterns does not matter. So
it takes back any splice that has put such patterns into a sequence without occurrences of them.

## Main definitions

* `Subst.subst`: the scan.
* `Subst.Apart`: no two patterns can overlap.

## Main results

* `Subst.subst_spec`: the scan is the splice of all occurrences.
* `Subst.subst_apply`: the scan undoes a splice of fresh patterns.
-/

namespace Subst

open PySeq

variable {α : Type*} [DecidableEq α]

/-- A pattern with its replacement. -/
abbrev Rule (α : Type*) : Type _ := List α × List α

/-- The first pattern that the sequence begins with, in the order of the rules. -/
def matching (rules : List (Rule α)) (s : List α) : Option (Rule α) :=
  rules.find? fun r => r.1.isPrefixOf s

/-- The scan; the next `skip` elements belong to the last match. -/
def subst (rules : List (Rule α)) : ℕ → List α → List α
  | _, [] => []
  | skip + 1, _ :: s => subst rules skip s
  | 0, a :: s =>
    match matching rules (a :: s) with
    | some r => r.2 ++ subst rules (r.1.length - 1) s
    | none => a :: subst rules 0 s

/-- Patterns are not empty, and when a part of one that goes to its end and another one are prefixes
of one sequence, they are the same pattern in the same place. -/
structure Apart (rules : List (Rule α)) : Prop where
  ne_nil : ∀ r ∈ rules, r.1 ≠ []
  eq : ∀ r ∈ rules, ∀ r' ∈ rules, ∀ k < r.1.length, ∀ s, r.1.drop k <+: s → r'.1 <+: s →
    k = 0 ∧ r' = r

variable {rules : List (Rule α)} {r : Rule α} {s t u : List α}

theorem matching_eq_some (h : matching rules s = some r) : r ∈ rules ∧ r.1 <+: s := by
  unfold matching at h
  have hbegins : r.1.isPrefixOf s = true := by simpa using List.find?_some h
  exact ⟨List.mem_of_find?_eq_some h, List.isPrefixOf_iff_prefix.mp hbegins⟩

theorem matching_eq_none (h : matching rules s = none) : ∀ r ∈ rules, ¬ r.1 <+: s := by
  intro r hr hbegins
  have hfalse := List.find?_eq_none.mp h r hr
  exact hfalse (List.isPrefixOf_iff_prefix.mpr hbegins)

namespace Apart

omit [DecidableEq α] in
theorem length_pos (h : Apart rules) (hr : r ∈ rules) : 0 < r.1.length :=
  List.length_pos_of_ne_nil (h.ne_nil r hr)

/-- Only one pattern can begin a sequence. -/
theorem matching_eq (h : Apart rules) (hr : r ∈ rules) (hs : r.1 <+: s) :
    matching rules s = some r := by
  cases hmatch : matching rules s with
  | none => exact absurd hs (matching_eq_none hmatch r hr)
  | some r' =>
    obtain ⟨hr', hs'⟩ := matching_eq_some hmatch
    have heq := (h.eq r hr r' hr' 0 (h.length_pos hr) s (by simpa using hs) hs').2
    rw [heq]

end Apart

/-! ### The scan of a sequence in pieces -/

theorem subst_skip (t : List α) : subst rules s.length (s ++ t) = subst rules 0 t := by
  induction s with
  | nil => rfl
  | cons a s ih => exact ih

/-- The scan of a pattern. -/
theorem subst_append_of_mem (h : Apart rules) (hr : r ∈ rules) (t : List α) :
    subst rules 0 (r.1 ++ t) = r.2 ++ subst rules 0 t := by
  have hmatch : matching rules (r.1 ++ t) = some r := h.matching_eq hr (List.prefix_append _ _)
  cases hpattern : r.1 with
  | nil => exact absurd hpattern (h.ne_nil r hr)
  | cons a s =>
    rw [hpattern, List.cons_append] at hmatch
    rw [List.cons_append, subst, hmatch]
    simp only [hpattern, List.length_cons, Nat.add_sub_cancel]
    rw [subst_skip]

/-- The scan of a piece in which no pattern begins. -/
theorem subst_append_of_forall (h : ∀ j < s.length, ∀ r ∈ rules, ¬ r.1 <+: s.drop j ++ t) :
    subst rules 0 (s ++ t) = s ++ subst rules 0 t := by
  induction s with
  | nil => rfl
  | cons a s ih =>
    have hnone : matching rules (a :: s ++ t) = none := by
      cases hmatch : matching rules (a :: s ++ t) with
      | none => rfl
      | some r =>
        obtain ⟨hr, hbegins⟩ := matching_eq_some hmatch
        exact absurd hbegins (h 0 (Nat.zero_lt_succ _) r hr)
    rw [List.cons_append] at hnone ⊢
    rw [subst, hnone]
    simp only [List.cons_append, List.cons.injEq, true_and]
    exact ih fun j hj => h (j + 1) (Nat.succ_lt_succ hj)

omit [DecidableEq α] in
/-- No pattern begins in a piece without patterns that is followed by a pattern. -/
theorem Apart.not_prefix (h : Apart rules) (hr : r ∈ rules) (hfresh : ∀ r ∈ rules, ¬ r.1 <:+: s)
    {j : ℕ} (hj : j < s.length) {r' : Rule α} (hr' : r' ∈ rules) :
    ¬ r'.1 <+: s.drop j ++ (r.1 ++ t) := by
  intro hbegins
  have hpiece : s.drop j <+: s.drop j ++ (r.1 ++ t) := List.prefix_append _ _
  rcases le_or_gt r'.1.length (s.drop j).length with hlen | hlen
  · have hin : r'.1 <+: s.drop j := List.prefix_of_prefix_length_le hbegins hpiece hlen
    exact hfresh r' hr' (hin.isInfix.trans (List.drop_suffix j s).isInfix)
  · -- the pattern goes on into the next one
    obtain ⟨c, hc⟩ := List.prefix_of_prefix_length_le hpiece hbegins hlen.le
    have hcr : c <+: r.1 ++ t := by
      rw [← hc] at hbegins
      exact (List.prefix_append_right_inj _).mp hbegins
    have hdrop : r'.1.drop (s.drop j).length = c := by rw [← hc, List.drop_left]
    have hzero := (h.eq r' hr' r hr (s.drop j).length hlen (r.1 ++ t) (hdrop ▸ hcr)
      (List.prefix_append _ _)).1
    rw [List.length_drop] at hzero
    omega

/-- The scan leaves a sequence without patterns. -/
theorem subst_eq_self (hfresh : ∀ r ∈ rules, ¬ r.1 <:+: s) : subst rules 0 s = s := by
  have hscan : subst rules 0 (s ++ []) = s ++ subst rules 0 [] :=
    subst_append_of_forall fun j _ r hr hbegins => by
      rw [List.append_nil] at hbegins
      exact hfresh r hr (hbegins.isInfix.trans (List.drop_suffix j s).isInfix)
  simpa [subst] using hscan

/-- **The scan undoes a splice of fresh patterns.** The edits put patterns in the place of their
replacements, and the sequence has no patterns of its own. -/
theorem subst_apply (h : Apart rules) (hfresh : ∀ r ∈ rules, ¬ r.1 <:+: s) {cursor : ℕ}
    {es : List (Splice.Edit α)} (hes : Splice.Ordered s.length cursor es)
    (hrules : ∀ e ∈ es, (e.insert, slice s e.start e.stop) ∈ rules) :
    subst rules 0 (Splice.apply s cursor es) = s.drop cursor := by
  induction es generalizing cursor with
  | nil =>
    exact subst_eq_self fun r hr hin => hfresh r hr (hin.trans (List.drop_suffix cursor s).isInfix)
  | cons e es ih =>
    obtain ⟨h₁, h₂, hes⟩ := hes
    have hrule := hrules e List.mem_cons_self
    have hgap (r : Rule α) (hr : r ∈ rules) : ¬ r.1 <:+: slice s cursor e.start := by
      intro hin
      rw [slice_natCast] at hin
      exact hfresh r hr ((hin.trans (List.drop_suffix _ _).isInfix).trans
        (List.take_prefix _ _).isInfix)
    rw [Splice.apply, List.append_assoc]
    rw [subst_append_of_forall fun j hj r hr => h.not_prefix hrule hgap hj hr]
    rw [subst_append_of_mem h hrule, ih hes fun e' he' => hrules e' (List.mem_cons_of_mem _ he')]
    rw [slice_append_drop s h₂, slice_append_drop s h₁]

/-! ### All occurrences -/

/-- The edits of the scan, from the position `pos` on. -/
def edits (rules : List (Rule α)) : ℕ → ℕ → List α → List (Splice.Edit α)
  | _, _, [] => []
  | pos, skip + 1, _ :: s => edits rules (pos + 1) skip s
  | pos, 0, a :: s =>
    match matching rules (a :: s) with
    | some r => ⟨pos, pos + r.1.length, r.2⟩ :: edits rules (pos + 1) (r.1.length - 1) s
    | none => edits rules (pos + 1) 0 s

/-- A match leaves at least as many elements as it takes. -/
private theorem length_le_of_matching {a : α} (h : matching rules (a :: s) = some r) :
    r.1.length - 1 ≤ s.length := by
  have hle := (matching_eq_some h).2.length_le
  rw [List.length_cons] at hle
  omega

theorem ordered_edits (h : Apart rules) (pos : ℕ) {skip : ℕ} (hskip : skip ≤ s.length) :
    Splice.Ordered (pos + s.length) (pos + skip) (edits rules pos skip s) := by
  induction s generalizing pos skip with
  | nil =>
    rw [Nat.le_zero.mp hskip]
    exact le_rfl
  | cons a s ih =>
    have hlength : pos + (a :: s).length = pos + 1 + s.length := by
      rw [List.length_cons]
      omega
    rw [hlength]
    cases skip with
    | succ skip =>
      have hnext := ih (pos + 1) (Nat.le_of_succ_le_succ hskip)
      rwa [show pos + (skip + 1) = pos + 1 + skip by omega]
    | zero =>
      rw [edits]
      cases hmatch : matching rules (a :: s) with
      | none => exact (ih (pos + 1) (Nat.zero_le _)).mono (by omega)
      | some r =>
        have hpos := h.length_pos (matching_eq_some hmatch).1
        have hnext := ih (pos + 1) (length_le_of_matching hmatch)
        rw [show pos + 1 + (r.1.length - 1) = pos + r.1.length by omega] at hnext
        exact ⟨le_rfl, Nat.le_add_right _ _, hnext⟩

theorem subst_eq_apply (h : Apart rules) (pre : List α) {skip : ℕ} (hskip : skip ≤ s.length) :
    subst rules skip s =
      Splice.apply (pre ++ s) (pre.length + skip) (edits rules pre.length skip s) := by
  induction s generalizing pre skip with
  | nil =>
    rw [Nat.le_zero.mp hskip]
    simp [subst, edits, Splice.apply]
  | cons a s ih =>
    have hpre : pre ++ a :: s = (pre ++ [a]) ++ s := by simp
    have hlength : (pre ++ [a]).length = pre.length + 1 := by simp
    rw [hpre]
    cases skip with
    | succ skip =>
      have hnext := ih (pre ++ [a]) (Nat.le_of_succ_le_succ hskip)
      rw [hlength, show pre.length + 1 + skip = pre.length + (skip + 1) by omega] at hnext
      exact hnext
    | zero =>
      rw [subst, edits]
      cases hmatch : matching rules (a :: s) with
      | none =>
        have hordered : Splice.Ordered (pre.length + 1 + s.length) (pre.length + 1)
            (edits rules (pre.length + 1) 0 s) := ordered_edits h _ (Nat.zero_le _)
        have hnext := ih (pre ++ [a]) (Nat.zero_le _)
        rw [hlength] at hnext
        rw [Nat.add_zero, Splice.apply_of_le _ (Nat.le_succ pre.length) hordered]
        rw [slice_natCast, ← hpre, List.take_append]
        simp [hnext]
      | some r =>
        have hpos := h.length_pos (matching_eq_some hmatch).1
        have hnext := ih (pre ++ [a]) (length_le_of_matching hmatch)
        rw [hlength, show pre.length + 1 + (r.1.length - 1) = pre.length + r.1.length by omega]
          at hnext
        rw [Splice.apply, ← hnext, slice_natCast]
        simp

/-- The edits of the scan are occurrences of patterns. -/
theorem mem_edits (pre : List α) {skip : ℕ} {e : Splice.Edit α}
    (he : e ∈ edits rules pre.length skip s) :
    ∃ r ∈ rules, r.1 <+: (pre ++ s).drop e.start ∧ e.stop = e.start + r.1.length ∧
      e.insert = r.2 := by
  induction s generalizing pre skip with
  | nil => cases he
  | cons a s ih =>
    have hpre : pre ++ a :: s = (pre ++ [a]) ++ s := by simp
    have hlength : (pre ++ [a]).length = pre.length + 1 := by simp
    rw [hpre]
    cases skip with
    | succ skip =>
      rw [edits] at he
      exact ih (pre ++ [a]) (hlength ▸ he)
    | zero =>
      rw [edits] at he
      cases hmatch : matching rules (a :: s) with
      | none =>
        rw [hmatch] at he
        exact ih (pre ++ [a]) (hlength ▸ he)
      | some r =>
        rw [hmatch] at he
        rcases List.mem_cons.mp he with rfl | he
        · obtain ⟨hr, hbegins⟩ := matching_eq_some hmatch
          exact ⟨r, hr, by rw [← hpre, List.drop_left]; exact hbegins, rfl, rfl⟩
        · exact ih (pre ++ [a]) (hlength ▸ he)

/-- Every occurrence of a pattern is an edit of the scan. -/
theorem mem_edits_of_occurrence (h : Apart rules) (pre : List α) (skip : ℕ) {i : ℕ} (hr : r ∈ rules)
    (hi : pre.length + skip ≤ i) (hoccurs : r.1 <+: (pre ++ s).drop i) :
    ⟨i, i + r.1.length, r.2⟩ ∈ edits rules pre.length skip s := by
  induction s generalizing pre skip with
  | nil =>
    have hnil : (pre ++ []).drop i = [] := by
      rw [List.append_nil, List.drop_eq_nil_of_le (by omega)]
    rw [hnil, List.prefix_nil] at hoccurs
    exact absurd hoccurs (h.ne_nil r hr)
  | cons a s ih =>
    have hpre : pre ++ a :: s = (pre ++ [a]) ++ s := by simp
    have hlength : (pre ++ [a]).length = pre.length + 1 := by simp
    cases skip with
    | succ skip =>
      rw [hpre] at hoccurs
      have hmem := ih (pre ++ [a]) skip (by rw [hlength]; omega) hoccurs
      rwa [hlength] at hmem
    | zero =>
      rw [edits]
      rcases eq_or_lt_of_le hi with heq | hlt
      · obtain rfl : i = pre.length := by omega
        rw [List.drop_left] at hoccurs
        rw [h.matching_eq hr hoccurs]
        exact List.mem_cons_self
      · cases hmatch : matching rules (a :: s) with
        | none =>
          rw [hpre] at hoccurs
          have hmem := ih (pre ++ [a]) 0 (by rw [hlength]; omega) hoccurs
          rwa [hlength] at hmem
        | some r' =>
          obtain ⟨hr', hbegins⟩ := matching_eq_some hmatch
          have hdrop : (pre ++ a :: s).drop i = (a :: s).drop (i - pre.length) := by
            rw [List.drop_append, List.drop_eq_nil_of_le hlt.le, List.nil_append]
          have hafter : pre.length + r'.1.length ≤ i := by
            by_contra hin
            have hzero := (h.eq r' hr' r hr (i - pre.length) (by omega) _
              (hbegins.drop (i - pre.length)) (hdrop ▸ hoccurs)).1
            omega
          have hpos := h.length_pos hr'
          rw [hpre] at hoccurs
          have hmem := ih (pre ++ [a]) (r'.1.length - 1) (by rw [hlength]; omega) hoccurs
          rw [hlength] at hmem
          exact List.mem_cons_of_mem _ hmem

/-- **The scan replaces every occurrence once.** It is the splice of all occurrences of patterns,
which are disjoint. -/
theorem subst_spec (h : Apart rules) (u : List α) :
    ∃ es, Splice.Ordered u.length 0 es ∧ subst rules 0 u = Splice.apply u 0 es ∧
      ∀ e, e ∈ es ↔ ∃ r ∈ rules, r.1 <+: u.drop e.start ∧ e.stop = e.start + r.1.length ∧
        e.insert = r.2 := by
  refine ⟨edits rules 0 0 u, ?_, ?_, fun e => ⟨fun he => ?_, fun he => ?_⟩⟩
  · simpa using ordered_edits h 0 (Nat.zero_le u.length)
  · exact subst_eq_apply h [] (Nat.zero_le _)
  · exact mem_edits [] he
  · obtain ⟨r, hr, hoccurs, hstop, hinsert⟩ := he
    have hmem := mem_edits_of_occurrence h [] 0 hr (Nat.zero_le e.start) hoccurs
    rwa [← hstop, ← hinsert] at hmem

end Subst
