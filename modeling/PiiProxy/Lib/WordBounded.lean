import Mathlib

/-!
# Replacing the occurrences of a word

A scan replaces a needle wherever it stands with no word element on either side. It goes from left
to right and goes on behind each occurrence that it replaces. What counts as a word element is a
parameter: two scans that differ in it agree exactly when no element that touches a replaced
occurrence is a word element of one of them only.

## Main definitions

* `WordBounded.takes`: the needle begins a sequence and stands free.
* `WordBounded.scan`: the sequence with the occurrences replaced.
* `WordBounded.neighbours`: the elements that touch the replaced occurrences.

## Main results

* `WordBounded.scan_eq_scan_iff`: when two notions of word elements give the same scan.
* `WordBounded.scan_append_of_forall`, `WordBounded.scan_needle`: the two steps of a scan.
-/

namespace WordBounded

variable {α : Type*} [DecidableEq α]

/-- No word element stands on either side. -/
def free (isWord : α → Bool) (before after : Option α) : Bool :=
  !before.any isWord && !after.any isWord

/-- The needle begins `s` and stands free, after the element `before`. -/
def takes (isWord : α → Bool) (needle : List α) (before : Option α) (s : List α) : Bool :=
  needle.isPrefixOf s && free isWord before (s.drop needle.length).head?

/-- The scan; the next `skip` elements belong to the occurrence replaced last. -/
def scan (isWord : α → Bool) (needle replacement : List α) : Option α → ℕ → List α → List α
  | _, _, [] => []
  | _, skip + 1, a :: s => scan isWord needle replacement (some a) skip s
  | before, 0, a :: s =>
    if takes isWord needle before (a :: s) then
      replacement ++ scan isWord needle replacement (some a) (needle.length - 1) s
    else a :: scan isWord needle replacement (some a) 0 s

/-- The elements directly before and after the occurrences that the scan replaces. -/
def neighbours (isWord : α → Bool) (needle : List α) : Option α → ℕ → List α → List α
  | _, _, [] => []
  | _, skip + 1, a :: s => neighbours isWord needle (some a) skip s
  | before, 0, a :: s =>
    if takes isWord needle before (a :: s) then
      before.toList ++ ((a :: s).drop needle.length).head?.toList ++
        neighbours isWord needle (some a) (needle.length - 1) s
    else neighbours isWord needle (some a) 0 s

variable {isWord isWord' : α → Bool} {needle replacement s t : List α} {before : Option α}

theorem takes_iff : takes isWord needle before s = true ↔
    needle <+: s ∧ before.any isWord = false ∧
      (s.drop needle.length).head?.any isWord = false := by
  simp only [takes, free, Bool.and_eq_true, List.isPrefixOf_iff_prefix, Bool.not_eq_true']

/-! ### Two notions of word elements -/

theorem takes_of_le (hle : ∀ a, isWord a = true → isWord' a = true)
    (h : takes isWord' needle before s = true) : takes isWord needle before s = true := by
  have hmono (o : Option α) (ho : o.any isWord' = false) : o.any isWord = false := by
    cases o with
    | none => rfl
    | some a =>
      rw [Option.any_some] at ho ⊢
      exact Bool.eq_false_iff.2 fun ha => Bool.eq_false_iff.1 ho (hle a ha)
  obtain ⟨hbegins, hbefore, hafter⟩ := takes_iff.1 h
  exact takes_iff.2 ⟨hbegins, hmono _ hbefore, hmono _ hafter⟩

omit [DecidableEq α] in
theorem any_eq_false_of_forall_toList {o : Option α} (h : ∀ a ∈ o.toList, isWord a = false) :
    o.any isWord = false := by
  cases o with
  | none => rfl
  | some a => exact h a (by simp)

omit [DecidableEq α] in
theorem forall_toList_of_any_eq_false {o : Option α} (h : o.any isWord = false) :
    ∀ a ∈ o.toList, isWord a = false := by
  cases o with
  | none => simp
  | some a => simpa using h

/-- The neighbours of a replaced occurrence are no word elements. -/
theorem isWord_of_mem_neighbours {skip : ℕ} {a : α}
    (ha : a ∈ neighbours isWord needle before skip s) : isWord a = false := by
  induction s generalizing before skip with
  | nil => cases skip <;> cases ha
  | cons b s ih =>
    cases skip with
    | succ skip => exact ih ha
    | zero =>
      by_cases htakes : takes isWord needle before (b :: s) = true
      · obtain ⟨-, hbefore, hafter⟩ := takes_iff.1 htakes
        rw [neighbours, if_pos htakes] at ha
        rcases List.mem_append.1 ha with ha | ha
        · rcases List.mem_append.1 ha with ha | ha
          · exact forall_toList_of_any_eq_false hbefore a ha
          · exact forall_toList_of_any_eq_false hafter a ha
        · exact ih ha
      · rw [neighbours, if_neg htakes] at ha
        exact ih ha

/-- Two scans agree when no neighbour of a replaced occurrence is a word element of the stricter
one. -/
theorem scan_eq_scan (hle : ∀ a, isWord a = true → isWord' a = true) (skip : ℕ)
    (h : ∀ a ∈ neighbours isWord needle before skip s, isWord' a = false) :
    scan isWord needle replacement before skip s =
      scan isWord' needle replacement before skip s := by
  induction s generalizing before skip with
  | nil => cases skip <;> rfl
  | cons a s ih =>
    cases skip with
    | succ skip => exact ih skip h
    | zero =>
      by_cases htakes : takes isWord needle before (a :: s) = true
      · rw [neighbours, if_pos htakes] at h
        have hfree : takes isWord' needle before (a :: s) = true := by
          refine takes_iff.2 ⟨(takes_iff.1 htakes).1, ?_, ?_⟩
          · exact any_eq_false_of_forall_toList fun b hb => h b (by simp [hb])
          · exact any_eq_false_of_forall_toList fun b hb =>
              h b (List.mem_append_left _ (List.mem_append_right _ hb))
        rw [scan, scan, if_pos htakes, if_pos hfree,
          ih _ fun b hb => h b (List.mem_append_right _ hb)]
      · rw [neighbours, if_neg htakes] at h
        rw [scan, scan, if_neg htakes, if_neg fun h' => htakes (takes_of_le hle h'), ih 0 h]

/-- **When two notions of word elements give the same scan.** -/
theorem scan_eq_scan_iff [Nontrivial α] (hle : ∀ a, isWord a = true → isWord' a = true)
    (skip : ℕ) :
    (∀ replacement, scan isWord needle replacement before skip s =
        scan isWord' needle replacement before skip s) ↔
      ∀ a ∈ neighbours isWord needle before skip s, isWord' a = false := by
  refine ⟨fun h => ?_, fun h replacement => scan_eq_scan hle skip h⟩
  induction s generalizing before skip with
  | nil => cases skip <;> simp [neighbours]
  | cons a s ih =>
    cases skip with
    | succ skip => exact ih skip h
    | zero =>
      by_cases htakes : takes isWord needle before (a :: s) = true
      · have hfree : takes isWord' needle before (a :: s) = true := by
          by_contra hno
          -- A replacement by another element shows whether the occurrence was replaced.
          obtain ⟨b, hb⟩ := exists_ne a
          have hscan := h [b]
          rw [scan, scan, if_pos htakes, if_neg hno] at hscan
          exact hb (List.cons.inj hscan).1
        obtain ⟨-, hbefore, hafter⟩ := takes_iff.1 hfree
        rw [neighbours, if_pos htakes]
        intro b hb
        rcases List.mem_append.1 hb with hb | hb
        · rcases List.mem_append.1 hb with hb | hb
          · exact forall_toList_of_any_eq_false hbefore b hb
          · exact forall_toList_of_any_eq_false hafter b hb
        · refine ih _ (fun replacement => ?_) b hb
          have hscan := h replacement
          rw [scan, scan, if_pos htakes, if_pos hfree] at hscan
          exact List.append_cancel_left hscan
      · rw [neighbours, if_neg htakes]
        refine ih 0 fun replacement => ?_
        have hscan := h replacement
        rw [scan, scan, if_neg htakes, if_neg fun h' => htakes (takes_of_le hle h')] at hscan
        exact (List.cons.inj hscan).2

/-! ### The steps of a scan -/

omit [DecidableEq α] in
theorem getLast?_cons_or (a : α) (t : List α) (before : Option α) :
    (a :: t).getLast?.or before = t.getLast?.or (some a) := by
  rw [List.getLast?_cons]
  cases t.getLast? <;> rfl

/-- The elements of the occurrence replaced last are passed over. -/
theorem scan_skip (before : Option α) (t s : List α) :
    scan isWord needle replacement before t.length (t ++ s) =
      scan isWord needle replacement (t.getLast?.or before) 0 s := by
  induction t generalizing before with
  | nil => rfl
  | cons a t ih =>
    rw [getLast?_cons_or]
    exact ih (some a)

/-- A needle that stands free is replaced. -/
theorem scan_needle (hneedle : needle ≠ [])
    (h : takes isWord needle before (needle ++ s) = true) :
    scan isWord needle replacement before 0 (needle ++ s) =
      replacement ++ scan isWord needle replacement needle.getLast? 0 s := by
  obtain ⟨a, t, rfl⟩ := List.exists_cons_of_ne_nil hneedle
  have hlast : (a :: t).getLast? = t.getLast?.or (some a) := by
    rw [← getLast?_cons_or a t none, Option.or_none]
  rw [List.cons_append] at h ⊢
  rw [scan, if_pos h, List.length_cons, Nat.add_sub_cancel, scan_skip, hlast]

/-- A piece in which the needle begins nowhere is copied. -/
theorem scan_append_of_forall (h : ∀ j < t.length, ¬needle <+: t.drop j ++ s) :
    scan isWord needle replacement before 0 (t ++ s) =
      t ++ scan isWord needle replacement (t.getLast?.or before) 0 s := by
  induction t generalizing before with
  | nil => rfl
  | cons a t ih =>
    have hno : ¬takes isWord needle before (a :: (t ++ s)) = true := fun htakes =>
      h 0 (Nat.succ_pos _) (takes_iff.1 htakes).1
    have hrest : scan isWord needle replacement (some a) 0 (t ++ s) =
        t ++ scan isWord needle replacement (t.getLast?.or (some a)) 0 s :=
      ih fun j hj => h (j + 1) (by simpa using hj)
    rw [List.cons_append, scan, if_neg hno, hrest, getLast?_cons_or, List.cons_append]

end WordBounded
