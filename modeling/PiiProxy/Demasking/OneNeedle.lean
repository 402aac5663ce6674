import PiiProxy.Demasking.Demasker
import PiiProxy.Lib.WordBounded

/-!
# Demasking one needle

For one needle, the spans that the demasker finds, resolves and replaces are those of a scan from
left to right: all spans are equally long, so the earliest of them wins.

## Main results

* `foldl_replaceSpan`: replacing ordered spans from right to left is a splice.
* `resolveAndApply_one`: the demasker with one needle is the word-bounded scan.
-/

namespace PiiProxy

/-! ### Replacing spans from right to left -/

private theorem slice_zero (s : Text) (k : ℕ) : PySeq.slice s 0 k = s.take k := by
  simpa using PySeq.slice_natCast s 0 k

private theorem replaceSpan_eq (result : Text) (e : Splice.Edit Char) :
    replaceSpan result e = Splice.replace result e := by
  rw [replaceSpan, PySeq.slice_to_length, slice_zero]
  rfl

/-- Replacing ordered spans, the last one first, is the splice of them. -/
theorem foldr_replaceSpan {text : Text} {cursor : ℕ} {es : List (Splice.Edit Char)}
    (hes : Splice.Ordered text.length cursor es) :
    es.foldr (fun e result => replaceSpan result e) text =
      text.take cursor ++ Splice.apply text cursor es := by
  simp only [replaceSpan_eq]
  exact Splice.foldr_replace hes

/-- **Applying chosen spans is the splice of them.** The spans are ordered and not empty. -/
theorem foldl_replaceSpan {text : Text} {es : List (Splice.Edit Char)}
    (hes : Splice.Ordered text.length 0 es) (hpos : ∀ e ∈ es, e.start < e.stop) :
    (PySeq.sortedBy (fun s => -(s.start : ℤ)) es).foldl replaceSpan text =
      Splice.apply text 0 es := by
  have hsorted : PySeq.sortedBy (fun s => -(s.start : ℤ)) es = es.reverse := by
    refine PySeq.sortedBy_eq_of_perm es.reverse_perm (List.pairwise_reverse.mpr ?_)
    exact (hes.pairwise_start_lt hpos).imp fun h => by omega
  rw [hsorted, List.foldl_reverse, foldr_replaceSpan hes, List.take_zero, List.nil_append]

/-! ### The chosen spans of one needle -/

variable (u : Unicode)

/-- The spans of one needle from the position `pos` of the text on. -/
def spansFrom (text needle replacement : Text) (pos : ℕ) (rest : Text) :
    List (Splice.Edit Char) :=
  ((findAll needle pos rest).filter fun idx => boundaryOk u text idx (idx + needle.length)).map
    fun idx => ⟨idx, idx + needle.length, replacement⟩

variable {u} {needle : Text}

/-- The boundary test at a position is the test of the scan. -/
theorem boundaryOk_eq (pre rest : Text) :
    boundaryOk u (pre ++ rest) pre.length (pre.length + needle.length) =
      WordBounded.free (Demasker.isWordChar u) pre.getLast? (rest.drop needle.length).head? := by
  have hbefore : (pre.length == 0 ||
      !((pre ++ rest)[pre.length - 1]?).any (Demasker.isWordChar u)) =
        !pre.getLast?.any (Demasker.isWordChar u) := by
    cases pre using List.reverseRecOn with
    | nil => rfl
    | append_singleton pre c _ => simp
  have hafter : (pre.length + needle.length == (pre ++ rest).length ||
      !((pre ++ rest)[pre.length + needle.length]?).any (Demasker.isWordChar u)) =
        !(rest.drop needle.length).head?.any (Demasker.isWordChar u) := by
    rw [List.getElem?_append_right (Nat.le_add_right _ _), Nat.add_sub_cancel_left,
      List.head?_drop]
    by_cases hend : pre.length + needle.length = (pre ++ rest).length
    · have hlen : rest.length = needle.length := by
        rw [List.length_append] at hend
        omega
      simp [hend, List.getElem?_eq_none hlen.le]
    · rw [beq_eq_false_iff_ne.mpr hend, Bool.false_or]
  rw [boundaryOk, WordBounded.free, hbefore, hafter]

/-- The spans from a position on: the one there, if the scan takes it, and those behind. -/
theorem spansFrom_cons (replacement pre : Text) (a : Char) (rest : Text) :
    spansFrom u (pre ++ a :: rest) needle replacement pre.length (a :: rest) =
      (if WordBounded.takes (Demasker.isWordChar u) needle pre.getLast? (a :: rest) then
        [⟨pre.length, pre.length + needle.length, replacement⟩] else []) ++
        spansFrom u (pre ++ a :: rest) needle replacement (pre.length + 1) rest := by
  rw [WordBounded.takes, ← boundaryOk_eq]
  by_cases hbegins : needle.isPrefixOf (a :: rest) = true
  · by_cases hok : boundaryOk u (pre ++ a :: rest) pre.length (pre.length + needle.length) = true
    · simp [spansFrom, findAll, hbegins, hok]
    · simp [spansFrom, findAll, hbegins, hok]
  · simp [spansFrom, findAll, hbegins]

/-- **The greedy choice among the spans of one needle is the scan.** The next `skip` characters
belong to the span chosen last. -/
theorem select_spansFrom (hneedle : needle ≠ []) (replacement : Text) (rest : Text) (pre : Text)
    (skip : ℕ) (hskip : skip ≤ rest.length) (kept : List (Splice.Edit Char))
    (hkept : ∀ e ∈ kept, e.stop ≤ pre.length + skip)
    (hlast : 0 < skip → ∃ e ∈ kept, e.start < pre.length ∧ e.stop = pre.length + skip) :
    ∃ es, Greedy.select spansOverlap kept
          (spansFrom u (pre ++ rest) needle replacement pre.length rest) = kept ++ es ∧
      Splice.Ordered (pre ++ rest).length (pre.length + skip) es ∧
      (∀ e ∈ es, e.start < e.stop) ∧
      Splice.apply (pre ++ rest) (pre.length + skip) es =
        WordBounded.scan (Demasker.isWordChar u) needle replacement pre.getLast? skip rest := by
  induction rest generalizing pre skip kept with
  | nil =>
    obtain rfl : skip = 0 := Nat.le_zero.mp hskip
    obtain ⟨c, n, rfl⟩ := List.exists_cons_of_ne_nil hneedle
    refine ⟨[], by simp [spansFrom, findAll, Greedy.select], by simp [Splice.Ordered], by simp, ?_⟩
    simp [Splice.apply, WordBounded.scan]
  | cons a rest ih =>
    have hpos : 0 < needle.length := List.length_pos_of_ne_nil hneedle
    have hstep := ih (pre ++ [a])
    rw [List.append_assoc, List.singleton_append, List.length_append, List.length_singleton,
      List.getLast?_concat] at hstep
    rw [spansFrom_cons]
    cases skip with
    | succ skip =>
      -- A span that begins here overlaps the one chosen last.
      obtain ⟨e, he, hstart, hstop⟩ := hlast (Nat.succ_pos skip)
      obtain ⟨es, hselect, hordered, hes, happly⟩ := hstep skip (by simpa using hskip) kept
        (fun e he => (hkept e he).trans (by omega)) fun _ => ⟨e, he, by omega, by omega⟩
      rw [Nat.add_right_comm] at hordered happly
      refine ⟨es, ?_, hordered, hes, happly⟩
      rw [← hselect]
      split_ifs with htakes
      · have hoverlap : kept.any (spansOverlap
            ⟨pre.length, pre.length + needle.length, replacement⟩) = true :=
          List.any_eq_true.mpr ⟨e, he, by simp [spansOverlap]; omega⟩
        rw [List.singleton_append, Greedy.select, if_pos hoverlap]
      · rw [List.nil_append]
    | zero =>
      by_cases htakes : WordBounded.takes (Demasker.isWordChar u) needle pre.getLast?
          (a :: rest) = true
      · have hlen := (WordBounded.takes_iff.1 htakes).1.length_le
        rw [List.length_cons] at hlen
        obtain ⟨es, hselect, hordered, hes, happly⟩ := hstep (needle.length - 1) (by omega)
          (kept ++ [⟨pre.length, pre.length + needle.length, replacement⟩])
          (by
            intro e he
            rcases List.mem_append.1 he with he | he
            · exact (hkept e he).trans (by omega)
            · rw [List.mem_singleton.1 he]
              show pre.length + needle.length ≤ _
              omega)
          (fun _ => ⟨_, List.mem_append_right _ (List.mem_singleton_self _), Nat.lt_succ_self _,
            by show pre.length + needle.length = _; omega⟩)
        have hend : pre.length + 1 + (needle.length - 1) = pre.length + needle.length := by omega
        rw [hend] at hordered happly
        refine ⟨⟨pre.length, pre.length + needle.length, replacement⟩ :: es, ?_, ?_, ?_, ?_⟩
        · have hfree : ¬kept.any (spansOverlap
              ⟨pre.length, pre.length + needle.length, replacement⟩) = true := by
            rw [List.any_eq_true]
            rintro ⟨e, he, hoverlap⟩
            have hle := hkept e he
            simp only [spansOverlap, Bool.and_eq_true, decide_eq_true_eq] at hoverlap
            omega
          rw [if_pos htakes, List.singleton_append, Greedy.select, if_neg hfree, hselect,
            List.append_assoc, List.singleton_append]
        · exact ⟨le_rfl, Nat.le_add_right _ _, hordered⟩
        · rintro e (_ | ⟨_, he⟩)
          · exact Nat.lt_add_of_pos_right hpos
          · exact hes e he
        · rw [WordBounded.scan, if_pos htakes, ← happly, Splice.apply, Nat.add_zero,
            PySeq.slice_natCast, List.take_left, List.drop_length, List.nil_append]
      · obtain ⟨es, hselect, hordered, hes, happly⟩ := hstep 0 (Nat.zero_le _) kept
          (fun e he => (hkept e he).trans (by omega)) (by simp)
        refine ⟨es, by rw [if_neg htakes, List.nil_append, hselect],
          hordered.mono (by omega), hes, ?_⟩
        rw [WordBounded.scan, if_neg htakes, ← happly, Nat.add_zero,
          Splice.apply_of_le _ (Nat.le_add_right _ 1) hordered, PySeq.slice_natCast,
          List.take_length_add_append, List.drop_left]
        rfl

theorem le_of_mem_findAll {pos i : ℕ} {s : Text} (hi : i ∈ findAll needle pos s) : pos ≤ i := by
  induction s generalizing pos with
  | nil =>
    rw [findAll] at hi
    split_ifs at hi
    · exact (List.mem_singleton.mp hi).ge
    · cases hi
  | cons a s ih =>
    rw [findAll] at hi
    split_ifs at hi
    · rcases List.mem_cons.mp hi with rfl | hi
      · exact le_rfl
      · exact (Nat.le_succ pos).trans (ih hi)
    · exact (Nat.le_succ pos).trans (ih hi)

theorem pairwise_findAll (pos : ℕ) (s : Text) : (findAll needle pos s).Pairwise (· < ·) := by
  induction s generalizing pos with
  | nil =>
    rw [findAll]
    split_ifs <;> simp
  | cons a s ih =>
    rw [findAll]
    split_ifs
    · exact List.pairwise_cons.mpr ⟨fun i hi => le_of_mem_findAll hi, ih _⟩
    · exact ih _

/-- The spans of one needle are found in the order in which they are tried. -/
theorem pairwise_spansFrom (text replacement : Text) (pos : ℕ) (rest : Text) :
    (spansFrom u text needle replacement pos rest).Pairwise fun e e' =>
      toLex (-((e.stop : ℤ) - e.start), (e.start : ℤ)) ≤
        toLex (-((e'.stop : ℤ) - e'.start), (e'.start : ℤ)) := by
  refine List.pairwise_map.mpr (((pairwise_findAll pos rest).filter _).imp fun hlt => ?_)
  refine Prod.Lex.toLex_le_toLex.mpr (.inr ⟨?_, ?_⟩)
  · push_cast
    ring
  · exact Int.ofNat_le.mpr hlt.le

/-- **The demasker with one needle is the word-bounded scan.** -/
theorem resolveAndApply_one (u : Unicode) (hneedle : needle ≠ []) (text replacement : Text) :
    resolveAndApply text (findAllSpans u text [(needle, replacement)]) =
      WordBounded.scan (Demasker.isWordChar u) needle replacement none 0 text := by
  have hspans : findAllSpans u text [(needle, replacement)] =
      spansFrom u text needle replacement 0 text := by
    simp [findAllSpans, findSpans, spansFrom, hneedle]
  obtain ⟨es, hselect, hordered, hes, happly⟩ :=
    select_spansFrom (u := u) hneedle replacement text []
    0 (Nat.zero_le _) [] (fun e he => nomatch he) (fun h => nomatch h)
  rw [List.nil_append, List.length_nil, List.nil_append] at hselect
  have hchosen : chooseSpans (spansFrom u text needle replacement 0 text) = es := by
    rw [chooseSpans, PySeq.sortedBy_eq_self (pairwise_spansFrom text replacement 0 text)]
    exact hselect
  have hordered : Splice.Ordered text.length 0 es := hordered
  rw [hspans, resolveAndApply, hchosen, foldl_replaceSpan hordered hes]
  exact happly

end PiiProxy
