import PiiProxy.Demasking.Searchable

/-!
# Longest spans first

Value-based demasking is one substitution. The search of a needle starts anew one position behind
the last find, so it reports occurrences that overlap too, and it ends. Of the spans that are found
the longest are replaced, and of equally long ones those further left: a span that is not replaced
overlaps one that is, and that one is at least as long. The replacements are written into the text
that was searched, from right to left, and nothing is searched again.

## Main definitions

* `find`, `searchLoop`: the search of a needle as the source runs it.
* `WordBoundedAt`: a needle stands in a text and no word character touches it.
* `LongestFirst`: a choice of disjoint spans that leaves out a span only for one at least as long.

## Main results

* `searchLoop_eq`: the loop ends, and finds the spans of `findSpans`.
* `exists_longestFirst`: resolving and applying spans is the splice of such a choice.
* `findAllSpans_longestFirst`: value-based demasking as one substitution.
-/

namespace PiiProxy

/-! ### The search loop -/

/-- `text.find(needle, search_from)`. -/
def find (text needle : Text) (searchFrom : ℕ) : Option ℕ :=
  (List.range' searchFrom (text.length + 1 - searchFrom)).find? fun i =>
    needle.isPrefixOf (text.drop i)

theorem find_eq_some {text needle : Text} {searchFrom i : ℕ} :
    find text needle searchFrom = some i ↔
      (searchFrom ≤ i ∧ i ≤ text.length) ∧ needle <+: text.drop i ∧
        ∀ j, searchFrom ≤ j → j < i → ¬needle <+: text.drop j := by
  simp only [find, List.find?_range'_eq_some, List.isPrefixOf_iff_prefix, Bool.not_eq_true',
    Bool.eq_false_iff, ne_eq, List.mem_range'_1]
  constructor
  · rintro ⟨hbegins, ⟨hle, hlt⟩, hfirst⟩
    exact ⟨⟨hle, by omega⟩, hbegins, hfirst⟩
  · rintro ⟨⟨hle, hlen⟩, hbegins, hfirst⟩
    exact ⟨hbegins, ⟨hle, by omega⟩, hfirst⟩

variable (u : Unicode)

/-- The loop of `_find_all_spans` over the occurrences of one needle, from a position on. -/
def searchLoop (text needle replacement : Text) (searchFrom : ℕ) : List (Splice.Edit Char) :=
  match hfind : find text needle searchFrom with
  | none => []
  | some idx =>
    (if boundaryOk u text idx (idx + needle.length) then
      [⟨idx, idx + needle.length, replacement⟩] else []) ++
      searchLoop text needle replacement (idx + 1)
termination_by text.length + 1 - searchFrom
decreasing_by
  obtain ⟨⟨hle, hlen⟩, -⟩ := find_eq_some.1 hfind
  omega

variable {u} {needle : Text}

private theorem findAll_of_find_eq_none (hneedle : needle ≠ []) {text : Text} {searchFrom : ℕ}
    (hfind : find text needle searchFrom = none) :
    findAll needle searchFrom (text.drop searchFrom) = [] := by
  refine List.eq_nil_iff_forall_not_mem.2 fun i hi => ?_
  obtain ⟨j, hj, rfl, hbegins⟩ := mem_findAll.1 hi
  rw [List.drop_drop] at hbegins
  have hlt : searchFrom + j < text.length := by
    by_contra hge
    rw [List.drop_of_length_le (Nat.le_of_not_lt hge)] at hbegins
    exact hneedle (List.prefix_nil.1 hbegins)
  rw [find, List.find?_range'_eq_none] at hfind
  have hnot := hfind (searchFrom + j) (Nat.le_add_right _ _) (by omega)
  rw [List.isPrefixOf_iff_prefix.2 hbegins] at hnot
  cases hnot

private theorem findAll_of_find_eq_some (hneedle : needle ≠ []) {text : Text} {searchFrom i : ℕ}
    (hfind : find text needle searchFrom = some i) :
    findAll needle searchFrom (text.drop searchFrom) =
      i :: findAll needle (i + 1) (text.drop (i + 1)) := by
  obtain ⟨⟨hle, -⟩, hbegins, hfirst⟩ := find_eq_some.1 hfind
  have hlt : i < text.length := by
    by_contra hge
    rw [List.drop_of_length_le (Nat.le_of_not_lt hge)] at hbegins
    exact hneedle (List.prefix_nil.1 hbegins)
  clear hfind
  obtain ⟨n, rfl⟩ := Nat.exists_eq_add_of_le hle
  -- the positions before the find are passed one by one
  induction n generalizing searchFrom with
  | zero =>
    rw [Nat.add_zero] at hbegins hlt ⊢
    rw [List.drop_eq_getElem_cons hlt] at hbegins ⊢
    rw [findAll, if_pos (List.isPrefixOf_iff_prefix.2 hbegins)]
  | succ n ih =>
    have hnot := hfirst searchFrom le_rfl (by omega)
    rw [List.drop_eq_getElem_cons (by omega)] at hnot ⊢
    rw [findAll, if_neg fun h => hnot (List.isPrefixOf_iff_prefix.1 h)]
    have hnext : searchFrom + 1 + n = searchFrom + (n + 1) := by omega
    rw [← hnext]
    exact ih (Nat.le_add_right _ _) (hnext ▸ hbegins)
      (fun j hj hlt => hfirst j (by omega) (by omega))
      (hnext ▸ hlt)

/-- **The search loop ends**, with the spans of the needle from a position on. -/
theorem searchLoop_eq (hneedle : needle ≠ []) (text replacement : Text) (searchFrom : ℕ) :
    searchLoop u text needle replacement searchFrom =
      spansFrom u text needle replacement searchFrom (text.drop searchFrom) := by
  induction searchFrom using searchLoop.induct text needle with
  | case1 searchFrom hfind =>
    rw [searchLoop, spansFrom, findAll_of_find_eq_none hneedle hfind]
    split
    · rfl
    · rename_i hsome
      rw [hfind] at hsome
      cases hsome
  | case2 searchFrom idx hfind ih =>
    rw [searchLoop, spansFrom, findAll_of_find_eq_some hneedle hfind, List.filter_cons]
    split
    · rename_i hnone
      rw [hfind] at hnone
      cases hnone
    · rename_i idx' hsome
      obtain rfl := Option.some.inj (hfind.symm.trans hsome)
      rw [ih]
      split_ifs
      · rfl
      · rfl

/-! ### What the search finds -/

variable (u) in
/-- The needle stands in the text at a position, and no word character touches it. -/
def WordBoundedAt (text needle : Text) (start : ℕ) : Prop :=
  ∃ pre post, text = pre ++ needle ++ post ∧ pre.length = start ∧
    (∀ c ∈ pre.getLast?, Demasker.isWordChar u c = false) ∧
      ∀ c ∈ post.head?, Demasker.isWordChar u c = false

private theorem free_iff {before after : Option Char} :
    WordBounded.free (Demasker.isWordChar u) before after = true ↔
      (∀ c ∈ before, Demasker.isWordChar u c = false) ∧
        ∀ c ∈ after, Demasker.isWordChar u c = false := by
  rw [WordBounded.free, Bool.and_eq_true]
  cases before <;> cases after <;> simp

private theorem wordBoundedAt_iff (hneedle : needle ≠ []) {text : Text} {start : ℕ} :
    WordBoundedAt u text needle start ↔
      needle <+: text.drop start ∧ boundaryOk u text start (start + needle.length) = true := by
  constructor
  · rintro ⟨pre, post, rfl, rfl, hbefore, hafter⟩
    rw [List.append_assoc, List.drop_left, boundaryOk_eq, List.drop_left]
    exact ⟨List.prefix_append needle post, free_iff.2 ⟨hbefore, hafter⟩⟩
  · rintro ⟨⟨post, hpost⟩, hok⟩
    have hlt : start < text.length := by
      by_contra hge
      rw [List.drop_of_length_le (Nat.le_of_not_lt hge)] at hpost
      exact hneedle (List.append_eq_nil_iff.1 hpost).1
    have hlen : (text.take start).length = start := List.length_take_of_le hlt.le
    have hsplit : text = text.take start ++ (needle ++ post) := by
      rw [hpost, List.take_append_drop]
    have hfree := @boundaryOk_eq u needle (text.take start) (needle ++ post)
    rw [← hsplit, hlen, hok, List.drop_left] at hfree
    obtain ⟨hbefore, hafter⟩ := free_iff.1 hfree.symm
    exact ⟨text.take start, post, by rw [List.append_assoc, ← hsplit], hlen, hbefore, hafter⟩

/-- The search reports the word-bounded occurrences of the needles that are not empty. -/
theorem mem_findAllSpans_iff {text : Text} {pairs : List (Text × Text)} {s : Splice.Edit Char} :
    s ∈ findAllSpans u text pairs ↔ ∃ p ∈ pairs, p.1 ≠ [] ∧ s.stop = s.start + p.1.length ∧
      s.insert = p.2 ∧ WordBoundedAt u text p.1 s.start := by
  rw [mem_findAllSpans]
  constructor
  · rintro ⟨p, hp, hne, hbegins, hstop, hinsert, hok⟩
    exact ⟨p, hp, hne, hstop, hinsert, (wordBoundedAt_iff hne).2 ⟨hbegins, hstop ▸ hok⟩⟩
  · rintro ⟨p, hp, hne, hstop, hinsert, hat⟩
    obtain ⟨hbegins, hok⟩ := (wordBoundedAt_iff hne).1 hat
    exact ⟨p, hp, hne, hbegins, hstop, hinsert, hstop ▸ hok⟩

/-- A span that is found is not empty and lies inside the text. -/
theorem inside_of_mem_findAllSpans {text : Text} {pairs : List (Text × Text)}
    {s : Splice.Edit Char} (hs : s ∈ findAllSpans u text pairs) :
    s.start < s.stop ∧ s.stop ≤ text.length := by
  obtain ⟨p, -, hne, hstop, -, pre, post, rfl, hstart, -⟩ := mem_findAllSpans_iff.1 hs
  have hpos := List.length_pos_iff.2 hne
  simp only [List.length_append]
  omega

/-! ### What is replaced -/

/-- A choice of disjoint spans, in the order of the text, that leaves out a span only for one that
is at least as long. -/
structure LongestFirst (spans chosen : List (Splice.Edit Char)) : Prop where
  subperm : chosen.Subperm spans
  disjoint : chosen.Pairwise fun a b => a.stop ≤ b.start
  longest : ∀ s ∈ spans, s ∉ chosen →
    ∃ c ∈ chosen, spansOverlap s c = true ∧ s.stop - s.start ≤ c.stop - c.start

/-- The spans that are replaced, in the order of the text. -/
private def chosenInOrder (spans : List (Splice.Edit Char)) : List (Splice.Edit Char) :=
  PySeq.sortedBy Splice.Edit.start (chooseSpans spans)

private theorem longestFirst_chosenInOrder {spans : List (Splice.Edit Char)}
    (hspans : ∀ s ∈ spans, s.start < s.stop) : LongestFirst spans (chosenInOrder spans) where
  subperm := by
    have hsub := Greedy.select_sublist spansOverlap []
      (PySeq.sortedBy (fun s => toLex (-((s.stop : ℤ) - s.start), (s.start : ℤ))) spans)
    exact (PySeq.sortedBy_perm _ _).subperm.trans
      (hsub.subperm.trans (PySeq.sortedBy_perm _ spans).subperm)
  disjoint := Greedy.pairwise_sortedBy_select fun s hs => hspans s (PySeq.mem_sortedBy.1 hs)
  longest s hs hout := by
    rw [chosenInOrder, PySeq.mem_sortedBy, chooseSpans] at hout
    obtain ⟨c, hc, hoverlap, hkey⟩ := Greedy.exists_conflict (PySeq.pairwise_sortedBy _ spans)
      (PySeq.mem_sortedBy.2 hs) hout
    refine ⟨c, PySeq.mem_sortedBy.2 hc, hoverlap, ?_⟩
    rcases Prod.Lex.toLex_le_toLex.1 hkey with hlt | ⟨heq, -⟩ <;> omega

/-- **Resolving and applying spans is one splice**: spans that are not empty and lie inside the text
are chosen longest first, and the chosen ones are replaced in the text as it was. -/
theorem exists_longestFirst {text : Text} {spans : List (Splice.Edit Char)}
    (hspans : ∀ s ∈ spans, s.start < s.stop ∧ s.stop ≤ text.length) :
    ∃ chosen, LongestFirst spans chosen ∧ Splice.Ordered text.length 0 chosen ∧
      resolveAndApply text spans = Splice.apply text 0 chosen := by
  have hchosen := longestFirst_chosenInOrder fun s hs => (hspans s hs).1
  have hinside (s) (hs : s ∈ chosenInOrder spans) := hspans s (hchosen.subperm.subset hs)
  have hordered : Splice.Ordered text.length 0 (chosenInOrder spans) :=
    Splice.ordered_of_pairwise 0 _ (Nat.zero_le _)
      (fun s hs => ⟨Nat.zero_le _, (hinside s hs).1.le, (hinside s hs).2⟩) hchosen.disjoint
  refine ⟨_, hchosen, hordered, ?_⟩
  have hstarts := hordered.pairwise_start_lt fun s hs => (hinside s hs).1
  have hreverse : PySeq.sortedBy (fun s => -(s.start : ℤ)) (chooseSpans spans) =
      (chosenInOrder spans).reverse := by
    refine PySeq.sortedBy_eq_of_perm ((List.reverse_perm _).trans (PySeq.sortedBy_perm _ _))
      (List.pairwise_reverse.2 (hstarts.imp fun hlt => ?_))
    omega
  rw [resolveAndApply, hreverse, List.foldl_reverse, foldr_replaceSpan hordered, List.take_zero,
    List.nil_append]

/-- **Value-based demasking is one substitution, longest spans first.** The search loops end and
report the word-bounded occurrences of the needles that are not empty, overlapping ones too. Of
these a choice of disjoint spans is replaced, which leaves out a span only for one at least as long,
and the pieces of the text outside the chosen spans stand unchanged and in order in the result. -/
theorem findAllSpans_longestFirst (u : Unicode) (text : Text) (pairs : List (Text × Text)) :
    findAllSpans u text pairs =
        (pairs.filter fun p => !p.1.isEmpty).flatMap (fun p => searchLoop u text p.1 p.2 0) ∧
      (∀ s, s ∈ findAllSpans u text pairs ↔ ∃ p ∈ pairs, p.1 ≠ [] ∧
        s.stop = s.start + p.1.length ∧ s.insert = p.2 ∧ WordBoundedAt u text p.1 s.start) ∧
      ∃ chosen, LongestFirst (findAllSpans u text pairs) chosen ∧
        Splice.Ordered text.length 0 chosen ∧
        resolveAndApply text (findAllSpans u text pairs) = Splice.apply text 0 chosen ∧
        Splice.kept (Splice.apply text 0 chosen) 0 (Splice.invert text 0 0 chosen) =
          Splice.kept text 0 chosen := by
  refine ⟨?_, fun s => mem_findAllSpans_iff, ?_⟩
  · refine List.flatMap_congr fun p hp => ?_
    have hne : p.1 ≠ [] := by simpa using (List.mem_filter.1 hp).2
    rw [searchLoop_eq hne, List.drop_zero]
    rfl
  · obtain ⟨chosen, hchosen, hordered, happly⟩ := exists_longestFirst fun s hs =>
      inside_of_mem_findAllSpans hs
    exact ⟨chosen, hchosen, hordered, happly, Splice.kept_invert text chosen hordered⟩

end PiiProxy
