import PiiProxy.GoService.Mask

/-!
# The demasker of the Go service

`go-service/pii/demask.go`: the splices that undo and repeat a transformation by its occurrences,
and value-based demasking, which replaces one surrogate after another in the whole text. The
word-bounded replacement works on the bytes of a string, and every byte from `0x80` on counts as
part of a word.

## Main definitions

* `GoService.spliceMaskedToOriginal`, `GoService.spliceOriginalToMasked`.
* `GoService.isWordChar`, `GoService.replaceWordBounded`.
* `GoService.replaceAll`, `GoService.fuzzyDemask`.

## Main results

* `GoService.replaceWordBounded_eq_scan`: the loop ends and computes the word-bounded scan.
-/

namespace PiiProxy

namespace GoService

/-! ### Splicing -/

/-- The loop of both splices over the occurrences, from `cursor` on; `b` is written. -/
def spliceFrom (start stop : Occurrence → ℤ) (insert : Occurrence → GoString) (payload : GoString) :
    List Occurrence → ℤ → GoString → Except Go.Fault GoString
  | [], cursor, b => do
    let rest ← Go.slice payload cursor payload.length
    return b ++ rest
  | o :: occ, cursor, b => do
    let kept ← Go.slice payload cursor (start o)
    spliceFrom start stop insert payload occ (stop o) (b ++ kept ++ insert o)

/-- `SpliceMaskedToOriginal`. -/
def spliceMaskedToOriginal (payload : GoString) (occ : List Occurrence) :
    Except Go.Fault GoString :=
  spliceFrom Occurrence.maskedStart Occurrence.maskedEnd Occurrence.original payload occ 0 []

/-- `SpliceOriginalToMasked`. -/
def spliceOriginalToMasked (payload : GoString) (occ : List Occurrence) :
    Except Go.Fault GoString :=
  spliceFrom Occurrence.originalStart Occurrence.originalEnd Occurrence.masked payload occ 0 []

/-! ### Word-bounded replacement -/

/-- `isWordChar`. -/
def isWordChar (b : UInt8) : Bool :=
  ('a'.toUInt8 ≤ b && b ≤ 'z'.toUInt8) || ('A'.toUInt8 ≤ b && b ≤ 'Z'.toUInt8) ||
    ('0'.toUInt8 ≤ b && b ≤ '9'.toUInt8) || b == '_'.toUInt8 || decide (0x80 ≤ b)

/-- `okBefore`. -/
def okBefore (text : GoString) (s : ℕ) : Except Go.Fault Bool :=
  if s = 0 then .ok true else (Go.get text (s - 1)).map fun c => !isWordChar c

/-- `okAfter`. -/
def okAfter (text : GoString) (e : ℕ) : Except Go.Fault Bool :=
  if e = text.length then .ok true else (Go.get text e).map fun c => !isWordChar c

/-- The loop of `replaceWordBounded` from `idx` on; `b` is written. -/
def replaceFrom (text needle replacement : GoString) :
    ℕ → ℕ → GoString → Except Go.Fault GoString
  | 0, _, _ => .error .loops
  | fuel + 1, idx, b => do
    let rest ← Go.slice text idx text.length
    match Go.index needle rest with
    | none => return b ++ rest
    | some p =>
      let s := idx + p
      let e := s + needle.length
      let before ← okBefore text s
      let after ← okAfter text e
      if before && after then
        let copied ← Go.slice text idx s
        replaceFrom text needle replacement fuel e (b ++ copied ++ replacement)
      else
        -- Not a whole word: one more byte is copied, and the search goes on behind it.
        let copied ← Go.slice text idx (s + 1 : ℕ)
        replaceFrom text needle replacement fuel (s + 1) (b ++ copied)

/-- `replaceWordBounded`. Each round moves on by a byte, unless the needle is empty. -/
def replaceWordBounded (text needle replacement : GoString) : Except Go.Fault GoString :=
  replaceFrom text needle replacement (text.length + 1) 0 []

/-! ### Value-based demasking -/

/-- `strings.ReplaceAll`, for a needle that is not empty: the occurrences from the left, without
overlaps; the next `skip` bytes belong to the last one. -/
def replaceAll (needle replacement : GoString) : ℕ → GoString → GoString
  | _, [] => []
  | skip + 1, _ :: s => replaceAll needle replacement skip s
  | 0, b :: s =>
    if needle.isPrefixOf (b :: s) then replacement ++ replaceAll needle replacement
      (needle.length - 1) s
    else b :: replaceAll needle replacement 0 s

/-- The pass of `FuzzyDemask` over the tokens. -/
def replaceTokens (mappings : List Mapping) (payload : GoString) : GoString :=
  mappings.foldl (fun result m =>
    if m.token = [] then result else replaceAll m.token m.original 0 result) payload

/-- The pass of `FuzzyDemask` over the synthetic values. -/
def replaceSynthetic (mappings : List Mapping) (payload : GoString) : Except Go.Fault GoString :=
  mappings.foldlM (fun result m =>
    if m.synthetic = [] then .ok result
      else replaceWordBounded result m.synthetic m.original) payload

/-- `FuzzyDemask`. -/
def fuzzyDemask (payload : GoString) (mappings : List Mapping) : Mode → Except Go.Fault GoString
  | .partialMode => .ok payload
  | .syntheticMode => replaceSynthetic mappings (replaceTokens mappings payload)
  | _ => .ok (replaceTokens mappings payload)

/-! ### The loop is a scan -/

theorem okBefore_eq (t s : GoString) :
    okBefore (t ++ s) t.length = .ok (!t.getLast?.any isWordChar) := by
  cases t using List.reverseRecOn with
  | nil => rfl
  | append_singleton t c _ =>
    rw [okBefore, if_neg (by simp), List.length_append, List.length_singleton, Nat.add_sub_cancel,
      List.append_assoc, List.singleton_append, Go.get_append, List.getLast?_concat]
    rfl

theorem okAfter_eq (t s : GoString) :
    okAfter (t ++ s) t.length = .ok (!s.head?.any isWordChar) := by
  cases s with
  | nil => simp [okAfter]
  | cons c s =>
    rw [okAfter, if_neg (by simp), Go.get_append]
    rfl

/-- **The loop ends within its fuel and computes the scan of what is left.** -/
theorem replaceFrom_eq_scan {needle : GoString} (hneedle : needle ≠ []) (replacement : GoString)
    (fuel : ℕ) (done rest b : GoString) (hfuel : rest.length < fuel) :
    replaceFrom (done ++ rest) needle replacement fuel done.length b =
      .ok (b ++ WordBounded.scan isWordChar needle replacement done.getLast? 0 rest) := by
  induction fuel generalizing done rest b with
  | zero => exact absurd hfuel (Nat.not_lt_zero _)
  | succ fuel ih =>
    have hrest : Go.slice (done ++ rest) done.length (done ++ rest).length = .ok rest := by
      rw [Go.slice_to_end _ (by simp), List.drop_left]
    simp only [replaceFrom, hrest, bind, Except.bind]
    cases hindex : Go.index needle rest with
    | none =>
      have hscan : WordBounded.scan isWordChar needle replacement done.getLast? 0 (rest ++ []) =
          rest ++ WordBounded.scan isWordChar needle replacement (rest.getLast?.or done.getLast?) 0
            [] :=
        WordBounded.scan_append_of_forall fun j hj => by
          rw [List.append_nil]
          exact Go.index_eq_none hindex j hj
      rw [List.append_nil] at hscan
      rw [hscan]
      simp only [WordBounded.scan, List.append_nil]
      rfl
    | some p =>
      obtain ⟨t, u, rfl, rfl, hno⟩ := Go.index_eq_some hindex
      obtain ⟨a, n, rfl⟩ := List.exists_cons_of_ne_nil hneedle
      have hbefore := okBefore_eq (done ++ t) (a :: n ++ u)
      have hafter := okAfter_eq (done ++ t ++ a :: n) u
      have hcopied := Go.slice_append done t (a :: n ++ u)
      have hcopied' := Go.slice_append done (t ++ [a]) (n ++ u)
      rw [WordBounded.scan_append_of_forall hno, ← List.getLast?_append]
      simp only [List.append_assoc, List.length_append, ← Nat.add_assoc, List.cons_append,
        List.nil_append, List.length_singleton] at hbefore hafter hcopied hcopied' hfuel ⊢
      rw [List.length_cons, List.length_append] at hfuel
      simp only [hbefore, hafter, hcopied, hcopied']
      have htakes : WordBounded.takes isWordChar (a :: n) (done ++ t).getLast? (a :: (n ++ u)) =
          (!(done ++ t).getLast?.any isWordChar && !u.head?.any isWordChar) := by
        rw [WordBounded.takes, WordBounded.free, ← List.cons_append, List.drop_left,
          List.isPrefixOf_iff_prefix.2 (List.prefix_append _ _), Bool.true_and]
      by_cases hfree : WordBounded.takes isWordChar (a :: n) (done ++ t).getLast? (a :: (n ++ u)) =
        true
      · have hnext := ih (done ++ t ++ a :: n) u (b ++ t ++ replacement) (by omega)
        have hlast : (done ++ t ++ a :: n).getLast? = (a :: n).getLast? :=
          List.getLast?_append_of_ne_nil _ hneedle
        rw [hlast] at hnext
        rw [← List.cons_append] at hfree
        rw [← htakes, ← List.cons_append, if_pos hfree, WordBounded.scan_needle hneedle hfree]
        simpa only [List.append_assoc, List.length_append, ← Nat.add_assoc] using hnext
      · have hnext := ih (done ++ t ++ [a]) (n ++ u) (b ++ t ++ [a])
          (by rw [List.length_append]; omega)
        rw [List.getLast?_concat] at hnext
        rw [← htakes, if_neg hfree, WordBounded.scan, if_neg hfree]
        simpa only [List.append_assoc, List.length_append, ← Nat.add_assoc, List.singleton_append,
          List.length_singleton] using hnext

/-- **The replacement ends and computes the word-bounded scan.** -/
theorem replaceWordBounded_eq_scan {needle : GoString} (hneedle : needle ≠ [])
    (text replacement : GoString) :
    replaceWordBounded text needle replacement =
      .ok (WordBounded.scan isWordChar needle replacement none 0 text) :=
  replaceFrom_eq_scan hneedle replacement (text.length + 1) [] text [] (Nat.lt_succ_self _)

theorem isWordChar_of_le (b : UInt8) (hb : 0x80 ≤ b) : isWordChar b = true := by
  simp [isWordChar, hb]

end GoService

end PiiProxy
