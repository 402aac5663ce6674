import PiiProxy.Core.Pipeline
import PiiProxy.Lib.Regex

/-!
# Building blocks of the detectors

The character classes and literals from which the patterns of `app/detectors/` are made, the
keyword gate of `app/detectors/keyword_gate.py`, and candidates made from matches. A candidate made
from a match of a pattern that consumes something is a piece of the text.

## Main definitions

* `Pat.lit`, `Pat.ciLit`, `Pat.ruUpper`, `Pat.ruLower`, `Pat.ciRuLower`: literals and classes.
* `keywordWindow`, `hasAnyKeyword`: the keyword gate.
* `candidateOf`, `groupCandidate`: the candidate of a match and of a group of it.
* `Pass`, `collectFree`: several patterns whose matches must not overlap earlier ones.
* `CandidateDetector.total`: a detector that never raises.

## Main results

* `wellFormed_candidateOf`, `wellFormed_groupCandidate`, `wellFormed_collectFree`.
-/

namespace PiiProxy

/-! ### Patterns -/

namespace Pat

/-- The literal text. -/
def lit (s : String) : Regex Char := .literal s.toList

/-- The class `[А-ЯЁ]`. -/
def isRuUpper (c : Char) : Bool := ('А' ≤ c && c ≤ 'Я') || c == 'Ё'

/-- The class `[а-яё]`. -/
def isRuLower (c : Char) : Bool := ('а' ≤ c && c ≤ 'я') || c == 'ё'

/-- One character of `[А-ЯЁ]`. -/
def ruUpper : Regex Char := .chr isRuUpper

/-- One character of `[а-яё]`. -/
def ruLower : Regex Char := .chr isRuLower

/-- The lower-case Russian letter that `re.IGNORECASE` takes a character for: besides the upper
case of a letter these are seven old Slavonic letter forms. -/
def foldCase (c : Char) : Char :=
  if c == 'Ё' then 'ё'
  else if 'А' ≤ c && c ≤ 'Я' then Char.ofNat (c.toNat + 32)
  else if c.toNat = 0x1c80 then 'в'
  else if c.toNat = 0x1c81 then 'д'
  else if c.toNat = 0x1c82 then 'о'
  else if c.toNat = 0x1c83 then 'с'
  else if c.toNat = 0x1c84 || c.toNat = 0x1c85 then 'т'
  else if c.toNat = 0x1c86 then 'ъ'
  else c

/-- The lower-case Russian text, in any case. -/
def ciLit (s : String) : Regex Char := .concat (s.toList.map fun a => .chr fun c => foldCase c == a)

/-- One character of `[а-яё]`, in any case. -/
def ciRuLower : Regex Char := .chr fun c => isRuLower (foldCase c)

/-- One of the given characters. -/
def among (s : String) : Regex Char := .chr fun c => s.toList.contains c

/-- `\d`. -/
def digit (u : Unicode) : Regex Char := .chr u.isDecimal

/-- `\s`. -/
def space (u : Unicode) : Regex Char := .chr u.isSpace

/-- `\s*`. -/
def spaces (u : Unicode) : Regex Char := .star (space u)

/-- `(?<!\d)`. -/
def noDigitBefore (u : Unicode) : Regex Char := .notBehind u.isDecimal

/-- `(?!\d)`. -/
def noDigitAfter (u : Unicode) : Regex Char := .notAhead u.isDecimal

/-- `[А-ЯЁ][а-яё]+(?:-[А-ЯЁ][а-яё]+)?`, a capitalized word with an optional second part. -/
def capitalizedWord : Regex Char :=
  .concat [ruUpper, .plus ruLower, .opt (.concat [lit "-", ruUpper, .plus ruLower])]

end Pat

/-! ### The keyword gate -/

/-- `window`. -/
def keywordWindow (text : Text) (start stop radius : ℕ) : Text :=
  PySeq.slice text (start - radius : ℕ) (min text.length (stop + radius) : ℕ)

/-- `has_any_keyword`. -/
def hasAnyKeyword (haystackLower : Text) (keywords : List String) : Bool :=
  keywords.any fun kw => PySeq.hasSub kw.toList haystackLower

/-- Some keyword stands within `radius` of the match, in any case. -/
def gated (u : Unicode) (keywords : List String) (radius : ℕ) (text : Text)
    (m : Regex.Match Char) : Bool :=
  hasAnyKeyword (u.lower (keywordWindow text m.start m.stop radius)) keywords

/-! ### Candidates from matches -/

/-- The candidate of a match. -/
def candidateOf (type : PIIType) (detector : String) (confidence : ℚ) (m : Regex.Match Char) :
    Candidate where
  type := type
  value := m.text
  start := m.start
  stop := m.stop
  detector := detector.toList
  detectorConfidence := confidence

/-- The candidate of group `n` of a match. -/
def groupCandidate (type : PIIType) (detector : String) (confidence : ℚ) (n : ℕ)
    (m : Regex.Match Char) : Option Candidate :=
  (m.group? n).map fun g =>
    { type := type
      value := g.2
      start := g.1
      stop := g.1 + g.2.length
      detector := detector.toList
      detectorConfidence := confidence }

/-- A piece of the text that is not empty is a well-formed span. -/
theorem wellFormed_of_isPiece {text : Text} {c : Candidate} (h : Regex.IsPiece text c.start c.value)
    (hstop : c.stop = c.start + c.value.length) (hpos : 0 < c.value.length) :
    c.WellFormed text := by
  obtain ⟨hle, hvalue⟩ := h
  refine ⟨by omega, by omega, ?_⟩
  rw [hstop]
  exact hvalue

theorem wellFormed_candidateOf {text : Text} {r : Regex Char} (hr : 0 < r.minLen)
    {m : Regex.Match Char} (hm : m ∈ r.finditer text) (type : PIIType) (detector : String)
    (confidence : ℚ) : (candidateOf type detector confidence m).WellFormed text := by
  obtain ⟨hpiece, hstop, hlen⟩ := Regex.isPiece_of_mem_finditer hm
  exact wellFormed_of_isPiece hpiece hstop (hr.trans_le hlen)

theorem wellFormed_groupCandidate {text : Text} {r : Regex Char} {n : ℕ}
    (hr : r.respects (fun k => if k = n then 1 else 0) = true) {m : Regex.Match Char}
    (hm : m ∈ r.finditer text) {type : PIIType} {detector : String} {confidence : ℚ}
    {c : Candidate} (hc : groupCandidate type detector confidence n m = some c) :
    c.WellFormed text := by
  rw [groupCandidate, Option.map_eq_some_iff] at hc
  obtain ⟨⟨start, t⟩, hg, rfl⟩ := hc
  obtain ⟨hpiece, hlen⟩ := Regex.group_of_mem_finditer hr hm hg
  rw [if_pos rfl] at hlen
  exact wellFormed_of_isPiece hpiece rfl hlen

/-! ### Several patterns in turn -/

/-- A pattern with the confidence of its candidates and the test that its matches must pass. -/
structure Pass where
  pattern : Regex Char
  confidence : ℚ
  accept : Text → Regex.Match Char → Bool := fun _ _ => true

/-- A span of the list of candidates shares a position with the match. -/
def isOccupied (candidates : List Candidate) (m : Regex.Match Char) : Bool :=
  candidates.any fun c => decide (m.start < c.stop) && decide (c.start < m.stop)

/-- The candidates of the patterns in turn, without the matches that overlap an earlier candidate
or do not pass the test of their pattern. -/
def collectFree (type : PIIType) (detector : String) (text : Text) (passes : List Pass) :
    List Candidate :=
  passes.foldl (fun found pass =>
    (pass.pattern.finditer text).foldl (fun found m =>
      if isOccupied found m || !pass.accept text m then found
      else found ++ [candidateOf type detector pass.confidence m]) found) []

theorem wellFormed_collectFree {type : PIIType} {detector : String} {text : Text}
    {passes : List Pass} (hpasses : ∀ pass ∈ passes, 0 < pass.pattern.minLen) :
    ∀ c ∈ collectFree type detector text passes, c.WellFormed text := by
  refine List.foldlRecOn (motive := fun cs : List Candidate => ∀ c ∈ cs, c.WellFormed text) passes _
    (fun c hc => by cases hc) fun found hfound pass hpass => ?_
  refine List.foldlRecOn (motive := fun cs : List Candidate => ∀ c ∈ cs,
    c.WellFormed text) _ _ hfound
    fun found' hfound' m hm => ?_
  split_ifs
  · exact hfound'
  · intro c hc
    rcases List.mem_append.mp hc with hc | hc
    · exact hfound' c hc
    · rw [List.mem_singleton.mp hc]
      exact wellFormed_candidateOf (hpasses pass hpass) hm _ _ _

/-! ### Detectors -/

/-- A detector that never raises. -/
def CandidateDetector.total (name : String) (detect : Text → List Candidate)
    (wellFormed : ∀ text, ∀ c ∈ detect text, c.WellFormed text) : CandidateDetector where
  name := name.toList
  detect text := .ok (detect text)
  wellFormed text cs h c hc := by
    cases h
    exact wellFormed text c hc

/-- A detector that proposes every match of a pattern that passes a test. -/
def CandidateDetector.ofMatches (name : String) (type : PIIType) (confidence : ℚ)
    (pattern : Regex Char) (hpattern : 0 < pattern.minLen)
    (accept : Text → Regex.Match Char → Bool) : CandidateDetector :=
  .total name
    (fun text => ((pattern.finditer text).filter (accept text)).map
      (candidateOf type name confidence))
    fun text c hc => by
      obtain ⟨m, hm, rfl⟩ := List.mem_map.mp hc
      exact wellFormed_candidateOf hpattern (List.mem_of_mem_filter hm) _ _ _

/-- A detector that proposes the first group of every match of a pattern whose group passes a
test. -/
def CandidateDetector.ofGroups (name : String) (type : PIIType) (confidence : ℚ)
    (pattern : Regex Char) (hpattern : pattern.respects (fun k => if k = 1 then 1 else 0) = true)
    (accept : Text → Bool) : CandidateDetector :=
  .total name
    (fun text => ((pattern.finditer text).filterMap
      (groupCandidate type name confidence 1)).filter fun c => accept c.value)
    fun text c hc => by
      obtain ⟨m, hm, hmc⟩ := List.mem_filterMap.mp (List.mem_of_mem_filter hc)
      exact wellFormed_groupCandidate hpattern hm hmc

end PiiProxy
