import PiiProxy.Detectors.Basic
import PiiProxy.EntityResolution.Naming

/-!
# The detector of person names

`app/detectors/fio.py`: runs of two or three capitalized words that the analyzer ranks as parts of
a name, and a surname with initials before or after it.

## Main definitions

* `NameToken`, `nameTokens`, `collectRun`, `nameRuns`: words of names and their runs.
* `runCandidate`: the candidate of a run.
* `initialsCandidate`: the candidate of a surname with initials.
* `fullNameDetector`.
-/

namespace PiiProxy

open Regex (concat opt)
open Pat

variable (rt : Runtime)

/-! ### Patterns -/

/-- `(?:[А-ЯЁ]\.\s?)`. -/
def initialPattern (u : Unicode) : Regex Char := concat [ruUpper, lit ".", opt (space u)]

/-- `_INITIALS_THEN_SURNAME_RE`. -/
def initialsThenSurnamePattern (u : Unicode) : Regex Char :=
  concat [.notBehind fun c => isRuUpper c || isRuLower c || c == '.',
    .group 1 (.rep (initialPattern u) 1 (some 2)), .group 2 capitalizedWord]

/-- `_SURNAME_THEN_INITIALS_RE`. -/
def surnameThenInitialsPattern (u : Unicode) : Regex Char :=
  concat [.group 1 capitalizedWord, space u, .group 2 (.rep (initialPattern u) 2 (some 2))]

/-- `_INITIAL_RE`. -/
def initialRe : Regex Char := concat [ruUpper, lit "."]

/-- `_PUBLIC_FIGURE_SURNAMES`. -/
def publicFigureSurnames : List Text :=
  ["пушкин", "толстой", "чехов", "менделеев", "чайковский", "гагарин", "достоевский", "есенин",
    "лермонтов", "ломоносов", "циолковский", "королёв", "суворов", "кутузов", "жуков",
    "рахманинов", "шостакович"].map String.toList

/-! ### Runs of name words -/

/-- A capitalized word that the analyzer takes for a part of a name. -/
structure NameToken where
  start : ℕ
  stop : ℕ
  word : Text
  role : Role
  parse : Parse

/-- `_name_tokens`. -/
def nameTokens (text : Text) : List NameToken :=
  (capitalizedWord.finditer text).filterMap fun m =>
    (classifyNameWord rt m.text).map fun (role, parse) => ⟨m.start, m.stop, m.text, role, parse⟩

/-- `_GAP_RE` matches the piece between two positions. -/
def isGap (u : Unicode) (text : Text) (start stop : ℕ) : Bool :=
  let gap := PySeq.slice text start stop
  !gap.isEmpty && gap.all u.isSpace

/-- The words that continue a run of `n` words which ends at `stop`, and the words after it. -/
def continueRun (u : Unicode) (text : Text) : ℕ → ℕ → List NameToken →
    List NameToken × List NameToken
  | _, _, [] => ([], [])
  | n, stop, t :: ts =>
    if n < 3 ∧ (stop = t.start ∨ isGap u text stop t.start) then
      let continued := continueRun u text (n + 1) t.stop ts
      (t :: continued.1, continued.2)
    else ([], t :: ts)

/-- The runs of at least two words, in at most `fuel` steps. -/
def nameRuns (u : Unicode) (text : Text) : ℕ → List NameToken → List (NameToken × List NameToken)
  | 0, _ => []
  | _, [] => []
  | fuel + 1, t :: ts =>
    let continued := continueRun u text 1 t.stop ts
    if continued.1.isEmpty then nameRuns u text fuel ts
    else (t, continued.1) :: nameRuns u text fuel continued.2

/-- `_run_gender`. -/
def runGender (run : List NameToken) : Gender :=
  ((run.findSome? fun t => if t.role = .patronymic then t.parse.gender else none).or
    ((run.findSome? fun t => if t.role = .first then t.parse.gender else none).or
      (run.findSome? fun t => t.parse.gender))).getD .masc

/-- `_run_case`. -/
def runCase (run : List NameToken) : GramCase :=
  ((run.findSome? fun t => if t.role = .patronymic then t.parse.case else none).or
    ((run.findSome? fun t => if t.role = .surname then t.parse.case else none).or
      (run.findSome? fun t => if t.role = .first then t.parse.case else none))).getD .nomn

/-- The components of a run that starts at `start`. -/
def runComponents (start : ℕ) (run : List NameToken) (nominalWords : List Text) :
    List NameComponent :=
  let roles := assignRoles (run.map fun t => some t.role) run.length
  (run.zip nominalWords).mapIdx fun k t =>
    { kind := .word (rt.unicode.lower t.2)
      surface := t.1.word
      offsetStart := t.1.start - start
      offsetEnd := t.1.stop - start
      role := (roles[k]?).join }

/-- `_build_candidate` of the run with the first word `t` and the further words `ts`. -/
def runCandidate (text : Text) (t : NameToken) (ts : List NameToken) : Candidate :=
  let run := t :: ts
  let start := t.start
  let stop := (ts.getLast?.getD t).stop
  let gender := runGender run
  let nominalWords := run.map fun w => normalizeToNominative rt w.word (some gender)
  let nominalForm := joinWords nominalWords
  let components := runComponents rt start run nominalWords
  { type := .fullName
    value := PySeq.slice text start stop
    start := start
    stop := stop
    detector := "fio".toList
    detectorConfidence := if run.length = 3 then 85 / 100 else 75 / 100
    metadata :=
      { gramCase := some (runCase run)
        gender := some gender
        nominalForm := some nominalForm
        identityKey := some ("person:".toList ++ rt.unicode.lower nominalForm)
        knownPublicFigure := nominalWords.any fun w =>
          publicFigureSurnames.contains (rt.unicode.lower w)
        nameParts := some components
        aliasType := some (aliasTypeFor components) } }

/-! ### Surnames with initials -/

/-- The components of the initials that stand at `offset` in a mention of the given length. -/
def initialComponents (length offset : ℕ) (initials : Text) : List NameComponent :=
  ((initialRe.finditer initials).zipIdx).filterMap fun (m, k) =>
    if length < offset + m.start + m.text.length then none
    else some
      { kind := .initial (m.text.headD '.')
        surface := m.text
        offsetStart := offset + m.start
        offsetEnd := offset + m.start + m.text.length
        role := [Role.first, Role.patronymic][k]? }

/-- `_initials_candidate` for a match whose surname and initials are the given groups: nothing,
unless the analyzer takes the word for a surname. Trailing spaces are trimmed. -/
def initialsCandidate (m : Regex.Match Char) (surname initials : ℕ × Text) : Option Candidate :=
  match classifyNameWord rt surname.2 with
  | some (.surname, parse) =>
    let gender := parse.gender.filter fun g => g == .masc || g == .femn
    let gramCase := (parse.case.or (detectCase rt surname.2)).getD .nomn
    let value := m.text.rdropWhile (· == ' ')
    let nominal := normalizeToNominative rt surname.2 gender
    let components := PySeq.sortedBy NameComponent.offsetStart
      ({ kind := .word (rt.unicode.lower nominal)
         surface := surname.2
         offsetStart := surname.1 - m.start
         offsetEnd := surname.1 - m.start + surname.2.length
         role := some .surname } ::
        initialComponents value.length (initials.1 - m.start) initials.2)
    some
      { type := .fullName
        value := value
        start := m.start
        stop := m.start + value.length
        detector := "fio".toList
        detectorConfidence := 7 / 10
        metadata :=
          { gramCase := some gramCase
            gender := some (gender.getD .masc)
            nominalForm := some nominal
            identityKey := some ("person:".toList ++ rt.unicode.lower nominal)
            knownPublicFigure := publicFigureSurnames.contains (rt.unicode.lower nominal)
            nameParts := some components
            aliasType := some (aliasTypeFor components) } }
  | _ => none

/-- `_detect_initials_forms`. -/
def detectInitialsForms (text : Text) : List Candidate :=
  ((initialsThenSurnamePattern rt.unicode).finditer text).filterMap (fun m =>
    match m.group? 1, m.group? 2 with
    | some initials, some surname => initialsCandidate rt m surname initials
    | _, _ => none) ++
  ((surnameThenInitialsPattern rt.unicode).finditer text).filterMap fun m =>
    match m.group? 1, m.group? 2 with
    | some surname, some initials => initialsCandidate rt m surname initials
    | _, _ => none

/-- `FullNameDetector.detect`. -/
def detectFullNames (text : Text) : List Candidate :=
  let tokens := nameTokens rt text
  (nameRuns rt.unicode text tokens.length tokens).map (fun run =>
    runCandidate rt text run.1 run.2) ++ detectInitialsForms rt text

/-! ### The candidates are pieces of the text -/

private theorem continueRun_append (u : Unicode) (text : Text) : (n stop : ℕ) →
    (ts : List NameToken) →
      (continueRun u text n stop ts).1 ++ (continueRun u text n stop ts).2 = ts
  | _, _, [] => rfl
  | n, stop, t :: ts => by
      rw [continueRun]
      split_ifs
      · rw [List.cons_append, continueRun_append u text (n + 1) t.stop ts]
      · rfl

/-- A run is made of neighbouring words. -/
theorem infix_of_mem_nameRuns (u : Unicode) (text : Text) : (fuel : ℕ) →
    (tokens : List NameToken) → ∀ run ∈ nameRuns u text fuel tokens, run.1 :: run.2 <:+: tokens
  | 0, _, _, h => by cases h
  | _ + 1, [], _, h => by cases h
  | fuel + 1, t :: ts, run, h => by
      have happend := continueRun_append u text 1 t.stop ts
      rw [nameRuns] at h
      split_ifs at h
      · exact (infix_of_mem_nameRuns u text fuel ts run h).trans (List.suffix_cons t ts).isInfix
      · rcases List.mem_cons.mp h with rfl | h
        · exact ⟨[], _, by rw [List.nil_append, List.cons_append, happend]⟩
        · refine (infix_of_mem_nameRuns u text fuel _ run h).trans ?_
          exact ⟨t :: (continueRun u text 1 t.stop ts).1, [], by
            rw [List.append_nil, List.cons_append, happend]⟩

/-- The words of names are pieces of the text. -/
theorem nameTokens_range {text : Text} {t : NameToken} (ht : t ∈ nameTokens rt text) :
    t.start < t.stop ∧ t.stop ≤ text.length := by
  obtain ⟨m, hm, hmt⟩ := List.mem_filterMap.mp ht
  obtain ⟨⟨role, parse⟩, -, rfl⟩ := Option.map_eq_some_iff.mp hmt
  have h := wellFormed_candidateOf (r := capitalizedWord) (of_decide_eq_true rfl) hm .fullName
    "fio" 1
  exact ⟨h.start_lt_stop, h.stop_le_length⟩

/-- The words of names follow one another. -/
theorem pairwise_nameTokens (text : Text) :
    (nameTokens rt text).Pairwise fun t t' => t.stop ≤ t'.start := by
  refine (Regex.pairwise_finditer capitalizedWord text).filterMap _ ?_
  intro m m' hle t ht t' ht'
  obtain ⟨⟨role, parse⟩, -, rfl⟩ := Option.map_eq_some_iff.mp ht
  obtain ⟨⟨role', parse'⟩, -, rfl⟩ := Option.map_eq_some_iff.mp ht'
  exact hle

private theorem wellFormed_runCandidate {text : Text} {t : NameToken} {ts : List NameToken}
    (h : (t :: ts).Sublist (nameTokens rt text)) : (runCandidate rt text t ts).WellFormed text := by
  have hrange : ∀ t' ∈ t :: ts, t'.start < t'.stop ∧ t'.stop ≤ text.length :=
    fun t' ht' => nameTokens_range rt (h.subset ht')
  have hfirst := hrange t List.mem_cons_self
  have hspan : t.start < (ts.getLast?.getD t).stop ∧
      (ts.getLast?.getD t).stop ≤ text.length := by
    cases hlast : ts.getLast? with
    | none => exact hfirst
    | some t' =>
      have hmem : t' ∈ ts := List.mem_of_getLast? hlast
      have hle := (List.pairwise_cons.mp ((pairwise_nameTokens rt text).sublist h)).1 t' hmem
      have hlast' := hrange t' (List.mem_cons_of_mem _ hmem)
      simp only [Option.getD_some]
      omega
  exact ⟨hspan.1, hspan.2, PySeq.slice_natCast text _ _⟩

private theorem isRuUpper_ne_space {c : Char} (h : isRuUpper c = true) : c ≠ ' ' := by
  rintro rfl
  revert h
  decide

private theorem startsIn_initialsThenSurname (u : Unicode) :
    (initialsThenSurnamePattern u).StartsIn (· ≠ ' ') :=
  .inr ⟨rfl, .inl ⟨Nat.le_refl 1, .inl fun _ => isRuUpper_ne_space⟩⟩

private theorem startsIn_surnameThenInitials (u : Unicode) :
    (surnameThenInitialsPattern u).StartsIn (· ≠ ' ') :=
  .inl (.inl fun _ => isRuUpper_ne_space)

private theorem wellFormed_initialsCandidate {text : Text} {r : Regex Char}
    (hstart : r.StartsIn (· ≠ ' ')) (hr : 0 < r.minLen) {m : Regex.Match Char}
    (hm : m ∈ r.finditer text) {surname initials : ℕ × Text} {c : Candidate}
    (hc : initialsCandidate rt m surname initials = some c) : c.WellFormed text := by
  obtain ⟨a, ha, hne⟩ := Regex.head_of_mem_finditer hstart hr hm
  obtain ⟨hpiece, -, -⟩ := Regex.isPiece_of_mem_finditer hm
  have hvalue : m.text.rdropWhile (· == ' ') ≠ [] := by
    rw [ne_eq, List.rdropWhile_eq_nil_iff]
    intro hall
    have := hall a (List.mem_of_mem_head? ha)
    exact hne (beq_iff_eq.mp this)
  unfold initialsCandidate at hc
  split at hc
  · cases hc
    exact wellFormed_of_isPiece (hpiece.shorten (List.rdropWhile_prefix _ _)) rfl
      (List.length_pos_of_ne_nil hvalue)
  · cases hc

private theorem wellFormed_detectInitialsForms {text : Text} {c : Candidate}
    (hc : c ∈ detectInitialsForms rt text) : c.WellFormed text := by
  rcases List.mem_append.mp hc with hc | hc
  · obtain ⟨m, hm, hmc⟩ := List.mem_filterMap.mp hc
    split at hmc
    · exact wellFormed_initialsCandidate rt (startsIn_initialsThenSurname rt.unicode)
        (of_decide_eq_true rfl) hm hmc
    · cases hmc
  · obtain ⟨m, hm, hmc⟩ := List.mem_filterMap.mp hc
    split at hmc
    · exact wellFormed_initialsCandidate rt (startsIn_surnameThenInitials rt.unicode)
        (of_decide_eq_true rfl) hm hmc
    · cases hmc

/-- `FullNameDetector`. -/
def fullNameDetector : CandidateDetector :=
  .total "fio" (detectFullNames rt) fun text c hc => by
    rcases List.mem_append.mp hc with hc | hc
    · obtain ⟨run, hrun, rfl⟩ := List.mem_map.mp hc
      exact wellFormed_runCandidate rt (infix_of_mem_nameRuns rt.unicode text _ _ run hrun).sublist
    · exact wellFormed_detectInitialsForms rt hc

end PiiProxy
