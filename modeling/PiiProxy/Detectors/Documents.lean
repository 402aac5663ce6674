import PiiProxy.Detectors.Basic
import PiiProxy.Replacement.SyntheticValues

/-!
# Detectors of numbers, documents and dates

The detectors of `app/detectors/` whose patterns are made of digits: phone numbers, tax numbers,
cards, passports, department codes, card codes, driver licences and dates.

## Main definitions

* `luhnValid`, `innValid`: the checksums of `app/detectors/checksums.py`.
* `phoneDetector`, `innDetector`, `cardDetector`, `passportDetector`, `departmentCodeDetector`,
  `cvvDetector`, `pinDetector`, `driverLicenseDetector`, `dateDetector`.
-/

namespace PiiProxy

open Regex (concat oneOf opt plus times)
open Pat

variable (u : Unicode)

/-! ### Checksums -/

/-- The values of the digits of a text. -/
def digitValues (digits : Text) : List ℕ := digits.map u.digitValue

/-- `luhn_valid`. -/
def luhnValid (digits : Text) : Bool :=
  !digits.isEmpty && digits.all u.isDigit && luhnSum (digitValues u digits) % 10 == 0

/-- `inn_valid`. -/
def innValid (digits : Text) : Bool :=
  let d := digitValues u digits
  !digits.isEmpty && digits.all u.isDigit &&
    if digits.length = 10 then some (inn10Checksum (d.take 9)) == d[9]?
    else if digits.length = 12 then
      some (inn12Checks (d.take 10)).1 == d[10]? && some (inn12Checks (d.take 10)).2 == d[11]?
    else false

/-! ### Phone numbers -/

/-- `[\s\-]?`. -/
private def phoneGap : Regex Char := opt (.chr fun c => u.isSpace c || c == '-')

/-- `_RU_PHONE_RE`. -/
def ruPhonePattern : Regex Char :=
  concat [noDigitBefore u, oneOf [lit "+7", lit "8"], phoneGap u, opt (lit "("),
    times 3 (digit u), opt (lit ")"), phoneGap u, times 3 (digit u), phoneGap u,
    times 2 (digit u), phoneGap u, times 2 (digit u), noDigitAfter u]

/-- `_INTL_PHONE_RE`. -/
def intlPhonePattern : Regex Char :=
  concat [noDigitBefore u, lit "+", .rep (digit u) 1 (some 3),
    .rep (concat [phoneGap u, .rep (digit u) 2 (some 4)]) 2 (some 5), noDigitAfter u]

/-- `normalize_ru_phone`. -/
def normalizeRuPhone (raw : Text) : Text :=
  match u.onlyDigits raw with
  | [] => raw
  | d :: ds => '+' :: (if d = '8' ∧ ds.length = 10 then '7' else d) :: ds

/-- `PhoneDetector`: the international form fills the places that the Russian form leaves free. -/
def phoneDetector : CandidateDetector :=
  .total "phone"
    (fun text =>
      let russian := ((ruPhonePattern u).finditer text).map fun m =>
        { candidateOf .phone "phone" (95 / 100) m with
          metadata := { normalized := some (normalizeRuPhone u m.text) } }
      let international := ((intlPhonePattern u).finditer text).filter fun m =>
        !isOccupied russian m && decide (8 ≤ m.text.countP u.isDigit) &&
          decide (m.text.countP u.isDigit ≤ 15)
      russian ++ international.map (candidateOf .phone "phone" (75 / 100)))
    fun text c hc => by
      rcases List.mem_append.mp hc with hc | hc
      · obtain ⟨m, hm, rfl⟩ := List.mem_map.mp hc
        have h := wellFormed_candidateOf (r := ruPhonePattern u)
          (of_decide_eq_true rfl) hm .phone "phone"
          (95 / 100)
        exact ⟨h.start_lt_stop, h.stop_le_length, h.value_eq⟩
      · obtain ⟨m, hm, rfl⟩ := List.mem_map.mp hc
        exact wellFormed_candidateOf (r := intlPhonePattern u) (of_decide_eq_true rfl)
          (List.mem_of_mem_filter hm) _ _ _

/-! ### Tax numbers and cards -/

/-- `_DIGIT_RUN_RE`. -/
def digitRunPattern : Regex Char :=
  oneOf [concat [noDigitBefore u, times 10 (digit u), noDigitAfter u],
    concat [noDigitBefore u, times 12 (digit u), noDigitAfter u]]

/-- `InnDetector`. -/
def innDetector : CandidateDetector :=
  .ofMatches "inn" .inn (9 / 10) (digitRunPattern u) (of_decide_eq_true rfl) fun _ m =>
    innValid u m.text

/-- `_CARD_RE`. -/
def cardPattern : Regex Char :=
  concat [noDigitBefore u, digit u, .rep (concat [opt (among " -"), digit u]) 12 (some 18),
    noDigitAfter u]

/-- The match without its separators. -/
def cardDigits (m : Regex.Match Char) : Text := m.text.filter fun c => c ≠ ' ' && c ≠ '-'

/-- `CardDetector`. -/
def cardDetector : CandidateDetector :=
  .total "card"
    (fun text => (((cardPattern u).finditer text).filter fun m =>
      decide (13 ≤ (cardDigits m).length) && decide ((cardDigits m).length ≤ 19) &&
        luhnValid u (cardDigits m)).map fun m =>
          { candidateOf .cardNumber "card" (95 / 100) m with
            metadata := { normalized := some (cardDigits m) } })
    fun text c hc => by
      obtain ⟨m, hm, rfl⟩ := List.mem_map.mp hc
      have h := wellFormed_candidateOf (r := cardPattern u) (of_decide_eq_true rfl)
        (List.mem_of_mem_filter hm) .cardNumber "card" (95 / 100)
      exact ⟨h.start_lt_stop, h.stop_le_length, h.value_eq⟩

/-! ### Passports and driver licences -/

/-- `_SERIES_WORD_RE`. -/
def seriesWordPattern : Regex Char :=
  concat [ciLit "серия", spaces u, times 4 (digit u), spaces u,
    opt (oneOf [lit "№", ciLit "номер"]), spaces u, times 6 (digit u)]

/-- `_NUMBER_SIGN_RE`. -/
def numberSignPattern : Regex Char :=
  concat [noDigitBefore u, times 4 (digit u), spaces u, lit "№", spaces u, times 6 (digit u),
    noDigitAfter u]

/-- `_BARE_4_6_RE`. -/
def bare46Pattern : Regex Char :=
  concat [noDigitBefore u, times 4 (digit u), lit " ", times 6 (digit u), noDigitAfter u]

/-- `_BARE_2_2_6_RE`. -/
def bare226Pattern : Regex Char :=
  concat [noDigitBefore u, times 2 (digit u), lit " ", times 2 (digit u), lit " ",
    times 6 (digit u), noDigitAfter u]

/-- `_BARE_10_RE`. -/
def bare10Pattern : Regex Char := concat [noDigitBefore u, times 10 (digit u), noDigitAfter u]

/-- The passes of `PassportDetector`. -/
def passportPasses : List Pass :=
  [{ pattern := seriesWordPattern u, confidence := 97 / 100 },
    { pattern := numberSignPattern u, confidence := 95 / 100 },
    { pattern := bare226Pattern u, confidence := 75 / 100, accept := gated u ["паспорт"] 40 },
    { pattern := bare46Pattern u, confidence := 7 / 10, accept := gated u ["паспорт"] 40 }]

/-- `PassportDetector`. -/
def passportDetector : CandidateDetector :=
  .total "passport" (fun text => collectFree .passport "passport" text (passportPasses u))
    fun _ => wellFormed_collectFree (by
      simp only [passportPasses, List.forall_mem_cons, List.not_mem_nil, false_imp_iff,
        implies_true, and_true]
      exact ⟨of_decide_eq_true rfl, of_decide_eq_true rfl, of_decide_eq_true rfl,
        of_decide_eq_true rfl⟩)

/-- `_DL_KEYWORDS`. -/
def driverLicenseKeywords : List String := ["водительск", "удостоверени", "в/у"]

/-- The passes of `DriverLicenseDetector`. -/
def driverLicensePasses : List Pass :=
  [{ pattern := bare226Pattern u, confidence := 8 / 10,
     accept := gated u driverLicenseKeywords 40 },
    { pattern := bare46Pattern u, confidence := 78 / 100,
      accept := gated u driverLicenseKeywords 40 },
    { pattern := bare10Pattern u, confidence := 72 / 100,
      accept := gated u driverLicenseKeywords 40 }]

/-- `DriverLicenseDetector`. -/
def driverLicenseDetector : CandidateDetector :=
  .total "driver_license"
    (fun text => collectFree .driverLicense "driver_license" text (driverLicensePasses u))
    fun _ => wellFormed_collectFree (by
      simp only [driverLicensePasses, List.forall_mem_cons, List.not_mem_nil, false_imp_iff,
        implies_true, and_true]
      exact ⟨of_decide_eq_true rfl, of_decide_eq_true rfl, of_decide_eq_true rfl⟩)

/-! ### Codes -/

/-- `_CODE_RE` of `department_code.py`. -/
def departmentCodePattern : Regex Char :=
  concat [noDigitBefore u, times 3 (digit u), lit "-", times 3 (digit u), noDigitAfter u]

/-- `DepartmentCodeDetector`. -/
def departmentCodeDetector : CandidateDetector :=
  .ofMatches "department_code" .departmentCode (92 / 100) (departmentCodePattern u)
    (of_decide_eq_true rfl)
    (gated u ["код подразделения", "подразделени"] 40)

/-- `_CODE_RE` of `cvv_pin.py`. -/
def shortCodePattern : Regex Char :=
  concat [noDigitBefore u, .rep (digit u) 3 (some 4), noDigitAfter u]

/-- `CvvDetector`. -/
def cvvDetector : CandidateDetector :=
  .ofMatches "cvv" .cvv (9 / 10) (shortCodePattern u) (of_decide_eq_true rfl) fun text m =>
    m.text.length == 3 && gated u ["cvv", "cvc", "код безопасности"] 25 text m

/-- `PinDetector`. -/
def pinDetector : CandidateDetector :=
  .ofMatches "pin" .pin (85 / 100) (shortCodePattern u) (of_decide_eq_true rfl) fun text m =>
    m.text.length == 4 && gated u ["пин", "pin"] 25 text m

/-! ### Dates -/

/-- `_NUMERIC_RE`. -/
def numericDatePattern : Regex Char :=
  concat [noDigitBefore u, .group 1 (.rep (digit u) 1 (some 2)), .group 2 (among "./-"),
    .group 3 (.rep (digit u) 1 (some 2)), .backref 2, .group 4 (times 4 (digit u)), noDigitAfter u]

/-- `_ISO_RE`. -/
def isoDatePattern : Regex Char :=
  concat [noDigitBefore u, .group 1 (times 4 (digit u)), lit "-",
    .group 2 (.rep (digit u) 1 (some 2)), lit "-", .group 3 (.rep (digit u) 1 (some 2)),
    noDigitAfter u]

/-- `_TEXT_RE`. -/
def textDatePattern : Regex Char :=
  concat [noDigitBefore u, .group 1 (.rep (digit u) 1 (some 2)), plus (space u),
    .group 2 (oneOf (genitiveMonths.map fun m => ciLit (String.ofList m))), plus (space u),
    .group 3 (times 4 (digit u)), noDigitAfter u]

/-- `int(m.group(n))`. -/
def groupNumber (m : Regex.Match Char) (n : ℕ) : ℕ :=
  (digitValues u ((m.group? n).elim [] Prod.snd)).foldl (fun acc d => 10 * acc + d) 0

/-- `_calendar_fields`: the year, the month and the day of a match. Looking up the name of a month
raises when lower case does not give the name in the table. -/
def calendarFields (format : DateFormat) (m : Regex.Match Char) : Except PyError (ℕ × ℕ × ℕ) :=
  match format with
  | .yearMonthDay => .ok (groupNumber u m 1, groupNumber u m 2, groupNumber u m 3)
  | .text =>
    match genitiveMonths.idxOf? (u.lower ((m.group? 2).elim [] Prod.snd)) with
    | some i => .ok (groupNumber u m 3, i + 1, groupNumber u m 1)
    | none => .error (.valueError "tuple.index(x): x not in tuple".toList)
  | _ => .ok (groupNumber u m 4, groupNumber u m 3, groupNumber u m 1)

/-- `datetime.date(year, month, day)` does not raise. -/
def isCalendarDate (year month day : ℕ) : Bool :=
  decide (1 ≤ year ∧ year ≤ 9999 ∧ 1 ≤ month ∧ month ≤ 12 ∧ 1 ≤ day ∧ day ≤ daysInMonth year month)

/-- `DateDetector._classify`. -/
def classifyDate (text : Text) (m : Regex.Match Char) : Option PIIType :=
  if gated u ["дата рождения", "рожден", "родился", "родилась"] 30 text m then some .birthDate
  else if gated u ["дата выдачи", "выдан", "выдана", "выдано"] 30 text m then
    some .passportIssueDate
  else none

/-- The candidate of a match of a date pattern, if it is a date with a role. -/
def dateCandidate (format : DateFormat) (text : Text) (m : Regex.Match Char) :
    Except PyError (Option Candidate) := do
  let fields ← calendarFields u format m
  if isCalendarDate fields.1 fields.2.1 fields.2.2 then
    return (classifyDate u text m).map fun role => candidateOf role "date" (85 / 100) m
  else return none

/-- The patterns of `DateDetector` with the format that each one stands for. -/
def datePatterns : List (Regex Char × DateFormat) :=
  [(numericDatePattern u, .dayMonthYearDot), (isoDatePattern u, .yearMonthDay),
    (textDatePattern u, .text)]

/-- `DateDetector.detect`. -/
def detectDates (text : Text) : Except PyError (List Candidate) := do
  let found ← (datePatterns u).mapM fun p => (p.1.finditer text).mapM (dateCandidate u p.2 text)
  return found.flatten.reduceOption

private theorem mem_of_mapM_ok {α β ε : Type} {f : α → Except ε β} : (xs : List α) →
    (ys : List β) → xs.mapM f = .ok ys → ∀ y ∈ ys, ∃ x ∈ xs, f x = .ok y
  | [], ys, h, y, hy => by
      cases h
      cases hy
  | x :: xs, ys, h, y, hy => by
      rw [List.mapM_cons] at h
      cases hx : f x with
      | error e =>
        rw [hx] at h
        cases h
      | ok b =>
        cases hxs : xs.mapM f with
        | error e =>
          rw [hx, hxs] at h
          cases h
        | ok bs =>
          rw [hx, hxs] at h
          cases h
          rcases List.mem_cons.mp hy with rfl | hy
          · exact ⟨x, List.mem_cons_self, hx⟩
          · obtain ⟨x', hx', hfx'⟩ := mem_of_mapM_ok xs bs hxs y hy
            exact ⟨x', List.mem_cons_of_mem _ hx', hfx'⟩

private theorem minLen_datePatterns : ∀ p ∈ datePatterns u, 0 < p.1.minLen := by
  simp only [datePatterns, List.forall_mem_cons, List.not_mem_nil, false_imp_iff, implies_true,
    and_true]
  exact ⟨of_decide_eq_true rfl, of_decide_eq_true rfl, of_decide_eq_true rfl⟩

private theorem wellFormed_detectDates {text : Text} {cs : List Candidate}
    (h : detectDates u text = .ok cs) : ∀ c ∈ cs, c.WellFormed text := by
  intro c hc
  unfold detectDates at h
  cases hfound : (datePatterns u).mapM fun p =>
      (p.1.finditer text).mapM (dateCandidate u p.2 text) with
  | error e =>
    rw [hfound] at h
    cases h
  | ok found =>
    rw [hfound] at h
    cases h
    rw [List.reduceOption_mem_iff, List.mem_flatten] at hc
    obtain ⟨cs', hcs', hc⟩ := hc
    obtain ⟨p, hp, hpcs⟩ := mem_of_mapM_ok _ _ hfound cs' hcs'
    obtain ⟨m, hm, hmc⟩ := mem_of_mapM_ok _ _ hpcs (some c) hc
    simp only [dateCandidate] at hmc
    cases hfields : calendarFields u p.2 m with
    | error e =>
      rw [hfields] at hmc
      cases hmc
    | ok fields =>
      rw [hfields] at hmc
      simp only [bind, Except.bind, pure, Except.pure] at hmc
      split_ifs at hmc
      · rw [Except.ok.injEq, Option.map_eq_some_iff] at hmc
        obtain ⟨role, -, rfl⟩ := hmc
        exact wellFormed_candidateOf (minLen_datePatterns u p hp) hm _ _ _
      · cases hmc

/-- `DateDetector`. -/
def dateDetector : CandidateDetector where
  name := "date".toList
  detect := detectDates u
  wellFormed _ _ h := wellFormed_detectDates u h

end PiiProxy
