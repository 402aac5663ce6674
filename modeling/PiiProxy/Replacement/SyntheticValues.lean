import PiiProxy.Replacement.Morphology

/-!
# Synthetic values

The deterministic surrogates of `app/replacement/synthetic_values.py`: a stream of 64-bit draws from
SHA-256 in counter mode, uniform integers by rejection, and one generator for each type of
personal data. A generator is a state transformer of the counter of its stream that may raise.

## Main definitions

* `Gen`, `draw`, `randbelow`, `randint`, `choice`: the stream `_DeterministicStream`.
* `person`, `fullNameInCase`, `dateLike`, `digitsLike`, `innNumber`, `cardNumber` and the other
  generators of `SyntheticGenerator`, dispatched by `generic`.
* `inn10Checksum`, `inn12Checks`, `luhnCheckDigit`.
-/

namespace PiiProxy

/-! ### Value pools -/

def maleFirst : List Text :=
  ["Иван", "Александр", "Дмитрий", "Алексей", "Сергей", "Михаил", "Николай", "Андрей", "Павел",
    "Максим", "Антон", "Юрий", "Пётр", "Лев", "Роман", "Виктор"].map String.toList

def femaleFirst : List Text :=
  ["Анна", "Мария", "Елена", "Ольга", "Наталья", "Екатерина", "Ирина", "Алина", "Дарья",
    "Светлана", "Татьяна", "Юлия", "Полина", "Виктория", "Ксения"].map String.toList

def maleLast : List Text :=
  ["Иванов", "Петров", "Смирнов", "Кузнецов", "Соколов", "Попов", "Лебедев", "Козлов", "Новиков",
    "Морозов", "Волков", "Егоров", "Захаров", "Фролов"].map String.toList

def femaleLast : List Text := maleLast.map (· ++ ['а'])

def malePatr : List Text :=
  ["Иванович", "Александрович", "Сергеевич", "Петрович", "Алексеевич", "Михайлович", "Николаевич",
    "Андреевич", "Дмитриевич", "Викторович"].map String.toList

def femalePatr : List Text :=
  ["Ивановна", "Александровна", "Сергеевна", "Петровна", "Алексеевна", "Михайловна", "Николаевна",
    "Андреевна", "Дмитриевна", "Викторовна"].map String.toList

def cities : List Text :=
  ["Москва", "Санкт-Петербург", "Казань", "Екатеринбург", "Новосибирск", "Самара", "Воронеж",
    "Пермь"].map String.toList

def streets : List Text :=
  ["Ленина", "Мира", "Гагарина", "Садовая", "Советская", "Победы", "Лесная",
    "Центральная"].map String.toList

def countries : List Text :=
  ["Россия", "Российская Федерация", "Беларусь", "Казахстан", "Армения", "Кыргызстан",
    "Узбекистан", "Таджикистан", "Азербайджан", "Молдова", "Туркменистан",
    "Грузия"].map String.toList

def emailLocalPool : List Text :=
  ["ivan", "alex", "maria", "anna", "dmitry", "client", "user", "info"].map String.toList

def emailDomainPool : List Text :=
  ["mail.ru", "example.com", "yandex.ru", "inbox.ru", "gmail.com"].map String.toList

def issuerPrefixes : List Text :=
  ["ГУ МВД России по г.", "УМВД России по г.", "Отделом МВД России по г."].map String.toList

/-- `GENITIVE_MONTHS`. -/
def genitiveMonths : List Text :=
  ["января", "февраля", "марта", "апреля", "мая", "июня", "июля", "августа", "сентября", "октября",
    "ноября", "декабря"].map String.toList

/-! ### The hash stream -/

/-- A computation that draws from a stream: it moves the counter of the stream and may raise. -/
abbrev Gen : Type → Type := StateT ℕ (Except PyError)

variable (rt : Runtime) (seed : ℕ)

/-- The 8-byte value of the draw with the given counter. -/
def draw (counter : ℕ) : ℕ := rt.sha64 (showNat seed ++ [':'] ++ showNat counter)

/-- The draws below this bound are accepted by `randbelow n`. -/
def acceptLimit (n : ℕ) : ℕ := 2 ^ 64 / n * n

/-- The loop of `_randbelow`, from a counter on. -/
def randbelowLoop (n : ℕ) : ℕ → ℕ → Except PyError (ℕ × ℕ)
  | 0, _ => .error .exhausted
  | fuel + 1, counter =>
    if draw rt seed counter < acceptLimit n then .ok (draw rt seed counter % n, counter + 1)
    else randbelowLoop n fuel (counter + 1)

/-- `_randbelow`: 8-byte draws with rejection sampling. -/
def randbelow (n : ℕ) : Gen ℕ := randbelowLoop rt seed n rt.fuel

/-- `randint`, with inclusive bounds. -/
def randint (low high : ℕ) : Gen ℕ := do
  return low + (← randbelow rt seed (high - low + 1))

/-- `choice`. -/
def choice (seq : List Text) : Gen Text := do
  return seq.getD (← randbelow rt seed seq.length) []

/-- Draw until the value is good, `k + 1` times at most; the last draw counts in any case. -/
def retryDraw {α : Type} (gen : Gen α) (good : α → Bool) : ℕ → Gen α
  | 0 => gen
  | k + 1 => do
    let a ← gen
    if good a then return a else retryDraw gen good k

/-! ### Persons -/

/-- `SyntheticGenerator.person`. -/
def person (originalNominal : Text) (gender : Option Gender) : Gen Identity := do
  let gender ← match gender with
    | some g => pure g
    | none =>
      if originalNominal.isEmpty then pure (guessGender rt [])
      else match rt.unicode.splitWords originalNominal with
        | [] => throw .indexError
        | w :: _ => pure (guessGender rt w)
  let pools := if gender = .masc then (maleFirst, maleLast, malePatr)
    else (femaleFirst, femaleLast, femalePatr)
  let drawPerson : Gen Identity := do
    let first ← choice rt seed pools.1
    let last ← choice rt seed pools.2.1
    let patr ← choice rt seed pools.2.2
    return { surname := last, first := first, patronymic := patr, gender := gender,
             nominal := joinWords [last, first, patr] }
  retryDraw drawPerson (fun i => i.nominal != originalNominal) 9

/-- `SyntheticGenerator.full_name_in_case`. -/
def fullNameInCase (originalNominal : Text) (gender : Option Gender) (case : GramCase) :
    Gen (Text × Identity) := do
  let identity ← person rt seed originalNominal gender
  return (inflectFullName rt identity.surname identity.first identity.patronymic case
    identity.gender, identity)

/-! ### Dates -/

/-- A calendar date. -/
structure Date where
  year : ℕ
  month : ℕ
  day : ℕ
  deriving DecidableEq, Repr

def isLeapYear (y : ℕ) : Bool := y % 4 = 0 ∧ (y % 100 ≠ 0 ∨ y % 400 = 0)

def daysInMonth (y m : ℕ) : ℕ :=
  match m with
  | 2 => if isLeapYear y then 29 else 28
  | 4 | 6 | 9 | 11 => 30
  | _ => 31

/-- The date `d` days after the first of a month, following at most the given number of months. -/
def dateInMonth : ℕ → ℕ → ℕ → ℕ → Date
  | 0, y, m, d => ⟨y, m, d + 1⟩
  | k + 1, y, m, d =>
    if d < daysInMonth y m then ⟨y, m, d + 1⟩
    else if m = 12 then dateInMonth k (y + 1) 1 (d - daysInMonth y m)
    else dateInMonth k y (m + 1) (d - daysInMonth y m)

/-- `date(1945, 1, 1) + timedelta(days=n)` for the days up to the end of 2008. -/
def dateFrom1945 (n : ℕ) : Date := dateInMonth (64 * 12) 1945 1 n

/-- `_format_date`. -/
def formatDate (d : Date) : DateFormat → Text
  | .text => joinWords [showNat d.day, genitiveMonths.getD (d.month - 1) [], showNat d.year]
  | .dayMonthYearDot =>
    showNatPadded 2 d.day ++ ['.'] ++ showNatPadded 2 d.month ++ ['.'] ++ showNatPadded 4 d.year
  | .dayMonthYearSlash =>
    showNatPadded 2 d.day ++ ['/'] ++ showNatPadded 2 d.month ++ ['/'] ++ showNatPadded 4 d.year
  | .dayMonthYearDash =>
    showNatPadded 2 d.day ++ ['-'] ++ showNatPadded 2 d.month ++ ['-'] ++ showNatPadded 4 d.year
  | .yearMonthDay =>
    showNatPadded 4 d.year ++ ['-'] ++ showNatPadded 2 d.month ++ ['-'] ++ showNatPadded 2 d.day

/-- `_detect_date_format`. -/
def detectDateFormat (value : Text) : DateFormat :=
  ([.dayMonthYearDot, .dayMonthYearSlash, .dayMonthYearDash, .yearMonthDay].find?
    (rt.strptime · value)).getD .text

/-- `date_like`; the range has `date(2008, 12, 31) - date(1945, 1, 1)`, that is 23375 days. -/
def dateLike (value : Text) : Gen Text :=
  let fmt := detectDateFormat rt value
  retryDraw (do
    let days ← randint rt seed 0 23375
    return formatDate (dateFrom1945 days) fmt) (· != value) 9

/-! ### Digits -/

/-- The loop of `digits_like`; `seen` counts the decimal digits passed so far. -/
def redrawDigits (keepPrefixDigits : ℤ) : ℕ → Text → Gen Text
  | _, [] => pure []
  | seen, ch :: rest => do
    if rt.unicode.isDecimal ch then
      if (seen : ℤ) < keepPrefixDigits then
        let tail ← redrawDigits keepPrefixDigits (seen + 1) rest
        pure (ch :: tail)
      else
        let d ← randint rt seed 0 9
        let tail ← redrawDigits keepPrefixDigits (seen + 1) rest
        pure (showNat d ++ tail)
    else
      let tail ← redrawDigits keepPrefixDigits seen rest
      pure (ch :: tail)

/-- `[i for i, ch in enumerate(value) if ch.isdecimal()]`. -/
def decimalPositions (value : Text) : List ℕ :=
  (List.range value.length).filter fun i => (value[i]?.map rt.unicode.isDecimal).getD false

/-- `digits_like`: redraw every decimal digit after the first `keepPrefixDigits`; a draw that
repeats the value changes its last mutable digit instead. -/
def digitsLike (value : Text) (keepPrefixDigits : ℤ) : Gen Text := do
  let result ← redrawDigits rt seed keepPrefixDigits 0 value
  if result != value then return result
  match ((decimalPositions rt value).drop keepPrefixDigits.toNat).getLast? with
  | none => throw (.valueError "value has no mutable decimal digits".toList)
  | some index =>
    let digit := (rt.unicode.digitValue (value.getD index '0') + 1) % 10
    return result.take index ++ showNat digit ++ result.drop (index + 1)

/-! ### Checksums -/

/-- `sum(a * b for a, b in zip(digits, weights))`. -/
def weightedSum (digits weights : List ℕ) : ℕ := (digits.zipWith (· * ·) weights).sum

/-- `_inn10_checksum`. -/
def inn10Checksum (digits9 : List ℕ) : ℕ :=
  weightedSum digits9 [2, 4, 10, 3, 5, 9, 4, 6, 8] % 11 % 10

/-- `_inn12_checks`. -/
def inn12Checks (digits10 : List ℕ) : ℕ × ℕ :=
  let d11 := weightedSum digits10 [7, 2, 4, 10, 3, 5, 9, 4, 6, 8] % 11 % 10
  (d11, weightedSum (digits10 ++ [d11]) [3, 7, 2, 4, 10, 3, 5, 9, 4, 6, 8] % 11 % 10)

/-- The contribution of digit `d` at position `i` to a Luhn sum, the doubled positions having the
given parity. -/
def luhnTerm (parity i d : ℕ) : ℕ :=
  if i % 2 = parity then (if 9 < d * 2 then d * 2 - 9 else d * 2) else d

/-- The Luhn sum of a list of digits. -/
def luhnSum (digits : List ℕ) : ℕ :=
  (digits.mapIdx fun i d => luhnTerm (digits.length % 2) i d).sum

/-- `_luhn_check_digit` of a list of digits. -/
def luhnCheckDigit (digits : List ℕ) : ℕ := (10 - luhnSum (digits ++ [0]) % 10) % 10

/-! ### The other types -/

/-- `[randint(0, 9) for _ in range(n)]`. -/
def drawDigits : ℕ → Gen (List ℕ)
  | 0 => return []
  | n + 1 => do
    let d ← randint rt seed 0 9
    return d :: (← drawDigits n)

/-- `"".join(map(str, digits))`. -/
def showDigits (digits : List ℕ) : Text := digits.flatMap showNat

/-- `email`. -/
def emailLike (value : Text) : Gen Text :=
  retryDraw (do
    let local' ← choice rt seed emailLocalPool
    let number ← randint rt seed 10 99999
    let domain ← choice rt seed emailDomainPool
    return local' ++ showNat number ++ ['@'] ++ domain) (· != value) 9

/-- `inn`. -/
def innNumber (value : Text) : Gen Text := do
  let length := (rt.unicode.onlyDigits value).length
  let digits ← drawDigits rt seed (length - 1)
  if length = 10 then return showDigits (digits ++ [inn10Checksum digits])
  else if length = 12 then
    let checks := inn12Checks (digits.take 10)
    return showDigits (digits.take 10 ++ [checks.1, checks.2])
  else return showDigits digits

/-- The groups of four of a string of sixteen characters. -/
def groupsOfFour (s : Text) : List Text :=
  [s.take 4, (s.drop 4).take 4, (s.drop 8).take 4, (s.drop 12).take 4]

/-- `card_number`. -/
def cardNumber (value : Text) : Gen Text := do
  let first ← randbelow rt seed 3
  let rest ← drawDigits rt seed 14
  let body := [4, 5, 2].getD first 4 :: rest
  let digits := showDigits (body ++ [luhnCheckDigit body])
  if '-' ∈ value then return ['-'].intercalate (groupsOfFour digits)
  else if ' ' ∈ value then return joinWords (groupsOfFour digits)
  else return digits

/-- `department_code`. -/
def departmentCode (value : Text) : Gen Text :=
  retryDraw (do
    let a ← randint rt seed 0 999
    let b ← randint rt seed 0 999
    return showNatPadded 3 a ++ ['-'] ++ showNatPadded 3 b) (· != value) 9

/-- `citizenship`. -/
def citizenshipLike (value : Text) : Gen Text :=
  let options := countries.filter (· != value)
  choice rt seed (if options.isEmpty then countries else options)

/-- `passport_issuer`. -/
def passportIssuerLike (value : Text) : Gen Text :=
  retryDraw (do
    let issuer ← choice rt seed issuerPrefixes
    let city ← choice rt seed cities
    return issuer ++ [' '] ++ city) (· != value) 9

/-- `birth_place`. -/
def birthPlaceLike (value : Text) : Gen Text := do
  let others := cities.filter fun c => !PySeq.hasSub c value
  let city ← choice rt seed (if others.isEmpty then cities else others)
  let lower := rt.unicode.lower value
  if "г.".toList.isPrefixOf lower then return "г. ".toList ++ city
  else if "город".toList.isPrefixOf lower then return "город ".toList ++ city
  else if PySeq.hasSub "россия".toList lower then return city ++ ", Россия".toList
  else return city

/-- `address`. -/
def addressLike : Gen Text := do
  let city ← choice rt seed cities
  let street ← choice rt seed streets
  let house ← randint rt seed 1 250
  let flat ← randint rt seed 1 500
  let index ← randint rt seed 100000 699999
  return showNat index ++ ", г. ".toList ++ city ++ ", ул. ".toList ++ street ++ ", д. ".toList ++
    showNat house ++ ", кв. ".toList ++ showNat flat

/-- `short_code`. -/
def shortCode (value : Text) (length : ℕ) : Gen Text :=
  let digitsOnly := rt.unicode.onlyDigits value
  let n := if digitsOnly.length = 0 then length else digitsOnly.length
  retryDraw (do return showDigits (← drawDigits rt seed n)) (· != digitsOnly) 9

/-- `generic`: the generator of each type that is not a name. -/
def generic (type : PIIType) (value : Text) : Gen Text :=
  match type with
  | .birthDate | .passportIssueDate => dateLike rt seed value
  | .passport => digitsLike rt seed value 0
  | .driverLicense => digitsLike rt seed value 0
  | .departmentCode => departmentCode rt seed value
  | .citizenship => citizenshipLike rt seed value
  | .passportIssuer => passportIssuerLike rt seed value
  | .birthPlace => birthPlaceLike rt seed value
  | .address => addressLike rt seed
  | .email => emailLike rt seed value
  | .phone => digitsLike rt seed value 1
  | .inn => innNumber rt seed value
  | .cardNumber => cardNumber rt seed value
  | .cvv => shortCode rt seed value 3
  | .pin => shortCode rt seed value 4
  | .fullName | .cardholder =>
    throw (.keyError ("no synthetic generator for ".toList ++ type.value))

end PiiProxy
