import PiiProxy.Detectors.Basic

/-!
# Detectors of phrases

The detectors of `app/detectors/` whose patterns are made of words: e-mail addresses, cardholders,
postal addresses, places of birth, citizenship and passport issuers.

## Main definitions

* `emailDetector`, `cardholderDetector`, `addressDetector`, `birthPlaceDetector`,
  `citizenshipDetector`, `passportIssuerDetector`.
-/

namespace PiiProxy

open Regex (concat oneOf opt plus star)
open Pat

variable (u : Unicode)

/-! ### E-mail addresses -/

private def isLatin (c : Char) : Bool := ('A' ≤ c && c ≤ 'Z') || ('a' ≤ c && c ≤ 'z')

private def isLatinOrDigit (c : Char) : Bool := isLatin c || ('0' ≤ c && c ≤ '9')

private def emailLabel : Regex Char :=
  .rep (.chr fun c => isLatinOrDigit c || c == '-') 1 (some 63)

/-- `_EMAIL_RE`. -/
def emailPattern : Regex Char :=
  concat [.chr isLatinOrDigit,
    .rep (.chr fun c => isLatinOrDigit c || "._%+-".toList.contains c) 0 (some 63), lit "@",
    emailLabel, .rep (concat [lit ".", emailLabel]) 0 (some 8), lit ".",
    .rep (.chr isLatin) 2 (some 24)]

/-- `EmailDetector`. -/
def emailDetector : CandidateDetector :=
  .ofMatches "email" .email (95 / 100) emailPattern (of_decide_eq_true rfl) fun text _ =>
    text.contains '@'

/-! ### Cardholders -/

/-- `_CARDHOLDER_RE`. -/
def cardholderPattern : Regex Char :=
  concat [ciLit "держател", star ciRuLower, plus (.chr fun c => c == ':' || u.isSpace c),
    .group 1 (concat [.rep ruUpper 2 none,
      .rep (concat [plus (space u), .rep ruUpper 2 none]) 1 (some 2)])]

/-- `CardholderDetector`. -/
def cardholderDetector : CandidateDetector :=
  .ofGroups "cardholder" .cardholder (9 / 10) (cardholderPattern u) rfl u.isUpper

/-! ### Postal addresses -/

/-- `_CITY`. -/
def cityPattern : Regex Char :=
  concat [capitalizedWord, opt (concat [space u, ruUpper, plus ruLower])]

private def streetLetter : Regex Char := .chr fun c => isRuLower c || isRuUpper c || c == '-'

/-- `_STREET`. -/
def streetPattern : Regex Char :=
  concat [ruUpper, plus streetLetter, opt (concat [space u, plus streetLetter])]

/-- `_FULL_WITH_INDEX_RE`. -/
def fullWithIndexPattern : Regex Char :=
  concat [.times 6 (digit u), lit ",", spaces u, lit "г.", spaces u, cityPattern u, lit ",",
    spaces u, lit "ул.", spaces u, streetPattern u, lit ",", spaces u, lit "д.", spaces u,
    plus (digit u), lit ",", spaces u, lit "кв.", spaces u, plus (digit u)]

/-- `_FULL_WORDS_RE`. -/
def fullWordsPattern : Regex Char :=
  concat [lit "г.", spaces u, cityPattern u, lit ",", spaces u, lit "ул.", spaces u,
    streetPattern u, lit ",", spaces u, lit "дом", spaces u, plus (digit u), lit ",", spaces u,
    lit "квартира", spaces u, plus (digit u)]

/-- `_COMPACT_RE`. -/
def compactPattern : Regex Char :=
  concat [.notBehind fun c => c == ',' || u.isAlnum c || c == '_' || ('А' ≤ c && c ≤ 'я'),
    cityPattern u, lit ",", spaces u, streetPattern u, lit ",", spaces u, plus (digit u), lit "-",
    plus (digit u), noDigitAfter u]

/-- The passes of `AddressDetector`. -/
def addressPasses : List Pass :=
  [{ pattern := fullWithIndexPattern u, confidence := 95 / 100 },
    { pattern := fullWordsPattern u, confidence := 93 / 100 },
    { pattern := compactPattern u, confidence := 7 / 10 }]

/-- `AddressDetector`. -/
def addressDetector : CandidateDetector :=
  .total "address" (fun text => collectFree .address "address" text (addressPasses u))
    fun _ => wellFormed_collectFree (by
      simp only [addressPasses, List.forall_mem_cons, List.not_mem_nil, false_imp_iff,
        implies_true, and_true]
      exact ⟨Regex.minLen_concat_pos (.head _) (of_decide_eq_true rfl),
        Regex.minLen_concat_pos (.head _) (of_decide_eq_true rfl),
        Regex.minLen_concat_pos (.tail _ (.tail _ (.head _))) (of_decide_eq_true rfl)⟩)

/-! ### Places, countries and issuers -/

/-- `_RE` of `birth_place.py`. -/
def birthPlacePattern : Regex Char :=
  concat [ciLit "место", plus (space u), ciLit "рождения",
    star (.chr fun c => !":;.".toList.contains c), among ":-—", spaces u,
    .group 1 (concat [opt (oneOf [concat [lit "г.", spaces u],
      concat [lit "город", plus (space u)]]),
      capitalizedWord,
      opt (concat [lit ",", spaces u, lit "Росси", among "ия",
        star (.chr fun c => !",.;".toList.contains c)])])]

/-- `BirthPlaceDetector`. -/
def birthPlaceDetector : CandidateDetector :=
  .ofGroups "birth_place" .birthPlace (85 / 100) (birthPlacePattern u) rfl fun _ => true

/-- `_RE` of `citizenship.py`. -/
def citizenshipPattern : Regex Char :=
  concat [ciLit "гражданств", .chr fun c => "оа".toList.contains (foldCase c), spaces u,
    opt (among ":-—"), spaces u,
    .group 1 (concat [ruUpper, plus ruLower,
      opt (concat [plus (space u), ruUpper, plus ruLower])])]

/-- `CitizenshipDetector`. -/
def citizenshipDetector : CandidateDetector :=
  .ofGroups "citizenship" .citizenship (85 / 100) (citizenshipPattern u) rfl fun _ => true

/-- `_RE` of `passport_issuer.py`. -/
def passportIssuerPattern : Regex Char :=
  concat [oneOf [lit "ГУ МВД России", lit "УМВД России",
      concat [lit "Отдело", opt (lit "м"), lit " МВД России"]],
    plus (space u), lit "по", plus (space u), lit "г.", spaces u, capitalizedWord]

/-- `PassportIssuerDetector`. -/
def passportIssuerDetector : CandidateDetector :=
  .ofMatches "passport_issuer" .passportIssuer (9 / 10) (passportIssuerPattern u)
    (of_decide_eq_true rfl) fun _ _ => true

end PiiProxy
