import PiiProxy.Core.Models
import PiiProxy.Lib.PySeq

/-!
# What the program takes from its runtime

The pipeline consults three things that are not part of the repository: the Unicode tables and the
date parser of the Python interpreter, the morphological analyzer pymorphy3, and the hash
SHA-256. They are the fields of a `Runtime` and are arbitrary pure functions, restricted only by the
inclusions between character classes that the Unicode standard fixes. The text functions of
Python that are defined from these tables follow.

## Main definitions

* `Unicode`, `Parse`, `Runtime`.
* `Unicode.strip`, `Unicode.splitWords`, `Unicode.onlyDigits`: `str.strip`, `str.split` and
  `re.sub(r"\D", "", s)`.
* `joinWords`, `showNat`, `showNatPadded`: `" ".join`, `str(n)`, `f"{n:0kd}"`.
* `textLe`: the order of strings by code points.
* `basicUnicode`, `basicRuntime`: the tables of ASCII and of the Russian alphabet.
-/

namespace PiiProxy

/-- The string formats that `SyntheticGenerator` recognises for dates. -/
inductive DateFormat where
  | dayMonthYearDot | dayMonthYearSlash | dayMonthYearDash | yearMonthDay | text
  deriving DecidableEq, Repr

/-- The Unicode tables of the interpreter, as far as the program reads them. -/
structure Unicode where
  isAlnum : Char → Bool
  isAlpha : Char → Bool
  isDigit : Char → Bool
  isDecimal : Char → Bool
  isSpace : Char → Bool
  isUpper : Text → Bool
  lower : Text → Text
  upper : Text → Text
  capitalize : Text → Text
  /-- `int(ch)` of a decimal digit. -/
  digitValue : Char → ℕ
  isAlnum_of_isAlpha : ∀ c, isAlpha c = true → isAlnum c = true
  isAlnum_of_isDigit : ∀ c, isDigit c = true → isAlnum c = true
  isDigit_of_isDecimal : ∀ c, isDecimal c = true → isDigit c = true
  not_isSpace_of_isAlnum : ∀ c, isAlnum c = true → isSpace c = false
  isDecimal_of_ascii : ∀ c : Char, c.isDigit = true → isDecimal c = true
  digitValue_lt : ∀ c, isDecimal c = true → digitValue c < 10
  digitValue_ascii : ∀ c : Char, c.isDigit = true → digitValue c = c.toNat - '0'.toNat

/-- One parse of a word by pymorphy3: its tag, and its inflection to a case in the singular. -/
structure Parse where
  gender : Option Gender
  case : Option GramCase
  /-- The grammeme `Name`, `Surn` or `Patr` of the role is in the tag. -/
  hasRole : Role → Bool
  /-- `parse.inflect({case, "sing"})`, the inflected word when there is one. -/
  inflect : GramCase → Option Text

/-- The interpreter, pymorphy3 and SHA-256 as the program sees them. -/
structure Runtime where
  unicode : Unicode
  /-- `MorphAnalyzer.parse`. -/
  parse : Text → List Parse
  /-- `datetime.strptime(value, fmt)` succeeds. -/
  strptime : DateFormat → Text → Bool
  /-- The first eight bytes of the SHA-256 digest of the encoded text, as a number. -/
  sha64 : Text → ℕ
  sha64_lt : ∀ t, sha64 t < 2 ^ 64
  /-- How many rejected draws in a row the model of a rejection loop follows. -/
  fuel : ℕ

namespace Unicode

variable (u : Unicode)

/-- `s.strip()`. -/
def strip (s : Text) : Text :=
  ((s.dropWhile u.isSpace).reverse.dropWhile u.isSpace).reverse

/-- `s.split()`: the maximal runs of characters that are not white space. -/
def splitWords (s : Text) : List Text :=
  (s.splitOnP u.isSpace).filter fun w => !w.isEmpty

/-- `re.sub(r"\D", "", s)`. -/
def onlyDigits (s : Text) : Text := s.filter u.isDecimal

end Unicode

/-! ### The tables of ASCII and of the Russian alphabet -/

/-- A lower-case letter of ASCII or of the Russian alphabet. -/
def isBasicLower (c : Char) : Bool :=
  ('a'.val ≤ c.val && c.val ≤ 'z'.val) || ('а'.val ≤ c.val && c.val ≤ 'я'.val) || c == 'ё'

/-- An upper-case letter of ASCII or of the Russian alphabet. -/
def isBasicUpper (c : Char) : Bool :=
  ('A'.val ≤ c.val && c.val ≤ 'Z'.val) || ('А'.val ≤ c.val && c.val ≤ 'Я'.val) || c == 'Ё'

/-- An ASCII digit. -/
def isBasicDigit (c : Char) : Bool := '0'.val ≤ c.val && c.val ≤ '9'.val

/-- White space of ASCII. -/
def isBasicSpace (c : Char) : Bool :=
  c == ' ' || c == '\t' || c == '\n' || c == '\r' || c == '\x0b' || c == '\x0c'

/-- The lower-case form of a letter; other characters stay. -/
def basicLower (c : Char) : Char :=
  if c == 'Ё' then 'ё' else if isBasicUpper c then Char.ofNat (c.toNat + 32) else c

/-- The upper-case form of a letter; other characters stay. -/
def basicUpper (c : Char) : Char :=
  if c == 'ё' then 'Ё' else if isBasicLower c then Char.ofNat (c.toNat - 32) else c

private theorem not_isBasicSpace (c : Char)
    (hc : (isBasicLower c || isBasicUpper c || isBasicDigit c) = true) :
    isBasicSpace c = false := by
  rw [Bool.eq_false_iff]
  intro hs
  simp only [isBasicSpace, Bool.or_eq_true, beq_iff_eq] at hs
  rcases hs with ((((rfl | rfl) | rfl) | rfl) | rfl) | rfl <;> revert hc <;> decide

/-- The Unicode tables, restricted to ASCII and the Russian alphabet. -/
def basicUnicode : Unicode where
  isAlnum c := isBasicLower c || isBasicUpper c || isBasicDigit c
  isAlpha c := isBasicLower c || isBasicUpper c
  isDigit := isBasicDigit
  isDecimal := isBasicDigit
  isSpace := isBasicSpace
  isUpper s := s.any isBasicUpper && !s.any isBasicLower
  lower s := s.map basicLower
  upper s := s.map basicUpper
  capitalize
    | [] => []
    | c :: s => basicUpper c :: s.map basicLower
  digitValue c := c.toNat - '0'.toNat
  isAlnum_of_isAlpha c hc := by simp only [hc, Bool.true_or]
  isAlnum_of_isDigit c hc := by simp only [hc, Bool.or_true]
  isDigit_of_isDecimal _ hc := hc
  not_isSpace_of_isAlnum := not_isBasicSpace
  isDecimal_of_ascii _ hc := hc
  digitValue_lt c hc := by
    simp only [isBasicDigit, Bool.and_eq_true, decide_eq_true_eq, UInt32.le_iff_toNat_le] at hc
    have h₀ : '0'.val.toNat = 48 := rfl
    have h₉ : '9'.val.toNat = 57 := rfl
    simp only [Char.toNat]
    omega
  digitValue_ascii _ _ := rfl

/-- Zero is a hash of 64 bits. -/
theorem zero_lt_two_pow_64 : 0 < 2 ^ 64 := by decide

/-- The runtime of a text over these tables: no word has a parse, no date is recognised, and the
hash is the constant `hash`. -/
def basicRuntime (hash : ℕ) (hhash : hash < 2 ^ 64) : Runtime where
  unicode := basicUnicode
  parse _ := []
  strptime _ _ := false
  sha64 _ := hash
  sha64_lt _ := hhash
  fuel := 1

/-! ### Text functions -/

/-- `" ".join(words)`. -/
def joinWords (words : List Text) : Text := [' '].intercalate words

/-- `str(n)`. -/
def showNat (n : ℕ) : Text := Nat.toDigits 10 n

/-- `f"{n:0kd}"`. -/
def showNatPadded (k n : ℕ) : Text :=
  List.replicate (k - (showNat n).length) '0' ++ showNat n

/-- `s <= t`, comparing code points from the left. -/
def textLe : Text → Text → Bool
  | [], _ => true
  | _ :: _, [] => false
  | a :: s, b :: t => if a = b then textLe s t else decide (a.toNat < b.toNat)

/-- `sorted(set(values))`. -/
def sortedSet (values : List Text) : List Text :=
  values.dedup.insertionSort fun s t => textLe s t = true

end PiiProxy
