import PiiProxy.Core.Runtime
import PiiProxy.Lib.WordBounded

/-!
# Context rules

The keyword lists of `app/context/rules.py`, the bounded match of a keyword at the start of a word,
and the window of context that belongs to a candidate.

## Main definitions

* `personalRoles`, `privateActions`, `bankPrivateConcepts`, `strongRelatedPiiKeywords`,
  `publicMarkers`, `organizationalAddressMarkers`, `personalAddressMarkers`.
* `keywordHit`, `countHits`: a keyword at the start of a word with a short tail.
* `PyAccepts`: the test of an occurrence of a keyword.
* `sentenceBounds`, `attributedWindow`.

## Main results

* `keywordHit_iff`: the search for a keyword.
-/

namespace PiiProxy

/-! ### Keyword lists -/

/-- `PERSONAL_ROLES`. -/
def personalRoles : List String :=
  ["клиент", "клиента", "клиенту", "клиентом", "клиенте", "заемщик", "заёмщик", "заемщика",
    "заёмщика", "заемщику", "заёмщику", "заявитель", "заявителя", "заявителю", "страхователь",
    "страхователя", "страхователю", "застрахованный", "застрахованного", "застрахованному",
    "держатель", "держателя", "держателю", "получатель", "получателя", "получателю", "созаемщик",
    "созаёмщик", "созаемщика", "созаёмщика", "пользователь", "пользователя", "пользователю"]

/-- `PRIVATE_ACTIONS`. -/
def privateActions : List String :=
  ["обратился", "обратилась", "обратились", "подал заявку", "подала заявку", "подали заявку",
    "оформил", "оформила", "оформили", "зарегистрирован", "зарегистрирована", "зарегистрированы",
    "проживает", "проживают", "проживал", "проживала", "сообщил", "сообщила", "сообщили", "указал",
    "указала", "указали"]

/-- `BANK_PRIVATE_CONCEPTS`. -/
def bankPrivateConcepts : List String :=
  ["кредит", "ипотек", "договор", "полис", "счет", "счёт", "заявление"]

/-- `STRONG_RELATED_PII_KEYWORDS`. -/
def strongRelatedPiiKeywords : List String :=
  ["паспорт", "телефон", "email", "e-mail", "почта", "инн", "карт", "cvv", "пин", "дата рождения",
    "адрес проживания", "адрес регистрации"]

/-- `PUBLIC_MARKERS`. -/
def publicMarkers : List String :=
  ["поэт", "писатель", "автор", "ученый", "учёный", "композитор", "актер", "актёр",
    "историческая личность", "написал", "написала", "создал", "создала", "произведение",
    "биография", "роман", "стихотворение", "космонавт", "изобрел", "изобрёл", "открыл", "основал"]

/-- `ORGANIZATIONAL_ADDRESS_MARKERS`. -/
def organizationalAddressMarkers : List String :=
  ["офис", "отделени", "филиал", "банкомат", "магазин", "штаб-квартир", "представительств",
    "точка продаж", "точке продаж"]

/-- `PERSONAL_ADDRESS_MARKERS`. -/
def personalAddressMarkers : List String :=
  ["проживает", "проживал", "проживала", "зарегистрирован", "зарегистрирована", "адрес клиента",
    "адрес проживания", "адрес регистрации", "домашний адрес", "место жительства", "прописан",
    "прописана"]

/-! ### Keyword hits -/

variable (u : Unicode)

/-- `_is_word_char`. -/
def isWordChar (c : Char) : Bool := u.isAlnum c || c == '-' || c == '_'

/-- `_tail_is_short` with `max_tail = 2`, for the text after the keyword. -/
def tailIsShort (after : Text) : Bool := decide ((after.takeWhile (isWordChar u)).length ≤ 2)

/-- The search of `_keyword_hit` from a position on, with the character before it. -/
def keywordHitFrom (keyword : Text) : Option Char → Text → Bool
  | _, [] => false
  | prev, c :: rest =>
    (keyword.isPrefixOf (c :: rest) && !prev.any (isWordChar u) &&
      tailIsShort u ((c :: rest).drop keyword.length)) || keywordHitFrom keyword (some c) rest

/-- `_keyword_hit`. -/
def keywordHit (windowLower keyword : Text) : Bool := keywordHitFrom u keyword none windowLower

/-- `count_hits`. -/
def countHits (windowLower : Text) (keywords : List String) : List String :=
  keywords.filter fun kw => keywordHit u windowLower kw.toList

/-- `starts_word and _tail_is_short`, for an occurrence between `before` and `after`. -/
def PyAccepts (before : Option Char) (after : Text) : Prop :=
  before.any (isWordChar u) = false ∧ (after.takeWhile (isWordChar u)).length ≤ 2

private theorem keywordHitFrom_iff {keyword : Text} (hkeyword : keyword ≠ [])
    (before : Option Char) (s : Text) :
    keywordHitFrom u keyword before s = true ↔
      ∃ pre post, s = pre ++ (keyword ++ post) ∧ PyAccepts u (pre.getLast?.or before) post := by
  induction s generalizing before with
  | nil =>
    refine iff_of_false Bool.false_ne_true ?_
    rintro ⟨pre, post, hs, -⟩
    obtain ⟨-, hrest⟩ := List.append_eq_nil_iff.mp hs.symm
    exact hkeyword (List.append_eq_nil_iff.mp hrest).1
  | cons c s ih =>
    rw [keywordHitFrom, Bool.or_eq_true, ih, Bool.and_eq_true, Bool.and_eq_true, Bool.not_eq_true',
      List.isPrefixOf_iff_prefix, tailIsShort, decide_eq_true_eq]
    constructor
    · rintro (⟨⟨⟨post, hpost⟩, hbefore⟩, htail⟩ | ⟨pre, post, rfl, haccepts⟩)
      · rw [← hpost, List.drop_left] at htail
        exact ⟨[], post, hpost.symm, hbefore, htail⟩
      · refine ⟨c :: pre, post, rfl, ?_⟩
        rwa [WordBounded.getLast?_cons_or]
    · rintro ⟨pre, post, hs, haccepts⟩
      cases pre with
      | nil =>
        have hs : c :: s = keyword ++ post := hs
        obtain ⟨hbefore, htail⟩ := haccepts
        refine .inl ⟨⟨⟨post, hs.symm⟩, hbefore⟩, ?_⟩
        rwa [hs, List.drop_left]
      | cons a pre =>
        obtain ⟨rfl, rfl⟩ := List.cons.inj hs
        rw [WordBounded.getLast?_cons_or] at haccepts
        exact .inr ⟨pre, post, rfl, haccepts⟩

/-- **A keyword is found where an occurrence of it is accepted.** -/
theorem keywordHit_iff {keyword : Text} (hkeyword : keyword ≠ []) (window : Text) :
    keywordHit u window keyword = true ↔
      ∃ pre post, window = pre ++ (keyword ++ post) ∧ PyAccepts u pre.getLast? post := by
  rw [keywordHit, keywordHitFrom_iff u hkeyword]
  simp only [Option.or_none]

/-! ### Windows -/

/-- One of the characters that end a sentence. -/
def isTerminator (c : Char) : Bool := c == '.' || c == '!' || c == '?' || c == '\n'

/-- `sentence_bounds`. -/
def sentenceBounds (text : Text) (start stop radiusChars : ℕ) : ℕ × ℕ :=
  let leftBound := start - radiusChars
  let rightBound := min text.length (stop + radiusChars)
  let here := PySeq.slice text leftBound rightBound
  let before := PySeq.slice here 0 (start - leftBound : ℕ)
  let sentenceStart := before.length - (before.reverse.takeWhile fun c => !isTerminator c).length
  let relEnd := stop - leftBound
  let sentenceEnd :=
    match (here.drop relEnd).findIdx? isTerminator with
    | some i => relEnd + i + 1
    | none => here.length
  (leftBound + sentenceStart, leftBound + sentenceEnd)

/-- `attributed_window`. -/
def attributedWindow (text : Text) (start stop : ℕ) (otherSpans : List (ℕ × ℕ))
    (radiusChars : ℕ) : Text :=
  let bounds := otherSpans.foldl (fun (b : ℕ × ℕ) (other : ℕ × ℕ) =>
    if other.2 ≤ start then (max b.1 other.2, b.2)
    else if stop ≤ other.1 then (b.1, min b.2 other.1)
    else b) (sentenceBounds text start stop radiusChars)
  PySeq.slice text bounds.1 bounds.2

end PiiProxy
