import PiiProxy.Core.PartialMode
import PiiProxy.Lib.RegexLanguage
import PiiProxy.Lib.Renderings
import PiiProxy.Replacement.DistinctValues

/-!
# The traces that masking leaves

A masked text shows the pieces that are kept, and for each mention what its mask or its surrogate
shows. Of a value made of digits a partial mask hides all but the first and the last ones, of a name
everything but its initials, and of any other value the letters and digits. A surrogate repeats the
separators of the value when its digits are redrawn, and otherwise it is made of digits only, or is
a text that no token holds.

So a document is described by a row of cells, one for each character that is shown or hidden, and
one for each text that is drawn. The masked text has a trace, a token or two stars in a row, exactly
when the cells make one.

## Main definitions

* `Cell`, `Cell.Reads`: the cells of a masked text, and how they may read.
* `LeavesTrace`: two stars in a row, or a token, made by cells.
* `maskCells`, `partialCells`: a value, and a document, under partial masks.
* `surrogateCells`, `TransformResult.cells`: a surrogate, and a document with its surrogates.

## Main results

* `hasTrace_iff_of_renders`: a text has a trace exactly when its cells leave one.
* `renders_partialCells`: what partial masking writes.
* `renders_cells`: what synthetic masking writes, when no mention is left to its token.
-/

namespace PiiProxy

open Renderings (Renders Fills)
open Redaction (Segment)

/-! ### Cells -/

/-- A piece of a masked text, as far as it is known what stands there. -/
inductive Cell where
  | shown (c : Char)
  /-- A character that is hidden by a star. -/
  | hidden
  /-- Decimal digits. -/
  | digits
  /-- A text without stars and angle brackets that no token holds. -/
  | word
  deriving DecidableEq, Repr

/-- The characters of token prefixes. -/
def isTokenLetter (c : Char) : Bool := ('A' ≤ c && c ≤ 'Z') || c == '_'

/-- How a cell may read. -/
inductive Cell.Reads (u : Unicode) : Cell → Text → Prop
  | shown (c : Char) : Reads u (.shown c) [c]
  | hidden : Reads u .hidden ['*']
  | digits {t : Text} (hne : t ≠ []) (ht : ∀ c ∈ t, u.isDecimal c = true) : Reads u .digits t
  | word {t : Text} {c : Char} (ht : Unmarked t) (hc : c ∈ t) (hletter : isTokenLetter c = false)
      (hdecimal : u.isDecimal c = false) : Reads u .word t

/-- The cell shows a star. -/
def Cell.isStar : Cell → Bool
  | .shown c => c == '*'
  | .hidden => true
  | .digits | .word => false

/-- The cell shows decimal digits. -/
def Cell.isNumber (u : Unicode) : Cell → Bool
  | .shown c => u.isDecimal c
  | .digits => true
  | .hidden | .word => false

/-- The cells of a token. -/
def IsTokenRow (u : Unicode) (row : List Cell) : Prop :=
  ∃ (name : Text) (number : List Cell), name ≠ [] ∧ (∀ c ∈ name, isTokenLetter c = true) ∧
    number ≠ [] ∧ (∀ k ∈ number, k.isNumber u = true) ∧
      row = .shown '<' :: (name.map .shown ++ .shown '_' :: number ++ [.shown '>'])

/-- The cells make two stars in a row, or a token. -/
def LeavesTrace (u : Unicode) (ks : List Cell) : Prop :=
  (∃ k k', [k, k'] <:+: ks ∧ k.isStar = true ∧ k'.isStar = true) ∨
    ∃ row, IsTokenRow u row ∧ row <:+: ks

section Reading

variable {u : Unicode}

theorem Unicode.ReadsText.isDecimal_eq_false (hu : u.ReadsText) {c : Char}
    (htext : isTextChar c = true) (hc : isBasicDigit c = false) : u.isDecimal c = false := by
  rw [Bool.eq_false_iff]
  intro hdecimal
  have hdigit := u.isDigit_of_isDecimal c hdecimal
  rw [hu.isDigit c htext, hc] at hdigit
  cases hdigit

/-- The characters of token prefixes are no decimals. -/
theorem Unicode.ReadsText.not_isDecimal_of_isTokenLetter (hu : u.ReadsText) {c : Char}
    (hc : isTokenLetter c = true) : u.isDecimal c = false := by
  have hrange : (isTextChar c && !isBasicDigit c) = true := by
    simp only [isTokenLetter, Bool.or_eq_true, Bool.and_eq_true, decide_eq_true_eq,
      beq_iff_eq] at hc
    rcases hc with ⟨hlow, hhigh⟩ | rfl
    · simp only [isTextChar, isBasicDigit, Bool.and_eq_true, Bool.or_eq_true, decide_eq_true_eq,
        Bool.not_eq_true', Bool.and_eq_false_iff, decide_eq_false_iff_not]
      rw [Char.le_def, UInt32.le_iff_toNat_le] at hlow hhigh
      simp only [UInt32.le_iff_toNat_le]
      have hA : 'A'.val.toNat = 65 := rfl
      have hZ : 'Z'.val.toNat = 90 := rfl
      have hspace : ' '.val.toNat = 32 := rfl
      have htilde : '~'.val.toNat = 126 := rfl
      have hnine : '9'.val.toNat = 57 := rfl
      exact ⟨.inl (.inl (.inl (.inl (.inl (.inl ⟨by omega, by omega⟩))))), .inr (by omega)⟩
    · rfl
  obtain ⟨htext, hdigit⟩ := Bool.and_eq_true_iff.1 hrange
  exact hu.isDecimal_eq_false htext (by simpa using hdigit)

theorem Unicode.ReadsText.not_isDecimal_of_isMark (hu : u.ReadsText) {c : Char}
    (hc : isMark c = true) : u.isDecimal c = false := by
  simp only [isMark, Bool.or_eq_true, beq_iff_eq] at hc
  rcases hc with (rfl | rfl) | rfl <;> exact hu.isDecimal_eq_false rfl rfl

theorem Cell.Reads.ne_nil {k : Cell} {t : Text} (h : k.Reads u t) : t ≠ [] := by
  cases h with
  | shown c => exact List.cons_ne_nil _ _
  | hidden => exact List.cons_ne_nil _ _
  | digits hne _ => exact hne
  | word _ hc _ _ => exact List.ne_nil_of_mem hc

/-- A mark fills its cell. -/
theorem fills_of_isMark (hu : u.ReadsText) {a : Char} (ha : isMark a = true) :
    Fills (Cell.Reads u) a := by
  intro k t h hmem
  cases h with
  | shown c => rw [List.mem_singleton.1 hmem]
  | hidden => rw [List.mem_singleton.1 hmem]
  | digits _ ht =>
    have hdecimal := ht a hmem
    rw [hu.not_isDecimal_of_isMark ha] at hdecimal
    cases hdecimal
  | word ht _ _ _ => exact absurd ha (List.any_eq_false.1 ht a hmem)

/-- A cell that reads as a mark shows it, or is hidden. -/
theorem Cell.Reads.of_isMark (hu : u.ReadsText) {k : Cell} {a : Char} (ha : isMark a = true)
    (h : k.Reads u [a]) : k = .shown a ∨ k = .hidden ∧ a = '*' := by
  cases h with
  | shown => exact .inl rfl
  | hidden => exact .inr ⟨rfl, rfl⟩
  | digits _ ht =>
    have hdecimal := ht a List.mem_cons_self
    rw [hu.not_isDecimal_of_isMark ha] at hdecimal
    cases hdecimal
  | word ht _ _ _ => exact absurd ha (List.any_eq_false.1 ht a List.mem_cons_self)

theorem Cell.Reads.eq_of_isStar {k : Cell} {t : Text} (h : k.Reads u t) (hk : k.isStar = true) :
    t = ['*'] := by
  cases h with
  | shown c => rw [eq_of_beq (show (c == '*') = true from hk)]
  | hidden => rfl
  | digits _ _ => cases hk
  | word _ _ _ _ => cases hk

theorem Cell.Reads.isDecimal {k : Cell} {t : Text} (h : k.Reads u t) (hk : k.isNumber u = true) :
    ∀ c ∈ t, u.isDecimal c = true := by
  cases h with
  | shown c => exact List.forall_mem_singleton.2 hk
  | hidden => cases hk
  | digits _ ht => exact ht
  | word _ _ _ _ => cases hk

/-- What reads as the letters of a prefix shows them. -/
theorem renders_name (hu : u.ReadsText) {ks : List Cell} {name : Text}
    (h : Renders (Cell.Reads u) ks name) (hname : ∀ c ∈ name, isTokenLetter c = true) :
    ks = name.map .shown := by
  induction h with
  | nil => rfl
  | cons hk _ ih =>
    obtain ⟨hhead, htail⟩ := List.forall_mem_append.1 hname
    rw [ih htail, List.map_append]
    refine congrArg (· ++ _) (?_ : [_] = _)
    cases hk with
    | shown c => rfl
    | hidden => exact absurd (hhead '*' List.mem_cons_self) (by decide)
    | digits hne ht =>
      obtain ⟨c, hc⟩ := List.exists_mem_of_ne_nil _ hne
      have hdecimal := ht c hc
      rw [hu.not_isDecimal_of_isTokenLetter (hhead c hc)] at hdecimal
      cases hdecimal
    | word _ hc hletter _ => exact absurd ((hhead _ hc).symm.trans hletter) (by decide)

/-- What reads as decimal digits shows digits. -/
theorem renders_number (hu : u.ReadsText) {ks : List Cell} {number : Text}
    (h : Renders (Cell.Reads u) ks number) (hnumber : ∀ c ∈ number, u.isDecimal c = true) :
    ∀ k ∈ ks, k.isNumber u = true := by
  intro k hk
  obtain ⟨t, ht, hsub⟩ := h.exists_reads hk
  cases ht with
  | shown c => exact hnumber c (hsub List.mem_cons_self)
  | hidden =>
    have hstar := hnumber '*' (hsub List.mem_cons_self)
    rw [hu.not_isDecimal_of_isMark rfl] at hstar
    cases hstar
  | digits _ _ => rfl
  | word _ hc _ hdecimal =>
    rw [hnumber _ (hsub hc)] at hdecimal
    cases hdecimal

theorem isPlain_tokenPattern : (ProcessService.tokenPattern u).isPlain = true := rfl

/-- The texts that the token expression matches. -/
theorem mem_lang_tokenPattern {t : Text} :
    t ∈ (ProcessService.tokenPattern u).Lang ↔ ∃ name number : Text, name ≠ [] ∧
      (∀ c ∈ name, isTokenLetter c = true) ∧ number ≠ [] ∧ (∀ c ∈ number, u.isDecimal c = true) ∧
        t = '<' :: (name ++ '_' :: number ++ ['>']) := by
  constructor
  · rintro ⟨_, ⟨a, ha, rfl⟩, _, ⟨name, hname, _, ⟨_, ⟨b, hb, rfl⟩, _, ⟨number, hnumber, _,
      ⟨_, ⟨c, hc, rfl⟩, _, rfl, rfl⟩, rfl⟩, rfl⟩, rfl⟩, rfl⟩
    obtain ⟨hname, hletters⟩ := Regex.mem_lang_plus_chr.1 hname
    obtain ⟨hnumber, hdigits⟩ := Regex.mem_lang_plus_chr.1 hnumber
    refine ⟨name, number, hname, hletters, hnumber, hdigits, ?_⟩
    rw [eq_of_beq ha, eq_of_beq hb, eq_of_beq hc]
    simp
  · rintro ⟨name, number, hname, hletters, hnumber, hdigits, rfl⟩
    refine ⟨['<'], ⟨'<', rfl, rfl⟩, _, ⟨name, Regex.mem_lang_plus_chr.2 ⟨hname, hletters⟩, _,
      ⟨['_'], ⟨'_', rfl, rfl⟩, _, ⟨number, Regex.mem_lang_plus_chr.2 ⟨hnumber, hdigits⟩, _,
        ⟨['>'], ⟨'>', rfl, rfl⟩, [], rfl, rfl⟩, rfl⟩, rfl⟩, rfl⟩, ?_⟩
    simp

/-- The characters of token prefixes are capital letters and underscores. -/
private theorem isTokenLetter_tokenPrefix (type : PIIType) :
    tokenPrefix type ≠ [] ∧ ∀ c ∈ tokenPrefix type, isTokenLetter c = true := by
  rw [← List.all_eq_true]
  cases type <;> decide

/-- The token expression matches every token. -/
theorem IsToken.mem_lang {token : Text} (h : IsToken token) :
    token ∈ (ProcessService.tokenPattern u).Lang := by
  obtain ⟨_, ⟨type, n, rfl⟩, rfl⟩ := h
  obtain ⟨hne, hletters⟩ := isTokenLetter_tokenPrefix type
  refine mem_lang_tokenPattern.2 ⟨tokenPrefix type, showNat n, hne, hletters, Nat.toDigits_ne_nil,
    fun c hc => u.isDecimal_of_ascii c (Nat.isDigit_of_mem_toDigits (by decide) (by decide) hc), ?_⟩
  simp [tokenFor]

/-- The row of a token reads as something that the token expression matches. -/
theorem IsTokenRow.mem_lang {row : List Cell} (h : IsTokenRow u row) {t : Text}
    (ht : Renders (Cell.Reads u) row t) : t ∈ (ProcessService.tokenPattern u).Lang := by
  obtain ⟨name, number, hname, hletters, hnumber, hdigits, rfl⟩ := h
  obtain ⟨_, t', rfl, hopen, ht'⟩ := Renderings.renders_cons_iff.1 ht
  obtain ⟨front, close, rfl, hfront, hclose⟩ := Renderings.renders_append_iff.1 ht'
  obtain ⟨left, right, rfl, hleft, hright⟩ := Renderings.renders_append_iff.1 hfront
  obtain ⟨_, digits, rfl, hbar, hread⟩ := Renderings.renders_cons_iff.1 hright
  cases hopen
  cases hbar
  cases Renderings.renders_singleton_iff.1 hclose
  have hshown := hleft.eq_map (g := id) fun c t hc => by
    cases hc
    rfl
  refine mem_lang_tokenPattern.2 ⟨name, digits, hname, hletters, fun hnil => ?_, ?_, ?_⟩
  · rw [hnil] at hread
    exact hnumber (hread.eq_nil fun _ _ => Cell.Reads.ne_nil)
  · exact hread.forall_mem fun k hk _ hreads => hreads.isDecimal (hdigits k hk)
  · rw [hshown, List.map_id]
    rfl

/-- What reads as the letters of a prefix, an underscore and decimal digits shows them. -/
theorem renders_id (hu : u.ReadsText) {ks : List Cell} {name number : Text}
    (h : Renders (Cell.Reads u) ks (name ++ '_' :: number))
    (hname : ∀ c ∈ name, isTokenLetter c = true)
    (hnumber : ∀ c ∈ number, u.isDecimal c = true) :
    ∃ ds, ks = name.map .shown ++ .shown '_' :: ds ∧ Renders (Cell.Reads u) ds number := by
  obtain ⟨ls, k, ds, s, l, r, t, rfl, rfl, rfl, hls, hk, hds⟩ := h.exists_cell
  -- the cell at the underscore shows it
  have hsplit : k = .shown '_' ∧ l = [] ∧ r = [] := by
    generalize hread : l ++ '_' :: r = t at hk
    have hbar : '_' ∈ t := hread ▸ List.mem_append_right l List.mem_cons_self
    cases hk with
    | shown c =>
      have hlen := congrArg List.length hread
      simp only [List.length_append, List.length_cons, List.length_nil] at hlen
      rw [List.mem_singleton.1 hbar]
      exact ⟨rfl, List.eq_nil_of_length_eq_zero (by omega),
        List.eq_nil_of_length_eq_zero (by omega)⟩
    | hidden => exact absurd (List.mem_singleton.1 hbar) (by decide)
    | digits _ ht =>
      have hdecimal := ht '_' hbar
      rw [hu.not_isDecimal_of_isTokenLetter rfl] at hdecimal
      cases hdecimal
    | word _ hc hletter hdecimal =>
      subst hread
      rcases List.mem_append.1 hc with hc | hc
      · rw [hname _ (List.mem_append_right s hc)] at hletter
        cases hletter
      · rcases List.mem_cons.1 hc with rfl | hc
        · cases hletter
        · rw [hnumber _ (List.mem_append_left t hc)] at hdecimal
          cases hdecimal
  obtain ⟨rfl, rfl, rfl⟩ := hsplit
  rw [List.append_nil] at hname ⊢
  exact ⟨ds, by rw [renders_name hu hls hname], hds⟩

/-- **A text has a trace exactly when its cells leave one.** -/
theorem hasTrace_iff_of_renders (svc : ProcessService)
    (hu : svc.pipeline.runtime.unicode.ReadsText) {ks : List Cell} {text : Text}
    (h : Renders (Cell.Reads svc.pipeline.runtime.unicode) ks text) :
    svc.hasTrace text = true ↔ LeavesTrace svc.pipeline.runtime.unicode ks := by
  rw [ProcessService.hasTrace, Bool.or_eq_true, Regex.search_iff isPlain_tokenPattern,
    PySeq.hasSub_iff, or_comm]
  refine or_congr ⟨fun hin => ?_, ?_⟩ ⟨?_, ?_⟩
  · have hstar := fills_of_isMark hu (show isMark '*' = true from rfl)
    obtain ⟨k, ls, k', hks, hk, hls, hk'⟩ := h.between hstar hstar (s := []) hin
    rw [hls.eq_nil fun _ _ => Cell.Reads.ne_nil, List.nil_append] at hks
    refine ⟨k, k', hks, ?_, ?_⟩
    · rcases hk.of_isMark hu rfl with rfl | ⟨rfl, -⟩ <;> rfl
    · rcases hk'.of_isMark hu rfl with rfl | ⟨rfl, -⟩ <;> rfl
  · rintro ⟨k, k', hks, hk, hk'⟩
    obtain ⟨t, ht, hin⟩ := h.exists_infix hks
    obtain ⟨s, s', rfl, hs, hs'⟩ := Renderings.renders_cons_iff.1 ht
    rw [hs.eq_of_isStar hk, (Renderings.renders_singleton_iff.1 hs').eq_of_isStar hk'] at hin
    exact hin
  · rintro ⟨t, ht, hin⟩
    obtain ⟨name, number, hname, hletters, hnumber, hdigits, rfl⟩ := mem_lang_tokenPattern.1 ht
    obtain ⟨k, ls, k', hks, hk, hls, hk'⟩ := h.between (fills_of_isMark hu rfl)
      (fills_of_isMark hu rfl) hin
    obtain ⟨ds, rfl, hds⟩ := renders_id hu hls hletters hdigits
    obtain rfl : k = .shown '<' := (hk.of_isMark hu rfl).resolve_right fun h => by cases h.2
    obtain rfl : k' = .shown '>' := (hk'.of_isMark hu rfl).resolve_right fun h => by cases h.2
    refine ⟨_, ⟨name, ds, hname, hletters, fun hnil => ?_, renders_number hu hds hdigits, rfl⟩, hks⟩
    rw [hnil] at hds
    exact hnumber (Renderings.renders_nil_iff.1 hds)
  · rintro ⟨row, hrow, hin⟩
    obtain ⟨t, ht, hsub⟩ := h.exists_infix hin
    exact ⟨t, hrow.mem_lang ht, hsub⟩

/-- A text that is shown. -/
theorem renders_shown (t : Text) : Renders (Cell.Reads u) (t.map .shown) t := by
  have h : Renders (Cell.Reads u) (t.map .shown) (t.map id) :=
    Renders.of_map fun c _ => Cell.Reads.shown c
  rwa [List.map_id] at h

end Reading

/-! ### Partial masks -/

/-- The mask of the type hides the character of the value at a position: a digit that is neither
among the first nor among the last ones that are shown, or any letter or digit. -/
def hides (u : Unicode) (type : PIIType) (value : Text) (i : ℕ) (c : Char) : Bool :=
  match shownDigits type (value.countP u.isDigit) with
  | some (first, last) => u.isDigit c && decide (first ≤ (value.take i).countP u.isDigit ∧
      (value.take i).countP u.isDigit + last < value.countP u.isDigit)
  | none => u.isAlnum c

/-- The cells of a word of a name, of which the initial is shown, or a star if it has no letter. -/
def initialCells (u : Unicode) (w : Text) : List Cell :=
  if w.any u.isAlpha then [.word] else [.hidden, .word]

/-- The cells of a value under the mask of the type. -/
def maskCells (u : Unicode) (type : PIIType) (value : Text) : List Cell :=
  if type.isNameType then
    [.shown ' '].intercalate ((u.splitWords (u.strip value)).map (initialCells u))
  else value.mapIdx fun i c => if hides u type value i c then .hidden else .shown c

/-- The cells of a document in partial mode. -/
def partialCells (u : Unicode) (document : List (Segment Char PIIType Text)) : List Cell :=
  document.flatMap fun
    | .kept piece => piece.map .shown
    | .mention type value => maskCells u type value

section Partial

variable {u : Unicode}

/-- The mask of the word of a name. -/
theorem renders_initialCells (hu : u.ReadsText)
    (hupper : ∀ c, u.isAlpha c = true → Unmarked (u.upper [c])) (w : Text) :
    Renders (Cell.Reads u) (initialCells u w)
      (u.upper [(w.find? u.isAlpha).getD '*'] ++ ['.']) := by
  have hdot : u.isDecimal '.' = false := hu.isDecimal_eq_false rfl rfl
  rw [initialCells]
  cases hfind : w.find? u.isAlpha with
  | none =>
    have hnone : ¬w.any u.isAlpha = true := by simpa using List.find?_eq_none.1 hfind
    rw [if_neg hnone, Option.getD_none, hu.upper '*' rfl]
    exact .cons .hidden (Renderings.renders_singleton_iff.2
      (.word (t := ['.']) rfl List.mem_cons_self rfl hdot))
  | some c =>
    have hletter := List.find?_some hfind
    have hany : w.any u.isAlpha = true :=
      List.any_eq_true.2 ⟨c, List.mem_of_find?_eq_some hfind, hletter⟩
    rw [if_pos hany, Option.getD_some]
    refine Renderings.renders_singleton_iff.2 (.word ?_ (List.mem_append_right _ List.mem_cons_self)
      (rfl : isTokenLetter '.' = false) hdot)
    rw [Unmarked, List.any_append, hupper c hletter]
    rfl

/-- The mask of a value that is not a name hides characters and keeps the others. -/
theorem partialMask_eq_mapIdx (hu : u.ReadsText) {type : PIIType} (htype : type.isNameType = false)
    (value : Text) :
    partialMask u type value =
      value.mapIdx fun i c => if hides u type value i c then '*' else c := by
  cases hshown : shownDigits type (value.countP u.isDigit) with
  | some pair =>
    obtain ⟨first, last⟩ := pair
    have h := showsDigits_partialMask type value hshown
    have hhides (i : ℕ) (c : Char) : hides u type value i c = (u.isDigit c &&
        decide (first ≤ (value.take i).countP u.isDigit ∧
          (value.take i).countP u.isDigit + last < value.countP u.isDigit)) := by
      rw [hides, hshown]
    refine List.ext_getElem? fun i => ?_
    rw [List.getElem?_mapIdx]
    rcases Nat.lt_or_ge i value.length with hi | hi
    swap
    · rw [List.getElem?_eq_none (h.length_eq ▸ hi), List.getElem?_eq_none hi]
      rfl
    have hc := List.getElem?_eq_getElem hi
    rw [hc, Option.map_some]
    split_ifs with hhidden <;>
      rw [hhides, Bool.and_eq_true, decide_eq_true_eq] at hhidden
    · exact h.starred i _ hc hhidden.1 (by omega)
    · by_cases hdigit : u.isDigit value[i] = true
      · have hshows := not_and.1 hhidden hdigit
        exact h.shown i _ hc hdigit (by omega)
      · exact h.kept i _ hc (by simpa using hdigit)
  | none =>
    have hmask : partialMask u type value = maskAlnum u value := by
      have hat : u.isAlnum '@' = false := hu.isAlnum '@' rfl
      cases type <;> first
        | rfl
        | exact maskEmail_eq hat value
        | exact absurd htype (by decide)
        | exact absurd hshown (by simp [shownDigits])
    have hhides (i : ℕ) (c : Char) : hides u type value i c = u.isAlnum c := by
      rw [hides, hshown]
    simp only [hmask, maskAlnum, hhides]
    refine List.ext_getElem? fun i => ?_
    rw [List.getElem?_mapIdx, List.getElem?_map]

/-- **What the mask of a value shows.** -/
theorem renders_maskCells (hu : u.ReadsText)
    (hupper : ∀ c, u.isAlpha c = true → Unmarked (u.upper [c])) (type : PIIType) (value : Text) :
    Renders (Cell.Reads u) (maskCells u type value) (partialMask u type value) := by
  rw [maskCells]
  split_ifs with htype
  · have hmask : partialMask u type value = maskName u value := by
      cases type <;> first | rfl | cases htype
    rw [hmask, maskName, joinWords]
    refine (renders_shown [' ']).intercalate ?_
    rw [List.forall₂_map_left_iff, List.forall₂_map_right_iff]
    exact List.forall₂_same.2 fun w _ => renders_initialCells hu hupper w
  · rw [partialMask_eq_mapIdx hu (by simpa using htype)]
    refine Renders.of_forall₂ (List.forall₂_iff_get.2 ⟨by simp, fun i hi hi' => ?_⟩)
    simp only [List.get_eq_getElem, List.getElem_mapIdx]
    split_ifs
    · exact .hidden
    · exact .shown _

/-- **What partial masking writes.** -/
theorem renders_partialCells (hu : u.ReadsText)
    (hupper : ∀ c, u.isAlpha c = true → Unmarked (u.upper [c]))
    (document : List (Segment Char PIIType Text)) :
    Renders (Cell.Reads u) (partialCells u document)
      (Redaction.maskEach (partialMask u) document) := by
  refine Renders.flatMap fun segment _ => ?_
  cases segment with
  | kept piece => exact renders_shown piece
  | mention type value => exact renders_maskCells hu hupper type value

/-- Cells without a star and an opening bracket leave no trace. -/
theorem not_leavesTrace {ks : List Cell} (h : ∀ k ∈ ks, k.isStar = false ∧ k ≠ .shown '<') :
    ¬LeavesTrace u ks := by
  rintro (⟨k, k', hin, hk, -⟩ | ⟨_, ⟨name, number, -, -, -, -, rfl⟩, hin⟩)
  · have hstar := (h k (hin.subset List.mem_cons_self)).1
    rw [hk] at hstar
    cases hstar
  · exact (h _ (hin.subset List.mem_cons_self)).2 rfl

/-- **Names leave no trace.** A document in which only names with letters are masked has none in
partial mode, unless it has stars or angle brackets of its own. -/
theorem not_leavesTrace_names {document : List (Segment Char PIIType Text)}
    (hkept : ∀ piece, .kept piece ∈ document → '*' ∉ piece ∧ '<' ∉ piece)
    (hnames : ∀ type value, .mention type value ∈ document → type.isNameType = true ∧
      ∀ w ∈ u.splitWords (u.strip value), w.any u.isAlpha = true) :
    ¬LeavesTrace u (partialCells u document) := by
  refine not_leavesTrace fun k hk => ?_
  obtain ⟨segment, hsegment, hk⟩ := List.mem_flatMap.1 hk
  cases segment with
  | kept piece =>
    obtain ⟨c, hc, rfl⟩ := List.mem_map.1 hk
    obtain ⟨hstar, hopen⟩ := hkept piece hsegment
    refine ⟨beq_false_of_ne fun heq => hstar (heq ▸ hc), fun heq => hopen ?_⟩
    cases heq
    exact hc
  | mention type value =>
    obtain ⟨htype, hwords⟩ := hnames type value hsegment
    dsimp only at hk
    rw [maskCells, if_pos htype] at hk
    have hnone : ([.shown ' '].intercalate ((u.splitWords (u.strip value)).map
        (initialCells u))).any (fun k => k.isStar || k == .shown '<') = false := by
      refine PySeq.any_intercalate (by decide) fun row hrow => ?_
      obtain ⟨w, hw, rfl⟩ := List.mem_map.1 hrow
      rw [initialCells, if_pos (hwords w hw)]
      decide
    simpa using List.any_eq_false.1 hnone k hk

end Partial

/-! ### Surrogates -/

/-- The cells of a surrogate of the type that is drawn for a value: the value with its digits
redrawn, digits only, or a text with other characters. The names are those of the analyzer. -/
def surrogateCells (u : Unicode) (type : PIIType) (value surrogate : Text) : List Cell :=
  match type with
  | .fullName | .cardholder => surrogate.map .shown
  | .passport | .driverLicense | .phone =>
    value.map fun c => if u.isDecimal c then .digits else .shown c
  | .inn | .cvv | .pin => [.digits]
  | .cardNumber => if '-' ∈ value ∨ ' ' ∈ value then [.word] else [.digits]
  | _ => [.word]

section Drawn

variable {rt : Runtime} {seed : ℕ}

/-- A character of Russian text that is not found in tokens. -/
private def isForeign (c : Char) : Bool := isTextChar c && !isBasicDigit c && !isTokenLetter c

/-- A text with a character that is not found in tokens. -/
private abbrev Foreign (t : Text) : Prop := t.any isForeign = true

private theorem foreign_of_mem {t : Text} {c : Char} (hc : c ∈ t) (hforeign : isForeign c = true) :
    Foreign t := List.any_eq_true.2 ⟨c, hc, hforeign⟩

private theorem foreign_formatDate (d : Date) (fmt : DateFormat) : Foreign (formatDate d fmt) := by
  have hdot : isForeign '.' = true := by decide
  have hslash : isForeign '/' = true := by decide
  have hdash : isForeign '-' = true := by decide
  cases fmt with
  | text =>
    have hspace : isForeign ' ' = true := by decide
    exact foreign_of_mem (by simp [formatDate, joinWords, List.intercalate]) hspace
  | dayMonthYearDot => exact foreign_of_mem (by simp [formatDate]) hdot
  | dayMonthYearSlash => exact foreign_of_mem (by simp [formatDate]) hslash
  | dayMonthYearDash => exact foreign_of_mem (by simp [formatDate]) hdash
  | yearMonthDay => exact foreign_of_mem (by simp [formatDate]) hdash

/-- The surrogates with other characters than those of tokens. -/
private theorem always_foreign {type : PIIType} {value : Text}
    (hcells : ∀ surrogate, surrogateCells rt.unicode type value surrogate = [.word]) :
    (generic rt seed type value).Always Foreign := by
  have hpool {pool : List Text} (h : pool.all (·.any isForeign) = true) :
      ∀ w ∈ pool, Foreign w := List.all_eq_true.1 h
  have hdate : (dateLike rt seed value).Always Foreign :=
    Gen.always_retryDraw (Gen.always_bind_any fun days =>
      Gen.always_pure (foreign_formatDate _ _)) _ 9
  cases type
  case birthDate => exact hdate
  case passportIssueDate => exact hdate
  case departmentCode =>
    refine Gen.always_retryDraw (Gen.always_bind_any fun a =>
      Gen.always_bind_any fun b =>
        Gen.always_pure (foreign_of_mem ?_ (by decide : isForeign '-'))) _ 9
    simp
  case citizenship =>
    exact (always_citizenshipLike value).mono (hpool (by decide +kernel))
  case passportIssuer =>
    refine Gen.always_retryDraw (Gen.always_bind_any fun issuer =>
      Gen.always_bind_any fun city =>
        Gen.always_pure (foreign_of_mem ?_ (by decide : isForeign ' '))) _ 9
    simp
  case birthPlace =>
    refine (always_birthPlaceLike value).mono ?_
    rintro drawn ⟨city, hcity, hdrawn⟩
    have hcities : ∀ w ∈ cities, Foreign w := hpool (by decide +kernel)
    have hcity := hcities city hcity
    fin_cases hdrawn
    · rw [Foreign, List.any_append, hcity, Bool.or_true]
    · rw [Foreign, List.any_append, hcity, Bool.or_true]
    · rw [Foreign, List.any_append, hcity, Bool.true_or]
    · exact hcity
  case address =>
    refine Gen.always_bind_any fun city => Gen.always_bind_any fun street =>
      Gen.always_bind_any fun house => Gen.always_bind_any fun flat =>
        Gen.always_bind_any fun index =>
          Gen.always_pure (foreign_of_mem ?_ (by decide : isForeign ','))
    simp
  case email =>
    refine Gen.always_retryDraw (Gen.always_bind_any fun name =>
      Gen.always_bind_any fun number => Gen.always_bind_any fun domain =>
        Gen.always_pure (foreign_of_mem ?_ (by decide : isForeign '@'))) _ 9
    simp
  case cardNumber =>
    refine Gen.always_bind_any fun first => Gen.always_bind_any fun rest => ?_
    split_ifs with hdash hspace
    · refine Gen.always_pure (foreign_of_mem ?_ (by decide : isForeign '-'))
      simp [groupsOfFour, List.intercalate]
    · refine Gen.always_pure (foreign_of_mem ?_ (by decide : isForeign ' '))
      simp [groupsOfFour, joinWords, List.intercalate]
    · have hword := hcells []
      rw [surrogateCells, if_neg (not_or.2 ⟨hdash, hspace⟩)] at hword
      cases hword
  case fullName => exact absurd (hcells []) (by simp [surrogateCells])
  case cardholder => exact absurd (hcells []) (by simp [surrogateCells])
  case inn => exact absurd (hcells []) (by simp [surrogateCells])
  case cvv => exact absurd (hcells []) (by simp [surrogateCells])
  case pin => exact absurd (hcells []) (by simp [surrogateCells])
  all_goals
    obtain ⟨c, -, hc⟩ := List.map_eq_singleton_iff.1 (hcells [])
    split_ifs at hc

private theorem renders_word {u : Unicode} (hu : u.ReadsText) {t : Text} (ht : Unmarked t)
    (hforeign : Foreign t) : Renders (Cell.Reads u) [.word] t := by
  obtain ⟨c, hc, hother⟩ := List.any_eq_true.1 hforeign
  simp only [isForeign, Bool.and_eq_true, Bool.not_eq_true'] at hother
  obtain ⟨⟨htext, hdigit⟩, hletter⟩ := hother
  exact Renderings.renders_singleton_iff.2
    (.word ht hc hletter (hu.isDecimal_eq_false htext hdigit))

private theorem always_renders_digits {u : Unicode} {gen : Gen Text}
    (h : gen.Always fun drawn => ∀ c ∈ drawn, c.isDigit = true) :
    gen.Always fun drawn => drawn ≠ [] → Renders (Cell.Reads u) [.digits] drawn :=
  h.mono fun _ hdigits hne => Renderings.renders_singleton_iff.2
    (.digits hne fun c hc => u.isDecimal_of_ascii c (hdigits c hc))

/-- **How a surrogate reads.** -/
theorem always_renders_surrogateCells (hu : rt.unicode.ReadsText) {type : PIIType} {value : Text} :
    (generic rt seed type value).Always fun drawn => drawn ≠ [] →
      Renders (Cell.Reads rt.unicode) (surrogateCells rt.unicode type value drawn) drawn := by
  have hshow (ds : List ℕ) : ∀ c ∈ showDigits ds, c.isDigit = true :=
    fun _ => isDigit_of_mem_showDigits
  have hword (hcells : ∀ surrogate, surrogateCells rt.unicode type value surrogate = [.word])
      (htype : type.redrawsDigits = false) :
      (generic rt seed type value).Always fun drawn => drawn ≠ [] →
        Renders (Cell.Reads rt.unicode) (surrogateCells rt.unicode type value drawn) drawn := by
    intro c drawn c' h _
    rw [hcells]
    exact renders_word hu (always_generic_unmarked htype c drawn c' h)
      (always_foreign hcells c drawn c' h)
  have hredrawn (keep : ℤ) : (digitsLike rt seed value keep).Always fun drawn => drawn ≠ [] →
      Renders (Cell.Reads rt.unicode)
        (value.map fun c => if rt.unicode.isDecimal c then .digits else .shown c) drawn := by
    refine (always_digitsLike_kept value keep).mono fun drawn hkept _ =>
      Renders.of_forall₂ (List.forall₂_map_left_iff.2 (hkept.imp fun a b hab => ?_))
    split_ifs with hdecimal
    · refine .digits (List.cons_ne_nil _ _) (List.forall_mem_singleton.2 ?_)
      rcases hab with rfl | ⟨-, hdigit⟩
      · exact hdecimal
      · exact rt.unicode.isDecimal_of_ascii b hdigit
    · obtain rfl : b = a := hab.resolve_right fun h => hdecimal h.1
      exact .shown b
  have hshort (length : ℕ) : (shortCode rt seed value length).Always fun drawn =>
      ∀ c ∈ drawn, c.isDigit = true :=
    Gen.always_retryDraw (Gen.always_bind_any fun ds => Gen.always_pure (hshow ds)) _ 9
  cases type
  case fullName => exact Gen.always_throw _
  case cardholder => exact Gen.always_throw _
  case passport => exact hredrawn 0
  case driverLicense => exact hredrawn 0
  case phone => exact hredrawn 1
  case cvv => exact always_renders_digits (hshort 3)
  case pin => exact always_renders_digits (hshort 4)
  case inn =>
    refine always_renders_digits (Gen.always_bind_any fun ds => ?_)
    split_ifs <;> exact Gen.always_pure (hshow _)
  case cardNumber =>
    by_cases hsep : '-' ∈ value ∨ ' ' ∈ value
    · exact hword (fun _ => if_pos hsep) rfl
    · obtain ⟨hdash, hspace⟩ := not_or.1 hsep
      simp only [surrogateCells, if_neg hsep]
      refine always_renders_digits (Gen.always_bind_any fun first =>
        Gen.always_bind_any fun rest => ?_)
      rw [if_neg hdash, if_neg hspace]
      exact Gen.always_pure (hshow _)
  all_goals exact hword (fun _ => rfl) rfl

end Drawn

/-! ### Documents with their surrogates -/

/-- The cells of an occurrence whose entity has a surrogate. -/
def TransformResult.occurrenceCells (u : Unicode) (R : TransformResult) (o : Occurrence) :
    List Cell :=
  match R.mappings.find? fun m => m.entityId = o.entityId with
  | none => []
  | some m => surrogateCells u m.type (m.originalNominal.getD []) o.masked

/-- The cells of the text from a cursor on, with the occurrences that follow. -/
def cellsFrom (cells : Occurrence → List Cell) (text : Text) : ℤ → List Occurrence → List Cell
  | cursor, [] => (PySeq.slice text cursor text.length).map .shown
  | cursor, o :: os => (PySeq.slice text cursor o.originalStart).map .shown ++ cells o ++
    cellsFrom cells text o.originalEnd os

/-- The cells of a document with its surrogates. -/
def TransformResult.cells (u : Unicode) (text : Text) (R : TransformResult) : List Cell :=
  cellsFrom (R.occurrenceCells u) text 0 R.occurrences

section Synthetic

variable {rt : Runtime} {text : Text} {decisions : List PrivacyDecision} {sessionSeed : Text}
  {R : TransformResult}

theorem renders_cellsFrom {u : Unicode} {cells : Occurrence → List Cell} (spans : List Span) :
    (cursor : ℕ) → (offset : ℤ) → (∀ o ∈ (spliceFrom text cursor offset spans).2,
      Renders (Cell.Reads u) (cells o) o.masked) →
        Renders (Cell.Reads u) (cellsFrom cells text cursor (spliceFrom text cursor offset spans).2)
          (spliceFrom text cursor offset spans).1 := by
  induction spans with
  | nil => exact fun cursor _ _ => renders_shown _
  | cons sp spans ih =>
    intro cursor offset h
    obtain ⟨hhead, htail⟩ := List.forall_mem_cons.1 h
    exact ((renders_shown _).append hhead).append (ih sp.stop _ htail)

/-- A replacement in synthetic mode is a token, or reads like the surrogates of its type. -/
theorem isToken_or_renders (hu : rt.unicode.ReadsText) {group : EntityGroup}
    {mapping built : EntityMapping} {used used' : List Text}
    (hbuilt : buildMapping rt group sessionSeed used text = .ok (built, used'))
    (hdown : mapping.IsDowngradeOf built) (hid : IsEntityId group.entityId)
    (d : PrivacyDecision) :
    IsToken (occurrenceReplacement rt .syntheticMode d mapping).1 ∨
      Renders (Cell.Reads rt.unicode) (surrogateCells rt.unicode group.type group.originalNominal
        (occurrenceReplacement rt .syntheticMode d mapping).1)
          (occurrenceReplacement rt .syntheticMode d mapping).1 := by
  obtain ⟨chosen, hchosen, -, htype, -, htoken, hsynthetic, -⟩ := buildMapping_eq_ok rt hbuilt
  obtain ⟨fallback, rfl⟩ := hdown
  have htoken' : IsToken built.token := ⟨group.entityId, hid, htoken⟩
  by_cases hname : group.type.isNameType = true
  · refine .inr ?_
    generalize (occurrenceReplacement rt .syntheticMode d _).1 = r
    cases hgroup : group.type <;> rw [hgroup] at hname <;>
      first | exact renders_shown r | cases hname
  have hname' : built.type.isNameType = false := by rw [htype]; simpa using hname
  have hreplaced : (occurrenceReplacement rt .syntheticMode d { built with metadata :=
      { built.metadata with syntheticFallback := fallback } }).1 = built.token ∨
        (occurrenceReplacement rt .syntheticMode d { built with metadata :=
          { built.metadata with syntheticFallback := fallback } }).1 = built.synthetic := by
    simp only [occurrenceReplacement, syntheticReplacement, hname']
    cases fallback with
    | true =>
      simp only [↓reduceIte]
      split_ifs <;> exact .inl rfl
    | false =>
      simp only [Bool.false_eq_true, ↓reduceIte]
      split_ifs
      · exact .inl rfl
      · exact .inr rfl
  rcases hreplaced with heq | heq <;> rw [heq]
  · exact .inl htoken'
  cases chosen with
  | none =>
    refine .inl ?_
    rw [hsynthetic]
    exact ⟨group.entityId, hid, rfl⟩
  | some drawn =>
    obtain ⟨haccept, seed, hdrawn⟩ := chooseSurrogate_eq_some rt hchosen
    obtain ⟨hname'', -⟩ | ⟨-, -, c, hrun⟩ := drawSurrogate_cases hdrawn
    · exact absurd hname'' hname
    · refine .inr ?_
      rw [hsynthetic]
      exact always_renders_surrogateCells hu _ _ _ hrun (acceptSurrogate_iff.1 haccept).1

/-- What the main loop keeps: the entries are the mappings built for the groups, perhaps downgraded,
and each span is replaced by a token or reads like the surrogates of its group. -/
private structure Placement.Shown (rt : Runtime) (text sessionSeed : Text)
    (groups : List EntityGroup) (st : Placement) : Prop where
  entries : ∀ e ∈ st.entries, e.1 ∈ groups ∧ ∃ built used used',
    buildMapping rt e.1 sessionSeed used text = .ok (built, used') ∧ e.2.IsDowngradeOf built
  spans : ∀ sp ∈ st.spans, ∃ g ∈ groups, sp.entityId = g.entityId ∧ (IsToken sp.replacement ∨
    Renders (Cell.Reads rt.unicode)
      (surrogateCells rt.unicode g.type g.originalNominal sp.replacement) sp.replacement)

private theorem placeDecision_shown (hu : rt.unicode.ReadsText) {groups : List EntityGroup}
    (hids : ∀ g ∈ groups, IsEntityId g.entityId) {st st' : Placement} {d : DecisionObject}
    (hst : st.Shown rt text sessionSeed groups)
    (h : placeDecision rt .syntheticMode st d = .ok st') :
    st'.Shown rt text sessionSeed groups := by
  obtain ⟨-, hentries, hspans⟩ | ⟨-, i, group, mapping, object, hfind, hentries, hspans⟩ :=
    placeDecision_eq_ok rt h
  · exact ⟨by rw [hentries]; exact hst.entries, by rw [hspans]; exact hst.spans⟩
  · obtain ⟨hgroup, built, used, used', hbuilt, hdown⟩ :=
      hst.entries _ (List.mem_of_getElem? (findEntry_eq_some hfind).1)
    refine ⟨fun e he => ?_, fun sp hsp => ?_⟩
    · rw [hentries] at he
      rcases List.mem_or_eq_of_mem_set he with he | rfl
      · exact hst.entries e he
      · exact ⟨hgroup, built, used, used', hbuilt,
          isDowngradeOf_occurrenceReplacement rt .syntheticMode object hdown⟩
    · rw [hspans] at hsp
      rcases List.mem_append.1 hsp with hsp | hsp
      · exact hst.spans sp hsp
      · rw [List.mem_singleton.1 hsp]
        exact ⟨group, hgroup, rfl, isToken_or_renders hu hbuilt hdown (hids group hgroup) object⟩

/-- The mapping of a group is found by its id. -/
theorem find_mapping (h : buildTransformResult rt text decisions .syntheticMode sessionSeed = .ok R)
    {g : EntityGroup} (hg : g ∈ groupPersonalDecisions rt.unicode (decisionObjects decisions)) :
    ∃ m, R.mappings.find? (fun m => m.entityId = g.entityId) = some m ∧ m.type = g.type ∧
      m.originalNominal = some g.originalNominal := by
  have hsource {m : EntityMapping} (hm : m ∈ R.mappings) :
      ∃ g' ∈ groupPersonalDecisions rt.unicode (decisionObjects decisions),
        m.entityId = g'.entityId ∧ m.type = g'.type ∧
          m.originalNominal = some g'.originalNominal := by
    obtain ⟨g', hg', built, used, used', hbuilt, fallback, rfl⟩ :=
      mapping_of_buildTransformResult rt h hm
    obtain ⟨chosen, -, hbuilt⟩ := Except.bind_eq_ok.1 hbuilt
    cases hbuilt
    exact ⟨g', hg', rfl, rfl, rfl⟩
  obtain ⟨entries, placed, hentries, hplaced, hmappings, -⟩ := buildTransformResult_eq_ok rt h
  -- some mapping was built for the group
  have hsome : ∃ m ∈ R.mappings, m.entityId = g.entityId := by
    obtain ⟨hgroups, hbuilt⟩ := buildMappings_eq_ok rt hentries
    obtain ⟨e, he, rfl⟩ := List.mem_map.1 (hgroups ▸ hg)
    obtain ⟨e', he', -, _, hdown⟩ :=
      PySeq.exists_of_forall₂ (foldlM_placeDecision_downgrades rt hplaced).flip he
    obtain ⟨used, used', hbuilt⟩ := hbuilt e he
    obtain ⟨chosen, -, hid, -⟩ := buildMapping_eq_ok rt hbuilt
    exact ⟨e'.2, hmappings ▸ List.mem_map_of_mem he', by rw [hdown]; exact hid⟩
  obtain ⟨m₀, hm₀, hid₀⟩ := hsome
  obtain ⟨m, hm⟩ : ∃ m, R.mappings.find? (fun m => m.entityId = g.entityId) = some m :=
    Option.isSome_iff_exists.1 (List.find?_isSome.2 ⟨m₀, hm₀, decide_eq_true hid₀⟩)
  have hid : m.entityId = g.entityId := by simpa using List.find?_some hm
  obtain ⟨g', hg', hid', htype, hnominal⟩ := hsource (List.mem_of_find?_eq_some hm)
  obtain rfl : g' = g := List.inj_on_of_nodup_map (nodup_entityId_groups _ _) hg' hg
    (hid'.symm.trans hid)
  exact ⟨m, hm, htype, hnominal⟩

/-- **What synthetic masking writes**, when no mention is left to its token. -/
theorem renders_cells (hu : rt.unicode.ReadsText)
    (h : buildTransformResult rt text decisions .syntheticMode sessionSeed = .ok R)
    (htokens : ∀ o ∈ R.occurrences, ¬IsToken o.masked) :
    Renders (Cell.Reads rt.unicode) (R.cells rt.unicode text) R.text := by
  obtain ⟨entries, placed, hentries, hplaced, hmappings, hR⟩ := buildTransformResult_eq_ok rt h
  have hshown : placed.Shown rt text sessionSeed
      (groupPersonalDecisions rt.unicode (decisionObjects decisions)) := by
    refine Except.foldlM_invariant (fun st d st' hst hstep =>
      placeDecision_shown hu isEntityId_of_mem_groups hst hstep) ⟨fun e he => ?_, ?_⟩ hplaced
    · obtain ⟨hgroups, hbuilt⟩ := buildMappings_eq_ok rt hentries
      obtain ⟨used, used', hbuilt⟩ := hbuilt e he
      exact ⟨hgroups ▸ List.mem_map_of_mem he, e.2, used, used', hbuilt, .refl e.2⟩
    · intro sp hsp
      cases hsp
  obtain ⟨htext, hoccurrences⟩ := Prod.mk.inj hR
  rw [TransformResult.cells, htext, hoccurrences]
  refine renders_cellsFrom _ 0 0 fun o ho => ?_
  have hrecords := spliceFrom_records text 0 0 (PySeq.sortedBy Span.start placed.spans)
  obtain ⟨sp, hsp, hrec⟩ := PySeq.exists_of_forall₂ hrecords ho
  obtain ⟨g, hg, hid, hreads⟩ := hshown.spans sp (PySeq.mem_sortedBy.1 hsp)
  obtain ⟨m, hm, htype, hnominal⟩ := find_mapping h hg
  have htoken : ¬IsToken o.masked := htokens o (hoccurrences ▸ ho)
  rw [TransformResult.occurrenceCells, hrec.entityId_eq, hid, hm]
  dsimp only
  rw [htype, hnominal, Option.getD_some, hrec.masked_eq]
  exact hreads.resolve_left (hrec.masked_eq ▸ htoken)

/-- The masked text holds what replaces its mentions. -/
theorem masked_infix_text {mode : MaskingMode}
    (h : buildTransformResult rt text decisions mode sessionSeed = .ok R) {o : Occurrence}
    (ho : o ∈ R.occurrences) : o.masked <:+: R.text := by
  obtain ⟨entries, placed, -, -, -, hR⟩ := buildTransformResult_eq_ok rt h
  obtain ⟨htext, hoccurrences⟩ := Prod.mk.inj hR
  have hrecords := spliceFrom_records text 0 0 (PySeq.sortedBy Span.start placed.spans)
  obtain ⟨sp, hsp, hrec⟩ := PySeq.exists_of_forall₂ hrecords (hoccurrences ▸ ho)
  rw [hrec.masked_eq, htext]
  exact replacement_infix_spliceFrom hsp

end Synthetic

/-! ### The modes -/

/-- Masking a text leaves a trace: always in token mode, in partial mode by what the masks show, and
in synthetic mode by a mention that is left to its token, or by what the surrogates show. -/
def TransformResult.MaskLeavesTrace (u : Unicode) (R : TransformResult) (mode : MaskingMode)
    (text : Text) (decisions : List PrivacyDecision) : Prop :=
  match mode with
  | .tokenMode => True
  | .partialMode => LeavesTrace u (partialCells u (valueSegments text decisions))
  | .syntheticMode => (∃ o ∈ R.occurrences, IsToken o.masked) ∨ LeavesTrace u (R.cells u text)

/-- **When a masked text has a trace.** -/
theorem hasTrace_iff (svc : ProcessService) (hu : svc.pipeline.runtime.unicode.ReadsText)
    (hupper : ∀ c, svc.pipeline.runtime.unicode.isAlpha c = true →
      Unmarked (svc.pipeline.runtime.unicode.upper [c])) {mode : MaskingMode} {text : Text}
    {decisions : List PrivacyDecision} {sessionSeed : Text} {R : TransformResult}
    (h : buildTransformResult svc.pipeline.runtime text decisions mode sessionSeed = .ok R)
    (hne : R.text ≠ text) :
    svc.hasTrace R.text = true ↔
      R.MaskLeavesTrace svc.pipeline.runtime.unicode mode text decisions := by
  have htoken {token : Text} (htoken : IsToken token) (hin : token <:+: R.text) :
      svc.hasTrace R.text = true := by
    rw [ProcessService.hasTrace, (Regex.search_iff isPlain_tokenPattern).2
      ⟨token, htoken.mem_lang, hin⟩, Bool.true_or]
  cases mode with
  | tokenMode =>
    obtain ⟨token, hT, hin⟩ := exists_token_infix svc.pipeline.runtime h hne
    exact iff_of_true (htoken hT hin) trivial
  | partialMode =>
    refine hasTrace_iff_of_renders svc hu ?_
    rw [text_eq_maskEach h]
    exact renders_partialCells hu hupper _
  | syntheticMode =>
    by_cases hleft : ∃ o ∈ R.occurrences, IsToken o.masked
    · obtain ⟨o, ho, hT⟩ := hleft
      exact iff_of_true (htoken hT (masked_infix_text h ho)) (.inl ⟨o, ho, hT⟩)
    · have hcells := renders_cells hu h fun o ho hT => hleft ⟨o, ho, hT⟩
      rw [hasTrace_iff_of_renders svc hu hcells]
      exact (or_iff_right hleft).symm

end PiiProxy
