import PiiProxy.GoService.Detect
import PiiProxy.Lib.Leftmost

/-!
# Which telephone numbers the Go service finds

The Go expressions have no look-around. `detectPhone` reads the text from left to right, takes a
number wherever one begins, goes on behind it, and drops the numbers that touch a further digit. A
number that it drops has used up its characters: when a single digit stands in front of a number, as
in "8 89161234567", the number that begins at that digit ends inside the other one, is dropped, and
the other one is not found any more. Such a number *runs into* the other one.

A number has eleven digits. So at a place at most one begins, one that begins inside another one
ends behind it, and of those that are read only two can touch another one: the one that runs into it
and the one that comes next. An international number has its plus at the beginning only, so none of
them runs into another one.

## Main definitions

* `GoService.IsPhone`, `GoService.IntlAt`: the Russian numbers of a text, and the international
  ones.
* `GoService.ReadPhone`: the numbers that a reader of the text takes.
* `GoService.ReadsInto`: a number that runs into a span touches no further digit, or the one that
  comes next does not.
* `GoService.IntlReaches`: an international number reaches into a span.
* `GoService.IsolatedPhone`: something else than the marks of a number separates a span from the
  digits before it.

## Main results

* `GoService.countsTo_rePhone`, `GoService.endsIn_rePhone`: a number has eleven digits and ends with
  one.
* `GoService.IsPhone.lt_stop`: a number that begins inside another one ends behind it.
* `GoService.phone_scanned`, `GoService.intl_scanned`: the matches of the expressions are the
  numbers that are read, and all international numbers.
* `GoService.phone_found_iff`: when a number is found.
-/

namespace PiiProxy.GoService

open Regex (concat oneOf opt plus star times CountsTo EndsIn)
open Pat (lit among)

/-! ### Spans of ASCII in a string -/

/-- A rune of ASCII is one byte. -/
theorem ascii_of_mem_runes {skip : ℕ} {s : GoString} {r : Char × GoString}
    (hr : r ∈ Utf8.runes skip s) (hascii : r.1.val < 0x80) : ∃ x : UInt8, x < 0x80 ∧ r.2 = [x] := by
  induction s generalizing skip with
  | nil => cases skip <;> cases hr
  | cons b s ih =>
    cases skip with
    | succ skip => exact ih hr
    | zero =>
      rw [Utf8.runes] at hr
      rcases List.mem_cons.1 hr with rfl | hr
      · cases hdecode : (b :: s).toByteArray.utf8DecodeChar? 0 with
        | none =>
          simp only [Utf8.decodeRune, hdecode] at hascii
          exact absurd hascii (by decide)
        | some c =>
          simp only [Utf8.decodeRune, hdecode] at hascii ⊢
          obtain ⟨t, ht⟩ := Utf8.decode_eq_some hdecode
          obtain ⟨-, hone⟩ | ⟨hlarge, -⟩ := Utf8.utf8EncodeChar_cases c
          · have hsize : c.utf8Size = 1 := by
              rw [← String.length_utf8EncodeChar, hone]
              rfl
            refine ⟨c.val.toUInt8, ?_, ?_⟩
            · rw [UInt8.lt_iff_toNat_lt, UInt32.toNat_toUInt8]
              rw [UInt32.lt_iff_toNat_lt] at hascii
              exact (Nat.mod_le _ _).trans_lt hascii
            · rw [hsize, ← ht, hone]
              rfl
          · exact absurd hascii hlarge
      · exact ih hr

/-- A string of ASCII in front of another one is read byte by byte. -/
theorem runes_ascii_append {b : GoString} (hb : ∀ x ∈ b, x < 0x80) (c : GoString) :
    runes (b ++ c) = runes b ++ runes c := by
  induction b with
  | nil => rfl
  | cons x b ih =>
    obtain ⟨hx, hb⟩ := List.forall_mem_cons.1 hb
    have hread (s : GoString) : runes (x :: s) = (Char.ofNat x.toNat, [x]) :: runes s := by
      rw [runes, Utf8.runes, decodeRune_of_ascii hx]
      rfl
    rw [List.cons_append, hread, hread, ih hb, List.cons_append]

/-- Around a span of ASCII a string is read in three parts. -/
theorem runes_of_ascii_span {text : GoString} {s e : ℕ} (hse : s < e) (he : e ≤ text.length)
    (hascii : ∀ x ∈ sub text s e, x < 0x80) :
    runes text = runes (text.take s) ++ (runes (sub text s e) ++ runes (text.drop e)) := by
  have hsplit : text = text.take s ++ (sub text s e ++ text.drop e) := by
    have htake : text.take e = text.take s ++ sub text s e := by
      rw [sub]
      conv_lhs => rw [← List.take_append_drop s (text.take e), List.take_take, min_eq_left hse.le]
    rw [← List.append_assoc, ← htake, List.take_append_drop]
  have hne : sub text s e ≠ [] := by
    refine List.ne_nil_of_length_pos ?_
    rw [sub, List.length_drop, List.length_take]
    omega
  obtain ⟨x, b, hb⟩ := List.exists_cons_of_ne_nil hne
  have hx : x < 0x80 := hascii x (hb ▸ List.mem_cons_self)
  have hparts : runes (text.take s ++ (sub text s e ++ text.drop e)) =
      runes (text.take s) ++ runes (sub text s e ++ text.drop e) := by
    rw [hb, List.cons_append]
    exact Utf8.runes_append_ascii hx _ _ 0 (Nat.zero_le _)
  rw [← runes_ascii_append hascii, ← hparts, ← hsplit]

/-! ### The shape of a number -/

/-- The digits of the expression. -/
def isDigit (c : Char) : Bool := '0' ≤ c && c ≤ '9'

/-- A match of `rePhone` has eleven digits. -/
theorem countsTo_rePhone : CountsTo isDigit rePhone 11 := by
  have hdigits (n : ℕ) : CountsTo isDigit (times n digit) n := by
    have h := @CountsTo.rep _ isDigit digit 1 n (some n)
      (Regex.countsTo_chr fun _ h => h) (.inr rfl)
    rwa [Nat.mul_one] at h
  have hseps (t : String) (ht : (t.toList.all fun c => !isDigit c) = true) (min : ℕ)
      (max : Option ℕ) : CountsTo isDigit (.rep (among t) min max) 0 := by
    refine CountsTo.rep (Regex.countsTo_chr_zero fun c hc => ?_) (.inl rfl)
    have h := List.all_eq_true.1 ht c (List.contains_iff_mem.1 hc)
    rwa [Bool.not_eq_true'] at h
  have hlit (t : String) : CountsTo isDigit (lit t) (t.toList.countP isDigit) :=
    Regex.countsTo_literal isDigit t.toList
  have hparts := Regex.countsTo_concat (.cons (CountsTo.alt (hlit "+7") (hlit "8"))
    (.cons (hseps "\t\n\x0c\r -(" (by decide) 0 (some 2))
    (.cons (hdigits 3) (.cons (hseps "\t\n\x0c\r -)" (by decide) 0 (some 2))
    (.cons (hdigits 3) (.cons (hseps "\t\n\x0c\r -" (by decide) 0 (some 1))
    (.cons (hdigits 2) (.cons (hseps "\t\n\x0c\r -" (by decide) 0 (some 1))
    (.cons (hdigits 2) .nil)))))))))
  exact hparts

/-- A match of `rePhone` ends with a digit. -/
theorem endsIn_rePhone : EndsIn isDigit rePhone := by
  have hlast : EndsIn isDigit (times 2 digit) := (Regex.endsIn_chr fun _ h => h).rep (by decide)
  exact Regex.endsIn_concat hlast [_, _, _, _, _, _, _, _]

/-- The characters of a number that are no digits. -/
def isPhoneMark (c : Char) : Bool := "\t\n\x0c\r -()+".toList.contains c

/-- A match of `rePhone` is made of digits and these marks. -/
theorem over_rePhone : Regex.Over (fun c => isPhoneMark c = true ∨ isDigit c = true) rePhone := by
  have hall {t : String} (ht : (t.toList.all fun c => isPhoneMark c || isDigit c) = true) :
      ∀ c ∈ t.toList, isPhoneMark c = true ∨ isDigit c = true :=
    fun c hc => Bool.or_eq_true_iff.1 (List.all_eq_true.1 ht c hc)
  have hamong (t : String) (ht : (t.toList.all fun c => isPhoneMark c || isDigit c) = true) :
      Regex.Over (fun c : Char => isPhoneMark c = true ∨ isDigit c = true) (among t) :=
    fun c hc => hall ht c (List.contains_iff_mem.1 hc)
  have hlit (t : String) (ht : (t.toList.all fun c => isPhoneMark c || isDigit c) = true) :
      Regex.Over (fun c : Char => isPhoneMark c = true ∨ isDigit c = true) (lit t) :=
    Regex.over_literal (hall ht)
  have hdigit : Regex.Over (fun c : Char => isPhoneMark c = true ∨ isDigit c = true) digit :=
    fun _ hc => .inr hc
  refine Regex.over_concat ?_
  simp only [List.forall_mem_cons]
  exact ⟨⟨hlit "+7" (by decide), hlit "8" (by decide)⟩, hamong "\t\n\x0c\r -(" (by decide), hdigit,
    hamong "\t\n\x0c\r -)" (by decide), hdigit, hamong "\t\n\x0c\r -" (by decide), hdigit,
    hamong "\t\n\x0c\r -" (by decide), hdigit, by simp⟩

/-- A digit is no mark. -/
theorem isPhoneMark_of_isDigit {c : Char} (hc : isDigit c = true) : isPhoneMark c = false := by
  by_contra hmark
  have hall : ("\t\n\x0c\r -()+".toList.all fun c => !isDigit c) = true := by decide
  have h := List.all_eq_true.1 hall c (List.contains_iff_mem.1 (Bool.not_eq_false _ ▸ hmark))
  rw [hc] at h
  cases h

/-- The characters of a number are ASCII. -/
theorem ascii_of_phone {c : Char} (hc : isPhoneMark c = true ∨ isDigit c = true) :
    c.val < 0x80 := by
  rcases hc with hc | hc
  · have hall : ("\t\n\x0c\r -()+".toList.all fun c => decide (c.val < 0x80)) = true := by decide
    exact of_decide_eq_true (List.all_eq_true.1 hall c (List.contains_iff_mem.1 hc))
  · rw [isDigit, Bool.and_eq_true, decide_eq_true_eq, decide_eq_true_eq] at hc
    have hle : c.val.toNat ≤ '9'.val.toNat := hc.2
    exact UInt32.lt_iff_toNat_lt.2 (hle.trans_lt (by decide))

/-- A match of `rePhone` begins with "8" or "+7". -/
theorem starts_rePhone {t : List Char} (ht : t ∈ rePhone.Lang) :
    (∃ t', t = '8' :: t') ∨ ∃ t', t = '+' :: '7' :: t' := by
  obtain ⟨t₁, h₁, t₂, -, rfl⟩ := ht
  rcases h₁ with ⟨_, ⟨a, ha, rfl⟩, _, ⟨_, ⟨b, hb, rfl⟩, _, rfl, rfl⟩, rfl⟩ |
    ⟨_, ⟨a, ha, rfl⟩, _, rfl, rfl⟩
  · rw [eq_of_beq ha, eq_of_beq hb]
    exact .inr ⟨t₂, rfl⟩
  · rw [eq_of_beq ha]
    exact .inl ⟨t₂, rfl⟩

/-- `rePhone` has no groups and no look-around. -/
theorem isPlain_rePhone : rePhone.isPlain = true := by decide +kernel

/-- Behind its first character a match of `rePhone` has no plus. -/
theorem no_plus_rePhone {a : Char} {t : List Char} (ht : a :: t ∈ rePhone.Lang) : '+' ∉ t := by
  have hamong (u : String) (hu : (u.toList.all fun c => c != '+') = true) :
      Regex.Over (fun c : Char => c ≠ '+') (among u) :=
    fun c hc => bne_iff_ne.1 (List.all_eq_true.1 hu c (List.contains_iff_mem.1 hc))
  have hdigit : Regex.Over (fun c : Char => c ≠ '+') digit := by
    rintro c hc rfl
    exact absurd hc (by decide)
  obtain ⟨t₁, h₁, t₂, h₂, heq⟩ := ht
  have hrest : ∀ c ∈ t₂, c ≠ '+' := by
    refine Regex.forall_of_mem_lang (P := fun c : Char => c ≠ '+') (Regex.over_concat ?_) h₂
    simp only [List.forall_mem_cons]
    exact ⟨hamong "\t\n\x0c\r -(" (by decide), hdigit, hamong "\t\n\x0c\r -)" (by decide), hdigit,
      hamong "\t\n\x0c\r -" (by decide), hdigit, hamong "\t\n\x0c\r -" (by decide), hdigit, by simp⟩
  intro hmem
  rcases h₁ with ⟨_, ⟨a', ha, rfl⟩, _, ⟨_, ⟨b, hb, rfl⟩, _, rfl, rfl⟩, rfl⟩ |
    ⟨_, ⟨a', ha, rfl⟩, _, rfl, rfl⟩
  · have htail : b :: t₂ = t := (List.cons.inj heq).2.symm
    rw [← htail, eq_of_beq hb] at hmem
    rcases List.mem_cons.1 hmem with h | h
    · exact absurd h (by decide)
    · exact hrest _ h rfl
  · have htail : t₂ = t := (List.cons.inj heq).2.symm
    exact hrest _ (htail ▸ hmem) rfl

/-- Two pieces of a string that stand next to each other. -/
theorem sub_append_sub {s : GoString} {i k j : ℕ} (hik : i ≤ k) (hkj : k ≤ j) :
    sub s i k ++ sub s k j = sub s i j := by
  have htake : (sub s i j).take (k - i) = sub s i k := by
    rw [sub, sub, List.take_drop, Nat.add_sub_cancel' hik, List.take_take, min_eq_left hkj]
  have hdrop : (sub s i j).drop (k - i) = sub s k j := by
    rw [sub, sub, List.drop_drop, Nat.add_sub_cancel' hik]
  rw [← htake, ← hdrop, List.take_append_drop]

/-! ### The numbers of a text -/

/-- The bytes from `i` to `j` are a Russian number. -/
def IsPhone (text : GoString) (i j : ℕ) : Prop :=
  j ≤ text.length ∧ chars (sub text i j) ∈ rePhone.Lang

/-- A reader who takes a number wherever one begins, and goes on behind it, takes this one. -/
def ReadPhone (text : GoString) : ℕ → ℕ → Prop := Leftmost.Taken (IsPhone text)

/-- From `i` to `j` stands an international number, the one that the expression prefers at `i`. -/
def IntlAt (text : GoString) (i j : ℕ) : Prop :=
  ∃ before after c, chars text = before ++ after ∧ offset (runes text) before.length = i ∧
    (reIntl.run (Regex.cursorAt (Regex.start (chars text)) before after)).head? = some c ∧
    offset (runes text) c.pos = j

/-- A number that is read runs into the span, and it touches no further digit, or the number that
comes next begins inside the span and touches none. -/
def ReadsInto (text : GoString) (s e : ℕ) : Prop :=
  ∃ i j, ReadPhone text i j ∧ i < s ∧ s < j ∧ (digitBounded text (i, j) = true ∨
    ∃ i' j', Leftmost.NextFrom (IsPhone text) j i' j' ∧ i' < e ∧ digitBounded text (i', j') = true)

/-- An international number that touches no further digit reaches into the span, and at its plus no
Russian number is found. -/
def IntlReaches (text : GoString) (s e : ℕ) : Prop :=
  ∃ i j, IntlAt text i j ∧ i < e ∧ s < j ∧ digitBounded text (i, j) = true ∧
    ∀ j', ReadPhone text i j' → digitBounded text (i, j') = false

/-- Before the span the first character that is no mark of a number is no digit. -/
def IsolatedPhone (text : GoString) (s : ℕ) : Prop :=
  ((chars (text.take s)).reverse.dropWhile isPhoneMark).head?.any isDigit = false

section Number

variable {text : GoString} {s e i j : ℕ}

/-- A number is not empty and is ASCII. -/
theorem IsPhone.ascii (h : IsPhone text s e) : s < e ∧ ∀ x ∈ sub text s e, x < 0x80 := by
  constructor
  · have hlen := Regex.minLen_le_of_mem_lang h.2
    have hne : sub text s e ≠ [] := by
      intro hnil
      rw [hnil] at hlen
      exact absurd hlen (by decide)
    have hpos := List.length_pos_of_ne_nil hne
    rw [sub, List.length_drop, List.length_take] at hpos
    omega
  · intro x hx
    rw [← bytesOf_runes (sub text s e)] at hx
    obtain ⟨r, hr, hx⟩ := List.mem_flatMap.1 hx
    have hval : r.1.val < 0x80 :=
      ascii_of_phone (Regex.forall_of_mem_lang over_rePhone h.2 r.1
        (List.mem_map.2 ⟨r, hr, rfl⟩))
    obtain ⟨y, hy, hbytes⟩ := ascii_of_mem_runes hr hval
    rw [hbytes, List.mem_singleton] at hx
    exact hx ▸ hy

theorem IsPhone.lt (h : IsPhone text s e) : s < e := h.ascii.1

/-- Around a number the runes of the text are those of three parts; `s` and `e` are the offsets
between them. -/
theorem IsPhone.chars_text (h : IsPhone text s e) :
    chars text = chars (text.take s) ++ (chars (sub text s e) ++ chars (text.drop e)) ∧
      offset (runes text) (chars (text.take s)).length = s ∧
      offset (runes text) ((chars (text.take s)).length + (chars (sub text s e)).length) = e := by
  obtain ⟨hse, hascii⟩ := h.ascii
  have he := h.1
  have hrunes := runes_of_ascii_span hse he hascii
  refine ⟨?_, ?_, ?_⟩
  · rw [chars, hrunes, List.map_append, List.map_append]
    rfl
  · rw [offset, hrunes, chars, List.length_map, List.take_left, bytesOf_runes, List.length_take]
    omega
  · rw [offset, hrunes, ← List.append_assoc, chars, chars, List.length_map, List.length_map,
      ← List.length_append, List.take_left, bytesOf, List.flatMap_append, List.length_append]
    change (bytesOf _).length + (bytesOf _).length = e
    rw [bytesOf_runes, bytesOf_runes, sub, List.length_drop, List.length_take, List.length_take]
    omega

/-- **At a place at most one number begins**: both have eleven digits and end with one. -/
theorem atMostOne_isPhone (text : GoString) : Leftmost.AtMostOne (IsPhone text) := by
  intro i j j' h h'
  obtain ⟨hchars, -, hstop⟩ := h.chars_text
  obtain ⟨hchars', -, hstop'⟩ := h'.chars_text
  have heq : chars (sub text i j) = chars (sub text i j') := by
    refine Regex.eq_of_prefix_of_countP ⟨_, List.append_cancel_left (hchars.symm.trans hchars')⟩
      ⟨_, rfl⟩ ?_ (endsIn_rePhone _ h.2) (endsIn_rePhone _ h'.2)
    rw [countsTo_rePhone _ h.2, countsTo_rePhone _ h'.2]
  rw [← hstop, heq, hstop']

/-- A piece of a string that is cut behind ASCII is read in two parts. -/
theorem chars_sub_append {k : ℕ} (hik : i ≤ k) (hkj : k ≤ j)
    (hascii : ∀ x ∈ sub text i k, x < 0x80) :
    chars (sub text i k) ++ chars (sub text k j) = chars (sub text i j) := by
  rw [chars, chars, ← List.map_append, ← runes_ascii_append hascii, sub_append_sub hik hkj]
  rfl

/-- A number is read in two parts. -/
theorem IsPhone.split (h : IsPhone text i j) {k : ℕ} (hik : i ≤ k) (hkj : k ≤ j) :
    chars (sub text i k) ++ chars (sub text k j) = chars (sub text i j) :=
  chars_sub_append hik hkj fun x hx =>
    h.ascii.2 x (sub_append_sub hik hkj ▸ List.mem_append_left _ hx)

/-- A piece of a text has characters. -/
theorem chars_sub_ne_nil (hij : i < j) (hj : j ≤ text.length) : chars (sub text i j) ≠ [] := by
  intro hnil
  have hbytes := bytesOf_runes (sub text i j)
  rw [List.map_eq_nil_iff.1 hnil] at hbytes
  have hlen := congrArg List.length hbytes
  rw [sub, List.length_drop, List.length_take] at hlen
  change 0 = _ at hlen
  omega

/-- Pieces of a text that begin at one place begin with one character, if one of them is ASCII. -/
theorem head?_chars_sub (hsi : s < i) (hsj : s < j) (hj : j ≤ text.length)
    (hascii : ∀ x ∈ sub text s j, x < 0x80) (hi : i ≤ text.length) :
    (chars (sub text s i)).head? = (chars (sub text s j)).head? := by
  have hcut {k l : ℕ} (hsk : s < k) (hkl : k ≤ l) (hk : k ≤ text.length)
      (hascii : ∀ x ∈ sub text s k, x < 0x80) :
      (chars (sub text s l)).head? = (chars (sub text s k)).head? := by
    obtain ⟨c, t, ht⟩ := List.exists_cons_of_ne_nil (chars_sub_ne_nil hsk hk)
    rw [← chars_sub_append hsk.le hkl hascii, ht]
    rfl
  rcases le_total i j with hij | hji
  · refine (hcut hsi hij hi fun x hx => hascii x ?_).symm
    exact sub_append_sub hsi.le hij ▸ List.mem_append_left _ hx
  · exact hcut hsj hji hj hascii

/-- A number that runs into another one has a digit before it. -/
theorem IsPhone.digit_before (h : IsPhone text i j) (hs : IsPhone text s e) (his : i < s)
    (hsj : s < j) : ∃ c ∈ chars (sub text i s), isDigit c = true := by
  have hmem := h.2
  rw [← h.split his.le hsj.le] at hmem
  obtain ⟨a, t, ht⟩ := List.exists_cons_of_ne_nil (chars_sub_ne_nil his (hsj.le.trans h.1))
  rw [ht, List.cons_append] at hmem
  rw [ht]
  rcases starts_rePhone hmem with ⟨t', ht'⟩ | ⟨t', ht'⟩
  · exact ⟨a, List.mem_cons_self, (List.cons.inj ht').1 ▸ by decide⟩
  · obtain ⟨-, htail⟩ := List.cons.inj ht'
    cases t with
    | cons b t =>
      exact ⟨b, List.mem_cons_of_mem _ List.mem_cons_self, (List.cons.inj htail).1 ▸ by decide⟩
    | nil =>
      -- a number begins with no "7"
      have hhead := head?_chars_sub hsj hs.lt hs.1 hs.ascii.2 h.1
      rw [List.nil_append] at htail
      rw [htail] at hhead
      rcases starts_rePhone hs.2 with ⟨u, hu⟩ | ⟨u, hu⟩
      · rw [hu] at hhead
        exact absurd (Option.some.inj hhead) (by decide)
      · rw [hu] at hhead
        exact absurd (Option.some.inj hhead) (by decide)

/-- A number that begins inside another one ends behind it. -/
theorem IsPhone.lt_stop (h : IsPhone text i j) (hs : IsPhone text s e) (his : i < s)
    (hsj : s < j) : j < e := by
  by_contra hle
  obtain ⟨c, hc, hdigit⟩ := h.digit_before hs his hsj
  have hpos : 0 < (chars (sub text i s)).countP isDigit := List.countP_pos_iff.2 ⟨c, hc, hdigit⟩
  have hcount := countsTo_rePhone _ h.2
  rw [← h.split his.le hsj.le, ← chars_sub_append hs.lt.le (Nat.not_lt.1 hle) hs.ascii.2,
    List.countP_append, List.countP_append, countsTo_rePhone _ hs.2] at hcount
  omega

/-- **A number that stands apart from other digits is not run into**: what runs into it has a digit
before it, and only marks of a number lie between. -/
theorem IsPhone.le_of_isolated (hs : IsPhone text s e) (hisolated : IsolatedPhone text s)
    (h : IsPhone text i j) (his : i < s) : j ≤ s := by
  by_contra hlt
  have hsj := Nat.not_le.1 hlt
  obtain ⟨c, hc, hdigit⟩ := h.digit_before hs his hsj
  have hover : ∀ c ∈ chars (sub text i s), isPhoneMark c = true ∨ isDigit c = true := fun c hc =>
    Regex.forall_of_mem_lang over_rePhone h.2 c
      (h.split his.le hsj.le ▸ List.mem_append_left _ hc)
  have hascii : ∀ x ∈ sub text i s, x < 0x80 := fun x hx =>
    h.ascii.2 x (sub_append_sub his.le hsj.le ▸ List.mem_append_left _ hx)
  have hbefore : chars (text.take s) = chars (text.take i) ++ chars (sub text i s) := by
    have hlen : s ≤ (text.take s).length := by
      rw [List.length_take, min_eq_left (hs.lt.le.trans hs.1)]
    have hrunes := runes_of_ascii_span his hlen (by rwa [sub, List.take_take, min_self])
    rw [List.take_take, min_eq_left his.le, sub, List.take_take, min_self, List.drop_take_self,
      ← sub] at hrunes
    rw [chars, hrunes, List.map_append, List.map_append]
    exact congrArg (_ ++ ·) (List.append_nil _)
  have hfirst := Regex.any_head_dropWhile (chars (text.take i)).reverse
    (fun c hc => hover c (List.mem_reverse.1 hc))
    ⟨c, List.mem_reverse.2 hc, isPhoneMark_of_isDigit hdigit⟩
  rw [← List.reverse_append, ← hbefore, hisolated] at hfirst
  cases hfirst

/-- **A number that begins with a plus is not run into**: behind its first character a number has
no plus. -/
theorem IsPhone.le_of_plus (hs : IsPhone text s e)
    (hplus : (chars (sub text s e)).head? = some '+') (h : IsPhone text i j) (his : i < s) :
    j ≤ s := by
  by_contra hlt
  have hsj := Nat.not_le.1 hlt
  have hmem := h.2
  rw [← h.split his.le hsj.le] at hmem
  obtain ⟨a, t, ht⟩ := List.exists_cons_of_ne_nil (chars_sub_ne_nil his (hsj.le.trans h.1))
  rw [ht] at hmem
  refine no_plus_rePhone hmem (List.mem_append_right _ (List.mem_of_mem_head? ?_))
  rw [head?_chars_sub hsj hs.lt hs.1 hs.ascii.2 h.1, hplus]
  rfl

/-! ### What the scan reports -/

/-- Runes of ASCII are those of their bytes. -/
theorem chars_bytesOf {rs : List (Char × GoString)}
    (h : ∀ r ∈ rs, ∃ x : UInt8, x < 0x80 ∧ r = (Char.ofNat x.toNat, [x])) :
    chars (bytesOf rs) = rs.map Prod.fst := by
  induction rs with
  | nil => rfl
  | cons r rs ih =>
    obtain ⟨⟨x, hx, rfl⟩, hrs⟩ := List.forall_mem_cons.1 h
    have hread : runes (bytesOf ((Char.ofNat x.toNat, [x]) :: rs)) =
        (Char.ofNat x.toNat, [x]) :: runes (bytesOf rs) := by
      change runes (x :: bytesOf rs) = _
      rw [runes, Utf8.runes, decodeRune_of_ascii hx]
      rfl
    rw [chars, hread, List.map_cons, List.map_cons, ← ih hrs]
    rfl

/-- A match of `rePhone` is a number. -/
theorem isPhone_of_mem {m : ℕ × ℕ} (hm : m ∈ findAllStringIndex rePhone text) :
    IsPhone text m.1 m.2 := by
  have hbounds := findAllStringIndex_bounds (by decide) hm
  refine ⟨hbounds.2, ?_⟩
  obtain ⟨m, hmatch, rfl⟩ := List.mem_map.1 hm
  obtain ⟨⟨-, hpiece⟩, hend, -⟩ := Regex.isPiece_of_mem_finditer hmatch
  have hmem := Regex.text_mem_lang isPlain_rePhone hmatch
  have htext : m.text = (((runes text).take m.stop).drop m.start).map Prod.fst := by
    rw [hpiece, ← hend, chars, List.map_drop, List.map_take]
  change chars (sub text (offset _ m.start) (offset _ m.stop)) ∈ rePhone.Lang
  rw [sub_offset (by omega), chars_bytesOf, ← htext]
  · exact hmem
  · intro r hr
    have hrunes : r ∈ runes text := List.mem_of_mem_take (List.mem_of_mem_drop hr)
    have hval : r.1.val < 0x80 := ascii_of_phone (Regex.forall_of_mem_lang over_rePhone hmem r.1
      (htext ▸ List.mem_map.2 ⟨r, hr, rfl⟩))
    obtain ⟨x, hx, hbytes⟩ := ascii_of_mem_runes hrunes hval
    exact ⟨x, hx, Prod.ext (eq_of_mem_runes hrunes hx (hbytes ▸ rfl)) hbytes⟩

/-- Wherever a number begins the scan reports a match. -/
theorem phone_covered (h : IsPhone text i j) :
    ∃ m ∈ findAllStringIndex rePhone text, m.1 ≤ i ∧ i < m.2 := by
  obtain ⟨hchars, hstart, -⟩ := h.chars_text
  have hlen : (runes text).length = (chars text).length := (List.length_map _).symm
  have hrun : rePhone.run (Regex.cursorAt (Regex.start (chars text)) (chars (text.take i))
      (chars (sub text i j) ++ chars (text.drop j))) ≠ [] :=
    List.ne_nil_of_mem (Regex.accepts_of_mem_lang isPlain_rePhone h.2 _ _ rfl)
  rw [hchars] at hrun
  obtain ⟨m, hm, hcovers⟩ := Regex.exists_covering (by decide) hrun
  rw [← hchars] at hm
  obtain ⟨⟨hle, -⟩, hend, hmin⟩ := Regex.isPiece_of_mem_finditer hm
  have hpos : 0 < rePhone.minLen := by decide
  refine ⟨_, List.mem_map.2 ⟨m, hm, rfl⟩, ?_, ?_⟩
  · rcases hcovers with hat | ⟨hbefore, hbehind⟩
    · rw [hat, hstart]
    · have h := offset_lt hbefore (by omega : _ ≤ (runes text).length)
      exact (hstart ▸ h).le
  · have hbehind : (chars (text.take i)).length < m.stop := by
      rcases hcovers with hat | ⟨-, hbehind⟩
      · omega
      · exact hbehind
    have h := offset_lt hbehind (by omega : _ ≤ (runes text).length)
    rwa [hstart] at h

/-- **The matches of the expression are the numbers that are read.** -/
theorem phone_scanned : (i, j) ∈ findAllStringIndex rePhone text ↔ ReadPhone text i j := by
  refine Leftmost.iff_taken (F := fun i j => (i, j) ∈ findAllStringIndex rePhone text)
    (atMostOne_isPhone text) isPhone_of_mem ?_ ?_
  · intro i j i' j' hm hm' hlt
    rcases PySeq.eq_or_rel_of_pairwise (findAllStringIndex_pairwise rePhone text) hm hm' with
      heq | hle | hle
    · exact absurd hlt (Prod.ext_iff.1 heq).1.not_gt
    · have := (isPhone_of_mem hm).lt
      simp only at hle this
      omega
    · exact hle
  · intro i j h
    obtain ⟨m, hm, hcovers⟩ := phone_covered h
    exact ⟨m.1, m.2, hm, hcovers⟩

/-- An international number has its plus at the beginning, and nowhere else. -/
theorem plus_reIntl {t : List Char} (ht : t ∈ reIntl.Lang) : ∃ t', t = '+' :: t' ∧ '+' ∉ t' := by
  have hdigit : Regex.Over (fun c : Char => c ≠ '+') digit := by
    rintro c hc rfl
    exact absurd hc (by decide)
  have hmark : Regex.Over (fun c : Char => c ≠ '+') (among "\t\n\x0c\r -") := by
    rintro c hc rfl
    exact absurd hc (by decide)
  obtain ⟨_, ⟨_, ⟨a, ha, rfl⟩, _, rfl, rfl⟩, t', ht', rfl⟩ := ht
  have hrest : ∀ c ∈ t', c ≠ '+' := by
    refine Regex.forall_of_mem_lang (P := fun c : Char => c ≠ '+') (Regex.over_concat ?_) ht'
    simp only [List.forall_mem_cons]
    refine ⟨hdigit, Regex.over_concat ?_, by simp⟩
    simp only [List.forall_mem_cons]
    exact ⟨hmark, hdigit, by simp⟩
  exact ⟨t', by rw [eq_of_beq ha]; rfl, fun hmem => hrest _ hmem rfl⟩

theorem isPlain_reIntl : reIntl.isPlain = true := by decide +kernel

/-- **The matches of the other expression are all international numbers**: none of them runs into
another one. -/
theorem intl_scanned : (i, j) ∈ findAllStringIndex reIntl text ↔ IntlAt text i j := by
  constructor
  · intro hm
    obtain ⟨m, hm, heq⟩ := List.mem_map.1 hm
    obtain ⟨before, after, c, hsplit, hstart, hhead, -, hstop, -⟩ :=
      Regex.head_run_of_mem_finditer hm
    rw [hstart, hstop, Prod.mk.injEq] at heq
    exact ⟨before, after, c, hsplit, heq.1, hhead, heq.2⟩
  · rintro ⟨before, after, c, hsplit, rfl, hhead, rfl⟩
    have hrun := List.mem_of_mem_head? hhead
    rw [hsplit] at hrun
    obtain ⟨m, hm, hcovers⟩ := Regex.exists_covering (by decide) (List.ne_nil_of_mem hrun)
    rw [← hsplit] at hm
    have hat : m.start = before.length := by
      refine hcovers.resolve_right ?_
      rintro ⟨hbefore, hbehind⟩
      -- the plus of the number stands inside of the match
      obtain ⟨t, ht, ⟨hrest, -⟩, -⟩ := (Regex.mem_run_iff isPlain_reIntl).1 hrun
      obtain ⟨t', rfl, -⟩ := plus_reIntl ht
      obtain ⟨u, hu, hno⟩ := plus_reIntl (Regex.text_mem_lang isPlain_reIntl hm)
      obtain ⟨⟨-, hpiece⟩, hend, -⟩ := Regex.isPiece_of_mem_finditer hm
      have htext : m.text = before.drop m.start ++ after.take (m.stop - before.length) := by
        rw [hpiece, ← hend, hsplit, List.take_append, List.take_of_length_le hbehind.le,
          List.drop_append_of_le_length hbefore.le]
      obtain ⟨a, v, hv⟩ := List.exists_cons_of_ne_nil
        (mt List.drop_eq_nil_iff.1 (Nat.not_le.2 hbefore))
      obtain ⟨k, hk⟩ := Nat.exists_eq_add_of_lt hbehind
      have hafter : after = '+' :: t' ++ c.rest := hrest
      rw [hu, hv, hk, Nat.add_assoc, Nat.add_sub_cancel_left, hafter] at htext
      refine hno ((List.cons.inj htext).2 ▸ List.mem_append_right _ ?_)
      exact List.mem_cons_self
    obtain ⟨before', after', c', hsplit', hstart', hhead', -, hstop', -⟩ :=
      Regex.head_run_of_mem_finditer hm
    obtain ⟨rfl, rfl⟩ := List.append_inj (hsplit.symm.trans hsplit') (hat.symm.trans hstart')
    obtain rfl := Option.some.inj (hhead.symm.trans hhead')
    exact List.mem_map.2 ⟨m, hm, by rw [hat, hstop']⟩

end Number

/-! ### When a number is found -/

/-- The candidates are the bounded matches of the two expressions. -/
theorem mem_detectPhone (text : GoString) (c : Candidate) :
    c ∈ detectPhone text ↔ ∃ m, c = candidateAt .phone text m ∧ digitBounded text m = true ∧
      (m ∈ findAllStringIndex rePhone text ∨ m ∈ findAllStringIndex reIntl text ∧
        ∀ m' ∈ findAllStringIndex rePhone text, digitBounded text m' = true → m'.1 ≠ m.1) := by
  have hseen (m : ℕ × ℕ) :
      (!(((findAllStringIndex rePhone text).filter (digitBounded text)).any fun r => r.1 == m.1)) =
          true ↔
        ∀ m' ∈ findAllStringIndex rePhone text, digitBounded text m' = true → m'.1 ≠ m.1 := by
    rw [Bool.not_eq_true', List.any_eq_false]
    simp only [List.mem_filter, beq_iff_eq, and_imp, ne_eq]
  rw [detectPhone, List.mem_append, matching, List.mem_map, List.mem_map]
  simp only [List.mem_filter, Bool.and_eq_true, hseen]
  constructor
  · rintro (⟨m, ⟨hm, hb⟩, rfl⟩ | ⟨m, ⟨hm, hno, hb⟩, rfl⟩)
    · exact ⟨m, rfl, hb, .inl hm⟩
    · exact ⟨m, rfl, hb, .inr ⟨hm, hno⟩⟩
  · rintro ⟨m, rfl, hb, hm | ⟨hm, hno⟩⟩
    · exact .inl ⟨m, ⟨hm, hb⟩, rfl⟩
    · exact .inr ⟨m, ⟨hm, hno, hb⟩, rfl⟩

section Found

variable {text : GoString} {s e i j : ℕ}

/-- A candidate covers a part of the span exactly when a number that touches no further digit is
read there, or an international number reaches into it. -/
theorem found_iff_read :
    (∃ c ∈ detectPhone text, c.start < e ∧ s < c.stop) ↔
      (∃ i j, ReadPhone text i j ∧ i < e ∧ s < j ∧ digitBounded text (i, j) = true) ∨
        IntlReaches text s e := by
  constructor
  · rintro ⟨c, hc, hstart, hstop⟩
    obtain ⟨⟨i, j⟩, rfl, hb, hm⟩ := (mem_detectPhone text c).1 hc
    have hie : i < e := Int.ofNat_lt.1 hstart
    have hsj : s < j := Int.ofNat_lt.1 hstop
    rcases hm with hm | ⟨hm, hno⟩
    · exact .inl ⟨i, j, phone_scanned.1 hm, hie, hsj, hb⟩
    · refine .inr ⟨i, j, intl_scanned.1 hm, hie, hsj, hb, fun j' hread => ?_⟩
      by_contra hbounded
      exact hno (i, j') (phone_scanned.2 hread) (Bool.not_eq_false _ ▸ hbounded) rfl
  · rintro (⟨i, j, hread, hie, hsj, hb⟩ | ⟨i, j, hintl, hie, hsj, hb, hno⟩)
    · exact ⟨_, (mem_detectPhone text _).2 ⟨(i, j), rfl, hb, .inl (phone_scanned.2 hread)⟩,
        Int.ofNat_lt.2 hie, Int.ofNat_lt.2 hsj⟩
    · refine ⟨_, (mem_detectPhone text _).2 ⟨(i, j), rfl, hb, .inr ⟨intl_scanned.2 hintl, ?_⟩⟩,
        Int.ofNat_lt.2 hie, Int.ofNat_lt.2 hsj⟩
      rintro ⟨i', j'⟩ hm' hb' rfl
      rw [hno j' (phone_scanned.1 hm')] at hb'
      cases hb'

/-- When no number that is read runs into a number, this one is read. -/
theorem IsPhone.read (h : IsPhone text s e)
    (hfree : ∀ i j, IsPhone text i j → i < s → j ≤ s) : ReadPhone text s e :=
  Leftmost.taken_iff.2 ⟨h, fun i hlt j hread => hfree i j hread.span hlt⟩

/-- When a number that is read runs into a number, the numbers that are read and touch this one are
the former and the one that comes next, if it begins inside. -/
theorem IsPhone.read_iff (h : IsPhone text s e) {i₀ j₀ : ℕ} (hread : ReadPhone text i₀ j₀)
    (hi₀ : i₀ < s) (hj₀ : s < j₀) :
    (ReadPhone text i j ∧ i < e ∧ s < j) ↔
      (i = i₀ ∧ j = j₀) ∨ Leftmost.NextFrom (IsPhone text) j₀ i j ∧ i < e := by
  have hone := atMostOne_isPhone text
  constructor
  · rintro ⟨hij, hie, hsj⟩
    rcases hij.eq_or_le hone hread with ⟨rfl, rfl⟩ | hbefore | hbehind
    · exact .inl ⟨rfl, rfl⟩
    · omega
    · refine .inr ⟨⟨hbehind, hij.span, fun k hk hki l hspan => ?_⟩, hie⟩
      -- the first number that begins in between is read, and it ends behind the number from `s`
      obtain ⟨i₁, j₁, hread₁, hle, hlt⟩ := Leftmost.exists_taken hspan.lt hspan
      have hi₁ : j₀ ≤ i₁ := by
        rcases hread₁.eq_or_le hone hread with ⟨rfl, rfl⟩ | hbefore | hbehind
        · omega
        · have := hread.span.lt
          omega
        · exact hbehind
      have hlonger := h.lt_stop hread₁.span (by omega) (by omega)
      have := hij.le_of_lt hread₁ (by omega)
      omega
  · rintro (⟨rfl, rfl⟩ | ⟨hnext, hie⟩)
    · exact ⟨hread, hi₀.trans h.lt, hj₀⟩
    · have hlt := hnext.2.1.lt
      have hle := hnext.1
      exact ⟨Leftmost.taken_of_nextFrom hone hread hread.span.lt hnext, hie, by omega⟩

/-- **When a number is found**: a candidate covers a part of a number that touches no further digits
exactly when the number is read or, when a number that is read runs into it, that number or the one
that comes next inside touches no further digit, or an international number reaches into it. A
number that stands apart from the digits before it is found, and so is a number with a plus. -/
theorem phone_found_iff (text : GoString) (s e : ℕ) (h : IsPhone text s e)
    (hbounded : digitBounded text (s, e) = true) :
    ((∃ c ∈ detectPhone text, c.start < e ∧ s < c.stop) ↔
      ReadPhone text s e ∨ ReadsInto text s e ∨ IntlReaches text s e) ∧
    (IsolatedPhone text s ∨ (chars (sub text s e)).head? = some '+' →
      ∃ c ∈ detectPhone text, c.start < e ∧ s < c.stop) := by
  have hread (hread : ReadPhone text s e) :
      ∃ i j, ReadPhone text i j ∧ i < e ∧ s < j ∧ digitBounded text (i, j) = true :=
    ⟨s, e, hread, h.lt, h.lt, hbounded⟩
  refine ⟨found_iff_read.trans ⟨?_, ?_⟩, fun happart => found_iff_read.2 (.inl (hread ?_))⟩
  · rintro (⟨i, j, hij, hie, hsj, hb⟩ | hintl)
    · by_cases hinto : ∃ i₀ j₀, ReadPhone text i₀ j₀ ∧ i₀ < s ∧ s < j₀
      · obtain ⟨i₀, j₀, hread₀, hi₀, hj₀⟩ := hinto
        refine .inr (.inl ⟨i₀, j₀, hread₀, hi₀, hj₀, ?_⟩)
        rcases (h.read_iff hread₀ hi₀ hj₀).1 ⟨hij, hie, hsj⟩ with ⟨rfl, rfl⟩ | ⟨hnext, -⟩
        · exact .inl hb
        · exact .inr ⟨i, j, hnext, hie, hb⟩
      · refine .inl (Leftmost.taken_iff.2 ⟨h, fun i₀ hlt j₀ h₀ => ?_⟩)
        by_contra hle
        exact hinto ⟨i₀, j₀, h₀, hlt, Nat.not_le.1 hle⟩
    · exact .inr (.inr hintl)
  · rintro (hself | ⟨i₀, j₀, hread₀, hi₀, hj₀, hb | ⟨i, j, hnext, hie, hb⟩⟩ | hintl)
    · exact .inl (hread hself)
    · exact .inl ⟨i₀, j₀, hread₀, hi₀.trans h.lt, hj₀, hb⟩
    · obtain ⟨hij, -, hsj⟩ := (h.read_iff hread₀ hi₀ hj₀).2 (.inr ⟨hnext, hie⟩)
      exact .inl ⟨i, j, hij, hie, hsj, hb⟩
    · exact .inr hintl
  · rcases happart with hisolated | hplus
    · exact h.read fun i j hij => h.le_of_isolated hisolated hij
    · exact h.read fun i j hij => h.le_of_plus hplus hij

end Found

/-- The case of a number behind a house number, both between words. -/
theorem phone_found_iff_apart :
    ∃ c ∈ detectPhone (str "8 a 89161234567"), c.start < 15 ∧ 4 < c.stop := by
  have hphone : IsPhone (str "8 a 89161234567") 4 15 :=
    ⟨by decide +kernel, (Regex.mem_lang_iff isPlain_rePhone _).2 (by decide +kernel)⟩
  have hisolated : IsolatedPhone (str "8 a 89161234567") 4 := by
    unfold IsolatedPhone
    decide +kernel
  exact (phone_found_iff _ 4 15 hphone (by decide +kernel)).2 (.inl hisolated)

/-- In front of the number stands a digit: the match "8 891612345" ends inside of it and touches a
digit. -/
theorem phone_lost_behind_digit :
    ¬∀ (text : GoString) (s e : ℕ), IsPhone text s e → digitBounded text (s, e) = true →
      ∃ c ∈ detectPhone text, c.start < e ∧ s < c.stop := by
  intro h
  obtain ⟨c, hc, -⟩ := h (str "8 89161234567") 2 13
    ⟨by decide +kernel, (Regex.mem_lang_iff isPlain_rePhone _).2 (by decide +kernel)⟩
    (by decide +kernel)
  have hnone : detectPhone (str "8 89161234567") = [] := by decide +kernel
  rw [hnone] at hc
  cases hc

end PiiProxy.GoService
