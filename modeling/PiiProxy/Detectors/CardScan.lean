import PiiProxy.Detectors.Documents
import PiiProxy.Lib.Leftmost

/-!
# Which card numbers are found

`CardDetector` reads the text from left to right. Where a number of thirteen to nineteen digits with
single separators begins it takes the longest one, goes on behind it, and tests the checksum of what
it has taken as a whole. When further digits stand next to a card over a separator, as the code
behind "4111 1111 1111 1111 123", the number that begins with the card is longer than the card; when
digits stand in front of it, the number that begins with them may run into the card. Then the card
is found only if the checksum of the number that is read instead of it happens to hold.

## Main definitions

* `IsNumber`, `IsCard`: the text of a span is such a number, and one with a valid checksum.
* `LongestNumber`, `ReadNumber`: the longest number at its beginning, and the numbers that a reader
  of the text takes.
* `ReadsFrom`, `ReadsInto`: the number that begins with the card has a valid checksum, or a number
  that runs into the card, or the one that comes next.
* `IsolatedCard`: something else than the marks of a card number separates it from other digits.

## Main results

* `card_scanned`: the matches of the pattern are the numbers that are read.
* `LongestNumber.covers`: a number that begins in a card is at least as long as the rest of it.
* `card_found_iff`: when a card is found.
-/

namespace PiiProxy

open Regex (concat opt)
open Pat

variable (u : Unicode)

/-- `\d(?:[ \-]?\d){12,18}`, what `_CARD_RE` matches between its look-arounds. -/
def cardShape : Regex Char :=
  concat [digit u, .rep (concat [opt (among " -"), digit u]) 12 (some 18)]

theorem isPlain_cardShape : (cardShape u).isPlain = true := of_decide_eq_true rfl

/-- The text between `i` and `j` is a number: thirteen to nineteen digits with at most one space or
hyphen between two of them, and no further digit next to them. -/
structure IsNumber (text : Text) (i j : ℕ) : Prop where
  stop_le : j ≤ text.length
  shape : PySeq.slice text i j ∈ (cardShape u).Lang
  before : (text.take i).getLast?.any u.isDecimal = false
  after : (text.drop j).head?.any u.isDecimal = false

/-- The checksum of the digits between `i` and `j`. -/
def checksumHolds (text : Text) (i j : ℕ) : Bool :=
  luhnValid u ((PySeq.slice text i j).filter fun c => c ≠ ' ' && c ≠ '-')

/-- The text between `s` and `e` is a card number. -/
structure IsCard (text : Text) (s e : ℕ) : Prop extends IsNumber u text s e where
  checksum : checksumHolds u text s e = true

/-- The longest number that begins at `i`. -/
def LongestNumber (text : Text) (i j : ℕ) : Prop :=
  IsNumber u text i j ∧ ∀ j', IsNumber u text i j' → j' ≤ j

/-- The numbers that a reader takes who goes through the text from left to right. -/
abbrev ReadNumber (text : Text) : ℕ → ℕ → Prop := Leftmost.Taken (LongestNumber u text)

/-- No number that is read runs into the card, and the longest number that begins with the card has
a valid checksum. -/
def ReadsFrom (text : Text) (s : ℕ) : Prop :=
  (∀ i j, ReadNumber u text i j → i < s → j ≤ s) ∧
    ∃ j, LongestNumber u text s j ∧ checksumHolds u text s j = true

/-- A number that is read runs into the card, and it has a valid checksum, or the number that comes
next begins inside the card and has one. -/
def ReadsInto (text : Text) (s e : ℕ) : Prop :=
  ∃ i j, ReadNumber u text i j ∧ i < s ∧ s < j ∧ (checksumHolds u text i j = true ∨
    ∃ i' j', Leftmost.NextFrom (LongestNumber u text) j i' j' ∧ i' < e ∧
      checksumHolds u text i' j' = true)

/-- The characters of a card number that are no digits. -/
def isCardMark (c : Char) : Bool := " -".toList.contains c

/-- On both sides of the span the first character that is no mark of a card number is no digit. -/
def IsolatedCard (text : Text) (s e : ℕ) : Prop :=
  ((text.take s).reverse.dropWhile isCardMark).head?.any u.isDecimal = false ∧
    ((text.drop e).dropWhile isCardMark).head?.any u.isDecimal = false

variable {u} {text : Text} {s e : ℕ}

/-! ### The shape of a card number -/

theorem over_cardShape : Regex.Over (fun c => isCardMark c = true ∨ u.isDecimal c = true)
    (cardShape u) := by
  have hdigit : Regex.Over (fun c => isCardMark c = true ∨ u.isDecimal c = true) (digit u) :=
    fun _ hc => .inr hc
  have hmark : Regex.Over (fun c => isCardMark c = true ∨ u.isDecimal c = true) (among " -") :=
    fun _ hc => .inl hc
  exact ⟨hdigit, ⟨hmark, hdigit, trivial⟩, trivial⟩

theorem endsIn_cardShape : Regex.EndsIn u.isDecimal (cardShape u) := by
  have hdigit : Regex.EndsIn u.isDecimal (digit u) := Regex.endsIn_chr fun _ h => h
  have hnext : Regex.EndsIn u.isDecimal (concat [opt (among " -"), digit u]) :=
    Regex.endsIn_concat hdigit [opt (among " -")]
  exact Regex.endsIn_concat (hnext.rep (by decide)) [digit u]

theorem starts_cardShape {t : Text} (ht : t ∈ (cardShape u).Lang) :
    ∃ a t', t = a :: t' ∧ u.isDecimal a = true := by
  obtain ⟨_, ⟨a, ha, rfl⟩, t₂, -, rfl⟩ := ht
  exact ⟨a, t₂, rfl, ha⟩

/-- A match of the pattern has the shape. -/
theorem text_mem_cardShape {m : Regex.Match Char} (hm : m ∈ (cardPattern u).finditer text) :
    m.text ∈ (cardShape u).Lang := by
  obtain ⟨before, after, c', -, -, hhead, hmoves, -⟩ := Regex.head_run_of_mem_finditer hm
  obtain ⟨c, hc, hrun⟩ := List.mem_flatMap.1 (List.mem_of_mem_head? hhead)
  obtain ⟨c₁, hc₁, hrun⟩ := List.mem_flatMap.1 hrun
  obtain ⟨c₂, hc₂, hrun⟩ := List.mem_flatMap.1 hrun
  obtain ⟨c₃, hc₃, hrun⟩ := List.mem_flatMap.1 hrun
  rw [Regex.eq_of_mem_run_test rfl hc] at hc₁
  rw [← Regex.eq_of_mem_run_test rfl hc₃] at hc₂
  rw [← List.mem_singleton.1 hrun] at hc₂
  have hshape : c' ∈ (cardShape u).run (Regex.cursorAt (Regex.start text) before after) :=
    List.mem_flatMap.2 ⟨c₁, hc₁, List.mem_flatMap.2 ⟨c', hc₂, List.mem_singleton_self c'⟩⟩
  obtain ⟨t, ht, hmoves', -⟩ := (Regex.mem_run_iff (isPlain_cardShape u)).1 hshape
  rwa [List.append_cancel_right (hmoves.1.symm.trans hmoves'.1)]

/-- Of the matches at a place the pattern prefers the longest one. -/
theorem longestFirst_cardPattern (hmark : ∀ c, isCardMark c = true → u.isDecimal c = false) :
    (cardPattern u).LongestFirst := by
  have hrep : (Regex.rep (concat [opt (among " -"), digit u]) 12 (some 18)).LongestFirst :=
    (Regex.single_opt_chr hmark).rep 12 (some 18)
  have hafter (c : Regex.Cursor Char) : ((concat [noDigitAfter u]).run c).Sublist [c] := by
    change (((noDigitAfter u).run c).flatMap fun c => [c]).Sublist [c]
    rw [List.flatMap_singleton']
    exact Regex.run_test_sublist rfl c
  have hdigits : (concat [digit u, .rep (concat [opt (among " -"), digit u]) 12 (some 18),
      noDigitAfter u]).LongestFirst := (Regex.single_chr u.isDecimal).seq (hrep.seq hafter)
  exact (Regex.single_test rfl).seq hdigits

/-- A digit, or a mark and a digit. -/
private def cardPiece (u : Unicode) : Regex Char := concat [opt (among " -"), digit u]

private theorem mem_cardPiece {p : Text} (hp : p ∈ (cardPiece u).Lang) :
    ∃ a, u.isDecimal a = true ∧ (p = [a] ∨ ∃ m, isCardMark m = true ∧ p = [m, a]) := by
  obtain ⟨_, ⟨ts, hts, -, hmax, rfl⟩, _, ⟨_, ⟨a, ha, rfl⟩, _, rfl, rfl⟩, rfl⟩ := hp
  refine ⟨a, ha, ?_⟩
  match ts, hts, hmax 1 rfl with
  | [], _, _ => exact .inl rfl
  | [t], hts, _ =>
    obtain ⟨m, hm, rfl⟩ := hts t (List.mem_singleton_self t)
    exact .inr ⟨m, hm, rfl⟩
  | _ :: _ :: _, _, hmax => simp at hmax

/-- The rest of a row of digits from one of its digits on is a digit with the rest of the row. -/
private theorem row_suffix (hmark : ∀ c, isCardMark c = true → u.isDecimal c = false)
    {ts : List Text} (hts : ∀ p ∈ ts, p ∈ (cardPiece u).Lang) {d : Char} {x y : Text}
    (hsplit : d :: ts.flatten = x ++ y) (hy : y.head?.any u.isDecimal = true) :
    ∃ a ts', y = a :: ts'.flatten ∧ ts' <:+ ts := by
  induction ts generalizing d x with
  | nil =>
    cases x with
    | nil => exact ⟨d, [], hsplit.symm, List.suffix_refl _⟩
    | cons b x =>
      obtain ⟨-, hrest⟩ := List.cons.inj hsplit
      rw [(List.append_eq_nil_iff.mp hrest.symm).2] at hy
      cases hy
  | cons p ts ih =>
    obtain ⟨hp, htail⟩ := List.forall_mem_cons.mp hts
    cases x with
    | nil => exact ⟨d, p :: ts, hsplit.symm, List.suffix_refl _⟩
    | cons b x =>
      obtain ⟨-, hrest⟩ := List.cons.inj hsplit
      rw [List.flatten_cons] at hrest
      obtain ⟨a, -, rfl | ⟨m, hm, rfl⟩⟩ := mem_cardPiece hp
      · obtain ⟨a', ts', hy', hsuffix⟩ := ih htail hrest
        exact ⟨a', ts', hy', hsuffix.trans (List.suffix_cons _ _)⟩
      · cases x with
        | nil =>
          -- the rest does not begin with a mark
          have hrest : [m, a] ++ ts.flatten = y := hrest
          rw [← hrest, List.cons_append, List.head?_cons, Option.any_some, hmark m hm] at hy
          cases hy
        | cons c x =>
          obtain ⟨-, hrest⟩ := List.cons.inj hrest
          obtain ⟨a', ts', hy', hsuffix⟩ := ih htail hrest
          exact ⟨a', ts', hy', hsuffix.trans (List.suffix_cons _ _)⟩

private theorem countP_row (hmark : ∀ c, isCardMark c = true → u.isDecimal c = false)
    {ts : List Text} (hts : ∀ p ∈ ts, p ∈ (cardPiece u).Lang) :
    ts.flatten.countP u.isDecimal = ts.length := by
  induction ts with
  | nil => rfl
  | cons p ts ih =>
    obtain ⟨hp, hts⟩ := List.forall_mem_cons.mp hts
    rw [List.flatten_cons, List.countP_append, ih hts, List.length_cons, Nat.add_comm]
    obtain ⟨a, ha, rfl | ⟨m, hm, rfl⟩⟩ := mem_cardPiece hp
    · rw [List.countP_singleton, ha]
      rfl
    · rw [List.countP_cons, List.countP_singleton, ha, hmark m hm]
      rfl

private theorem mem_cardShape_iff {t : Text} : t ∈ (cardShape u).Lang ↔
    ∃ (d : Char) (ts : List Text), u.isDecimal d = true ∧ (∀ p ∈ ts, p ∈ (cardPiece u).Lang) ∧
      12 ≤ ts.length ∧ ts.length ≤ 18 ∧ t = d :: ts.flatten := by
  constructor
  · rintro ⟨_, ⟨d, hd, rfl⟩, _, ⟨_, ⟨ts, hts, hmin, hmax, rfl⟩, _, rfl, rfl⟩, rfl⟩
    exact ⟨d, ts, hd, hts, hmin, hmax 18 rfl, by rw [List.append_nil]; rfl⟩
  · rintro ⟨d, ts, hd, hts, hmin, hmax, rfl⟩
    refine ⟨[d], ⟨d, hd, rfl⟩, ts.flatten, ⟨ts.flatten, ⟨ts, hts, hmin, ?_, rfl⟩, [], rfl, ?_⟩, rfl⟩
    · rintro _ ⟨⟩
      exact hmax
    · rw [List.append_nil]

/-- The shape has thirteen to nineteen digits. -/
theorem countP_cardShape (hmark : ∀ c, isCardMark c = true → u.isDecimal c = false) {t : Text}
    (ht : t ∈ (cardShape u).Lang) : t.countP u.isDecimal ∈ Set.Icc 13 19 := by
  obtain ⟨d, ts, hd, hts, hmin, hmax, rfl⟩ := mem_cardShape_iff.mp ht
  rw [List.countP_cons, countP_row hmark hts, hd, if_pos rfl]
  exact ⟨by omega, by omega⟩

/-- The rest of a number from one of its digits on is of the shape if it has thirteen digits. -/
theorem suffix_mem_cardShape (hmark : ∀ c, isCardMark c = true → u.isDecimal c = false)
    {x y : Text} (ht : x ++ y ∈ (cardShape u).Lang) (hy : y.head?.any u.isDecimal = true)
    (hcount : 13 ≤ y.countP u.isDecimal) : y ∈ (cardShape u).Lang := by
  obtain ⟨d, ts, -, hts, -, hmax, hsplit⟩ := mem_cardShape_iff.mp ht
  obtain ⟨a, ts', rfl, hsuffix⟩ := row_suffix hmark hts hsplit.symm hy
  have hts' (p : Text) (hp : p ∈ ts') : p ∈ (cardPiece u).Lang := hts p (hsuffix.subset hp)
  have ha : u.isDecimal a = true := hy
  rw [List.countP_cons, countP_row hmark hts', ha, if_pos rfl] at hcount
  have hle := hsuffix.length_le
  exact mem_cardShape_iff.mpr ⟨a, ts', ha, hts', by omega, by omega, rfl⟩

/-- The digits of a number are what is left without spaces and hyphens. -/
theorem length_digits (hmark : ∀ c, isCardMark c = true → u.isDecimal c = false) {t : Text}
    (ht : t ∈ (cardShape u).Lang) :
    (t.filter fun c => c ≠ ' ' && c ≠ '-').length ∈ Set.Icc 13 19 := by
  have hcount : (t.filter fun c => c ≠ ' ' && c ≠ '-').length = t.countP u.isDecimal := by
    rw [← List.countP_eq_length_filter]
    refine List.countP_congr fun c hc => ?_
    have hmem : isCardMark c = true ↔ c = ' ' ∨ c = '-' := by
      simp [isCardMark]
    rcases Regex.forall_of_mem_lang over_cardShape ht c hc with hm | hd
    · rw [hmark c hm]
      simpa [or_iff_not_imp_left] using hmem.mp hm
    · have hno : ¬isCardMark c = true := fun hm => by
        rw [hmark c hm] at hd
        cases hd
      rw [hmem, not_or] at hno
      simp [hno.1, hno.2, hd]
  rw [hcount]
  exact countP_cardShape hmark ht

/-! ### The scan -/

theorem IsNumber.lt (h : IsNumber u text s e) : s < e := by
  have hlen := Regex.minLen_le_of_mem_lang h.shape
  rw [PySeq.length_slice_natCast text h.stop_le] at hlen
  have hmin : (cardShape u).minLen = 13 := of_decide_eq_true rfl
  omega

/-- The cursor in front of a number. -/
def cardStart (text : Text) (s : ℕ) : Regex.Cursor Char :=
  Regex.cursorAt (Regex.start text) (text.take s) (text.drop s)

/-- The pattern matches a number. -/
theorem IsNumber.run (h : IsNumber u text s e) :
    ∃ c ∈ (cardPattern u).run (cardStart text s), c.pos = e := by
  -- the digits match here, and the look-arounds hold
  have hdigits := Regex.accepts_of_mem_lang (isPlain_cardShape u) h.shape (cardStart text s)
    (text.drop e) (PySeq.slice_append_drop text h.lt.le).symm
  obtain ⟨c₁, hc₁, hc₂⟩ := List.mem_flatMap.1 hdigits
  obtain ⟨c₂, hc₂, hc₃⟩ := List.mem_flatMap.1 hc₂
  rw [← List.mem_singleton.1 hc₃] at hc₂
  have hbefore : cardStart text s ∈ (noDigitBefore u).run (cardStart text s) := by
    have hprev : (cardStart text s).prev.any u.isDecimal = false := by
      change ((text.take s).getLast?.or none).any u.isDecimal = false
      rw [Option.or_none]
      exact h.before
    rw [noDigitBefore, Regex.run, hprev]
    exact List.mem_singleton_self _
  have hafter (c : Regex.Cursor Char) (hc : c.rest = text.drop e) : c ∈ (noDigitAfter u).run c := by
    rw [noDigitAfter, Regex.run, hc, h.after]
    exact List.mem_singleton_self c
  refine ⟨_, List.mem_flatMap.2 ⟨_, hbefore,
    List.mem_flatMap.2 ⟨c₁, hc₁, List.mem_flatMap.2 ⟨_, hc₂,
    List.mem_flatMap.2 ⟨_, hafter _ rfl, List.mem_singleton_self _⟩⟩⟩⟩, ?_⟩
  have hlt := h.lt
  have hle := h.stop_le
  simp only [cardStart, Regex.cursorAt, Regex.start, PySeq.length_slice_natCast text h.stop_le,
    List.length_take]
  omega

/-- A match of the pattern is a number. -/
theorem isNumber_of_mem {m : Regex.Match Char} (hm : m ∈ (cardPattern u).finditer text) :
    IsNumber u text m.start m.stop := by
  obtain ⟨⟨hle, hpiece⟩, hend, -⟩ := Regex.isPiece_of_mem_finditer hm
  rw [← hend] at hle hpiece
  obtain ⟨before, after, c', hsplit, hstart, hhead, hmoves, hstop, -⟩ :=
    Regex.head_run_of_mem_finditer hm
  obtain ⟨c, hc, hrun⟩ := List.mem_flatMap.1 (List.mem_of_mem_head? hhead)
  obtain ⟨c₁, hc₁, hrun⟩ := List.mem_flatMap.1 hrun
  obtain ⟨c₂, hc₂, hrun⟩ := List.mem_flatMap.1 hrun
  obtain ⟨c₃, hc₃, hrun⟩ := List.mem_flatMap.1 hrun
  obtain rfl : c' = c₃ := List.mem_singleton.1 hrun
  obtain rfl : c' = c₂ := Regex.eq_of_mem_run_test rfl hc₃
  have hbefore : before = text.take m.start := by rw [hsplit, hstart, List.take_left]
  have hrest : c'.rest = text.drop m.stop := by
    have hafter : after = m.text ++ c'.rest := hmoves.1
    rw [hend, hsplit, hafter, hstart, ← List.drop_drop, List.drop_left, List.drop_left]
  refine ⟨hle, ?_, ?_, ?_⟩
  · rw [PySeq.slice_natCast, ← hpiece]
    exact text_mem_cardShape hm
  · by_contra hdigit
    have hprev : (Regex.cursorAt (Regex.start text) before after).prev.any u.isDecimal = true := by
      change (before.getLast?.or none).any u.isDecimal = true
      rw [Option.or_none, hbefore]
      exact Bool.not_eq_false _ ▸ hdigit
    rw [noDigitBefore, Regex.run, if_pos hprev] at hc
    cases hc
  · by_contra hdigit
    rw [← hrest, Bool.not_eq_false] at hdigit
    rw [noDigitAfter, Regex.run, if_pos hdigit] at hc₃
    cases hc₃

theorem atMostOne_longestNumber (u : Unicode) (text : Text) :
    Leftmost.AtMostOne (LongestNumber u text) :=
  fun _ _ _ h h' => le_antisymm (h'.2 _ h.1) (h.2 _ h'.1)

/-- **The matches of the pattern are the numbers that are read.** -/
theorem card_scanned (hmark : ∀ c, isCardMark c = true → u.isDecimal c = false) :
    (∃ m ∈ (cardPattern u).finditer text, m.start = s ∧ m.stop = e) ↔ ReadNumber u text s e := by
  have hpos : 0 < (cardPattern u).minLen := of_decide_eq_true rfl
  refine Regex.mem_finditer_iff_taken hpos (atMostOne_longestNumber u text) ?_ ?_
  · intro m hm
    refine ⟨isNumber_of_mem hm, fun j h => ?_⟩
    obtain ⟨before, after, c', hsplit, hstart, hhead, -, hstop, -⟩ :=
      Regex.head_run_of_mem_finditer hm
    obtain ⟨c, hc, rfl⟩ := h.run
    rw [hstop]
    refine (longestFirst_cardPattern hmark).pos_le hhead ?_
    have hbefore : before = text.take m.start := by rw [hsplit, hstart, List.take_left]
    have hafter : after = text.drop m.start := by rw [hsplit, hstart, List.drop_left]
    rw [hbefore, hafter]
    exact hc
  · intro i j h
    obtain ⟨c, hc, -⟩ := h.1.run
    exact ⟨h.1.lt.le.trans h.1.stop_le, List.ne_nil_of_mem hc⟩

/-- Where a number begins there is a longest one. -/
theorem IsNumber.exists_longest (h : IsNumber u text s e) :
    ∃ e', LongestNumber u text s e' ∧ e ≤ e' := by
  classical
  exact ⟨Nat.findGreatest (IsNumber u text s) text.length,
    ⟨Nat.findGreatest_spec h.stop_le h, fun j hj => Nat.le_findGreatest hj.stop_le hj⟩,
    Nat.le_findGreatest h.stop_le h⟩

/-- **A number that begins in a card is at least as long as the rest of it**: if it ended inside
the card, the whole rest would be a longer number. -/
theorem LongestNumber.covers (hmark : ∀ c, isCardMark c = true → u.isDecimal c = false)
    (h : IsNumber u text s e) {i j : ℕ} (hnumber : LongestNumber u text i j) (hsi : s ≤ i)
    (hie : i < e) : e ≤ j := by
  by_contra hlt
  have hij := hnumber.1.lt
  have hsplit := PySeq.slice_append_slice text hij.le (Nat.not_le.mp hlt).le
  have hshape := h.shape
  rw [← PySeq.slice_append_slice text hsi hie.le] at hshape
  refine hlt (hnumber.2 e ⟨h.stop_le, suffix_mem_cardShape hmark hshape ?_ ?_, hnumber.1.before,
    h.after⟩)
  · obtain ⟨a, t, ht, ha⟩ := starts_cardShape hnumber.1.shape
    rw [← hsplit, ht]
    exact ha
  · have hcount := (countP_cardShape hmark hnumber.1.shape).1
    rw [← hsplit, List.countP_append]
    exact hcount.trans (Nat.le_add_right _ _)

/-- A digit is no mark. -/
private theorem isCardMark_of_isDecimal (hmark : ∀ c, isCardMark c = true → u.isDecimal c = false)
    {c : Char} (hc : u.isDecimal c = true) : isCardMark c = false := by
  by_contra hm
  rw [hmark c (Bool.not_eq_false _ ▸ hm)] at hc
  cases hc

/-- **Nothing runs into a card that stands apart from the digits before it**: a number that does
begins with a digit, and it has only digits and marks between that and the card. -/
theorem not_runs_into (hmark : ∀ c, isCardMark c = true → u.isDecimal c = false)
    (hleft : ((text.take s).reverse.dropWhile isCardMark).head?.any u.isDecimal = false) {i j : ℕ}
    (hnumber : IsNumber u text i j) (his : i < s) : j ≤ s := by
  by_contra hlt
  have hsj := Nat.not_le.mp hlt
  have hsplit := PySeq.slice_append_slice text his.le hsj.le
  have hover := Regex.forall_of_mem_lang over_cardShape hnumber.shape
  rw [← hsplit] at hover
  have hpos : 0 < (PySeq.slice text i s).length := by
    rw [PySeq.length_slice_natCast text (hsj.le.trans hnumber.stop_le)]
    omega
  obtain ⟨b, t, hb⟩ := List.exists_cons_of_ne_nil (List.ne_nil_of_length_pos hpos)
  obtain ⟨a, t', ht', ha⟩ := starts_cardShape hnumber.shape
  have hab : b = a := by
    rw [← hsplit, hb] at ht'
    exact (List.cons.inj ht').1
  have hfirst := Regex.any_head_dropWhile (p := isCardMark) (q := u.isDecimal)
    (text.take i).reverse (t := (PySeq.slice text i s).reverse)
    (fun c hc => hover c (List.mem_append_left _ (List.mem_reverse.1 hc)))
    ⟨b, List.mem_reverse.2 (hb ▸ List.mem_cons_self), isCardMark_of_isDecimal hmark (hab ▸ ha)⟩
  rw [← List.reverse_append, PySeq.take_append_slice text his.le, hleft] at hfirst
  cases hfirst

/-- A card that stands apart from the digits behind it is the longest number that begins there. -/
theorem longest_of_isolated (hmark : ∀ c, isCardMark c = true → u.isDecimal c = false)
    (h : IsNumber u text s e)
    (hright : ((text.drop e).dropWhile isCardMark).head?.any u.isDecimal = false) :
    LongestNumber u text s e := by
  refine ⟨h, fun j hj => ?_⟩
  by_contra hlt
  have hej := Nat.not_le.mp hlt
  have hsplit := PySeq.slice_append_slice text h.lt.le hej.le
  have hover := Regex.forall_of_mem_lang over_cardShape hj.shape
  rw [← hsplit] at hover
  have hpos : 0 < (PySeq.slice text e j).length := by
    rw [PySeq.length_slice_natCast text hj.stop_le]
    omega
  -- the longer number ends with a digit
  obtain ⟨a, hlast, ha⟩ := endsIn_cardShape _ hj.shape
  rw [← hsplit, List.getLast?_append_of_ne_nil _ (List.ne_nil_of_length_pos hpos)] at hlast
  have hfirst := Regex.any_head_dropWhile (p := isCardMark) (q := u.isDecimal)
    (text.drop j) (t := PySeq.slice text e j)
    (fun c hc => hover c (List.mem_append_right _ hc))
    ⟨a, List.mem_of_getLast? hlast, isCardMark_of_isDecimal hmark ha⟩
  rw [PySeq.slice_append_drop text hej.le, hright] at hfirst
  cases hfirst

/-! ### When a card is found -/

/-- A candidate covers a part of the span exactly when a number with a valid checksum is read
there. -/
private theorem found_iff_read (hmark : ∀ c, isCardMark c = true → u.isDecimal c = false) :
    ∃ cs, (cardDetector u).detect text = .ok cs ∧
      ((∃ c ∈ cs, c.start < e ∧ s < c.stop) ↔
        ∃ i j, ReadNumber u text i j ∧ i < e ∧ s < j ∧ checksumHolds u text i j = true) := by
  have haccepts {m : Regex.Match Char} (hm : m ∈ (cardPattern u).finditer text) :
      (decide (13 ≤ (cardDigits m).length) && decide ((cardDigits m).length ≤ 19) &&
        luhnValid u (cardDigits m)) = checksumHolds u text m.start m.stop := by
    obtain ⟨⟨-, hpiece⟩, hend, -⟩ := Regex.isPiece_of_mem_finditer hm
    have htext : m.text = PySeq.slice text m.start m.stop := by
      rw [hpiece, ← hend, PySeq.slice_natCast]
    have hlength := length_digits hmark (text_mem_cardShape hm)
    rw [cardDigits, decide_eq_true hlength.1, decide_eq_true hlength.2, htext]
    rfl
  refine ⟨_, rfl, ?_, ?_⟩
  · rintro ⟨c, hc, hstart, hstop⟩
    obtain ⟨m, hm, rfl⟩ := List.mem_map.1 hc
    obtain ⟨hm, hpasses⟩ := List.mem_filter.1 hm
    exact ⟨m.start, m.stop, (card_scanned hmark).mp ⟨m, hm, rfl, rfl⟩, hstart, hstop,
      (haccepts hm).symm.trans hpasses⟩
  · rintro ⟨i, j, hread, hie, hsj, hpasses⟩
    obtain ⟨m, hm, rfl, rfl⟩ := (card_scanned hmark).mpr hread
    exact ⟨_, List.mem_map.2 ⟨m, List.mem_filter.2 ⟨hm, (haccepts hm).trans hpasses⟩, rfl⟩, hie,
      hsj⟩

/-- When nothing runs into a card, the longest number that begins with it is read, and no other
number that touches it. -/
private theorem read_iff_of_not_run_into (h : IsNumber u text s e)
    (hfree : ∀ i j, ReadNumber u text i j → i < s → j ≤ s) {i j : ℕ} :
    (ReadNumber u text i j ∧ i < e ∧ s < j) ↔ i = s ∧ LongestNumber u text s j := by
  obtain ⟨e', hlongest, hle⟩ := h.exists_longest
  have hread : ReadNumber u text s e' :=
    Leftmost.taken_iff.mpr ⟨hlongest, fun i₀ hlt j₀ h₀ => hfree i₀ j₀ h₀ hlt⟩
  constructor
  · rintro ⟨hij, hie, hsj⟩
    rcases hij.eq_or_le (atMostOne_longestNumber u text) hread with ⟨rfl, -⟩ | hbefore | hbehind
    · exact ⟨rfl, hij.span⟩
    · omega
    · omega
  · rintro ⟨rfl, hij⟩
    obtain rfl := atMostOne_longestNumber u text hij hlongest
    exact ⟨hread, h.lt, hij.1.lt⟩

/-- When a number that is read runs into a card, the numbers that are read and touch the card are
this one and the one that comes next, if it begins inside the card. -/
private theorem read_iff_of_run_into (hmark : ∀ c, isCardMark c = true → u.isDecimal c = false)
    (h : IsNumber u text s e) {i₀ j₀ : ℕ} (hread : ReadNumber u text i₀ j₀) (hi₀ : i₀ < s)
    (hj₀ : s < j₀) {i j : ℕ} :
    (ReadNumber u text i j ∧ i < e ∧ s < j) ↔
      (i = i₀ ∧ j = j₀) ∨ Leftmost.NextFrom (LongestNumber u text) j₀ i j ∧ i < e := by
  constructor
  · rintro ⟨hij, hie, hsj⟩
    rcases hij.eq_or_le (atMostOne_longestNumber u text) hread with ⟨rfl, rfl⟩ | hbefore | hbehind
    · exact .inl ⟨rfl, rfl⟩
    · omega
    · refine .inr ⟨⟨hbehind, hij.span, fun k hk hki j' hspan => ?_⟩, hie⟩
      -- a number that begins in between is covered by one that is read, and that reaches behind
      -- the card
      obtain ⟨i₁, j₁, hread₁, hle, hlt⟩ := Leftmost.exists_taken hspan.1.lt hspan
      have hi₁ : j₀ ≤ i₁ := by
        rcases hread₁.eq_or_le (atMostOne_longestNumber u text) hread with
          ⟨rfl, rfl⟩ | hbefore | hbehind
        · omega
        · have := hread.span.1.lt
          omega
        · exact hbehind
      have hcovers := hread₁.span.covers hmark h (by omega) (by omega)
      have := hij.le_of_lt hread₁ (by omega)
      omega
  · rintro (⟨rfl, rfl⟩ | ⟨hnext, hie⟩)
    · exact ⟨hread, hi₀.trans h.lt, hj₀⟩
    · have hlt := hnext.2.1.1.lt
      have hle := hnext.1
      have htaken := Leftmost.taken_of_nextFrom (atMostOne_longestNumber u text) hread
        hread.span.1.lt hnext
      exact ⟨htaken, hie, by omega⟩

/-- **When a card is found**: a candidate covers a part of a card number exactly when the number
that is read from its first character on has a valid checksum or, when a number that is read runs
into the card, that number or the one that comes next inside the card. A card that stands apart from
other digits is found. -/
theorem card_found_iff (u : Unicode) (hmark : ∀ c, isCardMark c = true → u.isDecimal c = false)
    (text : Text) (s e : ℕ) (h : IsCard u text s e) :
    ∃ cs, (cardDetector u).detect text = .ok cs ∧
      ((∃ c ∈ cs, c.start < e ∧ s < c.stop) ↔ ReadsFrom u text s ∨ ReadsInto u text s e) ∧
      (IsolatedCard u text s e → ∃ c ∈ cs, c.start < e ∧ s < c.stop) := by
  have hscan : ∃ cs, (cardDetector u).detect text = .ok cs ∧
      ((∃ c ∈ cs, c.start < e ∧ s < c.stop) ↔
        ∃ i j, ReadNumber u text i j ∧ i < e ∧ s < j ∧ checksumHolds u text i j = true) :=
    found_iff_read hmark
  obtain ⟨cs, hcs, hfound⟩ := hscan
  refine ⟨cs, hcs, hfound.trans ⟨?_, ?_⟩, fun hisolated => hfound.mpr ?_⟩
  · rintro ⟨i, j, hread, hie, hsj, hpasses⟩
    by_cases hinto : ∃ i₀ j₀, ReadNumber u text i₀ j₀ ∧ i₀ < s ∧ s < j₀
    · obtain ⟨i₀, j₀, hread₀, hi₀, hj₀⟩ := hinto
      refine .inr ⟨i₀, j₀, hread₀, hi₀, hj₀, ?_⟩
      rcases (read_iff_of_run_into hmark h.toIsNumber hread₀ hi₀ hj₀).mp ⟨hread, hie, hsj⟩ with
        ⟨rfl, rfl⟩ | ⟨hnext, -⟩
      · exact .inl hpasses
      · exact .inr ⟨i, j, hnext, hie, hpasses⟩
    · have hfree (i₀ j₀ : ℕ) (h₀ : ReadNumber u text i₀ j₀) (hlt : i₀ < s) : j₀ ≤ s := by
        by_contra hle
        exact hinto ⟨i₀, j₀, h₀, hlt, Nat.not_le.mp hle⟩
      obtain ⟨rfl, hlongest⟩ :=
        (read_iff_of_not_run_into h.toIsNumber hfree).mp ⟨hread, hie, hsj⟩
      exact .inl ⟨hfree, j, hlongest, hpasses⟩
  · rintro (⟨hfree, j, hlongest, hpasses⟩ | ⟨i₀, j₀, hread₀, hi₀, hj₀, hpasses | hnext⟩)
    · obtain ⟨hread, hie, hsj⟩ :=
        (read_iff_of_not_run_into h.toIsNumber hfree).mpr ⟨rfl, hlongest⟩
      exact ⟨s, j, hread, hie, hsj, hpasses⟩
    · exact ⟨i₀, j₀, hread₀, hi₀.trans h.lt, hj₀, hpasses⟩
    · obtain ⟨i, j, hnext, hie, hpasses⟩ := hnext
      obtain ⟨hread, -, hsj⟩ :=
        (read_iff_of_run_into hmark h.toIsNumber hread₀ hi₀ hj₀).mpr (.inr ⟨hnext, hie⟩)
      exact ⟨i, j, hread, hie, hsj, hpasses⟩
  · obtain ⟨hleft, hright⟩ := hisolated
    obtain ⟨hread, hie, hsj⟩ := (read_iff_of_not_run_into h.toIsNumber fun i j hij hlt =>
      not_runs_into hmark hleft hij.span.1 hlt).mpr
        ⟨rfl, longest_of_isolated hmark h.toIsNumber hright⟩
    exact ⟨s, e, hread, hie, hsj, h.checksum⟩

/-- The case of a card between an expiry date and a code. -/
theorem card_found_iff_apart :
    ∃ cs, (cardDetector basicUnicode).detect "12/27, 4111 1111 1111 1111, 123".toList = .ok cs ∧
      ∃ c ∈ cs, c.start < 26 ∧ 7 < c.stop := by
  have hcard : IsCard basicUnicode "12/27, 4111 1111 1111 1111, 123".toList 7 26 :=
    ⟨⟨by decide +kernel, (Regex.mem_lang_iff (isPlain_cardShape _) _).2 (by decide +kernel),
      by decide +kernel, by decide +kernel⟩, by decide +kernel⟩
  have hmark (c : Char) (hc : isCardMark c = true) : basicUnicode.isDecimal c = false := by
    have hall : (" -".toList.all fun c => !basicUnicode.isDecimal c) = true := by decide +kernel
    exact (Bool.not_eq_true' _).mp (List.all_eq_true.mp hall c (List.contains_iff_mem.mp hc))
  obtain ⟨cs, hcs, -, hfound⟩ := card_found_iff basicUnicode hmark _ 7 26 hcard
  exact ⟨cs, hcs, hfound ⟨by decide +kernel, by decide +kernel⟩⟩

/-- Behind the card stands a code: the number goes on over it, and its checksum fails. -/
theorem card_lost_before_code :
    ¬∀ (u : Unicode) (text : Text) (s e : ℕ), IsCard u text s e →
      ∃ cs, (cardDetector u).detect text = .ok cs ∧ ∃ c ∈ cs, c.start < e ∧ s < c.stop := by
  intro h
  obtain ⟨cs, hcs, c, hc, -⟩ := h basicUnicode "4111 1111 1111 1111 123".toList 0 19
    ⟨⟨by decide +kernel, (Regex.mem_lang_iff (isPlain_cardShape _) _).2 (by decide +kernel),
      by decide +kernel, by decide +kernel⟩, by decide +kernel⟩
  have hnone : (((cardPattern basicUnicode).finditer "4111 1111 1111 1111 123".toList).filter
      fun m => decide (13 ≤ (cardDigits m).length) && decide ((cardDigits m).length ≤ 19) &&
        luhnValid basicUnicode (cardDigits m)).isEmpty = true := by decide +kernel
  have hempty : ([] : List Candidate) = cs := by
    rw [← Except.ok.inj hcs]
    exact (List.map_eq_nil_iff.2 (List.isEmpty_iff.1 hnone)).symm
  rw [← hempty] at hc
  cases hc

end PiiProxy
