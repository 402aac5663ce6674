import PiiProxy.Context.Rules
import PiiProxy.GoService.Context

/-!
# Keywords in Go and in Python

Both services look for a keyword at the start of a word with a short tail. The Python service counts
characters and asks whether they are alphanumeric. The Go service counts bytes: every byte outside
ASCII is a word byte for it, and a tail has at most four of them. So a quote in front of the keyword
hides it from the Go service, and a tail of three Latin letters passes there.

## Main definitions

* `GoAccepts`: the test of one occurrence, read in characters as that of the Python service is.
* `Separated`, `MarkedOff`, `ending`, `endingBytes`: what stands before and behind an occurrence.
* `ShortEnding`, `LatinEnding`, `AmongMarks`: the occurrences that both services find, that only the
  Go service finds, and that only the Python service finds.
* `KeywordAlike`: the two services find the keyword, or both do not.

## Main results

* `GoService.keywordHit_encode_iff`: the loop over bytes is a search for an accepted occurrence.
* `accepts_cases`: which service accepts which occurrences.
* `keywordAlike_iff`: when the two services agree.
* `keywordAlike_of_russian`: they do on Russian endings between Russian words.
-/

namespace PiiProxy

/-! ### The test of one occurrence -/

/-- A word character of the Go service: its bytes are word bytes. -/
def isGoWordChar : Char → Bool := Utf8.isWordRune GoService.isWordByte

/-- The test of `keywordHit`, for an occurrence between `before` and `after`. -/
def GoAccepts (before : Option Char) (after : Text) : Prop :=
  before.any isGoWordChar = false ∧ (Utf8.encode (after.takeWhile isGoWordChar)).length ≤ 4

/-- The two services find the keyword, or both do not. -/
def KeywordAlike (u : Unicode) (window keyword : Text) : Prop :=
  GoService.keywordHit (Utf8.encode window) (Utf8.encode keyword) = keywordHit u window keyword

instance (u : Unicode) (window keyword : Text) : Decidable (KeywordAlike u window keyword) :=
  inferInstanceAs (Decidable (_ = _))

/-! ### The search in bytes -/

namespace GoService

/-- The test of the loop at the position `s`. -/
private def AcceptsAt (window keyword : GoString) (s : ℕ) : Prop :=
  keyword <+: window.drop s ∧ (s == 0 || !(window[s - 1]?).any isWordByte) = true ∧
    tailLength window (s + keyword.length) ≤ 4

/-- The loop ends within its fuel, and finds an accepted position if there is one. -/
private theorem keywordHitFrom_iff {window keyword : GoString} (hkeyword : keyword ≠ [])
    (fuel idx : ℕ)
    (hfuel : window.length < idx + fuel) :
    keywordHitFrom window keyword fuel idx = true ↔ ∃ s, idx ≤ s ∧ AcceptsAt window keyword s := by
  have hend {s : ℕ} (hs : keyword <+: window.drop s) : s < window.length := by
    by_contra hle
    rw [List.drop_of_length_le (Nat.le_of_not_lt hle)] at hs
    exact hkeyword (List.prefix_nil.1 hs)
  induction fuel generalizing idx with
  | zero =>
    refine iff_of_false Bool.false_ne_true ?_
    rintro ⟨s, hle, hs, -⟩
    have := hend hs
    omega
  | succ fuel ih =>
    rw [keywordHitFrom]
    cases hindex : Go.index keyword (window.drop idx) with
    | none =>
      refine iff_of_false Bool.false_ne_true ?_
      rintro ⟨s, hle, hs, -⟩
      have hlt := hend hs
      refine Go.index_eq_none hindex (s - idx) (by rw [List.length_drop]; omega) ?_
      rwa [List.drop_drop, Nat.add_sub_cancel' hle]
    | some p =>
      obtain ⟨t, v, hsplit, rfl, hno⟩ := Go.index_eq_some hindex
      have hfound : keyword <+: window.drop (idx + t.length) := by
        rw [← List.drop_drop, hsplit, List.drop_left]
        exact List.prefix_append _ _
      have hfirst (s : ℕ) (hle : idx ≤ s) (hs : keyword <+: window.drop s) :
        idx + t.length ≤ s := by
        by_contra hlt
        have hj : s - idx < t.length := by omega
        refine hno (s - idx) hj ?_
        rwa [← List.drop_append_of_le_length hj.le, ← hsplit, List.drop_drop,
          Nat.add_sub_cancel' hle]
      dsimp only
      split_ifs with htest
      · rw [Bool.and_eq_true, decide_eq_true_eq] at htest
        exact iff_of_true rfl ⟨idx + t.length, Nat.le_add_right _ _, hfound, htest⟩
      · refine (ih (idx + t.length + 1) (by omega)).trans ?_
        constructor
        · rintro ⟨s, hle, hs⟩
          exact ⟨s, by omega, hs⟩
        · rintro ⟨s, hle, hs⟩
          refine ⟨s, Nat.lt_of_le_of_ne (hfirst s hle hs.1) ?_, hs⟩
          rintro rfl
          rw [Bool.and_eq_true, decide_eq_true_eq] at htest
          exact htest hs.2

theorem isWordByte_of_le (b : UInt8) (hb : 0x80 ≤ b) : isWordByte b = true := by
  simp [isWordByte, hb]

/-- The test at the place of an occurrence, in characters. -/
private theorem acceptsAt_encode (pre keyword post : Text) :
    AcceptsAt (Utf8.encode (pre ++ (keyword ++ post))) (Utf8.encode keyword)
      (Utf8.encode pre).length ↔
      GoAccepts pre.getLast? post := by
  have hbefore : ((Utf8.encode pre).length == 0 || !((Utf8.encode (pre ++ (keyword ++ post)))[
      (Utf8.encode pre).length - 1]?).any isWordByte) = !pre.getLast?.any isGoWordChar := by
    by_cases hpre : pre = []
    · rw [hpre]
      rfl
    · have hne := Utf8.encode_ne_nil hpre
      have hpos := List.length_pos_of_ne_nil hne
      rw [beq_eq_false_iff_ne.2 hpos.ne', Bool.false_or, Utf8.encode_append,
        List.getElem?_append_left (Nat.sub_lt hpos Nat.one_pos), ← List.getLast?_eq_getElem?,
        Utf8.getLast_encode isWordByte_of_le hpre]
      rfl
  have htail : tailLength (Utf8.encode (pre ++ (keyword ++ post)))
      ((Utf8.encode pre).length + (Utf8.encode keyword).length) =
        min (Utf8.encode (post.takeWhile isGoWordChar)).length 5 := by
    rw [tailLength, Utf8.encode_append, Utf8.encode_append, ← List.drop_drop, List.drop_left,
      List.drop_left, Utf8.takeWhile_encode isWordByte_of_le]
    rfl
  have hbegins : Utf8.encode keyword <+:
      (Utf8.encode (pre ++ (keyword ++ post))).drop (Utf8.encode pre).length := by
    rw [Utf8.encode_append, List.drop_left, Utf8.encode_append]
    exact List.prefix_append _ _
  rw [AcceptsAt, hbefore, htail, GoAccepts, Bool.not_eq_true']
  refine (and_iff_right hbegins).trans (and_congr_right fun _ => ?_)
  omega

/-- **The loop over bytes is a search for an accepted occurrence.** -/
theorem keywordHit_encode_iff {keyword : Text} (hkeyword : keyword ≠ []) (window : Text) :
    keywordHit (Utf8.encode window) (Utf8.encode keyword) = true ↔
      ∃ pre post, window = pre ++ (keyword ++ post) ∧ GoAccepts pre.getLast? post := by
  rw [keywordHit, keywordHitFrom_iff (Utf8.encode_ne_nil hkeyword) _ 0 (by omega)]
  constructor
  · rintro ⟨s, -, hs⟩
    obtain ⟨pre, post, rfl, rfl⟩ := (Utf8.encode_prefix_drop_iff hkeyword).1 hs.1
    exact ⟨pre, post, rfl, (acceptsAt_encode pre keyword post).1 hs⟩
  · rintro ⟨pre, post, rfl, haccepts⟩
    exact ⟨_, Nat.zero_le _, (acceptsAt_encode pre keyword post).2 haccepts⟩

end GoService

/-! ### When the services agree -/

/-- A character of ASCII that is a letter, a digit, `-` or `_`. -/
def isAsciiWordChar (c : Char) : Bool :=
  decide (c.val < 0x80) && (c.isAlphanum || c == '-' || c == '_')

/-- What `str.isalnum` says about the characters of ASCII. -/
def Unicode.ReadsAscii (u : Unicode) : Prop :=
  ∀ c : Char, c.val < 0x80 → u.isAlnum c = c.isAlphanum

/-- Nothing is in front of the occurrence, or a blank, punctuation or a control character of
ASCII. -/
def Separated (before : Option Char) : Prop :=
  ∀ c ∈ before, c.val < 0x80 ∧ isAsciiWordChar c = false

/-- A character outside ASCII is in front of the occurrence that is no letter and no digit: a
quotation mark, a dash, a numero sign. -/
def MarkedOff (u : Unicode) (before : Option Char) : Prop :=
  ∃ c ∈ before, ¬c.val < 0x80 ∧ u.isAlnum c = false

/-- The letters, digits, `-` and `_` behind an occurrence. -/
def ending (u : Unicode) (after : Text) : Text :=
  after.takeWhile fun c => isAsciiWordChar c || !decide (c.val < 0x80) && u.isAlnum c

/-- The bytes of the ending and of the characters outside ASCII that follow it, whatever they are,
up to the next blank, punctuation or control character of ASCII. -/
def endingBytes (after : Text) : ℕ :=
  (Utf8.encode (after.takeWhile fun c => isAsciiWordChar c || !decide (c.val < 0x80))).length

/-- An occurrence that both services find. -/
structure ShortEnding (u : Unicode) (before : Option Char) (after : Text) : Prop where
  separated : Separated before
  length : (ending u after).length ≤ 2
  bytes : endingBytes after ≤ 4

/-- An occurrence with an ending of at least three characters in at most four bytes, at most one of
them outside ASCII. -/
structure LatinEnding (u : Unicode) (before : Option Char) (after : Text) : Prop where
  separated : Separated before
  length : 3 ≤ (ending u after).length
  bytes : endingBytes after ≤ 4

/-- An occurrence with an ending of at most two characters, next to characters outside ASCII: behind
a mark, or before so many letters or marks that they take five bytes. -/
structure AmongMarks (u : Unicode) (before : Option Char) (after : Text) : Prop where
  length : (ending u after).length ≤ 2
  marks : MarkedOff u before ∨ Separated before ∧ 5 ≤ endingBytes after

/-- What holds of the characters with the numbers below 128 holds of every character of ASCII. -/
private theorem ascii_cases {P : Char → Prop} (h : ∀ n : Fin 128, P (Char.ofNat n)) {c : Char}
    (hc : c.val < 0x80) : P c := by
  have hlt : c.toNat < 128 := UInt32.lt_iff_toNat_lt.mp hc
  rw [← Char.ofNat_toNat c]
  exact h ⟨c.toNat, hlt⟩

/-- The tables of the Russian alphabet have the letters and digits of ASCII. -/
theorem basicUnicode_readsAscii : basicUnicode.ReadsAscii := fun c hc =>
  ascii_cases (P := fun c => basicUnicode.isAlnum c = c.isAlphanum) (by decide +kernel) hc

section

variable {u : Unicode} {before : Option Char} {after : Text}

private theorem isGoWordChar_eq (c : Char) :
    isGoWordChar c = (isAsciiWordChar c || !decide (c.val < 0x80)) := by
  by_cases hc : c.val < 0x80
  · refine ascii_cases (P := fun c => isGoWordChar c =
      (isAsciiWordChar c || !decide (c.val < 0x80))) ?_ hc
    decide +kernel
  · rw [isGoWordChar, Utf8.isWordRune, if_neg hc, decide_eq_false hc, Bool.not_false, Bool.or_true]

private theorem isWordChar_eq (hascii : u.ReadsAscii) (c : Char) :
    isWordChar u c = (isAsciiWordChar c || !decide (c.val < 0x80) && u.isAlnum c) := by
  by_cases hc : c.val < 0x80
  · rw [isWordChar, hascii c hc, isAsciiWordChar, decide_eq_true hc, Bool.true_and, Bool.not_true,
      Bool.false_and, Bool.or_false]
  · have hne (d : Char) (hd : d.val < 0x80) : (c == d) = false :=
      beq_eq_false_iff_ne.mpr fun h => hc (h ▸ hd)
    rw [isWordChar, isAsciiWordChar, decide_eq_false hc, hne '-' (by decide), hne '_' (by decide),
      Bool.false_and, Bool.false_or, Bool.not_false, Bool.true_and, Bool.or_false, Bool.or_false]

/-- The Go service accepts an occurrence that is separated, with at most four bytes behind it. -/
theorem goAccepts_iff : GoAccepts before after ↔ Separated before ∧ endingBytes after ≤ 4 := by
  have hbefore : before.any isGoWordChar = false ↔ Separated before := by
    cases before with
    | none => exact iff_of_true rfl fun c hc => by cases hc
    | some c =>
      simp only [Separated, Option.any_some, isGoWordChar_eq, Bool.or_eq_false_iff,
        Bool.not_eq_false', decide_eq_true_eq, Option.mem_def, Option.some.injEq, forall_eq']
      exact and_comm
  rw [GoAccepts, hbefore, endingBytes, show isGoWordChar = _ from funext isGoWordChar_eq]

/-- The Python service accepts an occurrence that is separated or behind a mark, with an ending of
at most two characters. -/
theorem pyAccepts_iff (hascii : u.ReadsAscii) :
    PyAccepts u before after ↔
      (Separated before ∨ MarkedOff u before) ∧ (ending u after).length ≤ 2 := by
  have hbefore : before.any (isWordChar u) = false ↔ Separated before ∨ MarkedOff u before := by
    cases before with
    | none => exact iff_of_true rfl (.inl fun c hc => by cases hc)
    | some c =>
      simp only [Separated, MarkedOff, Option.any_some, isWordChar_eq hascii, Option.mem_def,
        Option.some.injEq, forall_eq', exists_eq_left']
      by_cases hc : c.val < 0x80
      · simp [hc]
      · have hword : isAsciiWordChar c = false := by
          rw [isAsciiWordChar, decide_eq_false hc, Bool.false_and]
        simp [hc, hword]
  rw [PyAccepts, hbefore, ending, show isWordChar u = _ from funext (isWordChar_eq hascii)]

/-- The three kinds of occurrences that some service accepts. -/
theorem accepts_cases (hascii : u.ReadsAscii) (before : Option Char) (after : Text) :
    (ShortEnding u before after ↔ GoAccepts before after ∧ PyAccepts u before after) ∧
      (LatinEnding u before after ↔ GoAccepts before after ∧ ¬PyAccepts u before after) ∧
      (AmongMarks u before after ↔ ¬GoAccepts before after ∧ PyAccepts u before after) := by
  have hmark : MarkedOff u before → ¬Separated before := by
    rintro ⟨c, hc, hmark, -⟩ hsep
    exact hmark (hsep c hc).1
  rw [goAccepts_iff, pyAccepts_iff hascii]
  refine ⟨⟨fun h => ?_, fun h => ?_⟩, ⟨fun h => ?_, fun h => ?_⟩, ⟨fun h => ?_, fun h => ?_⟩⟩
  · exact ⟨⟨h.separated, h.bytes⟩, .inl h.separated, h.length⟩
  · exact ⟨h.1.1, h.2.2, h.1.2⟩
  · exact ⟨⟨h.separated, h.bytes⟩, fun hpy => absurd hpy.2 (Nat.not_le.mpr h.length)⟩
  · exact ⟨h.1.1, Nat.not_le.mp fun hle => h.2 ⟨.inl h.1.1, hle⟩, h.1.2⟩
  · rcases h.marks with hmarked | ⟨hsep, hbytes⟩
    · exact ⟨fun hgo => hmark hmarked hgo.1, .inr hmarked, h.length⟩
    · exact ⟨fun hgo => absurd hgo.2 (Nat.not_le.mpr hbytes), .inl hsep, h.length⟩
  · obtain ⟨hgo, hsep | hmarked, hlength⟩ := h
    · exact ⟨hlength, .inr ⟨hsep, Nat.not_le.mp fun hle => hgo ⟨hsep, hle⟩⟩⟩
    · exact ⟨hlength, .inl hmarked⟩

/-- The services agree when no occurrence has a Latin ending and none is among marks. -/
private theorem keywordAlike_of_not (hascii : u.ReadsAscii) {keyword : Text}
    (hkeyword : keyword ≠ []) {window : Text}
    (hlatin : ¬∃ pre post, window = pre ++ (keyword ++ post) ∧ LatinEnding u pre.getLast? post)
    (hmarks : ¬∃ pre post, window = pre ++ (keyword ++ post) ∧ AmongMarks u pre.getLast? post) :
    KeywordAlike u window keyword := by
  rw [KeywordAlike, Bool.eq_iff_iff, GoService.keywordHit_encode_iff hkeyword,
    keywordHit_iff u hkeyword]
  refine exists₂_congr fun pre post => and_congr_right fun hsplit => ?_
  obtain ⟨-, hlatin_iff, hmarks_iff⟩ := accepts_cases hascii pre.getLast? post
  by_contra hne
  by_cases hgo : GoAccepts pre.getLast? post
  · exact hlatin ⟨pre, post, hsplit,
      hlatin_iff.mpr ⟨hgo, fun hpy => hne (iff_of_true hgo hpy)⟩⟩
  · exact hmarks ⟨pre, post, hsplit,
      hmarks_iff.mpr ⟨hgo, by_contra fun hpy => hne (iff_of_false hgo hpy)⟩⟩

end

/-- **When Go and Python agree on a keyword.** They do exactly when some occurrence has a short
ending, or no occurrence has a Latin ending and none is among marks, or there is one of each. -/
theorem keywordAlike_iff (u : Unicode) (hascii : u.ReadsAscii) {keyword : Text}
    (hkeyword : keyword ≠ []) (window : Text) :
    KeywordAlike u window keyword ↔
      (∃ pre post, window = pre ++ (keyword ++ post) ∧ ShortEnding u pre.getLast? post) ∨
      ((¬∃ pre post, window = pre ++ (keyword ++ post) ∧ LatinEnding u pre.getLast? post) ∧
        ¬∃ pre post, window = pre ++ (keyword ++ post) ∧ AmongMarks u pre.getLast? post) ∨
      ((∃ pre post, window = pre ++ (keyword ++ post) ∧ LatinEnding u pre.getLast? post) ∧
        ∃ pre post, window = pre ++ (keyword ++ post) ∧ AmongMarks u pre.getLast? post) := by
  have hcases (pre post : Text) := accepts_cases hascii pre.getLast? post
  constructor
  · rw [KeywordAlike, Bool.eq_iff_iff, GoService.keywordHit_encode_iff hkeyword,
      keywordHit_iff u hkeyword]
    simp only [(hcases _ _).1, (hcases _ _).2.1, (hcases _ _).2.2]
    intro halike
    by_cases hgo : ∃ pre post, window = pre ++ (keyword ++ post) ∧ GoAccepts pre.getLast? post
    · obtain ⟨pre', post', hsplit', hpy⟩ := halike.1 hgo
      obtain ⟨pre, post, hsplit, hgo⟩ := hgo
      by_cases hpy₁ : PyAccepts u pre.getLast? post
      · exact .inl ⟨pre, post, hsplit, hgo, hpy₁⟩
      · by_cases hgo' : GoAccepts pre'.getLast? post'
        · exact .inl ⟨pre', post', hsplit', hgo', hpy⟩
        · exact .inr (.inr ⟨⟨pre, post, hsplit, hgo, hpy₁⟩, pre', post', hsplit', hgo', hpy⟩)
    · refine .inr (.inl ⟨?_, ?_⟩)
      · rintro ⟨pre, post, hsplit, h, -⟩
        exact hgo ⟨pre, post, hsplit, h⟩
      · rintro ⟨pre, post, hsplit, -, h⟩
        exact hgo (halike.2 ⟨pre, post, hsplit, h⟩)
  · have htrue {pre post pre' post' : Text} (hsplit : window = pre ++ (keyword ++ post))
        (hgo : GoAccepts pre.getLast? post) (hsplit' : window = pre' ++ (keyword ++ post'))
        (hpy : PyAccepts u pre'.getLast? post') : KeywordAlike u window keyword := by
      rw [KeywordAlike, Bool.eq_iff_iff, GoService.keywordHit_encode_iff hkeyword,
        keywordHit_iff u hkeyword]
      exact iff_of_true ⟨pre, post, hsplit, hgo⟩ ⟨pre', post', hsplit', hpy⟩
    rintro (⟨pre, post, hsplit, hshort⟩ | ⟨hlatin, hmarks⟩ |
      ⟨⟨pre, post, hsplit, hlatin⟩, pre', post', hsplit', hmarks⟩)
    · obtain ⟨hgo, hpy⟩ := (hcases pre post).1.mp hshort
      exact htrue hsplit hgo hsplit hpy
    · exact keywordAlike_of_not hascii hkeyword hlatin hmarks
    · exact htrue hsplit ((hcases pre post).2.1.mp hlatin).1 hsplit'
        ((hcases pre' post').2.2.mp hmarks).2

private theorem takeWhile_congr {p q : Char → Bool} {s : Text} (h : ∀ c ∈ s, p c = q c) :
    s.takeWhile p = s.takeWhile q := by
  induction s with
  | nil => rfl
  | cons c s ih =>
    rw [List.takeWhile_cons, List.takeWhile_cons, h c List.mem_cons_self,
      ih fun d hd => h d (List.mem_cons_of_mem c hd)]

/-- The services agree in a text whose characters outside ASCII are letters of two bytes, on a
keyword whose endings there have no letter, digit, `-` or `_` of ASCII: the four bytes are two
letters. -/
theorem keywordAlike_of_russian (u : Unicode) (hascii : u.ReadsAscii) {keyword : Text}
    (hkeyword : keyword ≠ []) {window : Text}
    (hletters : ∀ c ∈ window, ¬c.val < 0x80 → u.isAlnum c = true ∧ c.utf8Size = 2)
    (hendings : ∀ pre post, window = pre ++ (keyword ++ post) →
      ∀ c ∈ ending u post, ¬c.val < 0x80) :
    KeywordAlike u window keyword := by
  have hbytes (pre post : Text) (hsplit : window = pre ++ (keyword ++ post)) :
      endingBytes post = 2 * (ending u post).length := by
    have hpost (c : Char) (hc : c ∈ post) : c ∈ window := by
      rw [hsplit]
      exact List.mem_append_right _ (List.mem_append_right _ hc)
    have hrun : post.takeWhile (fun c => isAsciiWordChar c || !decide (c.val < 0x80)) =
        ending u post := by
      refine takeWhile_congr fun c hc => ?_
      by_cases hascii : c.val < 0x80
      · rw [decide_eq_true hascii, Bool.not_true, Bool.false_and]
      · rw [(hletters c (hpost c hc) hascii).1, Bool.and_true]
    rw [endingBytes, hrun]
    refine Utf8.length_encode_of_size fun c hc => (hletters c (hpost c ?_) ?_).2
    · exact (List.takeWhile_sublist _).subset hc
    · exact hendings pre post hsplit c hc
  refine keywordAlike_of_not hascii hkeyword ?_ ?_
  · rintro ⟨pre, post, hsplit, -, hlength, hle⟩
    rw [hbytes pre post hsplit] at hle
    omega
  · rintro ⟨pre, post, hsplit, hlength, ⟨c, hc, hmark, halnum⟩ | ⟨-, hle⟩⟩
    · have hmem : c ∈ window := by
        rw [hsplit]
        exact List.mem_append_left _ (List.mem_of_getLast? hc)
      rw [(hletters c hmem hmark).1] at halnum
      cases halnum
    · rw [hbytes pre post hsplit] at hle
      omega

/-- The case of a keyword with an ending of one letter, between spaces. -/
theorem keywordAlike_iff_loan : KeywordAlike basicUnicode "о кредите,".toList "кредит".toList := by
  refine (keywordAlike_iff basicUnicode basicUnicode_readsAscii (by decide) _).2 (.inl
    ⟨"о ".toList, "е,".toList, by decide, ⟨?_, by decide +kernel, by decide +kernel⟩⟩)
  rintro c hc
  obtain rfl : ' ' = c := Option.some.inj hc
  decide

/-- A quotation mark in front of a public marker hides it from the Go service, and the Python
service does not take the Latin word "emailing" for a mention of an address. -/
theorem not_keywordAlike_quotes :
    "роман" ∈ GoService.publicMarkers ∧ "роман" ∈ publicMarkers ∧
      GoService.keywordHit (Utf8.encode "«роман»".toList) (Utf8.encode "роман".toList) = false ∧
      keywordHit basicUnicode "«роман»".toList "роман".toList = true ∧
      ¬KeywordAlike basicUnicode "«роман»".toList "роман".toList ∧
      "email" ∈ GoService.strongPII ∧ "email" ∈ strongRelatedPiiKeywords ∧
      ¬KeywordAlike basicUnicode "emailing".toList "email".toList := by
  decide +kernel

end PiiProxy
