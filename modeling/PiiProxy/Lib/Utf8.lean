import PiiProxy.Lib.WordBounded

/-!
# Texts as bytes

The encoding of a text in UTF-8 and the characters of a sequence of bytes, as a loop over the runes
of a string reads them: a byte that begins no character is read as U+FFFD.

No character begins with the encoding of another one, and no character begins inside the encoding of
one. So a text is found in the bytes of another text only where it is found in that text, and a scan
of the bytes is a scan of the text.

## Main definitions

* `Utf8.encode`, `Utf8.runes`.

## Main results

* `Utf8.encode_prefix_iff`, `Utf8.not_prefix_inside`: where an encoded text is found.
* `Utf8.runes_encode`: reading the bytes of a text gives its characters.
* `Utf8.scan_encode`: a word-bounded replacement in the bytes is one in the text.
-/

namespace Utf8

/-- The bytes of a text. -/
def encode (t : List Char) : List UInt8 := t.flatMap String.utf8EncodeChar

/-- The first character of a sequence of bytes and its width. -/
def decodeRune (s : List UInt8) : Char × ℕ :=
  match s.toByteArray.utf8DecodeChar? 0 with
  | some c => (c, c.utf8Size)
  | none => (Char.ofNat 0xFFFD, 1)

/-- The characters of a sequence of bytes, each with its bytes; the next `skip` bytes belong to the
character read last. -/
def runes : ℕ → List UInt8 → List (Char × List UInt8)
  | _, [] => []
  | skip + 1, _ :: s => runes skip s
  | 0, b :: s =>
    let r := decodeRune (b :: s)
    (r.1, (b :: s).take r.2) :: runes (r.2 - 1) s

@[simp] theorem encode_nil : encode [] = [] := rfl

theorem encode_cons (c : Char) (t : List Char) :
    encode (c :: t) = String.utf8EncodeChar c ++ encode t := rfl

theorem encode_append (t t' : List Char) : encode (t ++ t') = encode t ++ encode t' :=
  List.flatMap_append

theorem encode_ne_nil {t : List Char} (h : t ≠ []) : encode t ≠ [] := by
  obtain ⟨c, t, rfl⟩ := List.exists_cons_of_ne_nil h
  rw [encode_cons]
  exact List.append_ne_nil_of_left_ne_nil String.utf8EncodeChar_ne_nil _

/-- The bytes of a text whose characters all take `k` bytes. -/
theorem length_encode_of_size {k : ℕ} {t : List Char} (h : ∀ c ∈ t, c.utf8Size = k) :
    (encode t).length = k * t.length := by
  induction t with
  | nil => rfl
  | cons c t ih =>
    rw [encode_cons, List.length_append, String.length_utf8EncodeChar, h c List.mem_cons_self,
      ih fun d hd => h d (List.mem_cons_of_mem c hd), List.length_cons, Nat.mul_succ, Nat.add_comm]

/-- A text has at least as many bytes as characters. -/
theorem length_le_encode (t : List Char) : t.length ≤ (encode t).length := by
  induction t with
  | nil => exact le_rfl
  | cons c t ih =>
    rw [encode_cons, List.length_append, List.length_cons]
    have hpos : 0 < (String.utf8EncodeChar c).length := by
      rw [String.length_utf8EncodeChar]
      exact c.utf8Size_pos
    omega

/-! ### Where an encoded text is found -/

/-- The character that begins a sequence of bytes is unique. -/
theorem utf8EncodeChar_append_inj {c d : Char} {s t : List UInt8}
    (h : String.utf8EncodeChar c ++ s = String.utf8EncodeChar d ++ t) : c = d ∧ s = t := by
  have hdecode (e : Char) (u : List UInt8) :
      (String.utf8EncodeChar e ++ u).toByteArray.utf8DecodeChar? 0 = some e := by
    rw [List.toByteArray_append]
    exact ByteArray.utf8DecodeChar?_utf8EncodeChar_append
  have heq : c = d := Option.some.inj (by rw [← hdecode c s, h, hdecode])
  exact ⟨heq, List.append_cancel_left (heq ▸ h)⟩

/-- **An encoded text begins another one exactly when the text does.** -/
theorem encode_prefix_iff {n s : List Char} : encode n <+: encode s ↔ n <+: s := by
  refine ⟨fun h => ?_, fun ⟨t, ht⟩ => ⟨encode t, by rw [← ht, encode_append]⟩⟩
  induction n generalizing s with
  | nil => exact List.nil_prefix
  | cons c n ih =>
    obtain ⟨t, ht⟩ := h
    rw [encode_cons, List.append_assoc] at ht
    cases s with
    | nil =>
      exact absurd (List.append_eq_nil_iff.1 ht).1 String.utf8EncodeChar_ne_nil
    | cons d s =>
      obtain ⟨rfl, hrest⟩ := utf8EncodeChar_append_inj ht
      exact List.cons_prefix_cons.2 ⟨rfl, ih ⟨t, hrest⟩⟩

theorem encode_injective : Function.Injective encode := fun s t h => by
  have hst : s <+: t := encode_prefix_iff.1 (h ▸ List.prefix_rfl)
  have hts : t <+: s := encode_prefix_iff.1 (h ▸ List.prefix_rfl)
  exact hst.eq_of_length (le_antisymm hst.length_le hts.length_le)

/-- **No text begins inside a character.** -/
theorem not_prefix_inside {n : List Char} (hn : n ≠ []) {c : Char} {j : ℕ} (hj : 0 < j)
    (hlt : j < (String.utf8EncodeChar c).length) (s : List UInt8) :
    ¬encode n <+: (String.utf8EncodeChar c).drop j ++ s := by
  obtain ⟨d, n, rfl⟩ := List.exists_cons_of_ne_nil hn
  rintro ⟨t, ht⟩
  have hpos : 0 < (String.utf8EncodeChar d).length :=
    List.length_pos_of_ne_nil String.utf8EncodeChar_ne_nil
  have hfirst : (String.utf8EncodeChar d)[0].IsUTF8FirstByte :=
    UInt8.isUTF8FirstByte_getElem_zero_utf8EncodeChar
  have hinner : ¬((String.utf8EncodeChar c)[j]).IsUTF8FirstByte := by
    rw [UInt8.isUTF8FirstByte_getElem_utf8EncodeChar]
    exact hj.ne'
  -- Both are the first byte of the same sequence.
  have hhead := congrArg List.head? ht
  rw [encode_cons, List.append_assoc, List.head?_append_of_ne_nil _ String.utf8EncodeChar_ne_nil,
    List.drop_eq_getElem_cons hlt, List.cons_append, List.head?_cons,
    List.head?_eq_getElem?, List.getElem?_eq_getElem hpos] at hhead
  exact hinner (Option.some.inj hhead ▸ hfirst)

/-- **An encoded text is found in the bytes of another text only where the text is.** -/
theorem encode_prefix_drop_iff {n s : List Char} (hn : n ≠ []) {i : ℕ} :
    encode n <+: (encode s).drop i ↔
      ∃ t u, s = t ++ (n ++ u) ∧ i = (encode t).length := by
  constructor
  · intro h
    induction s generalizing i with
    | nil =>
      rw [encode_nil, List.drop_nil, List.prefix_nil] at h
      exact absurd h (encode_ne_nil hn)
    | cons c s ih =>
      by_cases hzero : i = 0
      · rw [hzero, List.drop_zero, encode_prefix_iff] at h
        obtain ⟨u, hu⟩ := h
        exact ⟨[], u, hu.symm, hzero⟩
      · rw [encode_cons, List.drop_append] at h
        by_cases hlt : i < (String.utf8EncodeChar c).length
        · rw [Nat.sub_eq_zero_of_le hlt.le, List.drop_zero] at h
          exact absurd h (not_prefix_inside hn (Nat.pos_of_ne_zero hzero) hlt _)
        · rw [List.drop_of_length_le (Nat.le_of_not_lt hlt), List.nil_append] at h
          obtain ⟨t, u, rfl, hi⟩ := ih h
          refine ⟨c :: t, u, rfl, ?_⟩
          rw [encode_cons, List.length_append]
          omega
  · rintro ⟨t, u, rfl, rfl⟩
    rw [encode_append, List.drop_left, encode_append]
    exact List.prefix_append _ _

theorem encode_infix_iff {n s : List Char} (hn : n ≠ []) : encode n <:+: encode s ↔ n <:+: s := by
  constructor
  · rintro ⟨t, u, h⟩
    have hbegins : encode n <+: (encode s).drop t.length := by
      rw [← h, List.append_assoc, List.drop_left]
      exact List.prefix_append _ _
    obtain ⟨t, u, rfl, -⟩ := (encode_prefix_drop_iff hn).1 hbegins
    exact ⟨t, u, List.append_assoc t n u⟩
  · rintro ⟨t, u, rfl⟩
    rw [encode_append, encode_append]
    exact List.infix_append _ _ _

/-! ### Word elements -/

private theorem le_or (x : UInt8) {y : UInt8} (hy : 0x80 ≤ y) : 0x80 ≤ x ||| y := by
  rw [UInt8.le_iff_toNat_le] at hy ⊢
  rw [UInt8.toNat_or]
  exact hy.trans Nat.right_le_or

/-- A character of ASCII is one byte, and every byte of another character is at least `0x80`. -/
theorem utf8EncodeChar_cases (c : Char) :
    (c.val < 0x80 ∧ String.utf8EncodeChar c = [c.val.toUInt8]) ∨
      (¬c.val < 0x80 ∧ ∀ b ∈ String.utf8EncodeChar c, 0x80 ≤ b) := by
  have hiff : c.val < 0x80 ↔ c.val ≤ 0x7f := by
    rw [UInt32.lt_iff_toNat_lt, UInt32.le_iff_toNat_le]
    exact Nat.lt_succ_iff
  rw [String.utf8EncodeChar_eq_utf8EncodeCharFast, String.utf8EncodeCharFast, hiff]
  by_cases hascii : c.val ≤ 0x7f
  · exact .inl ⟨hascii, if_pos hascii⟩
  · refine .inr ⟨hascii, ?_⟩
    simp only [if_neg hascii]
    split_ifs <;> simp only [List.mem_cons, List.not_mem_nil, or_false, forall_eq_or_imp,
      forall_eq] <;> refine ⟨?_, ?_⟩ <;> (try refine ⟨?_, ?_⟩) <;> (try refine ⟨?_, ?_⟩) <;>
      exact le_or _ (by decide)

/-- A character is a word element when its bytes are. -/
def isWordRune (isWord : UInt8 → Bool) (c : Char) : Bool :=
  if c.val < 0x80 then isWord c.val.toUInt8 else true

theorem isWord_of_mem {isWord : UInt8 → Bool} (hword : ∀ b, 0x80 ≤ b → isWord b = true) {c : Char}
    {b : UInt8} (hb : b ∈ String.utf8EncodeChar c) : isWord b = isWordRune isWord c := by
  obtain ⟨hascii, heq⟩ | ⟨hascii, hall⟩ := utf8EncodeChar_cases c
  · rw [heq, List.mem_singleton] at hb
    rw [isWordRune, if_pos hascii, hb]
  · rw [isWordRune, if_neg hascii, hword b (hall b hb)]

section

variable {isWord : UInt8 → Bool} (hword : ∀ b, 0x80 ≤ b → isWord b = true)
include hword

theorem head_encode (t : List Char) :
    (encode t).head?.any isWord = t.head?.any (isWordRune isWord) := by
  cases t with
  | nil => rfl
  | cons c t =>
    rw [encode_cons, List.head?_append_of_ne_nil _ String.utf8EncodeChar_ne_nil,
      List.head?_eq_some_head String.utf8EncodeChar_ne_nil]
    exact isWord_of_mem hword (List.head_mem _)

theorem getLast_utf8EncodeChar (c : Char) :
    (String.utf8EncodeChar c).getLast?.any isWord = isWordRune isWord c := by
  rw [List.getLast?_eq_some_getLast String.utf8EncodeChar_ne_nil]
  exact isWord_of_mem hword (List.getLast_mem _)

theorem getLast_encode {t : List Char} (ht : t ≠ []) :
    (encode t).getLast?.any isWord = t.getLast?.any (isWordRune isWord) := by
  obtain ⟨t, c, rfl⟩ := List.eq_nil_or_concat' t |>.resolve_left ht
  rw [encode_append, encode_cons, encode_nil, List.append_nil,
    List.getLast?_append_of_ne_nil _ String.utf8EncodeChar_ne_nil, List.getLast?_concat,
    getLast_utf8EncodeChar hword]
  rfl

/-- The word bytes that begin a text are the bytes of the word characters that do. -/
theorem takeWhile_encode (t : List Char) :
    (encode t).takeWhile isWord = encode (t.takeWhile (isWordRune isWord)) := by
  induction t with
  | nil => rfl
  | cons c t ih =>
    rw [encode_cons, List.takeWhile_append]
    cases hc : isWordRune isWord c with
    | true =>
      have hall : (String.utf8EncodeChar c).takeWhile isWord = String.utf8EncodeChar c :=
        List.takeWhile_eq_self_iff.2 fun b hb => (isWord_of_mem hword hb).trans hc
      rw [hall, if_pos rfl, ih, List.takeWhile_cons_of_pos hc, encode_cons]
    | false =>
      obtain ⟨b, bs, hbs⟩ := List.exists_cons_of_ne_nil (String.utf8EncodeChar_ne_nil (c := c))
      have hb : isWord b = false :=
        (isWord_of_mem hword (hbs ▸ List.mem_cons_self)).trans hc
      have hnone : (String.utf8EncodeChar c).takeWhile isWord = [] := by
        rw [hbs, List.takeWhile_cons_of_neg (by rw [hb]; exact Bool.false_ne_true)]
      have hne : ([] : List UInt8).length ≠ (String.utf8EncodeChar c).length := by
        rw [hbs]
        exact (Nat.succ_ne_zero _).symm
      rw [hnone, if_neg hne, List.takeWhile_cons_of_neg (by rw [hc]; exact Bool.false_ne_true),
        encode_nil]

/-- The bytes of a needle stand free where the needle does. -/
theorem takes_encode {needle s : List Char} {before : Option Char} {before' : Option UInt8}
    (hbefore : before'.any isWord = before.any (isWordRune isWord)) :
    WordBounded.takes isWord (encode needle) before' (encode s) =
      WordBounded.takes (isWordRune isWord) needle before s := by
  rw [Bool.eq_iff_iff, WordBounded.takes_iff, WordBounded.takes_iff, encode_prefix_iff, hbefore]
  refine and_congr_right fun ⟨t, ht⟩ => and_congr_right fun _ => ?_
  rw [← ht, encode_append, List.drop_left, List.drop_left, head_encode hword]

/-- **A scan of the bytes is a scan of the text.** -/
theorem scan_encode {needle : List Char} (hneedle : needle ≠ []) (replacement s : List Char)
    (before : Option Char) (before' : Option UInt8)
    (hbefore : before'.any isWord = before.any (isWordRune isWord)) :
    WordBounded.scan isWord (encode needle) (encode replacement) before' 0 (encode s) =
      encode (WordBounded.scan (isWordRune isWord) needle replacement before 0 s) := by
  induction h : s.length using Nat.strong_induction_on generalizing s before before' with
  | _ n ih =>
    subst h
    cases s with
    | nil => rfl
    | cons c s =>
      by_cases htakes : WordBounded.takes (isWordRune isWord) needle before (c :: s) = true
      · obtain ⟨t, ht⟩ := (WordBounded.takes_iff.1 htakes).1
        have hbytes := (takes_encode hword hbefore).trans htakes
        have hlt : t.length < (c :: s).length := by
          rw [← ht, List.length_append]
          exact Nat.lt_add_of_pos_left (List.length_pos_of_ne_nil hneedle)
        rw [← ht] at htakes hbytes ⊢
        rw [encode_append] at hbytes ⊢
        rw [WordBounded.scan_needle (encode_ne_nil hneedle) hbytes,
          WordBounded.scan_needle hneedle htakes, encode_append,
          ih t.length (ht ▸ hlt) t _ _ (getLast_encode hword hneedle) rfl]
      · have hbytes : ¬WordBounded.takes isWord (encode needle) before' (encode (c :: s)) = true :=
          fun h => htakes ((takes_encode hword hbefore).symm.trans h)
        -- Behind its first byte, the needle begins nowhere in the character.
        obtain ⟨b, bs, hbs⟩ := List.exists_cons_of_ne_nil (String.utf8EncodeChar_ne_nil (c := c))
        have hinside : ∀ j < bs.length, ¬encode needle <+: bs.drop j ++ encode s := by
          intro j hj
          have := not_prefix_inside hneedle (c := c) (j := j + 1) (Nat.succ_pos j)
            (by rw [hbs]; simpa using hj) (encode s)
          rwa [hbs, List.drop_succ_cons] at this
        have hlast : (bs.getLast?.or (some b)).any isWord =
            (some c).any (isWordRune isWord) := by
          rw [Option.any_some, ← getLast_utf8EncodeChar hword c, hbs,
            ← WordBounded.getLast?_cons_or b bs none,
            Option.or_none]
        rw [encode_cons, hbs, List.cons_append] at hbytes ⊢
        rw [WordBounded.scan, if_neg hbytes, WordBounded.scan_append_of_forall hinside,
          ih s.length (Nat.lt_succ_self _) s _ _ hlast rfl, WordBounded.scan,
          if_neg htakes, encode_cons,
          hbs, List.cons_append]

end

/-! ### Reading a sequence of bytes in two parts -/

/-- The width of the first rune is within the sequence. -/
theorem decodeRune_snd_le {s : List UInt8} (hs : s ≠ []) : (decodeRune s).2 ≤ s.length := by
  unfold decodeRune
  split
  · rename_i c hc
    obtain ⟨l, hl⟩ := ByteArray.exists_of_utf8DecodeChar?_eq_some hc
    have hlen := congrArg ByteArray.size hl
    rw [ByteArray.size_append, List.size_toByteArray, List.size_toByteArray,
      String.length_utf8EncodeChar] at hlen
    omega
  · exact List.length_pos_of_ne_nil hs

/-- A sequence that is read as a character begins with its bytes. -/
theorem decode_eq_some {s : List UInt8} {c : Char} (h : s.toByteArray.utf8DecodeChar? 0 = some c) :
    String.utf8EncodeChar c <+: s := by
  obtain ⟨l, hl⟩ := ByteArray.exists_of_utf8DecodeChar?_eq_some h
  have hlist := congrArg (fun b : ByteArray => b.data.toList) hl
  exact ⟨l.data.toList, by simpa using hlist.symm⟩

/-- An ASCII byte behind a sequence does not change how its first rune is read. -/
theorem decodeRune_append_ascii {s : List UInt8} (hs : s ≠ []) {x : UInt8} (hx : x < 0x80)
    (t : List UInt8) : decodeRune (s ++ x :: t) = decodeRune s := by
  unfold decodeRune
  cases hdecode : s.toByteArray.utf8DecodeChar? 0 with
  | some c =>
    have happend := ByteArray.utf8DecodeChar?_append_eq_some hdecode (x :: t).toByteArray
    rw [← List.toByteArray_append] at happend
    rw [happend]
  | none =>
    cases happend : (s ++ x :: t).toByteArray.utf8DecodeChar? 0 with
    | none => rfl
    | some c =>
      exfalso
      obtain ⟨l, hlist⟩ := decode_eq_some happend
      rcases le_or_gt (String.utf8EncodeChar c).length s.length with hle | hlt
      · -- the character lies in the sequence
        have hbegins : s <+: s ++ x :: t := List.prefix_append _ _
        obtain ⟨u, rfl⟩ := List.prefix_of_prefix_length_le ⟨_, hlist⟩ hbegins hle
        rw [List.toByteArray_append, ByteArray.utf8DecodeChar?_utf8EncodeChar_append] at hdecode
        exact nomatch hdecode
      · -- the byte lies inside the character
        have hmem : x ∈ String.utf8EncodeChar c := by
          have hx := congrArg (fun l => l[s.length]?) hlist
          simp only [List.getElem?_append_right (Nat.le_refl s.length), Nat.sub_self,
            List.getElem?_append_left hlt, List.getElem?_cons_zero] at hx
          exact List.mem_of_getElem? hx
        obtain ⟨-, hone⟩ | ⟨-, hall⟩ := utf8EncodeChar_cases c
        · rw [hone, List.length_singleton, Nat.lt_one_iff] at hlt
          exact hs (List.length_eq_zero_iff.1 hlt)
        · exact UInt8.not_lt.2 (hall x hmem) hx

/-- **Reading a sequence of bytes in two parts**, the second of which begins with an ASCII byte. -/
theorem runes_append_ascii {x : UInt8} (hx : x < 0x80) (t s : List UInt8) (skip : ℕ)
    (hskip : skip ≤ s.length) : runes skip (s ++ x :: t) = runes skip s ++ runes 0 (x :: t) := by
  induction s generalizing skip with
  | nil =>
    rw [List.length_nil, Nat.le_zero] at hskip
    rw [hskip]
    rfl
  | cons b s ih =>
    rw [List.length_cons] at hskip
    cases skip with
    | succ skip => exact ih skip (by omega)
    | zero =>
      have hwidth := decodeRune_snd_le (List.cons_ne_nil b s)
      rw [List.length_cons] at hwidth
      have hdecode : decodeRune (b :: (s ++ x :: t)) = decodeRune (b :: s) :=
        decodeRune_append_ascii (List.cons_ne_nil b s) hx t
      have htake : (b :: (s ++ x :: t)).take (decodeRune (b :: s)).2 =
          (b :: s).take (decodeRune (b :: s)).2 :=
        List.take_append_of_le_length (decodeRune_snd_le (List.cons_ne_nil b s))
      have hrest := ih ((decodeRune (b :: s)).2 - 1) (by omega)
      rw [List.cons_append, runes, runes, hdecode, htake, hrest, List.cons_append]

/-- The bytes that belong to the character read last are passed. -/
private theorem runes_length_append (l s : List UInt8) : runes l.length (l ++ s) = runes 0 s := by
  induction l with
  | nil => rfl
  | cons b l ih => exact ih

/-- **Reading the bytes of a text gives its characters.** -/
theorem runes_encode (t : List Char) :
    runes 0 (encode t) = t.map fun c => (c, String.utf8EncodeChar c) := by
  induction t with
  | nil => rfl
  | cons c t ih =>
    obtain ⟨b, bs, hbs⟩ := List.exists_cons_of_ne_nil (String.utf8EncodeChar_ne_nil (c := c))
    have hdecode : decodeRune (String.utf8EncodeChar c ++ encode t) = (c, c.utf8Size) := by
      rw [decodeRune, List.toByteArray_append, ByteArray.utf8DecodeChar?_utf8EncodeChar_append]
    have hsize : c.utf8Size = (b :: bs).length := by rw [← hbs, String.length_utf8EncodeChar]
    rw [hbs, List.cons_append, hsize] at hdecode
    rw [encode_cons, List.map_cons, hbs, List.cons_append, runes, hdecode, ← ih]
    dsimp only
    rw [← List.cons_append, List.take_left, List.length_cons, Nat.add_sub_cancel,
      runes_length_append]

end Utf8
