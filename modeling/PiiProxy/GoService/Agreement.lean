import PiiProxy.Demasking.OneNeedle
import PiiProxy.GoService.Demask

/-!
# Word-bounded restoration in Go and in Python

Both services replace a surrogate only where no part of a word touches it. The Python service asks
whether a character is alphanumeric. The Go service asks this of the neighbouring byte, and takes
every byte of a character outside ASCII for a part of a word, so quotes, dashes and spaces outside
ASCII keep it from restoring.

## Main definitions

* `RestoresAlike`: the two services restore one needle to the same text.

## Main results

* `restoresAlike_iff`: they do for every replacement exactly when the characters that touch the
  occurrences to replace are ASCII.
-/

namespace PiiProxy

/-- `replaceWordBounded` and `_resolve_and_apply` with `_find_all_spans` return the same text. -/
def RestoresAlike (u : Unicode) (text needle replacement : Text) : Prop :=
  GoService.replaceWordBounded (Utf8.encode text) (Utf8.encode needle) (Utf8.encode replacement) =
    .ok (Utf8.encode (resolveAndApply text (findAllSpans u text [(needle, replacement)])))

instance (u : Unicode) (text needle replacement : Text) :
    Decidable (RestoresAlike u text needle replacement) :=
  inferInstanceAs (Decidable (_ = _))

/-! ### Word characters -/

private theorem char_induction {P : Char → Prop} (h : ∀ n : Fin 128, P (Char.ofNat n)) (c : Char)
    (hc : c.val < 0x80) : P c := by
  have hlt : c.toNat < 128 := hc
  have hP := h ⟨c.toNat, hlt⟩
  rwa [Fin.val_mk, Char.ofNat_toNat] at hP

/-- The byte of an ASCII character is a word character when the character is. -/
theorem isWordChar_toUInt8 (c : Char) (hc : c.val < 0x80) :
    GoService.isWordChar c.val.toUInt8 = (c.isAlphanum || c == '_') :=
  char_induction (P := fun c => GoService.isWordChar c.val.toUInt8 = (c.isAlphanum || c == '_'))
    (by decide) c hc

variable {u : Unicode} (hascii : ∀ c : Char, c.val < 0x80 → u.isAlnum c = c.isAlphanum)
include hascii

theorem isWordRune_of_ascii {c : Char} (hc : c.val < 0x80) :
    Utf8.isWordRune GoService.isWordChar c = Demasker.isWordChar u c := by
  rw [Utf8.isWordRune, if_pos hc, isWordChar_toUInt8 c hc, Demasker.isWordChar, hascii c hc]

/-- Every word character of the Python service is one of the Go service. -/
theorem isWordRune_of_isWordChar {c : Char} (hc : Demasker.isWordChar u c = true) :
    Utf8.isWordRune GoService.isWordChar c = true := by
  by_cases hval : c.val < 0x80
  · rw [isWordRune_of_ascii hascii hval, hc]
  · rw [Utf8.isWordRune, if_neg hval]

/-- **When Go and Python restore alike.** For a text and a needle, they agree on every replacement
exactly when each character that stands directly before or after an occurrence to replace is
ASCII. -/
theorem restoresAlike_iff {needle : Text} (hneedle : needle ≠ []) (text : Text) :
    (∀ replacement, RestoresAlike u text needle replacement) ↔
      ∀ c ∈ WordBounded.neighbours (Demasker.isWordChar u) needle none 0 text, c.val < 0x80 := by
  have halike (replacement : Text) : RestoresAlike u text needle replacement ↔
      WordBounded.scan (Demasker.isWordChar u) needle replacement none 0 text =
        WordBounded.scan (Utf8.isWordRune GoService.isWordChar) needle replacement none 0 text := by
    have hscan := Utf8.scan_encode GoService.isWordChar_of_le hneedle replacement text
      none none rfl
    rw [RestoresAlike, GoService.replaceWordBounded_eq_scan (Utf8.encode_ne_nil hneedle), hscan,
      resolveAndApply_one u hneedle, Except.ok.injEq, Utf8.encode_injective.eq_iff, eq_comm]
  have : Nontrivial Char := ⟨'a', 'b', by decide⟩
  simp only [halike]
  rw [WordBounded.scan_eq_scan_iff fun c => isWordRune_of_isWordChar hascii]
  refine forall₂_congr fun c hc => ?_
  by_cases hval : c.val < 0x80
  · rw [isWordRune_of_ascii hascii hval, WordBounded.isWord_of_mem_neighbours hc]
    exact iff_of_true rfl hval
  · rw [Utf8.isWordRune, if_neg hval]
    exact iff_of_false (by simp) hval

omit hascii

/-- The tables of ASCII and of the Russian alphabet have the letters and digits of ASCII. -/
theorem isAlnum_basicUnicode (c : Char) (hc : c.val < 0x80) :
    basicUnicode.isAlnum c = c.isAlphanum :=
  char_induction (P := fun c => basicUnicode.isAlnum c = c.isAlphanum) (by decide) c hc

/-- The case of an address in brackets. -/
theorem restoresAlike_iff_brackets :
    RestoresAlike basicUnicode "(user00001@example.com)".toList "user00001@example.com".toList
      "a@b.ru".toList := by
  refine (restoresAlike_iff isAlnum_basicUnicode (by decide) _).mpr ?_ _
  have hneighbours : WordBounded.neighbours (Demasker.isWordChar basicUnicode)
      "user00001@example.com".toList none 0 "(user00001@example.com)".toList = ['(', ')'] := by
    decide +kernel
  rw [hneighbours]
  simp only [List.forall_mem_cons, List.not_mem_nil, false_implies, implies_true, and_true]
  decide

/-- An address in quotes is not restored by the Go service. -/
theorem restoresAlike_quotes :
    ¬RestoresAlike basicUnicode "«user00001@example.com»".toList "user00001@example.com".toList
      "a@b.ru".toList := by
  decide +kernel

end PiiProxy
