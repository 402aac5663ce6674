import PiiProxy.Core.Runtime
import PiiProxy.Lib.GoSeq
import PiiProxy.Lib.Regex
import PiiProxy.Lib.Utf8

/-!
# What the Go service takes from its runtime

The Go service works on the bytes of strings. The tables of the package `unicode`, the hash SHA-256
and the unstable sort of the package `sort` are the fields of a `GoRuntime`. The functions of the
packages `strings` and `regexp` that the service calls follow; they read a string rune by rune.

## Main definitions

* `GoString`, `GoUnicode`, `GoRuntime`, `basicGoRuntime`.
* `GoService.str`, `GoService.sub`: string literals and slices within bounds.
* `GoService.toLower`, `GoService.trimSpace`, `GoService.fields`, `GoService.trimRight`.
* `GoService.findAllStringIndex`: the matches of an expression, in byte offsets.

## Main results

* `GoService.findAllStringIndex_bounds`: the matches lie in the string and are not empty.
-/

namespace PiiProxy

/-- A string of Go: its bytes. -/
abbrev GoString : Type := List UInt8

/-- The tables of the package `unicode`, as far as the service reads them. -/
structure GoUnicode where
  isLetter : Char → Bool
  isDigit : Char → Bool
  isSpace : Char → Bool
  toLower : Char → Char
  toUpper : Char → Char

/-- The standard library of Go as the service sees it. -/
structure GoRuntime where
  unicode : GoUnicode
  /-- The first eight bytes of the SHA-256 digest, as a number. -/
  sha64 : GoString → ℕ
  sha64_lt : ∀ s, sha64 s < 2 ^ 64
  /-- The SHA-256 digest, in hexadecimal. -/
  sha256Hex : GoString → GoString
  /-- The keyed digest, with the secret as the first argument. -/
  hmacSha256Hex : GoString → GoString → GoString
  /-- `sort.Slice`, which need not keep the order of equal elements. -/
  sortSlice : {α : Type} → (α → α → Bool) → List α → List α
  sortSlice_perm : ∀ {α : Type} (less : α → α → Bool) (s : List α), (sortSlice less s).Perm s
  sortSlice_sorted : ∀ {α κ : Type} [LinearOrder κ] (key : α → κ) (less : α → α → Bool)
    (s : List α),
    (∀ a b, less a b = decide (key a < key b)) →
      (sortSlice less s).Pairwise fun a b => key a ≤ key b
  /-- How many rounds of an unbounded loop a model of it follows. -/
  fuel : ℕ

/-- The tables, restricted to ASCII and the Russian alphabet. -/
def basicGoUnicode : GoUnicode where
  isLetter c := isBasicLower c || isBasicUpper c
  isDigit := isBasicDigit
  isSpace := isBasicSpace
  toLower := basicLower
  toUpper := basicUpper

/-- A stable sort is one of the sorts that `sort.Slice` may perform. -/
def stableSort {α : Type} (less : α → α → Bool) (s : List α) : List α :=
  s.insertionSort fun a b => less b a = false

/-- A runtime with basic tables, a hash of one value and a stable sort. -/
def basicGoRuntime (hash : ℕ) (hhash : hash < 2 ^ 64) : GoRuntime where
  unicode := basicGoUnicode
  sha64 _ := hash
  sha64_lt _ := hhash
  sha256Hex := id
  hmacSha256Hex _ := id
  sortSlice := stableSort
  sortSlice_perm _ s := List.perm_insertionSort _ s
  sortSlice_sorted key less s hless := by
    have hle (a b) : less b a = false ↔
      key a ≤ key b := by rw [hless, decide_eq_false_iff_not, not_lt]
    have : Std.Total fun a b => less b a = false :=
      ⟨fun a b => by rw [hle, hle]; exact le_total _ _⟩
    have : IsTrans _ fun a b => less b a = false :=
      ⟨fun a b c => by rw [hle, hle, hle]; exact le_trans⟩
    exact (List.pairwise_insertionSort (fun a b => less b a = false) s).imp fun h => (hle _ _).1 h
  fuel := 4

/-- A runtime whose hash is the sum of the bytes. -/
def summingGoRuntime : GoRuntime where
  __ := basicGoRuntime 0 zero_lt_two_pow_64
  sha64 s := (s.map UInt8.toNat).sum % 2 ^ 64
  sha64_lt _ := Nat.mod_lt _ (Nat.two_pow_pos 64)

namespace GoService

/-! ### Strings -/

/-- The bytes of a string literal. -/
def str (s : String) : GoString := Utf8.encode s.toList

/-- `s[i:j]` for bounds in range. -/
def sub (s : GoString) (i j : ℕ) : GoString := (s.take j).drop i

/-- The runes of a string, each with its bytes. -/
def runes (s : GoString) : List (Char × GoString) := Utf8.runes 0 s

/-- `[]rune(s)`. -/
def chars (s : GoString) : List Char := (runes s).map Prod.fst

/-- The bytes of runes. -/
def bytesOf (rs : List (Char × GoString)) : GoString := rs.flatMap Prod.snd

variable (u : GoUnicode)

/-- `strings.ToLower`. -/
def toLower (s : GoString) : GoString := Utf8.encode ((chars s).map u.toLower)

/-- `strings.TrimSpace`. -/
def trimSpace (s : GoString) : GoString :=
  bytesOf ((((runes s).dropWhile fun r => u.isSpace r.1).reverse.dropWhile
    fun r => u.isSpace r.1).reverse)

/-- `strings.Fields`. -/
def fields (s : GoString) : List GoString :=
  (((runes s).splitOnP fun r => u.isSpace r.1).filter fun w => !w.isEmpty).map bytesOf

/-- `strings.TrimRight`, for a cutset of ASCII characters. -/
def trimRight (cutset : String) (s : GoString) : GoString :=
  (s.reverse.dropWhile fun b => (str cutset).contains b).reverse

/-- `strings.HasSuffix`. -/
def hasSuffix (s suffix : GoString) : Bool := suffix.isSuffixOf s

/-- `strings.TrimSuffix`. -/
def trimSuffix (s suffix : GoString) : GoString :=
  if hasSuffix s suffix then s.take (s.length - suffix.length) else s

/-- `strings.Contains`. -/
def contains (s needle : GoString) : Bool := (Go.index needle s).isSome

/-- `strings.Join(words, " ")`. -/
def joinSpaces (words : List GoString) : GoString := (words.intersperse (str " ")).flatten

/-- `fmt.Sprintf("%d", n)`. -/
def showInt : ℤ → GoString
  | .ofNat n => Utf8.encode (showNat n)
  | .negSucc n => str "-" ++ Utf8.encode (showNat (n + 1))

/-- `fmt.Sprintf("%0kd", n)`. -/
def showPadded (k n : ℕ) : GoString := Utf8.encode (showNatPadded k n)

/-! ### Strings that encode a text -/

theorem chars_encode (t : Text) : chars (Utf8.encode t) = t := by
  rw [chars, runes, Utf8.runes_encode, List.map_map]
  exact List.map_id t

/-- The characters of a text with their bytes. -/
private def withBytes (t : Text) : List (Char × GoString) :=
  t.map fun c => (c, String.utf8EncodeChar c)

private theorem runes_encode (t : Text) : runes (Utf8.encode t) = withBytes t := Utf8.runes_encode t

private theorem bytesOf_withBytes (t : Text) : bytesOf (withBytes t) = Utf8.encode t :=
  List.flatMap_map _ _ t

private theorem dropWhile_withBytes (p : Char → Bool) (t : Text) :
    (withBytes t).dropWhile (fun r => p r.1) = withBytes (t.dropWhile p) := by
  rw [withBytes, List.dropWhile_map]
  rfl

private theorem splitOnP_withBytes (p : Char → Bool) (t : Text) :
    (withBytes t).splitOnP (fun r => p r.1) = (t.splitOnP p).map withBytes := by
  induction t with
  | nil => rfl
  | cons c t ih =>
    have ih : List.splitOnP (fun r => p r.1) (t.map fun c => (c, String.utf8EncodeChar c)) =
        (t.splitOnP p).map withBytes := ih
    rw [withBytes, List.map_cons, List.splitOnP_cons_eq_if_modifyHead,
      List.splitOnP_cons_eq_if_modifyHead, ih]
    split_ifs
    · rfl
    · cases t.splitOnP p with
      | nil => rfl
      | cons w ws => rfl

/-- `strings.TrimSpace` of a text. -/
theorem trimSpace_encode (t : Text) : trimSpace u (Utf8.encode t) =
    Utf8.encode (((t.dropWhile u.isSpace).reverse.dropWhile u.isSpace).reverse) := by
  have hreverse (t : Text) : (withBytes t).reverse = withBytes t.reverse := List.map_reverse.symm
  rw [trimSpace, runes_encode, dropWhile_withBytes, hreverse, dropWhile_withBytes, hreverse,
    bytesOf_withBytes]

/-- `strings.Fields` of a text. -/
theorem fields_encode (t : Text) : fields u (Utf8.encode t) =
    ((t.splitOnP u.isSpace).filter fun w => !w.isEmpty).map Utf8.encode := by
  have hempty : ((fun w => !w.isEmpty) ∘ withBytes) = fun w : Text => !w.isEmpty := by
    funext w
    exact congrArg (! ·) List.isEmpty_map
  rw [fields, runes_encode, splitOnP_withBytes, List.filter_map, hempty, List.map_map]
  exact List.map_congr_left fun w _ => bytesOf_withBytes w

/-- `strings.Join` of texts. -/
theorem joinSpaces_encode (words : List Text) :
    joinSpaces (words.map Utf8.encode) = Utf8.encode (joinWords words) := by
  induction words with
  | nil => rfl
  | cons w words ih =>
    cases words with
    | nil =>
      rw [joinWords, List.intercalate_singleton]
      exact List.append_nil _
    | cons w' words =>
      have ih : joinSpaces (Utf8.encode w' :: words.map Utf8.encode) = _ := ih
      rw [joinWords, List.intercalate_cons_cons, Utf8.encode_append, Utf8.encode_append,
        ← joinWords, ← ih, List.append_assoc]
      rfl

/-! ### Regular expressions -/

/-- The byte offset of the rune at an index. -/
def offset (rs : List (Char × GoString)) (i : ℕ) : ℕ := (bytesOf (rs.take i)).length

/-- `FindAllStringIndex`: the matches of an expression, in byte offsets. -/
def findAllStringIndex (re : Regex Char) (text : GoString) : List (ℕ × ℕ) :=
  (re.finditer (chars text)).map fun m => (offset (runes text) m.start, offset (runes text) m.stop)

theorem decodeRune_pos (s : GoString) : 0 < (Utf8.decodeRune s).2 := by
  unfold Utf8.decodeRune
  split
  · exact Char.utf8Size_pos _
  · exact Nat.one_pos

theorem bytesOf_runes_drop (skip : ℕ) (s : GoString) :
    bytesOf (Utf8.runes skip s) = s.drop skip := by
  induction s generalizing skip with
  | nil => cases skip <;> rfl
  | cons b s ih =>
    cases skip with
    | succ skip => exact ih skip
    | zero =>
      obtain ⟨w, hw⟩ := Nat.exists_eq_add_one.2 (decodeRune_pos (b :: s))
      have hrest := ih w
      rw [bytesOf] at hrest
      rw [Utf8.runes, bytesOf, List.flatMap_cons, hw, Nat.add_sub_cancel, hrest,
        ← List.drop_succ_cons (a := b), List.take_append_drop, List.drop_zero]

/-- The runes of a string are all of it. -/
theorem bytesOf_runes (s : GoString) : bytesOf (runes s) = s := bytesOf_runes_drop 0 s

theorem ne_nil_of_mem_runes {skip : ℕ} {s : GoString} {r : Char × GoString}
    (hr : r ∈ Utf8.runes skip s) : r.2 ≠ [] := by
  induction s generalizing skip with
  | nil => cases skip <;> cases hr
  | cons b s ih =>
    cases skip with
    | succ skip => exact ih hr
    | zero =>
      obtain ⟨w, hw⟩ := Nat.exists_eq_add_one.2 (decodeRune_pos (b :: s))
      rw [Utf8.runes, hw] at hr
      rcases List.mem_cons.1 hr with rfl | hr
      · simp
      · exact ih hr

/-- The bytes of a string up to the rune at an index, and those of that rune. -/
theorem offset_succ {s : GoString} {i : ℕ} (hi : i < (runes s).length) :
    offset (runes s) i < offset (runes s) (i + 1) := by
  have hpos : 0 < ((runes s)[i]).2.length :=
    List.length_pos_of_ne_nil (ne_nil_of_mem_runes (List.getElem_mem hi))
  rw [offset, offset, List.take_succ_eq_append_getElem hi, bytesOf, bytesOf, List.flatMap_append,
    List.length_append, List.flatMap_singleton]
  exact Nat.lt_add_of_pos_right hpos

/-- Offsets in a string stand in the order of the runes. -/
theorem offset_lt {s : GoString} {i j : ℕ} (hij : i < j) (hj : j ≤ (runes s).length) :
    offset (runes s) i < offset (runes s) j := by
  induction j with
  | zero => exact absurd hij (Nat.not_lt_zero i)
  | succ j ih =>
    have hlast := offset_succ hj
    rcases Nat.lt_succ_iff_lt_or_eq.1 hij with hij | rfl
    · exact (ih hij (Nat.le_of_lt hj)).trans hlast
    · exact hlast

theorem offset_le_length (s : GoString) (i : ℕ) : offset (runes s) i ≤ s.length := by
  have happend : bytesOf ((runes s).take i) ++ bytesOf ((runes s).drop i) = s := by
    rw [bytesOf, bytesOf, ← List.flatMap_append, List.take_append_drop]
    exact bytesOf_runes s
  calc offset (runes s) i ≤ (bytesOf ((runes s).take i) ++ bytesOf ((runes s).drop i)).length :=
        List.length_append ▸ Nat.le_add_right _ _
    _ = s.length := by rw [happend]

/-- **The matches of an expression lie in the string and are not empty**, when the expression
consumes something. -/
theorem findAllStringIndex_bounds {re : Regex Char} (hre : 0 < re.minLen) {text : GoString}
    {m : ℕ × ℕ} (hm : m ∈ findAllStringIndex re text) : m.1 < m.2 ∧ m.2 ≤ text.length := by
  obtain ⟨m, hmatch, rfl⟩ := List.mem_map.1 hm
  obtain ⟨⟨hlen, -⟩, hstop, hmin⟩ := Regex.isPiece_of_mem_finditer hmatch
  rw [chars, List.length_map] at hlen
  exact ⟨offset_lt (by omega) (by omega), offset_le_length text _⟩

/-- Each match ends before the next one starts. -/
theorem findAllStringIndex_pairwise (re : Regex Char) (text : GoString) :
    (findAllStringIndex re text).Pairwise fun m m' => m.2 ≤ m'.1 := by
  refine List.pairwise_map.2 ((Regex.pairwise_finditer re (chars text)).imp_of_mem ?_)
  intro m m' _ hm' hle
  obtain ⟨⟨hlen, -⟩, -, -⟩ := Regex.isPiece_of_mem_finditer hm'
  rw [chars, List.length_map] at hlen
  rcases hle.lt_or_eq with hlt | heq
  · exact (offset_lt hlt (by omega)).le
  · rw [heq]

/-- The piece of a string between two runes is made of the runes between them. -/
theorem sub_offset {s : GoString} {i j : ℕ} (hij : i ≤ j) :
    sub s (offset (runes s) i) (offset (runes s) j) = bytesOf (((runes s).take j).drop i) := by
  have htake (k : ℕ) : bytesOf ((runes s).take k) ++ bytesOf ((runes s).drop k) = s := by
    rw [bytesOf, bytesOf, ← List.flatMap_append, List.take_append_drop]
    exact bytesOf_runes s
  have hfirst : s.take (offset (runes s) j) = bytesOf ((runes s).take j) := by
    have h := congrArg (List.take (bytesOf ((runes s).take j)).length) (htake j)
    rw [List.take_left] at h
    exact h.symm
  have hsplit : bytesOf ((runes s).take i) ++ bytesOf (((runes s).take j).drop i) =
      bytesOf ((runes s).take j) := by
    have hi : (runes s).take i = ((runes s).take j).take i := by
      rw [List.take_take, min_eq_left hij]
    rw [hi, bytesOf, bytesOf, ← List.flatMap_append, List.take_append_drop]
    rfl
  rw [sub, hfirst, ← hsplit, offset, List.drop_left]

/-- A byte of ASCII is read as itself. -/
theorem decodeRune_of_ascii {b : UInt8} (hb : b < 0x80) (s : GoString) :
    Utf8.decodeRune (b :: s) = (Char.ofNat b.toNat, 1) := by
  have hall : ∀ n : Fin 128, String.utf8EncodeChar (Char.ofNat n) = [UInt8.ofNat n] := by decide
  have hencode : String.utf8EncodeChar (Char.ofNat b.toNat) = [b] := by
    have h := hall ⟨b.toNat, hb⟩
    rwa [UInt8.ofNat_toNat] at h
  have hsize : (Char.ofNat b.toNat).utf8Size = 1 := by
    rw [← String.length_utf8EncodeChar, hencode]
    rfl
  have hdecode : (b :: s).toByteArray.utf8DecodeChar? 0 = some (Char.ofNat b.toNat) := by
    rw [← List.singleton_append, ← hencode, List.toByteArray_append]
    exact ByteArray.utf8DecodeChar?_utf8EncodeChar_append
  simp only [Utf8.decodeRune, hdecode, hsize]

/-- The rune of an ASCII byte. -/
theorem eq_of_mem_runes {skip : ℕ} {s : GoString} {r : Char × GoString}
    (hr : r ∈ Utf8.runes skip s) {b : UInt8} (hb : b < 0x80) (hhead : r.2.head? = some b) :
    r.1 = Char.ofNat b.toNat := by
  induction s generalizing skip with
  | nil => cases skip <;> cases hr
  | cons a s ih =>
    cases skip with
    | succ skip => exact ih hr
    | zero =>
      obtain ⟨w, hw⟩ := Nat.exists_eq_add_one.2 (decodeRune_pos (a :: s))
      rw [Utf8.runes] at hr
      rcases List.mem_cons.1 hr with rfl | hr
      · rw [hw, List.take_succ_cons, List.head?_cons, Option.some.injEq] at hhead
        subst hhead
        rw [decodeRune_of_ascii hb]
      · exact ih hr

end GoService

end PiiProxy
