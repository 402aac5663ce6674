import PiiProxy.GoService.Mask
import PiiProxy.Lib.Positions
import PiiProxy.Replacement.PartialMask

/-!
# Partial masks in Go and in Python

Both services make a partial mask of a value by its type. The Python service has a masker for each
type, the Go service one that keeps the first and the last digits. On Russian text they give the
same masks, and the mask of a value made of digits keeps everything but the digits and shows the
first and the last of these.

## Main definitions

* `isTextChar`: a character of Russian text.
* `Unicode.ReadsText`, `GoUnicode.ReadsText`: what the tables of both languages say about these.
* `ShowsDigits`, `shownDigits`: a mask that shows the first and the last digits; how many of them.

## Main results

* `showsDigits_starDigits`: stars for the digits that are not kept.
* `partialMask_agree`: both services make the same mask, and which digits it shows.
-/

namespace PiiProxy

/-! ### Russian text -/

/-- A character of Russian text: a letter, digit, space or punctuation mark of ASCII, a Russian
letter, or a quotation mark, dash or other mark of general punctuation. -/
def isTextChar (c : Char) : Bool :=
  (' '.val ≤ c.val && c.val ≤ '~'.val) || isBasicSpace c || isBasicLower c || isBasicUpper c ||
    c == '«' || c == '»' || ('\u2010'.val ≤ c.val && c.val ≤ '\u2027'.val)

/-- What the tables of the interpreter say about Russian text. -/
structure Unicode.ReadsText (u : Unicode) : Prop where
  isAlnum : ∀ c, isTextChar c = true →
    u.isAlnum c = (isBasicLower c || isBasicUpper c || isBasicDigit c)
  isAlpha : ∀ c, isTextChar c = true → u.isAlpha c = (isBasicLower c || isBasicUpper c)
  isDigit : ∀ c, isTextChar c = true → u.isDigit c = isBasicDigit c
  isSpace : ∀ c, isTextChar c = true → u.isSpace c = isBasicSpace c
  upper : ∀ c, isTextChar c = true → u.upper [c] = [basicUpper c]

/-- What the package `unicode` says about Russian text. -/
structure GoUnicode.ReadsText (u : GoUnicode) : Prop where
  isLetter : ∀ c, isTextChar c = true → u.isLetter c = (isBasicLower c || isBasicUpper c)
  isDigit : ∀ c, isTextChar c = true → u.isDigit c = isBasicDigit c
  isSpace : ∀ c, isTextChar c = true → u.isSpace c = isBasicSpace c
  toUpper : ∀ c, isTextChar c = true → u.toUpper c = basicUpper c

theorem basicUnicode_readsText : basicUnicode.ReadsText where
  isAlnum _ _ := rfl
  isAlpha _ _ := rfl
  isDigit _ _ := rfl
  isSpace _ _ := rfl
  upper _ _ := rfl

theorem basicGoUnicode_readsText : basicGoUnicode.ReadsText where
  isLetter _ _ := rfl
  isDigit _ _ := rfl
  isSpace _ _ := rfl
  toUpper _ _ := rfl

/-! ### Which digits a mask shows -/

/-- The result has stars for the digits of the value, but for the `first` first and the `last` last
ones, and the characters of the value elsewhere. -/
structure ShowsDigits (isDigit : Char → Bool) (first last : ℕ) (value result : Text) : Prop where
  length_eq : result.length = value.length
  kept : ∀ (i : ℕ) (c : Char), value[i]? = some c → isDigit c = false → result[i]? = some c
  shown : ∀ (i : ℕ) (c : Char), value[i]? = some c → isDigit c = true →
    (value.take i).countP isDigit < first ∨
      value.countP isDigit ≤ (value.take i).countP isDigit + last → result[i]? = some c
  starred : ∀ (i : ℕ) (c : Char), value[i]? = some c → isDigit c = true →
    ¬((value.take i).countP isDigit < first ∨
      value.countP isDigit ≤ (value.take i).countP isDigit + last) → result[i]? = some '*'

/-- How many leading and trailing digits the mask of a value with `n` digits shows, for the types
whose values are made of digits. -/
def shownDigits (type : PIIType) (n : ℕ) : Option (ℕ × ℕ) :=
  match type with
  | .phone => some (1, 0)
  | .passport => some (2, 2)
  | .driverLicense | .inn => some (if 4 < n then (2, 2) else (0, 0))
  | .cardNumber => some (4, 4)
  | _ => none

section Digits

variable {u : Unicode}

private theorem getElem?_starDigits (value : Text) (keep : List ℕ) (i : ℕ) :
    (starDigits u value keep)[i]? =
      value[i]?.map fun c => if u.isDigit c && !keep.contains i then '*' else c :=
  List.getElem?_mapIdx

/-- **Stars for the digits that are not kept.** -/
theorem showsDigits_starDigits {value : Text} {first last : ℕ} {keep : List ℕ}
    (hkeep : ∀ (i : ℕ) (c : Char), value[i]? = some c → u.isDigit c = true →
      (i ∈ keep ↔ (value.take i).countP u.isDigit < first ∨
        value.countP u.isDigit ≤ (value.take i).countP u.isDigit + last)) :
    ShowsDigits u.isDigit first last value (starDigits u value keep) where
  length_eq := List.length_mapIdx
  kept i c hc hdigit := by
    rw [getElem?_starDigits, hc, Option.map_some, hdigit, Bool.false_and, if_neg Bool.false_ne_true]
  shown i c hc hdigit hshown := by
    have hmem : keep.contains i = true := List.contains_iff_mem.2 ((hkeep i c hc hdigit).2 hshown)
    rw [getElem?_starDigits, hc, Option.map_some, hmem, Bool.not_true, Bool.and_false,
      if_neg Bool.false_ne_true]
  starred i c hc hdigit hstarred := by
    have hmem : keep.contains i = false := by
      rw [Bool.eq_false_iff, Ne, List.contains_iff_mem, hkeep i c hc hdigit]
      exact hstarred
    rw [getElem?_starDigits, hc, Option.map_some, hmem, hdigit, Bool.not_false, Bool.true_and,
      if_pos rfl]

private theorem digitPositions_eq (value : Text) :
    digitPositions u value = Positions.positions u.isDigit value := rfl

private theorem rank_lt {value : Text} {i : ℕ} {c : Char} (hc : value[i]? = some c)
    (hdigit : u.isDigit c = true) :
    (value.take i).countP u.isDigit < value.countP u.isDigit := by
  have hsome := Positions.getElem?_positions.2 ⟨c, hc, hdigit, rfl⟩
  have hlt := (List.getElem?_eq_some_iff.1 hsome).1
  rwa [Positions.length_positions] at hlt

/-- The first and the last positions are kept. -/
private theorem mem_firstLast {value : Text} {first last i : ℕ} {c : Char} (hc : value[i]? = some c)
    (hdigit : u.isDigit c = true) :
    i ∈ (digitPositions u value).take first ++
        (digitPositions u value).drop ((digitPositions u value).length - last) ↔
      (value.take i).countP u.isDigit < first ∨
        value.countP u.isDigit ≤ (value.take i).countP u.isDigit + last := by
  rw [List.mem_append, digitPositions_eq, Positions.mem_take_positions,
    Positions.mem_drop_positions, Positions.length_positions, Nat.sub_le_iff_le_add]
  simp only [hc, Option.some.injEq, exists_eq_left', hdigit, true_and]

theorem showsDigits_firstLast (value : Text) (first last : ℕ) :
    ShowsDigits u.isDigit first last value
      (starDigits u value ((digitPositions u value).take first ++
        (digitPositions u value).drop ((digitPositions u value).length - last))) :=
  showsDigits_starDigits fun _ _ hc hdigit => mem_firstLast hc hdigit

/-- Where nothing is kept, no digit is shown. -/
theorem showsDigits_none (value : Text) :
    ShowsDigits u.isDigit 0 0 value (starDigits u value []) :=
  showsDigits_starDigits fun i c hc hdigit => by
    have hlt := rank_lt hc hdigit
    simp only [List.not_mem_nil, false_iff]
    omega

/-- The mask of a phone number shows its first digit. -/
theorem showsDigits_maskPhone (value : Text) :
    ShowsDigits u.isDigit 1 0 value (maskPhone u value) :=
  showsDigits_starDigits fun i c hc hdigit => by
    have hlt := rank_lt hc hdigit
    rw [digitPositions_eq, Positions.mem_take_positions]
    simp only [hc, Option.some.injEq, exists_eq_left', hdigit, true_and]
    omega

theorem showsDigits_maskNumeric (value : Text) (first last : ℕ) :
    ShowsDigits u.isDigit (if first + last < value.countP u.isDigit then first else 0)
      (if first + last < value.countP u.isDigit then last else 0) value
      (maskNumeric u value first last) := by
  have hlen : (digitPositions u value).length = value.countP u.isDigit := Positions.length_positions
  rw [maskNumeric]
  simp only [hlen]
  split_ifs
  · exact showsDigits_firstLast value first last
  · exact showsDigits_none value

/-- **Which digits the mask of a value shows.** -/
theorem showsDigits_partialMask (type : PIIType) (value : Text) {first last : ℕ}
    (hshown : shownDigits type (value.countP u.isDigit) = some (first, last)) :
    ShowsDigits u.isDigit first last value (partialMask u type value) := by
  have hnumeric (hshown : (if 4 < value.countP u.isDigit then (2, 2) else (0, 0)) = (first, last)) :
      ShowsDigits u.isDigit first last value (maskNumeric u value 2 2) := by
    have hmask := showsDigits_maskNumeric (u := u) value 2 2
    split_ifs at hshown hmask
    · cases hshown
      exact hmask
    · cases hshown
      exact hmask
  cases type <;> simp only [shownDigits, Option.some.injEq, reduceCtorEq] at hshown
  case phone =>
    cases hshown
    exact showsDigits_maskPhone value
  case passport =>
    cases hshown
    exact showsDigits_firstLast value 2 2
  case cardNumber =>
    cases hshown
    exact showsDigits_firstLast value 4 4
  case driverLicense => exact hnumeric hshown
  case inn => exact hnumeric hshown

end Digits

/-! ### The maskers of the Go service -/

namespace GoService

variable {u : Unicode} {g : GoUnicode} {value : Text}

theorem maskAlnum_encode (h : ∀ c ∈ value, (g.isLetter c || g.isDigit c) = u.isAlnum c) :
    maskAlnum g (Utf8.encode value) = Utf8.encode (PiiProxy.maskAlnum u value) := by
  rw [maskAlnum, chars_encode, PiiProxy.maskAlnum]
  refine congrArg Utf8.encode (List.map_congr_left fun c hc => ?_)
  rw [h c hc]

private theorem digitPositions_encode (h : ∀ c ∈ value, g.isDigit c = u.isDigit c) :
    digitPositions g value = PiiProxy.digitPositions u value := by
  refine List.filter_congr fun i _ => ?_
  cases hc : value[i]? with
  | none => rfl
  | some c => exact h c (List.mem_of_getElem? hc)

private theorem starDigits_encode (h : ∀ c ∈ value, g.isDigit c = u.isDigit c) (keep : List ℕ) :
    starDigits g value keep = Utf8.encode (PiiProxy.starDigits u value keep) := by
  refine congrArg Utf8.encode (List.mapIdx_eq_mapIdx_iff.2 fun i hi => ?_)
  rw [h _ (List.getElem_mem hi)]

theorem maskPhone_encode (h : ∀ c ∈ value, g.isDigit c = u.isDigit c) :
    maskPhone g (Utf8.encode value) = Utf8.encode (PiiProxy.maskPhone u value) := by
  rw [maskPhone, chars_encode, digitPositions_encode h]
  exact starDigits_encode h _

/-- `maskDigitsKeep` is `mask_numeric`, unless it keeps one leading digit. -/
theorem maskDigitsKeep_encode (h : ∀ c ∈ value, g.isDigit c = u.isDigit c) {first : ℕ}
    (hfirst : first ≠ 1) (last : ℕ) :
    maskDigitsKeep g (Utf8.encode value) first last =
      Utf8.encode (maskNumeric u value first last) := by
  rw [maskDigitsKeep, chars_encode, digitPositions_encode h, if_neg hfirst]
  exact starDigits_encode h _

/-- With enough digits `mask_numeric` keeps the first and the last ones. -/
private theorem maskNumeric_of_lt {first last : ℕ} (hlt : first + last < value.countP u.isDigit) :
    maskNumeric u value first last =
      PiiProxy.starDigits u value ((PiiProxy.digitPositions u value).take first ++
        (PiiProxy.digitPositions u value).drop
          ((PiiProxy.digitPositions u value).length - last)) := by
  have hlen : (PiiProxy.digitPositions u value).length = value.countP u.isDigit :=
    Positions.length_positions
  rw [maskNumeric]
  simp only [hlen, hlt, ↓reduceIte]
  rw [← hlen]
  rfl

/-! ### Addresses and names -/

/-- An ASCII character is in a text when its byte is among the bytes. -/
private theorem mem_encode_at : '@'.toUInt8 ∈ Utf8.encode value ↔ '@' ∈ value := by
  rw [Utf8.encode, List.mem_flatMap]
  constructor
  · rintro ⟨c, hc, hb⟩
    obtain ⟨hascii, heq⟩ | ⟨-, hall⟩ := Utf8.utf8EncodeChar_cases c
    · rw [heq, List.mem_singleton] at hb
      obtain rfl : '@' = c := by
        have hval : c.val.toNat = 64 := by
          have hlt : c.val.toNat < 0x80 := hascii
          have hnat : 64 = c.val.toNat % 2 ^ 8 := congrArg UInt8.toNat hb
          omega
        exact Char.ext (UInt32.toNat_inj.1 hval.symm)
      exact hc
    · exact absurd (hall _ hb) (by decide)
  · exact fun hc => ⟨'@', hc, by decide⟩

private theorem findIdx?_at_none {t : Text} (h : '@' ∉ t) :
    (Utf8.encode t).reverse.findIdx? (· == '@'.toUInt8) = none := by
  refine List.findIdx?_eq_none_iff.2 fun b hb => beq_eq_false_iff_ne.2 ?_
  rintro rfl
  exact h (mem_encode_at.1 (List.mem_reverse.1 hb))

theorem maskEmail_encode (h : ∀ c ∈ value, (g.isLetter c || g.isDigit c) = u.isAlnum c) :
    maskEmail g (Utf8.encode value) = Utf8.encode (PiiProxy.maskEmail u value) := by
  rw [maskEmail, PiiProxy.maskEmail]
  by_cases hat : '@' ∈ value
  · obtain ⟨a, b, rfl, hb⟩ := exists_last_at hat
    have hbytes : Utf8.encode (a ++ '@' :: b) = Utf8.encode a ++ '@'.toUInt8 :: Utf8.encode b := by
      rw [Utf8.encode_append, Utf8.encode_cons]
      rfl
    have hindex : (Utf8.encode (a ++ '@' :: b)).reverse.findIdx? (· == '@'.toUInt8) =
        some (Utf8.encode b).length := by
      rw [hbytes, List.reverse_append, List.reverse_cons, List.append_assoc, List.singleton_append,
        List.findIdx?_append, findIdx?_at_none hb, List.findIdx?_cons, beq_self_eq_true, if_pos rfl,
        Option.map_some, Nat.zero_add, List.length_reverse]
      rfl
    have hat' : (Utf8.encode (a ++ '@' :: b)).length - 1 - (Utf8.encode b).length =
        (Utf8.encode a).length := by
      rw [hbytes, List.length_append, List.length_cons]
      omega
    have hdrop : (Utf8.encode (a ++ '@' :: b)).drop ((Utf8.encode a).length + 1) =
        Utf8.encode b := by
      rw [hbytes, ← List.drop_drop, List.drop_left, List.drop_one, List.tail_cons]
    have htake : (Utf8.encode (a ++ '@' :: b)).take (Utf8.encode a).length = Utf8.encode a := by
      rw [hbytes, List.take_left]
    have ha : ∀ c ∈ a, (g.isLetter c || g.isDigit c) = u.isAlnum c :=
      fun c hc => h c (List.mem_append_left _ hc)
    have hb' : ∀ c ∈ b, (g.isLetter c || g.isDigit c) = u.isAlnum c :=
      fun c hc => h c (List.mem_append_right _ (List.mem_cons_of_mem _ hc))
    rw [hindex, if_pos hat, rsplitAt_append hb]
    simp only [hat', htake, hdrop]
    rw [maskAlnum_encode ha, maskAlnum_encode hb', Utf8.encode_append, Utf8.encode_append]
    rfl
  · rw [findIdx?_at_none hat, if_neg hat]
    exact maskAlnum_encode h

private theorem dropWhile_congr {p q : Char → Bool} {t : Text} (h : ∀ c ∈ t, p c = q c) :
    t.dropWhile p = t.dropWhile q := by
  induction t with
  | nil => rfl
  | cons c t ih =>
    obtain ⟨hc, ht⟩ := List.forall_mem_cons.1 h
    rw [List.dropWhile_cons, List.dropWhile_cons, hc, ih ht]

private theorem splitOnP_congr {p q : Char → Bool} {t : Text} (h : ∀ c ∈ t, p c = q c) :
    t.splitOnP p = t.splitOnP q := by
  induction t with
  | nil => rfl
  | cons c t ih =>
    obtain ⟨hc, ht⟩ := List.forall_mem_cons.1 h
    rw [List.splitOnP_cons_eq_if_modifyHead, List.splitOnP_cons_eq_if_modifyHead, hc, ih ht]

private theorem subset_of_mem_splitOnP {p : Char → Bool} {t w : Text} (hw : w ∈ t.splitOnP p) :
    w ⊆ t := by
  induction t generalizing w with
  | nil =>
    rw [List.splitOnP_nil, List.mem_singleton] at hw
    exact hw ▸ List.nil_subset []
  | cons c t ih =>
    rw [List.splitOnP_cons_eq_if_modifyHead] at hw
    split_ifs at hw
    · rcases List.mem_cons.1 hw with rfl | hw
      · exact List.nil_subset _
      · exact List.subset_cons_of_subset c (ih hw)
    · cases hsplit : t.splitOnP p with
      | nil => exact absurd hsplit (List.splitOnP_ne_nil p t)
      | cons first rest =>
        rw [hsplit] at hw ih
        rcases List.mem_cons.1 hw with rfl | hw
        · exact List.cons_subset_cons c (ih List.mem_cons_self)
        · exact List.subset_cons_of_subset c (ih (List.mem_cons_of_mem _ hw))

private theorem subset_strip : u.strip value ⊆ value := by
  have hdrop (t : Text) : t.dropWhile u.isSpace ⊆ t := (List.dropWhile_suffix _).subset
  intro c hc
  have hinner := hdrop _ (List.mem_reverse.1 hc)
  exact hdrop _ (List.mem_reverse.1 hinner)

/-- The initials of the words of a name. -/
theorem maskName_encode (hspace : ∀ c ∈ value, g.isSpace c = u.isSpace c)
    (hletter : ∀ c ∈ value, g.isLetter c = u.isAlpha c)
    (hupper : ∀ c ∈ value, u.upper [c] = [g.toUpper c]) (hstar : u.upper ['*'] = ['*']) :
    maskName g (Utf8.encode value) = Utf8.encode (PiiProxy.maskName u value) := by
  have hinner : ∀ c ∈ (value.dropWhile u.isSpace).reverse, g.isSpace c = u.isSpace c :=
    fun c hc => hspace c ((List.dropWhile_suffix _).subset (List.mem_reverse.1 hc))
  have hstrip : ((value.dropWhile g.isSpace).reverse.dropWhile g.isSpace).reverse =
      u.strip value := by
    rw [dropWhile_congr hspace, dropWhile_congr hinner, Unicode.strip]
  have hwords : (u.strip value).splitOnP g.isSpace = (u.strip value).splitOnP u.isSpace :=
    splitOnP_congr fun c hc => hspace c (subset_strip hc)
  rw [maskName, trimSpace_encode, hstrip, fields_encode, hwords, List.map_map, PiiProxy.maskName,
    ← joinSpaces_encode, List.map_map]
  refine congrArg joinSpaces (List.map_congr_left fun p hp => congrArg Utf8.encode ?_)
  have hsubset : p ⊆ value :=
    List.Subset.trans (subset_of_mem_splitOnP (List.mem_of_mem_filter hp)) subset_strip
  have hfind : p.find? g.isLetter = p.find? u.isAlpha :=
    List.find?_congr fun c hc => hletter c (hsubset hc)
  dsimp only
  rw [chars_encode, hfind]
  cases hfirst : p.find? u.isAlpha with
  | none =>
    rw [Option.map_none, Option.getD_none, hstar]
    rfl
  | some c =>
    rw [Option.map_some, Option.getD_some, Option.getD_some,
      hupper c (hsubset (List.mem_of_find?_eq_some hfirst))]
    rfl

end GoService

/-! ### Both services -/

/-- **Both services make the same partial mask**, and it shows the documented digits of a value made
of digits and nothing else of them. -/
theorem partialMask_agree {u : Unicode} {g : GoUnicode} (hu : u.ReadsText) (hg : g.ReadsText)
    (type : PIIType) (value : Text) (hvalue : ∀ c ∈ value, isTextChar c = true)
    (hpassport : type = .passport → 4 < value.countP u.isDigit)
    (hcard : type = .cardNumber → 8 < value.countP u.isDigit) :
    GoService.partialMask g type (Utf8.encode value) = Utf8.encode (partialMask u type value) ∧
      ∀ first last, shownDigits type (value.countP u.isDigit) = some (first, last) →
        ShowsDigits u.isDigit first last value (partialMask u type value) := by
  refine ⟨?_, fun first last => showsDigits_partialMask type value⟩
  have hdigit : ∀ c ∈ value, g.isDigit c = u.isDigit c := fun c hc =>
    (hg.isDigit c (hvalue c hc)).trans (hu.isDigit c (hvalue c hc)).symm
  have hletter : ∀ c ∈ value, g.isLetter c = u.isAlpha c := fun c hc =>
    (hg.isLetter c (hvalue c hc)).trans (hu.isAlpha c (hvalue c hc)).symm
  have halnum : ∀ c ∈ value, (g.isLetter c || g.isDigit c) = u.isAlnum c := fun c hc => by
    rw [hg.isLetter c (hvalue c hc), hg.isDigit c (hvalue c hc), hu.isAlnum c (hvalue c hc)]
  have hspace : ∀ c ∈ value, g.isSpace c = u.isSpace c := fun c hc =>
    (hg.isSpace c (hvalue c hc)).trans (hu.isSpace c (hvalue c hc)).symm
  have hupper : ∀ c ∈ value, u.upper [c] = [g.toUpper c] := fun c hc => by
    rw [hu.upper c (hvalue c hc), hg.toUpper c (hvalue c hc)]
  have hname := GoService.maskName_encode hspace hletter hupper (hu.upper '*' (by decide))
  have halnumMask := GoService.maskAlnum_encode halnum
  have hnumeric := GoService.maskDigitsKeep_encode hdigit (by decide : 2 ≠ 1) 2
  cases type
  case fullName => exact hname
  case cardholder => exact hname
  case email => exact GoService.maskEmail_encode halnum
  case phone => exact GoService.maskPhone_encode hdigit
  case passport =>
    rw [GoService.maskNumeric_of_lt (hpassport rfl)] at hnumeric
    exact hnumeric
  case cardNumber =>
    have hkeep := GoService.maskDigitsKeep_encode hdigit (by decide : 4 ≠ 1) 4
    rw [GoService.maskNumeric_of_lt (hcard rfl)] at hkeep
    exact hkeep
  case driverLicense => exact hnumeric
  case inn => exact hnumeric
  all_goals exact halnumMask

theorem partialMask_agree_passport :
    GoService.partialMask basicGoUnicode .passport (Utf8.encode "4512 678901".toList) =
        Utf8.encode "45** ****01".toList ∧
      ShowsDigits isBasicDigit 2 2 "4512 678901".toList "45** ****01".toList := by
  have hmask : partialMask basicUnicode .passport "4512 678901".toList = "45** ****01".toList := by
    decide
  have htext : "4512 678901".toList.all isTextChar = true := by decide
  obtain ⟨hagree, hshows⟩ := partialMask_agree basicUnicode_readsText basicGoUnicode_readsText
    .passport "4512 678901".toList (List.all_eq_true.1 htext) (fun _ => by decide) (by decide)
  rw [hmask] at hagree hshows
  exact ⟨hagree, hshows 2 2 rfl⟩

end PiiProxy
