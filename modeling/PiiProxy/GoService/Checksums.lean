import PiiProxy.Detectors.Documents
import PiiProxy.GoService.FreshValues
import PiiProxy.Replacement.DigitsLike

/-!
# Checksums

The Luhn checksum and the two check digits of a tax number are computed in four places: by a
validator and a generator in either language. The digit that a generator appends is the one that the
validator accepts, for every digit string, and both validators read a digit string alike, so every
card number and every tax number that is made in one language is accepted in both.

## Main definitions

* `DigitString`: a text of ASCII digits.
* `luhnCheckDigitOf`, `GoService.luhnCheckDigitOf`: the check digit of a string.
* `withoutSeparators`: a card number without spaces and hyphens.

## Main results

* `luhnValid_append_iff`: the check digit is the one digit that makes a digit string valid.
* `luhnValid_encode`, `innValid_encode`: both languages accept the same digit strings.
* `checksums_agree`: generators and validators match in both languages.
-/

namespace PiiProxy

/-- A text of ASCII digits. -/
def DigitString (s : Text) : Prop := ∀ c ∈ s, c.isDigit = true

/-! ### Digit strings -/

section DigitStrings

variable {u : Unicode} {s : Text}

theorem DigitString.append {t : Text} (hs : DigitString s) (ht : DigitString t) :
    DigitString (s ++ t) :=
  List.forall_mem_append.2 ⟨hs, ht⟩

theorem DigitString.digitValues (hs : DigitString s) :
    digitValues u s = s.map fun c => c.toNat - '0'.toNat :=
  List.map_congr_left fun c hc => u.digitValue_ascii c (hs c hc)

theorem DigitString.all_isDigit (hs : DigitString s) : s.all u.isDigit = true :=
  List.all_eq_true.2 fun c hc => u.isDigit_of_isDecimal c (u.isDecimal_of_ascii c (hs c hc))

private theorem toNat_of_isDigit {c : Char} (hc : c.isDigit = true) :
    48 ≤ c.toNat ∧ c.toNat ≤ 57 := by
  simpa [Char.isDigit, UInt32.le_iff_toNat_le] using hc

/-- A digit string holds the digits of its values. -/
theorem isDigit_iff_exists_digit {c : Char} :
    c.isDigit = true ↔ ∃ d < 10, c = Nat.digitChar d := by
  constructor
  · intro hc
    obtain ⟨hle, hge⟩ := toNat_of_isDigit hc
    refine ⟨c.toNat - 48, by omega, ?_⟩
    obtain ⟨n, hn⟩ : ∃ n, c.toNat = n := ⟨_, rfl⟩
    rw [hn] at hle hge ⊢
    rw [← Char.ofNat_toNat c, hn]
    interval_cases n <;> rfl
  · rintro ⟨d, hd, rfl⟩
    interval_cases d <;> rfl

theorem showDigits_eq_map {ds : List ℕ} (hds : ∀ d ∈ ds, d < 10) :
    showDigits ds = ds.map Nat.digitChar := by
  induction ds with
  | nil => rfl
  | cons d ds ih =>
    obtain ⟨hd, hds⟩ := List.forall_mem_cons.1 hds
    rw [showDigits, List.flatMap_cons, showNat_digit hd, List.map_cons, ← ih hds]
    rfl

theorem digitString_showDigits {ds : List ℕ} (hds : ∀ d ∈ ds, d < 10) :
    DigitString (showDigits ds) := by
  intro c hc
  rw [showDigits_eq_map hds] at hc
  obtain ⟨d, hd, rfl⟩ := List.mem_map.1 hc
  exact isDigit_iff_exists_digit.2 ⟨d, hds d hd, rfl⟩

theorem digitValues_showDigits {ds : List ℕ} (hds : ∀ d ∈ ds, d < 10) :
    digitValues u (showDigits ds) = ds := by
  rw [showDigits_eq_map hds, PiiProxy.digitValues, List.map_map]
  exact (List.map_congr_left fun d hd => digitValue_digitChar (hds d hd)).trans (List.map_id ds)

theorem length_showDigits {ds : List ℕ} (hds : ∀ d ∈ ds, d < 10) :
    (showDigits ds).length = ds.length := by
  rw [showDigits_eq_map hds, List.length_map]

namespace GoService

/-- The service reads the digits that the proxy reads. -/
theorem digitsOf_encode (hs : DigitString s) : digitsOf (Utf8.encode s) = digitValues u s := by
  have hall : s.filter (fun c => '0' ≤ c && c ≤ '9') = s := by
    refine List.filter_eq_self.2 fun c hc => ?_
    exact hs c hc
  rw [digitsOf, chars_encode, hall, hs.digitValues]

theorem showDigits_eq_encode {ds : List ℕ} (hds : ∀ d ∈ ds, d < 10) :
    showDigits ds = Utf8.encode (PiiProxy.showDigits ds) := by
  rw [showDigits, showDigits_eq_map hds]
  refine congrArg Utf8.encode (List.map_congr_left fun d hd => ?_)
  have hd := hds d hd
  interval_cases d <;> rfl

end GoService

end DigitStrings

/-! ### The Luhn checksum -/

section Luhn

variable {u : Unicode}

private theorem luhnSumFrom_eq (parity i : ℕ) (ds : List ℕ) :
    GoService.luhnSumFrom parity i ds = (ds.mapIdx fun j d => luhnTerm parity (i + j) d).sum := by
  induction ds generalizing i with
  | nil => rfl
  | cons d ds ih =>
    rw [GoService.luhnSumFrom, ih, List.mapIdx_cons, List.sum_cons, Nat.add_zero]
    simp only [Nat.add_right_comm i 1, Nat.add_assoc]
    rfl

/-- Both languages compute the same sum. -/
theorem luhnSumFrom_eq_luhnSum (ds : List ℕ) :
    GoService.luhnSumFrom (ds.length % 2) 0 ds = luhnSum ds := by
  rw [luhnSumFrom_eq, luhnSum]
  simp only [Nat.zero_add]

/-- The last digit is not doubled. -/
private theorem luhnSum_append (ds : List ℕ) (d : ℕ) :
    luhnSum (ds ++ [d]) = luhnSum (ds ++ [0]) + d := by
  have hlast (e : ℕ) : luhnSum (ds ++ [e]) =
      (ds.mapIdx fun i d => luhnTerm ((ds.length + 1) % 2) i d).sum + e := by
    have hterm : luhnTerm ((ds.length + 1) % 2) ds.length e = e := by
      rw [luhnTerm, if_neg (by omega)]
    rw [luhnSum, List.length_append, List.length_singleton, List.mapIdx_concat, hterm,
      List.sum_append, List.sum_singleton]
  rw [hlast d, hlast 0]
  rfl

/-- **The check digit makes the sum a multiple of ten**, and no other digit does. -/
theorem luhnSum_append_iff (ds : List ℕ) {d : ℕ} (hd : d < 10) :
    luhnSum (ds ++ [d]) % 10 = 0 ↔ d = luhnCheckDigit ds := by
  rw [luhnSum_append, luhnCheckDigit]
  omega

/-- Both languages append the same digit. -/
theorem luhnCheckDigit_eq (ds : List ℕ) : GoService.luhnCheckDigit ds = luhnCheckDigit ds := by
  have hsum := luhnSumFrom_eq_luhnSum (ds ++ [0])
  rw [List.length_append, List.length_singleton] at hsum
  rw [GoService.luhnCheckDigit, luhnCheckDigit, hsum]

theorem luhnCheckDigit_lt (ds : List ℕ) : luhnCheckDigit ds < 10 := Nat.mod_lt _ (by decide)

private theorem luhnValid_iff {s : Text} (hs : DigitString s) (hne : s ≠ []) :
    luhnValid u s = true ↔ luhnSum (digitValues u s) % 10 = 0 := by
  rw [luhnValid, hs.all_isDigit, List.isEmpty_eq_false_iff.2 hne]
  simp

/-- **The check digit is the one digit that makes a digit string valid.** -/
theorem luhnValid_append_iff {p : Text} (hp : DigitString p) {c : Char} (hc : c.isDigit = true) :
    luhnValid u (p ++ [c]) = true ↔ [c] = showNat (luhnCheckDigit (digitValues u p)) := by
  obtain ⟨d, hd, rfl⟩ := isDigit_iff_exists_digit.1 hc
  have hvalues : digitValues u (p ++ [Nat.digitChar d]) = digitValues u p ++ [d] := by
    rw [digitValues, List.map_append, List.map_singleton, digitValue_digitChar hd]
    rfl
  rw [luhnValid_iff (hp.append (by simpa [DigitString] using hc)) (by simp), hvalues,
    luhnSum_append_iff _ hd, showNat_digit (luhnCheckDigit_lt _), List.singleton_inj]
  constructor
  · exact congrArg Nat.digitChar
  · intro heq
    have hvalue := congrArg u.digitValue heq
    rwa [digitValue_digitChar hd, digitValue_digitChar (luhnCheckDigit_lt _)] at hvalue

/-- **Both languages accept the same card numbers.** -/
theorem luhnValid_encode {s : Text} (hs : DigitString s) (hlow : 13 ≤ s.length)
    (hhigh : s.length ≤ 19) : GoService.luhnValid (Utf8.encode s) = luhnValid u s := by
  have hne : s ≠ [] := List.ne_nil_of_length_pos (by omega)
  have hlen : (digitValues u s).length = s.length := List.length_map _
  rw [Bool.eq_iff_iff, luhnValid_iff hs hne, GoService.luhnValid,
    GoService.digitsOf_encode (u := u) hs, luhnSumFrom_eq_luhnSum, hlen]
  simp [hlow, hhigh]

end Luhn

/-! ### Tax numbers -/

section Inn

variable {u : Unicode}

private theorem innCheck_eq (weights d : List ℕ) :
    GoService.innCheck weights d = weightedSum (d.take weights.length) weights % 11 % 10 := by
  rw [GoService.innCheck, weightedSum]
  congr 3
  induction weights generalizing d with
  | nil => simp
  | cons w weights ih =>
    cases d with
    | nil => simp
    | cons a d => simpa using ih d

/-- **Both languages accept the same tax numbers**, of any length. -/
theorem innValid_encode {s : Text} (hs : DigitString s) :
    GoService.innValid (Utf8.encode s) = innValid u s := by
  have hlen : (digitValues u s).length = s.length := List.length_map _
  have hdigits : s.all u.isDigit = true := hs.all_isDigit
  simp only [GoService.innValid, innValid, GoService.digitsOf_encode (u := u) hs, hlen, hdigits,
    Bool.and_true]
  by_cases hten : s.length = 10
  · have hne : s.isEmpty = false :=
      List.isEmpty_eq_false_iff.2 (List.ne_nil_of_length_pos (by omega))
    rw [if_pos hten, if_pos hten, innCheck_eq, hne]
    rfl
  · rw [if_neg hten, if_neg hten]
    by_cases htwelve : s.length = 12
    · have hne : s.isEmpty = false :=
        List.isEmpty_eq_false_iff.2 (List.ne_nil_of_length_pos (by omega))
      rw [if_pos htwelve, if_pos htwelve, innCheck_eq, innCheck_eq, hne, Bool.not_false,
        Bool.true_and]
      by_cases hfirst : (digitValues u s)[10]? = some (inn12Checks ((digitValues u s).take 10)).1
      · -- where the first check digit is right, the second one is computed from the same digits
        have htake : (digitValues u s).take GoService.innW12.length =
            (digitValues u s).take 10 ++ [(inn12Checks ((digitValues u s).take 10)).1] := by
          rw [show GoService.innW12.length = 10 + 1 from rfl, List.take_add_one, hfirst,
            Option.toList_some]
        rw [htake]
        rfl
      · have hneq : (some (inn12Checks ((digitValues u s).take 10)).1 == (digitValues u s)[10]?) =
            false := beq_eq_false_iff_ne.2 (Ne.symm hfirst)
        rw [hneq, Bool.false_and]
        exact (congrArg (· && _) hneq).trans (Bool.false_and _)
    · rw [if_neg htwelve, if_neg htwelve, Bool.and_false]

end Inn

/-! ### What the generators make -/

section Generators

variable {u : Unicode}

private theorem inn10Checksum_lt (ds : List ℕ) : inn10Checksum ds < 10 := Nat.mod_lt _ (by decide)

private theorem inn12Checks_lt (ds : List ℕ) :
    ∀ d ∈ [(inn12Checks ds).1, (inn12Checks ds).2], d < 10 := by
  simp only [List.forall_mem_cons]
  exact ⟨Nat.mod_lt _ (by decide), Nat.mod_lt _ (by decide), by simp⟩

theorem innValid_ten {ds : List ℕ} (hds : ∀ d ∈ ds, d < 10) (hlen : ds.length = 9) :
    innValid u (showDigits (ds ++ [inn10Checksum ds])) = true := by
  have hall : ∀ d ∈ ds ++ [inn10Checksum ds], d < 10 :=
    List.forall_mem_append.2 ⟨hds, by simpa using inn10Checksum_lt ds⟩
  have hlength : (showDigits (ds ++ [inn10Checksum ds])).length = 10 := by
    rw [length_showDigits hall, List.length_append, hlen, List.length_singleton]
  have hne : (showDigits (ds ++ [inn10Checksum ds])).isEmpty = false :=
    List.isEmpty_eq_false_iff.2 (List.ne_nil_of_length_pos (by omega))
  simp only [innValid, digitValues_showDigits hall, (digitString_showDigits hall).all_isDigit,
    hlength, hne, ↓reduceIte]
  simp [← hlen]

theorem innValid_twelve {ds : List ℕ} (hds : ∀ d ∈ ds, d < 10) (hlen : ds.length = 10) :
    innValid u (showDigits (ds ++ [(inn12Checks ds).1, (inn12Checks ds).2])) = true := by
  have hall : ∀ d ∈ ds ++ [(inn12Checks ds).1, (inn12Checks ds).2], d < 10 :=
    List.forall_mem_append.2 ⟨hds, inn12Checks_lt ds⟩
  have hlength : (showDigits (ds ++ [(inn12Checks ds).1, (inn12Checks ds).2])).length = 12 := by
    rw [length_showDigits hall, List.length_append, hlen]
    rfl
  have hne : (showDigits (ds ++ [(inn12Checks ds).1, (inn12Checks ds).2])).isEmpty = false :=
    List.isEmpty_eq_false_iff.2 (List.ne_nil_of_length_pos (by omega))
  have htake : (ds ++ [(inn12Checks ds).1, (inn12Checks ds).2]).take 10 = ds := by
    rw [← hlen, List.take_left]
  simp only [innValid, digitValues_showDigits hall, (digitString_showDigits hall).all_isDigit,
    hlength, hne, ↓reduceIte, htake]
  simp [hlen]

/-- A card number without spaces and hyphens. -/
def withoutSeparators (s : Text) : Text := s.filter fun c => c ≠ ' ' && c ≠ '-'

private theorem card_lt {ds : List ℕ} (hds : ∀ d ∈ ds, d < 10) :
    ∀ d ∈ ds ++ [luhnCheckDigit ds], d < 10 :=
  List.forall_mem_append.2 ⟨hds, by simpa using luhnCheckDigit_lt ds⟩

private theorem digitString_card {ds : List ℕ} (hds : ∀ d ∈ ds, d < 10) (hlen : ds.length = 15) :
    DigitString (showDigits (ds ++ [luhnCheckDigit ds])) ∧
      (showDigits (ds ++ [luhnCheckDigit ds])).length = 16 := by
  refine ⟨digitString_showDigits (card_lt hds), ?_⟩
  rw [length_showDigits (card_lt hds), List.length_append, hlen, List.length_singleton]

/-- The body of a card number with its check digit is valid in both languages. -/
theorem luhnValid_card {ds : List ℕ} (hds : ∀ d ∈ ds, d < 10) (hlen : ds.length = 15) :
    luhnValid u (showDigits (ds ++ [luhnCheckDigit ds])) = true ∧
      GoService.luhnValid (Utf8.encode (showDigits (ds ++ [luhnCheckDigit ds]))) = true := by
  obtain ⟨hdigits, hlength⟩ := digitString_card hds hlen
  have hvalid : luhnValid u (showDigits (ds ++ [luhnCheckDigit ds])) = true := by
    rw [luhnValid_iff hdigits (List.ne_nil_of_length_pos (by omega)),
      digitValues_showDigits (card_lt hds), luhnSum_append_iff ds (luhnCheckDigit_lt ds)]
  refine ⟨hvalid, ?_⟩
  rwa [luhnValid_encode (u := u) hdigits (by omega) (by omega)]

private theorem withoutSeparators_digits {s : Text} (hs : DigitString s) :
    withoutSeparators s = s := by
  refine List.filter_eq_self.2 fun c hc => ?_
  obtain ⟨d, hd, rfl⟩ := isDigit_iff_exists_digit.1 (hs c hc)
  interval_cases d <;> rfl

private theorem groupsOfFour_flatten {s : Text} (hs : s.length = 16) :
    s.take 4 ++ ((s.drop 4).take 4 ++ ((s.drop 8).take 4 ++ (s.drop 12).take 4)) = s := by
  have hlast : (s.drop 12).take 4 = s.drop 12 := List.take_of_length_le (by simp [hs])
  have hstep (k : ℕ) : (s.drop k).take 4 ++ s.drop (k + 4) = s.drop k := by
    rw [← List.drop_drop, List.take_append_drop]
  rw [hlast, hstep 8, hstep 4, ← List.drop_zero (l := s.take 4)]
  exact List.take_append_drop 4 s

/-- The groups joined by a separator are the digits, once the separators are removed. -/
private theorem withoutSeparators_intercalate {sep : Char} (hsep : withoutSeparators [sep] = [])
    {s : Text} (hs : DigitString s) (hlen : s.length = 16) :
    withoutSeparators ([sep].intercalate (groupsOfFour s)) = s := by
  have happ (a b : Text) :
      withoutSeparators (a ++ b) = withoutSeparators a ++ withoutSeparators b :=
    List.filter_append a b
  rw [groupsOfFour, List.intercalate_cons_cons, List.intercalate_cons_cons,
    List.intercalate_cons_cons, List.intercalate_singleton]
  simp only [happ, hsep, List.nil_append, List.append_assoc]
  rw [← happ, ← happ, ← happ, groupsOfFour_flatten hlen, withoutSeparators_digits hs]

variable {rt : Runtime} {seed : ℕ}

/-- Every tax number that is drawn is valid in both languages. -/
theorem always_innNumber {value : Text} (hlen : (rt.unicode.onlyDigits value).length = 10 ∨
    (rt.unicode.onlyDigits value).length = 12) :
    (innNumber rt seed value).Always fun inn =>
      innValid u inn = true ∧ GoService.innValid (Utf8.encode inn) = true := by
  have hboth {ds : List ℕ} (hall : ∀ d ∈ ds, d < 10) (hvalid : innValid u (showDigits ds) = true) :
      innValid u (showDigits ds) = true ∧ GoService.innValid (Utf8.encode (showDigits ds)) = true :=
    ⟨hvalid, (innValid_encode (digitString_showDigits hall)).trans hvalid⟩
  refine Gen.always_bind (always_drawDigits _) fun ds ⟨hds, hlt⟩ => ?_
  split_ifs with hten htwelve
  · rw [hten] at hds
    refine Gen.always_pure (hboth ?_ (innValid_ten hlt hds))
    exact List.forall_mem_append.2 ⟨hlt, by simpa using inn10Checksum_lt ds⟩
  · have htake : ∀ d ∈ ds.take 10, d < 10 := fun d hd => hlt d (List.mem_of_mem_take hd)
    refine Gen.always_pure (hboth ?_ (innValid_twelve htake (by simp [hds, htwelve])))
    exact List.forall_mem_append.2 ⟨htake, inn12Checks_lt _⟩
  · exact absurd hlen (not_or.2 ⟨hten, htwelve⟩)

/-- Every card number that is drawn is valid in both languages, however it is separated. -/
theorem always_cardNumber (value : Text) :
    (cardNumber rt seed value).Always fun card =>
      luhnValid u (withoutSeparators card) = true ∧
        GoService.luhnValid (Utf8.encode (withoutSeparators card)) = true := by
  refine Gen.always_bind (always_randbelow (by decide)) fun first hfirst =>
    Gen.always_bind (always_drawDigits 14) fun rest ⟨hrest, hlt⟩ => ?_
  have hhead : [4, 5, 2].getD first 4 < 10 := by
    interval_cases first <;> decide
  have hbody : ∀ d ∈ [4, 5, 2].getD first 4 :: rest, d < 10 := List.forall_mem_cons.2 ⟨hhead, hlt⟩
  have hfifteen : ([4, 5, 2].getD first 4 :: rest).length = 15 := by rw [List.length_cons, hrest]
  have hvalid := luhnValid_card (u := u) hbody hfifteen
  obtain ⟨hdigits, hsixteen⟩ := digitString_card hbody hfifteen
  split_ifs
  · refine Gen.always_pure ?_
    rwa [withoutSeparators_intercalate (by decide) hdigits hsixteen]
  · refine Gen.always_pure ?_
    rwa [joinWords, withoutSeparators_intercalate (by decide) hdigits hsixteen]
  · refine Gen.always_pure ?_
    rwa [withoutSeparators_digits hdigits]

end Generators

namespace GoService

variable {rt : GoRuntime} {seed : ℤ} {u : Unicode}

private theorem drawMany_spec {n c : ℕ} {drawn : List ℕ × ℕ}
    (h : (drawMany rt seed n).run c = some drawn) :
    drawn.1.length = n ∧ ∀ d ∈ drawn.1, d < 10 := by
  induction n generalizing c drawn with
  | zero =>
    cases h
    exact ⟨rfl, by simp⟩
  | succ n ih =>
    obtain ⟨d, hd, h⟩ := Option.bind_eq_some_iff.1 h
    obtain ⟨ds, hds, h⟩ := Option.bind_eq_some_iff.1 h
    cases h
    obtain ⟨hlen, hlt⟩ := ih hds
    exact ⟨congrArg (· + 1) hlen,
      List.forall_mem_cons.2 ⟨lt_of_intnLoop rt (by decide) rt.fuel hd, hlt⟩⟩

/-- Every card number that the service draws is valid in both languages. -/
theorem luhnValid_synCard {c c' : ℕ} {card : GoString}
    (h : (synCard rt seed).run c = some (card, c')) :
    luhnValid card = true ∧ PiiProxy.luhnValid u (chars card) = true := by
  obtain ⟨drawn, hdrawn, h⟩ := Option.bind_eq_some_iff.1 h
  obtain ⟨hlen, hlt⟩ := drawMany_spec hdrawn
  have hbody : ∀ d ∈ 4 :: drawn.1, d < 10 := List.forall_mem_cons.2 ⟨by decide, hlt⟩
  have hvalid := luhnValid_card (u := u) hbody (by rw [List.length_cons, hlen])
  cases h
  rw [luhnCheckDigit_eq, showDigits_eq_encode (card_lt hbody), chars_encode]
  exact hvalid.symm

/-- Every tax number that the service draws is valid in both languages. -/
theorem innValid_synInn {length c c' : ℕ} {inn : GoString}
    (h : (synInn rt seed length).run c = some (inn, c')) :
    innValid inn = true ∧ PiiProxy.innValid u (chars inn) = true := by
  have hboth {ds : List ℕ} (hall : ∀ d ∈ ds, d < 10)
      (hvalid : PiiProxy.innValid u (PiiProxy.showDigits ds) = true) :
      innValid (showDigits ds) = true ∧ PiiProxy.innValid u (chars (showDigits ds)) = true := by
    rw [showDigits_eq_encode hall, chars_encode,
      innValid_encode (u := u) (digitString_showDigits hall)]
    exact ⟨hvalid, hvalid⟩
  rw [synInn] at h
  split_ifs at h
  · obtain ⟨⟨ds, c₁⟩, hdrawn, h⟩ := Option.bind_eq_some_iff.1 h
    obtain ⟨hlen, hlt⟩ := drawMany_spec hdrawn
    have htake : ∀ d ∈ ds.take 10, d < 10 := fun d hd => hlt d (List.mem_of_mem_take hd)
    have hten : (ds.take 10).length = 10 := by
      rw [List.length_take, hlen]
      decide
    have hfirst : innCheck innW11 ds = (inn12Checks (ds.take 10)).1 := innCheck_eq innW11 ds
    have hsecond : innCheck innW12 (ds.take 10 ++ [(inn12Checks (ds.take 10)).1]) =
        (inn12Checks (ds.take 10)).2 := by
      have hall : (ds.take 10 ++ [(inn12Checks (ds.take 10)).1]).length ≤ innW12.length := by
        rw [List.length_append, hten, List.length_singleton]
        decide
      rw [innCheck_eq, List.take_of_length_le hall]
      rfl
    cases h
    rw [hfirst, hsecond, List.append_assoc, List.singleton_append]
    exact hboth (List.forall_mem_append.2 ⟨htake, inn12Checks_lt _⟩) (innValid_twelve htake hten)
  · obtain ⟨⟨ds, c₁⟩, hdrawn, h⟩ := Option.bind_eq_some_iff.1 h
    obtain ⟨hlen, hlt⟩ := drawMany_spec hdrawn
    have htake : ∀ d ∈ ds.take 9, d < 10 := fun d hd => hlt d (List.mem_of_mem_take hd)
    have hnine : (ds.take 9).length = 9 := by
      rw [List.length_take, hlen]
      decide
    have hcheck : innCheck innW10 ds = inn10Checksum (ds.take 9) := innCheck_eq innW10 ds
    cases h
    rw [hcheck]
    exact hboth (List.forall_mem_append.2 ⟨htake, by simpa using inn10Checksum_lt (ds.take 9)⟩)
      (innValid_ten htake hnine)

/-- `LuhnCheckDigit` of a string. -/
def luhnCheckDigitOf (p : GoString) : UInt8 :=
  ('0'.toNat + luhnCheckDigit ((chars p).map fun ch => ch.toNat - '0'.toNat)).toUInt8

end GoService

/-! ### Both languages -/

/-- `_luhn_check_digit` of a string. -/
def luhnCheckDigitOf (u : Unicode) (p : Text) : Text := showNat (luhnCheckDigit (digitValues u p))

/-- **Generators and validators match in both languages.** The digit that a generator appends is the
one that makes a digit string valid, and the same in both languages; both validators read a number
of 13 to 19 digits alike; and whatever is drawn, both accept every tax number and every card number
that is made in either language. -/
theorem checksums_agree (rt : Runtime) (grt : GoRuntime) :
    (∀ p : Text, DigitString p → ∀ c : Char, c.isDigit = true →
      (luhnValid rt.unicode (p ++ [c]) = true ↔ [c] = luhnCheckDigitOf rt.unicode p)) ∧
    (∀ p : Text, DigitString p →
      Utf8.encode (luhnCheckDigitOf rt.unicode p) = [GoService.luhnCheckDigitOf (Utf8.encode p)]) ∧
    (∀ s : Text, DigitString s → 13 ≤ s.length → s.length ≤ 19 →
      GoService.luhnValid (Utf8.encode s) = luhnValid rt.unicode s) ∧
    (∀ (seed : ℕ) (value : Text), (rt.unicode.onlyDigits value).length = 10 ∨
        (rt.unicode.onlyDigits value).length = 12 →
      (innNumber rt seed value).Always fun inn =>
        innValid rt.unicode inn = true ∧ GoService.innValid (Utf8.encode inn) = true) ∧
    (∀ (seed : ℕ) (value : Text), (cardNumber rt seed value).Always fun card =>
      luhnValid rt.unicode (withoutSeparators card) = true ∧
        GoService.luhnValid (Utf8.encode (withoutSeparators card)) = true) ∧
    (∀ (seed : ℤ) (length c c' : ℕ) (inn : GoString),
      (GoService.synInn grt seed length).run c = some (inn, c') →
        GoService.innValid inn = true ∧ innValid rt.unicode (GoService.chars inn) = true) ∧
    ∀ (seed : ℤ) (c c' : ℕ) (card : GoString),
      (GoService.synCard grt seed).run c = some (card, c') →
        GoService.luhnValid card = true ∧ luhnValid rt.unicode (GoService.chars card) = true := by
  refine ⟨fun p hp c hc => luhnValid_append_iff hp hc, fun p hp => ?_,
    fun s hs hlow hhigh => luhnValid_encode hs hlow hhigh, fun seed value => always_innNumber,
    fun seed value => always_cardNumber value,
    fun seed length c c' inn => GoService.innValid_synInn,
    fun seed c c' card => GoService.luhnValid_synCard⟩
  have hvalues : ((GoService.chars (Utf8.encode p)).map fun ch => ch.toNat - '0'.toNat) =
      digitValues rt.unicode p := by
    rw [GoService.chars_encode, hp.digitValues]
  have hlt := luhnCheckDigit_lt (digitValues rt.unicode p)
  rw [luhnCheckDigitOf, GoService.luhnCheckDigitOf, hvalues, luhnCheckDigit_eq, showNat_digit hlt]
  generalize luhnCheckDigit (digitValues rt.unicode p) = d at hlt
  interval_cases d <;> rfl

end PiiProxy
