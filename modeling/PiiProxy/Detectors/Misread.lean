import PiiProxy.GoService.Checksums
import PiiProxy.Lib.CheckDigits

/-!
# Misread numbers

What the checksums of `app/detectors/checksums.py` and `go-service/pii/checksums.go` are for: a
number with a wrong digit is not taken for a card number or a tax number. The Luhn checksum notices
every wrong digit, and every swap of neighbours but that of `0` and `9`. A check digit of a tax
number is a remainder modulo 11, with 10 written as 0, so a wrong digit goes unnoticed at most when
every check digit is `0`.

## Main results

* `luhnSum_substitute_iff`, `luhnSum_swap_iff`: what the Luhn checksum notices.
* `check_eq_zero`: a check digit modulo 11 notices a wrong digit, or it is 0.
* `checksums_notice`: what both checksums notice, in both languages.
-/

namespace PiiProxy

open CheckDigits

variable {u : Unicode}

/-! ### The Luhn checksum -/

private theorem luhnTerm_modEq_iff {parity i a b : ℕ} (ha : a < 10) (hb : b < 10) :
    luhnTerm parity i a ≡ luhnTerm parity i b [MOD 10] ↔ a = b := by
  simp only [luhnTerm, Nat.ModEq]
  split_ifs <;> omega

/-- Neighbours that have the same terms in the one order as in the other. -/
private theorem luhnTerm_swap_iff {parity i a b : ℕ} (hparity : parity < 2) (ha : a < 10)
    (hb : b < 10) :
    luhnTerm parity i a + luhnTerm parity (i + 1) b ≡
        luhnTerm parity i b + luhnTerm parity (i + 1) a [MOD 10] ↔
      a = b ∨ a = 0 ∧ b = 9 ∨ a = 9 ∧ b = 0 := by
  have hnext : (i + 1) % 2 = parity ↔ ¬i % 2 = parity := by omega
  by_cases hi : i % 2 = parity
  · simp only [luhnTerm, hi, hnext, Nat.ModEq, not_true, if_true, if_false]
    split_ifs <;> omega
  · simp only [luhnTerm, hi, hnext, Nat.ModEq, not_false_eq_true, if_true, if_false]
    split_ifs <;> omega

theorem luhnSum_eq_total (ds : List ℕ) :
    luhnSum ds = total (luhnTerm (ds.length % 2)) ds := rfl

/-- **The Luhn checksum notices every wrong digit.** -/
theorem luhnSum_substitute_iff {p q : List ℕ} {a b : ℕ} (ha : a < 10) (hb : b < 10) :
    luhnSum (p ++ a :: q) ≡ luhnSum (p ++ b :: q) [MOD 10] ↔ a = b := by
  have hlen : (p ++ b :: q).length = (p ++ a :: q).length := by simp
  rw [luhnSum_eq_total, luhnSum_eq_total, hlen, total_substitute_modEq_iff,
    luhnTerm_modEq_iff ha hb]

/-- **The Luhn checksum notices every swap of neighbours** but that of `0` and `9`. -/
theorem luhnSum_swap_iff {p q : List ℕ} {a b : ℕ} (ha : a < 10) (hb : b < 10) :
    luhnSum (p ++ a :: b :: q) ≡ luhnSum (p ++ b :: a :: q) [MOD 10] ↔
      a = b ∨ a = 0 ∧ b = 9 ∨ a = 9 ∧ b = 0 := by
  have hlen : (p ++ b :: a :: q).length = (p ++ a :: b :: q).length := by simp
  rw [luhnSum_eq_total, luhnSum_eq_total, hlen, total_swap_modEq_iff,
    luhnTerm_swap_iff (Nat.mod_lt _ (by decide)) ha hb]

/-! ### Check digits modulo 11 -/

theorem weightedSum_eq_total (ds weights : List ℕ) :
    weightedSum ds weights = total (fun i d => d * weights.getD i 0) ds := by
  rw [weightedSum]
  induction ds generalizing weights with
  | nil => rfl
  | cons d ds ih =>
    cases weights with
    | nil => simp [total, List.mapIdx_eq_zipIdx_map]
    | cons w weights =>
      rw [List.zipWith_cons_cons, List.sum_cons, ih, total_cons]
      simp

/-- A weight that is prime to 11 tells the digits apart. -/
private theorem mul_modEq_iff {w a b : ℕ} (hw : w % 11 ≠ 0) (ha : a < 10) (hb : b < 10) :
    a * w ≡ b * w [MOD 11] ↔ a = b := by
  constructor
  · intro h
    have hcoprime : Nat.gcd 11 w = 1 := by
      rw [← Nat.Coprime, Nat.Prime.coprime_iff_not_dvd (by norm_num)]
      exact fun hdvd => hw (Nat.mod_eq_zero_of_dvd hdvd)
    have hmod := Nat.ModEq.cancel_right_of_coprime hcoprime h
    rw [Nat.ModEq] at hmod
    omega
  · rintro rfl
    rfl

/-- **A check digit modulo 11 notices a wrong digit, or it is 0**: then the remainders are 0 and
10. -/
theorem check_eq_zero {weights p q : List ℕ} {a b : ℕ} (hw : weights.getD p.length 0 % 11 ≠ 0)
    (ha : a < 10) (hb : b < 10) (hne : a ≠ b)
    (hcheck : weightedSum (p ++ a :: q) weights % 11 % 10 =
      weightedSum (p ++ b :: q) weights % 11 % 10) :
    weightedSum (p ++ a :: q) weights % 11 % 10 = 0 := by
  have hsums : ¬weightedSum (p ++ a :: q) weights ≡ weightedSum (p ++ b :: q) weights [MOD 11] := by
    rw [weightedSum_eq_total, weightedSum_eq_total, total_substitute_modEq_iff,
      mul_modEq_iff hw ha hb]
    exact hne
  rw [Nat.ModEq] at hsums
  omega

/-! ### Tax numbers -/

/-- The digits of a tax number. -/
def InnDigits (ds : List ℕ) : Prop :=
  ds.length = 10 ∧ ds[9]? = some (inn10Checksum (ds.take 9)) ∨
    ds.length = 12 ∧ ds[10]? = some (inn12Checks (ds.take 10)).1 ∧
      ds[11]? = some (inn12Checks (ds.take 10)).2

theorem innValid_iff {s : Text} (hs : DigitString s) :
    innValid u s = true ↔ InnDigits (digitValues u s) := by
  have hlen : (digitValues u s).length = s.length := List.length_map _
  have hdigits : s.all u.isDigit = true := hs.all_isDigit
  simp only [innValid, InnDigits, hlen, hdigits, Bool.and_true, Bool.and_eq_true, Bool.not_eq_true',
    List.isEmpty_eq_false_iff]
  constructor
  · rintro ⟨-, h⟩
    split_ifs at h with hten htwelve
    · exact .inl ⟨hten, (beq_iff_eq.1 h).symm⟩
    · rw [Bool.and_eq_true, beq_iff_eq, beq_iff_eq] at h
      exact .inr ⟨htwelve, h.1.symm, h.2.symm⟩
  · rintro (⟨hten, h⟩ | ⟨htwelve, hfirst, hsecond⟩)
    · refine ⟨List.ne_nil_of_length_pos (by omega), ?_⟩
      rw [if_pos hten, h, beq_self_eq_true]
    · refine ⟨List.ne_nil_of_length_pos (by omega), ?_⟩
      rw [if_neg (by omega), if_pos htwelve, hfirst, hsecond, beq_self_eq_true, beq_self_eq_true]
      rfl

/-- The wrong digit is not a check digit, and every check digit is `zero`. -/
def ChecksZero {α : Type} (zero : α) (p s : List α) : Prop :=
  s.length = 10 ∧ p.length < 9 ∧ s[9]? = some zero ∨
    s.length = 12 ∧ p.length < 10 ∧ s[10]? = some zero ∧ s[11]? = some zero

private theorem getElem?_of_gt {p q : List ℕ} {a b n : ℕ} (hn : p.length < n) :
    (p ++ a :: q)[n]? = (p ++ b :: q)[n]? := by
  obtain ⟨k, rfl⟩ := Nat.exists_eq_add_of_lt hn
  rw [List.getElem?_append_right (by omega), List.getElem?_append_right (by omega)]
  have hk : p.length + k + 1 - p.length = k + 1 := by omega
  rw [hk, List.getElem?_cons_succ, List.getElem?_cons_succ]

private theorem take_of_gt {p q : List ℕ} {a n : ℕ} (hn : p.length < n) :
    (p ++ a :: q).take n = p ++ a :: q.take (n - 1 - p.length) := by
  obtain ⟨k, rfl⟩ := Nat.exists_eq_add_of_lt hn
  have hk : p.length + k + 1 - 1 - p.length = k := by omega
  rw [Nat.add_assoc, List.take_length_add_append, List.take_succ_cons, ← Nat.add_assoc, hk]

private theorem weights_ne_zero {n : ℕ} :
    (n < 9 → [2, 4, 10, 3, 5, 9, 4, 6, 8].getD n 0 % 11 ≠ 0) ∧
      (n < 10 → [7, 2, 4, 10, 3, 5, 9, 4, 6, 8].getD n 0 % 11 ≠ 0 ∧
        [3, 7, 2, 4, 10, 3, 5, 9, 4, 6, 8].getD n 0 % 11 ≠ 0) := by
  constructor
  · intro hn
    interval_cases n <;> decide
  · intro hn
    interval_cases n <;> decide

private theorem getElem?_length (p q : List ℕ) (a : ℕ) : (p ++ a :: q)[p.length]? = some a := by
  rw [List.getElem?_append_right le_rfl, Nat.sub_self, List.getElem?_cons_zero]

/-- **A wrong digit of a tax number goes unnoticed** only when it is not a check digit and every
check digit is 0. -/
theorem innDigits_substitute {p q : List ℕ} {a b : ℕ} (ha : a < 10) (hb : b < 10) (hne : a ≠ b)
    (h : InnDigits (p ++ a :: q)) (h' : InnDigits (p ++ b :: q)) :
    ChecksZero 0 p (p ++ a :: q) := by
  have hlen : (p ++ b :: q).length = (p ++ a :: q).length := by simp
  have hlength : (p ++ a :: q).length = p.length + (q.length + 1) := List.length_append
  rw [InnDigits, hlen] at h'
  -- a check digit is what it is computed to be
  have hcheck {n : ℕ} (hn : p.length = n) (check : List ℕ → ℕ)
      (h : (p ++ a :: q)[n]? = some (check ((p ++ a :: q).take n)))
      (h' : (p ++ b :: q)[n]? = some (check ((p ++ b :: q).take n))) : False := by
    subst hn
    rw [getElem?_length, List.take_left] at h h'
    exact hne (Option.some.inj (h.trans h'.symm))
  rcases h with ⟨hten, h⟩ | ⟨htwelve, hfirst, hsecond⟩
  · obtain ⟨-, h'⟩ | ⟨htwelve, -⟩ := h'
    swap
    · omega
    have hp : p.length < 9 := by
      by_contra hp
      exact hcheck (by omega) inn10Checksum h h'
    have hsame := getElem?_of_gt (q := q) (a := a) (b := b) hp
    rw [take_of_gt hp] at h h'
    have hzero := check_eq_zero (weights_ne_zero.1 hp) ha hb hne
      (Option.some.inj (h.symm.trans (hsame.trans h')))
    exact .inl ⟨hten, hp, h.trans (congrArg some hzero)⟩
  · obtain ⟨hten, -⟩ | ⟨-, hfirst', hsecond'⟩ := h'
    · omega
    have hp : p.length < 10 := by
      by_contra hp
      rcases (by omega : p.length = 10 ∨ p.length = 11) with hten | heleven
      · exact hcheck hten (fun t => (inn12Checks t).1) hfirst hfirst'
      · refine hcheck heleven (fun t => (inn12Checks (t.take 10)).2) ?_ ?_
        · rw [hsecond, List.take_take]
          rfl
        · rw [hsecond', List.take_take]
          rfl
    have hsame := getElem?_of_gt (q := q) (a := a) (b := b) hp
    have hsame' := getElem?_of_gt (q := q) (a := a) (b := b) (hp.trans (Nat.lt_succ_self 10))
    rw [take_of_gt hp] at hfirst hfirst' hsecond hsecond'
    have heq := Option.some.inj (hfirst.symm.trans (hsame.trans hfirst'))
    have hzero := check_eq_zero (weights_ne_zero.2 hp).1 ha hb hne heq
    -- the second check digit is computed from the first one, too
    have heq' := Option.some.inj (hsecond.symm.trans (hsame'.trans hsecond'))
    simp only [inn12Checks] at heq heq' hsecond
    rw [← heq, List.append_assoc, List.append_assoc, List.cons_append, List.cons_append] at heq'
    rw [List.append_assoc, List.cons_append] at hsecond
    have hzero' := check_eq_zero (weights_ne_zero.2 hp).2 ha hb hne heq'
    exact .inr ⟨htwelve, hp, hfirst.trans (congrArg some hzero),
      hsecond.trans (congrArg some hzero')⟩

/-! ### Digit strings -/

private theorem digitString_wrong {p q : Text} {c c' : Char} (hs : DigitString (p ++ c :: q))
    (hc' : c'.isDigit = true) : DigitString (p ++ c' :: q) := by
  intro d hd
  rcases List.mem_append.1 hd with hd | hd
  · exact hs d (List.mem_append_left _ hd)
  · rcases List.mem_cons.1 hd with rfl | hd
    · exact hc'
    · exact hs d (List.mem_append_right _ (List.mem_cons_of_mem _ hd))

private theorem digitString_swap {p q : Text} {c c' : Char} (hs : DigitString (p ++ c :: c' :: q)) :
    DigitString (p ++ c' :: c :: q) := by
  intro d hd
  refine hs d ?_
  simp only [List.mem_append, List.mem_cons] at hd ⊢
  tauto

/-- A wrong digit in a digit string, and the values of the digits. -/
private theorem digitValues_wrong {p q : Text} {c c' : Char} (hs : DigitString (p ++ c :: q))
    (hc' : c'.isDigit = true) (hne : c ≠ c') :
    ∃ a < 10, ∃ b < 10, a ≠ b ∧
      digitValues u (p ++ c :: q) = digitValues u p ++ a :: digitValues u q ∧
      digitValues u (p ++ c' :: q) = digitValues u p ++ b :: digitValues u q := by
  have hc : c.isDigit = true := hs c (by simp)
  obtain ⟨a, ha, rfl⟩ := isDigit_iff_exists_digit.1 hc
  obtain ⟨b, hb, rfl⟩ := isDigit_iff_exists_digit.1 hc'
  refine ⟨a, ha, b, hb, fun hab => hne (congrArg Nat.digitChar hab), ?_, ?_⟩
  · rw [digitValues, List.map_append, List.map_cons, digitValue_digitChar ha]
    rfl
  · rw [digitValues, List.map_append, List.map_cons, digitValue_digitChar hb]
    rfl

/-- The digit string is accepted when its Luhn sum is a multiple of ten. -/
private theorem luhnValid_iff_modEq {s : Text} (hs : DigitString s) (hne : s ≠ []) :
    luhnValid u s = true ↔ luhnSum (digitValues u s) ≡ 0 [MOD 10] := by
  rw [luhnValid, hs.all_isDigit, List.isEmpty_eq_false_iff.2 hne, Nat.ModEq]
  simp

theorem luhnValid_substitute {p q : Text} {c c' : Char} (hs : DigitString (p ++ c :: q))
    (hc' : c'.isDigit = true) (hne : c ≠ c') (hvalid : luhnValid u (p ++ c :: q) = true) :
    luhnValid u (p ++ c' :: q) = false := by
  have hs' := digitString_wrong hs hc'
  obtain ⟨a, ha, b, hb, hab, hvalues, hvalues'⟩ := digitValues_wrong (u := u) hs hc' hne
  rw [luhnValid_iff_modEq hs (by simp), hvalues] at hvalid
  rw [Bool.eq_false_iff, ne_eq, luhnValid_iff_modEq hs' (by simp), hvalues']
  exact fun hvalid' => hab ((luhnSum_substitute_iff ha hb).1 (hvalid.trans hvalid'.symm))

theorem innValid_substitute {p q : Text} {c c' : Char} (hs : DigitString (p ++ c :: q))
    (hc' : c'.isDigit = true) (hne : c ≠ c') (hvalid : innValid u (p ++ c :: q) = true)
    (hvalid' : innValid u (p ++ c' :: q) = true) : ChecksZero '0' p (p ++ c :: q) := by
  have hs' := digitString_wrong hs hc'
  obtain ⟨a, ha, b, hb, hab, hvalues, hvalues'⟩ := digitValues_wrong (u := u) hs hc' hne
  rw [innValid_iff hs, hvalues] at hvalid
  rw [innValid_iff hs', hvalues'] at hvalid'
  have hzero := innDigits_substitute ha hb hab hvalid hvalid'
  rw [← hvalues] at hzero
  -- a digit with the value 0 is the character
  have hchar {n : ℕ} (h : (digitValues u (p ++ c :: q))[n]? = some 0) :
      (p ++ c :: q)[n]? = some '0' := by
    rw [digitValues, List.getElem?_map, Option.map_eq_some_iff] at h
    obtain ⟨d, hd, hvalue⟩ := h
    obtain ⟨k, hk, rfl⟩ := isDigit_iff_exists_digit.1 (hs d (List.mem_of_getElem? hd))
    rw [digitValue_digitChar hk] at hvalue
    rw [hd, hvalue]
    rfl
  have hlen : (digitValues u (p ++ c :: q)).length = (p ++ c :: q).length := List.length_map _
  have hlenp : (digitValues u p).length = p.length := List.length_map _
  rw [ChecksZero, hlen, hlenp] at hzero
  rcases hzero with ⟨hten, hp, h⟩ | ⟨htwelve, hp, h, h'⟩
  · exact .inl ⟨hten, hp, hchar h⟩
  · exact .inr ⟨htwelve, hp, hchar h, hchar h'⟩

theorem luhnValid_swap {p q : Text} {c c' : Char} (hs : DigitString (p ++ c :: c' :: q))
    (hvalid : luhnValid u (p ++ c :: c' :: q) = true) :
    luhnValid u (p ++ c' :: c :: q) = true ↔ c = c' ∨ c = '0' ∧ c' = '9' ∨ c = '9' ∧ c' = '0' := by
  have hs' := digitString_swap hs
  obtain ⟨a, ha, hca⟩ := isDigit_iff_exists_digit.1 (hs c (by simp))
  obtain ⟨b, hb, hcb⟩ := isDigit_iff_exists_digit.1 (hs c' (by simp))
  have hvalue : u.digitValue c = a := hca ▸ digitValue_digitChar ha
  have hvalue' : u.digitValue c' = b := hcb ▸ digitValue_digitChar hb
  rw [luhnValid_iff_modEq hs (by simp), digitValues, List.map_append, List.map_cons, List.map_cons,
    hvalue, hvalue'] at hvalid
  rw [luhnValid_iff_modEq hs' (by simp), digitValues, List.map_append, List.map_cons, List.map_cons,
    hvalue, hvalue']
  have hsums := @luhnSum_swap_iff (p.map u.digitValue) (q.map u.digitValue) a b ha hb
  have hiff : luhnSum (p.map u.digitValue ++ b :: a :: q.map u.digitValue) ≡ 0 [MOD 10] ↔
      a = b ∨ a = 0 ∧ b = 9 ∨ a = 9 ∧ b = 0 :=
    ⟨fun h => hsums.1 (hvalid.trans h.symm), fun h => (hsums.2 h).symm.trans hvalid⟩
  rw [hiff, hca, hcb]
  have hinj {i j : ℕ} (hi : i < 10) (hj : j < 10) : Nat.digitChar i = Nat.digitChar j ↔ i = j := by
    refine ⟨fun h => ?_, congrArg _⟩
    have hvalues := congrArg u.digitValue h
    rwa [digitValue_digitChar hi, digitValue_digitChar hj] at hvalues
  rw [hinj ha hb, show '0' = Nat.digitChar 0 from rfl, show '9' = Nat.digitChar 9 from rfl,
    hinj ha (by decide), hinj hb (by decide), hinj ha (by decide), hinj hb (by decide)]

namespace GoService

/-- The service accepts card numbers of 13 to 19 digits. -/
theorem length_of_luhnValid {s : Text} (hs : DigitString s)
    (hvalid : luhnValid (Utf8.encode s) = true) : 13 ≤ s.length ∧ s.length ≤ 19 := by
  have hlen : (digitsOf (Utf8.encode s)).length = s.length := by
    rw [digitsOf_encode (u := basicUnicode) hs, digitValues, List.length_map]
  simp only [luhnValid, hlen, Bool.and_eq_true, decide_eq_true_eq] at hvalid
  exact hvalid.1

end GoService

/-- **What the checksums notice**, in both languages. A card number with a wrong digit is never
valid, and one with swapped neighbours only when they are `0` and `9`. A tax number with a wrong
digit is valid at most when the digit is not a check digit and every check digit is `0`. -/
theorem checksums_notice (u : Unicode) :
    (∀ p q c d, DigitString (p ++ c :: q) → d.isDigit = true → c ≠ d →
      (luhnValid u (p ++ c :: q) = true → luhnValid u (p ++ d :: q) = false) ∧
      (GoService.luhnValid (Utf8.encode (p ++ c :: q)) = true →
        GoService.luhnValid (Utf8.encode (p ++ d :: q)) = false) ∧
      (innValid u (p ++ c :: q) = true → innValid u (p ++ d :: q) = true →
        ChecksZero '0' p (p ++ c :: q)) ∧
      (GoService.innValid (Utf8.encode (p ++ c :: q)) = true →
        GoService.innValid (Utf8.encode (p ++ d :: q)) = true → ChecksZero '0' p (p ++ c :: q))) ∧
    ∀ p q c d, DigitString (p ++ c :: d :: q) →
      (luhnValid u (p ++ c :: d :: q) = true → (luhnValid u (p ++ d :: c :: q) = true ↔
        c = d ∨ c = '0' ∧ d = '9' ∨ c = '9' ∧ d = '0')) ∧
      (GoService.luhnValid (Utf8.encode (p ++ c :: d :: q)) = true →
        (GoService.luhnValid (Utf8.encode (p ++ d :: c :: q)) = true ↔
          c = d ∨ c = '0' ∧ d = '9' ∨ c = '9' ∧ d = '0')) := by
  constructor
  · intro p q c d hs hd hne
    have hs' := digitString_wrong hs hd
    have hlen : (p ++ d :: q).length = (p ++ c :: q).length := by simp
    refine ⟨luhnValid_substitute hs hd hne, fun hvalid => ?_, innValid_substitute hs hd hne, ?_⟩
    · obtain ⟨hlow, hhigh⟩ := GoService.length_of_luhnValid hs hvalid
      rw [luhnValid_encode (u := u) hs hlow hhigh] at hvalid
      rw [luhnValid_encode (u := u) hs' (hlen ▸ hlow) (hlen ▸ hhigh)]
      exact luhnValid_substitute hs hd hne hvalid
    · rw [innValid_encode (u := u) hs, innValid_encode (u := u) hs']
      exact innValid_substitute hs hd hne
  · intro p q c d hs
    have hs' := digitString_swap hs
    have hlen : (p ++ d :: c :: q).length = (p ++ c :: d :: q).length := by simp
    refine ⟨luhnValid_swap hs, fun hvalid => ?_⟩
    obtain ⟨hlow, hhigh⟩ := GoService.length_of_luhnValid hs hvalid
    rw [luhnValid_encode (u := u) hs hlow hhigh] at hvalid
    rw [luhnValid_encode (u := u) hs' (hlen ▸ hlow) (hlen ▸ hhigh)]
    exact luhnValid_swap hs hvalid

/-- A card number with a wrong digit, and a tax number in which a wrong digit goes unnoticed. -/
theorem checksums_notice_numbers :
    luhnValid basicUnicode "4111111111111112".toList = false ∧
      innValid basicUnicode "3420809390".toList = true ∧
      ChecksZero '0' [] "9420809390".toList := by
  have hwrong : innValid basicUnicode "3420809390".toList = true := by decide +kernel
  exact ⟨((checksums_notice basicUnicode).1 "411111111111111".toList [] '1' '2'
      (List.all_eq_true.1 (by decide)) (by decide) (by decide)).1 (by decide +kernel), hwrong,
    ((checksums_notice basicUnicode).1 [] "420809390".toList '9' '3'
      (List.all_eq_true.1 (by decide)) (by decide) (by decide)).2.2.1 (by decide +kernel) hwrong⟩

end PiiProxy
