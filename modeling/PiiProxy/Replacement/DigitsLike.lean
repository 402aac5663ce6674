import PiiProxy.Lib.Positions
import PiiProxy.Replacement.Draws

/-!
# Redrawing the digits of a value

`digits_like` redraws the decimal digits of a value behind a prefix. A draw that repeats the value
is answered by raising its last mutable digit by one, modulo ten, and a value without mutable digits
by an error. So the result differs from the value, and in its mutable digits only.

## Main definitions

* `mutablePositions`: the positions of the decimal digits behind the prefix.
* `RedrawnAt`: a text differs from a value, at some of the given positions, and has digits there.

## Main results

* `mem_mutablePositions`: which positions are mutable.
* `digitsLike_spec`: `digits_like` changes the value, and nothing but its mutable digits.
-/

namespace PiiProxy

/-- The positions of the decimal digits after the first `keepPrefixDigits`. -/
def mutablePositions (rt : Runtime) (value : Text) (keepPrefixDigits : ℤ) : List ℕ :=
  (decimalPositions rt value).drop keepPrefixDigits.toNat

/-- The text is not the value, is equally long, has decimal digits at the given positions and the
characters of the value at all others. -/
structure RedrawnAt (u : Unicode) (value : Text) (positions : List ℕ) (result : Text) : Prop where
  ne : result ≠ value
  length_eq : result.length = value.length
  fixed : ∀ i, i ∉ positions → result[i]? = value[i]?
  digit : ∀ i ∈ positions, ∃ c, result[i]? = some c ∧ u.isDecimal c = true

variable {rt : Runtime} {seed : ℕ}

/-! ### Positions -/

/-- A position is mutable when a decimal digit stands there, with enough of them before it. -/
theorem mem_mutablePositions {value : Text} {keep : ℤ} {i : ℕ} :
    i ∈ mutablePositions rt value keep ↔ ∃ c, value[i]? = some c ∧
      rt.unicode.isDecimal c = true ∧ keep ≤ (value.take i).countP rt.unicode.isDecimal := by
  have hdrop := Positions.mem_drop_positions (p := rt.unicode.isDecimal) (s := value) (i := i)
    (k := keep.toNat)
  simp only [Int.toNat_le] at hdrop
  exact hdrop

/-! ### The loop -/

variable {u : Unicode}

theorem showNat_digit {d : ℕ} (hd : d < 10) : showNat d = [Nat.digitChar d] :=
  Nat.toDigits_of_lt_base hd

private theorem digitChar_spec {d : ℕ} (hd : d < 10) :
    (Nat.digitChar d).isDigit = true ∧ (Nat.digitChar d).toNat - '0'.toNat = d := by
  interval_cases d <;> decide

theorem isDecimal_digitChar {d : ℕ} (hd : d < 10) : u.isDecimal (Nat.digitChar d) = true :=
  u.isDecimal_of_ascii _ (digitChar_spec hd).1

theorem digitValue_digitChar {d : ℕ} (hd : d < 10) : u.digitValue (Nat.digitChar d) = d :=
  (u.digitValue_ascii _ (digitChar_spec hd).1).trans (digitChar_spec hd).2

/-- The character at a position of the value, and what stands there after the loop: a decimal digit
where one is redrawn, the character itself elsewhere. -/
private def Redrawn (u : Unicode) (keep : ℤ) (seen : ℕ) (value result : Text) : Prop :=
  result.length = value.length ∧ ∀ i c, value[i]? = some c →
    if u.isDecimal c = true ∧ keep ≤ seen + (value.take i).countP u.isDecimal then
      ∃ c', result[i]? = some c' ∧ u.isDecimal c' = true
    else result[i]? = some c

private theorem Redrawn.cons {keep : ℤ} {seen : ℕ} {a b : Char} {value result : Text}
    (hhead : if u.isDecimal a = true ∧ keep ≤ seen then u.isDecimal b = true else b = a)
    (htail : Redrawn u keep (seen + if u.isDecimal a then 1 else 0) value result) :
    Redrawn u keep seen (a :: value) (b :: result) := by
  obtain ⟨hlen, htail⟩ := htail
  refine ⟨congrArg (· + 1) hlen, fun i c hc => ?_⟩
  cases i with
  | zero =>
    obtain rfl : a = c := Option.some.inj hc
    rw [List.take_zero, List.countP_nil, Nat.cast_zero, add_zero]
    split_ifs at hhead ⊢
    · exact ⟨b, rfl, hhead⟩
    · exact congrArg some hhead
  | succ i =>
    have hcount : (seen : ℤ) + ((a :: value).take (i + 1)).countP u.isDecimal =
        ((seen + if u.isDecimal a then 1 else 0 : ℕ) : ℤ) + (value.take i).countP u.isDecimal := by
      rw [List.take_succ_cons, List.countP_cons]
      push_cast
      ring
    rw [hcount]
    exact htail i c hc

/-- What the loop of `digits_like` returns. -/
private theorem always_redrawDigits (keep : ℤ) (value : Text) (seen : ℕ) :
    (redrawDigits rt seed keep seen value).Always (Redrawn rt.unicode keep seen value) := by
  induction value generalizing seen with
  | nil =>
    rw [redrawDigits]
    exact Gen.always_pure ⟨rfl, by simp⟩
  | cons a value ih =>
    rw [redrawDigits]
    split_ifs with ha hseen
    · have ih := ih (seen + 1)
      refine Gen.always_bind ih fun tail htail => Gen.always_pure (.cons ?_ ?_)
      · rw [if_neg fun h => absurd h.2 (not_le.2 hseen)]
      · rwa [if_pos ha]
    · refine Gen.always_bind always_digit fun d hd =>
        Gen.always_bind (ih (seen + 1)) fun tail htail =>
        Gen.always_pure ?_
      rw [showNat_digit hd, List.singleton_append]
      refine .cons ?_ ?_
      · rw [if_pos ⟨ha, not_lt.1 hseen⟩]
        exact isDecimal_digitChar hd
      · rwa [if_pos ha]
    · refine Gen.always_bind (ih seen) fun tail htail => Gen.always_pure (.cons ?_ ?_)
      · rw [if_neg fun h => ha h.1]
      · rwa [if_neg ha]

/-- The loop raises nothing but that a rejection loop is not followed further. -/
private theorem onlyRaises_redrawDigits (keep : ℤ) (value : Text) (seen : ℕ) :
    (redrawDigits rt seed keep seen value).OnlyRaises (· = .exhausted) := by
  induction value generalizing seen with
  | nil =>
    rw [redrawDigits]
    exact Gen.onlyRaises_pure _
  | cons a value ih =>
    rw [redrawDigits]
    split_ifs
    · exact Gen.onlyRaises_bind (ih _) fun _ => Gen.onlyRaises_pure _
    · exact Gen.onlyRaises_bind onlyRaises_digit fun _ =>
        Gen.onlyRaises_bind (ih _) fun _ => Gen.onlyRaises_pure _
    · exact Gen.onlyRaises_bind (ih _) fun _ => Gen.onlyRaises_pure _

/-- The loop returns. -/
private theorem returns_redrawDigits (haccepts : Accepts rt seed 10) (keep : ℤ) (value : Text)
    (seen : ℕ) : Returns rt fun rt' => redrawDigits rt' seed keep seen value := by
  induction value generalizing seen with
  | nil => exact returns_congr (fun _ => by rw [redrawDigits]) (returns_pure [])
  | cons a value ih =>
    have hunicode (fuel : ℕ) : (rt.withFuel fuel).unicode = rt.unicode := rfl
    by_cases ha : rt.unicode.isDecimal a = true
    · by_cases hseen : (seen : ℤ) < keep
      · refine returns_congr (fun fuel => ?_)
          (returns_bind (ih (seen + 1)) fun tail => returns_pure (a :: tail))
        rw [redrawDigits, hunicode, if_pos ha, if_pos hseen]
      · refine returns_congr (fun fuel => ?_) (returns_bind (returns_digit haccepts) fun d =>
          returns_bind (ih (seen + 1)) fun tail => returns_pure (showNat d ++ tail))
        rw [redrawDigits, hunicode, if_pos ha, if_neg hseen]
    · refine returns_congr (fun fuel => ?_)
        (returns_bind (ih seen) fun tail => returns_pure (a :: tail))
      rw [redrawDigits, hunicode, if_neg ha]

/-- Without mutable digits the loop returns the value. -/
private theorem redrawDigits_eq_self {keep : ℤ} {value : Text} {seen : ℕ}
    (h : ∀ i c, value[i]? = some c → rt.unicode.isDecimal c = true →
      (seen : ℤ) + (value.take i).countP rt.unicode.isDecimal < keep) :
    redrawDigits rt seed keep seen value = pure value := by
  induction value generalizing seen with
  | nil => rw [redrawDigits]
  | cons a value ih =>
    have hhead := h 0 a rfl
    rw [List.take_zero, List.countP_nil, Nat.cast_zero, add_zero] at hhead
    have htail (i : ℕ) (c : Char) (hc : value[i]? = some c)
      (hdecimal : rt.unicode.isDecimal c = true) :
        ((seen + if rt.unicode.isDecimal a then 1 else 0 : ℕ) : ℤ) +
          (value.take i).countP rt.unicode.isDecimal < keep := by
      have hlt := h (i + 1) c hc hdecimal
      rw [List.take_succ_cons, List.countP_cons] at hlt
      push_cast at hlt ⊢
      omega
    rw [redrawDigits]
    split_ifs with ha hseen
    · rw [if_pos ha] at htail
      rw [ih htail, pure_bind]
    · exact absurd (hhead ha) hseen
    · rw [if_neg ha, Nat.add_zero] at htail
      rw [ih htail, pure_bind]

/-! ### The result -/

private theorem Redrawn.redrawnAt {keep : ℤ} {value result : Text}
    (h : Redrawn rt.unicode keep 0 value result) (hne : result ≠ value) :
    RedrawnAt rt.unicode value (mutablePositions rt value keep) result := by
  obtain ⟨hlen, hchars⟩ := h
  simp only [Nat.cast_zero, zero_add] at hchars
  refine ⟨hne, hlen, fun i hi => ?_, fun i hi => ?_⟩
  · rw [mem_mutablePositions] at hi
    cases hc : value[i]? with
    | none =>
      rw [List.getElem?_eq_none_iff] at hc ⊢
      exact hlen ▸ hc
    | some c =>
      have hat := hchars i c hc
      rwa [if_neg fun hmutable => hi ⟨c, hc, hmutable⟩] at hat
  · obtain ⟨c, hc, hmutable⟩ := mem_mutablePositions.1 hi
    have hat := hchars i c hc
    rwa [if_pos hmutable] at hat

/-- The last mutable digit raised by one, modulo ten. -/
private theorem redrawnAt_set {keep : ℤ} {value : Text} {index : ℕ}
    (hindex : index ∈ mutablePositions rt value keep) :
    RedrawnAt rt.unicode value (mutablePositions rt value keep)
      (value.take index ++ showNat ((rt.unicode.digitValue (value.getD index '0') + 1) % 10) ++
        value.drop (index + 1)) := by
  obtain ⟨c, hc, hdecimal, -⟩ := mem_mutablePositions.1 hindex
  have hlt : index < value.length := (List.getElem?_eq_some_iff.1 hc).1
  have hgetD : value.getD index '0' = c := by rw [List.getD_eq_getElem?_getD, hc, Option.getD_some]
  have hvalue := rt.unicode.digitValue_lt c hdecimal
  have hd : (rt.unicode.digitValue c + 1) % 10 < 10 := Nat.mod_lt _ (by decide)
  have hset : value.take index ++ showNat
    ((rt.unicode.digitValue (value.getD index '0') + 1) % 10) ++
      value.drop (index + 1) =
        value.set index (Nat.digitChar ((rt.unicode.digitValue c + 1) % 10)) := by
    rw [hgetD, showNat_digit hd, List.set_eq_take_append_cons_drop, if_pos hlt, List.append_assoc,
      List.singleton_append]
  rw [hset]
  refine ⟨fun heq => ?_, List.length_set, fun i hi => ?_, fun i hi => ?_⟩
  · -- the digit written has another value than the one that stood there
    have hsame := congrArg (fun s => s[index]?) heq
    rw [List.getElem?_set_self hlt, hc, Option.some.injEq] at hsame
    have hraised := digitValue_digitChar (u := rt.unicode) hd
    rw [hsame] at hraised
    omega
  · rw [List.getElem?_set_ne]
    rintro rfl
    exact hi hindex
  · by_cases hii : index = i
    · subst hii
      exact ⟨_, List.getElem?_set_self hlt, isDecimal_digitChar hd⟩
    · obtain ⟨c', hc', hdecimal', -⟩ := mem_mutablePositions.1 hi
      exact ⟨c', (List.getElem?_set_ne hii).trans hc', hdecimal'⟩

/-- What `digits_like` does with the text that the loop returned. -/
private def afterRedraw (rt : Runtime) (value : Text) (keep : ℤ) (result : Text) : Gen Text :=
  if result != value then return result
  else match (mutablePositions rt value keep).getLast? with
    | none => throw (.valueError "value has no mutable decimal digits".toList)
    | some index =>
      return result.take index ++
        showNat ((rt.unicode.digitValue (value.getD index '0') + 1) % 10) ++ result.drop (index + 1)

private theorem digitsLike_eq (value : Text) (keep : ℤ) :
    digitsLike rt seed value keep =
      redrawDigits rt seed keep 0 value >>= afterRedraw rt value keep := rfl

/-- A value with mutable digits has a last one, and the text that the loop returned leads to a
result. -/
private theorem afterRedraw_eq {value : Text} {keep : ℤ} (h : mutablePositions rt value keep ≠ [])
    (redrawn : Text) : ∃ result, afterRedraw rt value keep redrawn = pure result := by
  rw [afterRedraw, List.getLast?_eq_some_getLast h]
  split_ifs
  · exact ⟨_, rfl⟩
  · exact ⟨_, rfl⟩

private theorem always_afterRedraw {value redrawn : Text} {keep : ℤ}
    (h : Redrawn rt.unicode keep 0 value redrawn) :
    (afterRedraw rt value keep redrawn).Always
      (RedrawnAt rt.unicode value (mutablePositions rt value keep)) := by
  rw [afterRedraw]
  split_ifs with hne
  · exact Gen.always_pure (h.redrawnAt (by simpa using hne))
  · have heq : redrawn = value := by simpa using hne
    rw [heq]
    cases hlast : (mutablePositions rt value keep).getLast? with
    | none => exact Gen.always_throw _
    | some index => exact Gen.always_pure (redrawnAt_set (List.mem_of_getLast? hlast))

/-- **`digits_like` changes the value, and nothing but its mutable digits.** It raises the error of
a value without mutable digits exactly for those. What it returns otherwise is another text that
agrees with the value except at its mutable digits, where it has decimal digits; and it returns,
provided that the stream goes on to have draws that are accepted. -/
theorem digitsLike_spec (rt : Runtime) (seed : ℕ) (value : Text) (keep : ℤ) (c : ℕ) :
    ((∃ message, digitsLike rt seed value keep c = .error (.valueError message)) ↔
      mutablePositions rt value keep = []) ∧
    (∀ result c', digitsLike rt seed value keep c = .ok (result, c') →
      RedrawnAt rt.unicode value (mutablePositions rt value keep) result) ∧
    (Accepts rt seed 10 → mutablePositions rt value keep ≠ [] →
      ∃ N, ∀ fuel, N ≤ fuel → ∃ result c',
        digitsLike (rt.withFuel fuel) seed value keep c = .ok (result, c')) := by
  refine ⟨⟨fun ⟨message, hraised⟩ => ?_, fun hnone => ?_⟩, fun result c' => ?_,
    fun haccepts hsome => ?_⟩
  · by_contra hsome
    have honly : (digitsLike rt seed value keep).OnlyRaises (· = .exhausted) := by
      rw [digitsLike_eq]
      refine Gen.onlyRaises_bind (onlyRaises_redrawDigits keep value 0) fun redrawn => ?_
      obtain ⟨result, hresult⟩ := afterRedraw_eq hsome redrawn
      rw [hresult]
      exact Gen.onlyRaises_pure result
    cases honly c _ hraised
  · have hself : redrawDigits rt seed keep 0 value = pure value := by
      refine redrawDigits_eq_self fun i c hc hdecimal => ?_
      by_contra hle
      rw [Nat.cast_zero, zero_add, not_lt] at hle
      have hmem : i ∈ mutablePositions rt value keep :=
        mem_mutablePositions.2 ⟨c, hc, hdecimal, hle⟩
      rw [hnone] at hmem
      cases hmem
    rw [digitsLike_eq, hself, pure_bind, afterRedraw, hnone, bne_self_eq_false]
    exact ⟨_, rfl⟩
  · rw [digitsLike_eq]
    exact Gen.always_bind (always_redrawDigits keep value 0)
      (fun _ => always_afterRedraw) c result c'
  · have hfinish (redrawn : Text) : Returns rt fun rt' => afterRedraw rt' value keep redrawn := by
      obtain ⟨result, hresult⟩ := afterRedraw_eq hsome redrawn
      refine returns_congr (fun _ => ?_) (returns_pure result)
      exact hresult
    have hreturns : Returns rt fun rt' => digitsLike rt' seed value keep :=
      returns_bind (returns_redrawDigits haccepts keep value 0) hfinish
    obtain ⟨N, result, c', hrun⟩ := hreturns c
    exact ⟨N, fun fuel hfuel => ⟨result, c', hrun fuel hfuel⟩⟩

end PiiProxy
