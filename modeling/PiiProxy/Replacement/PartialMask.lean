import PiiProxy.Core.Runtime

/-!
# Partial masks and tokens

The maskers of `app/replacement/partial.py`, which replace characters by stars and keep the format
of a value, and the tokens of `app/replacement/tokens.py`.

## Main definitions

* `maskAlnum`, `maskName`, `maskEmail`, `maskPhone`, `maskPassport`, `maskCard`, `maskNumeric`.
* `partialMask`: the masker of each type.
* `tokenPrefix`, `tokenFor`.
-/

namespace PiiProxy

variable (u : Unicode)

/-- `mask_alnum`. -/
def maskAlnum (value : Text) : Text := value.map fun c => if u.isAlnum c then '*' else c

/-- `mask_name`: the initials of the words. -/
def maskName (value : Text) : Text :=
  joinWords ((u.splitWords (u.strip value)).map fun p =>
    u.upper [(p.find? u.isAlpha).getD '*'] ++ ['.'])

/-- The parts of `value` before and after its last `@`: `value.rsplit("@", 1)`. -/
def rsplitAt (value : Text) : Text × Text :=
  let r := value.reverse
  (((r.dropWhile (· != '@')).drop 1).reverse, (r.takeWhile (· != '@')).reverse)

theorem rsplitAt_append {a b : Text} (hb : '@' ∉ b) :
    rsplitAt (a ++ '@' :: b) = (a, b) := by
  have hother : ∀ c ∈ b.reverse, (c != '@') = true := by
    intro c hc
    refine bne_iff_ne.2 ?_
    rintro rfl
    exact hb (List.mem_reverse.1 hc)
  have hreverse : (a ++ '@' :: b).reverse = b.reverse ++ '@' :: a.reverse := by simp
  have htake : (b.reverse ++ '@' :: a.reverse).takeWhile (· != '@') = b.reverse := by
    rw [List.takeWhile_append_of_pos hother, List.takeWhile_cons_of_neg (by decide),
      List.append_nil]
  have hdrop : (b.reverse ++ '@' :: a.reverse).dropWhile (· != '@') = '@' :: a.reverse := by
    rw [List.dropWhile_append_of_pos hother, List.dropWhile_cons_of_neg (by decide)]
  simp only [rsplitAt, hreverse, htake, hdrop, List.drop_one, List.tail_cons, List.reverse_reverse]

/-- The last occurrence of a character splits a text. -/
theorem exists_last_at {value : Text} (h : '@' ∈ value) :
    ∃ a b, value = a ++ '@' :: b ∧ '@' ∉ b := by
  obtain ⟨b, a, heq, hb⟩ := List.eq_append_cons_of_mem (List.mem_reverse.2 h)
  refine ⟨a.reverse, b.reverse, ?_, fun hmem => hb (List.mem_reverse.1 hmem)⟩
  have hreverse := congrArg List.reverse heq
  simpa using hreverse

/-- `mask_email`. -/
def maskEmail (value : Text) : Text :=
  if '@' ∈ value then
    maskAlnum u (rsplitAt value).1 ++ ['@'] ++ maskAlnum u (rsplitAt value).2
  else maskAlnum u value

/-- Where the `@` is no letter and no digit, an address is masked like any other value. -/
theorem maskEmail_eq {u : Unicode} (hat : u.isAlnum '@' = false) (value : Text) :
    maskEmail u value = maskAlnum u value := by
  rw [maskEmail]
  split_ifs with hmem
  · obtain ⟨a, b, rfl, hb⟩ := exists_last_at hmem
    rw [rsplitAt_append hb, maskAlnum, maskAlnum, maskAlnum, List.map_append, List.map_cons, hat,
      List.append_assoc]
    rfl
  · rfl

/-- `[i for i, c in enumerate(value) if c.isdigit()]`. -/
def digitPositions (value : Text) : List ℕ :=
  (List.range value.length).filter fun i => (value[i]?.map u.isDigit).getD false

/-- Star out the digits of `value` whose position is not in `keep`. -/
def starDigits (value : Text) (keep : List ℕ) : Text :=
  value.mapIdx fun i c => if u.isDigit c && !keep.contains i then '*' else c

/-- `mask_phone`: the first digit stays. -/
def maskPhone (value : Text) : Text :=
  starDigits u value ((digitPositions u value).take 1)

/-- The first `n` and the last `m` positions: `positions[:n] + positions[-m:]`. -/
private def firstLast (positions : List ℕ) (n m : ℕ) : List ℕ :=
  positions.take n ++ positions.drop (positions.length - m)

/-- `mask_passport`. -/
def maskPassport (value : Text) : Text :=
  starDigits u value (firstLast (digitPositions u value) 2 2)

/-- `mask_card`. -/
def maskCard (value : Text) : Text :=
  starDigits u value (firstLast (digitPositions u value) 4 4)

/-- `mask_numeric`: keeps nothing when `first` and `last` would show every digit. -/
def maskNumeric (value : Text) (first last : ℕ) : Text :=
  let positions := digitPositions u value
  starDigits u value (if first + last < positions.length
    then firstLast positions first last else [])

/-- `partial_mask`. -/
def partialMask (type : PIIType) (value : Text) : Text :=
  match type with
  | .fullName | .cardholder => maskName u value
  | .email => maskEmail u value
  | .phone => maskPhone u value
  | .passport => maskPassport u value
  | .cardNumber => maskCard u value
  | .driverLicense | .inn => maskNumeric u value 2 2
  | _ => maskAlnum u value

/-! ### Tokens -/

/-- `TOKEN_PREFIX`. -/
def tokenPrefix : PIIType → Text
  | .fullName => "PERSON".toList
  | .cardNumber => "CARD".toList
  | t => t.value

/-- `token_for`. -/
def tokenFor (entityId : Text) : Text := ['<'] ++ entityId ++ ['>']

end PiiProxy
