import PiiProxy.Lib.Raising

/-!
# Strings and slices of Go

A slice expression panics unless its bounds are in range, and so does an index. A loop without a
bound of its own may also run on: a model of it takes fuel and fails when the fuel is spent.

## Main definitions

* `Go.Fault`, `Go.slice`, `Go.get`: slice expressions and indexing.
* `Go.index`: `strings.Index`.

## Main results

* `Go.slice_eq_ok`: a slice expression within its bounds.
* `Go.index_eq_some`, `Go.index_eq_none`: what the first occurrence says about those before.
-/

namespace Go

variable {α : Type}

/-- Why a computation has no result. -/
inductive Fault where
  /-- A run-time panic: a bound out of range. -/
  | outOfRange
  /-- The fuel of a loop is spent. -/
  | loops
  deriving DecidableEq, Repr

/-- `s[i:j]`. -/
def slice (s : List α) (i j : ℤ) : Except Fault (List α) :=
  if 0 ≤ i ∧ i ≤ j ∧ j ≤ s.length then .ok ((s.take j.toNat).drop i.toNat) else .error .outOfRange

/-- `s[i]`. -/
def get (s : List α) (i : ℕ) : Except Fault α :=
  match s[i]? with
  | some a => .ok a
  | none => .error .outOfRange

theorem slice_eq_ok (s : List α) {i j : ℕ} (hij : i ≤ j) (hj : j ≤ s.length) :
    slice s i j = .ok ((s.take j).drop i) := by
  rw [slice, if_pos ⟨Int.natCast_nonneg i, Int.ofNat_le.2 hij, Int.ofNat_le.2 hj⟩,
    Int.toNat_natCast,
    Int.toNat_natCast]

/-- A slice that ends at the end. -/
theorem slice_to_end (s : List α) {i : ℕ} (hi : i ≤ s.length) :
    slice s i s.length = .ok (s.drop i) := by
  rw [slice_eq_ok s hi le_rfl, List.take_length]

theorem slice_append (t u v : List α) :
    slice (t ++ (u ++ v)) (t.length : ℕ) ((t.length + u.length : ℕ) : ℤ) = .ok u := by
  rw [slice_eq_ok _ (Nat.le_add_right _ _) (by simp), List.take_length_add_append, List.drop_left,
    List.take_left]

theorem get_append (t s : List α) (a : α) : get (t ++ a :: s) t.length = .ok a := by
  simp [get]

variable [DecidableEq α]

/-- `strings.Index`: where the needle is found first. -/
def index (needle : List α) : List α → Option ℕ
  | [] => if needle.isPrefixOf [] then some 0 else none
  | a :: s => if needle.isPrefixOf (a :: s) then some 0 else (index needle s).map (· + 1)

/-- What an index says: the needle begins there, and nowhere before. -/
theorem index_eq_some {needle s : List α} {p : ℕ} (h : index needle s = some p) :
    ∃ t u, s = t ++ (needle ++ u) ∧ t.length = p ∧
      ∀ j < t.length, ¬needle <+: t.drop j ++ (needle ++ u) := by
  induction s generalizing p with
  | nil =>
    rw [index] at h
    split_ifs at h with hbegins
    obtain ⟨u, hu⟩ := List.isPrefixOf_iff_prefix.1 hbegins
    exact ⟨[], u, hu.symm, Option.some.inj h, fun j hj => absurd hj (Nat.not_lt_zero j)⟩
  | cons a s ih =>
    rw [index] at h
    split_ifs at h with hbegins
    · obtain ⟨u, hu⟩ := List.isPrefixOf_iff_prefix.1 hbegins
      exact ⟨[], u, hu.symm, Option.some.inj h, fun j hj => absurd hj (Nat.not_lt_zero j)⟩
    · obtain ⟨q, hq, rfl⟩ := Option.map_eq_some_iff.1 h
      obtain ⟨t, u, rfl, rfl, hno⟩ := ih hq
      refine ⟨a :: t, u, rfl, rfl, fun j hj => ?_⟩
      cases j with
      | zero => exact fun hbegins' => hbegins (List.isPrefixOf_iff_prefix.2 hbegins')
      | succ j => exact hno j (by simpa using hj)

theorem index_eq_none {needle s : List α} (h : index needle s = none) :
    ∀ j < s.length, ¬needle <+: s.drop j := by
  induction s with
  | nil => exact fun j hj => absurd hj (Nat.not_lt_zero j)
  | cons a s ih =>
    rw [index] at h
    split_ifs at h with hbegins
    intro j hj
    cases j with
    | zero => exact fun hbegins' => hbegins (List.isPrefixOf_iff_prefix.2 hbegins')
    | succ j => exact ih (Option.map_eq_none_iff.1 h) j (by simpa using hj)

/-- There is an index when the needle is in the string. -/
theorem isSome_index_iff {needle : List α} (hneedle : needle ≠ []) {s : List α} :
    (index needle s).isSome = true ↔ needle <:+: s := by
  cases hindex : index needle s with
  | some p =>
    obtain ⟨t, u, rfl, -, -⟩ := index_eq_some hindex
    exact iff_of_true rfl ⟨t, u, by rw [List.append_assoc]⟩
  | none =>
    refine iff_of_false Bool.false_ne_true ?_
    rintro ⟨t, u, rfl⟩
    rw [List.append_assoc] at hindex
    refine index_eq_none hindex t.length ?_ ?_
    · rw [List.length_append, List.length_append]
      have := List.length_pos_of_ne_nil hneedle
      omega
    · rw [List.drop_left]
      exact List.prefix_append _ _

end Go
