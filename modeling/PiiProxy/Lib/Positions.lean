import Mathlib

/-!
# Positions of a predicate in a sequence

The list `[i for i, x in enumerate(s) if p(x)]` of a sequence. The rank of a position, the number of
elements before it that satisfy the predicate, is its index in the list.

## Main definitions

* `Positions.positions`: the positions of the elements that satisfy a predicate.

## Main results

* `Positions.getElem?_positions`: the list read at an index.
* `Positions.mem_take_positions`, `Positions.mem_drop_positions`: the first and the other positions.
-/

namespace Positions

variable {α : Type*} {p : α → Bool} {s : List α} {i : ℕ}

/-- The positions of the elements that satisfy the predicate. -/
def positions (p : α → Bool) (s : List α) : List ℕ :=
  (List.range s.length).filter fun i => (s[i]?.map p).getD false

theorem positions_cons (a : α) :
    positions p (a :: s) = (if p a then [0] else []) ++ (positions p s).map Nat.succ := by
  rw [positions, List.length_cons, List.range_succ_eq_map, List.filter_cons, List.filter_map,
    positions]
  split_ifs with h h' h'
  · rfl
  · simp [h'] at h
  · simp [h'] at h
  · rfl

@[simp] theorem length_positions : (positions p s).length = s.countP p := by
  induction s with
  | nil => rfl
  | cons a s ih =>
    rw [positions_cons, List.length_append, List.length_map, ih, List.countP_cons]
    split_ifs
    · exact Nat.add_comm 1 _
    · exact Nat.zero_add _

/-- **The list read at an index**: the position whose rank is the index. -/
theorem getElem?_positions {r : ℕ} : (positions p s)[r]? = some i ↔
    ∃ a, s[i]? = some a ∧ p a = true ∧ (s.take i).countP p = r := by
  induction s generalizing i r with
  | nil => simp [positions]
  | cons a s ih =>
    have hmap (r : ℕ) : ((positions p s).map Nat.succ)[r]? = some i ↔
        ∃ j, j + 1 = i ∧ ∃ b, s[j]? = some b ∧ p b = true ∧ (s.take j).countP p = r := by
      rw [List.getElem?_map, Option.map_eq_some_iff]
      simp only [ih, Nat.succ_eq_add_one, and_comm]
    rw [positions_cons]
    by_cases ha : p a = true
    · rw [if_pos ha, List.singleton_append]
      cases r with
      | zero => cases i with
        | zero => simp [ha]
        | succ i => simp [ha]
      | succ r =>
        rw [List.getElem?_cons_succ, hmap]
        cases i with
        | zero => simp
        | succ i => simp [ha]
    · rw [if_neg ha, List.nil_append, hmap]
      cases i with
      | zero => simp [ha]
      | succ i => simp [ha]

/-- A position is among the first ones when its rank is small. -/
theorem mem_take_positions {k : ℕ} : i ∈ (positions p s).take k ↔
    ∃ a, s[i]? = some a ∧ p a = true ∧ (s.take i).countP p < k := by
  rw [List.mem_iff_getElem?]
  simp only [List.getElem?_take]
  constructor
  · rintro ⟨r, hr⟩
    split_ifs at hr with hlt
    obtain ⟨a, ha, hp, rfl⟩ := getElem?_positions.1 hr
    exact ⟨a, ha, hp, hlt⟩
  · rintro ⟨a, ha, hp, hlt⟩
    refine ⟨(s.take i).countP p, ?_⟩
    rw [if_pos hlt]
    exact getElem?_positions.2 ⟨a, ha, hp, rfl⟩

/-- A position is behind the first ones when its rank is large. -/
theorem mem_drop_positions {k : ℕ} : i ∈ (positions p s).drop k ↔
    ∃ a, s[i]? = some a ∧ p a = true ∧ k ≤ (s.take i).countP p := by
  rw [List.mem_iff_getElem?]
  simp only [List.getElem?_drop]
  constructor
  · rintro ⟨r, hr⟩
    obtain ⟨a, ha, hp, hrank⟩ := getElem?_positions.1 hr
    exact ⟨a, ha, hp, hrank ▸ Nat.le_add_right k r⟩
  · rintro ⟨a, ha, hp, hle⟩
    refine ⟨(s.take i).countP p - k, ?_⟩
    rw [Nat.add_sub_cancel' hle]
    exact getElem?_positions.2 ⟨a, ha, hp, rfl⟩

end Positions
