import Mathlib.Algebra.Order.Group.Nat
import Mathlib.Data.Finset.Card
import Mathlib.Data.Finset.Range

/-!
# Rejection sampling

Draws from a finite range are mapped to fewer values by a test that accepts some of them and gives a
value for each accepted one. The test is fair when it gives every value for the same number of
draws, and the first accepted draw of a sequence decides. A test that accepts the draws below a
multiple of `n`, and gives their residues modulo `n`, is fair.

## Main definitions

* `Rejection.Yields`: what the first accepted draw of a sequence gives.
* `Rejection.Uniform`: a fair test that accepts at least half of the draws.

## Main results

* `Rejection.card_residue`: below a multiple of `n` every residue occurs equally often.
* `Rejection.uniform_of_limit`: the test by a limit is fair.
-/

namespace Rejection

variable {β : Type*}

/-! ### The first accepted draw -/

/-- From number `c` on the first draw that is accepted gives `b`, and it is the one before `c'`. -/
def Yields (draws : ℕ → ℕ) (test : ℕ → Option β) (c : ℕ) (b : β) (c' : ℕ) : Prop :=
  ∃ k, c' = c + k + 1 ∧ (∀ j < k, test (draws (c + j)) = none) ∧ test (draws (c + k)) = some b

variable {draws : ℕ → ℕ} {test : ℕ → Option β} {c c' : ℕ} {b b' : β}

theorem Yields.lt (h : Yields draws test c b c') : c < c' := by
  obtain ⟨k, rfl, -⟩ := h
  exact Nat.lt_succ_of_le (Nat.le_add_right c k)

/-- An accepted draw decides. -/
theorem yields_of_accepted (h : test (draws c) = some b) :
    Yields draws test c b' c' ↔ b = b' ∧ c' = c + 1 := by
  constructor
  · rintro ⟨k, rfl, hrejected, haccepted⟩
    cases k with
    | zero =>
      rw [Nat.add_zero, h, Option.some.injEq] at haccepted
      exact ⟨haccepted, rfl⟩
    | succ k =>
      have hnone := hrejected 0 (Nat.succ_pos k)
      rw [Nat.add_zero, h] at hnone
      cases hnone
  · rintro ⟨rfl, rfl⟩
    exact ⟨0, rfl, fun j hj => absurd hj (Nat.not_lt_zero j), h⟩

/-- A rejected draw is passed over. -/
theorem yields_of_rejected (h : test (draws c) = none) :
    Yields draws test c b c' ↔ Yields draws test (c + 1) b c' := by
  constructor
  · rintro ⟨k, rfl, hrejected, haccepted⟩
    cases k with
    | zero =>
      rw [Nat.add_zero, h] at haccepted
      cases haccepted
    | succ k =>
      refine ⟨k, by omega, fun j hj => ?_, ?_⟩
      · rw [Nat.add_assoc, Nat.add_comm 1 j]
        exact hrejected (j + 1) (Nat.succ_lt_succ hj)
      · rwa [Nat.add_assoc, Nat.add_comm 1 k]
  · rintro ⟨k, rfl, hrejected, haccepted⟩
    refine ⟨k + 1, by omega, fun j hj => ?_, ?_⟩
    · cases j with
      | zero => exact h
      | succ j =>
        rw [Nat.add_comm j 1, ← Nat.add_assoc]
        exact hrejected j (Nat.lt_of_succ_lt_succ hj)
    · rwa [Nat.add_comm k 1, ← Nat.add_assoc]

/-! ### Fair tests -/

section Uniform

variable [DecidableEq β]

/-- Of the draws below `size` the test gives each of the `n` values for `q` draws, it accepts at
least half of them, and it gives nothing else. -/
structure Uniform (size n q : ℕ) (value : ℕ → β) (test : ℕ → Option β) : Prop where
  hits : ∀ r < n, ((Finset.range size).filter fun v => test v = some (value r)).card = q
  half : size ≤ 2 * ((Finset.range size).filter fun v => (test v).isSome = true).card
  eq_value : ∀ v < size, ∀ b, test v = some b → ∃ r < n, b = value r

/-- **Below a multiple of `n` every residue occurs equally often.** -/
theorem card_residue {n r : ℕ} (hr : r < n) (q : ℕ) :
    ((Finset.range (q * n)).filter fun v => v % n = r).card = q := by
  have hinjective : Function.Injective fun k => k * n + r := fun k k' h =>
    Nat.eq_of_mul_eq_mul_right (Nat.zero_lt_of_lt hr) (Nat.add_right_cancel h)
  have himage : (Finset.range (q * n)).filter (fun v => v % n = r) =
      (Finset.range q).image fun k => k * n + r := by
    ext v
    rw [Finset.mem_filter, Finset.mem_range, Finset.mem_image]
    constructor
    · rintro ⟨hlt, hmod⟩
      refine ⟨v / n, Finset.mem_range.2 (Nat.div_lt_of_lt_mul (by rwa [Nat.mul_comm])), ?_⟩
      rw [← hmod, Nat.mul_comm]
      exact Nat.div_add_mod v n
    · rintro ⟨k, hk, rfl⟩
      have hround : (k + 1) * n ≤ q * n := Nat.mul_le_mul_right n (Finset.mem_range.1 hk)
      rw [Nat.succ_mul] at hround
      refine ⟨by omega, ?_⟩
      rw [Nat.mul_comm, Nat.mul_add_mod, Nat.mod_eq_of_lt hr]
  rw [himage, Finset.card_image_of_injective _ hinjective, Finset.card_range]

/-- **The test by a limit is fair**: it accepts the draws below a multiple of `n` that is at least
half of their number, and gives their residues. -/
theorem uniform_of_limit {size n q : ℕ} {value : ℕ → β} {test : ℕ → Option β} (hn : 0 < n)
    (hsize : q * n ≤ size) (hhalf : size ≤ 2 * (q * n))
    (hvalue : ∀ r < n, ∀ r' < n, value r = value r' → r = r')
    (htest : ∀ v < size, test v = if v < q * n then some (value (v % n)) else none) :
    Uniform size n q value test := by
  have haccepted {v : ℕ} (hv : v < size) : (test v).isSome = true ↔ v < q * n := by
    rw [htest v hv]
    split_ifs with hlt
    · exact iff_of_true rfl hlt
    · exact iff_of_false Bool.false_ne_true hlt
  have hgives {v r : ℕ} (hv : v < size) (hr : r < n) :
      test v = some (value r) ↔ v < q * n ∧ v % n = r := by
    rw [htest v hv]
    split_ifs with hlt
    · rw [Option.some.injEq, and_iff_right hlt]
      exact ⟨hvalue _ (Nat.mod_lt v hn) r hr, fun h => h ▸ rfl⟩
    · exact iff_of_false id fun h => hlt h.1
  refine ⟨fun r hr => ?_, ?_, fun v hv b hb => ?_⟩
  · rw [← card_residue hr q]
    congr 1
    ext v
    simp only [Finset.mem_filter, Finset.mem_range]
    constructor
    · rintro ⟨hv, hb⟩
      exact (hgives hv hr).1 hb
    · rintro ⟨hlt, hmod⟩
      have hv := hlt.trans_le hsize
      exact ⟨hv, (hgives hv hr).2 ⟨hlt, hmod⟩⟩
  · have hcard : ((Finset.range size).filter fun v => (test v).isSome = true) =
        Finset.range (q * n) := by
      ext v
      simp only [Finset.mem_filter, Finset.mem_range]
      constructor
      · rintro ⟨hv, hsome⟩
        exact (haccepted hv).1 hsome
      · intro hlt
        have hv := hlt.trans_le hsize
        exact ⟨hv, (haccepted hv).2 hlt⟩
    rw [hcard, Finset.card_range]
    exact hhalf
  · rw [htest v hv] at hb
    split_ifs at hb
    cases hb
    exact ⟨v % n, Nat.mod_lt v hn, rfl⟩

/-- What the first accepted draw gives is one of the values. -/
theorem Uniform.eq_value_of_yields {size n q : ℕ} {value : ℕ → β}
    (h : Uniform size n q value test) (hdraws : ∀ c, draws c < size)
    (hyields : Yields draws test c b c') : ∃ r < n, b = value r := by
  obtain ⟨k, -, -, haccepted⟩ := hyields
  exact h.eq_value _ (hdraws _) b haccepted

end Uniform

end Rejection
