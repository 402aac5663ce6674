import PiiProxy.GoService.FreshValues
import PiiProxy.Replacement.Draws

/-!
# Uniform draws

`_randbelow` and `hashRand.Intn` read 8-byte values from a hash stream until one lies below a limit,
and return its residue. The limits differ: the multiple of `n` below `2 ^ 64` in Python, and the one
below `2 ^ 64 - 1` in Go, whose arithmetic is that of 64-bit words. One round of either is a fair
test of the `2 ^ 64` values, and a run returns what the first accepted value gives.

## Main definitions

* `GoService.intnRound`: what one round of `Intn` returns for a drawn value.
* `GoService.intnTest`: the round in Go, on the numbers that the words stand for.

## Main results

* `GoService.intn_eq_some_iff`: a run of `Intn` returns by its first accepted draw.
* `GoService.intnTest_eq`: the words do not overflow.
* `GoService.draws_uniform`: both rounds are fair, and the results lie below `n`.
-/

namespace PiiProxy

open Rejection

/-! ### `_randbelow` -/

theorem uniform_randbelowRound {n : ℕ} (hn : 0 < n) (hmax : n ≤ 2 ^ 63 - 1) :
    Uniform (2 ^ 64) n (2 ^ 64 / n) id (randbelowRound n) := by
  have hdiv := Nat.div_add_mod (2 ^ 64) n
  have hmod := Nat.mod_lt (2 ^ 64) hn
  rw [Nat.mul_comm] at hdiv
  exact uniform_of_limit hn (Nat.div_mul_le_self _ _) (by omega) (fun r _ r' _ h => h)
    fun v _ => rfl

namespace GoService

/-! ### `hashRand.Intn` -/

/-- The limit of `Intn`, in words: `(^uint64(0) / uint64(n)) * uint64(n)`. -/
def intnLimit (n : Int64) : UInt64 := ~~~(0 : UInt64) / n.toUInt64 * n.toUInt64

/-- What a round of `Intn` returns for a drawn value. -/
def intnRound (n : Int64) (value : UInt64) : Option Int64 :=
  if value < intnLimit n then some (value % n.toUInt64).toInt64 else none

/-- The round, on the numbers that the words stand for. -/
def intnTest (n value : ℕ) : Option ℤ :=
  (intnRound (Int64.ofNat n) (UInt64.ofNat value)).map Int64.toInt

section Words

variable {n : ℕ}

/-- The limit is the multiple of `n` below `2 ^ 64 - 1`: the product does not overflow. -/
theorem toNat_intnLimit (hmax : n ≤ 2 ^ 63 - 1) :
    (intnLimit (Int64.ofNat n)).toNat = (2 ^ 64 - 1) / n * n := by
  have hword : (UInt64.ofNat n).toNat = n :=
    UInt64.toNat_ofNat_of_lt' (hmax.trans_lt (by decide))
  have hbound : (2 ^ 64 - 1) / n * n < 2 ^ 64 :=
    (Nat.div_mul_le_self (2 ^ 64 - 1) n).trans_lt (by decide)
  have hones : (~~~(0 : UInt64)).toNat = 2 ^ 64 - 1 := by decide
  rw [intnLimit, Int64.toUInt64_ofNat', UInt64.toNat_mul, UInt64.toNat_div, hword, hones,
    Nat.mod_eq_of_lt hbound]

/-- A round in words is the round on numbers. -/
theorem intnTest_eq (hn : 0 < n) (hmax : n ≤ 2 ^ 63 - 1) {value : ℕ} (hvalue : value < 2 ^ 64) :
    intnTest n value =
      if value < (2 ^ 64 - 1) / n * n then some ((value % n : ℕ) : ℤ) else none := by
  have hresidue : (UInt64.ofNat value % UInt64.ofNat n).toInt64 = Int64.ofNat (value % n) := by
    rw [← UInt64.ofNat_mod hvalue (hmax.trans_lt (by decide)), UInt64.toInt64_ofNat']
  have hsmall : value % n < 2 ^ 63 := (Nat.mod_lt value hn).trans_le (by omega)
  have hlimit : UInt64.ofNat value < intnLimit (Int64.ofNat n) ↔
      value < (2 ^ 64 - 1) / n * n := by
    rw [UInt64.lt_iff_toNat_lt, toNat_intnLimit hmax, UInt64.toNat_ofNat_of_lt' hvalue]
  rw [intnTest, intnRound, Int64.toUInt64_ofNat', hresidue]
  split_ifs with hword hnumber hnumber
  · rw [Option.map_some, Int64.toInt_ofNat_of_lt hsmall]
  · exact absurd (hlimit.1 hword) hnumber
  · exact absurd (hlimit.2 hnumber) hword
  · rfl

end Words

theorem uniform_intnTest {n : ℕ} (hn : 0 < n) (hmax : n ≤ 2 ^ 63 - 1) :
    Uniform (2 ^ 64) n ((2 ^ 64 - 1) / n) Nat.cast (intnTest n) := by
  have hdiv := Nat.div_add_mod (2 ^ 64 - 1) n
  have hmod := Nat.mod_lt (2 ^ 64 - 1) hn
  rw [Nat.mul_comm] at hdiv
  refine uniform_of_limit hn (by omega) (by omega) (fun r _ r' _ h => ?_)
    fun v hv => intnTest_eq hn hmax hv
  exact Int.ofNat_inj.1 h

section Go

variable (rt : GoRuntime) (seed : ℤ)

private theorem intnLoop_eq_some_iff {n r c' : ℕ} (hn : 0 < n) (hmax : n ≤ 2 ^ 63 - 1)
    (fuel c : ℕ) :
    (intnLoop rt seed n fuel).run c = some (r, c') ↔
      Yields (hashDraw rt seed) (intnTest n) c (r : ℤ) c' ∧ c' ≤ c + fuel := by
  induction fuel generalizing c with
  | zero =>
    refine iff_of_false (fun h => by cases h) ?_
    rintro ⟨hyields, hle⟩
    exact absurd hyields.lt (Nat.not_lt.2 hle)
  | succ fuel ih =>
    have htest := intnTest_eq hn hmax (rt.sha64_lt (showInt seed ++ str ":" ++ showInt c))
    change intnTest n (hashDraw rt seed c) = _ at htest
    rw [intnLoop_succ_run]
    split_ifs with haccepted
    · rw [hashDraw] at haccepted
      rw [if_pos haccepted] at htest
      rw [Option.some.injEq, Prod.mk.injEq, yields_of_accepted htest, Int.natCast_inj]
      constructor
      · rintro ⟨hr, rfl⟩
        exact ⟨⟨hr, rfl⟩, by omega⟩
      · rintro ⟨⟨hr, rfl⟩, -⟩
        exact ⟨hr, rfl⟩
    · rw [hashDraw] at haccepted
      rw [if_neg haccepted] at htest
      rw [ih, yields_of_rejected htest, Nat.add_assoc, Nat.add_comm 1 fuel]

/-- A run of `Intn` returns what its first accepted draw gives. -/
theorem intn_eq_some_iff {n r c c' : ℕ} (hn : 0 < n) (hmax : n ≤ 2 ^ 63 - 1) :
    (intn rt seed n).run c = some (r, c') ↔
      Yields (hashDraw rt seed) (intnTest n) c (r : ℤ) c' ∧ c' ≤ c + rt.fuel :=
  intnLoop_eq_some_iff rt seed hn hmax rt.fuel c

end Go

/-! ### Both streams -/

/-- **Draws are exactly uniform.** For every bound up to `2 ^ 63 - 1` a round of `_randbelow` and
one of `Intn` accept at least half of the `2 ^ 64` values and give every result below the bound
equally often; the limit of `Intn` is computed without overflow. What the first accepted draw gives
is what a run returns, and it lies below the bound. -/
theorem draws_uniform (n : ℕ) (hn : 1 ≤ n) (hmax : n ≤ 2 ^ 63 - 1) :
    (Uniform (2 ^ 64) n (2 ^ 64 / n) id (randbelowRound n) ∧
      ∀ (rt : Runtime) (seed c r c' : ℕ),
        (randbelow rt seed n c = .ok (r, c') ↔
          Yields (draw rt seed) (randbelowRound n) c r c' ∧ c' ≤ c + rt.fuel) ∧
        (randbelow rt seed n c = .ok (r, c') → r < n)) ∧
    Uniform (2 ^ 64) n ((2 ^ 64 - 1) / n) Nat.cast (intnTest n) ∧
      (intnLimit (Int64.ofNat n)).toNat = (2 ^ 64 - 1) / n * n ∧
      ∀ (rt : GoRuntime) (seed : ℤ) (c r c' : ℕ),
        ((intn rt seed n).run c = some (r, c') ↔
          Yields (hashDraw rt seed) (intnTest n) c (r : ℤ) c' ∧ c' ≤ c + rt.fuel) ∧
        ((intn rt seed n).run c = some (r, c') → r < n) := by
  have hpython := uniform_randbelowRound hn hmax
  have hgo := uniform_intnTest hn hmax
  refine ⟨⟨hpython, fun rt seed c r c' => ⟨randbelow_eq_ok_iff rt seed, fun hrun => ?_⟩⟩, hgo,
    toNat_intnLimit hmax, fun rt seed c r c' => ⟨intn_eq_some_iff rt seed hn hmax, fun hrun => ?_⟩⟩
  · obtain ⟨hyields, -⟩ := (randbelow_eq_ok_iff rt seed).1 hrun
    obtain ⟨r', hr', rfl⟩ := hpython.eq_value_of_yields (fun _ => rt.sha64_lt _) hyields
    exact hr'
  · obtain ⟨hyields, -⟩ := (intn_eq_some_iff rt seed hn hmax).1 hrun
    obtain ⟨r', hr', heq⟩ := hgo.eq_value_of_yields (fun _ => rt.sha64_lt _) hyields
    rw [Int.ofNat_inj.1 heq]
    exact hr'

/-- Two divides `2 ^ 64`, where the limits differ; at the largest bound they agree. -/
theorem draws_uniform_two_max :
    (Uniform (2 ^ 64) 2 (2 ^ 63) id (randbelowRound 2) ∧
      Uniform (2 ^ 64) 2 (2 ^ 63 - 1) Nat.cast (intnTest 2)) ∧
    Uniform (2 ^ 64) (2 ^ 63 - 1) 2 id (randbelowRound (2 ^ 63 - 1)) ∧
      Uniform (2 ^ 64) (2 ^ 63 - 1) 2 Nat.cast (intnTest (2 ^ 63 - 1)) := by
  have htwo := draws_uniform 2 (by decide) (by decide)
  have hlargest := draws_uniform (2 ^ 63 - 1) (by decide) le_rfl
  exact ⟨⟨htwo.1.1, htwo.2.1⟩, hlargest.1.1, hlargest.2.1⟩

end GoService

end PiiProxy
