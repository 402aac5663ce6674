import PiiProxy.Admission.Controller

/-!
# The time of a rejection

`_retry_after_locked` is documented to be an estimate of the wait, clamped to the configured bounds.
The floor of the clamp is raised with the pressure, and capped by a third of the upper bound. Where
that third is below the lower bound, the floor is too, and a short wait is reported as it is.

## Main definitions

* `AdmissionConfig.estimatedWait`: the wait that is documented, before it is clamped.
* `AdmissionConfig.InRange`: a value within the configured bounds.

## Main results

* `AdmissionConfig.retryAfter_le`: the upper bound always holds.
* `AdmissionConfig.retryAfter_inRange_iff`: when the lower bound does.
-/

namespace PiiProxy.AdmissionConfig

variable (cfg : AdmissionConfig)

/-- The wait that the documentation of the module estimates, before it is clamped: the time that the
work takes at the observed rate, for the pressure of arrivals, with the safety factor and the
modifier for the storage; before any work is completed, the latency observed. -/
def estimatedWait (store : Option StoreHealth) (incomingWork : ℚ) (c : AdmissionController) : ℚ :=
  (if c.workCompleted.rate ≤ 0 then max c.latencyEwma cfg.minRetry
    else (c.outstandingWork + incomingWork) / c.workCompleted.rate *
      max 1 (c.arrivals.rate / c.workCompleted.rate)) * cfg.safety *
    if store.any StoreHealth.authoritativeDegraded then 2 else 1

/-- A value within the configured bounds. -/
def InRange (value : ℚ) : Prop := cfg.minRetry ≤ value ∧ value ≤ cfg.maxRetry

/-- A multiple of a tenth. -/
def IsTenths (x : ℚ) : Prop := ∃ n : ℤ, x * 10 = n

theorem IsTenths.round_eq {x : ℚ} (hx : IsTenths x) : HalfEven.round 1 x = x := by
  obtain ⟨n, hn⟩ := hx
  exact HalfEven.round_eq_self (by rwa [pow_one])

variable {cfg} {store : Option StoreHealth} {incomingWork : ℚ} {c : AdmissionController}

/-- The pressure by which the floor is raised. -/
private def pressure (c : AdmissionController) : ℚ :=
  if c.workCompleted.rate > 0 then max 1 (c.arrivals.rate / c.workCompleted.rate) else 1

/-- The code in terms of the estimate. -/
private theorem retryAfter_eq : cfg.retryAfter store incomingWork c =
    HalfEven.round 1 (min (max (cfg.estimatedWait store incomingWork c)
      (min (cfg.minRetry * max 1 (pressure c / 2)) (cfg.maxRetry / 3))) cfg.maxRetry) := by
  have hwait : (if c.workCompleted.rate ≤ 0 then max c.latencyEwma cfg.minRetry
      else (c.outstandingWork + incomingWork) / c.workCompleted.rate) * pressure c * cfg.safety *
        (if store.any StoreHealth.authoritativeDegraded then 2 else 1) =
      cfg.estimatedWait store incomingWork c := by
    rw [estimatedWait, pressure]
    by_cases hrate : c.workCompleted.rate ≤ 0
    · rw [if_pos hrate, if_pos hrate, if_neg (not_lt.2 hrate), mul_one]
    · rw [if_neg hrate, if_neg hrate, if_pos (not_le.1 hrate)]
  rw [← hwait]
  rfl

/-- Rounding to tenths keeps a bound that is a multiple of a tenth. -/
private theorem le_round_iff_or {bound x y : ℚ} :
    bound ≤ HalfEven.round 1 (max x y) ↔
      bound ≤ HalfEven.round 1 x ∨ bound ≤ HalfEven.round 1 y := by
  rw [(HalfEven.round_mono 1).map_max, le_max_iff]

private theorem le_round_min_iff {bound x y : ℚ} :
    bound ≤ HalfEven.round 1 (min x y) ↔
      bound ≤ HalfEven.round 1 x ∧ bound ≤ HalfEven.round 1 y := by
  rw [(HalfEven.round_mono 1).map_min, le_min_iff]

/-- The upper bound always holds. -/
theorem retryAfter_le (hmax : IsTenths cfg.maxRetry) :
    cfg.retryAfter store incomingWork c ≤ cfg.maxRetry := by
  rw [retryAfter_eq, (HalfEven.round_mono 1).map_min, hmax.round_eq]
  exact min_le_right _ _

/-- **When the value is in its range**: a third of the upper bound, or the wait estimated, rounds to
the lower bound at least. -/
theorem retryAfter_inRange_iff (cfg : AdmissionConfig) (hpos : 0 < cfg.minRetry)
    (hle : cfg.minRetry ≤ cfg.maxRetry) (hmin : IsTenths cfg.minRetry)
    (hmax : IsTenths cfg.maxRetry) (store : Option StoreHealth) (incomingWork : ℚ)
    (c : AdmissionController) :
    cfg.InRange (cfg.retryAfter store incomingWork c) ↔
      cfg.minRetry ≤ HalfEven.round 1 (cfg.maxRetry / 3) ∨
        cfg.minRetry ≤ HalfEven.round 1 (cfg.estimatedWait store incomingWork c) := by
  -- the raised floor is not below the lower bound, only its cap may be
  have hraised : cfg.minRetry ≤ HalfEven.round 1 (cfg.minRetry * max 1 (pressure c / 2)) := by
    calc cfg.minRetry = HalfEven.round 1 cfg.minRetry := hmin.round_eq.symm
      _ ≤ HalfEven.round 1 (cfg.minRetry * max 1 (pressure c / 2)) :=
        HalfEven.round_mono 1 (le_mul_of_one_le_right hpos.le (le_max_left _ _))
  have hupper : cfg.minRetry ≤ HalfEven.round 1 cfg.maxRetry :=
    hle.trans hmax.round_eq.ge
  rw [InRange, and_iff_left (retryAfter_le hmax), retryAfter_eq, le_round_min_iff,
    and_iff_left hupper, le_round_iff_or, le_round_min_iff, and_iff_right hraised, or_comm]

/-- Bounds that are far enough apart are kept in every state. -/
theorem retryAfter_inRange (hpos : 0 < cfg.minRetry) (hle : 3 * cfg.minRetry ≤ cfg.maxRetry)
    (hmin : IsTenths cfg.minRetry) (hmax : IsTenths cfg.maxRetry) :
    cfg.InRange (cfg.retryAfter store incomingWork c) := by
  have hfar : cfg.minRetry ≤ HalfEven.round 1 (cfg.maxRetry / 3) := by
    calc cfg.minRetry = HalfEven.round 1 cfg.minRetry := hmin.round_eq.symm
      _ ≤ HalfEven.round 1 (cfg.maxRetry / 3) := HalfEven.round_mono 1 (by linarith)
  exact (retryAfter_inRange_iff cfg hpos (by linarith) hmin hmax store incomingWork c).2 (.inl hfar)

/-! ### Bounds that are close together -/

/-- A configuration whose bounds are ten and fifteen seconds. -/
def cramped : AdmissionConfig := { AdmissionConfig.standard with minRetry := 10, maxRetry := 15 }

/-- The controller after two requests that take a millisecond. -/
def afterTwoRequests : AdmissionController :=
  let first := (cramped.tryAcquire (.quiet 0) 100 .initial).2
  let idle := cramped.release ⟨1 / 1000, 1 / 1000, 1 / 1000⟩ ⟨600, 0⟩ first
  let second := (cramped.tryAcquire (.quiet (1 / 1000)) 100 idle).2
  cramped.release ⟨2 / 1000, 2 / 1000, 2 / 1000⟩ ⟨600, 1 / 1000⟩ second

theorem retryAfter_inRange_iff_cramped :
    cramped.InRange (cramped.retryAfter none 600 .initial) ↔
      (10 : ℚ) ≤ HalfEven.round 1 (15 / 3) ∨ (10 : ℚ) ≤ HalfEven.round 1 15 := by
  have hwait : cramped.estimatedWait none 600 .initial = 15 := by decide +kernel
  have h := retryAfter_inRange_iff cramped (by decide +kernel) (by decide +kernel)
    ⟨100, by decide +kernel⟩ ⟨150, by decide +kernel⟩ none 600 .initial
  rwa [hwait] at h

/-- The bounds are not kept: quick requests make the estimate short, and the floor is five
seconds. -/
theorem retryAfter_below_minRetry :
    0 < cramped.minRetry ∧ cramped.minRetry ≤ cramped.maxRetry ∧ IsTenths cramped.minRetry ∧
      IsTenths cramped.maxRetry ∧ 0 < cramped.safety ∧
      Gate.Reachable cramped ⟨afterTwoRequests, []⟩ ∧
      cramped.retryAfter none 600 afterTwoRequests = 5 ∧
      ¬cramped.InRange (cramped.retryAfter none 600 afterTwoRequests) := by
  have hvalue : cramped.retryAfter none 600 afterTwoRequests = 5 := by decide +kernel
  refine ⟨by decide +kernel, by decide +kernel, ⟨100, by decide +kernel⟩, ⟨150, by decide +kernel⟩,
    by decide +kernel, ?_, hvalue, fun h => ?_⟩
  · have hfirst : (cramped.tryAcquire (.quiet 0) 100 .initial).1 = .ok ⟨600, 0⟩ := by
      decide +kernel
    have hsecond : (cramped.tryAcquire (.quiet (1 / 1000)) 100 (cramped.release
        ⟨1 / 1000, 1 / 1000, 1 / 1000⟩ ⟨600, 0⟩
        (cramped.tryAcquire (.quiet 0) 100 .initial).2)).1 = .ok ⟨600, 1 / 1000⟩ := by
      decide +kernel
    exact Relation.ReflTransGen.refl
      |>.tail (.accepted (.quiet 0) 100 ⟨600, 0⟩ (Prod.ext hfirst rfl))
      |>.tail (.released ⟨1 / 1000, 1 / 1000, 1 / 1000⟩ [] ⟨600, 0⟩ [])
      |>.tail (.accepted (.quiet (1 / 1000)) 100 ⟨600, 1 / 1000⟩ (Prod.ext hsecond rfl))
      |>.tail (.released ⟨2 / 1000, 2 / 1000, 2 / 1000⟩ [] ⟨600, 1 / 1000⟩ [])
  · have hlow : (10 : ℚ) ≤ 5 := hvalue ▸ h.1
    exact absurd hlow (by decide +kernel)

end PiiProxy.AdmissionConfig
