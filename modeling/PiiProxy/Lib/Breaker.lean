import Mathlib

/-!
# The load that a circuit breaker lets through

A breaker counts the failures of a service. Below a threshold it allows every call. From the
threshold on it allows a call only when a cooldown has passed since the last failure that was
reported. It does not limit how many calls are allowed at that moment, so the calls that reach a
service that always fails come in rounds: at most as many as there can be in flight at once, and
then none for a cooldown.

## Main definitions

* `Breaker.Limits`, `Breaker.State`: the breaker, and the calls in flight.
* `Breaker.Limits.Allows`, `Breaker.Limits.Step`: calls of a service that always fails.
* `Breaker.Limits.Bounded`: the invariant.

## Main results

* `Breaker.Limits.Bounded.step`: every step keeps the invariant.
* `Breaker.Limits.Bounded.load`: how many calls have reached the service.
-/

namespace Breaker

variable {T : Type*} [AddCommGroup T] [LinearOrder T]

/-- The threshold and the cooldown of a breaker, and how many calls can be in flight at once. -/
structure Limits (T : Type*) where
  threshold : ℕ
  cooldown : T
  width : ℕ

/-- The state of the breaker, the number of calls in flight, and the number of calls so far. -/
structure State (T : Type*) where
  now : T
  failures : ℕ
  openedAt : Option T
  inFlight : ℕ
  started : ℕ

namespace Limits

variable (limits : Limits T)

/-- The breaker allows a call. -/
def Allows (s : State T) : Prop :=
  s.failures < limits.threshold ∨ limits.cooldown ≤ s.now - s.openedAt.getD s.now

/-- A call has failed. -/
def report (s : State T) : State T :=
  { s with
    failures := s.failures + 1
    openedAt := if limits.threshold ≤ s.failures + 1 then some s.now else s.openedAt
    inFlight := s.inFlight - 1 }

/-- What can happen: time passes, a call that is allowed starts, or a call fails. -/
inductive Step : State T → State T → Prop
  | wait {s : State T} {t : T} (ht : s.now ≤ t) : Step s { s with now := t }
  | start {s : State T} (hallows : limits.Allows s) (hwidth : s.inFlight < limits.width) :
      Step s { s with inFlight := s.inFlight + 1, started := s.started + 1 }
  | fail {s : State T} (hbusy : 0 < s.inFlight) : Step s (limits.report s)

/-- After the given number of rounds the circuit is open since `t`, and `probes` calls have started
since. -/
structure Rounds (t₀ : T) (s : State T) (t : T) (rounds probes : ℕ) : Prop where
  openedAt : s.openedAt = some t
  opened_le : t ≤ s.now
  rounds_le : t₀ + rounds • limits.cooldown ≤ t
  probing : probes = 0 ∨ t + limits.cooldown ≤ s.now
  probes_le : probes ≤ s.inFlight
  started_lt : s.started + 1 ≤ limits.threshold + limits.width * (rounds + 1) + probes

/-- The invariant of all runs that begin at the time `t₀` with a closed circuit. -/
structure Bounded (t₀ : T) (s : State T) : Prop where
  begun : t₀ ≤ s.now
  inFlight : s.inFlight ≤ limits.width
  closed : s.failures < limits.threshold → s.started ≤ s.failures + s.inFlight
  opened : limits.threshold ≤ s.failures → ∃ t rounds probes, limits.Rounds t₀ s t rounds probes

variable {limits} {t₀ : T} {s s' : State T}

/-- At the beginning. -/
theorem bounded_start (hnow : t₀ ≤ s.now) (hfailures : s.failures < limits.threshold)
    (hidle : s.inFlight = 0) (hstarted : s.started = 0) : limits.Bounded t₀ s where
  begun := hnow
  inFlight := by omega
  closed _ := by omega
  opened h := absurd hfailures (not_lt.2 h)

theorem Bounded.wait (h : limits.Bounded t₀ s) {t : T} (ht : s.now ≤ t) :
    limits.Bounded t₀ { s with now := t } where
  begun := h.begun.trans ht
  inFlight := h.inFlight
  closed := h.closed
  opened hfailures := by
    obtain ⟨t', rounds, probes, hr⟩ := h.opened hfailures
    exact ⟨t', rounds, probes, hr.openedAt, hr.opened_le.trans ht, hr.rounds_le,
      hr.probing.imp_right fun hle => hle.trans ht, hr.probes_le, hr.started_lt⟩

/-- The failure that opens the circuit. -/
theorem Bounded.rounds_of_closed (h : limits.Bounded t₀ s)
    (hclosed : s.failures < limits.threshold) (hopens : limits.threshold ≤ s.failures + 1) :
    limits.Rounds t₀ (limits.report s) s.now 0 0 where
  openedAt := if_pos hopens
  opened_le := le_rfl
  rounds_le := by simpa using h.begun
  probing := .inl rfl
  probes_le := Nat.zero_le _
  started_lt := by
    have := h.closed hclosed
    have := h.inFlight
    show s.started + 1 ≤ _
    omega

variable [IsOrderedAddMonoid T]

theorem Bounded.start (h : limits.Bounded t₀ s) (hallows : limits.Allows s)
    (hwidth : s.inFlight < limits.width) :
    limits.Bounded t₀ { s with inFlight := s.inFlight + 1, started := s.started + 1 } where
  begun := h.begun
  inFlight := hwidth
  closed hfailures := by
    have := h.closed hfailures
    show s.started + 1 ≤ s.failures + (s.inFlight + 1)
    omega
  opened hfailures := by
    obtain ⟨t, rounds, probes, hr⟩ := h.opened hfailures
    have hcooled : t + limits.cooldown ≤ s.now := by
      have hle := hallows.resolve_left (not_lt.2 hfailures)
      rw [hr.openedAt, Option.getD_some, le_sub_iff_add_le, add_comm] at hle
      exact hle
    refine ⟨t, rounds, probes + 1, hr.openedAt, hr.opened_le, hr.rounds_le, .inr hcooled,
      Nat.succ_le_succ hr.probes_le, ?_⟩
    have := hr.started_lt
    show s.started + 1 + 1 ≤ _
    omega

/-- A failure ends the round of the probes. -/
theorem Rounds.report {t : T} {rounds probes : ℕ} (hr : limits.Rounds t₀ s t rounds probes)
    (hinFlight : s.inFlight ≤ limits.width) (hopened : limits.threshold ≤ s.failures) :
    ∃ rounds', limits.Rounds t₀ (limits.report s) s.now rounds' 0 := by
  have hopens : (limits.report s).openedAt = some s.now := if_pos (hopened.trans (Nat.le_succ _))
  have hstarted := hr.started_lt
  obtain hnone | hcooled := hr.probing
  · refine ⟨rounds, hopens, le_rfl, hr.rounds_le.trans hr.opened_le, .inl rfl, Nat.zero_le _, ?_⟩
    rw [hnone] at hstarted
    exact hstarted
  · refine ⟨rounds + 1, hopens, le_rfl, ?_, .inl rfl, Nat.zero_le _, ?_⟩
    · rw [succ_nsmul, ← add_assoc]
      exact (add_le_add_left hr.rounds_le _).trans hcooled
    · have hprobes := hr.probes_le.trans hinFlight
      show s.started + 1 ≤ _
      rw [Nat.mul_succ limits.width (rounds + 1)]
      omega

theorem Bounded.fail (h : limits.Bounded t₀ s) : limits.Bounded t₀ (limits.report s) where
  begun := h.begun
  inFlight := (Nat.sub_le _ _).trans h.inFlight
  closed hfailures := by
    have hbefore := h.closed ((Nat.lt_succ_self _).trans hfailures)
    show s.started ≤ s.failures + 1 + (s.inFlight - 1)
    omega
  opened hfailures := by
    by_cases hclosed : s.failures < limits.threshold
    · exact ⟨s.now, 0, 0, h.rounds_of_closed hclosed hfailures⟩
    · obtain ⟨t, rounds, probes, hr⟩ := h.opened (not_lt.1 hclosed)
      obtain ⟨rounds', hr'⟩ := hr.report h.inFlight (not_lt.1 hclosed)
      exact ⟨s.now, rounds', 0, hr'⟩

/-- **Every step** keeps the invariant. -/
theorem Bounded.step (h : limits.Bounded t₀ s) (hstep : limits.Step s s') :
    limits.Bounded t₀ s' := by
  cases hstep with
  | wait ht => exact h.wait ht
  | start hallows hwidth => exact h.start hallows hwidth
  | fail _ => exact h.fail

/-- **The load.** The calls so far are fewer than the threshold and a full width of calls for each
round, and there is one round more than cooldowns have passed. -/
theorem Bounded.load (h : limits.Bounded t₀ s) :
    ∃ rounds : ℕ, t₀ + rounds • limits.cooldown ≤ s.now ∧
      s.started < limits.threshold + limits.width * (rounds + 1) := by
  by_cases hclosed : s.failures < limits.threshold
  · refine ⟨0, by simpa using h.begun, ?_⟩
    have := h.closed hclosed
    have := h.inFlight
    omega
  · obtain ⟨t, rounds, probes, hr⟩ := h.opened (not_lt.1 hclosed)
    have hstarted := hr.started_lt
    obtain hnone | hcooled := hr.probing
    · exact ⟨rounds, hr.rounds_le.trans hr.opened_le, by omega⟩
    · refine ⟨rounds + 1, ?_, ?_⟩
      · rw [succ_nsmul, ← add_assoc]
        exact (add_le_add_left hr.rounds_le _).trans hcooled
      · have hprobes := hr.probes_le.trans h.inFlight
        rw [Nat.mul_succ limits.width (rounds + 1)]
        omega

end Limits

end Breaker
