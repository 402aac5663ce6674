import PiiProxy.Admission.Controller
import PiiProxy.Lib.Reactive

/-!
# The admission gate of the Go service

`go-service/pii/admission.go`: a port of the admission controller without the memory limit, the
signals of the storage and the latency. On any history of arrivals and releases it takes the
decisions of the controller that it is ported from, as long as the memory of the process is below
the limit. The time of a rejection is never longer than that of the controller by more than a tenth,
the unit to which both round. It may be much shorter, since the controller weighs more signals.

## Main definitions

* `GoService.Admission`, `GoService.Admission.tryAcquire`, `GoService.Admission.release`.
* `GoService.portedConfig`: the configuration of the controller with the constants of the port.
* `GoService.Visit`, `GoService.visitGate`, `GoService.visitAdmission`: histories of both gates.
* `GoService.Admission.Mirrors`: the port is in the state of the controller.

## Main results

* `GoService.Admission.Mirrors.tryAcquire`, `GoService.Admission.Mirrors.release`: one call.
* `GoService.verdicts_agree`: every history.
-/

namespace PiiProxy.GoService

/-! ### The gate -/

/-- `Admission`, with times in seconds; a time that is zero is `none`. -/
structure Admission where
  maxInFlight : ℤ
  maxBacklog : ℚ
  baseCost : ℚ
  perChar : ℚ
  minRetry : ℚ
  maxRetry : ℚ
  safety : ℚ
  inFlight : ℤ := 0
  outstanding : ℚ := 0
  arrivalRate : ℚ := 0
  serviceRate : ℚ := 0
  lastArrival : Option ℚ := none
  lastCompletion : Option ℚ := none
  deriving DecidableEq, Repr

/-- `NewAdmission`. -/
def newAdmission (maxInFlight : ℤ) (maxBacklog : ℚ) : Admission where
  maxInFlight := maxInFlight
  maxBacklog := maxBacklog
  baseCost := 500
  perChar := 1
  minRetry := 1
  maxRetry := 30
  safety := 3 / 2

structure Rejection where
  retryAfter : ℚ
  reason : Text
  deriving DecidableEq, Repr

/-- `math.Round`: halves are rounded away from zero. -/
def mathRound (x : ℚ) : ℤ := if 0 ≤ x then ⌊x + 1 / 2⌋ else -⌊-x + 1 / 2⌋

/-- A rate that is smoothed with an amount of work since the last time. -/
def smoothed (now work : ℚ) (last : Option ℚ) (rate : ℚ) : ℚ :=
  match last with
  | none => rate
  | some last => 2 / 10 * (work / max (now - last) (1 / 1000)) + 8 / 10 * rate

namespace Admission

variable (a : Admission)

/-- The value that `retryAfterLocked` rounds. -/
def retryLocked (incoming : ℚ) : ℚ :=
  let base := if a.serviceRate > 0 then (a.outstanding + incoming) / a.serviceRate else a.minRetry
  let pressure := if a.serviceRate > 0 ∧ a.arrivalRate > a.serviceRate
    then a.arrivalRate / a.serviceRate else 1
  let effectiveMin := min (a.minRetry * max 1 (pressure / 2)) (a.maxRetry / 3)
  min (max (base * pressure * a.safety) effectiveMin) a.maxRetry

/-- `retryAfterLocked`. -/
def retryAfterLocked (incoming : ℚ) : ℚ := mathRound (a.retryLocked incoming * 10) / 10

/-- The beginning of `TryAcquire`: the rate of arrivals is smoothed. -/
def observeArrival (now work : ℚ) : Admission :=
  { a with
    arrivalRate := smoothed now work a.lastArrival a.arrivalRate
    lastArrival := some now }

/-- `TryAcquire` at the time `now`. -/
def tryAcquire (now : ℚ) (payloadSize : ℤ) : Except Rejection ℚ × Admission :=
  let work := a.baseCost + a.perChar * payloadSize
  let a := a.observeArrival now work
  if a.inFlight ≥ a.maxInFlight then
    (.error ⟨a.retryAfterLocked work, "in_flight_limit".toList⟩, a)
  else if a.outstanding + work > a.maxBacklog then
    (.error ⟨a.retryAfterLocked work, "backlog_limit".toList⟩, a)
  else
    (.ok work, { a with inFlight := a.inFlight + 1, outstanding := a.outstanding + work })

/-- `Release` at the time `now`. -/
def release (now work : ℚ) : Admission :=
  { a with
    inFlight := if a.inFlight - 1 < 0 then 0 else a.inFlight - 1
    outstanding := if a.outstanding - work < 0 then 0 else a.outstanding - work
    serviceRate := smoothed now work a.lastCompletion a.serviceRate
    lastCompletion := some now }

end Admission

/-! ### The controller that it is ported from -/

/-- The configuration of the controller with the constants of the port. -/
def portedConfig (maxInFlight : ℤ) (maxBacklog rssLimitMb : ℚ) (hflight : 0 ≤ maxInFlight)
    (hbacklog : 0 ≤ maxBacklog) : AdmissionConfig :=
  { AdmissionConfig.standard with
    maxInFlight := maxInFlight
    maxBacklog := maxBacklog
    rssLimitMb := rssLimitMb
    maxInFlight_nonneg := hflight
    maxBacklog_nonneg := hbacklog }

/-- Both gates use the same numbers. -/
structure Admission.Configured (cfg : AdmissionConfig) (a : Admission) : Prop where
  maxInFlight : a.maxInFlight = cfg.maxInFlight
  maxBacklog : a.maxBacklog = cfg.maxBacklog
  baseCost : a.baseCost = cfg.baseCost
  perChar : a.perChar = cfg.perChar
  minRetry : a.minRetry = cfg.minRetry
  maxRetry : a.maxRetry = cfg.maxRetry
  safety : a.safety = cfg.safety
  ewmaAlpha : cfg.ewmaAlpha = 1 / 5
  minRetry_nonneg : 0 ≤ cfg.minRetry
  safety_nonneg : 0 ≤ cfg.safety

/-- The gate is in the state of the controller. -/
structure Admission.Mirrors (cfg : AdmissionConfig) (a : Admission) (c : AdmissionController) :
    Prop where
  configured : a.Configured cfg
  inFlight : a.inFlight = c.inFlight
  outstanding : a.outstanding = c.outstandingWork
  outstanding_nonneg : 0 ≤ a.outstanding
  arrivalRate : a.arrivalRate = c.arrivals.rate
  lastArrival : a.lastArrival = c.arrivals.last
  serviceRate : a.serviceRate = c.workCompleted.rate
  lastCompletion : a.lastCompletion = c.workCompleted.last
  rssMb_le : c.rssMb ≤ cfg.rssLimitMb

/-- What the port answers agrees with what the controller answers. -/
inductive Agrees : Except AdmissionRejectedError AdmissionTicket → Except Rejection ℚ → Prop
  | admitted (ticket : AdmissionTicket) : Agrees (.ok ticket) (.ok ticket.workUnits)
  | rejected {e : AdmissionRejectedError} {r : Rejection} (hreason : r.reason = e.reason)
      (hretry : r.retryAfter ≤ e.retryAfter + 1 / 10) : Agrees (.error e) (.error r)

/-! ### Rounding -/

theorem abs_mathRound_sub_le (x : ℚ) : |(mathRound x : ℚ) - x| ≤ 1 / 2 := by
  rw [mathRound]
  split
  · have h₁ := Int.floor_le (x + 1 / 2)
    have h₂ := Int.lt_floor_add_one (x + 1 / 2)
    rw [abs_le]
    constructor <;> linarith
  · have h₁ := Int.floor_le (-x + 1 / 2)
    have h₂ := Int.lt_floor_add_one (-x + 1 / 2)
    push_cast
    rw [abs_le]
    constructor <;> linarith

theorem abs_roundInt_sub_le (x : ℚ) : |(HalfEven.roundInt x : ℚ) - x| ≤ 1 / 2 := by
  have hfract : (⌊x⌋ : ℚ) + Int.fract x = x := Int.floor_add_fract x
  have hnonneg := Int.fract_nonneg x
  have hlt := Int.fract_lt_one x
  rw [HalfEven.roundInt, abs_le]
  split_ifs <;> push_cast <;> constructor <;> linarith

/-- The two ways to round to tenths are at most a tenth apart. -/
theorem mathRound_le_round {x y : ℚ} (hxy : x ≤ y) :
    (mathRound (x * 10) : ℚ) / 10 ≤ HalfEven.round 1 y + 1 / 10 := by
  have hx := (abs_le.1 (abs_mathRound_sub_le (x * 10))).2
  have hy := (abs_le.1 (abs_roundInt_sub_le (y * 10))).1
  rw [HalfEven.round, pow_one]
  linarith

/-! ### One call -/

namespace Admission.Mirrors

variable {cfg : AdmissionConfig} {a : Admission} {c : AdmissionController}

theorem observe {now work : ℚ} {last : Option ℚ} {r : EwmaRate} (hlast : last = r.last)
    {alpha : ℚ} (halpha : alpha = 1 / 5) :
    smoothed now work last r.rate = (r.observe alpha now work).rate := by
  subst hlast halpha
  unfold smoothed EwmaRate.observe
  cases r.last with
  | none => rfl
  | some last =>
    dsimp only
    ring

/-- The wait of the controller is not the shorter one. -/
theorem retryLocked_le (h : a.Mirrors cfg c) (store : Option StoreHealth) {incoming : ℚ}
    (hincoming : 0 ≤ incoming) :
    a.retryAfterLocked incoming ≤ cfg.retryAfter store incoming c + 1 / 10 := by
  have hcfg := h.configured
  refine mathRound_le_round ?_
  simp only [retryLocked, hcfg.minRetry, hcfg.maxRetry, hcfg.safety, h.outstanding, h.arrivalRate,
    h.serviceRate]
  have hmodifier : (1 : ℚ) ≤ if store.any StoreHealth.authoritativeDegraded then 2 else 1 := by
    split <;> norm_num
  have hbacklog : 0 ≤ c.outstandingWork + incoming :=
    add_nonneg (h.outstanding ▸ h.outstanding_nonneg) hincoming
  by_cases hrate : c.workCompleted.rate > 0
  · have hpressure : (if c.workCompleted.rate > 0 ∧ c.arrivals.rate > c.workCompleted.rate
        then c.arrivals.rate / c.workCompleted.rate else 1) =
          max 1 (c.arrivals.rate / c.workCompleted.rate) := by
      by_cases harrival : c.arrivals.rate > c.workCompleted.rate
      · rw [if_pos ⟨hrate, harrival⟩, max_eq_right ((one_le_div hrate).2 harrival.le)]
      · rw [if_neg fun h => harrival h.2, max_eq_left ((div_le_one hrate).2 (not_lt.1 harrival))]
    rw [hpressure, if_pos hrate, if_pos hrate, if_neg (not_le.2 hrate)]
    refine min_le_min (max_le_max ?_ le_rfl) le_rfl
    refine le_mul_of_one_le_right (mul_nonneg (mul_nonneg ?_ ?_) hcfg.safety_nonneg) hmodifier
    · exact div_nonneg hbacklog hrate.le
    · exact zero_le_one.trans (le_max_left _ _)
  · rw [if_neg hrate, if_neg hrate, if_neg fun h => hrate h.1, if_pos (not_lt.1 hrate), mul_one,
      mul_one]
    have hwait : cfg.minRetry ≤ max c.latencyEwma cfg.minRetry := le_max_right _ _
    refine min_le_min (max_le_max ?_ le_rfl) le_rfl
    calc cfg.minRetry * cfg.safety
        ≤ max c.latencyEwma cfg.minRetry * cfg.safety :=
          mul_le_mul_of_nonneg_right hwait hcfg.safety_nonneg
      _ ≤ _ := le_mul_of_one_le_right
          (mul_nonneg (hcfg.minRetry_nonneg.trans hwait) hcfg.safety_nonneg) hmodifier

/-- The state in which an arrival is decided. -/
theorem arrived (h : a.Mirrors cfg c) (env : AcquireReadings)
    (hrss : env.processRssMb ≤ cfg.rssLimitMb) (work : ℚ) :
    (a.observeArrival env.arrivedAt work).Mirrors cfg (AdmissionConfig.rssNow env
      { c with arrivals := c.arrivals.observe cfg.ewmaAlpha env.arrivedAt work }) := by
  have hrate : smoothed env.arrivedAt work a.lastArrival a.arrivalRate =
      (c.arrivals.observe cfg.ewmaAlpha env.arrivedAt work).rate := by
    rw [h.arrivalRate, observe h.lastArrival h.configured.ewmaAlpha]
  obtain ⟨hconfigured, hflight, houtstanding, hnonneg, -, -, hservice, hcompletion, hle⟩ := h
  obtain ⟨h₁, h₂, h₃, h₄, h₅, h₆, h₇, h₈, h₉, h₁₀⟩ := hconfigured
  unfold AdmissionConfig.rssNow
  split
  · exact ⟨⟨h₁, h₂, h₃, h₄, h₅, h₆, h₇, h₈, h₉, h₁₀⟩, hflight, houtstanding, hnonneg, hrate, rfl,
      hservice, hcompletion, hrss⟩
  · exact ⟨⟨h₁, h₂, h₃, h₄, h₅, h₆, h₇, h₈, h₉, h₁₀⟩, hflight, houtstanding, hnonneg, hrate, rfl,
      hservice, hcompletion, hle⟩

theorem loadState_ne_critical (h : a.Mirrors cfg c) (store : Option StoreHealth) :
    cfg.loadState store c ≠ .critical := by
  unfold AdmissionConfig.loadState
  rw [if_neg (not_lt.2 h.rssMb_le)]
  split_ifs <;> decide

/-- **One arrival**: both gates decide alike. -/
theorem tryAcquire (h : a.Mirrors cfg c) (env : AcquireReadings)
    (hrss : env.processRssMb ≤ cfg.rssLimitMb) (payloadSize : ℕ) :
    Agrees (cfg.tryAcquire env payloadSize c).1 (a.tryAcquire env.arrivedAt payloadSize).1 ∧
      (a.tryAcquire env.arrivedAt payloadSize).2.Mirrors cfg
        (cfg.tryAcquire env payloadSize c).2 := by
  have hwork : a.baseCost + a.perChar * ((payloadSize : ℤ) : ℚ) = cfg.estimateWork payloadSize := by
    rw [h.configured.baseCost, h.configured.perChar, AdmissionConfig.estimateWork, Int.cast_natCast]
  have hnonneg : 0 ≤ cfg.estimateWork payloadSize := AdmissionConfig.estimateWork_nonneg
  have harrived := h.arrived env hrss (cfg.estimateWork payloadSize)
  have hretry := harrived.retryLocked_le env.storeAtRejection hnonneg
  have hcritical := harrived.loadState_ne_critical env.store
  simp only [Admission.tryAcquire, AdmissionConfig.tryAcquire, hwork]
  generalize a.observeArrival env.arrivedAt (cfg.estimateWork payloadSize) = a₁ at *
  generalize AdmissionConfig.rssNow env { c with
    arrivals := c.arrivals.observe cfg.ewmaAlpha env.arrivedAt
      (cfg.estimateWork payloadSize) } = c₁ at *
  have hflight : a₁.inFlight ≥ a₁.maxInFlight ↔ c₁.inFlight ≥ cfg.maxInFlight := by
    rw [harrived.inFlight, harrived.configured.maxInFlight]
  have hbacklog : a₁.outstanding + cfg.estimateWork payloadSize > a₁.maxBacklog ↔
      c₁.outstandingWork + cfg.estimateWork payloadSize > cfg.maxBacklog := by
    rw [harrived.outstanding, harrived.configured.maxBacklog]
  rw [if_neg hcritical]
  simp only [hflight, hbacklog]
  split_ifs
  · exact ⟨.rejected rfl hretry, harrived⟩
  · exact ⟨.rejected rfl hretry, harrived⟩
  · obtain ⟨⟨h₁, h₂, h₃, h₄, h₅, h₆, h₇, h₈, h₉, h₁₀⟩, hin, hout, hpos, harrival, hlast, hservice,
      hcompletion, hle⟩ := harrived
    exact ⟨.admitted ⟨_, _⟩, ⟨h₁, h₂, h₃, h₄, h₅, h₆, h₇, h₈, h₉, h₁₀⟩, congrArg (· + 1) hin,
      congrArg (· + _) hout, add_nonneg hpos hnonneg, harrival, hlast, hservice, hcompletion, hle⟩

/-- **One release.** -/
theorem release (h : a.Mirrors cfg c) (env : ReleaseReadings) (ticket : AdmissionTicket) :
    (a.release env.workCompletedAt ticket.workUnits).Mirrors cfg (cfg.release env ticket c) := by
  have hrate : smoothed env.workCompletedAt ticket.workUnits a.lastCompletion a.serviceRate =
      (c.workCompleted.observe cfg.ewmaAlpha env.workCompletedAt ticket.workUnits).rate := by
    rw [h.serviceRate, observe h.lastCompletion h.configured.ewmaAlpha]
  obtain ⟨⟨h₁, h₂, h₃, h₄, h₅, h₆, h₇, h₈, h₉, h₁₀⟩, hin, hout, -, harrival, hlast, -, -, hle⟩ := h
  refine ⟨⟨h₁, h₂, h₃, h₄, h₅, h₆, h₇, h₈, h₉, h₁₀⟩, ?_, ?_, ?_, harrival, hlast, hrate, rfl, hle⟩
  · show (if a.inFlight - 1 < 0 then 0 else a.inFlight - 1) = max 0 (c.inFlight - 1)
    rw [hin]
    split <;> omega
  · show (if a.outstanding - ticket.workUnits < 0 then 0 else a.outstanding - ticket.workUnits) =
      max 0 (c.outstandingWork - ticket.workUnits)
    rw [hout]
    split
    · next hneg => exact (max_eq_left hneg.le).symm
    · next hpos => exact (max_eq_right (not_lt.1 hpos)).symm
  · show 0 ≤ if a.outstanding - ticket.workUnits < 0 then 0 else a.outstanding - ticket.workUnits
    split
    · exact le_rfl
    · next hpos => exact not_lt.1 hpos

end Admission.Mirrors

/-! ### Histories -/

/-- A request arrives, or the request at an index ends, of those that were let in and have not
ended. -/
inductive Visit where
  | arrive (env : AcquireReadings) (payloadSize : ℕ)
  | leave (env : ReleaseReadings) (index : ℕ)

/-- The memory of the process is below the limit whenever it is read. -/
def Visit.Fits (cfg : AdmissionConfig) : Visit → Prop
  | .arrive env _ => env.processRssMb ≤ cfg.rssLimitMb
  | .leave .. => True

/-- The answer of the controller to an arrival, and the tickets that are not released. -/
def visitGate (cfg : AdmissionConfig) (visit : Visit) (g : Gate) :
    Option (Except AdmissionRejectedError AdmissionTicket) × Gate :=
  match visit with
  | .arrive env payloadSize =>
    let r := cfg.tryAcquire env payloadSize g.controller
    (some r.1, ⟨r.2, g.tickets ++ r.1.toOption.toList⟩)
  | .leave env index =>
    match g.tickets[index]? with
    | none => (none, g)
    | some ticket => (none, ⟨cfg.release env ticket g.controller, g.tickets.eraseIdx index⟩)

/-- The answer of the port to an arrival, and the work that is not released. -/
def visitAdmission (visit : Visit) (s : Admission × List ℚ) :
    Option (Except Rejection ℚ) × Admission × List ℚ :=
  match visit with
  | .arrive env payloadSize =>
    let r := s.1.tryAcquire env.arrivedAt payloadSize
    (some r.1, r.2, s.2 ++ r.1.toOption.toList)
  | .leave env index =>
    match s.2[index]? with
    | none => (none, s)
    | some work => (none, s.1.release env.workCompletedAt work, s.2.eraseIdx index)

/-- **One visit**: the gates stay alike. -/
theorem visit_agrees {cfg : AdmissionConfig} {g : Gate} {s : Admission × List ℚ}
    (h : s.1.Mirrors cfg g.controller) (htickets : s.2 = g.tickets.map AdmissionTicket.workUnits)
    {visit : Visit} (hfits : visit.Fits cfg) :
    Option.Rel Agrees (visitGate cfg visit g).1 (visitAdmission visit s).1 ∧
      (visitAdmission visit s).2.1.Mirrors cfg (visitGate cfg visit g).2.controller ∧
      (visitAdmission visit s).2.2 =
        (visitGate cfg visit g).2.tickets.map AdmissionTicket.workUnits := by
  cases visit with
  | arrive env payloadSize =>
    obtain ⟨hagrees, hmirrors⟩ := h.tryAcquire env hfits payloadSize
    refine ⟨.some hagrees, hmirrors, ?_⟩
    simp only [visitAdmission, visitGate, htickets, List.map_append]
    congr 1
    generalize (cfg.tryAcquire env payloadSize g.controller).1 = r at hagrees
    generalize (s.1.tryAcquire env.arrivedAt payloadSize).1 = r' at hagrees
    cases hagrees <;> rfl
  | leave env index =>
    simp only [visitAdmission, visitGate, htickets, List.getElem?_map]
    cases g.tickets[index]? with
    | none => exact ⟨.none, h, htickets⟩
    | some ticket => exact ⟨.none, h.release env ticket, (List.eraseIdx_map _ _ _)⟩

/-- **Both gates take the same decisions** on every history of arrivals and releases, from new
gates with the same limits, as long as the memory of the process is below the limit. They reject for
the same reason. The time that the port gives is at most that of the controller and a tenth; it may
be much shorter, as the controller also weighs the latency and the state of the storage. -/
theorem verdicts_agree (maxInFlight : ℤ) (maxBacklog rssLimitMb : ℚ) (hflight : 0 ≤ maxInFlight)
    (hbacklog : 0 ≤ maxBacklog) (hrss : 0 ≤ rssLimitMb) (visits : List Visit)
    (hfits : ∀ visit ∈ visits,
      visit.Fits (portedConfig maxInFlight maxBacklog rssLimitMb hflight hbacklog)) :
    List.Forall₂ (Option.Rel Agrees)
      (Reactive.outputs
        (visitGate (portedConfig maxInFlight maxBacklog rssLimitMb hflight hbacklog)) visits
        Gate.initial)
      (Reactive.outputs visitAdmission visits (newAdmission maxInFlight maxBacklog, [])) := by
  let cfg := portedConfig maxInFlight maxBacklog rssLimitMb hflight hbacklog
  let Related (rest : List Visit) (g : Gate) (s : Admission × List ℚ) : Prop :=
    (∀ visit ∈ rest, visit.Fits cfg) ∧ s.1.Mirrors cfg g.controller ∧
      s.2 = g.tickets.map AdmissionTicket.workUnits
  have hconfigured : (newAdmission maxInFlight maxBacklog).Configured cfg :=
    ⟨rfl, rfl, rfl, rfl, rfl, rfl, rfl, rfl, zero_le_one, by norm_num [cfg, portedConfig,
      AdmissionConfig.standard]⟩
  suffices hrun : List.Forall₂ (Option.Rel Agrees)
      (Reactive.outputs (visitGate cfg) visits Gate.initial)
      (Reactive.outputs visitAdmission (visits.map id)
        (newAdmission maxInFlight maxBacklog, [])) by
    rwa [List.map_id] at hrun
  refine Reactive.forall₂_outputs_of_simulation (R := Related) id ?_ visits
    ⟨hfits, ⟨hconfigured, rfl, rfl, le_rfl, rfl, rfl, rfl, rfl, hrss⟩, rfl⟩
  rintro visit rest g s ⟨hfits, hmirrors, htickets⟩
  obtain ⟨hagrees, hmirrors', htickets'⟩ :=
    visit_agrees hmirrors htickets (hfits visit List.mem_cons_self)
  exact ⟨hagrees, fun v hv => hfits v (.tail _ hv), hmirrors', htickets'⟩

/-- Two requests at a gate that lets one in, and a third one after the release of the first. -/
def threeVisits : List Visit :=
  [.arrive (.quiet 0) 100, .arrive (.quiet 1) 100, .leave ⟨2, 2, 2⟩ 0, .arrive (.quiet 3) 100]

theorem verdicts_agree_threeVisits :
    (Reactive.outputs visitAdmission threeVisits (newAdmission 1 1000, [])).map
        (Option.map Except.toOption) = [some (some 600), some none, none, some (some 600)] ∧
      List.Forall₂ (Option.Rel Agrees)
        (Reactive.outputs (visitGate (portedConfig 1 1000 200 (by decide) (by decide))) threeVisits
          Gate.initial)
        (Reactive.outputs visitAdmission threeVisits (newAdmission 1 1000, [])) := by
  refine ⟨by decide +kernel, verdicts_agree 1 1000 200 (by decide) (by decide) (by decide)
    threeVisits ?_⟩
  have hquiet (now : ℚ) : (AcquireReadings.quiet now).processRssMb ≤ 200 := by
    show (100 : ℚ) ≤ 200
    norm_num
  simp only [threeVisits, List.forall_mem_cons, Visit.Fits, portedConfig]
  exact ⟨hquiet 0, hquiet 1, trivial, hquiet 3, fun _ h => nomatch h⟩

end PiiProxy.GoService
