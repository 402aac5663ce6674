import PiiProxy.Core.Models
import PiiProxy.Lib.HalfEven

/-!
# Admission control

`app/admission/controller.py`: a bounded gate in front of the pipeline. A request costs work units
by its size; the controller counts the requests in flight and their work, smooths the rates of
arrivals and completions, and rejects a request with the time after which it may be repeated. The
middleware of `app/admission/middleware.py` acquires a ticket for each request that it lets in and
releases it when the request ends, in whatever way.

Numbers are exact. What a call reads from the clock, the process and the storage is an argument.

## Main definitions

* `AdmissionConfig`, `EwmaRate`, `AdmissionTicket`, `AdmissionController`, `AdmissionRejectedError`.
* `AdmissionConfig.tryAcquire`, `AdmissionConfig.release`, `AdmissionConfig.retryAfter`.
* `Gate`, `Gate.Step`, `Gate.Reachable`: runs of the middleware, with the tickets not released yet.
* `Gate.Accounted`: the counters are those of the tickets, and within the limits.

## Main results

* `AdmissionConfig.tryAcquire_cases`: what an attempt to acquire does to the counters.
* `Gate.Step.accounted`: no step loses or invents work.
* `Gate.admission_exact`: the counters are exact in every reachable state.
-/

namespace PiiProxy

/-! ### Configuration and state -/

inductive LoadState where
  | normal | cacheDegraded | storageDegraded | overloaded | critical
  deriving DecidableEq, Repr

/-- The parameters of an `AdmissionController`. Limits and costs are amounts, so none of them is
negative. -/
structure AdmissionConfig where
  maxInFlight : ℤ
  maxBacklog : ℚ
  baseCost : ℚ
  perChar : ℚ
  minRetry : ℚ
  maxRetry : ℚ
  safety : ℚ
  rssLimitMb : ℚ
  ewmaAlpha : ℚ
  maxInFlight_nonneg : 0 ≤ maxInFlight
  maxBacklog_nonneg : 0 ≤ maxBacklog
  baseCost_nonneg : 0 ≤ baseCost
  perChar_nonneg : 0 ≤ perChar

/-- The default arguments of the constructor. -/
def AdmissionConfig.standard : AdmissionConfig where
  maxInFlight := 64
  maxBacklog := 4000000
  baseCost := 500
  perChar := 1
  minRetry := 1
  maxRetry := 30
  safety := 3 / 2
  rssLimitMb := 12288
  ewmaAlpha := 1 / 5
  maxInFlight_nonneg := by decide
  maxBacklog_nonneg := by decide
  baseCost_nonneg := by decide
  perChar_nonneg := by decide

/-- `_EwmaRate`: a smoothed rate and when it was observed last. -/
structure EwmaRate where
  rate : ℚ
  last : Option ℚ
  deriving DecidableEq, Repr

/-- `_EwmaRate.observe`. -/
def EwmaRate.observe (alpha now amount : ℚ) (r : EwmaRate) : EwmaRate where
  rate := match r.last with
    | none => r.rate
    | some last => alpha * (amount / max (now - last) (1 / 1000)) + (1 - alpha) * r.rate
  last := some now

structure AdmissionTicket where
  workUnits : ℚ
  started : ℚ
  deriving DecidableEq, Repr

/-- The signals of the storage that the controller reads. -/
structure StoreHealth where
  authoritativeDegraded : Bool
  cacheDegraded : Bool
  deriving DecidableEq, Repr

/-- The mutable fields of an `AdmissionController`. -/
structure AdmissionController where
  inFlight : ℤ
  outstandingWork : ℚ
  arrivals : EwmaRate
  completions : EwmaRate
  workCompleted : EwmaRate
  latencyEwma : ℚ
  rssCheckedAt : ℚ
  rssMb : ℚ
  deriving DecidableEq, Repr

/-- A new controller. -/
def AdmissionController.initial : AdmissionController :=
  ⟨0, 0, ⟨0, none⟩, ⟨0, none⟩, ⟨0, none⟩, 0, 0, 0⟩

structure AdmissionRejectedError where
  retryAfter : ℚ
  loadState : LoadState
  reason : Text
  deriving DecidableEq, Repr

/-- What `try_acquire` reads: the clock at each of its readings, the memory of the process, and the
storage, once for the load state and once more for the time of a rejection. -/
structure AcquireReadings where
  arrivedAt : ℚ
  rssReadAt : ℚ
  processRssMb : ℚ
  store : Option StoreHealth
  storeAtRejection : Option StoreHealth
  startedAt : ℚ

/-- Everything is read at one moment, there is little memory in use and no storage. -/
def AcquireReadings.quiet (now : ℚ) : AcquireReadings := ⟨now, now, 100, none, none, now⟩

/-- What `release` reads from the clock. -/
structure ReleaseReadings where
  endedAt : ℚ
  completedAt : ℚ
  workCompletedAt : ℚ

namespace AdmissionConfig

variable (cfg : AdmissionConfig)

/-- `estimate_work`. -/
def estimateWork (payloadSize : ℕ) : ℚ := cfg.baseCost + cfg.perChar * payloadSize

/-- `_rss_now_mb`: the memory of the process is read at most once a second. -/
def rssNow (env : AcquireReadings) (c : AdmissionController) : AdmissionController :=
  if env.rssReadAt - c.rssCheckedAt > 1 then
    { c with rssMb := env.processRssMb, rssCheckedAt := env.rssReadAt }
  else c

/-- `_load_state_locked`, after the memory is read. -/
def loadState (store : Option StoreHealth) (c : AdmissionController) : LoadState :=
  if c.rssMb > cfg.rssLimitMb then .critical
  else if store.any StoreHealth.authoritativeDegraded then .storageDegraded
  else if c.inFlight ≥ cfg.maxInFlight ∨ c.outstandingWork > 8 / 10 * cfg.maxBacklog then
    .overloaded
  else if store.any StoreHealth.cacheDegraded then .cacheDegraded
  else .normal

/-- `_retry_after_locked`. -/
def retryAfter (store : Option StoreHealth) (incomingWork : ℚ) (c : AdmissionController) : ℚ :=
  let serviceWorkRate := c.workCompleted.rate
  let baseWait := if serviceWorkRate ≤ 0 then max c.latencyEwma cfg.minRetry
    else (c.outstandingWork + incomingWork) / serviceWorkRate
  let pressure := if serviceWorkRate > 0 then max 1 (c.arrivals.rate / serviceWorkRate) else 1
  let modifier := if store.any StoreHealth.authoritativeDegraded then 2 else 1
  let effectiveMin := min (cfg.minRetry * max 1 (pressure / 2)) (cfg.maxRetry / 3)
  let retry := baseWait * pressure * cfg.safety * modifier
  HalfEven.round 1 (min (max retry effectiveMin) cfg.maxRetry)

/-- `try_acquire`. -/
def tryAcquire (env : AcquireReadings) (payloadSize : ℕ) (c : AdmissionController) :
    Except AdmissionRejectedError AdmissionTicket × AdmissionController :=
  let work := cfg.estimateWork payloadSize
  let c := { c with arrivals := c.arrivals.observe cfg.ewmaAlpha env.arrivedAt work }
  let c := rssNow env c
  let state := cfg.loadState env.store c
  let reject (state : LoadState) (reason : String) :
      Except AdmissionRejectedError AdmissionTicket × AdmissionController :=
    (.error ⟨cfg.retryAfter env.storeAtRejection work c, state, reason.toList⟩, c)
  if state = .critical then reject state "critical_pressure"
  else if c.inFlight ≥ cfg.maxInFlight then reject .overloaded "in_flight_limit"
  else if c.outstandingWork + work > cfg.maxBacklog then reject .overloaded "backlog_limit"
  else
    (.ok ⟨work, env.startedAt⟩,
      { c with inFlight := c.inFlight + 1, outstandingWork := c.outstandingWork + work })

/-- `release`. -/
def release (env : ReleaseReadings) (ticket : AdmissionTicket) (c : AdmissionController) :
    AdmissionController :=
  { c with
    inFlight := max 0 (c.inFlight - 1)
    outstandingWork := max 0 (c.outstandingWork - ticket.workUnits)
    completions := c.completions.observe cfg.ewmaAlpha env.completedAt 1
    workCompleted := c.workCompleted.observe cfg.ewmaAlpha env.workCompletedAt ticket.workUnits
    latencyEwma := 2 / 10 * (env.endedAt - ticket.started) + 8 / 10 * c.latencyEwma }

/-! ### What an attempt does to the counters -/

variable {cfg} {env : AcquireReadings} {c c' : AdmissionController} {payloadSize : ℕ}

theorem estimateWork_nonneg : 0 ≤ cfg.estimateWork payloadSize :=
  add_nonneg cfg.baseCost_nonneg (mul_nonneg cfg.perChar_nonneg payloadSize.cast_nonneg)

@[simp] theorem rssNow_inFlight : (rssNow env c).inFlight = c.inFlight := by
  rw [rssNow]
  split_ifs <;> rfl

@[simp] theorem rssNow_outstandingWork : (rssNow env c).outstandingWork = c.outstandingWork := by
  rw [rssNow]
  split_ifs <;> rfl

/-- **What an attempt to acquire does to the counters**: nothing when it is rejected; otherwise the
work of the ticket is added, and fits. -/
theorem tryAcquire_cases {result : Except AdmissionRejectedError AdmissionTicket}
    (h : cfg.tryAcquire env payloadSize c = (result, c')) :
    (∃ e, result = .error e ∧ c'.inFlight = c.inFlight ∧ c'.outstandingWork = c.outstandingWork) ∨
    (∃ ticket, result = .ok ticket ∧ ticket.workUnits = cfg.estimateWork payloadSize ∧
      c.inFlight < cfg.maxInFlight ∧ c.outstandingWork + ticket.workUnits ≤ cfg.maxBacklog ∧
      c'.inFlight = c.inFlight + 1 ∧
      c'.outstandingWork = c.outstandingWork + ticket.workUnits) := by
  simp only [tryAcquire, rssNow_inFlight, rssNow_outstandingWork] at h
  split_ifs at h with hcritical hflight hbacklog
  · obtain ⟨rfl, rfl⟩ := Prod.mk.inj h
    exact .inl ⟨_, rfl, rssNow_inFlight, rssNow_outstandingWork⟩
  · obtain ⟨rfl, rfl⟩ := Prod.mk.inj h
    exact .inl ⟨_, rfl, rssNow_inFlight, rssNow_outstandingWork⟩
  · obtain ⟨rfl, rfl⟩ := Prod.mk.inj h
    exact .inl ⟨_, rfl, rssNow_inFlight, rssNow_outstandingWork⟩
  · obtain ⟨rfl, rfl⟩ := Prod.mk.inj h
    exact .inr ⟨_, rfl, rfl, not_le.1 hflight, not_lt.1 hbacklog, rfl, rfl⟩

end AdmissionConfig

/-! ### Runs -/

/-- The controller and the tickets that are issued and not released. -/
structure Gate where
  controller : AdmissionController
  tickets : List AdmissionTicket

namespace Gate

/-- A gate that no request has passed. -/
def initial : Gate := ⟨.initial, []⟩

/-- One call on the controller, which its lock makes atomic: a request arrives and is let in or
rejected, or one that was let in ends and releases its ticket. -/
inductive Step (cfg : AdmissionConfig) : Gate → Gate → Prop
  | accepted {c c' : AdmissionController} {tickets : List AdmissionTicket} (env : AcquireReadings)
      (payloadSize : ℕ) (ticket : AdmissionTicket)
      (h : cfg.tryAcquire env payloadSize c = (.ok ticket, c')) :
      Step cfg ⟨c, tickets⟩ ⟨c', ticket :: tickets⟩
  | rejected {c c' : AdmissionController} {tickets : List AdmissionTicket} (env : AcquireReadings)
      (payloadSize : ℕ) (e : AdmissionRejectedError)
      (h : cfg.tryAcquire env payloadSize c = (.error e, c')) :
      Step cfg ⟨c, tickets⟩ ⟨c', tickets⟩
  | released {c : AdmissionController} (env : ReleaseReadings) (before : List AdmissionTicket)
      (ticket : AdmissionTicket) (after : List AdmissionTicket) :
      Step cfg ⟨c, before ++ ticket :: after⟩ ⟨cfg.release env ticket c, before ++ after⟩

/-- A state that calls in some order lead to. -/
def Reachable (cfg : AdmissionConfig) (g : Gate) : Prop :=
  Relation.ReflTransGen (Step cfg) initial g

/-- The work of the tickets. -/
def work (tickets : List AdmissionTicket) : ℚ := (tickets.map AdmissionTicket.workUnits).sum

/-- The counters are those of the tickets, and within the limits. -/
structure Accounted (cfg : AdmissionConfig) (g : Gate) : Prop where
  inFlight_eq : g.controller.inFlight = g.tickets.length
  outstandingWork_eq : g.controller.outstandingWork = work g.tickets
  inFlight_le : g.controller.inFlight ≤ cfg.maxInFlight
  outstandingWork_le : g.controller.outstandingWork ≤ cfg.maxBacklog
  workUnits_nonneg : ∀ ticket ∈ g.tickets, 0 ≤ ticket.workUnits

variable {cfg : AdmissionConfig} {g g' : Gate}

theorem accounted_initial : Accounted cfg initial where
  inFlight_eq := rfl
  outstandingWork_eq := rfl
  inFlight_le := cfg.maxInFlight_nonneg
  outstandingWork_le := cfg.maxBacklog_nonneg
  workUnits_nonneg := by simp [initial]

private theorem work_append_cons (before after : List AdmissionTicket) (ticket : AdmissionTicket) :
    work (before ++ ticket :: after) = work (before ++ after) + ticket.workUnits := by
  simp only [work, List.map_append, List.map_cons, List.sum_append, List.sum_cons]
  ring

private theorem work_nonneg {tickets : List AdmissionTicket}
    (h : ∀ ticket ∈ tickets, 0 ≤ ticket.workUnits) : 0 ≤ work tickets := by
  refine List.sum_nonneg fun w hw => ?_
  obtain ⟨ticket, hticket, rfl⟩ := List.mem_map.1 hw
  exact h ticket hticket

/-- **The clamps of a release have no effect**, whichever ticket is released. -/
theorem Accounted.clamps {c : AdmissionController} {before after : List AdmissionTicket}
    {ticket : AdmissionTicket} (h : Accounted cfg ⟨c, before ++ ticket :: after⟩) :
    max 0 (c.inFlight - 1) = c.inFlight - 1 ∧
      max 0 (c.outstandingWork - ticket.workUnits) = c.outstandingWork - ticket.workUnits := by
  have hflight : c.inFlight = (before ++ ticket :: after).length := h.inFlight_eq
  have hwork : c.outstandingWork = work (before ++ ticket :: after) := h.outstandingWork_eq
  have hrest : 0 ≤ work (before ++ after) := by
    refine work_nonneg fun t ht => h.workUnits_nonneg t ?_
    rw [List.mem_append] at ht ⊢
    exact ht.imp_right (List.mem_cons_of_mem _)
  rw [work_append_cons] at hwork
  rw [List.length_append, List.length_cons] at hflight
  exact ⟨max_eq_right (by omega), max_eq_right (by linarith)⟩

/-- Releasing a ticket subtracts what it counts for. -/
theorem Accounted.release {c : AdmissionController} {before after : List AdmissionTicket}
    {ticket : AdmissionTicket} (h : Accounted cfg ⟨c, before ++ ticket :: after⟩)
    (env : ReleaseReadings) : Accounted cfg ⟨cfg.release env ticket c, before ++ after⟩ := by
  obtain ⟨hclampFlight, hclampWork⟩ := h.clamps
  have hinFlight : (cfg.release env ticket c).inFlight = c.inFlight - 1 := hclampFlight
  have hwork : (cfg.release env ticket c).outstandingWork =
      c.outstandingWork - ticket.workUnits := hclampWork
  have hflight : c.inFlight = (before ++ ticket :: after).length := h.inFlight_eq
  have houtstanding : c.outstandingWork = work (before ++ ticket :: after) := h.outstandingWork_eq
  have hlimit : c.inFlight ≤ cfg.maxInFlight := h.inFlight_le
  have hbacklog : c.outstandingWork ≤ cfg.maxBacklog := h.outstandingWork_le
  have hticket : 0 ≤ ticket.workUnits :=
    h.workUnits_nonneg ticket (List.mem_append_right _ List.mem_cons_self)
  refine ⟨?_, ?_, ?_, ?_, fun t ht => h.workUnits_nonneg t ?_⟩
  · change (cfg.release env ticket c).inFlight = _
    rw [hinFlight, hflight, List.length_append, List.length_append, List.length_cons]
    push_cast
    ring
  · change (cfg.release env ticket c).outstandingWork = _
    rw [hwork, houtstanding, work_append_cons, add_sub_cancel_right]
  · change (cfg.release env ticket c).inFlight ≤ _
    omega
  · change (cfg.release env ticket c).outstandingWork ≤ _
    linarith
  · rw [List.mem_append] at ht ⊢
    exact ht.imp_right (List.mem_cons_of_mem _)

/-- **No step loses or invents work.** -/
theorem Step.accounted (h : Accounted cfg g) (hstep : Step cfg g g') : Accounted cfg g' := by
  cases hstep with
  | accepted env payloadSize ticket hacquire =>
    obtain ⟨e, he, -⟩ | ⟨ticket, hticket, hunits, hflight, hbacklog, hinFlight, hwork⟩ :=
      AdmissionConfig.tryAcquire_cases hacquire
    · cases he
    · cases hticket
      refine ⟨?_, ?_, ?_, ?_, List.forall_mem_cons.2 ⟨?_, h.workUnits_nonneg⟩⟩
      · rw [hinFlight, h.inFlight_eq, List.length_cons]
        push_cast
        ring
      · rw [hwork, h.outstandingWork_eq, work, work, List.map_cons, List.sum_cons, add_comm]
      · rw [hinFlight]
        exact hflight
      · rwa [hwork]
      · rw [hunits]
        exact AdmissionConfig.estimateWork_nonneg
  | rejected env payloadSize e hacquire =>
    obtain ⟨e, -, hinFlight, hwork⟩ | ⟨ticket, hticket, -⟩ :=
      AdmissionConfig.tryAcquire_cases hacquire
    · exact ⟨hinFlight.trans h.inFlight_eq, hwork.trans h.outstandingWork_eq,
        hinFlight.trans_le h.inFlight_le, hwork.trans_le h.outstandingWork_le,
        h.workUnits_nonneg⟩
    · cases hticket
  | released env before ticket after => exact h.release env

/-- The counters are exact in every reachable state. -/
theorem Reachable.accounted (h : Reachable cfg g) : Accounted cfg g := by
  induction h with
  | refl => exact accounted_initial
  | tail _ hstep ih => exact hstep.accounted ih

/-- **Admission accounting is exact.** In every reachable state the counters are those of the
tickets that are not released, and within the limits; releasing any of the tickets subtracts what it
counts for, the clamps at zero having no effect; and an attempt that is rejected changes neither
counter. -/
theorem admission_exact (h : Reachable cfg g) :
    g.controller.inFlight = g.tickets.length ∧
    g.controller.outstandingWork = (g.tickets.map AdmissionTicket.workUnits).sum ∧
    g.controller.inFlight ≤ cfg.maxInFlight ∧
    g.controller.outstandingWork ≤ cfg.maxBacklog ∧
    (∀ ticket ∈ g.tickets, ∀ env,
      (cfg.release env ticket g.controller).inFlight = g.controller.inFlight - 1 ∧
      (cfg.release env ticket g.controller).outstandingWork =
        g.controller.outstandingWork - ticket.workUnits) ∧
    ∀ env payloadSize e c', cfg.tryAcquire env payloadSize g.controller = (.error e, c') →
      c'.inFlight = g.controller.inFlight ∧
        c'.outstandingWork = g.controller.outstandingWork := by
  have haccounted := h.accounted
  refine ⟨haccounted.inFlight_eq, haccounted.outstandingWork_eq, haccounted.inFlight_le,
    haccounted.outstandingWork_le, fun ticket hticket env => ?_,
    fun env payloadSize e c' hrejected => ?_⟩
  · obtain ⟨before, after, hsplit⟩ := List.append_of_mem hticket
    obtain ⟨c, tickets⟩ := g
    obtain rfl : tickets = before ++ ticket :: after := hsplit
    exact haccounted.clamps
  · obtain ⟨-, -, hcounters⟩ | ⟨ticket, hticket, -⟩ := AdmissionConfig.tryAcquire_cases hrejected
    · exact hcounters
    · cases hticket

/-- The default limits, but no more than two requests in flight. -/
def twoInFlight : AdmissionConfig :=
  { AdmissionConfig.standard with maxInFlight := 2, maxInFlight_nonneg := by decide }

/-- The first request is let in. -/
def afterFirst : AdmissionController := (twoInFlight.tryAcquire (.quiet 0) 100 .initial).2

/-- So is the second. -/
def afterSecond : AdmissionController := (twoInFlight.tryAcquire (.quiet 1) 200 afterFirst).2

/-- The third is one too many. -/
def afterThird : AdmissionController := (twoInFlight.tryAcquire (.quiet 2) 50 afterSecond).2

/-- Of three requests the third is rejected, and the first one ends: the work of the second is
left. -/
theorem admission_exact_threeRequests :
    (twoInFlight.tryAcquire (.quiet 2) 50 afterSecond).1 =
        .error ⟨3 / 2, .overloaded, "in_flight_limit".toList⟩ ∧
      afterThird.inFlight = 2 ∧ afterThird.outstandingWork = 1300 ∧
      (twoInFlight.release ⟨3, 3, 3⟩ ⟨600, 0⟩ afterThird).inFlight = 1 ∧
      (twoInFlight.release ⟨3, 3, 3⟩ ⟨600, 0⟩ afterThird).outstandingWork = 700 := by
  have hfirst : (twoInFlight.tryAcquire (.quiet 0) 100 .initial).1 = .ok ⟨600, 0⟩ := by
    decide +kernel
  have hsecond : (twoInFlight.tryAcquire (.quiet 1) 200 afterFirst).1 = .ok ⟨700, 1⟩ := by
    decide +kernel
  have hthird : (twoInFlight.tryAcquire (.quiet 2) 50 afterSecond).1 =
      .error ⟨3 / 2, .overloaded, "in_flight_limit".toList⟩ := by decide +kernel
  have hboth : Reachable twoInFlight ⟨afterThird, [⟨700, 1⟩, ⟨600, 0⟩]⟩ :=
    ((Relation.ReflTransGen.single (.accepted (.quiet 0) 100 _ (Prod.ext hfirst rfl))).tail
      (.accepted (.quiet 1) 200 _ (Prod.ext hsecond rfl))).tail
      (.rejected (.quiet 2) 50 _ (Prod.ext hthird rfl))
  have hleft : Reachable twoInFlight
      ⟨twoInFlight.release ⟨3, 3, 3⟩ ⟨600, 0⟩ afterThird, [⟨700, 1⟩]⟩ :=
    hboth.tail (.released ⟨3, 3, 3⟩ [⟨700, 1⟩] ⟨600, 0⟩ [])
  obtain ⟨hinFlight, hwork, -⟩ := admission_exact hboth
  obtain ⟨hinFlight', hwork', -⟩ := admission_exact hleft
  exact ⟨hthird, hinFlight, hwork.trans (by decide +kernel), hinFlight',
    hwork'.trans List.sum_singleton⟩

end Gate

end PiiProxy
