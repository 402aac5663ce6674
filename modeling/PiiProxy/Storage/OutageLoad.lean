import PiiProxy.Lib.Breaker
import PiiProxy.Lib.Protocols
import PiiProxy.Storage.ResilientStore

/-!
# The load on an authority that is down

Worker threads run programs of the service over the resilient store while every call of the
authority raises. A call of the authority is made only after its breaker has allowed it, and its
failure is reported before the thread makes another one. So the threads move the breaker as
`Breaker.Limits.Step` says, with as many calls in flight as there are threads: the half-open circuit
lets every thread that asks through, not one probe, and each round of probes closes it again for a
cooldown.

## Main definitions

* `DownAuthority`, `downAuthority`: the system.
* `AuthPhase`, `authProtocol`: asking the breaker before each call of the authority, and reporting
  its failure after it.
* `DownAuthority.view`: the breaker and the calls in flight.

## Main results

* `ResilientStore.reports_implement`: every program of the service follows this protocol.
* `DownAuthority.kept_inv`: the protocol keeps the bound of the breaker.
* `DownAuthority.calls_lt`: how many calls reach the authority in a given time.
-/

namespace PiiProxy

/-- The breakers, the clock, and the number of calls that have reached the authority. -/
structure DownAuthority where
  breaker : Tier → CircuitBreaker
  now : ℚ
  calls : ℕ

namespace DownAuthority

variable (s : DownAuthority)

def setBreaker (tier : Tier) (b : CircuitBreaker) : DownAuthority :=
  { s with breaker := Function.update s.breaker tier b }

/-- What a call answers and leaves. Every call of the authority raises; the cache answers
anything. -/
def Handles : (e : BackendOp) → e.Answer → DownAuthority → Prop
  | .allow tier, r, s' => r = (s.breaker tier).allow s.now ∧ s' = s
  | .recordSuccess tier, _, s' => s' = s.setBreaker tier (s.breaker tier).recordSuccess
  | .recordFailure tier, _, s' => s' = s.setBreaker tier ((s.breaker tier).recordFailure s.now)
  | .backend .auth _, r, s' => (∃ fault, r = .error fault) ∧ s' = { s with calls := s.calls + 1 }
  | .backend .cache _, _, s' => s' = s
  | .time, _, s' => s' = s

end DownAuthority

/-- The resilient store with an authority that is down, while time passes. -/
def downAuthority : Sys DownAuthority BackendOp BackendOp.Answer where
  handle e s r s' := s.Handles e r s'
  env s s' := ∃ t, s.now ≤ t ∧ s' = { s with now := t }

/-! ### What a thread does with the authority -/

/-- The thread has no call of the authority, the breaker has allowed one, or a call has failed and
is not reported yet. -/
inductive AuthPhase where
  | idle | allowed | failed
  deriving DecidableEq, Repr

namespace AuthPhase

/-- A call is in flight. -/
def busy : AuthPhase → ℕ
  | .idle => 0
  | .allowed | .failed => 1

/-- A call is allowed and not made yet. -/
def due : AuthPhase → ℕ
  | .allowed => 1
  | .idle | .failed => 0

@[simp] theorem busy_idle : busy .idle = 0 := rfl

@[simp] theorem busy_allowed : busy .allowed = 1 := rfl

@[simp] theorem busy_failed : busy .failed = 1 := rfl

@[simp] theorem due_idle : due .idle = 0 := rfl

@[simp] theorem due_allowed : due .allowed = 1 := rfl

@[simp] theorem due_failed : due .failed = 0 := rfl

theorem busy_le_one (q : AuthPhase) : q.busy ≤ 1 := by
  cases q <;> decide

end AuthPhase

/-- When every call of the authority raises, a thread asks the breaker before each call, and reports
the failure right after it. -/
def authProtocol : Prog.Protocol BackendOp BackendOp.Answer AuthPhase where
  Allows
    | .idle, .backend .auth _ | .idle, .recordSuccess .auth | .idle, .recordFailure .auth => False
    | .idle, _ => True
    | .allowed, .backend .auth _ => True
    | .failed, .recordFailure .auth => True
    | _, _ => False
  Answers
    | .backend .auth _, r => ∃ fault, r = .error fault
    | _, _ => True
  next
    | .idle, .allow .auth, true => .allowed
    | .allowed, .backend .auth _, _ => .failed
    | .failed, .recordFailure .auth, _ => .idle
    | q, _, _ => q

/-- The program follows the protocol to its end. -/
abbrev Reports {α : Type} (q : AuthPhase) (p : BackendProg α) : Prop :=
  authProtocol.Follows (fun q _ => q = .idle) q p

theorem Reports.bind {α β : Type} {q : AuthPhase} {p : BackendProg α} {f : α → BackendProg β}
    (hp : Reports q p) (hf : ∀ a, Reports .idle (f a)) : Reports q (p.bind f) := by
  refine Prog.Protocol.Follows.bind (hp.mono ?_)
  rintro _ a rfl
  exact hf a

namespace ResilientStore

variable (store : ResilientStore)

theorem reports_authCall (op : StoreOp) : Reports .idle (store.authCall op) := by
  refine ⟨trivial, fun allowed _ => ?_⟩
  cases allowed with
  | false => rfl
  | true =>
    refine ⟨trivial, fun r hr => ?_⟩
    obtain ⟨fault, rfl⟩ := hr
    exact ⟨trivial, fun _ _ => rfl⟩

theorem reports_cacheCall (op : StoreOp) : Reports .idle (store.cacheCall op) := by
  unfold cacheCall
  split
  · rfl
  · refine ⟨trivial, fun allowed _ => ?_⟩
    cases allowed with
    | false => rfl
    | true =>
      refine ⟨trivial, fun r _ => ?_⟩
      cases r with
      | error fault => exact ⟨trivial, fun _ _ => rfl⟩
      | ok a => exact ⟨trivial, fun _ _ => rfl⟩

theorem reports_afterAuthGet (payloadId : Text) (backfill : Bool)
    (r : Except StoreFault (Option MappingRecord)) :
    Reports .idle (store.afterAuthGet payloadId backfill r) := by
  match r, backfill with
  | .error _, _ => rfl
  | .ok none, _ => rfl
  | .ok (some _), false => rfl
  | .ok (some _), true => exact (store.reports_cacheCall _).bind fun _ => rfl

theorem reports_refreshCache (payloadId : Text) (grace : ℚ) :
    Reports .idle (store.refreshCache payloadId grace) := by
  refine (store.reports_cacheCall _).bind fun r => ?_
  match r with
  | none => rfl
  | some none => rfl
  | some (some _) => exact ⟨trivial, fun _ _ => (store.reports_cacheCall _).bind fun _ => rfl⟩

theorem reports_run (op : StoreOp) : Reports .idle (store.run op) := by
  cases op with
  | get payloadId =>
    have hread (backfill : Bool) : Reports .idle (store.readThrough payloadId backfill) :=
      (store.reports_authCall _).bind (store.reports_afterAuthGet payloadId backfill)
    refine (store.reports_cacheCall _).bind fun r => ?_
    match r with
    | some (some _) => rfl
    | some none => exact hread true
    | none => exact hread false
  | saveIfAbsent payloadId record ttl =>
    refine (store.reports_authCall _).bind fun r => ?_
    match r with
    | .error _ => rfl
    | .ok false => rfl
    | .ok true => exact (store.reports_cacheCall _).bind fun _ => rfl
  | update payloadId record ttl =>
    refine (store.reports_authCall _).bind fun r => ?_
    match r with
    | .error _ => rfl
    | .ok _ => exact (store.reports_cacheCall _).bind fun _ => rfl
  | delete payloadId => exact (store.reports_cacheCall _).bind fun _ => store.reports_authCall _
  | markDemasked payloadId grace =>
    exact (store.reports_authCall _).bind fun _ => store.reports_refreshCache payloadId grace

/-- Programs of the service report every failure before they make another call. -/
theorem reports_implement {α : Type} (p : StoreProg α) : Reports .idle (store.implement p) := by
  induction p with
  | ret a => rfl
  | call e k ih =>
    cases e with
    | store op => exact (store.reports_run op).bind ih
    | time => exact ⟨trivial, fun r _ => ih r⟩

end ResilientStore

/-! ### The threads move the breaker -/

namespace DownAuthority

variable {ι : Type} [Fintype ι] {s s₀ : DownAuthority} {phase : ι → AuthPhase}

/-- The breaker of the authority with the calls in flight. -/
def view (s : DownAuthority) (phase : ι → AuthPhase) : Breaker.State ℚ where
  now := s.now
  failures := (s.breaker .auth).failures
  openedAt := (s.breaker .auth).openedAt
  inFlight := ∑ i, (phase i).busy
  started := s.calls + ∑ i, (phase i).due

/-- The limits of the breaker and of the threads. -/
def limits (ι : Type) [Fintype ι] (s : DownAuthority) : Breaker.Limits ℚ where
  threshold := (s.breaker .auth).threshold
  cooldown := (s.breaker .auth).cooldown
  width := Fintype.card ι

theorem sum_busy_le (phase : ι → AuthPhase) : ∑ j, (phase j).busy ≤ Fintype.card ι := by
  simpa using Finset.sum_le_card_nsmul Finset.univ _ 1 fun j _ => (phase j).busy_le_one

/-- The breaker allows calls as the general one does. -/
theorem allows_view (hallow : (s.breaker .auth).allow s.now = true) :
    (s.limits ι).Allows (s.view phase) := by
  unfold CircuitBreaker.allow CircuitBreaker.state at hallow
  split at hallow
  · next hclosed => exact .inl hclosed
  · split at hallow
    · next hcooled => exact .inr hcooled
    · exact absurd hallow (by decide)

variable [DecidableEq ι]

theorem view_allowed {i : ι} (hidle : phase i = .idle) :
    s.view (Function.update phase i .allowed) =
      { s.view phase with
        inFlight := (s.view phase).inFlight + 1
        started := (s.view phase).started + 1 } := by
  have hbusy := Prog.sum_update AuthPhase.busy phase i .allowed
  have hdue := Prog.sum_update AuthPhase.due phase i .allowed
  simp [hidle] at hbusy hdue
  simp only [view, Breaker.State.mk.injEq, true_and]
  omega

theorem view_called {i : ι} (hallowed : phase i = .allowed) :
    { s with calls := s.calls + 1 }.view (Function.update phase i .failed) = s.view phase := by
  have hbusy := Prog.sum_update AuthPhase.busy phase i .failed
  have hdue := Prog.sum_update AuthPhase.due phase i .failed
  simp [hallowed] at hbusy hdue
  simp only [view, Breaker.State.mk.injEq, true_and]
  omega

theorem view_reported {i : ι} (hfailed : phase i = .failed) :
    (s.setBreaker .auth ((s.breaker .auth).recordFailure s.now)).view
      (Function.update phase i .idle) = (s.limits ι).report (s.view phase) := by
  have hbusy := Prog.sum_update AuthPhase.busy phase i .idle
  have hdue := Prog.sum_update AuthPhase.due phase i .idle
  simp [hfailed] at hbusy hdue
  simp only [view, limits, Breaker.Limits.report, setBreaker, Function.update_self,
    CircuitBreaker.recordFailure, Breaker.State.mk.injEq, true_and]
  exact ⟨rfl, by omega, by omega⟩

/-! ### Every run -/

/-- The invariant of the runs from `s₀`. -/
structure Inv (s₀ s : DownAuthority) (phase : ι → AuthPhase) : Prop where
  limits_eq : s.limits ι = s₀.limits ι
  bounded : (s₀.limits ι).Bounded s₀.now (s.view phase)

/-- A call of a thread that has no call of the authority. -/
theorem Inv.call_idle (h : s₀.Inv s phase) {e : BackendOp} {i : ι} (hi : phase i = .idle)
    (hallows : authProtocol.Allows .idle e) {r : e.Answer} {s' : DownAuthority}
    (hr : s.Handles e r s') :
    authProtocol.Answers e r ∧
      s₀.Inv s' (Function.update phase i (authProtocol.next .idle e r)) := by
  have hidle {s' : DownAuthority} (hlimits : s'.limits ι = s.limits ι)
      (hview : s'.view phase = s.view phase) : s₀.Inv s' (Function.update phase i .idle) := by
    rw [← hi, Function.update_eq_self]
    exact ⟨hlimits.trans h.limits_eq, hview ▸ h.bounded⟩
  cases e with
  | allow tier =>
    obtain ⟨rfl, rfl⟩ := hr
    cases tier with
    | cache => exact ⟨trivial, hidle rfl rfl⟩
    | auth =>
      refine ⟨trivial, ?_⟩
      by_cases hallow : (s'.breaker .auth).allow s'.now = true
      · rw [hallow]
        refine ⟨h.limits_eq, ?_⟩
        have hfree : (s'.view phase).inFlight < (s₀.limits ι).width := by
          have hbusy := Prog.sum_update AuthPhase.busy phase i .allowed
          have hle := sum_busy_le (Function.update phase i .allowed)
          simp only [hi, AuthPhase.busy_idle, AuthPhase.busy_allowed] at hbusy
          show ∑ j, (phase j).busy < Fintype.card ι
          omega
        have hstart := h.bounded.start (h.limits_eq ▸ allows_view hallow) hfree
        rw [← view_allowed hi] at hstart
        exact hstart
      · rw [Bool.not_eq_true] at hallow
        rw [hallow]
        exact hidle rfl rfl
  | recordSuccess tier =>
    obtain rfl : s' = _ := hr
    cases tier with
    | auth => exact hallows.elim
    | cache => exact ⟨trivial, hidle (by simp [limits, setBreaker]) (by simp [view, setBreaker])⟩
  | recordFailure tier =>
    obtain rfl : s' = _ := hr
    cases tier with
    | auth => exact hallows.elim
    | cache => exact ⟨trivial, hidle (by simp [limits, setBreaker]) (by simp [view, setBreaker])⟩
  | backend tier op =>
    cases tier with
    | auth => exact hallows.elim
    | cache =>
      obtain rfl : s' = _ := hr
      exact ⟨trivial, hidle rfl rfl⟩
  | time =>
    obtain rfl : s' = _ := hr
    exact ⟨trivial, hidle rfl rfl⟩

/-- The call that the breaker has allowed. -/
theorem Inv.call_allowed (h : s₀.Inv s phase) {e : BackendOp} {i : ι} (hi : phase i = .allowed)
    (hallows : authProtocol.Allows .allowed e) {r : e.Answer} {s' : DownAuthority}
    (hr : s.Handles e r s') :
    authProtocol.Answers e r ∧
      s₀.Inv s' (Function.update phase i (authProtocol.next .allowed e r)) := by
  cases e with
  | backend tier op =>
    cases tier with
    | auth =>
      obtain ⟨hfault, rfl⟩ := hr
      exact ⟨hfault, h.limits_eq, view_called hi ▸ h.bounded⟩
    | cache => exact hallows.elim
  | allow tier | recordSuccess tier | recordFailure tier | time => exact hallows.elim

/-- The report of a failure. -/
theorem Inv.call_failed (h : s₀.Inv s phase) {e : BackendOp} {i : ι} (hi : phase i = .failed)
    (hallows : authProtocol.Allows .failed e) {r : e.Answer} {s' : DownAuthority}
    (hr : s.Handles e r s') :
    authProtocol.Answers e r ∧
      s₀.Inv s' (Function.update phase i (authProtocol.next .failed e r)) := by
  cases e with
  | recordFailure tier =>
    cases tier with
    | auth =>
      obtain rfl : s' = _ := hr
      refine ⟨trivial, ?_, ?_⟩
      · rw [← h.limits_eq]
        simp [limits, setBreaker, CircuitBreaker.recordFailure]
      · have hfail := h.bounded.fail
        rw [← h.limits_eq, ← view_reported hi, h.limits_eq] at hfail
        exact hfail
    | cache => exact hallows.elim
  | allow tier | recordSuccess tier | backend tier op | time => exact hallows.elim

/-- **Every call** of the protocol, and the passing of time. -/
theorem kept_inv : authProtocol.Kept downAuthority (ι := ι) s₀.Inv where
  call {s phase i e r s'} h hallows hr := by
    cases hi : phase i with
    | idle => exact h.call_idle hi (hi ▸ hallows) hr
    | allowed => exact h.call_allowed hi (hi ▸ hallows) hr
    | failed => exact h.call_failed hi (hi ▸ hallows) hr
  env := by
    rintro s s' phase h ⟨t, ht, rfl⟩
    exact ⟨h.limits_eq, h.bounded.wait ht⟩

end DownAuthority

/-- **The load during an outage.** Any number of worker threads run programs of the service over the
resilient store, from a closed circuit, while the authority is down. By the time `t` after the
beginning, fewer calls have reached the authority than its threshold and one call of every worker
for each cooldown begun. -/
theorem DownAuthority.calls_lt {ι α : Type} [Fintype ι] [DecidableEq ι] (store : ResilientStore)
    (progs : ι → StoreProg α) (s₀ : DownAuthority)
    (hclosed : (s₀.breaker .auth).failures < (s₀.breaker .auth).threshold)
    (hcooldown : 0 < (s₀.breaker .auth).cooldown) (hcalls : s₀.calls = 0)
    {c : DownAuthority × (ι → Prog.Thread BackendOp BackendOp.Answer α)}
    (hc : Prog.Steps downAuthority (s₀, fun i => Prog.start (store.implement (progs i))) c) :
    c.1.calls < (s₀.breaker .auth).threshold +
      Fintype.card ι * (⌊(c.1.now - s₀.now) / (s₀.breaker .auth).cooldown⌋₊ + 1) := by
  have hstart : (s₀.limits ι).Bounded s₀.now (s₀.view fun _ : ι => .idle) :=
    Breaker.Limits.bounded_start le_rfl hclosed (by simp [view, AuthPhase.busy])
      (by simp [view, AuthPhase.due, hcalls])
  have hkept : authProtocol.Kept downAuthority (fun s (phase : ι → AuthPhase) => s₀.Inv s phase) :=
    kept_inv
  obtain ⟨phase, -, -, hbounded⟩ := hkept.steps
    ⟨fun _ => .idle, fun i => store.reports_implement (progs i), rfl, hstart⟩ hc
  obtain ⟨rounds, hrounds, hload⟩ := hbounded.load
  have hfloor : rounds ≤ ⌊(c.1.now - s₀.now) / (s₀.breaker .auth).cooldown⌋₊ := by
    refine Nat.le_floor ?_
    rw [le_div_iff₀ hcooldown, ← nsmul_eq_mul]
    exact le_sub_iff_add_le'.2 hrounds
  calc c.1.calls ≤ c.1.calls + ∑ i, (phase i).due := Nat.le_add_right _ _
    _ < (s₀.breaker .auth).threshold + Fintype.card ι * (rounds + 1) := hload
    _ ≤ _ := Nat.add_le_add_left (Nat.mul_le_mul_left _ (Nat.succ_le_succ hfloor)) _

/-- Two reads, one after the other. -/
def twoReads : StoreProg Unit :=
  .call (.store (.get "p".toList)) fun _ => .call (.store (.get "p".toList)) fun _ => .ret ()

/-- The answers of an authority that is down, without a cache. -/
def DownAuthority.respond : (e : BackendOp) → DownAuthority → e.Answer × DownAuthority
  | .allow tier, s => ((s.breaker tier).allow s.now, s)
  | .recordSuccess tier, s => ((), s.setBreaker tier (s.breaker tier).recordSuccess)
  | .recordFailure tier, s => ((), s.setBreaker tier ((s.breaker tier).recordFailure s.now))
  | .backend .auth _, s => (.error .other, { s with calls := s.calls + 1 })
  | .backend .cache _, s => (.error .other, s)
  | .time, s => (s.now, s)

theorem DownAuthority.handle_respond (e : BackendOp) (s : DownAuthority) :
    downAuthority.handle e s (respond e s).1 (respond e s).2 := by
  match e with
  | .allow tier => exact ⟨rfl, rfl⟩
  | .recordSuccess tier => rfl
  | .recordFailure tier => rfl
  | .backend .auth _ => exact ⟨⟨_, rfl⟩, rfl⟩
  | .backend .cache _ => rfl
  | .time => rfl

/-- Four workers read while the authority is down. All of them pass the closed circuit, and after
the cooldown all of them pass the half-open one. -/
theorem DownAuthority.calls_lt_reads :
    ∃ c : DownAuthority × (Fin 4 → Prog.Thread BackendOp BackendOp.Answer Unit),
      Prog.Steps downAuthority (⟨fun _ => {}, 0, 0⟩, fun _ => Prog.start
        (ResilientStore.implement { hasCache := false } twoReads)) c ∧
      c.1.calls = 8 ∧ c.1.calls < 3 + Fintype.card (Fin 4) * (⌊(c.1.now - 0) / 10⌋₊ + 1) := by
  let c₁ := Prog.advances respond (List.replicate 3 [0, 1, 2, 3]).flatten
    (⟨fun _ => {}, 0, 0⟩, fun _ : Fin 4 => Prog.start
      (ResilientStore.implement { hasCache := false } twoReads))
  let c₂ := ({ c₁.1 with now := 10 }, c₁.2)
  let c₃ := Prog.advances respond (List.replicate 3 [0, 1, 2, 3]).flatten c₂
  have h₁ : Prog.Steps downAuthority _ c₁ := Prog.steps_advances handle_respond _ _
  have h₂ : Prog.Step downAuthority c₁ c₂ := .env ⟨10, by decide +kernel, rfl⟩
  have h₃ : Prog.Steps downAuthority c₂ c₃ := Prog.steps_advances handle_respond _ _
  have h : Prog.Steps downAuthority _ c₃ := h₁.trans ((Relation.ReflTransGen.single h₂).trans h₃)
  exact ⟨c₃, h, by decide +kernel,
    calls_lt { hasCache := false } (fun _ => twoReads) ⟨fun _ => {}, 0, 0⟩ (by decide +kernel)
      (by decide +kernel) rfl h⟩

end PiiProxy
