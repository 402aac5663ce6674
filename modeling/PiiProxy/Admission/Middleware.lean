import PiiProxy.Admission.RetryAfter
import PiiProxy.Core.Runtime
import PiiProxy.Lib.Protocols
import PiiProxy.Lib.PyDict

/-!
# The admission middleware

`app/admission/middleware.py`: the gate in front of the application. A request for `/process` is
refused when it is too large, or passes the controller, and its ticket is released when the
application has returned or raised. Requests run concurrently. So the application is never inside
more of them than the controller admits, and no ticket is lost. The metrics are left out.

The controller is asked for sizes that are not negative: the server in front refuses other values of
the header.

## Main definitions

* `Scope`, `contentLength`: a request, and the size that it announces.
* `AsgiOp`: what the middleware calls. The application is awaited: it starts, and it ends.
* `AdmissionMiddleware.call`: `AdmissionMiddleware.__call__`.
* `gateSystem`: the controller that the requests share.
* `GatePhase`, `gateProtocol`: releasing each ticket once, and awaiting the application only while
  there is one.
* `Admitted`: the requests that have tickets.

## Main results

* `follows_call`: the middleware follows this protocol.
* `Admitted.kept`: one call of a request is a step of the gate, or leaves it alone.
* `AdmissionMiddleware.inside_le`: every interleaving.
* `retryHeader_eq_ceil`: the header of a rejection.
-/

namespace PiiProxy

/-! ### Requests -/

/-- What the middleware reads of the connection scope. -/
structure Scope where
  type : Text
  path : Option Text
  headers : List (Text × Text)

/-- The value of decimal digits, between which single underscores may stand. -/
def digitRun (value : ℕ) (afterDigit : Bool) : Text → Option ℕ
  | [] => if afterDigit then some value else none
  | c :: cs =>
    if c.isDigit then digitRun (10 * value + (c.toNat - '0'.toNat)) true cs
    else if c = '_' ∧ afterDigit then digitRun value false cs
    else none

/-- The white space that `int` strips from bytes. -/
def isAsciiSpace (c : Char) : Bool := [' ', '\t', '\n', '\r', '\x0b', '\x0c'].contains c

/-- `int(value)` of bytes, `none` when it raises. -/
def parseInt (value : Text) : Option ℤ :=
  match ((value.dropWhile isAsciiSpace).reverse.dropWhile isAsciiSpace).reverse with
  | '+' :: digits => (digitRun 0 false digits).map Nat.cast
  | '-' :: digits => (digitRun 0 false digits).map fun n => -(n : ℤ)
  | digits => (digitRun 0 false digits).map Nat.cast

/-- `size`: the content length, zero when there is none or it is no number. -/
def contentLength (headers : List (Text × Text)) : ℤ :=
  let value := ((PyDict.ofPairs headers).lookup "content-length".toList).getD "0".toList
  if value.isEmpty then 0 else (parseInt value).getD 0

inductive AsgiMessage where
  | responseStart (status : ℕ) (headers : List (Text × Text))
  | responseBody (body : Text)
  deriving DecidableEq, Repr

/-- What the middleware calls and awaits. -/
inductive AsgiOp where
  | tryAcquire (size : ℤ)
  | release (ticket : AdmissionTicket)
  | send (message : AsgiMessage)
  | appStarts
  | appEnds

/-- Whether the coroutine returned or raised. -/
abbrev Awaited : Type := Except Unit Unit

abbrev AsgiOp.Answer : AsgiOp → Type
  | .tryAcquire _ => Except AdmissionRejectedError AdmissionTicket
  | .release _ => Unit
  | .send _ => Awaited
  | .appStarts => Unit
  | .appEnds => Awaited

abbrev AsgiProg : Type := Prog AsgiOp AsgiOp.Answer Awaited

/-! ### The middleware -/

/-- What the middleware reads of the application: whether it has a controller, and the limit of its
settings. -/
structure AdmissionMiddleware where
  hasAdmission : Bool := true
  maxPayloadBytes : ℕ := 3000000

/-- `int(x)`: towards zero. -/
def truncated (x : ℚ) : ℤ := if 0 ≤ x then ⌊x⌋ else ⌈x⌉

/-- `str(n)`. -/
def showSigned : ℤ → Text
  | .ofNat n => showNat n
  | .negSucc n => '-' :: showNat (n + 1)

/-- The header of a rejection. -/
def retryHeader (e : AdmissionRejectedError) : ℤ := truncated (e.retryAfter + 999 / 1000)

/-- A response with a detail, which the middleware sends itself. -/
def sendDetail (status : ℕ) (detail : String) (extra : List (Text × Text)) : AsgiProg :=
  let body := "\x7b\"detail\": \"".toList ++ detail.toList ++ "\"\x7d".toList
  .call (.send (.responseStart status ([("content-type".toList, "application/json".toList),
      ("content-length".toList, showNat body.length)] ++ extra))) fun
    | .error e => .ret (.error e)
    | .ok _ => .call (.send (.responseBody body)) .ret

/-- `await self.app(scope, receive, send)`. -/
def awaitApp : AsgiProg := .call .appStarts fun _ => .call .appEnds .ret

namespace AdmissionMiddleware

variable (mw : AdmissionMiddleware)

/-- The request passes the gate. -/
def gates (scope : Scope) : Bool :=
  scope.type == "http".toList && scope.path == some "/process".toList && mw.hasAdmission

/-- `AdmissionMiddleware.__call__`. -/
def call (scope : Scope) : AsgiProg :=
  if !mw.gates scope then awaitApp
  else
    let size := contentLength scope.headers
    if mw.maxPayloadBytes ≠ 0 ∧ size > mw.maxPayloadBytes then
      sendDetail 413 "payload too large" []
    else
      .call (.tryAcquire size) fun
        | .error e => sendDetail 429 "over capacity, retry later"
          [("retry-after".toList, showSigned (retryHeader e))]
        | .ok ticket => .call .appStarts fun _ => .call .appEnds fun r =>
          .call (.release ticket) fun _ => .ret r

end AdmissionMiddleware

/-- **The header of a rejection** is the time of the rejection, rounded up to seconds: it is never
too short. -/
theorem retryHeader_eq_ceil {e : AdmissionRejectedError} (hnonneg : 0 ≤ e.retryAfter)
    (htenths : AdmissionConfig.IsTenths e.retryAfter) : retryHeader e = ⌈e.retryAfter⌉ := by
  obtain ⟨n, hn⟩ := htenths
  rw [retryHeader, truncated, if_pos (by linarith), Int.floor_eq_iff]
  have hceil := Int.le_ceil e.retryAfter
  -- the distance to the next second is a number of tenths below ten
  have hlt : n > 10 * (⌈e.retryAfter⌉ - 1) := by
    have h := Int.ceil_lt_add_one e.retryAfter
    have hcast : ((10 * (⌈e.retryAfter⌉ - 1) : ℤ) : ℚ) < n := by
      push_cast
      linarith
    exact_mod_cast hcast
  have hfar : (⌈e.retryAfter⌉ : ℚ) * 10 ≤ n + 9 := by
    have h : ⌈e.retryAfter⌉ * 10 ≤ n + 9 := by omega
    exact_mod_cast h
  constructor <;> linarith

/-- The controller that the requests share. -/
def gateSystem (cfg : AdmissionConfig) : Sys AdmissionController AsgiOp AsgiOp.Answer where
  handle e c r c' :=
    match e, r with
    | .tryAcquire size, r => ∃ env, ∃ payloadSize : ℕ, size = payloadSize ∧
      cfg.tryAcquire env payloadSize c = (r, c')
    | .release ticket, _ => ∃ env, c' = cfg.release env ticket c
    | .send _, _ => c' = c
    | .appStarts, _ => c' = c
    | .appEnds, _ => c' = c
  env _ _ := False

/-! ### What a request does with its ticket -/

/-- The request does not pass the gate, or it has no ticket, or it has this one. -/
inductive GatePhase where
  | passing | outside
  | holding (ticket : AdmissionTicket)

def GatePhase.ticket? : GatePhase → Option AdmissionTicket
  | .passing | .outside => none
  | .holding ticket => some ticket

/-- A request that passes the gate awaits the application only while it has a ticket, and releases
the ticket. -/
def gateProtocol : Prog.Protocol AsgiOp AsgiOp.Answer GatePhase where
  Allows
    | .outside, .tryAcquire _ => True
    | .holding ticket, .release ticket' => ticket' = ticket
    | .passing, .appStarts | .passing, .appEnds => True
    | .holding _, .appStarts | .holding _, .appEnds => True
    | _, .send _ => True
    | _, _ => False
  Answers _ _ := True
  next
    | _, .tryAcquire _, .ok ticket => .holding ticket
    | _, .release _, _ => .outside
    | q, _, _ => q

/-- The phase in which a request begins. -/
def AdmissionMiddleware.phase (mw : AdmissionMiddleware) (scope : Scope) : GatePhase :=
  if mw.gates scope then .outside else .passing

theorem follows_sendDetail (status : ℕ) (detail : String) (extra : List (Text × Text)) :
    gateProtocol.Follows (fun q _ => q.ticket? = none) .outside
      (sendDetail status detail extra) := by
  refine ⟨trivial, fun r _ => ?_⟩
  cases r with
  | error _ => rfl
  | ok _ => exact ⟨trivial, fun _ _ => rfl⟩

/-- **The middleware releases its tickets.** -/
theorem follows_call (mw : AdmissionMiddleware) (scope : Scope) :
    gateProtocol.Follows (fun q _ => q.ticket? = none) (mw.phase scope) (mw.call scope) := by
  unfold AdmissionMiddleware.call AdmissionMiddleware.phase
  cases mw.gates scope with
  | false => exact ⟨trivial, fun _ _ => ⟨trivial, fun _ _ => rfl⟩⟩
  | true =>
    simp only [Bool.not_true, Bool.false_eq_true, if_false, if_true]
    split
    · exact follows_sendDetail _ _ _
    · refine ⟨trivial, fun r _ => ?_⟩
      cases r with
      | error _ => exact follows_sendDetail _ _ _
      | ok ticket =>
        exact ⟨trivial, fun _ _ => ⟨trivial, fun _ _ => ⟨rfl, fun _ _ => rfl⟩⟩⟩

/-! ### Every interleaving -/

section Pool

variable {ι : Type} [DecidableEq ι] {cfg : AdmissionConfig} {gated : ι → Bool}

/-- The requests that have a ticket, with the tickets. -/
abbrev Holders (ι : Type) : Type := List (ι × AdmissionTicket)

/-- The tickets of the requests are those of the gate, and the requests that pass it do so. -/
structure Admitted (cfg : AdmissionConfig) (gated : ι → Bool) (holders : Holders ι)
    (c : AdmissionController) (phase : ι → GatePhase) : Prop where
  nodup : (holders.map Prod.fst).Nodup
  reachable : Gate.Reachable cfg ⟨c, holders.map Prod.snd⟩
  lookup_eq : ∀ i, holders.lookup i = (phase i).ticket?
  ne_passing : ∀ i, gated i = true → phase i ≠ .passing

variable {holders : Holders ι} {c : AdmissionController} {phase : ι → GatePhase} {i : ι}
  {ticket : AdmissionTicket}

theorem Admitted.ne_passing_update (h : Admitted cfg gated holders c phase) {q : GatePhase}
    (hq : q ≠ .passing) (j : ι) (hj : gated j = true) :
    Function.update phase i q j ≠ .passing := by
  by_cases hji : j = i
  · subst hji
    rwa [Function.update_self]
  · rw [Function.update_of_ne hji]
    exact h.ne_passing j hj

/-- A request gets a ticket. -/
theorem Admitted.acquired (h : Admitted cfg gated holders c phase) (hi : phase i = .outside)
    {env : AcquireReadings} {payloadSize : ℕ} {c' : AdmissionController}
    (hacquire : cfg.tryAcquire env payloadSize c = (.ok ticket, c')) :
    Admitted cfg gated ((i, ticket) :: holders) c'
      (Function.update phase i (.holding ticket)) := by
  have hnone : holders.lookup i = none := by rw [h.lookup_eq, hi]; rfl
  refine ⟨List.nodup_cons.2 ⟨fun hmem => ?_, h.nodup⟩, h.reachable.tail (.accepted env payloadSize
    ticket hacquire), fun j => ?_, h.ne_passing_update GatePhase.noConfusion⟩
  · obtain ⟨holder, hholder, heq⟩ := List.mem_map.1 hmem
    have hne := List.lookup_eq_none_iff.1 hnone holder hholder
    exact bne_iff_ne.1 hne heq.symm
  · by_cases hj : j = i
    · subst hj
      rw [List.lookup_cons_self, Function.update_self]
      rfl
    · rw [List.lookup_cons, beq_false_of_ne hj, Function.update_of_ne hj]
      exact h.lookup_eq j

/-- A request releases its ticket. -/
theorem Admitted.released (h : Admitted cfg gated holders c phase) (hi : phase i = .holding ticket)
    (env : ReleaseReadings) : ∃ holders', Admitted cfg gated holders' (cfg.release env ticket c)
      (Function.update phase i .outside) := by
  have hsome : holders.lookup i = some ticket := by rw [h.lookup_eq, hi]; rfl
  obtain ⟨before, after, rfl, -⟩ := List.lookup_eq_some_iff.1 hsome
  have hnodup := h.nodup
  rw [List.map_append, List.map_cons, List.nodup_middle, List.nodup_cons,
    ← List.map_append] at hnodup
  refine ⟨before ++ after, hnodup.2, ?_, fun j => ?_, h.ne_passing_update GatePhase.noConfusion⟩
  · have hreachable := h.reachable
    rw [List.map_append, List.map_cons] at hreachable
    rw [List.map_append]
    exact hreachable.tail (.released env _ ticket _)
  · by_cases hj : j = i
    · subst hj
      rw [Function.update_self]
      refine List.lookup_eq_none_iff.2 fun holder hholder => bne_iff_ne.2 fun heq => hnodup.1 ?_
      exact List.mem_map.2 ⟨holder, hholder, heq.symm⟩
    · have hlookup := h.lookup_eq j
      rw [List.lookup_append, List.lookup_cons, beq_false_of_ne hj, ← List.lookup_append]
        at hlookup
      rw [hlookup, Function.update_of_ne hj]

/-- **Every call** of a request is a step of the gate, or leaves it alone. -/
theorem Admitted.kept : gateProtocol.Kept (gateSystem cfg)
    fun c (phase : ι → GatePhase) => ∃ holders, Admitted cfg gated holders c phase where
  call {c phase i e r c'} := by
    rintro ⟨holders, h⟩ hallows hr
    refine ⟨trivial, ?_⟩
    have hkeep (h : Admitted cfg gated holders c' phase) :
        ∃ holders, Admitted cfg gated holders c' (Function.update phase i (phase i)) := by
      rw [Function.update_eq_self]
      exact ⟨holders, h⟩
    cases e with
    | send message => exact hkeep (hr ▸ h)
    | appStarts => exact hkeep (hr ▸ h)
    | appEnds => exact hkeep (hr ▸ h)
    | release ticket =>
      obtain ⟨env, rfl⟩ := hr
      cases hi : phase i with
      | holding ticket' =>
        rw [hi] at hallows
        obtain rfl : ticket = ticket' := hallows
        exact h.released hi env
      | passing | outside =>
        rw [hi] at hallows
        exact hallows.elim
    | tryAcquire size =>
      obtain ⟨env, payloadSize, -, hacquire⟩ := hr
      cases hi : phase i with
      | outside =>
        cases r with
        | ok ticket => exact ⟨_, h.acquired hi hacquire⟩
        | error e =>
          rw [← hi]
          exact hkeep
            { h with reachable := h.reachable.tail (.rejected env payloadSize e hacquire) }
      | passing | holding ticket =>
        rw [hi] at hallows
        exact hallows.elim
  env _ he := he.elim

/-- The application is inside a request. -/
def InsideApp (p : AsgiProg) : Prop := ∃ k, p = .call .appEnds k

/-- A gated request that the application is inside of has a ticket. -/
theorem Admitted.mem_of_insideApp (h : Admitted cfg gated holders c phase) (hgated : gated i = true)
    {post : GatePhase → Awaited → Prop} {p : AsgiProg}
    (hfollows : gateProtocol.Follows post (phase i) p) (hinside : InsideApp p) :
    i ∈ holders.map Prod.fst := by
  obtain ⟨k, rfl⟩ := hinside
  have hlookup := h.lookup_eq i
  cases hi : phase i with
  | passing => exact (h.ne_passing i hgated hi).elim
  | outside =>
    rw [hi] at hfollows
    exact hfollows.1.elim
  | holding ticket =>
    rw [hi] at hlookup
    obtain ⟨before, after, rfl, -⟩ := List.lookup_eq_some_iff.1 hlookup
    rw [List.map_append, List.map_cons]
    exact List.mem_append_cons_self

/-- When no request has a ticket, the gate has none. -/
theorem Admitted.eq_nil (h : Admitted cfg gated holders c phase)
    (hnone : ∀ i, (phase i).ticket? = none) : holders = [] := by
  refine List.eq_nil_iff_forall_not_mem.2 fun ⟨i, ticket⟩ hmem => ?_
  have hno := List.lookup_eq_none_iff.1 ((h.lookup_eq i).trans (hnone i)) _ hmem
  exact bne_iff_ne.1 hno rfl

end Pool

/-- **What the middleware guarantees.** Any number of requests go through the middleware, in any
order of its calls, whatever the application does. At every moment the application is inside at most
as many gated requests as the controller admits, and their work is within the backlog. When all
requests have ended, the controller counts none and no work. -/
theorem AdmissionMiddleware.inside_le {ι : Type} [Fintype ι] [DecidableEq ι]
    (mw : AdmissionMiddleware) (cfg : AdmissionConfig) (scopes : ι → Scope)
    {c : AdmissionController × (ι → Prog.Thread AsgiOp AsgiOp.Answer Awaited)}
    (hc : Prog.Steps (gateSystem cfg) (.initial, fun i => Prog.start (mw.call (scopes i))) c) :
    (∀ inside : Finset ι, (∀ i ∈ inside, mw.gates (scopes i) = true ∧ InsideApp (c.2 i).prog) →
        (inside.card : ℤ) ≤ cfg.maxInFlight) ∧
      c.1.outstandingWork ≤ cfg.maxBacklog ∧
      ((∀ i, (c.2 i).prog.result?.isSome) → c.1.inFlight = 0 ∧ c.1.outstandingWork = 0) := by
  have hinitial : Admitted cfg (fun i => mw.gates (scopes i)) [] .initial
      fun i => mw.phase (scopes i) :=
    ⟨List.nodup_nil, .refl, fun i => by unfold phase; split <;> rfl,
      fun i hi => by simp [phase, hi]⟩
  obtain ⟨phase, hfollows, holders, h⟩ := Admitted.kept.steps
    ⟨fun i => mw.phase (scopes i), fun i => follows_call mw (scopes i), [], hinitial⟩ hc
  have haccounted := h.reachable.accounted
  refine ⟨fun inside hinside => ?_, haccounted.outstandingWork_le, fun hended => ?_⟩
  · have hsubset : inside ⊆ (holders.map Prod.fst).toFinset := fun i hi =>
      List.mem_toFinset.2 (h.mem_of_insideApp (hinside i hi).1 (hfollows i) (hinside i hi).2)
    have hcard : inside.card ≤ holders.length := by
      calc inside.card ≤ (holders.map Prod.fst).toFinset.card := Finset.card_le_card hsubset
        _ ≤ holders.length := by simpa using List.toFinset_card_le (holders.map Prod.fst)
    have hflight : c.1.inFlight = (holders.map Prod.snd).length := haccounted.inFlight_eq
    have hlimit : c.1.inFlight ≤ cfg.maxInFlight := haccounted.inFlight_le
    rw [List.length_map] at hflight
    omega
  · have hnone (i : ι) : (phase i).ticket? = none := by
      obtain ⟨r, hr⟩ := Option.isSome_iff_exists.1 (hended i)
      have hi := hfollows i
      rw [Prog.eq_ret_of_result? hr] at hi
      exact hi
    obtain rfl := h.eq_nil hnone
    exact ⟨haccounted.inFlight_eq, haccounted.outstandingWork_eq⟩

/-- A gate for one request at a time. -/
def oneAtATime : AdmissionConfig :=
  { AdmissionConfig.standard with maxInFlight := 1, maxInFlight_nonneg := by decide }

/-- The answers of this gate, with an application that returns. -/
def AsgiOp.respond : (e : AsgiOp) → AdmissionController → e.Answer × AdmissionController
  | .tryAcquire size, c => oneAtATime.tryAcquire (.quiet 0) size.toNat c
  | .release ticket, c => ((), oneAtATime.release ⟨0, 0, 0⟩ ticket c)
  | .send _, c => (.ok (), c)
  | .appStarts, c => ((), c)
  | .appEnds, c => (.ok (), c)

/-- The size that is asked for is not negative. -/
def AsgiOp.sized : AsgiOp → Bool
  | .tryAcquire size => decide (0 ≤ size)
  | .release _ | .send _ | .appStarts | .appEnds => true

theorem AsgiOp.handle_respond (e : AsgiOp) (c : AdmissionController) (h : e.sized = true) :
    (gateSystem oneAtATime).handle e c (respond e c).1 (respond e c).2 := by
  cases e with
  | tryAcquire size => exact ⟨.quiet 0, size.toNat, by simpa [sized] using h, rfl⟩
  | release ticket => exact ⟨⟨0, 0, 0⟩, rfl⟩
  | send message => rfl
  | appStarts => rfl
  | appEnds => rfl

/-- A request of a hundred bytes. -/
def processScope : Scope :=
  ⟨"http".toList, some "/process".toList, [("content-length".toList, "100".toList)]⟩

/-- The second of two requests arrives while the application is inside the first one, and is
rejected. -/
theorem AdmissionMiddleware.inside_le_two :
    ∃ c : AdmissionController × (Bool → Prog.Thread AsgiOp AsgiOp.Answer Awaited),
      Prog.Steps (gateSystem oneAtATime)
        (.initial, fun _ => Prog.start (AdmissionMiddleware.call {} processScope)) c ∧
      (c.2 true).hist.length = 3 ∧ c.1.inFlight = 0 ∧ c.1.outstandingWork = 0 := by
  let c := Prog.advances AsgiOp.respond [false, false, true, true, true, false, false]
    (AdmissionController.initial, fun _ : Bool => Prog.start
      (AdmissionMiddleware.call {} processScope))
  have h : Prog.Steps (gateSystem oneAtATime) _ c :=
    Prog.steps_of_checks AsgiOp.handle_respond _ _ (by decide +kernel)
  exact ⟨c, h, by decide +kernel,
    (inside_le {} oneAtATime (fun _ => processScope) h).2.2 (by decide +kernel)⟩

end PiiProxy
