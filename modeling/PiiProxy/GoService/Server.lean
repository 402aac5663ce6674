import PiiProxy.Admission.Middleware
import PiiProxy.GoService.Admission
import PiiProxy.GoService.ResilientStore
import PiiProxy.Lib.Protocols

/-!
# The server of the Go service

The handler of `/process` in `go-service/cmd/server/main.go`. A request is refused at once, or by
the gate, or holds an amount of work of the gate until the handler returns or panics: the release is
deferred. Requests run concurrently over the resilient store. The counters of requests are left
out, and so is the encoding of the responses.

## Main definitions

* `GoService.HttpRequest`, `GoService.Response`.
* `GoService.FrontOp`: what the handler calls besides the store.
* `GoService.Server.handleProcess`: the handler.
* `GoService.serverSystem`: the gate that the requests share, over any backends.
* `GoService.Server.Explains`: the history of a request that has ended.
* `GoService.workProtocol`: the work that a request holds.

## Main results

* `GoService.Server.every_handleProcess`, `GoService.Server.follows_handleProcess`: the handler.
* `GoService.GateCounts.kept`: the gate counts the requests that hold work.
* `GoService.Server.requests_served`: every interleaving.
-/

namespace PiiProxy.GoService

/-! ### Requests and responses -/

/-- What the handler reads of a request before its body. The length is `-1` when the client does not
announce it. -/
structure HttpRequest where
  method : GoString
  contentLength : ℤ
  le_contentLength : -1 ≤ contentLength

inductive ResponseBody where
  | plain (text : GoString)
  | json (fields : List (GoString × GoString))
  deriving DecidableEq

structure Response where
  status : ℕ
  header : List (GoString × GoString)
  body : ResponseBody
  deriving DecidableEq

/-- `http.Error`. -/
def httpError (message : GoString) (status : ℕ) : Response where
  status := status
  header := [(str "Content-Type", str "text/plain; charset=utf-8"),
    (str "X-Content-Type-Options", str "nosniff")]
  body := .plain (message ++ str "\n")

/-- `writeJSON` of a map with one key, when these headers are set. -/
def writeJSON (header : List (GoString × GoString)) (status : ℕ) (key value : GoString) :
    Response where
  status := status
  header := header ++ [(str "Content-Type", str "application/json")]
  body := .json [(key, value)]

def detailKey : GoString := str "detail"

namespace Response

def methodNotAllowed : Response := httpError (str "method not allowed") 405

def payloadTooLarge : Response := writeJSON [] 413 detailKey (str "payload too large")

def overCapacity (rejection : Rejection) : Response :=
  writeJSON [(str "Retry-After", showInt (truncated (rejection.retryAfter + 999 / 1000)))] 429
    detailKey (str "over capacity, retry later")

def invalidRequest : Response := writeJSON [] 422 detailKey (str "invalid request")

def storageUnavailable : Response :=
  writeJSON [(str "Retry-After", str "5")] 503 detailKey (str "mapping storage unavailable")

def result (text : GoString) : Response := writeJSON [] 200 (str "result") text

end Response

/-! ### The handler -/

/-- What the handler calls besides the store. -/
inductive FrontOp where
  | tryAcquire (payloadSize : ℤ)
  | release (work : ℚ)
  | decode
  | write (response : Response)

/-- What these calls return. The body may not be a request. -/
abbrev FrontOp.Answer : FrontOp → Type
  | .tryAcquire _ => Except Rejection ℚ
  | .release _ => Unit
  | .decode => Option Request
  | .write _ => Unit

/-- The calls of the handler, and those of the store below it. -/
abbrev ServerOp : Type := FrontOp ⊕ BackendOp

abbrev ServerOp.Answer : ServerOp → Type := Sum.elim FrontOp.Answer BackendOp.Answer

abbrev ServerProg (α : Type) : Type := Prog ServerOp ServerOp.Answer α

abbrev ServerEvent : Type := Prog.Event ServerOp ServerOp.Answer

/-- How the handler ends. -/
inductive Outcome where
  | responded (response : Response)
  | panicked (fault : Go.Fault)
  deriving DecidableEq

def Outcome.responses : Outcome → List Response
  | .responded response => [response]
  | .panicked _ => []

/-- What the handler makes of a reply. The service has no other error than a lost storage. -/
def outcomeOf : Reply → Outcome
  | .ok (text, _) => .responded (.result text)
  | .error .storageUnavailable => .responded .storageUnavailable
  | .error (.fault fault) => .panicked fault

/-- The response is written, and the handler returns. -/
def send (response : Response) : ServerProg Outcome :=
  .call (.inl (.write response)) fun _ => .ret (.responded response)

/-- The handler goes on with an outcome. -/
def conclude : Outcome → ServerProg Outcome
  | .responded response => send response
  | .panicked fault => .ret (.panicked fault)

/-- What `main` reads from the environment, and the service over its store. -/
structure Server where
  service : Service
  store : ResilientStore
  maxInFlight : ℤ
  maxPayload : ℤ

namespace Server

variable (server : Server)

/-- The gate. -/
def gate : Admission := newAdmission server.maxInFlight 16000000

/-- The part of the handler that the gate admits. -/
def admitted : ServerProg Outcome :=
  .call (.inl .decode) fun
    | none => send .invalidRequest
    | some body =>
      if body.payloadId = [] then send .invalidRequest
      else ((server.store.implement (server.service.process body.payload body.payloadId)).inr).bind
        fun reply => conclude (outcomeOf reply)

/-- The handler of `/process`. -/
def handleProcess (request : HttpRequest) : ServerProg Outcome :=
  if request.method ≠ str "POST" then send .methodNotAllowed
  else if request.contentLength > server.maxPayload then send .payloadTooLarge
  else .call (.inl (.tryAcquire request.contentLength)) fun
    | .error rejection => send (.overCapacity rejection)
    | .ok work => server.admitted.bind fun outcome =>
      -- the deferred release, also when the handler panics
      .call (.inl (.release work)) fun _ => .ret outcome

end Server

/-- The gate that the requests share, over any backends. -/
def serverSystem {σ : Type*} (backends : Sys σ BackendOp BackendOp.Answer) :
    Sys (Admission × σ) ServerOp ServerOp.Answer where
  handle e s r s' :=
    match e, r with
    | .inl (.tryAcquire payloadSize), r =>
      ∃ now, s.1.tryAcquire now payloadSize = (r, s'.1) ∧ s'.2 = s.2
    | .inl (.release work), _ => ∃ now, s' = (s.1.release now work, s.2)
    | .inl .decode, _ => s' = s
    | .inl (.write _), _ => s' = s
    | .inr e, r => s'.1 = s.1 ∧ backends.handle e s.2 r s'.2
  env s s' := s'.1 = s.1 ∧ backends.env s.2 s'.2

/-! ### The history of a request -/

section History

variable (server : Server) (request : HttpRequest)

def written (response : Response) : ServerEvent := ⟨.inl (.write response), ()⟩

def asked (answer : Except Rejection ℚ) : ServerEvent :=
  ⟨.inl (.tryAcquire request.contentLength), answer⟩

def released (work : ℚ) : ServerEvent := ⟨.inl (.release work), ()⟩

def decoded (body : Option Request) : ServerEvent := ⟨.inl .decode, body⟩

/-- The request reaches the gate. -/
def Server.Passes : Prop :=
  request.method = str "POST" ∧ request.contentLength ≤ server.maxPayload

/-- **The history of a request that has ended**: what it called, in this order, and how it ended. -/
inductive Server.Explains : List ServerEvent → Outcome → Prop
  | method (hmethod : request.method ≠ str "POST") :
    Explains [written .methodNotAllowed] (.responded .methodNotAllowed)
  | size (hsize : server.maxPayload < request.contentLength) :
    Explains [written .payloadTooLarge] (.responded .payloadTooLarge)
  | capacity (hpasses : server.Passes request) (rejection : Rejection) :
    Explains [asked request (.error rejection), written (.overCapacity rejection)]
      (.responded (.overCapacity rejection))
  | body (hpasses : server.Passes request) (work : ℚ) (body : Option Request)
      (hbody : ∀ b ∈ body, b.payloadId = []) :
    Explains [asked request (.ok work), decoded body, written .invalidRequest, released work]
      (.responded .invalidRequest)
  | served (hpasses : server.Passes request) (work : ℚ) (body : Request)
      (hbody : body.payloadId ≠ []) (calls : List BackendEvent) (reply : Reply)
      (hreply : server.service.Accounts body calls reply) :
    Explains (asked request (.ok work) :: decoded (some body) :: calls.map Prog.Event.inr ++
      (outcomeOf reply).responses.map written ++ [released work]) (outcomeOf reply)

variable {server request}

theorem Server.every_conclude {Q : List ServerEvent → Outcome → Prop} {h : List ServerEvent}
    {outcome : Outcome} (hQ : Q (h ++ outcome.responses.map written) outcome) :
    Prog.Every Q h (conclude outcome) := by
  cases outcome with
  | responded response => exact fun _ => hQ
  | panicked fault => simpa [Outcome.responses, conclude, Prog.Every] using hQ

/-- **The handler** ends with such a history, whatever its calls answer. -/
theorem Server.every_handleProcess :
    Prog.Every (server.Explains request) [] (server.handleProcess request) := by
  unfold handleProcess
  split_ifs with hmethod hsize
  · exact fun _ => .method hmethod
  · exact fun _ => .size hsize
  · have hpasses : server.Passes request := ⟨not_not.1 hmethod, not_lt.1 hsize⟩
    intro answer
    cases answer with
    | error rejection => exact fun _ => .capacity hpasses rejection
    | ok work =>
      refine Prog.Every.bind fun body => ?_
      cases body with
      | none => exact fun _ _ => .body hpasses work none (by simp)
      | some body =>
        dsimp only
        split_ifs with hbody
        · exact fun _ _ => .body hpasses work (some body) (by simpa using hbody)
        · refine Prog.Every.bind ((Service.every_process (h := []).inr).mono ?_)
          rintro _ reply ⟨calls, rfl, hreply⟩
          exact Server.every_conclude fun _ => .served hpasses work body hbody calls reply hreply

end History

/-! ### The work that requests hold -/

/-- A request that has passed the gate holds an amount of work until it releases it, and only then
it reads its body and calls the store. -/
def workProtocol : Prog.Protocol ServerOp ServerOp.Answer (Option ℚ) where
  Allows
    | none, .inl (.tryAcquire payloadSize) => -1 ≤ payloadSize
    | some work, .inl (.release work') => work' = work
    | some _, .inl .decode | some _, .inr _ => True
    | _, .inl (.write _) => True
    | _, _ => False
  Answers _ _ := True
  next
    | _, .inl (.tryAcquire _), .ok work => some work
    | _, .inl (.release _), _ => none
    | q, _, _ => q

section

variable {post : Option ℚ → Outcome → Prop} {held : Option ℚ}

theorem follows_send {response : Response} (hpost : post held (.responded response)) :
    workProtocol.Follows post held (send response) :=
  ⟨by cases held <;> trivial, fun _ _ => hpost⟩

theorem follows_conclude {outcome : Outcome} (hpost : post held outcome) :
    workProtocol.Follows post held (conclude outcome) := by
  cases outcome with
  | responded response => exact follows_send hpost
  | panicked fault => exact hpost

end

/-- **The handler releases its work**, also when it panics. -/
theorem Server.follows_handleProcess (server : Server) (request : HttpRequest) :
    workProtocol.Follows (fun held _ => held = none) none (server.handleProcess request) := by
  unfold handleProcess
  split_ifs
  · exact follows_send rfl
  · exact follows_send rfl
  · refine ⟨request.le_contentLength, fun answer _ => ?_⟩
    cases answer with
    | error rejection => exact follows_send rfl
    | ok work =>
      refine Prog.Protocol.Follows.bind ⟨trivial, fun body _ => ?_⟩
      have hrelease (outcome : Outcome) : workProtocol.Follows (fun held _ => held = none)
          (some work) (.call (.inl (.release work)) fun _ => .ret outcome) :=
        ⟨rfl, fun _ _ => rfl⟩
      cases body with
      | none => exact follows_send (hrelease _)
      | some body =>
        dsimp only
        split_ifs
        · exact follows_send (hrelease _)
        · exact Prog.Protocol.Follows.bind <| Prog.Protocol.Follows.inr (fun _ => trivial)
            (fun _ _ => rfl) (fun reply => follows_conclude (hrelease _)) _

/-! ### The counts of the gate -/

/-- Whether a request holds work, as a number. -/
def holding : Option ℚ → ℤ
  | none => 0
  | some _ => 1

@[simp] theorem holding_none : holding none = 0 := rfl

@[simp] theorem holding_some (work : ℚ) : holding (some work) = 1 := rfl

theorem holding_nonneg (held : Option ℚ) : 0 ≤ holding held := by
  cases held with
  | none => exact le_rfl
  | some work => exact zero_le_one

/-- An arrival is rejected, or let in. -/
theorem Admission.tryAcquire_cases {a a' : Admission} {now : ℚ} {payloadSize : ℤ}
    {r : Except Rejection ℚ} (hr : a.tryAcquire now payloadSize = (r, a')) :
    ∃ work a₁, work = a.baseCost + a.perChar * payloadSize ∧ a₁ = a.observeArrival now work ∧
      ((∃ rejection, r = .error rejection ∧ a' = a₁) ∨
        (a₁.inFlight < a₁.maxInFlight ∧ a₁.outstanding + work ≤ a₁.maxBacklog ∧ r = .ok work ∧
          a' = { a₁ with inFlight := a₁.inFlight + 1, outstanding := a₁.outstanding + work })) := by
  refine ⟨_, _, rfl, rfl, ?_⟩
  simp only [Admission.tryAcquire] at hr
  split_ifs at hr with hflight hbacklog
  · exact .inl ⟨_, (Prod.mk.inj hr).1.symm, (Prod.mk.inj hr).2.symm⟩
  · exact .inl ⟨_, (Prod.mk.inj hr).1.symm, (Prod.mk.inj hr).2.symm⟩
  · exact .inr ⟨not_le.1 hflight, not_lt.1 hbacklog, (Prod.mk.inj hr).1.symm,
      (Prod.mk.inj hr).2.symm⟩

/-- **The gate counts the requests that hold work**, and their work. -/
structure GateCounts {ι : Type} [Fintype ι] (server : Server) (a : Admission)
    (held : ι → Option ℚ) : Prop where
  maxInFlight : a.maxInFlight = server.maxInFlight
  maxBacklog : a.maxBacklog = 16000000
  baseCost : a.baseCost = 500
  perChar : a.perChar = 1
  inFlight_eq : a.inFlight = ∑ i, holding (held i)
  outstanding_eq : a.outstanding = ∑ i, (held i).getD 0
  work_nonneg : ∀ i, 0 ≤ (held i).getD 0
  inFlight_le : a.inFlight ≤ max server.maxInFlight 0
  outstanding_le : a.outstanding ≤ 16000000

namespace GateCounts

variable {ι : Type} [Fintype ι] {server : Server} {a : Admission} {held : ι → Option ℚ}

theorem initial (server : Server) : GateCounts server server.gate (fun _ : ι => none) where
  maxInFlight := rfl
  maxBacklog := rfl
  baseCost := rfl
  perChar := rfl
  inFlight_eq := by simp [Server.gate, newAdmission, holding]
  outstanding_eq := by simp [Server.gate, newAdmission]
  work_nonneg _ := le_rfl
  inFlight_le := le_max_right _ _
  outstanding_le := by norm_num [Server.gate, newAdmission]

theorem observeArrival (h : GateCounts server a held) (now work : ℚ) :
    GateCounts server (a.observeArrival now work) held :=
  { h with }

variable [DecidableEq ι] {i : ι} {work : ℚ}

/-- A request is let in. -/
theorem acquire (h : GateCounts server a held) (hi : held i = none) (hpos : 0 ≤ work)
    (hflight : a.inFlight < a.maxInFlight) (hbacklog : a.outstanding + work ≤ a.maxBacklog) :
    GateCounts server { a with inFlight := a.inFlight + 1, outstanding := a.outstanding + work }
      (Function.update held i (some work)) := by
  have hcount := Prog.sum_update holding held i (some work)
  have hwork := Prog.sum_update (fun held : Option ℚ => held.getD 0) held i (some work)
  simp only [hi, holding_none, holding_some, Option.getD_none, Option.getD_some, add_zero]
    at hcount hwork
  refine { h with inFlight_eq := ?_, outstanding_eq := ?_, work_nonneg := fun j => ?_,
                  inFlight_le := ?_, outstanding_le := ?_ }
  · rw [hcount, ← h.inFlight_eq]
  · rw [hwork, ← h.outstanding_eq]
  · by_cases hj : j = i
    · subst hj
      simpa using hpos
    · simpa [Function.update_of_ne hj] using h.work_nonneg j
  · have hmax := h.maxInFlight
    show a.inFlight + 1 ≤ _
    omega
  · exact h.maxBacklog ▸ hbacklog

/-- A request asks the gate. -/
theorem tryAcquire (h : GateCounts server a held) (hi : held i = none) {payloadSize : ℤ}
    (hsize : -1 ≤ payloadSize) {now : ℚ} {r : Except Rejection ℚ} {a' : Admission}
    (hr : a.tryAcquire now payloadSize = (r, a')) :
    GateCounts server a'
      (Function.update held i (workProtocol.next none (.inl (.tryAcquire payloadSize)) r)) := by
  obtain ⟨work, a₁, hwork, rfl, ⟨rejection, rfl, rfl⟩ | ⟨hflight, hbacklog, rfl, rfl⟩⟩ :=
    Admission.tryAcquire_cases hr
  · show GateCounts server _ (Function.update held i none)
    rw [← hi, Function.update_eq_self]
    exact h.observeArrival now work
  · refine (h.observeArrival now work).acquire hi ?_ hflight hbacklog
    have hsize' : (-1 : ℚ) ≤ payloadSize := by exact_mod_cast hsize
    rw [hwork, h.baseCost, h.perChar]
    linarith

/-- A release. The counts do not become negative, so they are not cut off. -/
theorem release (h : GateCounts server a held) (hi : held i = some work) (now : ℚ) :
    GateCounts server (a.release now work) (Function.update held i none) := by
  have hcount := Prog.sum_update holding held i none
  have hwork := Prog.sum_update (fun held : Option ℚ => held.getD 0) held i none
  simp only [hi, holding_none, holding_some, Option.getD_none, Option.getD_some, add_zero]
    at hcount hwork
  have hnonneg (j : ι) : 0 ≤ (Function.update held i none j).getD 0 := by
    by_cases hj : j = i
    · subst hj
      simp
    · simpa [Function.update_of_ne hj] using h.work_nonneg j
  have hcount_nonneg : 0 ≤ ∑ j, holding (Function.update held i none j) :=
    Finset.sum_nonneg fun j _ => holding_nonneg _
  have hwork_nonneg : 0 ≤ ∑ j, (Function.update held i none j).getD 0 :=
    Finset.sum_nonneg fun j _ => hnonneg j
  have hwork_pos : 0 ≤ work := by simpa [hi] using h.work_nonneg i
  have hflight : (a.release now work).inFlight = ∑ j, holding (Function.update held i none j) := by
    show (if a.inFlight - 1 < 0 then 0 else a.inFlight - 1) = _
    rw [h.inFlight_eq, if_neg (by omega)]
    omega
  have houtstanding : (a.release now work).outstanding =
      ∑ j, (Function.update held i none j).getD 0 := by
    show (if a.outstanding - work < 0 then 0 else a.outstanding - work) = _
    rw [h.outstanding_eq, if_neg (by linarith)]
    linarith
  refine { h with inFlight_eq := hflight, outstanding_eq := houtstanding, work_nonneg := hnonneg,
                  inFlight_le := ?_, outstanding_le := ?_ }
  · have hle := h.inFlight_le
    rw [hflight]
    have heq := h.inFlight_eq
    omega
  · rw [houtstanding]
    have hle := h.outstanding_le
    rw [h.outstanding_eq] at hle
    linarith

/-- **Every call** of the handlers keeps the counts. -/
theorem kept {σ : Type*} (backends : Sys σ BackendOp BackendOp.Answer) :
    workProtocol.Kept (serverSystem backends)
      fun s (held : ι → Option ℚ) => GateCounts server s.1 held where
  call {s held i e r s'} h hallows hr := by
    refine ⟨trivial, ?_⟩
    have hsame (hs : s'.1 = s.1) : GateCounts server s'.1 (Function.update held i (held i)) := by
      rw [hs, Function.update_eq_self]
      exact h
    cases e with
    | inr e => exact hsame hr.1
    | inl e =>
      cases e with
      | decode => exact hsame (congrArg Prod.fst hr)
      | write response => exact hsame (congrArg Prod.fst hr)
      | release work =>
        obtain ⟨now, rfl⟩ := hr
        cases hi : held i with
        | none =>
          rw [hi] at hallows
          exact hallows.elim
        | some held' =>
          rw [hi] at hallows
          obtain rfl : work = held' := hallows
          exact h.release hi now
      | tryAcquire payloadSize =>
        obtain ⟨now, hr, -⟩ := hr
        cases hi : held i with
        | some work =>
          rw [hi] at hallows
          exact hallows.elim
        | none =>
          rw [hi] at hallows hsame
          exact h.tryAcquire hi hallows hr
  env h he := he.1 ▸ h

end GateCounts

/-! ### Every interleaving -/

/-- The request reads its body, or calls the store. -/
def Serving (p : ServerProg Outcome) : Prop :=
  (∃ k, p = .call (.inl .decode) k) ∨ ∃ e k, p = .call (.inr e) k

/-- A request that is served holds work. -/
theorem holding_of_serving {post : Option ℚ → Outcome → Prop} {held : Option ℚ}
    {p : ServerProg Outcome} (hfollows : workProtocol.Follows post held p) (hp : Serving p) :
    holding held = 1 := by
  cases held with
  | some work => rfl
  | none =>
    obtain ⟨k, rfl⟩ | ⟨e, k, rfl⟩ := hp
    · exact hfollows.1.elim
    · exact hfollows.1.elim

/-- **What the server guarantees.** Any number of requests for `/process` run at the same time over
any backends. At every moment the requests that read their bodies or call the store are at most as
many as the gate allows, and their work is within the backlog. When all requests have ended, the
gate counts none and no work. A request that has ended has one of the five histories, and its
response is accounted for by what the gate, the body and the backends have answered. -/
theorem Server.requests_served {ι : Type} {σ : Type*} [Fintype ι] [DecidableEq ι]
    (server : Server) (backends : Sys σ BackendOp BackendOp.Answer) (requests : ι → HttpRequest)
    {s : σ} {c : (Admission × σ) × (ι → Prog.Thread ServerOp ServerOp.Answer Outcome)}
    (hrun : Prog.Steps (serverSystem backends)
      ((server.gate, s), fun i => Prog.start (server.handleProcess (requests i))) c) :
    (∀ serving : Finset ι, (∀ i ∈ serving, Serving (c.2 i).prog) →
        (serving.card : ℤ) ≤ max server.maxInFlight 0) ∧
      c.1.1.outstanding ≤ 16000000 ∧
      ((∀ i, (c.2 i).prog.result?.isSome) → c.1.1.inFlight = 0 ∧ c.1.1.outstanding = 0) ∧
      ∀ i outcome, (c.2 i).prog = .ret outcome →
        server.Explains (requests i) (c.2 i).hist outcome := by
  have hinitial : GateCounts server server.gate fun _ : ι => none := .initial server
  obtain ⟨held, hfollows, hcounts⟩ := (GateCounts.kept backends).steps
    ⟨fun _ => none, fun i => server.follows_handleProcess (requests i), hinitial⟩ hrun
  refine ⟨fun serving hserving => ?_, hcounts.outstanding_le, fun hended => ?_,
    fun i outcome hi => ?_⟩
  · calc (serving.card : ℤ) = ∑ i ∈ serving, holding (held i) := by
          rw [Finset.sum_congr rfl fun i hi => holding_of_serving (hfollows i) (hserving i hi)]
          simp
      _ ≤ ∑ i, holding (held i) :=
          Finset.sum_le_univ_sum_of_nonneg fun i => holding_nonneg (held i)
      _ ≤ max server.maxInFlight 0 := hcounts.inFlight_eq ▸ hcounts.inFlight_le
  · have hnone (i : ι) : held i = none := by
      obtain ⟨outcome, houtcome⟩ := Option.isSome_iff_exists.1 (hended i)
      have hi := hfollows i
      rw [Prog.eq_ret_of_result? houtcome] at hi
      exact hi
    rw [hcounts.inFlight_eq, hcounts.outstanding_eq]
    simp [hnone]
  · exact Prog.Every.of_steps (Q := fun i => server.Explains (requests i)) hrun
      (fun i => server.every_handleProcess) hi

/-- A server that lets one request in at a time. -/
def oneRequestServer : Server := ⟨Service.tokenService, ⟨true, 300⟩, 1, 3000000⟩

/-- A request of a hundred bytes. -/
def postRequest : HttpRequest := ⟨str "POST", 100, by decide⟩

/-- The answers to a request with an address, from a store without its cache. -/
def ServerOp.respond : (e : ServerOp) → Admission × Records →
    ServerOp.Answer e × (Admission × Records)
  | .inl (.tryAcquire payloadSize), s =>
    let r := s.1.tryAcquire 0 payloadSize
    (r.1, r.2, s.2)
  | .inl (.release work), s => ((), s.1.release 0 work, s.2)
  | .inl .decode, s => (some (Service.mailAndToken false), s)
  | .inl (.write _), s => ((), s)
  | .inr e, s =>
    let r := Service.respondWithoutCache e s.2
    (r.1, s.1, r.2)

/-- While the first request is served, the second one is rejected. -/
def servedOne : (Admission × Records) × (Bool → Prog.Thread ServerOp ServerOp.Answer Outcome) :=
  Prog.advances ServerOp.respond ([false, false, true, true] ++ List.replicate 15 false)
    ((oneRequestServer.gate, fun _ => none),
      fun _ => Prog.start (oneRequestServer.handleProcess postRequest))

/-- The store without its cache. -/
def withoutCache : Sys Records BackendOp BackendOp.Answer where
  handle e s r s' := Service.respondWithoutCache e s = (r, s')
  env _ _ := False

theorem ServerOp.handle_respond (e : ServerOp) (s : Admission × Records) :
    (serverSystem withoutCache).handle e s (respond e s).1 (respond e s).2 := by
  cases e with
  | inr e => exact ⟨rfl, rfl⟩
  | inl e =>
    cases e with
    | tryAcquire payloadSize => exact ⟨0, rfl, rfl⟩
    | release work => exact ⟨0, rfl⟩
    | decode => rfl
    | write response => rfl

theorem Server.requests_served_one :
    oneRequestServer.Explains postRequest (servedOne.2 false).hist
        (.responded (.result (str "<EMAIL_1>"))) ∧
      oneRequestServer.Explains postRequest (servedOne.2 true).hist
        (.responded (.overCapacity ⟨3 / 2, "in_flight_limit".toList⟩)) ∧
      servedOne.1.1.inFlight = 0 := by
  have hrun := Prog.steps_advances ServerOp.handle_respond
    ([false, false, true, true] ++ List.replicate 15 false)
    ((oneRequestServer.gate, fun _ => none),
      fun _ : Bool => Prog.start (oneRequestServer.handleProcess postRequest))
  have hmask : (servedOne.2 false).prog.result? =
      some (.responded (.result (str "<EMAIL_1>"))) := by
    decide +kernel
  have hrefused : (servedOne.2 true).prog.result? =
      some (.responded (.overCapacity ⟨3 / 2, "in_flight_limit".toList⟩)) := by
    decide +kernel
  have hserved := requests_served oneRequestServer withoutCache (fun _ => postRequest) hrun
  refine ⟨hserved.2.2.2 false _ (Prog.eq_ret_of_result? hmask),
    hserved.2.2.2 true _ (Prog.eq_ret_of_result? hrefused), (hserved.2.2.1 fun i => ?_).1⟩
  cases i with
  | false => exact Option.isSome_of_eq_some hmask
  | true => exact Option.isSome_of_eq_some hrefused

end PiiProxy.GoService
