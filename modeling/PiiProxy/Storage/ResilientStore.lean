import PiiProxy.Core.ProcessService

/-!
# The resilient mapping store

`app/storage/resilient_store.py`: an authoritative store with a best-effort cache in front, each
behind a circuit breaker. Every operation of the store is a program over the calls of the two
backends, the operations of the two breakers, and the clock, so that failures, evictions and other
requests may fall between any two of them. Metrics and log messages are left out.

## Main definitions

* `CircuitBreaker`, `CircuitBreaker.state`, `CircuitBreaker.allow`,
  `CircuitBreaker.recordSuccess`, `CircuitBreaker.recordFailure`.
* `Tier`, `BackendOp`: the two backends and the calls on them.
* `ResilientStore`, `ResilientStore.guardedCall`, `ResilientStore.authCall`,
  `ResilientStore.cacheCall`.
* `ResilientStore.get`, `ResilientStore.saveIfAbsent`, `ResilientStore.update`,
  `ResilientStore.delete`, `ResilientStore.markDemasked`.
* `ResilientStore.serve`: the store as an implementation of the calls of the service.
-/

namespace PiiProxy

/-! ### The circuit breaker -/

inductive CircuitState where
  | closed | opened | halfOpen
  deriving DecidableEq, Repr

structure CircuitBreaker where
  threshold : ℕ := 3
  cooldown : ℚ := 10
  failures : ℕ := 0
  openedAt : Option ℚ := none
  deriving DecidableEq, Repr

namespace CircuitBreaker

variable (b : CircuitBreaker)

/-- `CircuitBreaker.state` at the time `now`. -/
def state (now : ℚ) : CircuitState :=
  if b.failures < b.threshold then .closed
  else if b.cooldown ≤ now - b.openedAt.getD now then .halfOpen
  else .opened

/-- `allow`. -/
def allow (now : ℚ) : Bool := b.state now != .opened

/-- `record_success`. -/
def recordSuccess : CircuitBreaker := { b with failures := 0, openedAt := none }

/-- `record_failure` at the time `now`; the two branches that open the circuit set the same
time. -/
def recordFailure (now : ℚ) : CircuitBreaker :=
  { b with
    failures := b.failures + 1
    openedAt := if b.threshold ≤ b.failures + 1 then some now else b.openedAt }

/-- A closed circuit allows every call. -/
theorem allow_of_lt {b : CircuitBreaker} (h : b.failures < b.threshold) (now : ℚ) :
    b.allow now = true := by
  rw [allow, state, if_pos h]
  rfl

/-- A success closes the circuit. -/
theorem recordSuccess_lt {b : CircuitBreaker} (h : b.failures < b.threshold) :
    b.recordSuccess.failures < b.recordSuccess.threshold :=
  (Nat.zero_le b.failures).trans_lt h

end CircuitBreaker

/-! ### Calls on the backends -/

/-- The authoritative store and the cache. -/
inductive Tier where
  | auth | cache
  deriving DecidableEq, Repr

/-- What the store calls: the breaker of a backend, the backend, and the clock. -/
inductive BackendOp where
  | allow (tier : Tier)
  | recordSuccess (tier : Tier)
  | recordFailure (tier : Tier)
  | backend (tier : Tier) (op : StoreOp)
  | time

/-- The type of the answers to a call. A backend may raise anything. -/
abbrev BackendOp.Answer : BackendOp → Type
  | .allow _ => Bool
  | .recordSuccess _ => Unit
  | .recordFailure _ => Unit
  | .backend _ op => Except StoreFault op.Result
  | .time => ℚ

/-- Programs over the two backends. -/
abbrev BackendProg : Type → Type := Prog BackendOp BackendOp.Answer

/-! ### The store -/

structure ResilientStore where
  hasCache : Bool := true
  authName : Text := "authoritative".toList
  backfillTtl : ℚ := 300

/-- The name under which an operation is reported. -/
def StoreOp.label : StoreOp → Text
  | .get _ => "get".toList
  | .saveIfAbsent .. => "save_if_absent".toList
  | .update .. => "update".toList
  | .delete _ => "delete".toList
  | .markDemasked .. => "mark_demasked".toList

namespace ResilientStore

variable (store : ResilientStore)

/-- What `_auth_call` and `_cache_call` share: the call is made when the breaker allows it, and its
outcome is reported to the breaker. -/
def guardedCall {β : Type} (tier : Tier) (op : StoreOp) (refused failed : β)
    (answered : op.Result → β) : BackendProg β :=
  .call (.allow tier) fun allowed =>
    if !allowed then .ret refused
    else
      .call (.backend tier op) fun
        | .error _ => .call (.recordFailure tier) fun _ => .ret failed
        | .ok result => .call (.recordSuccess tier) fun _ => .ret (answered result)

/-- `_auth_call`: every failure of the authority is `StorageUnavailableError`. -/
def authCall (op : StoreOp) : BackendProg (Except StoreFault op.Result) :=
  guardedCall .auth op (.error (.unavailable (store.authName ++ " circuit open".toList)))
    (.error (.unavailable (store.authName ++ " ".toList ++ op.label ++ " failed".toList))) .ok

/-- `_cache_call`: `none` when there is no cache, its circuit is open, or it fails. -/
def cacheCall (op : StoreOp) : BackendProg (Option op.Result) :=
  if !store.hasCache then .ret none else guardedCall .cache op none none some

/-- `save_if_absent`. -/
def saveIfAbsent (payloadId : Text) (record : MappingRecord) (ttl : ℚ) :
    BackendProg (Except StoreFault Bool) :=
  (store.authCall (.saveIfAbsent payloadId record ttl)).bind fun
    | .error fault => .ret (.error fault)
    | .ok false => .ret (.ok false)
    | .ok true =>
      (store.cacheCall (.update payloadId record ttl)).bind fun _ => .ret (.ok true)

/-- `get` after the answer of the authority, which is written to the cache when `backfill`. -/
def afterAuthGet (payloadId : Text) (backfill : Bool) :
    Except StoreFault (Option MappingRecord) →
      BackendProg (Except StoreFault (Option MappingRecord))
  | .error fault => .ret (.error fault)
  | .ok none => .ret (.ok none)
  | .ok (some record) =>
    if backfill then
      (store.cacheCall (.update payloadId record store.backfillTtl)).bind fun _ =>
        .ret (.ok (some record))
    else .ret (.ok (some record))

/-- The read of the authority in `get`. -/
def readThrough (payloadId : Text) (backfill : Bool) :
    BackendProg (Except StoreFault (Option MappingRecord)) :=
  (store.authCall (.get payloadId)).bind (store.afterAuthGet payloadId backfill)

/-- `get` after the answer of the cache: a hit is returned, and after a genuine miss the record of
the authority is written to the cache. -/
def afterCacheGet (payloadId : Text) :
    Option (Option MappingRecord) → BackendProg (Except StoreFault (Option MappingRecord))
  | some (some cached) => .ret (.ok (some cached))
  | some none => store.readThrough payloadId true
  | none => store.readThrough payloadId false

/-- `get`. -/
def get (payloadId : Text) : BackendProg (Except StoreFault (Option MappingRecord)) :=
  (store.cacheCall (.get payloadId)).bind (store.afterCacheGet payloadId)

/-- `update`. -/
def update (payloadId : Text) (record : MappingRecord) (ttl : ℚ) :
    BackendProg (Except StoreFault Unit) :=
  (store.authCall (.update payloadId record ttl)).bind fun
    | .error fault => .ret (.error fault)
    | .ok _ => (store.cacheCall (.update payloadId record ttl)).bind fun _ => .ret (.ok ())

/-- `delete`: the cache goes first. -/
def delete (payloadId : Text) : BackendProg (Except StoreFault Unit) :=
  (store.cacheCall (.delete payloadId)).bind fun _ => store.authCall (.delete payloadId)

/-- The second half of `mark_demasked`: the cache is refreshed from its own copy. -/
def refreshCache (payloadId : Text) (grace : ℚ) : BackendProg (Except StoreFault Unit) :=
  (store.cacheCall (.get payloadId)).bind fun
    | some (some cached) => .call .time fun now =>
      (store.cacheCall (.update payloadId (cached.demasked now) grace)).bind fun _ =>
        .ret (.ok ())
    | _ => .ret (.ok ())

/-- `mark_demasked`: it tolerates an authority that is down. -/
def markDemasked (payloadId : Text) (grace : ℚ) : BackendProg (Except StoreFault Unit) :=
  (store.authCall (.markDemasked payloadId grace)).bind fun _ => store.refreshCache payloadId grace

/-- The program of an operation of the store. -/
def run : (op : StoreOp) → BackendProg (Except StoreFault op.Result)
  | .get payloadId => store.get payloadId
  | .saveIfAbsent payloadId record ttl => store.saveIfAbsent payloadId record ttl
  | .update payloadId record ttl => store.update payloadId record ttl
  | .delete payloadId => store.delete payloadId
  | .markDemasked payloadId grace => store.markDemasked payloadId grace

/-- The program of a call of the service. -/
def serve : (op : ServiceOp) → BackendProg op.Answer
  | .store op => store.run op
  | .time => .call BackendOp.time .ret

/-- A program of the service over the resilient store. -/
def implement {α : Type} (p : StoreProg α) : BackendProg α := p.translate store.serve

end ResilientStore

end PiiProxy
