import PiiProxy.Storage.ResilientStore

/-!
# The two backends of the resilient store

The state of the authority and of the cache as maps from payload ids to records, with the two
breakers and with the log of the records that the authority created. What a call of a backend may do
besides its effect differs between the results about the store, so the systems over this state share
everything but the calls and the environment.

## Main definitions

* `Backends`, `Backends.put`, `Backends.apply`: the state, a write, the effect of an operation.
* `Backends.system`: the system with given calls of the backends and a given environment.
* `Backends.respond`: the answers of backends some of which are down.
-/

namespace PiiProxy

/-- The breakers and the contents of the two backends, with the log of the records that the
authority ever created. -/
structure Backends where
  breaker : Tier → CircuitBreaker
  held : Tier → Text → Option MappingRecord
  created : Text → List MappingRecord

namespace Backends

variable (s : Backends)

/-- The backend `tier` holds `entry` under the payload id. -/
def put (tier : Tier) (payloadId : Text) (entry : Option MappingRecord) : Backends :=
  { s with held := fun tier' payloadId' =>
      if tier' = tier ∧ payloadId' = payloadId then entry else s.held tier' payloadId' }

/-- The authority created the record. -/
def log (tier : Tier) (payloadId : Text) (record : MappingRecord) : Backends :=
  match tier with
  | .auth => { s with
      created := Function.update s.created payloadId (s.created payloadId ++ [record]) }
  | .cache => s

/-- Empty backends behind the given breakers. -/
def empty (breaker : Tier → CircuitBreaker) : Backends where
  breaker := breaker
  held _ _ := none
  created _ := []

@[simp] theorem put_breaker (tier : Tier) (payloadId : Text) (entry : Option MappingRecord) :
    (s.put tier payloadId entry).breaker = s.breaker := rfl

@[simp] theorem log_breaker (tier : Tier) (payloadId : Text) (record : MappingRecord) :
    (s.log tier payloadId record).breaker = s.breaker := by
  cases tier <;> rfl

@[simp] theorem log_held (tier : Tier) (payloadId : Text) (record : MappingRecord) :
    (s.log tier payloadId record).held = s.held := by
  cases tier <;> rfl

theorem put_held (tier tier' : Tier) (payloadId payloadId' : Text)
    (entry : Option MappingRecord) :
    (s.put tier payloadId entry).held tier' payloadId' =
      if tier' = tier ∧ payloadId' = payloadId then entry else s.held tier' payloadId' := rfl

@[simp] theorem put_held_self (tier : Tier) (payloadId : Text) (entry : Option MappingRecord) :
    (s.put tier payloadId entry).held tier payloadId = entry :=
  if_pos ⟨rfl, rfl⟩

/-- A write leaves the other backend alone. -/
theorem put_held_of_ne {tier tier' : Tier} (h : tier' ≠ tier) (payloadId payloadId' : Text)
    (entry : Option MappingRecord) :
    (s.put tier payloadId entry).held tier' payloadId' = s.held tier' payloadId' :=
  if_neg fun hid => h hid.1

/-- A write leaves the other ids alone. -/
theorem put_held_of_id_ne {payloadId payloadId' : Text} (h : payloadId' ≠ payloadId)
    (tier tier' : Tier) (entry : Option MappingRecord) :
    (s.put tier payloadId entry).held tier' payloadId' = s.held tier' payloadId' :=
  if_neg fun hid => h hid.2

/-- The effect of an operation on the contents of a backend, when it is applied. -/
def apply (tier : Tier) : (op : StoreOp) → op.Result → Backends → Prop
  | .get payloadId, r, s' => r = s.held tier payloadId ∧ s' = s
  | .saveIfAbsent payloadId record _, r, s' =>
    (s.held tier payloadId = none ∧ r = true ∧
      s' = (s.put tier payloadId (some record)).log tier payloadId record) ∨
      (s.held tier payloadId ≠ none ∧ r = false ∧ s' = s)
  | .update payloadId record _, _, s' => s' = s.put tier payloadId (some record)
  | .delete payloadId, _, s' => s' = s.put tier payloadId none
  | .markDemasked payloadId _, _, s' =>
    ∃ now, s' = s.put tier payloadId ((s.held tier payloadId).map (·.demasked now))

/-- The answer to an operation that is applied, and the state after it, at the time `0`. -/
def serve (tier : Tier) : (op : StoreOp) → op.Result × Backends
  | .get payloadId => (s.held tier payloadId, s)
  | .saveIfAbsent payloadId record _ =>
    if s.held tier payloadId = none then
      (true, (s.put tier payloadId (some record)).log tier payloadId record)
    else (false, s)
  | .update payloadId record _ => ((), s.put tier payloadId (some record))
  | .delete payloadId => ((), s.put tier payloadId none)
  | .markDemasked payloadId _ =>
    ((), s.put tier payloadId ((s.held tier payloadId).map (·.demasked 0)))

theorem apply_serve (tier : Tier) (op : StoreOp) :
    s.apply tier op (s.serve tier op).1 (s.serve tier op).2 := by
  cases op with
  | get payloadId => exact ⟨rfl, rfl⟩
  | saveIfAbsent payloadId record ttl =>
    by_cases hheld : s.held tier payloadId = none
    · rw [serve, if_pos hheld]
      exact .inl ⟨hheld, rfl, rfl⟩
    · rw [serve, if_neg hheld]
      exact .inr ⟨hheld, rfl, rfl⟩
  | update payloadId record ttl => rfl
  | delete payloadId => rfl
  | markDemasked payloadId grace => exact ⟨0, rfl⟩

/-- The system with the given effects of the calls of the backends and with the given environment.
The breakers work as in the source; the clock may show any time. -/
def system (call : Tier → (op : StoreOp) → Backends → Except StoreFault op.Result → Backends → Prop)
    (env : Backends → Backends → Prop) : Sys Backends BackendOp BackendOp.Answer where
  handle
    | .allow tier, s, r, s' => (∃ now, r = (s.breaker tier).allow now) ∧ s' = s
    | .recordSuccess tier, s, _, s' =>
      s' = { s with breaker := Function.update s.breaker tier (s.breaker tier).recordSuccess }
    | .recordFailure tier, s, _, s' => ∃ now,
      s' = { s with breaker := Function.update s.breaker tier ((s.breaker tier).recordFailure now) }
    | .backend tier op, s, r, s' => call tier op s r s'
    | .time, s, _, s' => s' = s
  env := env

/-- The answers of backends of which those in `down` fail, at the time `0`. -/
def respond (down : Tier → Bool) : (e : BackendOp) → Backends → e.Answer × Backends
  | .allow tier, s => ((s.breaker tier).allow 0, s)
  | .recordSuccess tier, s =>
    ((), { s with breaker := Function.update s.breaker tier (s.breaker tier).recordSuccess })
  | .recordFailure tier, s =>
    ((), { s with breaker := Function.update s.breaker tier ((s.breaker tier).recordFailure 0) })
  | .backend tier op, s =>
    if down tier then (.error .other, s) else (.ok (s.serve tier op).1, (s.serve tier op).2)
  | .time, s => (0, s)

/-- These answers are answers of a system whose calls may be applied, and may fail where `down`
says so. -/
theorem handle_respond {call : Tier → (op : StoreOp) → Backends → Except StoreFault op.Result →
      Backends → Prop} {env : Backends → Backends → Prop} {down : Tier → Bool}
    (hup : ∀ tier op s a s', down tier = false → s.apply tier op a s' →
      call tier op s (.ok a) s')
    (hdown : ∀ tier op s, down tier = true → call tier op s (.error .other) s)
    (e : BackendOp) (s : Backends) :
    (system call env).handle e s (respond down e s).1 (respond down e s).2 := by
  cases e with
  | allow tier => exact ⟨⟨0, rfl⟩, rfl⟩
  | recordSuccess tier => rfl
  | recordFailure tier => exact ⟨0, rfl⟩
  | backend tier op =>
    cases htier : down tier with
    | false =>
      simp only [respond, htier, Bool.false_eq_true, ↓reduceIte]
      exact hup tier op s _ _ htier (s.apply_serve tier op)
    | true =>
      simp only [respond, htier, ↓reduceIte]
      exact hdown tier op s htier
  | time => rfl

end Backends

/-- The record of a payload without personal data. -/
def plainRecord : MappingRecord where
  version := recordVersion
  state := .active
  mode := .tokenMode
  originalFingerprint := "ab".toList
  transformedFingerprint := "ab".toList
  noPii := true
  demaskEnabled := true
  mappings := []
  occurrences := []
  createdAt := 0
  demaskedAt := none

end PiiProxy
