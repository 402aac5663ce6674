import PiiProxy.GoService.Reversibility
import PiiProxy.Lib.Program

/-!
# The requests of the Go service

`go-service/pii/service.go` with the fingerprints of `fingerprint.go`: a request reads the record of
its payload id and repeats, undoes or creates a masking. It is a program that calls the store and
the clock. The store that it may assume is `atomicStore`: each operation on the record of an id is
atomic, nothing fails and nothing expires.

## Main definitions

* `GoService.Record`, `GoService.ServiceOp`: records, and the operations that a request calls.
* `GoService.Service`, `GoService.Service.process`: the service and its requests.
* `GoService.atomicStore`: the store with atomic operations.
* `GoService.Service.IsRecordOf`: the record describes the masking of a payload.

## Main results

* `GoService.Service.isRecordOf_newRecord`: a first request stores such a record.
* `GoService.Service.IsRecordOf.demask`: the request with the masked text restores the payload.
-/

namespace PiiProxy

namespace GoService

/-! ### Records and the store -/

/-- The stored state of a payload id. -/
structure Record where
  version : ℕ
  state : MappingState
  mode : Mode
  originalFingerprint : GoString
  transformedFingerprint : GoString
  noPII : Bool
  mappings : List Mapping
  occurrences : List Occurrence
  createdAt : ℤ
  demaskedAt : ℤ := 0
  deriving DecidableEq

/-- The record after `MarkDemasked` at `now`. -/
def Record.demasked (r : Record) (now : ℤ) : Record :=
  { r with state := .demaskedGrace, demaskedAt := now }

/-- The record without the fields that `MarkDemasked` sets. -/
def Record.core (r : Record) : Record := { r with state := .active, demaskedAt := 0 }

/-- What a request calls: the operations of the store, and the clock. -/
inductive ServiceOp where
  | get (payloadId : GoString)
  | saveIfAbsent (payloadId : GoString) (record : Record) (ttl : ℤ)
  | markDemasked (payloadId : GoString) (grace : ℤ)
  | now

/-- Any error of the store: the service does not look at it. -/
inductive StoreError where
  | failed
  deriving DecidableEq

/-- What the operations return. -/
abbrev ServiceOp.Answer : ServiceOp → Type
  | .get _ => Except StoreError (Option Record)
  | .saveIfAbsent _ _ _ => Except StoreError Bool
  | .markDemasked _ _ => Except StoreError Unit
  | .now => ℤ

/-- A program over the store and the clock. -/
abbrev ServiceProg (α : Type) : Type := Prog ServiceOp ServiceOp.Answer α

/-- The direction that a request reports. -/
inductive Direction where
  | mask | maskDegraded | retryMask | demask
  deriving DecidableEq

/-- Why a request has no answer: `ErrStorageUnavailable`, or a fault of the run time. -/
inductive Failure where
  | storageUnavailable
  | fault (f : Go.Fault)
  deriving DecidableEq

/-- The text and the direction that a request answers. -/
abbrev Reply : Type := Except Failure (GoString × Direction)

/-! ### The service -/

/-- `Service`, apart from its store. -/
structure Service where
  runtime : GoRuntime
  mode : Mode
  secret : GoString
  ttl : ℤ
  grace : ℤ

/-- `tokenTrace`. -/
def tokenTrace : Regex Char :=
  .concat [Pat.lit "<", .plus (.chr fun c => ('A' ≤ c && c ≤ 'Z') || c == '_'),
    Pat.lit "_", .plus digit,
    Pat.lit ">"]

/-- `re.MatchString(text)`. -/
def matchString (re : Regex Char) (text : GoString) : Bool := !(re.finditer (chars text)).isEmpty

namespace Service

variable (svc : Service)

/-- `Fingerprint`. -/
def fingerprint (value : GoString) : GoString :=
  if svc.secret ≠ [] then svc.runtime.hmacSha256Hex svc.secret value
    else svc.runtime.sha256Hex value

/-- `BuildTransform(payload, Decide(payload, Detect(payload)), mode, seed)`. -/
@[irreducible] def transform (payload seed : GoString) : Except Go.Fault Transform :=
  buildTransform svc.runtime payload
    (decideAll svc.runtime.unicode payload (detect svc.runtime payload)) svc.mode seed

/-- The record of a first request. -/
def newRecord (payload : GoString) (tr : Transform) (now : ℤ) : Record where
  version := 2
  state := .active
  mode := svc.mode
  originalFingerprint := svc.fingerprint payload
  transformedFingerprint := svc.fingerprint tr.text
  noPII := tr.mappings.length == 0
  mappings := tr.mappings
  occurrences := tr.occurrences
  createdAt := now

/-- `answerWithoutStorage`. -/
def answerWithoutStorage (payload : GoString) : Reply :=
  if matchString tokenTrace payload || contains payload (str "**") then .error .storageUnavailable
  else match svc.transform payload (str "degraded") with
    | .error f => .error (.fault f)
    | .ok tr =>
      if 0 < tr.mappings.length then .error .storageUnavailable else .ok (payload, .maskDegraded)

/-- The end of `firstRequest`: whether the record was created is not looked at. -/
def afterSave (tr : Transform) (record : Record) : Except StoreError Bool → ServiceProg Reply
  | .error _ =>
    .ret (if record.noPII then .ok (tr.text, .maskDegraded) else .error .storageUnavailable)
  | .ok _ => .ret (.ok (tr.text, .mask))

/-- `firstRequest`. -/
def firstRequest (payload payloadId : GoString) : ServiceProg Reply :=
  match svc.transform payload payloadId with
  | .error f => .ret (.error (.fault f))
  | .ok tr => .call .now fun now =>
    .call (.saveIfAbsent payloadId (svc.newRecord payload tr now) svc.ttl)
      (afterSave tr (svc.newRecord payload tr now))

/-- A demasked text is returned after the record is marked; an error of the store is ignored. -/
def replyDemasked (payloadId : GoString) (record : Record) : Except Go.Fault GoString →
    ServiceProg Reply
  | .error f => .ret (.error (.fault f))
  | .ok result =>
    if record.state ≠ .demaskedGrace then
      .call (.markDemasked payloadId svc.grace) fun _ => .ret (.ok (result, .demask))
    else .ret (.ok (result, .demask))

/-- The part of `Process` that answers from a record. -/
def answerFromRecord (payload payloadId : GoString) (record : Record) : ServiceProg Reply :=
  if svc.fingerprint payload = record.originalFingerprint then
    .ret (match spliceOriginalToMasked payload record.occurrences with
      | .error f => .error (.fault f)
      | .ok result => .ok (result, .retryMask))
  else if svc.fingerprint payload = record.transformedFingerprint then
    svc.replyDemasked payloadId record (spliceMaskedToOriginal payload record.occurrences)
  else
    -- transformed text that was modified on the way
    svc.replyDemasked payloadId record (fuzzyDemask payload record.mappings record.mode)

/-- `Process` after its `Get`. -/
def afterGet (payload payloadId : GoString) : Except StoreError (Option Record) → ServiceProg Reply
  | .error _ => .ret (svc.answerWithoutStorage payload)
  | .ok none => svc.firstRequest payload payloadId
  | .ok (some record) => svc.answerFromRecord payload payloadId record

/-- `Process`. -/
def process (payload payloadId : GoString) : ServiceProg Reply :=
  .call (.get payloadId) (svc.afterGet payload payloadId)

end Service

/-! ### The atomic store -/

/-- The records of the payload ids. -/
abbrev Records : Type := GoString → Option Record

/-- The effect of an operation on the records. -/
def Records.handle : (op : ServiceOp) → Records → op.Answer → Records → Prop
  | .get id, s, r, s' => r = .ok (s id) ∧ s' = s
  | .saveIfAbsent id record _, s, r, s' =>
    (s id = none ∧ r = .ok true ∧ s' = Function.update s id (some record)) ∨
      (s id ≠ none ∧ r = .ok false ∧ s' = s)
  | .markDemasked id _, s, r, s' =>
    r = .ok () ∧ ∃ now, s' = Function.update s id ((s id).map (·.demasked now))
  | .now, s, _, s' => s' = s

/-- The store whose operations are atomic: none of them fails, and no record expires. -/
def atomicStore : Sys Records ServiceOp ServiceOp.Answer where
  handle := Records.handle
  env _ _ := False

namespace Service

variable (svc : Service)

/-- The record is that of the masking of `payload`, perhaps demasked since. -/
def IsRecordOf (payloadId payload : GoString) (tr : Transform) (r : Record) : Prop :=
  svc.transform payload payloadId = .ok tr ∧ ∃ now, r.core = svc.newRecord payload tr now

variable {svc}

theorem isRecordOf_newRecord {payloadId payload : GoString} {tr : Transform}
    (h : svc.transform payload payloadId = .ok tr) (now : ℤ) :
    svc.IsRecordOf payloadId payload tr (svc.newRecord payload tr now) :=
  ⟨h, now, rfl⟩

namespace IsRecordOf

variable {payloadId payload : GoString} {tr : Transform} {r r' : Record}

theorem of_core (h : svc.IsRecordOf payloadId payload tr r) (hcore : r'.core = r.core) :
    svc.IsRecordOf payloadId payload tr r' :=
  ⟨h.1, h.2.imp fun _ hnow => hcore.trans hnow⟩

theorem originalFingerprint (h : svc.IsRecordOf payloadId payload tr r) :
    r.originalFingerprint = svc.fingerprint payload := by
  obtain ⟨now, hcore⟩ := h.2
  exact congrArg Record.originalFingerprint hcore

theorem transformedFingerprint (h : svc.IsRecordOf payloadId payload tr r) :
    r.transformedFingerprint = svc.fingerprint tr.text := by
  obtain ⟨now, hcore⟩ := h.2
  exact congrArg Record.transformedFingerprint hcore

theorem occurrences (h : svc.IsRecordOf payloadId payload tr r) :
    r.occurrences = tr.occurrences := by
  obtain ⟨now, hcore⟩ := h.2
  exact congrArg Record.occurrences hcore

/-- The occurrences of the record restore the payload. -/
theorem splice (h : svc.IsRecordOf payloadId payload tr r) :
    spliceMaskedToOriginal tr.text r.occurrences = .ok payload := by
  have htransform := h.1
  rw [transform] at htransform
  rw [h.occurrences]
  exact (splices_of_buildTransform svc.runtime htransform).1

/-- **A request with the masked text restores the payload**, when the fingerprints of the two texts
differ. -/
theorem demask (h : svc.IsRecordOf payloadId payload tr r)
    (hne : svc.fingerprint tr.text ≠ svc.fingerprint payload) :
    svc.answerFromRecord tr.text payloadId r = svc.replyDemasked payloadId r (.ok payload) := by
  rw [answerFromRecord, h.originalFingerprint, if_neg hne, h.transformedFingerprint,
    if_pos rfl, h.splice]

end IsRecordOf

end Service

end GoService

end PiiProxy
