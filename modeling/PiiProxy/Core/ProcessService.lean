import PiiProxy.Core.Pipeline
import PiiProxy.Lib.Program
import PiiProxy.Lib.Regex

/-!
# The process service

The `/process` contract (`app/core/process_service.py`): one entry point that infers the direction
of a request from the record of its payload id, as a program over the operations of the mapping
store (`MappingStore` of `app/core/interfaces.py`). The demasker and the digests are parameters; a
store call may raise, and reading the clock is an operation of its own.

## Main definitions

* `StoreOp`, `StoreFault`, `ServiceOp`: the operations of a mapping store, what they may raise, and
  the calls of the service.
* `ProcessOutcome`, `ServiceError`: what a request returns or raises.
* `ProcessService`, `ProcessService.process`, `ProcessService.firstRequest`,
  `ProcessService.answerWithoutStorage`, `ProcessService.transitionToGrace`.

## Main results

* `ProcessService.isRecordOf_buildRecord`: the record of a first request masks its payload to the
  answer and demasks the answer to its payload.
-/

namespace PiiProxy

/-! ### The operations of a mapping store -/

/-- What a store call may raise: `StorageUnavailableError`, or another exception. -/
inductive StoreFault where
  | unavailable (message : Text)
  | other
  deriving DecidableEq, Repr

/-- The operations of a mapping store. -/
inductive StoreOp where
  | get (payloadId : Text)
  | saveIfAbsent (payloadId : Text) (record : MappingRecord) (ttl : ℚ)
  | update (payloadId : Text) (record : MappingRecord) (ttl : ℚ)
  | delete (payloadId : Text)
  | markDemasked (payloadId : Text) (grace : ℚ)

/-- What an operation returns when it does not raise. -/
abbrev StoreOp.Result : StoreOp → Type
  | .get _ => Option MappingRecord
  | .saveIfAbsent .. => Bool
  | .update .. => Unit
  | .delete _ => Unit
  | .markDemasked .. => Unit

/-- What the service calls: its mapping store, and `time.time()`. -/
inductive ServiceOp where
  | store (op : StoreOp)
  | time

/-- The type of the answers to a call. -/
abbrev ServiceOp.Answer : ServiceOp → Type
  | .store op => Except StoreFault op.Result
  | .time => ℚ

/-- Programs over a mapping store. -/
abbrev StoreProg : Type → Type := Prog ServiceOp ServiceOp.Answer

/-! ### The service -/

structure ProcessOutcome where
  result : Text
  direction : ProcessDirection
  entitiesDetected : ℕ := 0
  entitiesMasked : ℕ := 0
  deriving DecidableEq, Repr

/-- What a request may raise. -/
inductive ServiceError where
  | consumerNotFound (consumerId : Text)
  | consumerDisabled (consumerId : Text)
  | payloadConflict (message : Text)
  | storageUnavailable (message : Text)
  /-- An exception of the store that is not `StorageUnavailableError`. -/
  | store
  /-- An exception of the pipeline or of the demasker. -/
  | pipeline (error : PyError)
  deriving DecidableEq, Repr

/-- The exception of the store, raised on. -/
def StoreFault.raised : StoreFault → ServiceError
  | .unavailable message => .storageUnavailable message
  | .other => .store

structure ProcessService where
  pipeline : Pipeline
  /-- `Demasker.demask`. -/
  demask : Text → List EntityMapping → MaskingMode → Except PyError Text
  consumers : ConsumerRegistry
  hashing : Hashing
  ttl : ℚ
  grace : ℚ := 60
  secret : Option Text := none

namespace ProcessService

variable (svc : ProcessService)

/-- `payload_fingerprint` under the secret of the service. -/
def fingerprint (payload : Text) : Text := payloadFingerprint svc.hashing payload svc.secret

/-- `_TOKEN_PATTERN`, the expression `<[A-Z_]+_\d+>`. -/
def tokenPattern (u : Unicode) : Regex Char :=
  .concat [.chr (· == '<'), .plus (.chr fun c => ('A' ≤ c && c ≤ 'Z') || c == '_'),
    .chr (· == '_'), .plus (.chr u.isDecimal), .chr (· == '>')]

/-- The payload shows a trace of an issued mask: a token or a run of two stars. -/
def hasTrace (payload : Text) : Bool :=
  (tokenPattern svc.pipeline.runtime.unicode).search payload || PySeq.hasSub ['*', '*'] payload

/-- `_answer_without_storage`. -/
def answerWithoutStorage (payload : Text) (consumer : ConsumerConfig) :
    Except ServiceError ProcessOutcome :=
  if svc.hasTrace payload then
    .error (.storageUnavailable "possible demask retry while storage is down".toList)
  else
    match svc.pipeline.process payload consumer.maskingMode consumer "degraded".toList with
    | .error e => .error (.pipeline e)
    | .ok transform =>
      if !transform.mappings.isEmpty then
        .error (.storageUnavailable "reversible mapping required while storage is down".toList)
      else .ok { result := payload, direction := .mask }

/-- `_transition_to_grace`: nothing that the store raises fails the response. -/
def transitionToGrace (payloadId : Text) (record : MappingRecord) : StoreProg Unit :=
  if record.state = .demaskedGrace then .ret ()
  else .call (.store (.markDemasked payloadId svc.grace)) fun _ => .ret ()

/-- The end of `_first_request` for a request that lost the creation: the answer from what the
store holds, if that is the record of the same content. -/
def answerFromWinner (payload : Text) (record : MappingRecord) :
    Except StoreFault (Option MappingRecord) → Except ServiceError ProcessOutcome
  | .error fault => .error fault.raised
  | .ok none => .error (.storageUnavailable "winning mapping unavailable".toList)
  | .ok (some winner) =>
    if winner.originalFingerprint ≠ record.originalFingerprint then
      .error (.payloadConflict "payload_id already used for different content".toList)
    else .ok { result := applyMaskFromRecord payload winner, direction := .retryMask }

/-- `_first_request` after the answer to `save_if_absent`. -/
def afterSave (payload payloadId : Text) (transform : TransformResult) (record : MappingRecord) :
    Except StoreFault Bool → StoreProg (Except ServiceError ProcessOutcome)
  | .error (.unavailable message) =>
    if record.noPii then .ret (.ok { result := transform.text, direction := .mask })
    else .ret (.error (.storageUnavailable message))
  | .error .other => .ret (.error .store)
  | .ok false => .call (.store (.get payloadId)) fun r => .ret (answerFromWinner payload record r)
  | .ok true =>
    .ret (.ok {
      result := transform.text
      direction := .mask
      entitiesDetected := transform.detectedEntities.length + transform.keptEntities.length
      entitiesMasked := transform.detectedEntities.length })

/-- `_first_request`. -/
def firstRequest (payload payloadId : Text) (consumer : ConsumerConfig) :
    StoreProg (Except ServiceError ProcessOutcome) :=
  match svc.pipeline.process payload consumer.maskingMode consumer payloadId with
  | .error e => .ret (.error (.pipeline e))
  | .ok transform =>
    .call .time fun now =>
      let record := buildRecord svc.hashing transform payload consumer.demask svc.secret now
      .call (.store (.saveIfAbsent payloadId record svc.ttl))
        (afterSave payload payloadId transform record)

/-- The answer of `process` from the record of the payload id. -/
def answerFromRecord (payload payloadId : Text) (consumer : ConsumerConfig)
    (record : MappingRecord) : StoreProg (Except ServiceError ProcessOutcome) :=
  if svc.fingerprint payload = record.originalFingerprint then
    .ret (.ok { result := applyMaskFromRecord payload record, direction := .retryMask })
  else if !record.demaskEnabled || !consumer.demask then
    .ret (.ok { result := payload, direction := .demask })
  else if svc.fingerprint payload = record.transformedFingerprint then
    (svc.transitionToGrace payloadId record).bind fun _ =>
      .ret (.ok { result := applyDemaskFromRecord payload record, direction := .demask })
  else
    match svc.demask payload record.mappings record.mode with
    | .error e => .ret (.error (.pipeline e))
    | .ok result =>
      (svc.transitionToGrace payloadId record).bind fun _ =>
        .ret (.ok { result := result, direction := .demask })

/-- `consumer_id or "<default>"`. -/
def consumerLabel : Option Text → Text
  | some (c :: cs) => c :: cs
  | _ => "<default>".toList

/-- `process` after the answer to its first read. -/
def afterRead (payload payloadId : Text) (consumer : ConsumerConfig) :
    Except StoreFault (Option MappingRecord) → StoreProg (Except ServiceError ProcessOutcome)
  | .error (.unavailable _) => .ret (svc.answerWithoutStorage payload consumer)
  | .error .other => .ret (.error .store)
  | .ok none => svc.firstRequest payload payloadId consumer
  | .ok (some record) => svc.answerFromRecord payload payloadId consumer record

/-- `process`. -/
def process (payload payloadId : Text) (consumerId : Option Text) :
    StoreProg (Except ServiceError ProcessOutcome) :=
  match svc.consumers.resolve consumerId with
  | none => .ret (.error (.consumerNotFound (consumerLabel consumerId)))
  | some consumer =>
    if !consumer.enabled then .ret (.error (.consumerDisabled consumer.consumerId))
    else .call (.store (.get payloadId)) (svc.afterRead payload payloadId consumer)

theorem process_eq_call {payload payloadId : Text} {consumerId : Option Text}
    {consumer : ConsumerConfig} (hresolve : svc.consumers.resolve consumerId = some consumer)
    (henabled : consumer.enabled = true) :
    svc.process payload payloadId consumerId =
      .call (.store (.get payloadId)) (svc.afterRead payload payloadId consumer) := by
  simp only [process, hresolve, henabled, Bool.not_true, Bool.false_eq_true, ↓reduceIte]

theorem firstRequest_eq_call {payload payloadId : Text} {consumer : ConsumerConfig}
    {transform : TransformResult}
    (h : svc.pipeline.process payload consumer.maskingMode consumer payloadId = .ok transform) :
    svc.firstRequest payload payloadId consumer =
      .call .time fun now => .call (.store (.saveIfAbsent payloadId
        (buildRecord svc.hashing transform payload consumer.demask svc.secret now) svc.ttl))
        (afterSave payload payloadId transform
          (buildRecord svc.hashing transform payload consumer.demask svc.secret now)) := by
  simp only [firstRequest, h]

/-! ### Records of first requests -/

/-- The record holds the fingerprints of `payload` and `masked`, masks the one to the other and
demasks it back. -/
structure IsRecordOf (payload masked : Text) (record : MappingRecord) : Prop where
  original : record.originalFingerprint = svc.fingerprint payload
  transformed : record.transformedFingerprint = svc.fingerprint masked
  mask : applyMaskFromRecord payload record = masked
  demask : applyDemaskFromRecord masked record = payload

/-- The record that a first request builds masks its payload to the text of the transformation and
demasks that text to its payload. -/
theorem isRecordOf_buildRecord {payload sessionSeed : Text} {consumer : ConsumerConfig}
    {mode : MaskingMode} {transform : TransformResult}
    (h : svc.pipeline.process payload mode consumer sessionSeed = .ok transform)
    (demaskEnabled : Bool) (now : ℚ) :
    svc.IsRecordOf payload transform.text
      (buildRecord svc.hashing transform payload demaskEnabled svc.secret now) := by
  obtain ⟨es, hes⟩ := svc.pipeline.process_describes h
  exact ⟨rfl, rfl, hes.applyMask rfl, hes.applyDemask rfl⟩

end ProcessService

/-! ### What a record keeps for good -/

/-- The record without what the grace transition changes. -/
def MappingRecord.core (r : MappingRecord) : MappingRecord :=
  { r with state := .active, demaskedAt := none }

/-- The record after the grace transition at the time `now`. -/
def MappingRecord.demasked (r : MappingRecord) (now : ℚ) : MappingRecord :=
  { r with state := .demaskedGrace, demaskedAt := some now }

@[simp] theorem MappingRecord.core_demasked (r : MappingRecord) (now : ℚ) :
    (r.demasked now).core = r.core := rfl

@[simp] theorem MappingRecord.core_core (r : MappingRecord) : r.core.core = r.core := rfl

/-- Being the record of two texts depends only on the core. -/
theorem ProcessService.IsRecordOf.of_core_eq {svc : ProcessService} {payload masked : Text}
    {r r' : MappingRecord} (h : svc.IsRecordOf payload masked r) (hcore : r'.core = r.core) :
    svc.IsRecordOf payload masked r' := by
  obtain ⟨horig, htrans, hoccs⟩ :
      r'.originalFingerprint = r.originalFingerprint ∧
        r'.transformedFingerprint = r.transformedFingerprint ∧ r'.occurrences = r.occurrences := by
    simp only [MappingRecord.core, MappingRecord.mk.injEq] at hcore
    exact ⟨hcore.2.2.2.1, hcore.2.2.2.2.1, hcore.2.2.2.2.2.2.2.2.1⟩
  refine ⟨horig.trans h.original, htrans.trans h.transformed, ?_, ?_⟩
  · rw [applyMaskFromRecord, hoccs]
    exact h.mask
  · rw [applyDemaskFromRecord, hoccs]
    exact h.demask

end PiiProxy
