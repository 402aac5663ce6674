import PiiProxy.Lib.TwoRuns
import PiiProxy.Storage.MemoryStore

/-!
# Revoked demasking

When demasking is revoked, by the policy of the consumer or in the record, a request reads from a
record only its fingerprints, its spans and its masked texts. So the originals in the records do not
matter: two runs over stores that differ in nothing else return the same and leave stores that
differ in nothing else, even if somebody replaces the originals again after every call. Any number
of requests are interleaved at single calls of the store, which may raise before or after an
operation, and whose clock may show any time. Each request has a service of its own, so policies may
change.

## Main definitions

* `MappingRecord.veiled`, `MemoryData.Alike`: records and stores up to the originals.
* `Turn`, `runTurns`: the run of requests under a schedule of turns.
* `Replacement`, `runReplacing`: the run in which originals are replaced after every turn.
* `RevokedRun`: demasking is revoked throughout a run.

## Main results

* `ProcessService.process_alike`: a request does not look at the originals.
* `ProcessService.spec_of_revoked`: what a request answers, whatever the store.
* `revoked_reveals_nothing`: the run does not depend on the originals.
-/

namespace PiiProxy

/-! ### Records up to the originals -/

/-- The occurrence without its original. -/
def Occurrence.veiled (o : Occurrence) : Occurrence := { o with original := [] }

/-- The mapping without the original, the nominal forms, the aliases and the metadata. -/
def EntityMapping.veiled (m : EntityMapping) : EntityMapping :=
  { m with
    original := []
    originalNominal := none
    syntheticNominal := none
    aliases := []
    metadata := {} }

/-- The record without originals. -/
def MappingRecord.veiled (r : MappingRecord) : MappingRecord :=
  { r with
    mappings := r.mappings.map EntityMapping.veiled
    occurrences := r.occurrences.map Occurrence.veiled }

@[simp] theorem MappingRecord.veiled_originalFingerprint (r : MappingRecord) :
    r.veiled.originalFingerprint = r.originalFingerprint := rfl

@[simp] theorem MappingRecord.veiled_demaskEnabled (r : MappingRecord) :
    r.veiled.demaskEnabled = r.demaskEnabled := rfl

@[simp] theorem MappingRecord.veiled_demasked (r : MappingRecord) (now : ℚ) :
    (r.demasked now).veiled = r.veiled.demasked now := rfl

/-- The masked text of a payload does not depend on the originals. -/
theorem applyMaskFromRecord_veiled (payload : Text) (r : MappingRecord) :
    applyMaskFromRecord payload r.veiled = applyMaskFromRecord payload r := by
  have hcursor (cursor : ℤ) (os : List Occurrence) :
      spliceFromCursor payload Occurrence.originalStart Occurrence.originalEnd
        Occurrence.masked cursor
        (os.map Occurrence.veiled) =
      spliceFromCursor payload Occurrence.originalStart Occurrence.originalEnd
        Occurrence.masked cursor
        os := by
    induction os generalizing cursor with
    | nil => rfl
    | cons o os ih =>
      rw [List.map_cons, spliceFromCursor, spliceFromCursor, ih]
      rfl
  rw [applyMaskFromRecord, applyMaskFromRecord, spliceOccurrences, spliceOccurrences,
    MappingRecord.veiled]
  dsimp only
  rw [PySeq.sortedBy_map, hcursor]
  rfl

/-! ### What a request sees of a record -/

/-- Two answers to a call that differ in originals only. -/
def AnswersAlike : (e : ServiceOp) → e.Answer → e.Answer → Prop
  | .store (.get _), r, r' => r.map (Option.map MappingRecord.veiled) =
      r'.map (Option.map MappingRecord.veiled)
  | .store (.saveIfAbsent ..), r, r' => r = r'
  | .store (.update ..), r, r' => r = r'
  | .store (.delete _), r, r' => r = r'
  | .store (.markDemasked ..), r, r' => r = r'
  | .time, r, r' => r = r'

/-- Two reads that are alike raise the same, find nothing, or find records that are alike. -/
theorem AnswersAlike.get_cases {payloadId : Text} {r r' : Except StoreFault (Option MappingRecord)}
    (h : AnswersAlike (.store (.get payloadId)) r r') :
    (∃ fault, r = .error fault ∧ r' = .error fault) ∨ (r = .ok none ∧ r' = .ok none) ∨
      ∃ record record', r = .ok (some record) ∧ r' = .ok (some record') ∧
        record.veiled = record'.veiled := by
  have h : r.map (Option.map MappingRecord.veiled) = r'.map (Option.map MappingRecord.veiled) := h
  match r, r' with
  | .error fault, .error fault' => exact .inl ⟨fault, rfl, by rw [Except.error.inj h]⟩
  | .ok none, .ok none => exact .inr (.inl ⟨rfl, rfl⟩)
  | .ok (some record), .ok (some record') =>
    exact .inr (.inr ⟨record, record', rfl, rfl, Option.some.inj (Except.ok.inj h)⟩)

/-- A record that the call reads or creates was created with `demask_enabled = False`. -/
def OffInRecord : (e : ServiceOp) → e.Answer → Prop
  | .store (.get _), r => ∀ record, r = .ok (some record) → record.demaskEnabled = false
  | .store (.saveIfAbsent _ record _), r => r = .ok true → record.demaskEnabled = false
  | _, _ => True

/-- The answers of a store that always raises. -/
def brokenAnswer : (e : ServiceOp) → e.Answer
  | .store _ => .error .other
  | .time => 0

theorem offInRecord_brokenAnswer (e : ServiceOp) : OffInRecord e (brokenAnswer e) := by
  match e with
  | .time => exact trivial
  | .store (.get _) => exact fun _ h => nomatch h
  | .store (.saveIfAbsent ..) => exact fun h => nomatch h
  | .store (.update ..) => exact trivial
  | .store (.delete _) => exact trivial
  | .store (.markDemasked ..) => exact trivial

/-- The calls that move a record to grace. -/
def ServiceOp.movesToGrace : ServiceOp → Bool
  | .store (.markDemasked ..) => true
  | _ => false

namespace ProcessService

variable (svc : ProcessService)

/-- The consumer has `demask = False`. -/
def OffForConsumer (consumerId : Option Text) : Prop :=
  ∀ consumer, svc.consumers.resolve consumerId = some consumer → consumer.demask = false

/-- Demasking is revoked where a request gets this answer to this call. -/
def RevokedAt (consumerId : Option Text) (e : ServiceOp) (r : e.Answer) : Prop :=
  svc.OffForConsumer consumerId ∨ OffInRecord e r

variable {svc} {payload payloadId : Text} {consumerId : Option Text} {consumer : ConsumerConfig}

/-- Where demasking is revoked, a record that is read does not get demasked. -/
theorem RevokedAt.off (hresolve : svc.consumers.resolve consumerId = some consumer)
    {record : MappingRecord}
    (h : svc.RevokedAt consumerId (.store (.get payloadId)) (.ok (some record))) :
    (!record.demaskEnabled || !consumer.demask) = true := by
  rcases h with hconsumer | hrecord
  · rw [hconsumer consumer hresolve, Bool.not_false, Bool.or_true]
  · rw [hrecord record rfl, Bool.not_false, Bool.true_or]

/-- The answer from a record where demasking is revoked. -/
theorem answerFromRecord_of_off {record : MappingRecord}
    (hoff : (!record.demaskEnabled || !consumer.demask) = true) :
    svc.answerFromRecord payload payloadId consumer record =
      .ret (.ok (if svc.fingerprint payload = record.originalFingerprint then
        { result := applyMaskFromRecord payload record, direction := .retryMask }
      else { result := payload, direction := .demask })) := by
  rw [answerFromRecord]
  split_ifs <;> rfl

/-- The answer of a loser does not depend on the originals. -/
theorem answerFromWinner_alike (record : MappingRecord)
    {r r' : Except StoreFault (Option MappingRecord)}
    (h : AnswersAlike (.store (.get payloadId)) r r') :
    answerFromWinner payload record r = answerFromWinner payload record r' := by
  rcases h.get_cases with ⟨fault, rfl, rfl⟩ | ⟨rfl, rfl⟩ | ⟨winner, winner', rfl, rfl, hveiled⟩
  · rfl
  · rfl
  · have hfp : winner.originalFingerprint = winner'.originalFingerprint := by
      simpa using congrArg MappingRecord.originalFingerprint hveiled
    rw [answerFromWinner, answerFromWinner, hfp,
      ← applyMaskFromRecord_veiled payload winner, hveiled,
      applyMaskFromRecord_veiled]

/-- The answer from a record does not depend on the originals, where demasking is revoked. -/
theorem answerFromRecord_alike (hresolve : svc.consumers.resolve consumerId = some consumer)
    {record record' : MappingRecord} (hveiled : record.veiled = record'.veiled)
    (hrevoked : svc.RevokedAt consumerId (.store (.get payloadId)) (.ok (some record))) :
    svc.answerFromRecord payload payloadId consumer record =
      svc.answerFromRecord payload payloadId consumer record' := by
  have hoff := hrevoked.off hresolve
  have hfp : record.originalFingerprint = record'.originalFingerprint := by
    simpa using congrArg MappingRecord.originalFingerprint hveiled
  have henabled : record.demaskEnabled = record'.demaskEnabled := by
    simpa using congrArg MappingRecord.demaskEnabled hveiled
  have hoff' : (!record'.demaskEnabled || !consumer.demask) = true := henabled ▸ hoff
  rw [answerFromRecord_of_off hoff, answerFromRecord_of_off hoff', hfp,
    ← applyMaskFromRecord_veiled payload record, hveiled, applyMaskFromRecord_veiled]

/-- A first request does not look at the originals. -/
theorem firstRequest_alike : Prog.Alike AnswersAlike (svc.RevokedAt consumerId)
    (svc.firstRequest payload payloadId consumer)
    (svc.firstRequest payload payloadId consumer) := by
  cases htransform : svc.pipeline.process payload consumer.maskingMode consumer payloadId with
  | error e =>
    simp only [firstRequest, htransform]
    exact .ret _
  | ok transform =>
    rw [svc.firstRequest_eq_call htransform]
    refine .call fun now now' htime _ => ?_
    obtain rfl : now = now' := htime
    refine .call fun r r' hsaved _ => ?_
    obtain rfl : r = r' := hsaved
    rcases r with (message | _) | (_ | _)
    · simp only [afterSave]
      split_ifs <;> exact .ret _
    · exact .ret _
    · -- another request has created the record
      refine .call fun r r' hread _ => ?_
      rw [answerFromWinner_alike _ hread]
      exact .ret _
    · exact .ret _

/-- **A request does not look at the originals**, where demasking is revoked. -/
theorem process_alike : Prog.Alike AnswersAlike (svc.RevokedAt consumerId)
    (svc.process payload payloadId consumerId) (svc.process payload payloadId consumerId) := by
  cases hresolve : svc.consumers.resolve consumerId with
  | none =>
    simp only [process, hresolve]
    exact .ret _
  | some consumer =>
    by_cases henabled : consumer.enabled = true
    · rw [svc.process_eq_call hresolve henabled]
      refine .call fun r r' hread hrevoked => ?_
      rcases hread.get_cases with ⟨fault, rfl, rfl⟩ | ⟨rfl, rfl⟩ | ⟨record, record', rfl,
        rfl, hveiled⟩
      · cases fault <;> exact .ret _
      · exact firstRequest_alike
      · have hanswer : svc.answerFromRecord payload payloadId consumer record =
            svc.answerFromRecord payload payloadId consumer record' :=
          answerFromRecord_alike hresolve hveiled hrevoked
        simp only [afterRead]
        rw [← hanswer, answerFromRecord_of_off (hrevoked.off hresolve)]
        exact .ret _
    · simp only [process, hresolve, henabled]
      exact .ret _

/-! ### What a request answers -/

/-- A request with this history has read the record, or has created it. -/
def Stored (payloadId : Text) (h : List (Prog.Event ServiceOp ServiceOp.Answer))
    (record : MappingRecord) : Prop :=
  ⟨.store (.get payloadId), .ok (some record)⟩ ∈ h ∨
    ∃ ttl, ⟨.store (.saveIfAbsent payloadId record ttl), .ok true⟩ ∈ h

/-- The text that is returned is the payload, or the payload with stored masks spliced in. -/
def ReturnsMasked (payload payloadId : Text) (h : List (Prog.Event ServiceOp ServiceOp.Answer))
    (a : Except ServiceError ProcessOutcome) : Prop :=
  ∀ out, a = .ok out → out.result = payload ∨
    ∃ record, Stored payloadId h record ∧ out.result = applyMaskFromRecord payload record

theorem returnsMasked_error {h : List (Prog.Event ServiceOp ServiceOp.Answer)} {e : ServiceError} :
    ReturnsMasked payload payloadId h (.error e) := fun _ hout => nomatch hout

theorem ReturnsMasked.cons {h : List (Prog.Event ServiceOp ServiceOp.Answer)}
    {a : Except ServiceError ProcessOutcome} (ha : ReturnsMasked payload payloadId h a)
    (ev : Prog.Event ServiceOp ServiceOp.Answer) : ReturnsMasked payload payloadId (ev :: h) a := by
  intro out hout
  refine (ha out hout).imp_right ?_
  rintro ⟨record, hread | ⟨ttl, hsaved⟩, hresult⟩
  · exact ⟨record, .inl (List.mem_cons_of_mem _ hread), hresult⟩
  · exact ⟨record, .inr ⟨ttl, List.mem_cons_of_mem _ hsaved⟩, hresult⟩

/-- A first request returns its payload, the text that its record masks to, or what a loser does. -/
theorem firstRequest_spec {h : List (Prog.Event ServiceOp ServiceOp.Answer)}
    {a : Except ServiceError ProcessOutcome}
    (ht : (svc.firstRequest payload payloadId consumer).Trace h a) :
    (∀ ev ∈ h, ev.1.movesToGrace = false) ∧ ReturnsMasked payload payloadId h a := by
  cases htransform : svc.pipeline.process payload consumer.maskingMode consumer payloadId with
  | error e =>
    simp only [firstRequest, htransform] at ht
    cases ht
    exact ⟨by simp, returnsMasked_error⟩
  | ok transform =>
    rw [svc.firstRequest_eq_call htransform] at ht
    obtain _ | @⟨_, _, now, h₁, _, ht⟩ := ht
    obtain _ | @⟨_, _, r, h₂, _, ht⟩ := ht
    have hmine := svc.isRecordOf_buildRecord htransform consumer.demask now
    cases r with
    | error fault =>
      cases fault with
      | unavailable message =>
        simp only [afterSave] at ht
        split_ifs at ht with hnoPii
        · cases ht
          refine ⟨by simp [ServiceOp.movesToGrace], fun out hout => .inl ?_⟩
          cases hout
          exact text_eq_of_mappings_eq_nil svc.pipeline.runtime htransform
            (List.isEmpty_iff.mp hnoPii)
        · cases ht
          exact ⟨by simp [ServiceOp.movesToGrace], returnsMasked_error⟩
      | other =>
        cases ht
        exact ⟨by simp [ServiceOp.movesToGrace], returnsMasked_error⟩
    | ok saved =>
      cases saved with
      | true =>
        cases ht
        refine ⟨by simp [ServiceOp.movesToGrace], fun out hout => ?_⟩
        cases hout
        exact .inr ⟨_, .inr ⟨svc.ttl, List.mem_cons_of_mem _ List.mem_cons_self⟩, hmine.mask.symm⟩
      | false =>
        obtain _ | @⟨_, _, r, h₃, _, ht⟩ := ht
        cases ht
        refine ⟨by simp [ServiceOp.movesToGrace], fun out hout => ?_⟩
        rcases r with fault | _ | winner
        · cases hout
        · cases hout
        · simp only [answerFromWinner] at hout
          split_ifs at hout
          cases hout
          exact .inr ⟨winner, .inl (by simp), rfl⟩

/-- Without storage a request returns its payload. -/
theorem result_of_answerWithoutStorage {out : ProcessOutcome}
    (h : svc.answerWithoutStorage payload consumer = .ok out) : out.result = payload := by
  unfold answerWithoutStorage at h
  split_ifs at h
  split at h
  · exact nomatch h
  · split_ifs at h
    cases h
    rfl

/-- **What a request answers where demasking is revoked**, whatever the store: it returns the
payload, or the payload with stored masks spliced in, and moves no record to grace. -/
theorem spec_of_revoked {h : List (Prog.Event ServiceOp ServiceOp.Answer)}
    {a : Except ServiceError ProcessOutcome}
    (ht : (svc.process payload payloadId consumerId).Trace h a)
    (hrevoked : ∀ ev ∈ h, svc.RevokedAt consumerId ev.1 ev.2) :
    (∀ ev ∈ h, ev.1.movesToGrace = false) ∧ ReturnsMasked payload payloadId h a := by
  cases hresolve : svc.consumers.resolve consumerId with
  | none =>
    simp only [process, hresolve] at ht
    cases ht
    exact ⟨by simp, returnsMasked_error⟩
  | some consumer =>
    by_cases henabled : consumer.enabled = true
    · rw [svc.process_eq_call hresolve henabled] at ht
      obtain _ | @⟨_, _, r, h₁, _, ht⟩ := ht
      rcases r with (message | _) | _ | record
      · cases ht
        refine ⟨by simp [ServiceOp.movesToGrace], fun out hout => .inl ?_⟩
        exact result_of_answerWithoutStorage hout
      · cases ht
        exact ⟨by simp [ServiceOp.movesToGrace], returnsMasked_error⟩
      · obtain ⟨hgrace, hresult⟩ := firstRequest_spec ht
        exact ⟨List.forall_mem_cons.2 ⟨rfl, hgrace⟩, hresult.cons _⟩
      · have hoff := (hrevoked _ List.mem_cons_self).off hresolve
        simp only [afterRead] at ht
        rw [answerFromRecord_of_off hoff] at ht
        cases ht
        refine ⟨by simp [ServiceOp.movesToGrace], fun out hout => ?_⟩
        obtain rfl := Except.ok.inj hout
        split_ifs
        · exact .inr ⟨record, .inl List.mem_cons_self, rfl⟩
        · exact .inl rfl
    · simp only [process, hresolve, henabled] at ht
      cases ht
      exact ⟨by simp, returnsMasked_error⟩

end ProcessService

/-! ### Stores up to the originals -/

/-- The entry without originals. -/
def MemoryEntry.veiled (e : MemoryEntry) : MemoryEntry := { e with record := e.record.veiled }

namespace MemoryData

/-- The store without originals. -/
def veiled (data : MemoryData) : MemoryData := fun payloadId =>
    (data payloadId).map MemoryEntry.veiled

/-- The stores differ in originals only. -/
def Alike (data data' : MemoryData) : Prop := data.veiled = data'.veiled

theorem Alike.trans {data₁ data₂ data₃ : MemoryData} (h : data₁.Alike data₂)
    (h' : data₂.Alike data₃) :
    data₁.Alike data₃ := Eq.trans h h'

theorem veiled_update (data : MemoryData) (payloadId : Text) (entry : Option MemoryEntry) :
    veiled (Function.update data payloadId entry) =
      Function.update data.veiled payloadId (entry.map MemoryEntry.veiled) := by
  funext payloadId'
  by_cases hid : payloadId' = payloadId
  · rw [hid, veiled, Function.update_self, Function.update_self]
  · rw [veiled, Function.update_of_ne hid, Function.update_of_ne hid, veiled]

/-- The entries under a payload id of two stores that are alike. -/
theorem Alike.cases {data data' : MemoryData} (h : data.Alike data') (payloadId : Text) :
    (data payloadId = none ∧ data' payloadId = none) ∨
      ∃ e e', data payloadId = some e ∧ data' payloadId = some e' ∧ e.expiresAt = e'.expiresAt ∧
        e.record.veiled = e'.record.veiled := by
  have hentry : (data payloadId).map MemoryEntry.veiled = (data' payloadId).map
    MemoryEntry.veiled :=
    congrFun h payloadId
  cases he : data payloadId with
  | none =>
    rw [he] at hentry
    exact .inl ⟨rfl, (Option.map_eq_none_iff.1 hentry.symm)⟩
  | some e =>
    rw [he] at hentry
    obtain ⟨e', he', heq⟩ := Option.map_eq_some_iff.1 hentry.symm
    have heq : e'.veiled = e.veiled := heq
    exact .inr ⟨e, e', rfl, he', (congrArg MemoryEntry.expiresAt heq).symm,
      (congrArg MemoryEntry.record heq).symm⟩

theorem Alike.update {data data' : MemoryData} (h : data.Alike data') (payloadId : Text)
    {entry entry' : Option MemoryEntry}
    (hentry : entry.map MemoryEntry.veiled = entry'.map MemoryEntry.veiled) :
    Alike (Function.update data payloadId entry) (Function.update data' payloadId entry') := by
  rw [Alike, veiled_update, veiled_update, hentry, h]

end MemoryData

namespace MemoryStore

/-- Reading stores that are alike. -/
theorem get_alike {data data' : MemoryData} (h : data.Alike data') (now : ℚ) (payloadId : Text) :
    (get now data payloadId).1.map MappingRecord.veiled =
        (get now data' payloadId).1.map MappingRecord.veiled ∧
      (get now data payloadId).2.Alike (get now data' payloadId).2 := by
  rcases h.cases payloadId with ⟨he, he'⟩ | ⟨e, e', he, he', hexpires, hveiled⟩
  · rw [get, get, he, he']
    exact ⟨rfl, h⟩
  · rw [get, get, he, he']
    dsimp only
    rw [hexpires]
    split_ifs
    · exact ⟨rfl, h.update payloadId rfl⟩
    · exact ⟨congrArg some hveiled, h⟩

/-- **An operation of the store does not look at the originals.** -/
theorem apply_alike {data data' : MemoryData} (h : data.Alike data') (now : ℚ) (op : StoreOp) :
    AnswersAlike (.store op) (.ok (apply now data op).1) (.ok (apply now data' op).1) ∧
      (apply now data op).2.Alike (apply now data' op).2 := by
  cases op with
  | get payloadId =>
    obtain ⟨hanswer, hdata⟩ := get_alike h now payloadId
    exact ⟨congrArg Except.ok hanswer, hdata⟩
  | saveIfAbsent payloadId record ttl =>
    rw [apply, apply, saveIfAbsent, saveIfAbsent]
    rcases h.cases payloadId with ⟨he, he'⟩ | ⟨e, e', he, he', hexpires, -⟩
    · rw [he, he']
      exact ⟨rfl, h.update payloadId rfl⟩
    · rw [he, he']
      dsimp only
      rw [hexpires]
      split_ifs
      · exact ⟨rfl, h.update payloadId rfl⟩
      · exact ⟨rfl, h⟩
  | update payloadId record ttl => exact ⟨rfl, h.update payloadId rfl⟩
  | delete payloadId => exact ⟨rfl, h.update payloadId rfl⟩
  | markDemasked payloadId grace =>
    refine ⟨rfl, ?_⟩
    obtain ⟨hanswer, hdata⟩ := get_alike h now payloadId
    simp only [apply, markDemasked]
    generalize get now data payloadId = r at hanswer hdata
    generalize get now data' payloadId = r' at hanswer hdata
    obtain ⟨_ | record, _⟩ := r <;> obtain ⟨_ | record', _⟩ := r'
    · exact hdata
    · cases hanswer
    · cases hanswer
    · have hveiled : record.veiled = record'.veiled := Option.some.inj hanswer
      refine hdata.update payloadId (congrArg some ?_)
      rw [MemoryEntry.veiled, MemoryEntry.veiled, MappingRecord.veiled_demasked, hveiled,
        MappingRecord.veiled_demasked]

end MemoryStore

/-! ### Runs -/

/-- A request to a service. -/
structure ServiceCall where
  service : ProcessService
  payload : Text
  payloadId : Text
  consumerId : Option Text := none

/-- The program of a request. -/
def ServiceCall.program (q : ServiceCall) : StoreProg (Except ServiceError ProcessOutcome) :=
  q.service.process q.payload q.payloadId q.consumerId

variable {ι : Type*}

/-- A turn of the run: whose request makes its next call, what the clock shows, and what the store
raises, if anything, before or after it has performed the operation. -/
structure Turn (ι : Type*) where
  thread : ι
  now : ℚ
  fault : Option (StoreFault × Bool) := none

/-- The answer to the call of a turn, and the store after it. -/
def Turn.respond (t : Turn ι) : (e : ServiceOp) → MemoryData → e.Answer × MemoryData
  | .time, data => (t.now, data)
  | .store op, data =>
    match t.fault with
    | none => (.ok (MemoryStore.apply t.now data op).1, (MemoryStore.apply t.now data op).2)
    | some (fault, performed) =>
      (.error fault, if performed then (MemoryStore.apply t.now data op).2 else data)

/-- Every record in the store was created with `demask_enabled = False`. -/
def MemoryData.Off (data : MemoryData) : Prop :=
  ∀ payloadId entry, data payloadId = some entry → entry.record.demaskEnabled = false

/-- What a call reads was in the store, and what it creates is in the store. -/
theorem Turn.offInRecord (t : Turn ι) {e : ServiceOp} {data : MemoryData} (hbefore : data.Off)
    (hafter : (t.respond e data).2.Off) : OffInRecord e (t.respond e data).1 := by
  match e with
  | .time => exact trivial
  | .store (.update ..) => exact trivial
  | .store (.delete _) => exact trivial
  | .store (.markDemasked ..) => exact trivial
  | .store (.get payloadId) =>
    intro record hread
    unfold Turn.respond at hread
    cases hfault : t.fault with
    | some fault => rw [hfault] at hread; exact nomatch hread
    | none =>
      rw [hfault] at hread
      have hget : (MemoryStore.get t.now data payloadId).1 = some record := Except.ok.inj hread
      unfold MemoryStore.get at hget
      split at hget
      · exact nomatch hget
      · next entry hentry =>
        split_ifs at hget
        cases hget
        exact hbefore payloadId entry hentry
  | .store (.saveIfAbsent payloadId record ttl) =>
    intro hsaved
    unfold Turn.respond at hsaved hafter
    cases hfault : t.fault with
    | some fault => rw [hfault] at hsaved; exact nomatch hsaved
    | none =>
      rw [hfault] at hsaved hafter
      have hcreated : (MemoryStore.saveIfAbsent t.now data payloadId record ttl).1 = true :=
        Except.ok.inj hsaved
      have hstored : (MemoryStore.saveIfAbsent t.now data payloadId record ttl).2 payloadId =
          some ⟨t.now + ttl, record⟩ := by
        unfold MemoryStore.saveIfAbsent at hcreated ⊢
        split
        · split_ifs with hexpired
          · exact Function.update_self _ _ _
          · simp_all
        · exact Function.update_self _ _ _
      exact hafter payloadId _ hstored

/-- The answer to the call of a turn does not depend on the originals. -/
theorem Turn.respond_alike (t : Turn ι) (e : ServiceOp) {data data' : MemoryData}
    (h : data.Alike data') : AnswersAlike e (t.respond e data).1 (t.respond e data').1 ∧
      (t.respond e data).2.Alike (t.respond e data').2 := by
  match e with
  | .time => exact ⟨rfl, h⟩
  | .store op =>
    obtain ⟨hanswer, hdata⟩ := MemoryStore.apply_alike h t.now op
    unfold Turn.respond
    match t.fault with
    | none => exact ⟨hanswer, hdata⟩
    | some (fault, performed) =>
      refine ⟨by cases op <;> rfl, ?_⟩
      cases performed
      · exact h
      · exact hdata

/-- The store with the requests in their present state. -/
abbrev Run (ι : Type*) : Type _ :=
  MemoryData × (ι → Prog.Thread ServiceOp ServiceOp.Answer (Except ServiceError ProcessOutcome))

/-- The requests before their first call. -/
def Run.init (data : MemoryData) (requests : ι → ServiceCall) : Run ι :=
  (data, fun i => Prog.start (requests i).program)

variable [DecidableEq ι]

/-- The run under a schedule of turns. -/
def runTurns (schedule : List (Turn ι)) (c : Run ι) : Run ι :=
  schedule.foldl (fun c t => Prog.advance t.respond c t.thread) c

/-- A replacement of originals in a store. -/
structure Replacement where
  replace : MemoryData → MemoryData
  alike : ∀ data : MemoryData, data.Alike (replace data)

/-- The run under a schedule of turns, with a replacement of originals after each turn. -/
def runReplacing (schedule : List (Turn ι × Replacement)) (c : Run ι) : Run ι :=
  schedule.foldl (fun c t =>
    (t.2.replace (Prog.advance t.1.respond c t.1.thread).1,
      (Prog.advance t.1.respond c t.1.thread).2)) c

/-- Demasking is revoked throughout the run: no consumer of a request may demask, or at every moment
every record in the store was created with `demask_enabled = False`. -/
def RevokedRun (requests : ι → ServiceCall) (data : MemoryData) (schedule : List (Turn ι)) : Prop :=
  (∀ i, (requests i).service.OffForConsumer (requests i).consumerId) ∨
    ∀ pre, pre <+: schedule → (runTurns pre (Run.init data requests)).1.Off

/-- What two runs have in common: the stores differ in originals only, the requests are alike, and
each has come to where it is under revoked demasking. -/
structure InStep (requests : ι → ServiceCall) (c c' : Run ι) : Prop where
  stores : c.1.Alike c'.1
  programs : ∀ i, Prog.Alike AnswersAlike
    ((requests i).service.RevokedAt (requests i).consumerId) (c.2 i).prog (c'.2 i).prog
  histories : ∀ i, Prog.After (requests i).program (c.2 i).hist (c.2 i).prog ∧
    ∀ ev ∈ (c.2 i).hist, (requests i).service.RevokedAt (requests i).consumerId ev.1 ev.2

/-- One turn of the two runs. -/
theorem InStep.turn {requests : ι → ServiceCall} {c c' : Run ι}
    (h : InStep requests c c') (t : Turn ι)
    (replacement : Replacement)
    (hrevoked : ∀ e k, (c.2 t.thread).prog = .call e k →
      (requests t.thread).service.RevokedAt (requests t.thread).consumerId e (t.respond e c.1).1) :
    InStep requests (Prog.advance t.respond c t.thread)
      (replacement.replace (Prog.advance t.respond c' t.thread).1,
        (Prog.advance t.respond c' t.thread).2) := by
  obtain ⟨hstores, hprograms⟩ := Prog.advance_alike (fun e _ _ h => t.respond_alike e h) h.stores
    h.programs t.thread hrevoked
  exact ⟨hstores.trans (replacement.alike _), hprograms,
    Prog.advance_after h.histories t.thread hrevoked⟩

theorem RevokedRun.earlier {requests : ι → ServiceCall} {data : MemoryData}
    {schedule schedule' : List (Turn ι)} (h : RevokedRun requests data schedule')
    (hschedule : schedule <+: schedule') : RevokedRun requests data schedule :=
  h.imp_right fun hoff pre hpre => hoff pre (hpre.trans hschedule)

/-- **The two runs stay in step**, turn by turn. -/
theorem inStep_run {requests : ι → ServiceCall} {data data' : MemoryData}
    (halike : data.Alike data')
    (schedule : List (Turn ι × Replacement))
    (hrevoked : RevokedRun requests data (schedule.map Prod.fst)) :
    InStep requests (runTurns (schedule.map Prod.fst) (Run.init data requests))
      (runReplacing schedule (Run.init data' requests)) := by
  induction schedule using List.reverseRecOn with
  | nil =>
    exact ⟨halike, fun i => ProcessService.process_alike,
      fun i => ⟨.refl _, by simp [Run.init, runTurns, Prog.start]⟩⟩
  | append_singleton schedule turn ih =>
    obtain ⟨t, replacement⟩ := turn
    rw [List.map_append, List.map_singleton] at hrevoked ⊢
    have hstep := ih (hrevoked.earlier (List.prefix_append _ _))
    have hrun : runTurns (schedule.map Prod.fst ++ [t]) (Run.init data requests) =
        Prog.advance t.respond (runTurns (schedule.map Prod.fst) (Run.init data requests))
          t.thread := by
      rw [runTurns, List.foldl_append]
      rfl
    have hrun' : runReplacing (schedule ++ [(t, replacement)]) (Run.init data' requests) =
        (replacement.replace
          (Prog.advance t.respond (runReplacing schedule (Run.init data' requests)) t.thread).1,
        (Prog.advance t.respond (runReplacing schedule (Run.init data' requests)) t.thread).2) := by
      rw [runReplacing, List.foldl_append]
      rfl
    rw [hrun, hrun']
    refine hstep.turn t replacement fun e k hprog => ?_
    refine hrevoked.imp (fun hconsumer => hconsumer t.thread) fun hoff => ?_
    refine t.offInRecord (hoff _ (List.prefix_append _ _)) ?_
    have hafter := hoff _ List.prefix_rfl
    rw [hrun] at hafter
    simpa only [Prog.advance, hprog] using hafter

/-- **Revoked demasking reveals nothing.** At every moment of the run the requests have returned the
same and the stores differ in originals only, whatever originals the other store holds from the
start and gets after each turn. No request moves a record to grace, and each returns its payload, or
its payload with stored masks spliced in. -/
theorem revoked_reveals_nothing (requests : ι → ServiceCall) {data data' : MemoryData}
    (halike : data.Alike data') (schedule : List (Turn ι × Replacement))
    (hrevoked : RevokedRun requests data (schedule.map Prod.fst))
    (pre : List (Turn ι × Replacement))
    (hpre : pre <+: schedule) :
    let run := runTurns (pre.map Prod.fst) (Run.init data requests)
    let run' := runReplacing pre (Run.init data' requests)
    run.1.Alike run'.1 ∧
      ∀ i, (run.2 i).prog.result? = (run'.2 i).prog.result? ∧
        (∀ ev ∈ (run.2 i).hist, ev.1.movesToGrace = false) ∧
        ∀ a, (run.2 i).prog.result? = some a →
          ProcessService.ReturnsMasked (requests i).payload (requests i).payloadId
            (run.2 i).hist a := by
  intro run run'
  have hstep : InStep requests run run' :=
    inStep_run halike pre (hrevoked.earlier (hpre.map Prod.fst))
  refine ⟨hstep.stores, fun i => ⟨(hstep.programs i).result?, ?_, fun a ha => ?_⟩⟩
  · -- the request is run to its end over a store that raises
    obtain ⟨hafter, hevents⟩ := hstep.histories i
    obtain ⟨rest, a, htrace, hanswers⟩ := hafter.exists_trace brokenAnswer
    have hrest : ∀ ev ∈ (run.2 i).hist ++ rest,
        (requests i).service.RevokedAt (requests i).consumerId ev.1 ev.2 := by
      intro ev hev
      rcases List.mem_append.1 hev with hev | hev
      · exact hevents ev hev
      · exact .inr (hanswers ev hev ▸ offInRecord_brokenAnswer ev.1)
    intro ev hev
    exact (ProcessService.spec_of_revoked htrace hrest).1 ev (List.mem_append_left _ hev)
  · obtain ⟨hafter, hevents⟩ := hstep.histories i
    rw [Prog.eq_ret_of_result? ha] at hafter
    exact (ProcessService.spec_of_revoked hafter.trace hevents).2

/-- The record of the text "mail a@b.ru", or of another one with the same mask. -/
def mailRecord (original : Text) : MappingRecord where
  version := recordVersion
  state := .active
  mode := .tokenMode
  originalFingerprint := "mail a@b.ru".toList
  transformedFingerprint := "mail <EMAIL_1>".toList
  noPii := false
  demaskEnabled := true
  mappings := [{
    entityId := "EMAIL_1".toList
    type := .email
    original := original
    token := "<EMAIL_1>".toList
    synthetic := []
    partialForm := [] }]
  occurrences := [⟨"EMAIL_1".toList, 5, 11, 5, 14, original, "<EMAIL_1>".toList⟩]
  createdAt := 0
  demaskedAt := none

/-- The case of a retry and of the masked text, sent by a consumer that may not demask, with another
address in the record of the second run. -/
theorem revoked_reveals_nothing_mail :
    let service := ModeDemasker.service (builtinPipeline (basicRuntime 0 (by decide)))
      { defaultConsumer := { consumerId := "default".toList, demask := false } }
      ⟨id, fun _ => id⟩ 3600 60 none
    let requests : Bool → ServiceCall := fun
      | false => { service, payload := "mail a@b.ru".toList, payloadId := "p1".toList }
      | true => { service, payload := "mail <EMAIL_1>".toList, payloadId := "p1".toList }
    let data (original : String) : MemoryData := fun _ => some ⟨100, mailRecord original.toList⟩
    let schedule : List (Turn Bool × Replacement) :=
      [({ thread := true, now := 1 }, ⟨id, fun _ => rfl⟩),
        ({ thread := false, now := 2 }, ⟨id, fun _ => rfl⟩)]
    let run := runTurns (schedule.map Prod.fst) (Run.init (data "a@b.ru") requests)
    let run' := runReplacing schedule (Run.init (data "secret") requests)
    (run.2 false).prog.result? = some (.ok ⟨"mail <EMAIL_1>".toList, .retryMask, 0, 0⟩) ∧
      (run.2 true).prog.result? = some (.ok ⟨"mail <EMAIL_1>".toList, .demask, 0, 0⟩) ∧
      (∀ i, (run.2 i).prog.result? = (run'.2 i).prog.result?) ∧ run.1.Alike run'.1 := by
  intro service requests data schedule run run'
  have hoff : RevokedRun requests (data "a@b.ru") (schedule.map Prod.fst) := by
    refine .inl fun i consumer hconsumer => ?_
    have hdefault : some { consumerId := "default".toList, demask := false } = some consumer := by
      cases i <;> exact hconsumer
    rw [← Option.some.inj hdefault]
  have hdata : (data "a@b.ru").Alike (data "secret") := by
    funext payloadId
    rfl
  obtain ⟨hstores, hrequests⟩ := revoked_reveals_nothing requests hdata schedule hoff schedule
    List.prefix_rfl
  exact ⟨by decide +kernel, by decide +kernel, fun i => (hrequests i).1, hstores⟩

end PiiProxy
