import PiiProxy.Core.Contract
import PiiProxy.Storage.MemoryStore

/-!
# Records stand for sessions

The service over the in-memory store keeps the contract of `/process`. A record holds two
fingerprints and the spans of the masking in place of the document and the masked document; the
service recognises the two by their fingerprints, and computes each from the other by splicing. So
a live entry of the store stands for a live session, as long as no payload has the fingerprint of
another document that the store knows.

## Main definitions

* `ProcessService.terms`: the contract that the service keeps.
* `serveStep`: the outcome of a request, and the store after it.
* `ProcessService.StandsFor`: the entry stands for the session.
* `ProcessService.CollisionFree`: fingerprints tell the documents of a run apart.

## Main results

* `ProcessService.serveStep_refines`: one request over the store is one step of the contract.
* `ProcessService.outcomes_refine_contract`: so is every run.
-/

namespace PiiProxy

open Contract (Masking Session)

/-! ### The terms of the service -/

/-- The request, as the contract sees it. -/
def Request.asked (q : Request) : Contract.Request Text Text (Option Text) ℚ where
  document := q.payload
  payloadId := q.payloadId
  caller := q.consumerId
  time := q.time

/-- The direction that the service reports. -/
def directionOf : Contract.Direction → ProcessDirection
  | .mask => .mask
  | .retryMask => .retryMask
  | .demask => .demask

namespace ProcessService

variable (svc : ProcessService)

/-- Which consumer a request is admitted as. -/
def grant (consumerId : Option Text) : Except ServiceError ConsumerConfig :=
  match svc.consumers.resolve consumerId with
  | none => .error (.consumerNotFound (consumerLabel consumerId))
  | some consumer =>
    if consumer.enabled then .ok consumer else .error (.consumerDisabled consumer.consumerId)

/-- What a masking by the pipeline restores in another text. -/
def maskingOf (transform : TransformResult) : Masking Text ServiceError where
  masked := transform.text
  restore text := (svc.demask text transform.mappings transform.mode).mapError .pipeline

/-- The contract that the service keeps. -/
def terms : Contract.Terms Text Text (Option Text) ConsumerConfig ServiceError ℚ where
  grant := svc.grant
  demasks consumer := consumer.demask
  mask consumer payloadId payload :=
    ((svc.pipeline.process payload consumer.maskingMode consumer payloadId).mapError .pipeline).map
      svc.maskingOf
  lives now expiresAt := now < expiresAt
  decidableLives _ _ := inferInstance
  lives_mono hnow hexpires hlives := (hnow.trans_lt hlives).trans_le hexpires
  ttl := svc.ttl
  grace := svc.grace

end ProcessService

/-- The outcome of a request, and the store after it. -/
def serveStep (svc : ProcessService) (q : PiiProxy.Request) (data : MemoryData) :
    Except ServiceError ProcessOutcome × MemoryData :=
  (Prog.simulate (MemoryStore.respond q.time) []
    (svc.process q.payload q.payloadId q.consumerId) data).2

/-- What the client sees of an outcome. -/
def answerOf (outcome : Except ServiceError ProcessOutcome) :
    Except ServiceError (Text × ProcessDirection) :=
  outcome.map fun out => (out.result, out.direction)

/-! ### Entries and sessions -/

namespace ProcessService

variable (svc : ProcessService)

/-- The document and the masked document of the session come from a request of the run. -/
def Known (qs : List PiiProxy.Request) (s : Session Text ServiceError ℚ) : Prop :=
  ∃ q ∈ qs, ∃ consumer transform, svc.consumers.resolve q.consumerId = some consumer ∧
    svc.pipeline.process q.payload consumer.maskingMode consumer q.payloadId = .ok transform ∧
    s.document = q.payload ∧ s.masking.masked = transform.text

/-- The entry stands for the session. -/
structure StandsFor (qs : List PiiProxy.Request) (e : MemoryEntry)
    (s : Session Text ServiceError ℚ) : Prop where
  record : svc.IsRecordOf s.document s.masking.masked e.record
  restore : ∀ text, (svc.demask text e.record.mappings e.record.mode).mapError .pipeline =
    s.masking.restore text
  mayDemask : e.record.demaskEnabled = s.mayDemask
  inGrace : e.record.state = .demaskedGrace ↔ s.inGrace = true
  known : svc.Known qs s

/-- No payload of the run has the fingerprint of another payload, or of another masked text. -/
def CollisionFree (qs : List PiiProxy.Request) : Prop :=
  ∀ q ∈ qs, ∀ q' ∈ qs, (svc.fingerprint q.payload = svc.fingerprint q'.payload →
      q.payload = q'.payload) ∧
    ∀ consumer transform, svc.consumers.resolve q'.consumerId = some consumer →
      svc.pipeline.process q'.payload consumer.maskingMode consumer q'.payloadId = .ok transform →
      svc.fingerprint q.payload = svc.fingerprint transform.text → q.payload = transform.text

variable {svc} {qs : List PiiProxy.Request}

/-- A payload is recognised by its fingerprint. -/
theorem CollisionFree.original_iff (hfree : svc.CollisionFree qs) {q : PiiProxy.Request}
    (hq : q ∈ qs)
    {e : MemoryEntry} {s : Session Text ServiceError ℚ} (h : svc.StandsFor qs e s) :
    svc.fingerprint q.payload = e.record.originalFingerprint ↔ q.payload = s.document := by
  obtain ⟨q', hq', consumer, transform, -, -, hdocument, -⟩ := h.known
  rw [h.record.original]
  refine ⟨fun heq => ?_, fun heq => by rw [heq]⟩
  rw [hdocument] at heq ⊢
  exact (hfree q hq q' hq').1 heq

/-- A masked text is recognised by its fingerprint. -/
theorem CollisionFree.transformed_iff (hfree : svc.CollisionFree qs) {q : PiiProxy.Request}
    (hq : q ∈ qs)
    {e : MemoryEntry} {s : Session Text ServiceError ℚ} (h : svc.StandsFor qs e s) :
    svc.fingerprint q.payload = e.record.transformedFingerprint ↔
      q.payload = s.masking.masked := by
  obtain ⟨q', hq', consumer, transform, hresolve, hprocess, -, hmasked⟩ := h.known
  rw [h.record.transformed]
  refine ⟨fun heq => ?_, fun heq => by rw [heq]⟩
  rw [hmasked] at heq ⊢
  exact (hfree q hq q' hq').2 consumer transform hresolve hprocess heq

/-- The record of a first request stands for the session that it opens. -/
theorem standsFor_buildRecord {q : PiiProxy.Request} (hq : q ∈ qs) {consumer : ConsumerConfig}
    (hresolve : svc.consumers.resolve q.consumerId = some consumer) {transform : TransformResult}
    (hprocess : svc.pipeline.process q.payload consumer.maskingMode consumer q.payloadId =
      .ok transform) (expiresAt : ℚ) :
    svc.StandsFor qs ⟨expiresAt, buildRecord svc.hashing transform q.payload consumer.demask
      svc.secret q.time⟩ {
        document := q.payload
        masking := svc.maskingOf transform
        mayDemask := consumer.demask
        expiresAt := expiresAt } where
  record := svc.isRecordOf_buildRecord hprocess consumer.demask q.time
  restore _ := rfl
  mayDemask := rfl
  inGrace := iff_of_false (fun h => nomatch h) (fun h => nomatch h)
  known := ⟨q, hq, consumer, transform, hresolve, hprocess, rfl, rfl⟩

/-- The record after the grace transition stands for the demasked session. -/
theorem StandsFor.demasked {e : MemoryEntry} {s : Session Text ServiceError ℚ}
    (h : svc.StandsFor qs e s) (hactive : e.record.state ≠ .demaskedGrace) (now graceEnd : ℚ) :
    svc.StandsFor qs ⟨graceEnd, e.record.demasked now⟩ (s.demasked graceEnd) ∧
      (s.demasked graceEnd).expiresAt = graceEnd := by
  have hgrace : ¬s.inGrace = true := fun hgrace => hactive (h.inGrace.2 hgrace)
  rw [Session.demasked, if_neg hgrace]
  exact ⟨⟨h.record.of_core_eq rfl, h.restore, h.mayDemask, iff_of_true rfl rfl, h.known⟩, rfl⟩

/-! ### One request -/

/-- The entry and the session expire together, and the one stands for the other. -/
abbrev Matches (svc : ProcessService) (qs : List PiiProxy.Request) (e : MemoryEntry)
    (s : Session Text ServiceError ℚ) : Prop :=
  e.expiresAt = s.expiresAt ∧ svc.StandsFor qs e s

/-- The outcome of the service over the store is the answer of the contract, and the entry of the id
stands for the session after it. -/
def StepsAlike (svc : ProcessService) (qs : List PiiProxy.Request) (payloadId : Text)
    (data : MemoryData) (out : Except ServiceError ProcessOutcome × MemoryData)
    (turn : Contract.Answer Text ServiceError × Option (Session Text ServiceError ℚ)) : Prop :=
  answerOf out.1 = turn.1.map (Prod.map id directionOf) ∧
    ∃ e, out.2 = Function.update data payloadId e ∧ Option.Rel (svc.Matches qs) e turn.2

variable {q : PiiProxy.Request} {consumer : ConsumerConfig} {data : MemoryData}
  {h : List (Prog.Event ServiceOp ServiceOp.Answer)}

/-- A first request opens a session. -/
theorem firstRequest_refines (hq : q ∈ qs)
    (hresolve : svc.consumers.resolve q.consumerId = some consumer)
    (hnone : data q.payloadId = none) :
    svc.StepsAlike qs q.payloadId data
      (Prog.simulate (MemoryStore.respond q.time) h
        (svc.firstRequest q.payload q.payloadId consumer) data).2
      (svc.terms.opening consumer q.asked) := by
  cases hprocess : svc.pipeline.process q.payload consumer.maskingMode consumer q.payloadId with
  | error e =>
    have hmask : svc.terms.mask consumer q.payloadId q.payload = .error (.pipeline e) := by
      simp only [terms, hprocess]
      rfl
    simp only [Contract.Terms.opening, PiiProxy.Request.asked, hmask, firstRequest, hprocess]
    exact ⟨rfl, none, by rw [← hnone, Function.update_eq_self]; rfl, .none⟩
  | ok transform =>
    have hmask : svc.terms.mask consumer q.payloadId q.payload = .ok (svc.maskingOf transform) := by
      simp only [terms, hprocess]
      rfl
    rw [svc.firstRequest_eq_call hprocess]
    simp only [Contract.Terms.opening, PiiProxy.Request.asked, hmask, Prog.simulate,
      MemoryStore.respond, MemoryStore.apply, MemoryStore.saveIfAbsent, hnone]
    exact ⟨rfl, _, rfl, .some ⟨rfl, standsFor_buildRecord hq hresolve hprocess _⟩⟩

/-- The simulated grace transition, and its session. -/
theorem transitionToGrace_refines {e : MemoryEntry} {s : Session Text ServiceError ℚ}
    (he : data q.payloadId = some e) (hlive : q.time < e.expiresAt) (hmatches : svc.Matches qs e s)
    (result : Text) :
    svc.StepsAlike qs q.payloadId data
      (Prog.simulate (MemoryStore.respond q.time) h
        ((svc.transitionToGrace q.payloadId e.record).bind fun _ =>
          .ret (.ok { result := result, direction := .demask })) data).2
      (.ok (result, .demask), some (s.demasked (q.time + svc.grace))) := by
  refine ⟨?_, ?_⟩
  · rw [transitionToGrace]
    split_ifs <;> rfl
  · rw [simulate_transitionToGrace he hlive]
    split_ifs with hactive
    · obtain ⟨hstands, hexpires⟩ := hmatches.2.demasked hactive q.time (q.time + svc.grace)
      exact ⟨_, rfl, .some ⟨hexpires.symm, hstands⟩⟩
    · have hgrace : s.inGrace = true := hmatches.2.inGrace.1 (not_not.1 hactive)
      refine ⟨some e, by rw [← he, Function.update_eq_self], .some ?_⟩
      rw [Session.demasked, if_pos hgrace]
      exact hmatches

/-- A request that finds a live record continues its session. -/
theorem answerFromRecord_refines (hfree : svc.CollisionFree qs) (hq : q ∈ qs) {e : MemoryEntry}
    {s : Session Text ServiceError ℚ} (he : data q.payloadId = some e)
    (hlive : q.time < e.expiresAt) (hmatches : svc.Matches qs e s) :
    svc.StepsAlike qs q.payloadId data
      (Prog.simulate (MemoryStore.respond q.time) h
        (svc.answerFromRecord q.payload q.payloadId consumer e.record) data).2
      (svc.terms.continuing consumer q.asked s) := by
  have hsame : data = Function.update data q.payloadId (some e) := by
    rw [← he, Function.update_eq_self]
  have hdocument : q.asked.document = q.payload := rfl
  rw [answerFromRecord, Contract.Terms.continuing, hdocument]
  simp only [hfree.original_iff hq hmatches.2, hfree.transformed_iff hq hmatches.2]
  by_cases hretry : q.payload = s.document
  · rw [if_pos hretry, if_pos hretry]
    refine ⟨?_, some e, hsame, .some hmatches⟩
    rw [Prog.simulate, hretry, hmatches.2.record.mask]
    rfl
  rw [if_neg hretry, if_neg hretry, hmatches.2.mayDemask]
  by_cases hblocked : (!s.mayDemask || !consumer.demask) = true
  · have hblocked' : (!s.mayDemask || !svc.terms.demasks consumer) = true := hblocked
    rw [if_pos hblocked, if_pos hblocked']
    exact ⟨rfl, some e, hsame, .some hmatches⟩
  have hblocked' : ¬(!s.mayDemask || !svc.terms.demasks consumer) = true := hblocked
  rw [if_neg hblocked, if_neg hblocked', Session.demask]
  by_cases hexact : q.payload = s.masking.masked
  · rw [if_pos hexact, if_pos hexact, hexact, hmatches.2.record.demask]
    exact transitionToGrace_refines he hlive hmatches s.document
  · rw [if_neg hexact, if_neg hexact, ← hmatches.2.restore]
    cases svc.demask q.payload e.record.mappings e.record.mode with
    | error fault => exact ⟨rfl, some e, hsame, .some hmatches⟩
    | ok result => exact transitionToGrace_refines he hlive hmatches result

/-- What `get` reads is the record of the live entry, and only that is left of the id. -/
theorem get_eq_alive (svc : ProcessService) (now : ℚ) (data : MemoryData) (payloadId : Text) :
    MemoryStore.get now data payloadId =
      ((Contract.aliveEntry svc.terms MemoryEntry.expiresAt now (data payloadId)).map
          MemoryEntry.record,
        Function.update data payloadId
          (Contract.aliveEntry svc.terms MemoryEntry.expiresAt now (data payloadId))) := by
  cases hentry : data payloadId with
  | none =>
    have hself : Function.update data payloadId none = data := by
      rw [← hentry, Function.update_eq_self]
    simp [MemoryStore.get, hentry, Contract.aliveEntry, hself]
  | some e =>
    by_cases hlive : now < e.expiresAt
    · have halive : svc.terms.lives now e.expiresAt := hlive
      rw [get_of_live hentry hlive, Contract.aliveEntry_of_lives halive, ← hentry,
        Function.update_eq_self, hentry]
      rfl
    · have hdead : ¬svc.terms.lives now e.expiresAt := hlive
      rw [Contract.aliveEntry_of_not_lives hdead, MemoryStore.get, hentry]
      exact if_pos (not_lt.1 hlive)

/-- A request is admitted as an enabled consumer that its id resolves to. -/
theorem admit_eq_ok {consumerId : Option Text} {consumer : ConsumerConfig}
    (h : svc.grant consumerId = .ok consumer) :
    svc.consumers.resolve consumerId = some consumer ∧ consumer.enabled = true := by
  unfold grant at h
  split at h
  · cases h
  · rename_i consumer' hresolve
    split_ifs at h with henabled
    cases h
    exact ⟨hresolve, henabled⟩

/-- A request that is not admitted raises, and calls nothing. -/
theorem process_of_not_admitted {payload payloadId : Text} {consumerId : Option Text}
    {error : ServiceError} (h : svc.grant consumerId = .error error) :
    svc.process payload payloadId consumerId = .ret (.error error) := by
  unfold grant at h
  unfold process
  cases hresolve : svc.consumers.resolve consumerId with
  | none =>
    rw [hresolve] at h
    cases h
    rfl
  | some consumer =>
    simp only [hresolve] at h
    cases henabled : consumer.enabled with
    | true => simp [henabled] at h
    | false =>
      simp only [henabled, Bool.false_eq_true, if_false, Except.error.injEq] at h
      simp only [henabled, Bool.not_false, if_true, h]

/-- **One request** over the store is one step of the contract. -/
theorem serveStep_refines (hfree : svc.CollisionFree qs) (hq : q ∈ qs) {now : ℚ}
    {sessions : Contract.Sessions Text Text ServiceError ℚ} (hnow : now ≤ q.time)
    (hrep : Contract.Represents svc.terms MemoryEntry.expiresAt (svc.StandsFor qs) now data
      sessions) :
    answerOf (serveStep svc q data).1 =
        (svc.terms.serve q.asked sessions).1.map (Prod.map id directionOf) ∧
      Contract.Represents svc.terms MemoryEntry.expiresAt (svc.StandsFor qs) q.time
        (serveStep svc q data).2 (svc.terms.serve q.asked sessions).2 := by
  have hgrant : svc.terms.grant q.asked.caller = svc.grant q.consumerId := rfl
  rw [Contract.Terms.serve, hgrant, serveStep]
  cases hconsumer : svc.grant q.consumerId with
  | error e =>
    rw [process_of_not_admitted hconsumer]
    exact ⟨rfl, hrep.mono hnow⟩
  | ok consumer =>
    obtain ⟨hresolve, henabled⟩ := admit_eq_ok hconsumer
    have hread := hrep.mono hnow q.payloadId
    obtain ⟨hanswer, e, hdata, hrel⟩ : svc.StepsAlike qs q.payloadId
        (Function.update data q.payloadId
          (Contract.aliveEntry svc.terms MemoryEntry.expiresAt q.time (data q.payloadId)))
        (Prog.simulate (MemoryStore.respond q.time) []
          (svc.process q.payload q.payloadId q.consumerId) data).2
        (svc.terms.turn consumer q.asked (svc.terms.alive q.time (sessions q.payloadId))) := by
      rw [svc.process_eq_call hresolve henabled]
      simp only [Prog.simulate, MemoryStore.respond, MemoryStore.apply, svc.get_eq_alive]
      generalize svc.terms.alive q.time (sessions q.payloadId) = s at hread
      generalize halive : Contract.aliveEntry svc.terms MemoryEntry.expiresAt q.time
        (data q.payloadId) = e at hread
      obtain hmatches | - := hread
      · refine answerFromRecord_refines hfree hq (Function.update_self ..) ?_ hmatches
        exact of_decide_eq_true (Option.filter_eq_some_iff.1 halive).2
      · exact firstRequest_refines hq hresolve (Function.update_self ..)
    rw [Function.update_idem] at hdata
    rw [hdata]
    exact ⟨hanswer, hrep.update hnow hrel⟩

/-! ### Runs -/

/-- **The service keeps the contract.** Requests over the in-memory store, one after another from an
empty store, are answered as the contract answers them, when fingerprints tell the documents of the
run apart. -/
theorem outcomes_refine_contract (svc : ProcessService) (qs : List PiiProxy.Request)
    (hclock : qs.Pairwise (·.time ≤ ·.time)) (hfree : svc.CollisionFree qs) :
    (Reactive.outputs (serveStep svc) qs fun _ => none).map answerOf =
      (Reactive.outputs svc.terms.serve (qs.map PiiProxy.Request.asked) fun _ => none).map
        (Except.map (Prod.map id directionOf)) := by
  let Related (rest : List PiiProxy.Request) (data : MemoryData)
      (sessions : Contract.Sessions Text Text ServiceError ℚ) : Prop :=
    rest ⊆ qs ∧ rest.Pairwise (·.time ≤ ·.time) ∧ ∀ q ∈ rest, ∃ now ≤ q.time,
      Contract.Represents svc.terms MemoryEntry.expiresAt (svc.StandsFor qs) now data sessions
  refine Reactive.map_outputs_eq_of_simulation (R := Related) PiiProxy.Request.asked answerOf _ ?_
    qs ⟨List.Subset.refl qs, hclock, fun q _ => ⟨q.time, le_rfl, fun _ => .none⟩⟩
  rintro q rest data sessions ⟨hsub, hclock, hrep⟩
  obtain ⟨hfirst, hclock⟩ := List.pairwise_cons.1 hclock
  obtain ⟨now, hnow, hrep⟩ := hrep q List.mem_cons_self
  obtain ⟨hanswer, hnext⟩ := serveStep_refines hfree (hsub List.mem_cons_self) hnow hrep
  exact ⟨hanswer, fun q' hq' => hsub (.tail _ hq'), hclock,
    fun q' hq' => ⟨q.time, hfirst q' hq', hnext⟩⟩

/-- The service of the following example: it masks with tokens and takes texts as their own
fingerprints. -/
def plainService : ProcessService :=
  ModeDemasker.service (builtinPipeline (basicRuntime 0 zero_lt_two_pow_64))
    { defaultConsumer := { consumerId := "default".toList, maskingMode := .tokenMode } }
    ⟨id, fun _ => id⟩ 3600 60 none

theorem collisionFree_plainService (qs : List PiiProxy.Request) : plainService.CollisionFree qs :=
  fun _ _ _ _ => ⟨id, fun _ _ _ _ => id⟩

/-- The case of a document with an e-mail address, its masked text and the document again. -/
theorem outcomes_refine_contract_mail :
    (Reactive.outputs (serveStep plainService) (mailRequests.1 :: mailRequests.2)
        fun _ => none).map answerOf =
      (Reactive.outputs plainService.terms.serve
        ((mailRequests.1 :: mailRequests.2).map PiiProxy.Request.asked) fun _ => none).map
          (Except.map (Prod.map id directionOf)) ∧
    (Reactive.outputs (serveStep plainService) (mailRequests.1 :: mailRequests.2)
        fun _ => none).map answerOf =
      [.ok ("mail <EMAIL_1>".toList, .mask), .ok ("mail a@b.ru".toList, .demask),
        .ok ("mail <EMAIL_1>".toList, .retryMask)] :=
  ⟨outcomes_refine_contract plainService _ (by decide +kernel) (collisionFree_plainService _),
    by decide +kernel⟩

/-- The outcome of a request behind others is the answer of the contract. -/
theorem answerOf_serveStep_final {svc : ProcessService} (before after : List PiiProxy.Request)
    (q : PiiProxy.Request)
    (hclock : (before ++ q :: after).Pairwise (·.time ≤ ·.time))
    (hfree : svc.CollisionFree (before ++ q :: after)) :
    answerOf (serveStep svc q (Reactive.final (serveStep svc) before fun _ => none)).1 =
      (svc.terms.serve q.asked
        (Reactive.final svc.terms.serve (before.map PiiProxy.Request.asked) fun _ => none)).1.map
          (Prod.map id directionOf) := by
  have hrun := congrArg (·[before.length]?) (svc.outcomes_refine_contract _ hclock hfree)
  simp only [List.getElem?_map, Reactive.getElem?_outputs, List.map_append, List.map_cons] at hrun
  have hlength : before.length = (before.map PiiProxy.Request.asked).length :=
    List.length_map .. |>.symm
  rw [hlength, Reactive.getElem?_outputs] at hrun
  exact Option.some.inj hrun

/-- **Round trips are guaranteed.** Once a first request for a payload id was answered by a masked
text, a repetition is answered by the masked text, and the masked text by the payload, whatever was
requested in between, as long as neither the time to live nor the grace has passed since the first
request. -/
theorem roundTrip_within_window (svc : ProcessService) (before between : List PiiProxy.Request)
    (first last : PiiProxy.Request)
    (hclock : (before ++ (first :: between) ++ [last]).Pairwise (·.time ≤ ·.time))
    (hfree : svc.CollisionFree (before ++ (first :: between) ++ [last])) {masked : Text}
    (hmasked : answerOf (serveStep svc first
      (Reactive.final (serveStep svc) before fun _ => none)).1 = .ok (masked, .mask))
    (hid : last.payloadId = first.payloadId) {consumer : ConsumerConfig}
    (hgrant : svc.grant last.consumerId = .ok consumer)
    (httl : last.time < first.time + svc.ttl) (hgrace : last.time < first.time + svc.grace) :
    let answer := answerOf (serveStep svc last
      (Reactive.final (serveStep svc) (before ++ first :: between) fun _ => none)).1
    (last.payload = first.payload → answer = .ok (masked, .retryMask)) ∧
      (last.payload = masked → consumer.demask = true →
        (∀ consumer', svc.grant first.consumerId = .ok consumer' → consumer'.demask = true) →
        ∃ direction, answer = .ok (first.payload, direction)) := by
  have hfirst := answerOf_serveStep_final before (between ++ [last]) first
    (by simpa using hclock) (by simpa using hfree)
  have hlast := answerOf_serveStep_final (before ++ first :: between) [] last
    (by simpa using hclock) (by simpa using hfree)
  rw [hmasked] at hfirst
  have hserved : (svc.terms.serve first.asked
      (Reactive.final svc.terms.serve (before.map PiiProxy.Request.asked) fun _ => none)).1 =
        .ok (masked, .mask) := by
    revert hfirst
    generalize (svc.terms.serve first.asked _).1 = answer
    intro hfirst
    match answer with
    | .error e => cases hfirst
    | .ok (text, .mask) =>
      obtain ⟨rfl, -⟩ := Prod.mk.inj (Except.ok.inj hfirst)
      rfl
    | .ok (text, .retryMask) => cases (Prod.mk.inj (Except.ok.inj hfirst)).2
    | .ok (text, .demask) => cases (Prod.mk.inj (Except.ok.inj hfirst)).2
  have hclock' : (first.asked :: between.map PiiProxy.Request.asked ++ [last.asked]).Pairwise
      (·.time ≤ ·.time) := by
    rw [List.append_assoc, List.pairwise_append] at hclock
    have hlater := hclock.2.1
    have hmap : first.asked :: between.map PiiProxy.Request.asked ++ [last.asked] =
        (first :: between ++ [last]).map PiiProxy.Request.asked := by simp
    rw [hmap, List.pairwise_map]
    exact hlater
  obtain ⟨hretry, hback⟩ := Contract.Terms.roundTrip hserved hclock' hid hgrant httl hgrace
  rw [← Reactive.final_append, ← List.map_cons, ← List.map_append] at hretry hback
  rw [hlast]
  refine ⟨fun hpayload => ?_, fun hpayload hdemasks hdemasks' => ?_⟩
  · rw [hretry hpayload]
    rfl
  · obtain ⟨direction, hanswer⟩ := hback hpayload hdemasks hdemasks'
    exact ⟨directionOf direction, by rw [hanswer]; rfl⟩

/-- A document of another id, and a repetition of the first one. -/
def requestsBetween : List PiiProxy.Request :=
  [⟨"mail c@d.ru".toList, "p2".toList, none, 3⟩, { mailRequests.1 with time := 5 }]

/-- The case of the masked text ten seconds after the document, with two requests in between. -/
theorem roundTrip_within_window_mail :
    answerOf (serveStep plainService mailRequests.1 fun _ => none).1 =
        .ok ("mail <EMAIL_1>".toList, .mask) ∧
      ∃ direction, answerOf (serveStep plainService
        ⟨"mail <EMAIL_1>".toList, "p1".toList, none, 10⟩
        (Reactive.final (serveStep plainService) (mailRequests.1 :: requestsBetween)
          fun _ => none)).1 = .ok ("mail a@b.ru".toList, direction) := by
  have hmasked : answerOf (serveStep plainService mailRequests.1 fun _ => none).1 =
      .ok ("mail <EMAIL_1>".toList, .mask) := by decide +kernel
  refine ⟨hmasked, ?_⟩
  exact (roundTrip_within_window plainService [] requestsBetween mailRequests.1
    ⟨"mail <EMAIL_1>".toList, "p1".toList, none, 10⟩ (by decide +kernel)
    (collisionFree_plainService _) hmasked rfl rfl (by decide +kernel) (by decide +kernel)).2 rfl
    rfl (fun consumer' h => by cases h; rfl)

end ProcessService

end PiiProxy
