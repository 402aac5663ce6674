import PiiProxy.Core.Contract
import PiiProxy.GoService.Race

/-!
# The Go service keeps the contract

The in-memory store of `go-service/pii/store.go`, and the requests of the Go service over it, one
after another. They keep the contract that the Python service keeps over its own in-memory store:
the Go service has one policy, admits everybody, and its records live to the end of their last
nanosecond.

## Main definitions

* `GoService.MemoryData`, `GoService.MemoryStore.respond`: the store.
* `GoService.Service.terms`: the contract that the service keeps.
* `GoService.Service.serveStep`: the reply to a request, and the store after it.
* `GoService.Service.StandsFor`: the entry stands for the session.

## Main results

* `GoService.Service.serveStep_refines`: one request over the store is one step of the contract.
* `GoService.Service.replies_refine_contract`: so is every run.
-/

namespace PiiProxy.GoService

open Contract (Masking Session)

/-! ### The store -/

/-- `memEntry`, with times in nanoseconds. -/
structure MemEntry where
  expires : ℤ
  record : Record
  deriving DecidableEq

/-- `data` of a `MemoryStore`. -/
abbrev MemoryData : Type := GoString → Option MemEntry

/-- `time.Time.Unix`: whole seconds. -/
def unix (now : ℤ) : ℤ := now / 1000000000

namespace MemoryStore

variable (now : ℤ) (data : MemoryData)

/-- `Get`: an entry that has expired is deleted. -/
def get (id : GoString) : Option Record × MemoryData :=
  match data id with
  | none => (none, data)
  | some e =>
    if e.expires < now then (none, Function.update data id none) else (some e.record, data)

/-- `SaveIfAbsent`. -/
def saveIfAbsent (id : GoString) (record : Record) (ttl : ℤ) : Bool × MemoryData :=
  match data id with
  | none => (true, Function.update data id (some ⟨now + ttl, record⟩))
  | some e =>
    if now < e.expires then (false, data)
    else (true, Function.update data id (some ⟨now + ttl, record⟩))

/-- `MarkDemasked`: it does not look at the expiry. -/
def markDemasked (id : GoString) (grace : ℤ) : MemoryData :=
  match data id with
  | none => data
  | some e => Function.update data id (some ⟨now + grace, e.record.demasked (unix now)⟩)

/-- A call of the service at the time `now`. -/
def respond : (op : ServiceOp) → MemoryData → op.Answer × MemoryData
  | .get id, data => (.ok (get now data id).1, (get now data id).2)
  | .saveIfAbsent id record ttl, data =>
    (.ok (saveIfAbsent now data id record ttl).1, (saveIfAbsent now data id record ttl).2)
  | .markDemasked id grace, data => (.ok (), markDemasked now data id grace)
  | .now, data => (unix now, data)

end MemoryStore

/-! ### The terms of the service -/

/-- A request of the contract: the Go service does not ask who calls. -/
abbrev Asked : Type := Contract.Request GoString GoString Unit ℤ

/-- The direction that the service reports. -/
def directionOf : Contract.Direction → Direction
  | .mask => .mask
  | .retryMask => .retryMask
  | .demask => .demask

namespace Service

variable (svc : Service)

/-- What a transformation restores in another text. -/
def maskingOf (tr : Transform) : Masking GoString Failure where
  masked := tr.text
  restore text := (fuzzyDemask text tr.mappings svc.mode).mapError .fault

/-- The contract that the service keeps. -/
def terms : Contract.Terms GoString GoString Unit Unit Failure ℤ where
  grant _ := .ok ()
  demasks _ := true
  mask _ payloadId payload := ((svc.transform payload payloadId).mapError .fault).map svc.maskingOf
  lives now expires := now ≤ expires
  decidableLives _ _ := inferInstance
  lives_mono hnow hexpires hlives := (hnow.trans hlives).trans hexpires
  ttl := svc.ttl
  grace := svc.grace

/-- The reply to a request, and the store after it. -/
def serveStep (q : Asked) (data : MemoryData) : Reply × MemoryData :=
  (Prog.simulate (MemoryStore.respond q.time) [] (svc.process q.document q.payloadId) data).2

/-! ### Entries and sessions -/

/-- The entry stands for the session, whose document is from a request of the run. -/
def StandsFor (qs : List Asked) (e : MemEntry) (s : Session GoString Failure ℤ) : Prop :=
  ∃ q ∈ qs, ∃ tr, svc.IsRecordOf q.payloadId q.document tr e.record ∧ s.document = q.document ∧
    s.masking = svc.maskingOf tr ∧ s.mayDemask = true ∧
    (e.record.state = .demaskedGrace ↔ s.inGrace = true)

/-- No payload of the run has the fingerprint of another payload, or of another masked text. -/
def CollisionFree (qs : List Asked) : Prop :=
  ∀ q ∈ qs, ∀ q' ∈ qs, (svc.fingerprint q.document = svc.fingerprint q'.document →
      q.document = q'.document) ∧
    ∀ tr, svc.transform q'.document q'.payloadId = .ok tr →
      svc.fingerprint q.document = svc.fingerprint tr.text → q.document = tr.text

/-- The entry and the session expire together, and the one stands for the other. -/
abbrev Matches (qs : List Asked) (e : MemEntry) (s : Session GoString Failure ℤ) : Prop :=
  e.expires = s.expiresAt ∧ svc.StandsFor qs e s

/-- The reply of the service over the store is the answer of the contract, and the entry of the id
stands for the session after it. -/
def StepsAlike (qs : List Asked) (payloadId : GoString) (data : MemoryData)
    (out : Reply × MemoryData)
    (turn : Contract.Answer GoString Failure × Option (Session GoString Failure ℤ)) : Prop :=
  out.1 = turn.1.map (Prod.map id directionOf) ∧
    ∃ e, out.2 = Function.update data payloadId e ∧ Option.Rel (svc.Matches qs) e turn.2

variable {svc} {qs : List Asked} {q : Asked} {data : MemoryData}
  {h : List (Prog.Event ServiceOp ServiceOp.Answer)}

namespace IsRecordOf

variable {payloadId payload : GoString} {tr : Transform} {r : Record}

/-- The occurrences of the record mask its payload again. -/
theorem splice_masked (hrecord : svc.IsRecordOf payloadId payload tr r) :
    spliceOriginalToMasked payload r.occurrences = .ok tr.text := by
  have htransform := hrecord.1
  rw [transform] at htransform
  rw [hrecord.occurrences]
  exact (splices_of_buildTransform svc.runtime htransform).2

/-- The record demasks another text as the masking does. -/
theorem restore (hrecord : svc.IsRecordOf payloadId payload tr r) (text : GoString) :
    (fuzzyDemask text r.mappings r.mode).mapError Failure.fault =
      (svc.maskingOf tr).restore text := by
  obtain ⟨now, hcore⟩ := hrecord.2
  have hmappings : r.mappings = tr.mappings := congrArg Record.mappings hcore
  have hmode : r.mode = svc.mode := congrArg Record.mode hcore
  rw [hmappings, hmode]
  rfl

end IsRecordOf

/-- A first request opens a session. -/
theorem firstRequest_refines (hq : q ∈ qs) (hnone : data q.payloadId = none) :
    svc.StepsAlike qs q.payloadId data
      (Prog.simulate (MemoryStore.respond q.time) h
        (svc.firstRequest q.document q.payloadId) data).2
      (svc.terms.opening () q) := by
  cases htransform : svc.transform q.document q.payloadId with
  | error f =>
    have hmask : svc.terms.mask () q.payloadId q.document = .error (.fault f) := by
      simp only [terms, htransform]
      rfl
    simp only [Contract.Terms.opening, hmask, firstRequest, htransform]
    exact ⟨rfl, none, by rw [← hnone, Function.update_eq_self]; rfl, .none⟩
  | ok tr =>
    have hmask : svc.terms.mask () q.payloadId q.document = .ok (svc.maskingOf tr) := by
      simp only [terms, htransform]
      rfl
    simp only [Contract.Terms.opening, hmask, firstRequest, htransform, Prog.simulate,
      MemoryStore.respond, MemoryStore.saveIfAbsent, hnone]
    refine ⟨rfl, _, rfl,
      .some ⟨rfl, q, hq, tr, isRecordOf_newRecord htransform _, rfl, rfl, rfl, ?_⟩⟩
    exact iff_of_false (fun h => by cases h) (fun h => by cases h)

/-- A text that was demasked is replied, and the record moves to grace. -/
theorem replyDemasked_refines {e : MemEntry} {s : Session GoString Failure ℤ}
    (he : data q.payloadId = some e) (hmatches : svc.Matches qs e s) (result : GoString) :
    svc.StepsAlike qs q.payloadId data
      (Prog.simulate (MemoryStore.respond q.time) h
        (svc.replyDemasked q.payloadId e.record (.ok result)) data).2
      (.ok (result, .demask), some (s.demasked (q.time + svc.grace))) := by
  obtain ⟨hexpires, q', hq', tr, hrecord, hdocument, hmasking, hmay, hgrace⟩ := hmatches
  rw [replyDemasked, Session.demasked]
  by_cases hstate : e.record.state = .demaskedGrace
  · rw [if_neg (not_not.2 hstate), if_pos (hgrace.1 hstate)]
    refine ⟨rfl, some e, by rw [← he, Function.update_eq_self]; rfl, .some ⟨hexpires, ?_⟩⟩
    exact ⟨q', hq', tr, hrecord, hdocument, hmasking, hmay, hgrace⟩
  · rw [if_pos hstate, if_neg fun h => hstate (hgrace.2 h)]
    simp only [Prog.simulate, MemoryStore.respond, MemoryStore.markDemasked, he]
    exact ⟨rfl, _, rfl, .some ⟨rfl, q', hq', tr, hrecord.of_core rfl, hdocument, hmasking, hmay,
      iff_of_true rfl rfl⟩⟩

/-- A request that finds a live record continues its session. -/
theorem answerFromRecord_refines (hfree : svc.CollisionFree qs) (hq : q ∈ qs) {e : MemEntry}
    {s : Session GoString Failure ℤ} (he : data q.payloadId = some e)
    (hmatches : svc.Matches qs e s) :
    svc.StepsAlike qs q.payloadId data
      (Prog.simulate (MemoryStore.respond q.time) h
        (svc.answerFromRecord q.document q.payloadId e.record) data).2
      (svc.terms.continuing () q s) := by
  have hsame : data = Function.update data q.payloadId (some e) := by
    rw [← he, Function.update_eq_self]
  obtain ⟨q', hq', tr, hrecord, hdocument, hmasking, hmay, -⟩ := hmatches.2
  have horiginal : svc.fingerprint q.document = e.record.originalFingerprint ↔
      q.document = s.document := by
    rw [hrecord.originalFingerprint, hdocument]
    exact ⟨(hfree q hq q' hq').1, fun heq => by rw [heq]⟩
  have htransformed : svc.fingerprint q.document = e.record.transformedFingerprint ↔
      q.document = s.masking.masked := by
    rw [hrecord.transformedFingerprint, hmasking]
    exact ⟨(hfree q hq q' hq').2 tr hrecord.1, fun heq => by rw [heq]; rfl⟩
  rw [answerFromRecord, Contract.Terms.continuing]
  simp only [horiginal, htransformed]
  by_cases hretry : q.document = s.document
  · rw [if_pos hretry, if_pos hretry, hretry, hdocument, hrecord.splice_masked]
    exact ⟨by rw [hmasking]; rfl, some e, hsame, .some hmatches⟩
  have hallowed : ¬(!s.mayDemask || !svc.terms.demasks ()) = true := by
    rw [hmay]
    exact Bool.false_ne_true
  rw [if_neg hretry, if_neg hretry, if_neg hallowed, Session.demask]
  by_cases hexact : q.document = s.masking.masked
  · have hback : spliceMaskedToOriginal q.document e.record.occurrences = .ok s.document := by
      rw [hexact, hmasking, hdocument]
      exact hrecord.splice
    rw [if_pos hexact, if_pos hexact, hback]
    exact replyDemasked_refines he hmatches s.document
  · rw [if_neg hexact, if_neg hexact, hmasking, ← hrecord.restore]
    cases fuzzyDemask q.document e.record.mappings e.record.mode with
    | error f => exact ⟨rfl, some e, hsame, .some hmatches⟩
    | ok result => exact replyDemasked_refines he hmatches result

/-- What `Get` reads is the record of the live entry, and only that is left of the id. -/
theorem get_eq_alive (svc : Service) (now : ℤ) (data : MemoryData) (payloadId : GoString) :
    MemoryStore.get now data payloadId =
      ((Contract.aliveEntry svc.terms MemEntry.expires now (data payloadId)).map MemEntry.record,
        Function.update data payloadId
          (Contract.aliveEntry svc.terms MemEntry.expires now (data payloadId))) := by
  cases hentry : data payloadId with
  | none =>
    have hself : Function.update data payloadId none = data := by
      rw [← hentry, Function.update_eq_self]
    simp [MemoryStore.get, hentry, Contract.aliveEntry, hself]
  | some e =>
    by_cases hlive : now ≤ e.expires
    · have halive : svc.terms.lives now e.expires := hlive
      rw [Contract.aliveEntry_of_lives halive, MemoryStore.get, hentry, ← hentry,
        Function.update_eq_self, hentry]
      exact if_neg (not_lt.2 hlive)
    · have hdead : ¬svc.terms.lives now e.expires := hlive
      rw [Contract.aliveEntry_of_not_lives hdead, MemoryStore.get, hentry]
      exact if_pos (not_le.1 hlive)

/-- **One request** over the store is one step of the contract. -/
theorem serveStep_refines (hfree : svc.CollisionFree qs) (hq : q ∈ qs) {now : ℤ}
    {sessions : Contract.Sessions GoString GoString Failure ℤ} (hnow : now ≤ q.time)
    (hrep : Contract.Represents svc.terms MemEntry.expires (svc.StandsFor qs) now data sessions) :
    (svc.serveStep q data).1 = (svc.terms.serve q sessions).1.map (Prod.map id directionOf) ∧
      Contract.Represents svc.terms MemEntry.expires (svc.StandsFor qs) q.time
        (svc.serveStep q data).2 (svc.terms.serve q sessions).2 := by
  have hread := hrep.mono hnow q.payloadId
  obtain ⟨hanswer, e, hdata, hrel⟩ : svc.StepsAlike qs q.payloadId
      (Function.update data q.payloadId
        (Contract.aliveEntry svc.terms MemEntry.expires q.time (data q.payloadId)))
      (svc.serveStep q data)
      (svc.terms.turn () q (svc.terms.alive q.time (sessions q.payloadId))) := by
    rw [serveStep, process]
    simp only [Prog.simulate, MemoryStore.respond, svc.get_eq_alive]
    generalize svc.terms.alive q.time (sessions q.payloadId) = s at hread
    generalize Contract.aliveEntry svc.terms MemEntry.expires q.time (data q.payloadId) = e at hread
    obtain hmatches | - := hread
    · exact answerFromRecord_refines hfree hq (Function.update_self ..) hmatches
    · exact firstRequest_refines hq (Function.update_self ..)
  rw [Function.update_idem] at hdata
  rw [hdata]
  exact ⟨hanswer, hrep.update hnow hrel⟩

/-! ### Runs -/

/-- **The Go service keeps the contract**, too: requests over its in-memory store, one after another
from an empty store, are replied to as the contract answers them, when fingerprints tell the
documents of the run apart. -/
theorem replies_refine_contract (svc : Service) (qs : List Asked)
    (hclock : qs.Pairwise (·.time ≤ ·.time)) (hfree : svc.CollisionFree qs) :
    Reactive.outputs svc.serveStep qs (fun _ => none) =
      (Reactive.outputs svc.terms.serve qs fun _ => none).map
        (Except.map (Prod.map id directionOf)) := by
  let Related (rest : List Asked) (data : MemoryData)
      (sessions : Contract.Sessions GoString GoString Failure ℤ) : Prop :=
    rest ⊆ qs ∧ rest.Pairwise (·.time ≤ ·.time) ∧ ∀ q ∈ rest, ∃ now ≤ q.time,
      Contract.Represents svc.terms MemEntry.expires (svc.StandsFor qs) now data sessions
  suffices hrun : (Reactive.outputs svc.serveStep qs fun _ => none).map id =
      (Reactive.outputs svc.terms.serve (qs.map id) fun _ => none).map
        (Except.map (Prod.map id directionOf)) by
    simpa using hrun
  refine Reactive.map_outputs_eq_of_simulation (R := Related) id id _ ?_ qs
    ⟨List.Subset.refl qs, hclock, fun q _ => ⟨q.time, le_rfl, fun _ => .none⟩⟩
  rintro q rest data sessions ⟨hsub, hclock, hrep⟩
  obtain ⟨hfirst, hclock⟩ := List.pairwise_cons.1 hclock
  obtain ⟨now, hnow, hrep⟩ := hrep q List.mem_cons_self
  obtain ⟨hanswer, hnext⟩ := serveStep_refines hfree (hsub List.mem_cons_self) hnow hrep
  exact ⟨hanswer, fun q' hq' => hsub (.tail _ hq'), hclock,
    fun q' hq' => ⟨q.time, hfirst q' hq', hnext⟩⟩

/-- A document with an address, its masked text, and the document again. -/
def mailAsked : List Asked :=
  [⟨str "a@b.ru", str "p1", (), 0⟩, ⟨str "<EMAIL_1>", str "p1", (), 60⟩,
    ⟨str "a@b.ru", str "p1", (), 120⟩]

/-- The case of a grace that ends with its last nanosecond. -/
theorem replies_refine_contract_mail :
    Reactive.outputs tokenService.serveStep mailAsked (fun _ => none) =
        (Reactive.outputs tokenService.terms.serve mailAsked fun _ => none).map
          (Except.map (Prod.map id directionOf)) ∧
      Reactive.outputs tokenService.serveStep mailAsked (fun _ => none) =
        [.ok (str "<EMAIL_1>", .mask), .ok (str "a@b.ru", .demask),
          .ok (str "<EMAIL_1>", .retryMask)] :=
  ⟨replies_refine_contract tokenService mailAsked (by decide +kernel)
    fun _ _ _ _ => ⟨id, fun _ _ => id⟩, by decide +kernel⟩

end Service

end PiiProxy.GoService
