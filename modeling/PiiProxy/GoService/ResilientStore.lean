import PiiProxy.GoService.FreshValues
import PiiProxy.GoService.Race
import PiiProxy.Lib.Histories

/-!
# The resilient store of the Go service

The `ResilientStore` of `go-service/pii/store.go`: an authoritative store behind an optional cache,
each guarded by a circuit breaker. Every operation is a program over the calls of the two backends,
the operations of the two breakers, and the clock. What the backends and the breakers answer is
left open: whatever it is, the reply to a request is accounted for by the answers that this request
got.

## Main definitions

* `GoService.BackendOp`: the calls on the backends and their breakers.
* `GoService.ResilientStore.get`, `GoService.ResilientStore.saveIfAbsent`,
  `GoService.ResilientStore.markDemasked`, `GoService.ResilientStore.serve`.
* `GoService.Service.Accounts`: the calls and answers account for a reply.

## Main results

* `GoService.ResilientStore.every_get`, `GoService.ResilientStore.every_saveIfAbsent`,
  `GoService.ResilientStore.every_markDemasked`: what the answers of the store mean.
* `GoService.Service.replies_accounted`: every reply is accounted for.
-/

namespace PiiProxy.GoService

/-! ### The calls on the backends -/

/-- The authoritative store and the cache. -/
inductive Tier where
  | auth | cache
  deriving DecidableEq

/-- What the store calls: the breaker of a backend, the backends, and the clock. -/
inductive BackendOp where
  | allow (tier : Tier)
  | success (tier : Tier)
  | failure (tier : Tier)
  | authGet (payloadId : GoString)
  | authSaveIfAbsent (payloadId : GoString) (record : Record) (ttl : ℤ)
  | authMarkDemasked (payloadId : GoString) (grace : ℤ)
  | redisGet (payloadId : GoString)
  | redisSet (payloadId : GoString) (record : Record) (ttl : ℤ)
  | now

/-- What the calls return. -/
abbrev BackendOp.Answer : BackendOp → Type
  | .allow _ => Bool
  | .success _ => Unit
  | .failure _ => Unit
  | .authGet _ => Except StoreError (Option Record)
  | .authSaveIfAbsent _ _ _ => Except StoreError Bool
  | .authMarkDemasked _ _ => Except StoreError Unit
  | .redisGet _ => Except StoreError (Option Record)
  | .redisSet _ _ _ => Except StoreError Unit
  | .now => ℤ

/-- A program over the two backends. -/
abbrev BackendProg (α : Type) : Type := Prog BackendOp BackendOp.Answer α

/-- A call on the backends with its answer. -/
abbrev BackendEvent : Type := Prog.Event BackendOp BackendOp.Answer

/-- The authority refused or failed. -/
def authFault : BackendEvent → Bool
  | ⟨.allow .auth, false⟩ => true
  | ⟨.authGet _, .error _⟩ => true
  | ⟨.authSaveIfAbsent _ _ _, .error _⟩ => true
  | _ => false

/-! ### The store -/

/-- `ResilientStore`, apart from its backends and their breakers. -/
structure ResilientStore where
  hasCache : Bool
  backfillTTL : ℤ

namespace ResilientStore

variable (store : ResilientStore)

/-- The breaker of a backend learns the outcome of a call. -/
def report {α : Type} (tier : Tier) : Except StoreError α → BackendOp
  | .error _ => .failure tier
  | .ok _ => .success tier

/-- A call on the cache, when there is one and its breaker allows it. -/
def whenCached {α : Type} (skip call : BackendProg α) : BackendProg α :=
  if store.hasCache then .call (.allow .cache) fun allowed => if allowed then call else skip
  else skip

/-- The end of `Get`, once the authority has a record: a failure to write it back is recorded, and
a success is not. -/
def backfill (payloadId : GoString) (record : Record) :
    BackendProg (Except StoreError (Option Record)) :=
  .call (.redisSet payloadId record store.backfillTTL) fun
    | .error _ => .call (.failure .cache) fun _ => .ret (.ok (some record))
    | .ok _ => .ret (.ok (some record))

/-- The part of `Get` that asks the authority. -/
def getAuth (payloadId : GoString) (cacheOK : Bool) :
    BackendProg (Except StoreError (Option Record)) :=
  .call (.allow .auth) fun allowed =>
    if !allowed then .ret (.error .failed)
    else .call (.authGet payloadId) fun
      | .error _ => .call (.failure .auth) fun _ => .ret (.error .failed)
      | .ok none => .call (.success .auth) fun _ => .ret (.ok none)
      | .ok (some record) => .call (.success .auth) fun _ =>
        if cacheOK then store.backfill payloadId record else .ret (.ok (some record))

/-- `Get`. -/
def get (payloadId : GoString) : BackendProg (Except StoreError (Option Record)) :=
  store.whenCached (store.getAuth payloadId false) <| .call (.redisGet payloadId) fun
    | .error _ => .call (.failure .cache) fun _ => store.getAuth payloadId false
    | .ok none => .call (.success .cache) fun _ => store.getAuth payloadId true
    | .ok (some record) => .call (.success .cache) fun _ => .ret (.ok (some record))

/-- `SaveIfAbsent`. -/
def saveIfAbsent (payloadId : GoString) (record : Record) (ttl : ℤ) :
    BackendProg (Except StoreError Bool) :=
  .call (.allow .auth) fun allowed =>
    if !allowed then .ret (.error .failed)
    else .call (.authSaveIfAbsent payloadId record ttl) fun
      | .error _ => .call (.failure .auth) fun _ => .ret (.error .failed)
      | .ok false => .call (.success .auth) fun _ => .ret (.ok false)
      | .ok true => .call (.success .auth) fun _ =>
        store.whenCached (.ret (.ok true)) <| .call (.redisSet payloadId record ttl) fun answer =>
          .call (report .cache answer) fun _ => .ret (.ok true)

/-- `RedisStore.MarkDemasked`. -/
def redisMarkDemasked (payloadId : GoString) (grace : ℤ) : BackendProg (Except StoreError Unit) :=
  .call (.redisGet payloadId) fun
    | .error e => .ret (.error e)
    | .ok none => .ret (.ok ())
    | .ok (some record) => .call .now fun now =>
      .call (.redisSet payloadId (record.demasked now) grace) .ret

/-- The part of `MarkDemasked` on the cache: a failure is recorded, and a success is not. -/
def markCache (payloadId : GoString) (grace : ℤ) : BackendProg (Except StoreError Unit) :=
  store.whenCached (.ret (.ok ())) <| (redisMarkDemasked payloadId grace).bind fun
    | .error _ => .call (.failure .cache) fun _ => .ret (.ok ())
    | .ok _ => .ret (.ok ())

/-- `MarkDemasked`. -/
def markDemasked (payloadId : GoString) (grace : ℤ) : BackendProg (Except StoreError Unit) :=
  .call (.allow .auth) fun allowed =>
    if allowed then .call (.authMarkDemasked payloadId grace) fun answer =>
      .call (report .auth answer) fun _ => store.markCache payloadId grace
    else store.markCache payloadId grace

/-- The store as an implementation of the calls of the service. -/
def serve : (op : ServiceOp) → BackendProg op.Answer
  | .get payloadId => store.get payloadId
  | .saveIfAbsent payloadId record ttl => store.saveIfAbsent payloadId record ttl
  | .markDemasked payloadId grace => store.markDemasked payloadId grace
  | .now => .call BackendOp.now .ret

/-- A program of the service over the resilient store. -/
def implement {α : Type} (p : ServiceProg α) : BackendProg α := p.translate store.serve

/-! ### What the answers of the store mean -/

variable {store} {h : List BackendEvent} {payloadId : GoString} {record : Record} {ttl grace : ℤ}

/-- A record was read. -/
def ReadRecord (payloadId : GoString) (record : Record) (h : List BackendEvent) : Prop :=
  ⟨.redisGet payloadId, .ok (some record)⟩ ∈ h ∨ ⟨.authGet payloadId, .ok (some record)⟩ ∈ h

theorem every_whenCached {α : Type} {Q : List BackendEvent → α → Prop} {skip call : BackendProg α}
    (hskip : ∀ h', h ⊆ h' → Prog.Every Q h' skip) (hcall : ∀ h', h ⊆ h' → Prog.Every Q h' call) :
    Prog.Every Q h (store.whenCached skip call) := by
  unfold whenCached
  split_ifs with hcache
  · intro allowed
    cases allowed with
    | false => exact hskip _ (List.subset_append_left _ _)
    | true => exact hcall _ (List.subset_append_left _ _)
  · exact hskip h (List.Subset.refl h)

theorem every_getAuth {cacheOK : Bool}
    {Q : List BackendEvent → Except StoreError (Option Record) → Prop}
    (hnone : ∀ h', h ⊆ h' → ⟨.authGet payloadId, .ok none⟩ ∈ h' → Q h' (.ok none))
    (hsome : ∀ h' record, h ⊆ h' → ReadRecord payloadId record h' → Q h' (.ok (some record)))
    (herror : ∀ h', h ⊆ h' → h'.any authFault = true → Q h' (.error .failed)) :
    Prog.Every Q h (store.getAuth payloadId cacheOK) := by
  intro allowed
  cases allowed with
  | false => exact herror _ (by simp) (by simp [authFault])
  | true =>
    intro answer
    match answer with
    | .error _ => exact fun _ => herror _ (by simp) (by simp [authFault])
    | .ok none => exact fun _ => hnone _ (by simp) (by simp)
    | .ok (some record) =>
      have hread (rest : List BackendEvent) : ReadRecord payloadId record
          (h ++ [⟨.allow .auth, true⟩] ++ [⟨.authGet payloadId, .ok (some record)⟩] ++ rest) :=
        .inr (by simp)
      intro _
      cases cacheOK with
      | false => exact hsome _ record (by simp) (hread _)
      | true =>
        intro written
        cases written with
        | error _ => exact fun _ => hsome _ record (by simp) (by simpa using hread _)
        | ok _ => exact hsome _ record (by simp) (by simpa using hread _)

/-- `Get` answers nothing only when the authority has no record, and fails only when the authority
does. -/
theorem every_get {Q : List BackendEvent → Except StoreError (Option Record) → Prop}
    (hnone : ∀ h', h ⊆ h' → ⟨.authGet payloadId, .ok none⟩ ∈ h' → Q h' (.ok none))
    (hsome : ∀ h' record, h ⊆ h' → ReadRecord payloadId record h' → Q h' (.ok (some record)))
    (herror : ∀ h', h ⊆ h' → h'.any authFault = true → Q h' (.error .failed)) :
    Prog.Every Q h (store.get payloadId) := by
  have hauth (cacheOK : Bool) (h' : List BackendEvent) (hh : h ⊆ h') :
      Prog.Every Q h' (store.getAuth payloadId cacheOK) :=
    every_getAuth (fun _ h₂ => hnone _ (List.Subset.trans hh h₂))
      (fun _ r h₂ => hsome _ r (List.Subset.trans hh h₂))
      fun _ h₂ => herror _ (List.Subset.trans hh h₂)
  refine every_whenCached (hauth false) fun h' hh answer => ?_
  match answer with
  | .error _ => exact fun _ => hauth false _ (List.Subset.trans hh (by simp))
  | .ok none => exact fun _ => hauth true _ (List.Subset.trans hh (by simp))
  | .ok (some record) =>
    exact fun _ => hsome _ record (List.Subset.trans hh (by simp)) (.inl (by simp))

/-- `SaveIfAbsent` answers only when the authority does, and fails only when the authority does. -/
theorem every_saveIfAbsent {Q : List BackendEvent → Except StoreError Bool → Prop}
    (hok : ∀ h' created, h ⊆ h' → ⟨.authSaveIfAbsent payloadId record ttl, .ok created⟩ ∈ h' →
      Q h' (.ok created))
    (herror : ∀ h', h ⊆ h' → h'.any authFault = true → Q h' (.error .failed)) :
    Prog.Every Q h (store.saveIfAbsent payloadId record ttl) := by
  intro allowed
  cases allowed with
  | false => exact herror _ (by simp) (by simp [authFault])
  | true =>
    intro answer
    match answer with
    | .error _ => exact fun _ => herror _ (by simp) (by simp [authFault])
    | .ok false => exact fun _ => hok _ false (by simp) (by simp)
    | .ok true =>
      intro _
      refine every_whenCached (fun h' hh => hok h' true ?_ (hh (by simp))) fun h' hh _ _ =>
        hok _ true ?_ ?_
      · exact fun _ hmem => hh (by simp [hmem])
      · exact fun _ hmem => List.mem_append_left _ (List.mem_append_left _ (hh (by simp [hmem])))
      · exact List.mem_append_left _ (List.mem_append_left _ (hh (by simp)))

theorem every_markCache {Q : List BackendEvent → Except StoreError Unit → Prop}
    (hok : ∀ h', h ⊆ h' → Q h' (.ok ())) :
    Prog.Every Q h (store.markCache payloadId grace) := by
  refine every_whenCached hok fun h' hh => ?_
  refine Prog.Every.bind fun answer => ?_
  have hdone (h'' : List BackendEvent) (hh' : h' ⊆ h'') (written : Except StoreError Unit) :
      Prog.Every Q h'' (match written with
        | .error _ => .call (.failure .cache) fun _ => .ret (.ok ())
        | .ok _ => .ret (.ok ())) := by
    cases written with
    | error _ => exact fun _ => hok _ (List.Subset.trans (List.Subset.trans hh hh') (by simp))
    | ok _ => exact hok _ (List.Subset.trans hh hh')
  match answer with
  | .error e => exact hdone _ (by simp) (.error e)
  | .ok none => exact hdone _ (by simp) (.ok ())
  | .ok (some record) => exact fun now written => hdone _ (by simp) written

/-- `MarkDemasked` never fails. -/
theorem every_markDemasked {Q : List BackendEvent → Except StoreError Unit → Prop}
    (hok : ∀ h', h ⊆ h' → Q h' (.ok ())) :
    Prog.Every Q h (store.markDemasked payloadId grace) := by
  intro allowed
  cases allowed with
  | false => exact every_markCache fun h' hh => hok h' (List.Subset.trans (by simp) hh)
  | true => exact fun _ _ => every_markCache fun h' hh => hok h' (List.Subset.trans (by simp) hh)

end ResilientStore

/-! ### What a reply means -/

/-- A transformation without mappings changes nothing. -/
theorem text_eq_of_mappings_eq_nil (rt : GoRuntime) {text : GoString} {decided : List Decided}
    {mode : Mode} {sessionSeed : GoString} {tr : Transform}
    (htr : buildTransform rt text decided mode sessionSeed = .ok tr) (hnil : tr.mappings = []) :
    tr.text = text := by
  obtain ⟨ms, hms, hmappings⟩ := mappings_of_buildTransform rt htr
  obtain rfl : ms = [] := List.map_eq_nil_iff.1 (hmappings.symm.trans hnil)
  have hspans : rt.sortSlice (fun a b : Span => decide (a.s < b.s)) [] = [] :=
    List.perm_nil.1 (rt.sortSlice_perm _ _)
  have hslice : Go.slice text 0 text.length = .ok text := by
    simpa using Go.slice_to_end text (Nat.zero_le _)
  simp only [buildTransform, hms, applyMappings, mentionSpans, List.flatMap_nil, hspans,
    writeSpans, hslice] at htr
  cases htr
  rfl

namespace Service

variable (svc : Service)

/-- Masking `payload` with one of the seeds that are used for a request turns it into `tr`. -/
def Transforms (request : Request) (tr : Transform) : Prop :=
  svc.transform request.payload request.payloadId = .ok tr ∨
    svc.transform request.payload (str "degraded") = .ok tr

/-- **What a reply means**, in terms of the calls that the request made and the answers that it
got. -/
def Accounts (request : Request) (h : List BackendEvent) : Reply → Prop
  | .ok (text, .mask) =>
    -- the authority had no record when it was read, and did not fail the save; whether it has taken
    -- this record or kept that of another request is not looked at
    ⟨.authGet request.payloadId, .ok none⟩ ∈ h ∧ ∃ tr now created,
      svc.transform request.payload request.payloadId = .ok tr ∧ text = tr.text ∧
        ⟨.authSaveIfAbsent request.payloadId (svc.newRecord request.payload tr now) svc.ttl,
          .ok created⟩ ∈ h
  | .ok (text, .maskDegraded) =>
    -- the authority is lost, and there is nothing to mask
    h.any authFault = true ∧ text = request.payload ∧
      ∃ tr, svc.Transforms request tr ∧ tr.mappings = []
  | .ok (text, .retryMask) => ∃ record, ResilientStore.ReadRecord request.payloadId record h ∧
      svc.fingerprint request.payload = record.originalFingerprint ∧
        spliceOriginalToMasked request.payload record.occurrences = .ok text
  | .ok (text, .demask) => ∃ record, ResilientStore.ReadRecord request.payloadId record h ∧
      svc.fingerprint request.payload ≠ record.originalFingerprint ∧
        (if svc.fingerprint request.payload = record.transformedFingerprint then
          spliceMaskedToOriginal request.payload record.occurrences
        else fuzzyDemask request.payload record.mappings record.mode) = .ok text
  | .error .storageUnavailable =>
    -- the authority is lost, and the text may hold masks or there is something to mask
    h.any authFault = true ∧
      ((matchString tokenTrace request.payload || contains request.payload (str "**")) = true ∨
        ∃ tr, svc.Transforms request tr ∧ tr.mappings ≠ [])
  | .error (.fault _) => True

variable {svc} {store : ResilientStore} {request : Request} {h : List BackendEvent}

theorem every_answerFromRecord {record : Record}
    (hread : ResilientStore.ReadRecord request.payloadId record h) :
    Prog.Every (svc.Accounts request) h
      (store.implement (svc.answerFromRecord request.payload request.payloadId record)) := by
  have hdemask (result : Except Go.Fault GoString)
      (hresult : ∀ text h', h ⊆ h' → result = .ok text →
        svc.Accounts request h' (.ok (text, .demask))) :
      Prog.Every (svc.Accounts request) h
        (store.implement (svc.replyDemasked request.payloadId record result)) := by
    cases result with
    | error f => exact trivial
    | ok text =>
      rw [replyDemasked]
      split_ifs
      · exact Prog.Every.translate_call <|
          ResilientStore.every_markDemasked fun h' hh => hresult text h' hh rfl
      · exact hresult text h (List.Subset.refl h) rfl
  have hmono {h' : List BackendEvent} (hh : h ⊆ h') :
      ResilientStore.ReadRecord request.payloadId record h' :=
    hread.imp (fun hmem => hh hmem) fun hmem => hh hmem
  unfold answerFromRecord
  split_ifs with hfirst hsecond
  · cases hsplice : spliceOriginalToMasked request.payload record.occurrences with
    | error f => exact trivial
    | ok text => exact ⟨record, hread, hfirst, hsplice⟩
  · refine hdemask _ fun text h' hh hok => ⟨record, hmono hh, hfirst, ?_⟩
    rw [if_pos hsecond, hok]
  · refine hdemask _ fun text h' hh hok => ⟨record, hmono hh, hfirst, ?_⟩
    rw [if_neg hsecond, hok]

theorem accounts_answerWithoutStorage (hfault : h.any authFault = true) :
    svc.Accounts request h (svc.answerWithoutStorage request.payload) := by
  unfold answerWithoutStorage
  split_ifs with htrace
  · exact ⟨hfault, .inl htrace⟩
  · cases htransform : svc.transform request.payload (str "degraded") with
    | error f => exact trivial
    | ok tr =>
      dsimp only
      split_ifs with hmappings
      · exact ⟨hfault, .inr ⟨tr, .inr htransform, List.length_pos_iff.1 hmappings⟩⟩
      · exact ⟨hfault, rfl, tr, .inr htransform, List.length_eq_zero_iff.1 (by omega)⟩

theorem every_firstRequest (hnone : ⟨.authGet request.payloadId, .ok none⟩ ∈ h) :
    Prog.Every (svc.Accounts request) h
      (store.implement (svc.firstRequest request.payload request.payloadId)) := by
  cases htransform : svc.transform request.payload request.payloadId with
  | error f =>
    rw [firstRequest, htransform]
    exact trivial
  | ok tr =>
    rw [firstRequest, htransform]
    intro now
    refine Prog.Every.translate_call (ResilientStore.every_saveIfAbsent ?_ ?_)
    · exact fun h' created hh hsaved =>
        ⟨hh (List.mem_append_left _ hnone), tr, now, created, htransform, rfl, hsaved⟩
    · intro h' _ hfault
      by_cases hnil : tr.mappings = []
      · have htext : tr.text = request.payload := by
          rw [transform] at htransform
          exact text_eq_of_mappings_eq_nil svc.runtime htransform hnil
        have hnoPII : (svc.newRecord request.payload tr now).noPII = true := by
          simp [newRecord, hnil]
        rw [afterSave, hnoPII]
        exact ⟨hfault, htext, tr, .inl htransform, hnil⟩
      · have hnoPII : (svc.newRecord request.payload tr now).noPII = false := by
          simp [newRecord, hnil]
        rw [afterSave, hnoPII]
        exact ⟨hfault, .inr ⟨tr, .inl htransform, hnil⟩⟩

theorem every_process : Prog.Every (svc.Accounts request) h
    (store.implement (svc.process request.payload request.payloadId)) := by
  refine Prog.Every.translate_call (ResilientStore.every_get ?_ ?_ ?_)
  · exact fun h' _ hnone => every_firstRequest hnone
  · exact fun h' record _ hread => every_answerFromRecord hread
  · exact fun h' _ hfault => accounts_answerWithoutStorage hfault

variable (svc) (store)

/-- The requests over the resilient store, none of which has started yet. -/
def storePool {ι : Type*} (requests : ι → Request) :
    ι → Prog.Thread BackendOp BackendOp.Answer Reply :=
  fun i => Prog.start
    (store.implement (svc.process (requests i).payload (requests i).payloadId))

/-- **Every reply is accounted for**, whatever the backends and their breakers answer, and in
every interleaving of the requests: for a masked text the authority had no record and did not fail
the save of this one, a degraded answer is the payload itself, a restored text comes from a record
that was read, and a request is refused only when the authority is lost and the request needs
it. -/
theorem replies_accounted {ι σ : Type*} [DecidableEq ι] (requests : ι → Request)
    (backends : Sys σ BackendOp BackendOp.Answer) {s : σ}
    {c : σ × (ι → Prog.Thread BackendOp BackendOp.Answer Reply)}
    (hrun : Prog.Steps backends (s, svc.storePool store requests) c) {i : ι} {reply : Reply}
    (hi : (c.2 i).prog = .ret reply) : svc.Accounts (requests i) (c.2 i).hist reply :=
  Prog.Every.of_steps (Q := fun i => svc.Accounts (requests i)) hrun (fun _ => every_process) hi

/-- An authority that keeps its records, behind a cache that is down. -/
def respondWithoutCache : (op : BackendOp) → Records → op.Answer × Records
  | .allow _, s => (true, s)
  | .success _, s => ((), s)
  | .failure _, s => ((), s)
  | .authGet id, s => respond (.get id) s
  | .authSaveIfAbsent id record ttl, s => respond (.saveIfAbsent id record ttl) s
  | .authMarkDemasked id grace, s => respond (.markDemasked id grace) s
  | .redisGet _, s => (.error .failed, s)
  | .redisSet _ _ _, s => (.error .failed, s)
  | .now, s => (0, s)

/-- The requests with an address and with its token, one after the other. -/
def servedWithoutCache : Records × (Bool → Prog.Thread BackendOp BackendOp.Answer Reply) :=
  Prog.advances respondWithoutCache (List.replicate 13 false ++ List.replicate 12 true)
    (fun _ => none, tokenService.storePool ⟨true, 300⟩ mailAndToken)

theorem replies_accounted_mail :
    tokenService.Accounts (mailAndToken false) (servedWithoutCache.2 false).hist
        (.ok (str "<EMAIL_1>", .mask)) ∧
      tokenService.Accounts (mailAndToken true) (servedWithoutCache.2 true).hist
        (.ok (str "a@b.ru", .demask)) := by
  have hrun := Prog.steps_advances
    (S := ⟨fun op s a s' => respondWithoutCache op s = (a, s'), fun _ _ => False⟩)
    (fun _ _ => rfl)
    (List.replicate 13 false ++ List.replicate 12 true)
    (fun _ => none, tokenService.storePool ⟨true, 300⟩ mailAndToken)
  have hmask : (servedWithoutCache.2 false).prog.result? = some (.ok (str "<EMAIL_1>", .mask)) := by
    decide +kernel
  have hdemask : (servedWithoutCache.2 true).prog.result? = some (.ok (str "a@b.ru", .demask)) := by
    decide +kernel
  exact ⟨replies_accounted _ _ mailAndToken _ hrun (Prog.eq_ret_of_result? hmask),
    replies_accounted _ _ mailAndToken _ hrun (Prog.eq_ret_of_result? hdemask)⟩

end Service

end PiiProxy.GoService
