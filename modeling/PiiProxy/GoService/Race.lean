import PiiProxy.GoService.Service

/-!
# Concurrent first requests in the Go service

`firstRequest` does not look at whether `SaveIfAbsent` created its record. A request that loses the
race to another content is answered with a text that nothing can restore. As long as no request
loses to another content, every masked text that is answered is that of the stored record.

## Main definitions

* `GoService.Request`, `GoService.Service.pool`: requests, and the pool of their programs.
* `GoService.SameContent`: the call does not lose to a record of another content.

## Main results

* `GoService.Service.process_safe`: what a request does to the records, and what it answers.
* `GoService.Service.answers_persisted`: no masked text without its record.
* `GoService.Service.lost_race`: two requests, and a masked text without its record.
-/

namespace PiiProxy.GoService

/-- A request for a payload id. -/
structure Request where
  payload : GoString
  payloadId : GoString
  deriving DecidableEq

/-- The call does not find a record of another content. -/
def SameContent : (op : ServiceOp) → Records → op.Answer → Records → Prop
  | .saveIfAbsent id record _, s, _, _ =>
    ∀ r, s id = some r → r.originalFingerprint = record.originalFingerprint
  | _, _, _, _ => True

/-- The records stay, but for the fields that demasking sets. -/
def RecordsLaw (s s' : Records) : Prop :=
  ∀ id r, s id = some r → ∃ r', s' id = some r' ∧ r'.core = r.core

theorem RecordsLaw.refl (s : Records) : RecordsLaw s s := fun _ r h => ⟨r, h, rfl⟩

theorem law_records (C : (op : ServiceOp) → Records → op.Answer → Records → Prop)
    (I : Records → Prop) : Prog.Law (atomicStore.restrict C) I RecordsLaw where
  refl := .refl
  trans h₁ h₂ id r h := by
    obtain ⟨r₁, hr₁, hcore₁⟩ := h₁ id r h
    obtain ⟨r₂, hr₂, hcore₂⟩ := h₂ id r₁ hr₁
    exact ⟨r₂, hr₂, hcore₂.trans hcore₁⟩
  env _ he := he.elim

namespace Service

variable (svc : Service) {ι : Type*} (requests : ι → Request)

/-- Every record is that of the masking of some request. -/
def RecordsInv (s : Records) : Prop :=
  ∀ id r, s id = some r → ∃ i tr, (requests i).payloadId = id ∧
    svc.IsRecordOf id (requests i).payload tr r

/-- A masked text that a first request answers is that of a record with the fingerprint of its
payload. -/
def Persisted (request : Request) (reply : Reply) (s : Records) : Prop :=
  ∀ text, reply = .ok (text, .mask) →
    (∃ tr, svc.transform request.payload request.payloadId = .ok tr ∧ tr.text = text) ∧
      ∃ r, s request.payloadId = some r ∧ r.originalFingerprint = svc.fingerprint request.payload

/-- A program that keeps the invariant of the records. -/
abbrev SafeProg (Q : Reply → Records → Prop) (p : ServiceProg Reply) (s : Records) : Prop :=
  ∀ h, Prog.Safe (atomicStore.restrict SameContent) (svc.RecordsInv requests) RecordsLaw
    (fun _ => Q) h p s

variable {svc} {requests} {s : Records}

/-- Marking a record changes nothing else. -/
theorem law_update_demasked (s : Records) (id : GoString) (now : ℤ) :
    RecordsLaw s (Function.update s id ((s id).map (·.demasked now))) := by
  intro id' r h
  by_cases heq : id' = id
  · subst heq
    exact ⟨r.demasked now, by rw [Function.update_self, h]; rfl, rfl⟩
  · exact ⟨r, by rw [Function.update_of_ne heq]; exact h, rfl⟩

theorem RecordsInv.demasked (hI : svc.RecordsInv requests s) (id : GoString) (now : ℤ) :
    svc.RecordsInv requests (Function.update s id ((s id).map (·.demasked now))) := by
  intro id' r' h
  by_cases heq : id' = id
  · subst heq
    rw [Function.update_self] at h
    obtain ⟨r, hr, rfl⟩ := Option.map_eq_some_iff.1 h
    obtain ⟨i, tr, hid, hrecord⟩ := hI id' r hr
    exact ⟨i, tr, hid, hrecord.of_core rfl⟩
  · rw [Function.update_of_ne heq] at h
    exact hI id' r' h

/-- A reply is safe when it is right from now on. -/
theorem safe_ret {Q : Reply → Records → Prop} {a : Reply} (hQ : ∀ s', RecordsLaw s s' → Q a s') :
    svc.SafeProg requests Q (.ret a) s := fun _ s' hlaw _ => hQ s' hlaw

/-- The reply with a demasked text is safe. -/
theorem safe_replyDemasked {Q : Reply → Records → Prop} {payloadId : GoString} {record : Record}
    {result : Except Go.Fault GoString}
    (herror : ∀ f, result = .error f → ∀ s', RecordsLaw s s' → Q (.error (.fault f)) s')
    (hok : ∀ text, result = .ok text → ∀ s', RecordsLaw s s' → Q (.ok (text, .demask)) s') :
    svc.SafeProg requests Q (svc.replyDemasked payloadId record result) s := by
  intro h
  cases result with
  | error f => exact safe_ret (herror f rfl) h
  | ok text =>
    rw [replyDemasked]
    split_ifs
    · intro s₁ hlaw hI r s₂ hr
      obtain ⟨⟨-, now, rfl⟩, -⟩ := hr
      have hnext := law_update_demasked s₁ payloadId now
      refine ⟨hI.demasked payloadId now, hnext, fun s' hlaw' _ => hok text rfl s' ?_⟩
      have hL := law_records SameContent (svc.RecordsInv requests)
      exact hL.trans hlaw (hL.trans hnext hlaw')
    · exact safe_ret (hok text rfl) h

/-- An answer from a record is safe: it has another direction than a first request. -/
theorem safe_answerFromRecord {request : Request} {record : Record} :
    svc.SafeProg requests (svc.Persisted request)
      (svc.answerFromRecord request.payload request.payloadId record) s := by
  unfold answerFromRecord
  have hdemask (result : Except Go.Fault GoString) : svc.SafeProg requests (svc.Persisted request)
      (svc.replyDemasked request.payloadId record result) s :=
    safe_replyDemasked (fun _ _ _ _ _ h => nomatch h) fun _ _ _ _ _ h => nomatch h
  split_ifs
  · refine safe_ret fun _ _ _ h => ?_
    split at h <;> cases h
  · exact hdemask _
  · exact hdemask _

/-- **A first request is safe**, as long as it does not lose to another content. -/
theorem safe_firstRequest {i : ι} :
    svc.SafeProg requests (svc.Persisted (requests i))
      (svc.firstRequest (requests i).payload (requests i).payloadId) s := by
  intro h
  cases htransform : svc.transform (requests i).payload (requests i).payloadId with
  | error f =>
    rw [firstRequest, htransform]
    exact safe_ret (fun _ _ _ h => nomatch h) h
  | ok tr =>
    rw [firstRequest, htransform]
    intro s₁ _ hI now s₂ hr
    obtain ⟨rfl, -⟩ := hr
    refine ⟨hI, .refl _, fun s₃ _ hI₃ r s₄ hr => ?_⟩
    obtain ⟨⟨hnone, rfl, rfl⟩ | ⟨hsome, rfl, rfl⟩, hsame⟩ := hr
    · -- the record is created
      have hget : Function.update s₃ (requests i).payloadId
          (some (svc.newRecord (requests i).payload tr now)) (requests i).payloadId =
            some (svc.newRecord (requests i).payload tr now) := Function.update_self _ _ _
      refine ⟨fun id r hr => ?_, fun id r hr => ?_, fun s' hlaw _ text htext => ?_⟩
      · by_cases hid : id = (requests i).payloadId
        · rw [hid] at hr ⊢
          obtain rfl := Option.some.inj (hget.symm.trans hr)
          exact ⟨i, tr, rfl, isRecordOf_newRecord htransform now⟩
        · rw [Function.update_of_ne hid] at hr
          exact hI₃ id r hr
      · have hid : id ≠ (requests i).payloadId := by
          rintro rfl
          rw [hnone] at hr
          cases hr
        exact ⟨r, by rw [Function.update_of_ne hid]; exact hr, rfl⟩
      · cases htext
        obtain ⟨r', hr', hcore⟩ := hlaw _ _ hget
        exact ⟨⟨tr, htransform, rfl⟩, r', hr', congrArg Record.originalFingerprint hcore⟩
    · -- another request has created it, with the same content
      refine ⟨hI₃, .refl _, fun s' hlaw _ text htext => ?_⟩
      cases htext
      obtain ⟨r, hr⟩ := Option.ne_none_iff_exists'.1 hsome
      obtain ⟨r', hr', hcore⟩ := hlaw _ _ hr
      exact ⟨⟨tr, htransform, rfl⟩, r', hr',
        (congrArg Record.originalFingerprint hcore).trans (hsame r hr)⟩

/-- **A request is safe.** -/
theorem process_safe {i : ι} :
    svc.SafeProg requests (svc.Persisted (requests i))
      (svc.process (requests i).payload (requests i).payloadId) s := by
  intro h s₁ _ hI r s₂ hr
  obtain ⟨⟨rfl, rfl⟩, -⟩ := hr
  refine ⟨hI, .refl _, ?_⟩
  cases s₂ (requests i).payloadId with
  | none => exact safe_firstRequest _
  | some record => exact safe_answerFromRecord _

/-- **A request with the masked text of a record is safe**, and restores the payload. -/
theorem process_masked_safe {payloadId payload : GoString} {tr : Transform} {r : Record}
    (hr : s payloadId = some r) (hrecord : svc.IsRecordOf payloadId payload tr r)
    (hne : svc.fingerprint tr.text ≠ svc.fingerprint payload) :
    svc.SafeProg requests (fun reply _ => reply = .ok (payload, .demask))
      (svc.process tr.text payloadId) s := by
  intro h s₁ hlaw hI a s₂ ha
  obtain ⟨⟨rfl, rfl⟩, -⟩ := ha
  obtain ⟨r', hr', hcore⟩ := hlaw _ _ hr
  refine ⟨hI, .refl _, ?_⟩
  rw [hr', afterGet, (hrecord.of_core hcore).demask hne]
  exact safe_replyDemasked (fun _ h => by cases h) (fun _ h _ _ => by cases h; rfl) _

/-! ### Runs -/

variable (svc) (requests)

/-- The requests, none of which has started yet. -/
def pool : ι → Prog.Thread ServiceOp ServiceOp.Answer Reply :=
  fun i => Prog.start (svc.process (requests i).payload (requests i).payloadId)

/-- The payloads of the requests and the texts that masking turns them into. -/
def runTexts : Set GoString :=
  {t | ∃ i, t = (requests i).payload ∨ ∃ tr,
    svc.transform (requests i).payload (requests i).payloadId = .ok tr ∧ t = tr.text}

variable {svc} {requests}

/-- **No masked text without its record.** In every run of concurrent requests in which no request
loses the creation of its record to another content: a masked text that a first request answers,
other than its payload, belongs to the record that is stored, and every later request with this text
restores the payload. -/
theorem answers_persisted [DecidableEq ι] (hfp : Set.InjOn svc.fingerprint (svc.runTexts requests))
    {c : Records × (ι → Prog.Thread ServiceOp ServiceOp.Answer Reply)}
    (hrun : Prog.Steps (atomicStore.restrict SameContent) (fun _ => none, svc.pool requests) c)
    {i : ι}
    {text : GoString} (hi : (c.2 i).prog = .ret (.ok (text, .mask)))
    (hne : text ≠ (requests i).payload) :
    (∃ r, c.1 (requests i).payloadId = some r ∧
      r.originalFingerprint = svc.fingerprint (requests i).payload) ∧
    ∀ c' j a, Prog.Steps (atomicStore.restrict SameContent) c c' →
      requests j = ⟨text, (requests i).payloadId⟩ → (c.2 j).hist = [] → (c'.2 j).prog = .ret a →
        a = .ok ((requests i).payload, .demask) := by
  have hL := law_records SameContent (svc.RecordsInv requests)
  have hempty : svc.RecordsInv requests fun _ => none := fun _ _ h => nomatch h
  have hsafe (k : ι) := @process_safe svc ι requests (fun _ => none) k []
  obtain ⟨hI, -, hpool⟩ := hrun.safe hL hempty hsafe
  obtain ⟨⟨tr, htransform, rfl⟩, r, hr, hpersisted⟩ := hrun.post hL hempty hsafe hi text rfl
  refine ⟨⟨r, hr, hpersisted⟩, fun c' j a hrun' hj hhist ha => ?_⟩
  -- the record is that of this very payload
  obtain ⟨k, tr', hk, hrecord⟩ := hI _ r hr
  have hpayload : (requests k).payload = (requests i).payload :=
    hfp ⟨k, .inl rfl⟩ ⟨i, .inl rfl⟩ (hrecord.originalFingerprint.symm.trans hpersisted)
  rw [hpayload] at hrecord
  obtain rfl : tr = tr' := Except.ok.inj (htransform.symm.trans hrecord.1)
  have hdiffer : svc.fingerprint tr.text ≠ svc.fingerprint (requests i).payload := fun heq =>
    hne (hfp ⟨i, .inr ⟨tr, htransform, rfl⟩⟩ ⟨i, .inl rfl⟩ heq)
  have hstart : c.2 j = Prog.start (svc.process (requests j).payload (requests j).payloadId) :=
    hrun.eq_of_hist_eq_nil hhist
  rw [hj] at hstart
  -- from here on the request `j` restores the payload, and the others keep the records
  let Q (k : ι) (reply : Reply) : Prop := k = j → reply = .ok ((requests i).payload, .demask)
  have hlater (k : ι) : Prog.Safe (atomicStore.restrict SameContent) (svc.RecordsInv requests)
      RecordsLaw (fun _ reply _ => Q k reply) (c.2 k).hist (c.2 k).prog c.1 := by
    by_cases hk : k = j
    · rw [hk, hstart]
      exact (process_masked_safe hr hrecord hdiffer _).mono fun _ _ _ _ hreply _ => hreply
    · exact (hpool k).mono fun _ _ _ _ _ heq => absurd heq hk
  exact hrun'.post hL hI hlater ha rfl

/-! ### Two requests -/

/-- A service in token mode whose fingerprints are the texts themselves. -/
def tokenService : Service where
  runtime := basicGoRuntime 5 (by decide)
  mode := .tokenMode
  secret := []
  ttl := 3600
  grace := 60

/-- The store answers as it can. -/
def respond : (op : ServiceOp) → Records → op.Answer × Records
  | .get id, s => (.ok (s id), s)
  | .saveIfAbsent id record _, s =>
    if (s id).isSome then (.ok false, s) else (.ok true, Function.update s id (some record))
  | .markDemasked id _, s => (.ok (), Function.update s id ((s id).map (·.demasked 0)))
  | .now, s => (0, s)

theorem handle_respond (op : ServiceOp) (s : Records) :
    Records.handle op s (respond op s).1 (respond op s).2 := by
  cases op with
  | get id => exact ⟨rfl, rfl⟩
  | saveIfAbsent id record ttl =>
    rw [respond]
    split_ifs with h
    · exact .inr ⟨Option.isSome_iff_ne_none.1 h, rfl, rfl⟩
    · exact .inl ⟨Option.not_isSome_iff_eq_none.1 h, rfl, rfl⟩
  | markDemasked id grace => exact ⟨rfl, 0, rfl⟩
  | now => rfl

/-- The call does not find a record. -/
def findsNone : ServiceOp → Records → Bool
  | .saveIfAbsent id _ _, s => (s id).isNone
  | _, _ => true

theorem sameContent_of_findsNone (op : ServiceOp) (s : Records) (h : findsNone op s = true) :
    (atomicStore.restrict SameContent).handle op s (respond op s).1 (respond op s).2 := by
  refine ⟨handle_respond op s, ?_⟩
  cases op with
  | saveIfAbsent id record ttl =>
    intro r hr
    rw [findsNone, hr] at h
    cases h
  | _ => trivial

/-- An address, and then its token, for one id. -/
def mailAndToken : Bool → Request
  | false => ⟨str "a@b.ru", str "p1"⟩
  | true => ⟨str "<EMAIL_1>", str "p1"⟩

/-- The first request is answered. -/
def answered : Records × (Bool → Prog.Thread ServiceOp ServiceOp.Answer Reply) :=
  Prog.advances respond [false, false, false] (fun _ => none, tokenService.pool mailAndToken)

theorem answers_persisted_mail :
    (∃ r, answered.1 (str "p1") = some r ∧ r.originalFingerprint = str "a@b.ru") ∧
    ∀ c' j a, Prog.Steps (atomicStore.restrict SameContent) answered c' →
      mailAndToken j = ⟨str "<EMAIL_1>", str "p1"⟩ → (answered.2 j).hist = [] →
        (c'.2 j).prog = .ret a → a = .ok (str "a@b.ru", .demask) := by
  have hfp : Set.InjOn tokenService.fingerprint (tokenService.runTexts mailAndToken) :=
    fun _ _ _ _ h => h
  have hrun := Prog.steps_of_checks sameContent_of_findsNone [false, false, false]
    (fun _ => none, tokenService.pool mailAndToken) (by decide +kernel)
  have hanswer : (answered.2 false).prog.result? = some (.ok (str "<EMAIL_1>", .mask)) := by
    decide +kernel
  have hne : str "<EMAIL_1>" ≠ (mailAndToken false).payload := by decide +kernel
  exact answers_persisted hfp hrun (Prog.eq_ret_of_result? hanswer) hne

/-- Two addresses for one id. -/
def twoMails : Bool → Request
  | false => ⟨str "a@b.ru", str "p1"⟩
  | true => ⟨str "c@d.ru", str "p1"⟩

/-- Both requests read before either stores its record. -/
def raced : Records × (Bool → Prog.Thread ServiceOp ServiceOp.Answer Reply) :=
  Prog.advances respond [false, true, false, false, true, true]
    (fun _ => none, tokenService.pool twoMails)

/-- **A masked text without its record**: the second request is answered "<EMAIL_1>", and the
request with this text returns the address of the first one. -/
theorem lost_race :
    Prog.Steps atomicStore (fun _ => none, tokenService.pool twoMails) raced ∧
      (raced.2 true).prog.result? = some (.ok (str "<EMAIL_1>", .mask)) ∧
      (raced.1 (str "p1")).map Record.originalFingerprint ≠
        some (tokenService.fingerprint (twoMails true).payload) ∧
      (Prog.simulate respond [] (tokenService.process (str "<EMAIL_1>") (str "p1")) raced.1).2.1 =
        .ok (str "a@b.ru", .demask) := by
  refine ⟨Prog.steps_advances handle_respond _ _, ?_⟩
  decide +kernel

end Service

end PiiProxy.GoService
