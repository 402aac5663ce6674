import PiiProxy.Core.ProcessService
import PiiProxy.Detectors.Builtin

/-!
# Concurrent requests for one payload id

Any number of `process` calls on one payload id, interleaved at single store calls over a store
whose operations are atomic and whose record does not expire. The slot of the payload id holds the
record and, as a ghost, the log of the records ever created. The law of the slot is that a created
record stays and only its grace fields change; each call of the service obeys it, so the answers
of all calls are answers from the one record that was created.

## Main definitions

* `Slot`, `atomicStore`: the slot of a payload id, and the atomic store seen from it.
* `ProcessService.SlotInv`, `SlotLaw`: the invariant of the slot and what may happen to it.
* `ProcessService.AnswersFrom`: what the answer of a finished call is, given the record.

## Main results

* `ProcessService.process_safe`: a call obeys the law and answers from the record.
* `ProcessService.process_concurrent`: one record, one masked text, losers with other content are
  refused, and the masked text is demasked to the original.
-/

namespace PiiProxy

/-! ### The atomic store seen from one payload id -/

/-- The record of a payload id and the records created for it so far. -/
structure Slot where
  record : Option MappingRecord := none
  created : List MappingRecord := []

/-- The operation is about the payload id. -/
def StoreOp.isAbout (payloadId : Text) : StoreOp → Bool
  | .get q => q == payloadId
  | .saveIfAbsent q _ _ => q == payloadId
  | .update q _ _ => q == payloadId
  | .delete q => q == payloadId
  | .markDemasked q _ => q == payloadId

/-- The effect of an operation about the payload id on its slot. -/
def Slot.handle : (op : StoreOp) → Slot → Except StoreFault op.Result → Slot → Prop
  | .get _, s, r, s' => r = .ok s.record ∧ s' = s
  | .saveIfAbsent _ record _, s, r, s' =>
    (s.record = none ∧ r = .ok true ∧ s' = ⟨some record, s.created ++ [record]⟩) ∨
      (s.record ≠ none ∧ r = .ok false ∧ s' = s)
  | .update _ record _, s, r, s' => r = .ok () ∧ s' = { s with record := some record }
  | .delete _, s, r, s' => r = .ok () ∧ s' = { s with record := none }
  | .markDemasked _ _, s, r, s' =>
    r = .ok () ∧ ∃ now, s' = { s with record := s.record.map (·.demasked now) }

/-- The store with atomic operations, seen from the slot of one payload id: the clock and the
operations about other ids leave the slot alone. -/
def atomicStore (payloadId : Text) : Sys Slot ServiceOp ServiceOp.Answer where
  handle
    | .store op, s, r, s' => if op.isAbout payloadId then Slot.handle op s r s' else s' = s
    | .time, s, _, s' => s' = s
  env _ _ := False

/-- What may happen to a slot: a created record stays the only one. -/
def SlotLaw (s s' : Slot) : Prop := s.created ≠ [] → s'.created = s.created

theorem law_slot (payloadId : Text) (I : Slot → Prop) :
    Prog.Law (atomicStore payloadId) I SlotLaw where
  refl _ _ := rfl
  trans h₁ h₂ hne := (h₂ (h₁ hne ▸ hne)).trans (h₁ hne)
  env _ he := he.elim

/-! ### The history of a call -/

/-- The call is a `save_if_absent` that found a record. -/
def lostSave : Prog.Event ServiceOp ServiceOp.Answer → Bool
  | ⟨.store (.saveIfAbsent _ _ _), .ok false⟩ => true
  | _ => false

/-- The call is a `get` that found no record. -/
def readAbsent : Prog.Event ServiceOp ServiceOp.Answer → Bool
  | ⟨.store (.get _), .ok none⟩ => true
  | _ => false

namespace ProcessService

/-! ### The law of the slot -/

section SlotOfService

variable (svc : ProcessService) (Y X : Set Text)

/-- Either nothing was created, or exactly one record, which is the record of a payload of `Y`
masked to a text of `X` and has changed only in its grace fields. -/
def SlotInv (s : Slot) : Prop :=
  s = ⟨none, []⟩ ∨ ∃ r₀ r, s = ⟨some r, [r₀]⟩ ∧ r.core = r₀.core ∧
    ∃ original ∈ Y, ∃ masked ∈ X, svc.IsRecordOf original masked r₀

/-- The answer `a` of a finished call about `payload` with the history `h`, given the record that
was created: a call about the original text returns the masked text or raises, a call about another
text that lost the creation is refused, and a call about the masked text returns the original,
unless it read before the creation. -/
def AnswersFrom (payload : Text) (consumerId : Option Text)
    (h : List (Prog.Event ServiceOp ServiceOp.Answer)) (a : Except ServiceError ProcessOutcome)
    (r₀ : MappingRecord) (original masked : Text) : Prop :=
  (payload = original → ∀ out, a = .ok out → out.result = masked) ∧
  (payload ≠ original → h.any lostSave = true → ∃ message, a = .error (.payloadConflict message)) ∧
  (payload = masked → masked ≠ original → r₀.demaskEnabled = true →
    (∃ consumer, svc.consumers.resolve consumerId = some consumer ∧ consumer.enabled = true ∧
      consumer.demask = true) →
    h.any readAbsent = false → ∃ out, a = .ok out ∧ out.result = original)

/-- The postcondition of a call: its answer is from the record, if one was created. -/
def Answered (payload : Text) (consumerId : Option Text)
    (h : List (Prog.Event ServiceOp ServiceOp.Answer)) (a : Except ServiceError ProcessOutcome)
    (s : Slot) : Prop :=
  ∀ r₀, s.created = [r₀] → ∀ original ∈ X, ∀ masked ∈ X, svc.IsRecordOf original masked r₀ →
    svc.AnswersFrom payload consumerId h a r₀ original masked

end SlotOfService

section Safety

variable {svc : ProcessService} {Y X : Set Text} {payload payloadId : Text}
  {consumerId : Option Text} {consumer : ConsumerConfig}
  {h : List (Prog.Event ServiceOp ServiceOp.Answer)} {s : Slot}

/-- A call of the service is safe: it obeys the law of the slot and answers from its record. -/
abbrev SafeCall (svc : ProcessService) (Y X : Set Text) (payload payloadId : Text)
    (consumerId : Option Text) :
    List (Prog.Event ServiceOp ServiceOp.Answer) →
      StoreProg (Except ServiceError ProcessOutcome) → Slot → Prop :=
  Prog.Safe (atomicStore payloadId) (svc.SlotInv Y X) SlotLaw (svc.Answered X payload consumerId)

/-- A created record stays. -/
private theorem created_eq {s' : Slot} {r₀ : MappingRecord} (hs : s.created = [r₀])
    (hlaw : SlotLaw s s') : s'.created = [r₀] := by
  rw [hlaw (by rw [hs]; exact List.cons_ne_nil _ _), hs]

/-- A `get` shows the record, which stays. -/
private theorem safe_get {k : Except StoreFault (Option MappingRecord) →
      StoreProg (Except ServiceError ProcessOutcome)}
    (hnone : SafeCall svc Y X payload payloadId consumerId
      (h ++ [⟨.store (.get payloadId), .ok none⟩])
      (k (.ok none)) ⟨none, []⟩)
    (hsome : ∀ r₀ r, r.core = r₀.core → svc.SlotInv Y X ⟨some r, [r₀]⟩ →
      SafeCall svc Y X payload payloadId consumerId (h ++ [⟨.store (.get payloadId), .ok (some r)⟩])
        (k (.ok (some r))) ⟨some r, [r₀]⟩) :
    SafeCall svc Y X payload payloadId consumerId h (.call (.store (.get payloadId)) k) s := by
  intro s₁ _ hI r s₂ hr
  simp only [atomicStore, StoreOp.isAbout, BEq.rfl, ↓reduceIte, Slot.handle] at hr
  obtain ⟨rfl, rfl⟩ := hr
  refine ⟨hI, (law_slot payloadId (svc.SlotInv Y X)).refl _, ?_⟩
  rcases hI with rfl | ⟨r₀, r, rfl, hcore, hrec⟩
  · exact hnone
  · exact hsome r₀ r hcore (.inr ⟨r₀, r, rfl, hcore, hrec⟩)

/-- The grace transition changes only the grace fields, and its result is ignored. -/
private theorem safe_transitionToGrace {a : Except ServiceError ProcessOutcome}
    {record r₀ : MappingRecord} (hs : s.created = [r₀])
    (ha : ∀ h', h'.any lostSave = h.any lostSave → h'.any readAbsent = h.any readAbsent →
      ∀ s' : Slot, s'.created = [r₀] → svc.Answered X payload consumerId h' a s') :
    SafeCall svc Y X payload payloadId consumerId h
      ((svc.transitionToGrace payloadId record).bind fun _ => .ret a) s := by
  unfold transitionToGrace
  split_ifs
  · exact fun s' hlaw _ => ha h rfl rfl s' (created_eq hs hlaw)
  · intro s₁ hlaw₁ hI r s₂ hr
    have hs₁ := created_eq hs hlaw₁
    simp only [atomicStore, StoreOp.isAbout, BEq.rfl, ↓reduceIte, Slot.handle] at hr
    obtain ⟨rfl, now, rfl⟩ := hr
    refine ⟨?_, fun _ => rfl, fun s' hlaw _ => ha _ ?_ ?_ s' (created_eq hs₁ hlaw)⟩
    · rcases hI with rfl | ⟨r₁, r, rfl, hcore, hrec⟩
      · exact .inl rfl
      · exact .inr ⟨r₁, r.demasked now, rfl, hcore, hrec⟩
    · simp only [List.any_append, List.any_cons, lostSave, List.any_nil, Bool.or_false]
    · simp only [List.any_append, List.any_cons, readAbsent, List.any_nil, Bool.or_false]

/-- An answer from the record is safe. -/
private theorem safe_answerFromRecord (hX : Set.InjOn svc.fingerprint X) (hpayload : payload ∈ X)
    (hresolve : svc.consumers.resolve consumerId = some consumer) {record r₀ : MappingRecord}
    (hcore : record.core = r₀.core) (hs : s.created = [r₀]) (hlost : h.any lostSave = false) :
    SafeCall svc Y X payload payloadId consumerId h
      (svc.answerFromRecord payload payloadId consumer record) s := by
  have hrecord {original masked : Text} (hr : svc.IsRecordOf original masked r₀) :
      svc.IsRecordOf original masked record := hr.of_core_eq hcore
  have henabled : record.demaskEnabled = r₀.demaskEnabled := by
    simp only [MappingRecord.core, MappingRecord.mk.injEq] at hcore
    exact hcore.2.2.2.2.2.2.1
  unfold answerFromRecord
  split_ifs with horig hoff htrans
  · intro s' hlaw _ r₁ hs' original horiginal masked _ hr
    obtain rfl : r₁ = r₀ := by simpa [created_eq hs hlaw] using hs'.symm
    have hpay : payload = original :=
      hX hpayload horiginal (horig.trans (hrecord hr).original)
    refine ⟨fun _ out hout => ?_, fun hne => absurd hpay hne, fun hpm hne => ?_⟩
    · cases hout
      rw [hpay]
      exact (hrecord hr).mask
    · exact absurd (hpm.symm.trans hpay) hne
  · intro s' hlaw _ r₁ hs' original horiginal masked _ hr
    obtain rfl : r₁ = r₀ := by simpa [created_eq hs hlaw] using hs'.symm
    refine ⟨fun hpay => ?_, fun _ hlost' => ?_, fun _ _ hon hcons => ?_⟩
    · exact absurd (hpay ▸ (hrecord hr).original.symm) horig
    · rw [hlost] at hlost'
      cases hlost'
    · obtain ⟨consumer', hresolve', -, hdemask⟩ := hcons
      obtain rfl : consumer = consumer' := Option.some.inj (hresolve.symm.trans hresolve')
      rw [henabled, hon, hdemask] at hoff
      cases hoff
  · refine safe_transitionToGrace hs fun h' hl' _ s' hs' r₁ hs₁ original horiginal masked _ hr => ?_
    obtain rfl : r₁ = r₀ := by simpa [hs'] using hs₁.symm
    refine ⟨fun hpay => ?_, fun _ hlost' => ?_, fun hpm _ _ _ _ => ⟨_, rfl, ?_⟩⟩
    · exact absurd (hpay ▸ (hrecord hr).original.symm) horig
    · rw [hl', hlost] at hlost'
      cases hlost'
    · rw [hpm]
      exact (hrecord hr).demask
  · have hother (h' : List (Prog.Event ServiceOp ServiceOp.Answer))
        (a : Except ServiceError ProcessOutcome) (hl' : h'.any lostSave = h.any lostSave)
        (s' : Slot) (hs' : s'.created = [r₀]) : svc.Answered X payload consumerId h' a s' := by
      intro r₁ hs₁ original horiginal masked _ hr
      obtain rfl : r₁ = r₀ := by simpa [hs'] using hs₁.symm
      refine ⟨fun hpay => ?_, fun _ hlost' => ?_, fun hpm => ?_⟩
      · exact absurd (hpay ▸ (hrecord hr).original.symm) horig
      · rw [hl', hlost] at hlost'
        cases hlost'
      · exact absurd (hpm ▸ (hrecord hr).transformed.symm) htrans
    split
    · exact fun s' hlaw _ => hother h _ rfl s' (created_eq hs hlaw)
    · exact safe_transitionToGrace hs fun h' hl' _ s' hs' => hother h' _ hl' s' hs'

/-- A loser answers from the stored record of the winner. -/
private theorem answered_winner (hX : Set.InjOn svc.fingerprint X) (hpayload : payload ∈ X)
    {record winner r₀ : MappingRecord}
    (hrecord : record.originalFingerprint = svc.fingerprint payload)
    (hcore : winner.core = r₀.core) (habsent : h.any readAbsent = true) {s' : Slot}
    (hs' : s'.created = [r₀]) :
    svc.Answered X payload consumerId h
      (answerFromWinner payload record (.ok (some winner))) s' := by
  intro r₁ hs₁ original horiginal masked _ hr
  obtain rfl := List.singleton_inj.mp (hs'.symm.trans hs₁)
  have hwinner := hr.of_core_eq hcore
  refine ⟨fun _ out hout => ?_, fun hne _ => ?_, fun _ _ _ _ habs => ?_⟩
  · simp only [answerFromWinner] at hout
    split_ifs at hout with hfp
    cases hout
    have hpay : payload = original := hX hpayload horiginal
      (hrecord.symm.trans ((not_not.mp hfp).symm.trans hwinner.original))
    rw [hpay]
    exact hwinner.mask
  · simp only [answerFromWinner]
    split_ifs with hfp
    · exact ⟨_, rfl⟩
    · exact absurd (hX hpayload horiginal
        (hrecord.symm.trans ((not_not.mp hfp).symm.trans hwinner.original))) hne
  · rw [habsent] at habs
    cases habs

/-- A first request is safe: the creator answers with what it stored, and a loser with the stored
record of the winner. -/
private theorem safe_firstRequest (hX : Set.InjOn svc.fingerprint X) (hY : Y ⊆ X)
    (hpayload : payload ∈ Y)
    (htext : ∀ R, svc.pipeline.process payload consumer.maskingMode consumer payloadId = .ok R →
      R.text ∈ X)
    (hlost : h.any lostSave = false) (habsent : h.any readAbsent = true) :
    SafeCall svc Y X payload payloadId consumerId h
      (svc.firstRequest payload payloadId consumer) s := by
  cases htransform : svc.pipeline.process payload consumer.maskingMode consumer payloadId with
  | error e =>
    simp only [firstRequest, htransform]
    intro s' _ _ r₀ _ original _ masked _ _
    refine ⟨fun _ out hout => (by cases hout), fun _ hlost' => ?_, fun _ _ _ _ habs => ?_⟩
    · rw [hlost] at hlost'
      cases hlost'
    · rw [habsent] at habs
      cases habs
  | ok transform =>
    rw [svc.firstRequest_eq_call htransform]
    intro s₁ _ hI₁ now s₂ hr
    obtain rfl : s₂ = s₁ := hr
    refine ⟨hI₁, fun _ => rfl, ?_⟩
    have hmine := svc.isRecordOf_buildRecord htransform consumer.demask now
    intro s₃ _ hI₃ r s₄ hr
    simp only [atomicStore, StoreOp.isAbout, BEq.rfl, ↓reduceIte, Slot.handle] at hr
    rcases hr with ⟨hnone, rfl, rfl⟩ | ⟨hne, rfl, rfl⟩
    · rcases hI₃ with rfl | ⟨r₀, r, rfl, -⟩
      · refine ⟨.inr ⟨_, _, rfl, rfl, payload, hpayload, _, htext _ htransform, hmine⟩,
          fun hne => absurd rfl hne, ?_⟩
        intro s' hlaw _ r₀ hs' original horiginal masked _ hr
        obtain rfl := List.singleton_inj.mp ((created_eq rfl hlaw).symm.trans hs')
        have hpay : payload = original :=
          hX (hY hpayload) horiginal (hmine.original.symm.trans hr.original)
        refine ⟨fun _ out hout => ?_, fun hne => absurd hpay hne, fun _ _ _ _ habs => ?_⟩
        · cases hout
          rw [← hr.mask, ← hpay]
          exact hmine.mask.symm
        · rw [List.any_append, List.any_append, habsent] at habs
          cases habs
      · cases hnone
    · refine ⟨hI₃, fun _ => rfl, ?_⟩
      intro s₅ hlaw₅ hI₅ r s₆ hr
      simp only [atomicStore, StoreOp.isAbout, BEq.rfl, ↓reduceIte, Slot.handle] at hr
      obtain ⟨rfl, rfl⟩ := hr
      refine ⟨hI₅, fun _ => rfl, ?_⟩
      rcases hI₃ with rfl | ⟨r₀, r, rfl, -⟩
      · exact absurd rfl hne
      · have hcreated : s₆.created = [r₀] := created_eq rfl hlaw₅
        rcases hI₅ with rfl | ⟨r₀', winner, rfl, hcore, -⟩
        · cases hcreated
        · intro s' hlaw _
          refine answered_winner hX (hY hpayload) hmine.original hcore ?_ (created_eq rfl hlaw)
          rw [List.any_append, List.any_append, List.any_append, habsent]
          rfl

/-- **A call of the service is safe.** It obeys the law of the slot, and its answer is an answer
from the record that was created. -/
theorem process_safe (hX : Set.InjOn svc.fingerprint X) (hY : Y ⊆ X) (hpayload : payload ∈ Y)
    (htext : ∀ consumer R,
      svc.pipeline.process payload consumer.maskingMode consumer payloadId = .ok R → R.text ∈ X) :
    SafeCall svc Y X payload payloadId consumerId []
      (svc.process payload payloadId consumerId) s := by
  have hraise (error : ServiceError)
      (hno : ¬ ∃ consumer, svc.consumers.resolve consumerId = some consumer ∧
        consumer.enabled = true ∧ consumer.demask = true) :
      SafeCall svc Y X payload payloadId consumerId [] (.ret (.error error)) s := by
    intro s' _ _ r₀ _ original _ masked _ _
    refine ⟨fun _ out hout => (by cases hout), fun _ hlost => (by cases hlost), ?_⟩
    exact fun _ _ _ hcons _ => absurd hcons hno
  cases hresolve : svc.consumers.resolve consumerId with
  | none =>
    simp only [process, hresolve]
    refine hraise _ ?_
    rintro ⟨consumer, hresolve', -⟩
    rw [hresolve] at hresolve'
    cases hresolve'
  | some consumer =>
    cases henabled : consumer.enabled with
    | false =>
      simp only [process, hresolve, henabled, Bool.not_false, ↓reduceIte]
      refine hraise _ ?_
      rintro ⟨consumer', hresolve', henabled', -⟩
      obtain rfl : consumer = consumer' := Option.some.inj (hresolve.symm.trans hresolve')
      rw [henabled'] at henabled
      cases henabled
    | true =>
      rw [svc.process_eq_call hresolve henabled]
      refine safe_get ?_ fun r₀ r hcore hinv => ?_
      · exact safe_firstRequest hX hY hpayload (htext consumer) rfl rfl
      · exact safe_answerFromRecord hX (hY hpayload) hresolve hcore rfl rfl

end Safety

/-! ### Concurrent calls -/

/-- A request for the payload id. -/
structure Call where
  payload : Text
  consumerId : Option Text

/-- The payloads of the calls and the texts that masking turns them into. -/
def runTexts {ι : Type*} (svc : ProcessService) (payloadId : Text) (calls : ι → Call) :
    Set Text :=
  {t | ∃ i, t = (calls i).payload ∨ ∃ consumer R, svc.pipeline.process (calls i).payload
    consumer.maskingMode consumer payloadId = .ok R ∧ t = R.text}

/-- The calls, none of which has started yet. -/
def pool {ι : Type*} (svc : ProcessService) (payloadId : Text) (calls : ι → Call) :
    ι → Prog.Thread ServiceOp ServiceOp.Answer (Except ServiceError ProcessOutcome) :=
  fun i => Prog.start (svc.process (calls i).payload payloadId (calls i).consumerId)

/-- **Concurrent requests for one payload id.** Over every interleaving of any calls, with
fingerprints that do not collide on the texts of the run: at most one record is ever created and
stays, up to its grace fields; a call about its original text returns the masked text of the record
or raises; a call about another text that lost the creation raises `PayloadConflictError`; and a
call about the masked text with demasking enabled, none of whose reads came before the creation,
returns the original text. -/
theorem process_concurrent {ι : Type*} [DecidableEq ι] (svc : ProcessService) (payloadId : Text)
    (calls : ι → Call) (hfp : Set.InjOn svc.fingerprint (svc.runTexts payloadId calls))
    {c : Slot × (ι → Prog.Thread ServiceOp ServiceOp.Answer (Except ServiceError ProcessOutcome))}
    (hrun : Prog.Steps (atomicStore payloadId) (⟨none, []⟩, svc.pool payloadId calls) c) :
    (c.1 = ⟨none, []⟩ ∨
      ∃ r₀ r, c.1 = ⟨some r, [r₀]⟩ ∧ r.core = r₀.core ∧
        ∃ original masked, (∃ i, (calls i).payload = original) ∧
          svc.IsRecordOf original masked r₀ ∧
          ∀ i a, (c.2 i).prog = .ret a →
            svc.AnswersFrom (calls i).payload (calls i).consumerId (c.2 i).hist a r₀
              original masked) ∧
      ∀ c', Prog.Steps (atomicStore payloadId) c c' → c.1.created ≠ [] →
        c'.1.created = c.1.created := by
  have hY : {t | ∃ i, (calls i).payload = t} ⊆ svc.runTexts payloadId calls :=
    fun t ⟨i, ht⟩ => ⟨i, .inl ht.symm⟩
  have hsafe (i : ι) : SafeCall svc {t | ∃ i, (calls i).payload = t}
      (svc.runTexts payloadId calls) (calls i).payload payloadId (calls i).consumerId
      (svc.pool payloadId calls i).hist (svc.pool payloadId calls i).prog ⟨none, []⟩ :=
    process_safe hfp hY ⟨i, rfl⟩ fun consumer R hR => ⟨i, .inr ⟨consumer, R, hR, rfl⟩⟩
  obtain ⟨hinv, -, hpool⟩ := hrun.safe (law_slot payloadId _) (.inl rfl) hsafe
  refine ⟨hinv.imp_right ?_, fun c' hrun' hne => ?_⟩
  · rintro ⟨r₀, r, hslot, hcore, original, ⟨i₀, hi₀⟩, masked, hmasked, hrec⟩
    refine ⟨r₀, r, hslot, hcore, original, masked, ⟨i₀, hi₀⟩, hrec, fun i a hi => ?_⟩
    have hanswered := hrun.post (law_slot payloadId _) (.inl rfl) hsafe hi
    exact hanswered r₀ (by rw [hslot]) original (hY ⟨i₀, hi₀⟩) masked hmasked hrec
  · exact (hrun'.safe (law_slot payloadId _) hinv hpool).2.1 hne

/-! ### A reader that comes before the creation -/

/-- When one call reads before the other call creates the record, and their texts differ, the first
one ends with a conflict. -/
private theorem exists_refused (svc : ProcessService) (payloadId : Text) (calls : Bool → Call)
    (consumer : ConsumerConfig)
    (hresolve : ∀ i, svc.consumers.resolve (calls i).consumerId = some consumer)
    (henabled : consumer.enabled = true) {R : Bool → TransformResult}
    (hR : ∀ i, svc.pipeline.process (calls i).payload consumer.maskingMode consumer payloadId =
      .ok (R i))
    (hne : svc.fingerprint (calls false).payload ≠ svc.fingerprint (calls true).payload)
    (r₀ : MappingRecord) (hr₀ : r₀ = buildRecord svc.hashing (R false) (calls false).payload
      consumer.demask svc.secret 0) :
    ∃ c, Prog.Steps (atomicStore payloadId) (⟨none, []⟩, svc.pool payloadId calls) c ∧
      c.1 = ⟨some r₀, [r₀]⟩ ∧
      (c.2 true).prog = .ret (.error (.payloadConflict
        "payload_id already used for different content".toList)) := by
  have hstart (i : Bool) : (svc.pool payloadId calls i).prog =
      .call (.store (.get payloadId)) (svc.afterRead (calls i).payload payloadId consumer) :=
    svc.process_eq_call (hresolve i) henabled
  have hfirst (i : Bool) := svc.firstRequest_eq_call (hR i)
  have hget (t : Slot) : (atomicStore payloadId).handle (.store (.get payloadId)) t
    (.ok t.record) t := by
    simp [atomicStore, StoreOp.isAbout, Slot.handle]
  have hcreate : (atomicStore payloadId).handle (.store (.saveIfAbsent payloadId r₀ svc.ttl))
      ⟨none, []⟩ (.ok true) ⟨some r₀, [r₀]⟩ := by
    simp [atomicStore, StoreOp.isAbout, Slot.handle]
  have hlose (r : MappingRecord) : (atomicStore payloadId).handle
      (.store (.saveIfAbsent payloadId r svc.ttl)) ⟨some r₀, [r₀]⟩ (.ok false) ⟨some r₀, [r₀]⟩ := by
    simp [atomicStore, StoreOp.isAbout, Slot.handle]
  -- the second call reads that there is no record
  obtain ⟨c₁, hc₁, hs₁, ht₁, hf₁⟩ := Prog.Steps.extend (S := atomicStore payloadId)
    (c := (⟨none, []⟩, svc.pool payloadId calls)) .refl true (.store (.get payloadId)) (.ok none)
    ⟨none, []⟩ (hstart true) (hget ⟨none, []⟩)
  -- the first call reads and creates its record
  obtain ⟨c₂, hc₂, hs₂, hf₂, ht₂⟩ := hc₁.extend false (.store (.get payloadId)) (.ok none)
    ⟨none, []⟩ (by rw [hf₁ false (by decide)]; exact hstart false)
      (by rw [hs₁]; exact hget ⟨none, []⟩)
  obtain ⟨c₃, hc₃, hs₃, hf₃, ht₃⟩ := hc₂.extend false .time 0 ⟨none, []⟩
    (by rw [hf₂]; exact hfirst false) hs₂.symm
  rw [← hr₀] at hf₃
  obtain ⟨c₄, hc₄, hs₄, -, ht₄⟩ := hc₃.extend false
    (.store (.saveIfAbsent payloadId r₀ svc.ttl)) (.ok true) ⟨some r₀, [r₀]⟩ (by rw [hf₃])
    (by rw [hs₃]; exact hcreate)
  -- the second call finds the record of another text
  have htrue : c₄.2 true = c₁.2 true := by
    rw [ht₄ true (by decide), ht₃ true (by decide), ht₂ true (by decide)]
  obtain ⟨c₅, hc₅, hs₅, ht₅, -⟩ := hc₄.extend true .time 0 ⟨some r₀, [r₀]⟩
    (by rw [htrue, ht₁]; exact hfirst true) hs₄.symm
  obtain ⟨c₆, hc₆, hs₆, ht₆, -⟩ := hc₅.extend true
    (.store (.saveIfAbsent payloadId (buildRecord svc.hashing (R true) (calls true).payload
      consumer.demask svc.secret 0) svc.ttl)) (.ok false) ⟨some r₀, [r₀]⟩ (by rw [ht₅])
    (by rw [hs₅]; exact hlose _)
  obtain ⟨c₇, hc₇, hs₇, ht₇, -⟩ := hc₆.extend true (.store (.get payloadId)) (.ok (some r₀))
    ⟨some r₀, [r₀]⟩ (by rw [ht₆]; rfl) (by rw [hs₆]; exact hget _)
  refine ⟨c₇, hc₇, hs₇, ?_⟩
  rw [ht₇]
  have hfp : r₀.originalFingerprint ≠ (buildRecord svc.hashing (R true) (calls true).payload
      consumer.demask svc.secret 0).originalFingerprint := by
    rw [hr₀]
    exact hne
  simp only [answerFromWinner, if_pos hfp]

/-- A consumer that masks to tokens and may demask. -/
def tokenConsumer : ConsumerConfig where
  consumerId := "default".toList
  maskingMode := .tokenMode

/-- The service with the built-in pipeline and one consumer, which masks to tokens. -/
def tokenService : ProcessService where
  pipeline := builtinPipeline (basicRuntime 0 zero_lt_two_pow_64)
  demask text _ _ := .ok text
  consumers := { defaultConsumer := tokenConsumer }
  hashing := ⟨id, fun _ => id⟩
  ttl := 3600

/-- A document with an e-mail address and the document that masking turns it into. -/
def mailPair : Bool → Text
  | false => "mail a@b.ru".toList
  | true => "mail <EMAIL_1>".toList

private theorem process_mailPair (i : Bool) :
    ∃ R, tokenService.pipeline.process (mailPair i) tokenConsumer.maskingMode tokenConsumer
      "p1".toList = .ok R ∧ R.text = mailPair true := by
  have h : ∀ i, ((tokenService.pipeline.process (mailPair i) tokenConsumer.maskingMode
      tokenConsumer "p1".toList).toOption.map TransformResult.text) = some (mailPair true) := by
    decide +kernel
  exact Pipeline.exists_process (h i)

/-- A call with the exact masked text, different from the original, and with demasking enabled,
that read before the record was created does not return the original: it raises
`PayloadConflictError`. -/
theorem process_concurrent_early_reader :
    ∃ c, Prog.Steps (atomicStore "p1".toList)
        (⟨none, []⟩, tokenService.pool "p1".toList fun i => ⟨mailPair i, none⟩) c ∧
      ∃ r₀, c.1 = ⟨some r₀, [r₀]⟩ ∧ r₀.demaskEnabled = true ∧ tokenConsumer.demask = true ∧
        tokenService.IsRecordOf (mailPair false) (mailPair true) r₀ ∧
        mailPair true ≠ mailPair false ∧
        ∃ message, (c.2 true).prog = .ret (.error (.payloadConflict message)) := by
  choose R hR htext using process_mailPair
  obtain ⟨c, hc, hs, hrefused⟩ := exists_refused tokenService "p1".toList
    (fun i => ⟨mailPair i, none⟩) tokenConsumer (fun _ => rfl) rfl hR (by decide) _ rfl
  have hrecord := tokenService.isRecordOf_buildRecord (hR false) tokenConsumer.demask 0
  rw [htext] at hrecord
  exact ⟨c, hc, _, hs, rfl, rfl, hrecord, by decide, _, hrefused⟩

/-- The case of two calls, one of which reads before the other creates the record. -/
theorem process_concurrent_two_calls :
    ∃ c, Prog.Steps (atomicStore "p1".toList)
        (⟨none, []⟩, tokenService.pool "p1".toList fun i => ⟨mailPair i, none⟩) c ∧
      c.1.created.length = 1 ∧
      ∃ r₀ r, c.1 = ⟨some r, [r₀]⟩ ∧ r.core = r₀.core ∧
        ∃ original masked, tokenService.IsRecordOf original masked r₀ ∧
          ∀ i a, (c.2 i).prog = .ret a →
            tokenService.AnswersFrom (mailPair i) none (c.2 i).hist a r₀ original masked := by
  choose R hR _ using process_mailPair
  obtain ⟨c, hc, hs, -⟩ := exists_refused tokenService "p1".toList
    (fun i => ⟨mailPair i, none⟩) tokenConsumer (fun _ => rfl) rfl hR (by decide) _ rfl
  have hfp : Set.InjOn tokenService.fingerprint
      (tokenService.runTexts "p1".toList fun i => ⟨mailPair i, none⟩) := fun _ _ _ _ h => h
  obtain ⟨hempty | ⟨r₀, r, hslot, hcore, original, masked, -, hrec, hanswers⟩, -⟩ :=
    process_concurrent tokenService "p1".toList (fun i => ⟨mailPair i, none⟩) hfp hc
  · rw [hs] at hempty
    cases hempty
  · exact ⟨c, hc, by rw [hs]; rfl, r₀, r, hslot, hcore, original, masked, hrec, hanswers⟩

end ProcessService

end PiiProxy
