import PiiProxy.Core.MaskTraces
import PiiProxy.Detectors.Builtin

/-!
# Requests without storage

What `process` answers when the mapping store is unreachable. The docstring of
`_answer_without_storage` promises to fail closed for every text that an earlier request may have
masked. The guard is a search for tokens and star runs, followed by a new detection. Token mode
always leaves a token; the masks and surrogates of the other modes may leave nothing that the guard
or the detectors see, and then the masked text is returned as if it held no personal data.

## Main definitions

* `unreachableStore`: the answers of a store that raises at every call.
* `ProcessService.RefusedWithoutStorage`: the request raises `StorageUnavailableError`.

## Main results

* `ProcessService.process_masked_refused_iff`: exactly which masked texts are refused.
-/

namespace PiiProxy

/-- The answers of a store that is unreachable. -/
def unreachableStore (message : Text) : (e : ServiceOp) → e.Answer
  | .store _ => .error (.unavailable message)
  | .time => 0

namespace ProcessService

variable (svc : ProcessService)

/-- Whatever the store says, the request raises `StorageUnavailableError` when the store is
unreachable. -/
def RefusedWithoutStorage (payload payloadId : Text) (consumerId : Option Text) : Prop :=
  ∀ message, ∃ reason,
    (svc.process payload payloadId consumerId).eval (unreachableStore message) =
      .error (.storageUnavailable reason)

/-- The detection in the text decides MASK for something, and masking it returns. -/
def StillMasked (text : Text) (consumer : ConsumerConfig) : Prop :=
  (∃ d ∈ (svc.pipeline.analyze text consumer).2, d.isPersonal = true) ∧
    ∃ R, svc.pipeline.process text consumer.maskingMode consumer "degraded".toList = .ok R

/-- `_answer_without_storage` raises `StorageUnavailableError` exactly for texts that show a trace
or in which something is still masked. -/
theorem answerWithoutStorage_refused_iff (text : Text) (consumer : ConsumerConfig) :
    (∃ reason, svc.answerWithoutStorage text consumer = .error (.storageUnavailable reason)) ↔
      svc.hasTrace text = true ∨ svc.StillMasked text consumer := by
  unfold answerWithoutStorage
  by_cases htrace : svc.hasTrace text = true
  · simp only [htrace, ↓reduceIte, true_or, iff_true]
    exact ⟨_, rfl⟩
  rw [if_neg htrace]
  simp only [htrace, false_or, StillMasked, Bool.false_eq_true]
  cases hR : svc.pipeline.process text consumer.maskingMode consumer "degraded".toList with
  | error e =>
    constructor
    · rintro ⟨reason, hreason⟩
      cases hreason
    · rintro ⟨-, R, hR'⟩
      cases hR'
  | ok R =>
    have hnil : R.mappings.isEmpty = true ↔
        ¬ ∃ d ∈ (svc.pipeline.analyze text consumer).2, d.isPersonal = true := by
      rw [List.isEmpty_iff, buildTransformResult_mappings_eq_nil_iff svc.pipeline.runtime hR,
        List.filter_eq_nil_iff]
      push Not
      exact Iff.rfl
    by_cases hempty : R.mappings.isEmpty = true
    · simp only [hempty, Bool.not_true, Bool.false_eq_true, ↓reduceIte]
      constructor
      · rintro ⟨reason, hreason⟩
        cases hreason
      · rintro ⟨hmask, -⟩
        exact absurd hmask (hnil.mp hempty)
    · simp only [hempty, Bool.not_false, ↓reduceIte]
      exact ⟨fun _ => ⟨not_not.mp fun h => hempty (hnil.mpr h), R, rfl⟩, fun _ => ⟨_, rfl⟩⟩

/-- **Masked texts without storage.** Let masking under the mode of the consumer change the
payload. With an unreachable store the request for the masked text is refused exactly when the masks
of the mode leave a trace, or the detection in the masked text still masks something. No letter has
a star or an angle bracket for a capital. -/
theorem process_masked_refused_iff (hu : svc.pipeline.runtime.unicode.ReadsText)
    (hupper : ∀ c, svc.pipeline.runtime.unicode.isAlpha c = true →
      Unmarked (svc.pipeline.runtime.unicode.upper [c]))
    {payload payloadId : Text} {consumerId : Option Text} {consumer : ConsumerConfig}
    (hresolve : svc.consumers.resolve consumerId = some consumer)
    (henabled : consumer.enabled = true) {R : TransformResult}
    (hR : svc.pipeline.process payload consumer.maskingMode consumer payloadId = .ok R)
    (hne : R.text ≠ payload) :
    svc.RefusedWithoutStorage R.text payloadId consumerId ↔
      R.MaskLeavesTrace svc.pipeline.runtime.unicode consumer.maskingMode payload
        (svc.pipeline.analyze payload consumer).2 ∨ svc.StillMasked R.text consumer := by
  have hanswer (message : Text) :
      (svc.process R.text payloadId consumerId).eval (unreachableStore message) =
        svc.answerWithoutStorage R.text consumer := by
    rw [svc.process_eq_call hresolve henabled]
    rfl
  simp only [RefusedWithoutStorage, hanswer, forall_const]
  rw [answerWithoutStorage_refused_iff, hasTrace_iff svc hu hupper hR hne]

/-! ### A mask without a trace -/

/-- A consumer that masks partially. -/
def partialConsumer : ConsumerConfig where
  consumerId := "default".toList
  maskingMode := .partialMode

/-- The service with the built-in pipeline and one consumer, which masks partially. -/
def partialService : ProcessService where
  pipeline := builtinPipeline (basicRuntime 0 zero_lt_two_pow_64)
  demask text _ _ := .ok text
  consumers := { defaultConsumer := partialConsumer }
  hashing := ⟨id, fun _ => id⟩
  ttl := 3600

/-- A document with the name of a card holder. -/
def holderDocument : Text := "держатель ИВАН ИВАНОВ".toList

/-- What partial masking turns `holderDocument` into. -/
def holderMasked : Text := "держатель И. И.".toList

private theorem process_holderDocument :
    ∃ R, partialService.pipeline.process holderDocument partialConsumer.maskingMode partialConsumer
      "p1".toList = .ok R ∧ R.text = holderMasked :=
  Pipeline.exists_process (by decide +kernel)

/-- Partial masking turns the card holder's name into initials, and without storage the masked
text is returned as a first request without personal data. -/
theorem process_masked_refused_holder :
    ∃ R, partialService.pipeline.process holderDocument partialConsumer.maskingMode partialConsumer
        "p1".toList = .ok R ∧ R.text = holderMasked ∧ R.text ≠ holderDocument ∧
      (partialService.process R.text "p1".toList none).eval (unreachableStore []) =
        .ok { result := R.text, direction := .mask } ∧
      ¬ partialService.RefusedWithoutStorage R.text "p1".toList none := by
  obtain ⟨R, hR, htext⟩ := process_holderDocument
  have hanswer : (partialService.process holderMasked "p1".toList none).eval
      (unreachableStore []) = .ok { result := holderMasked, direction := .mask } := by
    decide +kernel
  rw [← htext] at hanswer
  refine ⟨R, hR, htext, by rw [htext]; decide, hanswer, fun hrefused => ?_⟩
  obtain ⟨reason, hreason⟩ := hrefused []
  rw [hanswer] at hreason
  cases hreason

private theorem unmarked_upper_basicUnicode (c : Char) (hc : basicUnicode.isAlpha c = true) :
    Unmarked (basicUnicode.upper [c]) := by
  have hletter : (isBasicLower c || isBasicUpper c) = true := hc
  have hall : ∀ n ∈ List.range 1106, (isBasicLower (Char.ofNat n) || isBasicUpper (Char.ofNat n)) →
      Unmarked [basicUpper (Char.ofNat n)] := by decide +kernel
  have hlt : c.toNat < 1106 := by
    simp only [isBasicLower, isBasicUpper, Bool.or_eq_true, Bool.and_eq_true, decide_eq_true_eq,
      beq_iff_eq, UInt32.le_iff_toNat_le] at hletter
    have hz : 'z'.val.toNat = 122 := rfl
    have hya : 'я'.val.toNat = 1103 := rfl
    have hZ : 'Z'.val.toNat = 90 := rfl
    have hYa : 'Я'.val.toNat = 1071 := rfl
    rcases hletter with ((⟨-, h⟩ | ⟨-, h⟩) | rfl) | ((⟨-, h⟩ | ⟨-, h⟩) | rfl)
    · exact (h.trans hz.le).trans_lt (by decide)
    · exact (h.trans hya.le).trans_lt (by decide)
    · decide
    · exact (h.trans hZ.le).trans_lt (by decide)
    · exact (h.trans hYa.le).trans_lt (by decide)
    · decide
  have h := hall c.toNat (List.mem_range.2 hlt)
  rw [Char.ofNat_toNat] at h
  exact h hletter

/-- A document with the name of a card holder and an e-mail address. -/
def holderMailDocument : Text := "держатель ИВАН ИВАНОВ, ab@b.ru".toList

/-- The case of an e-mail address, which leaves star runs. -/
theorem process_masked_refused_mail :
    ∃ R, partialService.pipeline.process holderMailDocument partialConsumer.maskingMode
        partialConsumer "p1".toList = .ok R ∧ R.text = "держатель И. И., **@*.**".toList ∧
      partialService.RefusedWithoutStorage R.text "p1".toList none := by
  have hrun : ∃ R, partialService.pipeline.process holderMailDocument
      partialConsumer.maskingMode partialConsumer "p1".toList = .ok R ∧
        R.text = "держатель И. И., **@*.**".toList :=
    Pipeline.exists_process (by decide +kernel)
  obtain ⟨R, hR, htext⟩ := hrun
  have hne : R.text ≠ holderMailDocument := by
    rw [htext]
    decide
  -- the two characters before the `@` are hidden
  have hstars : [.hidden, .hidden] <:+: partialCells basicUnicode (valueSegments holderMailDocument
      (partialService.pipeline.analyze holderMailDocument partialConsumer).2) := by
    decide +kernel
  refine ⟨R, hR, htext, ?_⟩
  exact (@process_masked_refused_iff partialService basicUnicode_readsText
    unmarked_upper_basicUnicode _ _ none partialConsumer rfl rfl R hR hne).mpr
      (.inl (.inl ⟨.hidden, .hidden, hstars, rfl, rfl⟩))

end ProcessService

end PiiProxy
