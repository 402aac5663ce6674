import PiiProxy.Context.Overlap
import PiiProxy.Policies.Engine
import PiiProxy.Replacement.Reversibility

/-!
# The masking pipeline

Detectors, overlap resolution, contextual decision, policy and replacement
(`app/core/pipeline.py`, `app/core/interfaces.py`, `app/detectors/registry.py`). A detector carries
the fact that it returns pieces of the text, and a decider the fact that it decides about the
candidate it was asked about, so every pipeline that can be built masks reversibly.

## Main definitions

* `CandidateDetector`, `DetectorRegistry`, `PrivacyDecider`.
* `Pipeline`, `Pipeline.analyze`, `Pipeline.process`.

## Main results

* `Pipeline.decisionsFit`: the final decisions are about disjoint pieces of the text.
* `Pipeline.process_describes`: the result of the pipeline describes edits of the text.
-/

namespace PiiProxy

/-- A detector that returns pieces of the text, or raises. -/
structure CandidateDetector where
  name : Text
  detect : Text → Except PyError (List Candidate)
  wellFormed : ∀ text cs, detect text = .ok cs → ∀ c ∈ cs, c.WellFormed text

/-- The registered detectors, in order. -/
abbrev DetectorRegistry : Type := List CandidateDetector

/-- `DetectorRegistry.detect_all`: a detector that raises contributes nothing. -/
def DetectorRegistry.detectAll (registry : DetectorRegistry) (text : Text) : List Candidate :=
  registry.flatMap fun detector =>
    match detector.detect text with
    | .ok candidates => candidates
    | .error _ => []

theorem DetectorRegistry.wellFormed_of_mem_detectAll {registry : DetectorRegistry} {text : Text}
    {c : Candidate} (hc : c ∈ registry.detectAll text) : c.WellFormed text := by
  obtain ⟨detector, -, hmem⟩ := List.mem_flatMap.mp hc
  cases hdetect : detector.detect text with
  | error e =>
    rw [hdetect] at hmem
    cases hmem
  | ok cs =>
    rw [hdetect] at hmem
    exact detector.wellFormed text cs hdetect c hmem

/-- A decider that decides about the candidate it was asked about. -/
structure PrivacyDecider where
  decide : Text → Candidate → List Candidate → PrivacyDecision
  decide_candidate : ∀ text c cs, (decide text c cs).candidate = c

/-- `PrivacyDecider.decide_batch` with the candidates as their own context. -/
def PrivacyDecider.decideBatch (decider : PrivacyDecider) (text : Text)
    (candidates : List Candidate) : List PrivacyDecision :=
  candidates.map fun c => decider.decide text c candidates

/-- `PiiPipeline` with the rules of its policy engine. -/
structure Pipeline where
  runtime : Runtime
  detectors : DetectorRegistry
  decider : PrivacyDecider
  rules : List RelationshipRule := defaultRelationshipRules

namespace Pipeline

variable (p : Pipeline)

/-- `PiiPipeline.analyze`. -/
def analyze (text : Text) (consumer : ConsumerConfig) : List Candidate × List PrivacyDecision :=
  let candidates := resolveOverlaps (p.detectors.detectAll text)
  let decisions := p.decider.decideBatch text candidates
  (candidates, evaluatePolicy p.rules text decisions candidates consumer)

/-- `PiiPipeline.process`. -/
def process (text : Text) (mode : MaskingMode) (consumer : ConsumerConfig) (sessionSeed : Text) :
    Except PyError TransformResult :=
  buildTransformResult p.runtime text (p.analyze text consumer).2 mode sessionSeed

theorem analyze_candidates (text : Text) (consumer : ConsumerConfig) :
    (p.analyze text consumer).2.map PrivacyDecision.candidate =
      resolveOverlaps (p.detectors.detectAll text) := by
  simp only [analyze, evaluatePolicy_candidates, PrivacyDecider.decideBatch, List.map_map]
  refine (List.map_congr_left fun c _ => ?_).trans (List.map_id _)
  exact p.decider.decide_candidate text c _

/-- The final decisions are about disjoint pieces of the text. -/
theorem decisionsFit (text : Text) (consumer : ConsumerConfig) :
    DecisionsFit text (p.analyze text consumer).2 :=
  decisionsFit_of_resolveOverlaps (fun _ hc => DetectorRegistry.wellFormed_of_mem_detectAll hc)
    (p.analyze_candidates text consumer)

/-- The pipeline returns when the text of its result is given. -/
theorem exists_process {p : Pipeline} {text masked sessionSeed : Text} {mode : MaskingMode}
    {consumer : ConsumerConfig}
    (h : (p.process text mode consumer sessionSeed).toOption.map TransformResult.text =
      some masked) :
    ∃ R, p.process text mode consumer sessionSeed = .ok R ∧ R.text = masked := by
  cases hR : p.process text mode consumer sessionSeed with
  | error e =>
    rw [hR] at h
    cases h
  | ok R =>
    rw [hR] at h
    exact ⟨R, rfl, Option.some.inj h⟩

/-- The result of the pipeline describes edits of the text. -/
theorem process_describes {text : Text} {mode : MaskingMode} {consumer : ConsumerConfig}
    {sessionSeed : Text} {R : TransformResult}
    (h : p.process text mode consumer sessionSeed = .ok R) : ∃ es, R.Describes text es :=
  (buildTransformResult_describes p.runtime (p.decisionsFit text consumer) h).1

end Pipeline

end PiiProxy
