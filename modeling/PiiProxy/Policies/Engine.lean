import PiiProxy.Core.Models
import PiiProxy.Lib.PySeq

/-!
# The policy engine

From contextual decisions to final decisions (`app/policies/engine.py`,
`app/policies/relationship.py`): a relationship rule keeps a candidate whose partner is not nearby,
and the policy of the consumer keeps the types that it does not ask to mask.

## Main definitions

* `RelationshipRule`, `defaultRelationshipRules`, `isNearby`.
* `applyRelationshipRules`, `applyConsumerPolicy`, `evaluatePolicy`.

## Main results

* `evaluatePolicy_candidates`: the policy never moves a decision to another candidate.
-/

namespace PiiProxy

/-- A candidate of `whenType` stays masked only near a candidate of `requiresNearbyType`. -/
structure RelationshipRule where
  whenType : PIIType
  requiresNearbyType : PIIType
  windowChars : ℕ := 300

/-- `DEFAULT_RELATIONSHIP_RULES`. -/
def defaultRelationshipRules : List RelationshipRule :=
  [{ whenType := .pin, requiresNearbyType := .cardNumber, windowChars := 300 }]

/-- `is_nearby`: the gap is short and holds no blank line. -/
def isNearby (rule : RelationshipRule) (text : Text) (candidateStart candidateEnd otherStart
    otherEnd : ℕ) : Bool :=
  let gapLeft := min candidateEnd otherEnd
  let gapRight := max candidateStart otherStart
  if gapLeft < gapRight ∧ PySeq.hasSub ['\n', '\n'] (PySeq.slice text gapLeft gapRight) then false
  else
    decide (max (max ((candidateStart : ℤ) - otherEnd) ((otherStart : ℤ) - candidateEnd)) 0 ≤
      rule.windowChars)

/-- Some other candidate satisfies the rule. Candidates of the pipeline have different spans, so
`other is not decision.candidate` is the inequality of values. -/
def RelationshipRule.satisfied (rule : RelationshipRule) (text : Text) (c : Candidate)
    (allCandidates : List Candidate) : Bool :=
  (allCandidates.filter (· ≠ c)).any fun other =>
    other.type == rule.requiresNearbyType &&
      isNearby rule text c.start c.stop other.start other.stop

/-- `PolicyEngine._apply_relationship_rules`. -/
def applyRelationshipRules (rules : List RelationshipRule) (text : Text)
    (allCandidates : List Candidate) (d : PrivacyDecision) : PrivacyDecision :=
  if d.decision ≠ .mask then d
  else
    match rules.find? fun rule =>
      d.candidate.type == rule.whenType && !rule.satisfied text d.candidate allCandidates with
    | some rule =>
      { candidate := d.candidate
        decision := .keep
        confidence := 3 / 5
        reasons := d.reasons ++
          ["relationship_rule_unmet:".toList ++ rule.requiresNearbyType.value] }
    | none => d

/-- `PolicyEngine._apply_consumer_policy`. -/
def applyConsumerPolicy (consumer : ConsumerConfig) (d : PrivacyDecision) : PrivacyDecision :=
  if d.decision = .mask ∧ ¬ consumer.shouldMaskType d.candidate.type then
    { candidate := d.candidate
      decision := .keep
      confidence := d.confidence
      reasons := d.reasons ++ ["consumer_policy_excludes_type".toList] }
  else d

/-- `PolicyEngine.evaluate`. -/
def evaluatePolicy (rules : List RelationshipRule) (text : Text)
    (decisions : List PrivacyDecision) (allCandidates : List Candidate)
    (consumer : ConsumerConfig) : List PrivacyDecision :=
  (decisions.map (applyRelationshipRules rules text allCandidates)).map
    (applyConsumerPolicy consumer)

@[simp] theorem applyRelationshipRules_candidate (rules : List RelationshipRule) (text : Text)
    (allCandidates : List Candidate) (d : PrivacyDecision) :
    (applyRelationshipRules rules text allCandidates d).candidate = d.candidate := by
  unfold applyRelationshipRules
  split_ifs
  · rfl
  · split <;> rfl

@[simp] theorem applyConsumerPolicy_candidate (consumer : ConsumerConfig) (d : PrivacyDecision) :
    (applyConsumerPolicy consumer d).candidate = d.candidate := by
  unfold applyConsumerPolicy
  split_ifs <;> rfl

/-- The policy never moves a decision to another candidate. -/
theorem evaluatePolicy_candidates (rules : List RelationshipRule) (text : Text)
    (decisions : List PrivacyDecision) (allCandidates : List Candidate)
    (consumer : ConsumerConfig) :
    (evaluatePolicy rules text decisions allCandidates consumer).map PrivacyDecision.candidate =
      decisions.map PrivacyDecision.candidate := by
  rw [evaluatePolicy, List.map_map, List.map_map]
  refine List.map_congr_left fun d _ => ?_
  simp only [Function.comp_apply, applyConsumerPolicy_candidate, applyRelationshipRules_candidate]

end PiiProxy
