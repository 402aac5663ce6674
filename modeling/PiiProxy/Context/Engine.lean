import PiiProxy.Context.Rules
import PiiProxy.Core.Pipeline

/-!
# The contextual privacy engine

`app/context/engine.py`: whether an occurrence is personal data in its context. Names and addresses
are scored by the keywords around them; every other type is personal by construction. The scores
that the source writes into the metadata of a candidate are read by no modelled function and are
left out.

## Main definitions

* `ContextualPrivacyEngine`, `ContextualPrivacyEngine.decide`, `ContextualPrivacyEngine.decider`.
-/

namespace PiiProxy

structure ContextualPrivacyEngine where
  unicode : Unicode
  windowChars : ℕ := 220
  emitUncertain : Bool := false

namespace ContextualPrivacyEngine

variable (e : ContextualPrivacyEngine)

/-- `[f"{label}:{h}" for h in hits]`. -/
private def labelled (label : String) (hits : List String) : List Text :=
  hits.map fun h => label.toList ++ [':'] ++ h.toList

/-- The decision when no signal is found. -/
private def noSignal (c : Candidate) : PrivacyDecision :=
  if e.emitUncertain then ⟨c, .uncertain, 1 / 2, ["no_context_uncertain".toList]⟩
  else ⟨c, .mask, 55 / 100, ["no_context_fail_safe".toList]⟩

/-- `_decide_full_name`. -/
def decideFullName (c : Candidate) (windowLower : Text) : PrivacyDecision :=
  let roleHits := countHits e.unicode windowLower personalRoles
  let actionHits := countHits e.unicode windowLower privateActions
  let bankHits := countHits e.unicode windowLower bankPrivateConcepts
  let strongPiiHits := countHits e.unicode windowLower strongRelatedPiiKeywords
  let publicHits := countHits e.unicode windowLower publicMarkers
  let isKnownPublic := c.metadata.knownPublicFigure
  let privateScore := roleHits.length * 2 + actionHits.length * 2 + bankHits.length +
    strongPiiHits.length * 3
  let publicScore := publicHits.length * 2 + if isKnownPublic then 2 else 0
  let reasons := labelled "role" roleHits ++ labelled "action" actionHits ++
    labelled "bank_concept" bankHits ++ labelled "strong_pii" strongPiiHits ++
    labelled "public_marker" publicHits ++
    if isKnownPublic then ["known_public_figure".toList] else []
  if 0 < privateScore then
    ⟨c, .mask, min (6 / 10 + privateScore / 10) (99 / 100),
      if reasons.isEmpty then ["private_context".toList] else reasons⟩
  else if 0 < publicScore then
    ⟨c, .keep, min (6 / 10 + publicScore / 10) (95 / 100),
      if reasons.isEmpty then ["public_context".toList] else reasons⟩
  else e.noSignal c

/-- `_decide_address`. -/
def decideAddress (c : Candidate) (windowLower : Text) : PrivacyDecision :=
  let orgHits := countHits e.unicode windowLower organizationalAddressMarkers ++
    countHits e.unicode (e.unicode.lower c.value) organizationalAddressMarkers
  let personalHits := countHits e.unicode windowLower personalAddressMarkers
  if !personalHits.isEmpty then
    ⟨c, .mask, min (6 / 10 + personalHits.length / 10) (97 / 100),
      labelled "personal" personalHits⟩
  else if !orgHits.isEmpty then
    ⟨c, .keep, min (6 / 10 + orgHits.length / 10) (95 / 100), labelled "organizational" orgHits⟩
  else e.noSignal c

/-- `decide`. Candidates of the pipeline have different spans, so `c is not candidate` is the
inequality of values. -/
def decide (text : Text) (c : Candidate) (allCandidates : List Candidate) : PrivacyDecision :=
  let otherSpans := (allCandidates.filter (· ≠ c)).map fun o => (o.start, o.stop)
  let window := attributedWindow text c.start c.stop otherSpans e.windowChars
  let windowLower := e.unicode.lower window
  match c.type with
  | .fullName => e.decideFullName c windowLower
  | .address => e.decideAddress c windowLower
  | _ => ⟨c, .mask, c.detectorConfidence, ["personal_by_construction".toList]⟩

private theorem noSignal_candidate (c : Candidate) : (e.noSignal c).candidate = c := by
  unfold noSignal
  split_ifs <;> rfl

theorem noSignal_decision (c : Candidate) :
    (e.noSignal c).decision = if e.emitUncertain then .uncertain else .mask := by
  unfold noSignal
  split_ifs <;> rfl

theorem decideFullName_candidate (c : Candidate) (windowLower : Text) :
    (e.decideFullName c windowLower).candidate = c := by
  simp only [decideFullName]
  split_ifs <;> first | rfl | exact e.noSignal_candidate c

theorem decideAddress_candidate (c : Candidate) (windowLower : Text) :
    (e.decideAddress c windowLower).candidate = c := by
  simp only [decideAddress]
  split_ifs <;> first | rfl | exact e.noSignal_candidate c

/-- The engine as a decider. -/
def decider : PrivacyDecider where
  decide := e.decide
  decide_candidate text c cs := by
    simp only [decide]
    split
    · exact e.decideFullName_candidate c _
    · exact e.decideAddress_candidate c _
    · rfl

end ContextualPrivacyEngine

end PiiProxy
