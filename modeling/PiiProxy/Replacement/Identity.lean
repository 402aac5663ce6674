import PiiProxy.EntityResolution.Resolver
import PiiProxy.Replacement.PartialMask

/-!
# Grouping decisions into entities

One entity for each logical identity, in the order of first appearance
(`app/replacement/identity.py`): person mentions go through entity resolution, everything else is
grouped by its identity key.

## Main definitions

* `EntityGroup` with its `type`, `gender` and `originalNominal`.
* `identityKeyFor`, `groupPersonalDecisions`.
-/

namespace PiiProxy

/-- A group of decisions about one entity. The source appends a decision to every group it
creates, so the first decision is a field of its own. -/
structure EntityGroup where
  entityId : Text
  identityKey : Text
  first : DecisionObject
  rest : List DecisionObject := []
  resolved : Option ResolvedPerson := none

namespace EntityGroup

variable (g : EntityGroup)

/-- `EntityGroup.decisions`. -/
def decisions : List DecisionObject := g.first :: g.rest

/-- `EntityGroup.type`. -/
def type : PIIType := g.first.2.candidate.type

/-- `EntityGroup.representative_value`. -/
def representativeValue : Text := g.first.2.candidate.value

/-- `EntityGroup.gender`. -/
def gender : Option Gender :=
  (g.resolved.bind ResolvedPerson.gender).or
    (g.decisions.findSome? fun d => d.2.candidate.metadata.gender)

/-- The nominal form of the resolved person, when it is not empty. -/
def resolvedNominal : Option Text :=
  (g.resolved.map ResolvedPerson.nominal).filter fun n => !n.isEmpty

/-- `EntityGroup.original_nominal`. -/
def originalNominal : Text :=
  (g.resolvedNominal.or (g.decisions.findSome? fun d =>
    d.2.candidate.metadata.nominalForm.filter fun n => !n.isEmpty)).getD g.representativeValue

end EntityGroup

variable (u : Unicode)

/-- `identity_key_for`. -/
def identityKeyFor (d : PrivacyDecision) : Text :=
  match d.candidate.metadata.identityKey.filter fun k => !k.isEmpty with
  | some explicit => explicit
  | none => d.candidate.type.value ++ [':'] ++ u.lower (u.strip d.candidate.value)

/-- The number of groups whose entities carry the token prefix `p` so far: the counter of `p`. -/
abbrev Counters : Type := List (Text × ℕ)

/-- The state of the grouping loop. -/
structure Grouping where
  groups : List EntityGroup := []
  counters : Counters := []

/-- `counters[p] = counters.get(p, 0) + 1`. -/
def bumpCounter (counters : Counters) (p : Text) : Counters :=
  (p, (counters.lookup p).getD 0 + 1) :: counters.filter (·.1 ≠ p)

/-- The person that a decision was resolved to, with the annotated decision. -/
def resolvedBy (persons : List ResolvedPerson) (id : ℕ) :
    Option (ResolvedPerson × PrivacyDecision) :=
  persons.findSome? fun p => (p.decisions.lookup id).map (p, ·)

/-- One decision of the grouping loop. -/
def groupDecision (persons : List ResolvedPerson) (st : Grouping) (d : DecisionObject) :
    Grouping :=
  let resolved := resolvedBy persons d.1
  let object : DecisionObject := (d.1, (resolved.map Prod.snd).getD d.2)
  let key := match resolved with
    | some (p, _) => p.identityKey
    | none => identityKeyFor u d.2
  match st.groups.findIdx? (·.identityKey = key) with
  | some i =>
    { st with groups := st.groups.modify i fun g => { g with rest := g.rest ++ [object] } }
  | none =>
    let p := tokenPrefix d.2.candidate.type
    let counters := bumpCounter st.counters p
    { groups := st.groups ++ [{
        entityId := p ++ ['_'] ++ showNat ((counters.lookup p).getD 0)
        identityKey := key
        first := object
        resolved := resolved.map Prod.fst }]
      counters := counters }

/-- The decisions with their identities. -/
def decisionObjects (decisions : List PrivacyDecision) : List DecisionObject :=
  decisions.zipIdx.map Prod.swap

/-- `group_personal_decisions`. -/
def groupPersonalDecisions (decisions : List DecisionObject) : List EntityGroup :=
  let personal := decisions.filter (·.2.isPersonal)
  let persons := resolvePersonEntities u (personal.filter fun d =>
    d.2.candidate.type = .fullName ∧ d.2.components ≠ [])
  ((PySeq.sortedBy (fun d : DecisionObject => d.2.candidate.start) personal).foldl
    (groupDecision u persons) {}).groups

end PiiProxy
