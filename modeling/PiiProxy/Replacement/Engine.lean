import PiiProxy.Replacement.Identity
import PiiProxy.Replacement.SyntheticValues

/-!
# The replacement engine

The transformation of a text under a list of decisions (`app/replacement/engine.py`): one mapping
for each entity, with a synthetic value that is fresh in the document or the entity's token; one
replacement for each occurrence, which may downgrade its entity to the token; and the forward
splice, which records each occurrence with its coordinates in both texts.

## Main definitions

* `aliasShapeCollides`, `chooseSurrogate`, `buildMapping`.
* `syntheticReplacement`, `occurrenceReplacement`.
* `Span`, `spliceSpans`, `buildTransformResult`.
-/

namespace PiiProxy

variable (rt : Runtime)

/-- `_NAME_TYPES`. -/
def PIIType.isNameType (t : PIIType) : Bool := t == .fullName || t == .cardholder

/-- `_entity_seed`. -/
def entitySeed (sessionSeed identityKey : Text) : ℕ :=
  rt.sha64 (sessionSeed ++ [':'] ++ identityKey)

/-- `_MAX_COLLISION_RETRIES`. -/
def maxCollisionRetries : ℕ := 20

/-- `_alias_shape_collides`: some two-word shape of the identity, in some case, is in the text. -/
def aliasShapeCollides (identity : Option Identity) (sourceText : Text) : Bool :=
  match identity with
  | none => false
  | some i =>
    let pairs := [(i.first, i.patronymic), (i.first, i.surname), (i.surname, i.first)].filter
      fun p => !p.1.isEmpty && !p.2.isEmpty
    pairs.any fun p => cases.any fun case =>
      PySeq.hasSub (inflectWord rt p.1 case (some i.gender) ++ [' '] ++
        inflectWord rt p.2 case (some i.gender)) sourceText

/-! ### One mapping for each entity -/

/-- The value and the identity drawn for a group with the given seed. -/
def drawSurrogate (group : EntityGroup) (seed : ℕ) : Except PyError (Text × Option Identity) :=
  if group.type.isNameType then do
    let drawn ← (fullNameInCase rt seed group.originalNominal group.gender .nomn).run' 0
    return (drawn.1, some drawn.2)
  else do
    let value ← (generic rt seed group.type group.originalNominal).run' 0
    return (value, none)

/-- The acceptance test of `_build_mapping`. -/
def acceptSurrogate (used : List Text) (sourceText : Text) (drawn : Text × Option Identity) :
    Bool :=
  !drawn.1.isEmpty && !used.contains drawn.1 && !PySeq.hasSub drawn.1 sourceText &&
    !aliasShapeCollides rt drawn.2 sourceText

/-- The retry loop of `_build_mapping`; `none` when the retry budget ran out. -/
def chooseSurrogate (group : EntityGroup) (seed : ℕ) (used : List Text) (sourceText : Text) :
    ℕ → Except PyError (Option (Text × Option Identity))
  | 0 => return none
  | budget + 1 => do
    let drawn ← drawSurrogate rt group seed
    if acceptSurrogate rt used sourceText drawn then return some drawn
    else chooseSurrogate group (seed + 1) used sourceText budget

/-- The known parts of the resolved person of a group. -/
def EntityGroup.originalIdentity (g : EntityGroup) : Option OriginalIdentity :=
  g.resolved.map fun p =>
    { surname := p.surfaces.lookup .surname
      first := p.surfaces.lookup .first
      patronymic := p.surfaces.lookup .patronymic
      gender := g.gender }

/-- `_build_mapping`, returning the mapping and the values used so far. -/
def buildMapping (group : EntityGroup) (sessionSeed : Text) (used : List Text)
    (sourceText : Text) : Except PyError (EntityMapping × List Text) := do
  let chosen ← chooseSurrogate rt group (entitySeed rt sessionSeed group.identityKey) used
    sourceText maxCollisionRetries
  let surrogate := (chosen.map Prod.fst).getD (tokenFor group.entityId)
  let identity := chosen.bind Prod.snd
  let mapping : EntityMapping :=
    { entityId := group.entityId
      type := group.type
      original := group.representativeValue
      token := tokenFor group.entityId
      synthetic := surrogate
      partialForm := partialMask rt.unicode group.type group.originalNominal
      originalNominal := some group.originalNominal
      syntheticNominal := some surrogate
      grammaticalCase := some (group.first.2.candidate.metadata.gramCase.getD .nomn)
      gender := group.gender
      aliases := sortedSet (group.decisions.map fun d => d.2.candidate.value)
      metadata :=
        { syntheticFallback := chosen.isNone
          syntheticIdentity := if group.type.isNameType then identity else none
          originalIdentity := group.originalIdentity
          aliasTypes := (group.resolved.map fun p =>
            p.aliasTypes.insertionSort fun a b => textLe a.value b.value = true).getD [] } }
  return (mapping, surrogate :: used)

/-- The mappings of all groups, in order, sharing the set of used values. -/
def buildMappings (sessionSeed sourceText : Text) :
    List EntityGroup → List Text → Except PyError (List (EntityGroup × EntityMapping))
  | [], _ => return []
  | g :: gs, used => do
    let built ← buildMapping rt g sessionSeed used sourceText
    let rest ← buildMappings sessionSeed sourceText gs built.2
    return (g, built.1) :: rest

/-! ### One replacement for each occurrence -/

/-- `_synthetic_replacement`. -/
def syntheticReplacement (d : PrivacyDecision) (mapping : EntityMapping) : Except PyError Text :=
  if mapping.metadata.syntheticFallback then .ok mapping.token
  else
    match mapping.type.isNameType, mapping.metadata.syntheticIdentity with
    | true, some identity =>
      let case := (d.candidate.metadata.gramCase.or mapping.grammaticalCase).getD .nomn
      if d.components ≠ [] then
        renderLikeMention rt d.candidate.value d.components identity case (some identity.gender)
      else
        .ok (inflectFullName rt identity.surname identity.first identity.patronymic case
          identity.gender)
    | _, _ => .ok mapping.synthetic

/-- `_occurrence_replacement`, returning the replacement and the mapping, which is downgraded to
its token when the rendering raises. -/
def occurrenceReplacement (mode : MaskingMode) (d : PrivacyDecision) (mapping : EntityMapping) :
    Text × EntityMapping :=
  match mode with
  | .partialMode => (partialMask rt.unicode d.candidate.type d.candidate.value, mapping)
  | .tokenMode => (mapping.token, mapping)
  | .syntheticMode =>
    match syntheticReplacement rt d mapping with
    | .error _ =>
      (mapping.token, { mapping with metadata := { mapping.metadata with
        syntheticFallback := true } })
    | .ok replacement =>
      if replacement = d.candidate.value then (mapping.token, mapping) else (replacement, mapping)

/-! ### The forward splice -/

/-- A span of the text with its replacement and the entity it belongs to. -/
structure Span where
  start : ℕ
  stop : ℕ
  replacement : Text
  entityId : Text

/-- The loop of `_splice_spans` from a cursor on; `offset` is the masked position minus the
original position, accumulated from left to right. -/
def spliceFrom (text : Text) : ℕ → ℤ → List Span → Text × List Occurrence
  | cursor, _, [] => (PySeq.slice text cursor text.length, [])
  | cursor, offset, sp :: spans =>
    let rest := spliceFrom text sp.stop
      (offset + (sp.replacement.length - (sp.stop - sp.start : ℤ))) spans
    (PySeq.slice text cursor sp.start ++ sp.replacement ++ rest.1,
      { entityId := sp.entityId
        originalStart := sp.start
        originalEnd := sp.stop
        maskedStart := sp.start + offset
        maskedEnd := sp.start + offset + sp.replacement.length
        original := PySeq.slice text sp.start sp.stop
        masked := sp.replacement } :: rest.2)

/-- `_splice_spans`. -/
def spliceSpans (text : Text) (spans : List Span) : Text × List Occurrence :=
  spliceFrom text 0 0 spans

/-! ### The transformation -/

/-- The state of the main loop of `build_transform_result`. -/
structure Placement where
  entries : List (EntityGroup × EntityMapping)
  spans : List Span := []
  detected : List DetectedEntity := []
  kept : List DetectedEntity := []

/-- The entry of the entity that decision `id` was grouped into, with its index and with the
decision as the group holds it. -/
def findEntry (entries : List (EntityGroup × EntityMapping)) (id : ℕ) :
    Option (ℕ × (EntityGroup × EntityMapping) × PrivacyDecision) :=
  entries.zipIdx.findSome? fun e => (e.1.1.decisions.lookup id).map (e.2, e.1, ·)

/-- One decision of the main loop. -/
def placeDecision (mode : MaskingMode) (st : Placement) (d : DecisionObject) :
    Except PyError Placement :=
  if !d.2.isPersonal then
    .ok { st with kept := st.kept ++ [⟨[], d.2, d.2.candidate.start, d.2.candidate.stop⟩] }
  else match findEntry st.entries d.1 with
    | none => .error (.keyError (showNat d.1))
    | some (i, (group, mapping), object) =>
      let replaced := occurrenceReplacement rt mode object mapping
      .ok
        { st with
          entries := st.entries.set i (group, replaced.2)
          detected := st.detected ++
            [⟨group.entityId, object, d.2.candidate.start, d.2.candidate.stop⟩]
          spans := st.spans ++
            [⟨d.2.candidate.start, d.2.candidate.stop, replaced.1, group.entityId⟩] }

/-- `build_transform_result`. -/
def buildTransformResult (text : Text) (decisions : List PrivacyDecision) (mode : MaskingMode)
    (sessionSeed : Text) : Except PyError TransformResult := do
  let objects := decisionObjects decisions
  let groups := groupPersonalDecisions rt.unicode objects
  let entries ← buildMappings rt sessionSeed text groups []
  let placed ← objects.foldlM (placeDecision rt mode) { entries := entries }
  let spliced := spliceSpans text (PySeq.sortedBy Span.start placed.spans)
  return {
    text := spliced.1
    mode := mode
    mappings := placed.entries.map Prod.snd
    detectedEntities := placed.detected
    keptEntities := placed.kept
    occurrences := spliced.2 }

end PiiProxy
