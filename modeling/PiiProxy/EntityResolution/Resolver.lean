import PiiProxy.EntityResolution.Naming

/-!
# In-document entity resolution

The conservative resolution of person mentions of `app/entity_resolution/resolver.py`: mentions are
taken in the order of their position and merged into the one established person they are
compatible with, or start a person of their own.

Decisions are objects with an identity in the source: their position in the list of decisions
is that identity here, and a decision is passed with it. The source annotates the roles of the
components of a mention in place; the annotated decision is the one that the person stores.

## Main definitions

* `DecisionObject`, `ResolvedPerson`, `ResolvedPerson.identityKey`, `ResolvedPerson.nominal`.
* `assignWord`, `matchWords`, `matchInitials`, `compatible`, `absorb`.
* `resolvePersonEntities`.
-/

namespace PiiProxy

/-- A decision with its identity. -/
abbrev DecisionObject : Type := ℕ × PrivacyDecision

/-- A dictionary in insertion order. -/
abbrev RoleDict : Type := List (Role × Text)

/-- A person with the knowledge accumulated across the mentions. -/
structure ResolvedPerson where
  ordinal : ℕ
  decisions : List DecisionObject := []
  /-- Role to normalized word. -/
  parts : RoleDict := []
  /-- Role to nominative capitalized surface. -/
  surfaces : RoleDict := []
  gender : Option Gender := none
  aliasTypes : List AliasType := []

/-- The roles in the order of canonical names. -/
def canonicalRoles : List Role := [.surname, .first, .patronymic]

/-- `ResolvedPerson.identity_key`. -/
def ResolvedPerson.identityKey (p : ResolvedPerson) : Text :=
  "person:".toList ++ ['|'].intercalate (canonicalRoles.map fun r => (p.parts.lookup r).getD []) ++
    ['#'] ++ showNat p.ordinal

/-- `ResolvedPerson.nominal`. -/
def ResolvedPerson.nominal (p : ResolvedPerson) : Text :=
  joinWords (canonicalRoles.filterMap fun r => p.surfaces.lookup r)

/-- The normalized form of a full word with a non-empty one. -/
def NameComponent.normalizedWord? (c : NameComponent) : Option Text :=
  match c.kind with
  | .word [] => none
  | .word normalized => some normalized
  | .initial _ => none

/-- `_mention_words`, each word with its normalized form. -/
def mentionWords (components : List NameComponent) : List (NameComponent × Text) :=
  components.filterMap fun c => c.normalizedWord?.map (c, ·)

/-- `_mention_initials`, each initial with its letter. -/
def mentionInitials (components : List NameComponent) : List (NameComponent × Char) :=
  components.filterMap fun c =>
    match c.kind with
    | .initial letter => some (c, letter)
    | .word _ => none

/-- `_gender_conflict`. -/
def genderConflict (a b : Option Gender) : Bool := a.isSome && b.isSome && a != b

/-- What matching a mention against a person has found so far: the roles of components by their
index, the roles of the person that were matched, and the roles that are new knowledge. -/
structure WordMatch where
  assignment : List (ℕ × Role) := []
  matchedRoles : List Role := []
  newInfo : List (ℕ × Role) := []

/-- `_assign_word`: place one full word; `none` means an unresolvable conflict. -/
def assignWord (entity : ResolvedPerson) (comp : NameComponent) (normalized : Text) (idx : ℕ)
    (m : WordMatch) : Option WordMatch :=
  match comp.role with
  | some role =>
    if role ∈ m.matchedRoles then none
    else match entity.parts.lookup role with
      | some known =>
        if known ≠ normalized then none
        else some { m with assignment := m.assignment ++ [(idx, role)],
                           matchedRoles := role :: m.matchedRoles }
      | none => some { m with newInfo := m.newInfo ++ [(idx, role)] }
  | none =>
    match entity.parts.find? fun rw => rw.2 = normalized ∧ rw.1 ∉ m.matchedRoles with
    | none => none
    | some (role, _) =>
      some { m with assignment := m.assignment ++ [(idx, role)],
                    matchedRoles := role :: m.matchedRoles }

/-- `_match_words`. -/
def matchWords (entity : ResolvedPerson) (components : List NameComponent) :
    List (NameComponent × Text) → WordMatch → Option WordMatch
  | [], m => some m
  | (comp, normalized) :: words, m =>
    (assignWord entity comp normalized (components.idxOf comp) m).bind
      (matchWords entity components words)

variable (u : Unicode)

/-- `_match_initials`: every initial must match the first letter of a known part, first name
before patronymic. -/
def matchInitials (entity : ResolvedPerson) (components : List NameComponent) :
    List Role → List (NameComponent × Char) → List (ℕ × Role) → Option (List (ℕ × Role))
  | _, [], assignment => some assignment
  | [], _ :: _, _ => none
  | role :: expected, (comp, letter) :: initials, assignment =>
    match entity.parts.lookup role with
    | none => none
    | some known =>
      if u.upper (known.take 1) ≠ u.upper [letter] then none
      else matchInitials entity components expected initials
        (assignment ++ [(components.idxOf comp, role)])

/-- `_compatible`: the roles of the components when the mention may be merged into the person. -/
def compatible (entity : ResolvedPerson) (components : List NameComponent)
    (gender : Option Gender) : Option (List (ℕ × Role)) :=
  if genderConflict entity.gender gender then none
  else
    let words := mentionWords components
    let initials := mentionInitials components
    match matchWords entity components words {} with
    | none => none
    | some m =>
      if Role.surname ∉ m.matchedRoles then none
      else if !initials.isEmpty then
        matchInitials u entity components [.first, .patronymic] initials m.assignment
      else if words.isEmpty ∨ (Role.first ∉ m.matchedRoles ∧ Role.patronymic ∉ m.matchedRoles) then
        none
      else some (m.assignment ++ m.newInfo)

/-- One new role of `_absorb`. -/
def learnPart (parts : RoleDict × RoleDict) (word : NameComponent × Text) : RoleDict × RoleDict :=
  match word.1.role with
  | none => parts
  | some role =>
    if (parts.1.lookup role).isSome then parts
    else (parts.1 ++ [(role, word.2)], parts.2 ++ [(role, u.capitalize word.2)])

/-- `_absorb`. -/
def absorb (entity : ResolvedPerson) (decision : DecisionObject) (components : List NameComponent)
    (gender : Option Gender) (aliasType : AliasType) : ResolvedPerson :=
  let learned := (mentionWords components).foldl (learnPart u) (entity.parts, entity.surfaces)
  { entity with
    decisions := entity.decisions ++ [decision]
    aliasTypes := if aliasType ∈ entity.aliasTypes then entity.aliasTypes
      else entity.aliasTypes ++ [aliasType]
    gender := if entity.gender.isNone then gender else entity.gender
    parts := learned.1
    surfaces := learned.2 }

/-- `_annotate_roles`. -/
def annotateRoles (components : List NameComponent) (assignment : List (ℕ × Role)) :
    List NameComponent :=
  assignment.foldl (fun cs a => cs.modify a.1 fun c => { c with role := some a.2 }) components

/-- `metadata.get("name_parts") or []`. -/
def PrivacyDecision.components (d : PrivacyDecision) : List NameComponent :=
  d.candidate.metadata.nameParts.getD []

/-- The decision with other components. -/
def PrivacyDecision.withComponents (d : PrivacyDecision) (components : List NameComponent) :
    PrivacyDecision :=
  { d with candidate := { d.candidate with
    metadata := { d.candidate.metadata with nameParts := some components } } }

/-- One mention of `resolve_person_entities`: merged into the one compatible person, else a new
person (none, or an ambiguous choice). -/
def resolveMention (entities : List ResolvedPerson) (decision : DecisionObject) :
    List ResolvedPerson :=
  let components := decision.2.components
  let gender := decision.2.candidate.metadata.gender
  let aliasType := decision.2.candidate.metadata.aliasType.getD .full
  let found := entities.zipIdx.filterMap fun e =>
    (compatible u e.1 components gender).map (e.2, ·)
  match found with
  | [(i, assignment)] =>
    let annotated := annotateRoles components assignment
    entities.modify i fun e =>
      absorb u e (decision.1, decision.2.withComponents annotated) annotated gender aliasType
  | _ =>
    entities ++ [absorb u { ordinal := entities.length + 1, gender := gender } decision components
      gender aliasType]

/-- `resolve_person_entities`. -/
def resolvePersonEntities (decisions : List DecisionObject) : List ResolvedPerson :=
  (PySeq.sortedBy (fun d : DecisionObject => d.2.candidate.start) decisions).foldl
    (resolveMention u) []

end PiiProxy
