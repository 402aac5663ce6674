import PiiProxy.Replacement.Morphology

/-!
# Structured name mentions

Role assignment, alias types and the shape-preserving rendering of
`app/entity_resolution/naming.py`. Rendering is a right-to-left splice over the offsets of the
components, so the punctuation, spacing and word order of the mention survive.

## Main definitions

* `assignRoles`, `aliasTypeFor`.
* `renderLikeMention`.
-/

namespace PiiProxy

/-- Whether a component is an initial. -/
def NameComponent.isInitial (c : NameComponent) : Bool :=
  match c.kind with
  | .initial _ => true
  | .word _ => false

/-- `assign_roles`: the roles of the words of a mention, duplicates and gaps being resolved by the
two common orders of Russian names. -/
def assignRoles (labels : List (Option Role)) (wordCount : ℕ) : List (Option Role) :=
  let taken := labels.reduceOption
  if taken.Nodup ∧ labels.all Option.isSome then labels
  else
    let patrIdx := labels.findIdx? (· == some Role.patronymic)
    if wordCount = 3 then
      if patrIdx = some 1 then [some .first, some .patronymic, some .surname]
      else [some .surname, some .first, some .patronymic]
    else if wordCount = 2 then
      match patrIdx with
      | some 0 => [some .patronymic, some .first]
      | some _ => [some .first, some .patronymic]
      | none =>
        if labels[0]?.join = some .surname ∧ labels[1]?.join ≠ some .surname then
          [some .surname, some .first]
        else [some .first, some .surname]
    else labels

/-- `alias_type_for`. -/
def aliasTypeFor (components : List NameComponent) : AliasType :=
  if components.any NameComponent.isInitial then .surnameInitials
  else
    let words := components.filter fun c => !c.isInitial
    if 3 ≤ words.length then .full
    else if words.any fun c => c.role == some Role.patronymic then .namePatronymic
    else .nameSurname

variable (rt : Runtime)

/-- The text that replaces one component: the initial of its part, or the inflected part. -/
def renderComponent (comp : NameComponent) (part : Text) (case : GramCase)
    (gender : Option Gender) : Text :=
  match comp.kind with
  | .initial _ => part.take 1 ++ ['.']
  | .word _ => inflectWord rt part case gender

/-- The loop of `render_like_mention`, over components in decreasing order of their offsets. -/
def renderComponents (identity : Identity) (case : GramCase) (gender : Option Gender) :
    List NameComponent → Text → Except PyError Text
  | [], result => .ok result
  | comp :: comps, result =>
    match comp.role with
    | none => .error (.valueError "unresolved name component role".toList)
    | some role =>
      let part := identity.part role
      if part.isEmpty then
        .error (.valueError ("synthetic identity missing part ".toList ++
          match role with
          | .surname => "surname".toList
          | .first => "first".toList
          | .patronymic => "patronymic".toList))
      else
        renderComponents identity case gender comps
          (PySeq.slice result 0 comp.offsetStart ++ renderComponent rt comp part case gender ++
            result.drop comp.offsetEnd)

/-- `render_like_mention`: substitute each component of the mention by the part of the identity
in its role, preserving the layout of the mention. The stable sort with `reverse=True` keeps
components with equal offsets in their order. -/
def renderLikeMention (mentionValue : Text) (components : List NameComponent)
    (identity : Identity) (case : GramCase) (gender : Option Gender) : Except PyError Text :=
  renderComponents rt identity case gender
    (PySeq.sortedBy (fun c => OrderDual.toDual c.offsetStart) components) mentionValue

end PiiProxy
