import Mathlib

/-!
# Redacted documents

A document is a sequence of pieces that are kept and of mentions of entities. Redaction shows a
mention by the label of its entity and by a number, which counts the entities of the label in the
order in which they appear first. So a redacted document shows the pieces, the labels, and which
mentions are of one entity, and nothing else of the entities.

## Main definitions

* `Redaction.Segment`, `Redaction.Names`: a document, and the names given to its entities.
* `Redaction.redact`: the redacted document.
* `Redaction.maskEach`: the document in which each mention is masked by itself.
* `Redaction.Alike`, `Redaction.Segment.AlikeBy`: two documents that differ in their entities only.

## Main results

* `Redaction.redact_eq_of_alike`, `Redaction.maskEach_eq_of_alikeBy`: documents that are alike are
  redacted alike.
-/

namespace Redaction

variable {α L K K' : Type*}

/-- A piece that is kept, or a mention of an entity. -/
inductive Segment (α L K : Type*) where
  | kept (piece : List α)
  | mention (label : L) (entity : K)
  deriving DecidableEq

/-- The entities that have a name: a label and a number. -/
abbrev Names (L K : Type*) : Type _ := List (K × L × ℕ)

namespace Names

variable [DecidableEq L]

/-- How many entities have the label. -/
def count (names : Names L K) (label : L) : ℕ := names.countP (·.2.1 = label)

variable [BEq K]

/-- The name of an entity: the one it has, or the next one of the label. -/
def nameOf (names : Names L K) (label : L) (entity : K) : L × ℕ :=
  (names.lookup entity).getD (label, names.count label + 1)

/-- The entity gets a name, if it has none. -/
def add (names : Names L K) (label : L) (entity : K) : Names L K :=
  match names.lookup entity with
  | some _ => names
  | none => (entity, label, names.count label + 1) :: names

end Names

/-- The redacted document, `token` showing a label and a number. -/
def redact [DecidableEq L] [BEq K] (token : L → ℕ → List α) :
    Names L K → List (Segment α L K) → List α
  | _, [] => []
  | names, .kept piece :: rest => piece ++ redact token names rest
  | names, .mention label entity :: rest =>
    token (names.nameOf label entity).1 (names.nameOf label entity).2 ++
      redact token (names.add label entity) rest

/-- The document with each mention masked by itself. -/
def maskEach (mask : L → K → List α) (segments : List (Segment α L K)) : List α :=
  segments.flatMap fun
    | .kept piece => piece
    | .mention label entity => mask label entity

/-! ### Documents that differ in their entities -/

/-- The pieces are equal, or the mentions have one label and their entities correspond. -/
inductive Segment.Alike (R : K → K' → Prop) : Segment α L K → Segment α L K' → Prop
  | kept (piece : List α) : Alike R (.kept piece) (.kept piece)
  | mention (label : L) {entity : K} {entity' : K'} (h : R entity entity') :
      Alike R (.mention label entity) (.mention label entity')

/-- The documents are equal up to a one-to-one correspondence of their entities. -/
def Alike (segments : List (Segment α L K)) (segments' : List (Segment α L K')) : Prop :=
  ∃ R : K → K' → Prop, Relator.BiUnique R ∧ List.Forall₂ (Segment.Alike R) segments segments'

variable [DecidableEq L] [BEq K] [LawfulBEq K] [BEq K'] [LawfulBEq K'] {R : K → K' → Prop}
  {names : Names L K} {names' : Names L K'}

/-- The names correspond. -/
abbrev Names.Alike (R : K → K' → Prop) (names : Names L K) (names' : Names L K') : Prop :=
  List.Forall₂ (fun n n' => R n.1 n'.1 ∧ n.2 = n'.2) names names'

omit [BEq K] [LawfulBEq K] [BEq K'] [LawfulBEq K'] in
theorem Names.Alike.count_eq (h : names.Alike R names') (label : L) :
    names.count label = names'.count label := by
  induction h with
  | nil => rfl
  | @cons n n' names names' hn _ ih =>
    rw [Names.count, Names.count, List.countP_cons, List.countP_cons, hn.2]
    exact congrArg (· + _) ih

omit [DecidableEq L] in
theorem Names.Alike.lookup_eq (hR : Relator.BiUnique R) (h : names.Alike R names') {entity : K}
    {entity' : K'} (hentity : R entity entity') :
    names.lookup entity = names'.lookup entity' := by
  induction h with
  | nil => rfl
  | @cons n n' names names' hn _ ih =>
    have hiff : entity = n.1 ↔ entity' = n'.1 :=
      ⟨fun heq => hR.2 hentity (heq ▸ hn.1), fun heq => hR.1 hentity (heq ▸ hn.1)⟩
    rw [List.lookup_cons, List.lookup_cons, ih, hn.2]
    by_cases heq : entity = n.1
    · rw [beq_iff_eq.2 heq, beq_iff_eq.2 (hiff.1 heq)]
    · rw [beq_false_of_ne heq, beq_false_of_ne fun h => heq (hiff.2 h)]

theorem Names.Alike.nameOf_eq (hR : Relator.BiUnique R) (h : names.Alike R names') {entity : K}
    {entity' : K'} (hentity : R entity entity') (label : L) :
    names.nameOf label entity = names'.nameOf label entity' := by
  rw [Names.nameOf, Names.nameOf, h.lookup_eq hR hentity, h.count_eq]

theorem Names.Alike.add (hR : Relator.BiUnique R) (h : names.Alike R names') {entity : K}
    {entity' : K'} (hentity : R entity entity') (label : L) :
    (names.add label entity).Alike R (names'.add label entity') := by
  rw [Names.add, Names.add, h.lookup_eq hR hentity]
  split
  · exact h
  · exact .cons ⟨hentity, by rw [h.count_eq]⟩ h

/-- What is redacted after corresponding names. -/
theorem redact_eq_of_forall₂ (token : L → ℕ → List α) (hR : Relator.BiUnique R)
    {segments : List (Segment α L K)} {segments' : List (Segment α L K')}
    (h : List.Forall₂ (Segment.Alike R) segments segments') (hnames : names.Alike R names') :
    redact token names segments = redact token names' segments' := by
  induction h generalizing names names' with
  | nil => rfl
  | cons hsegment _ ih =>
    cases hsegment with
    | kept piece => exact congrArg (piece ++ ·) (ih hnames)
    | mention label hentity =>
      rw [redact, redact, hnames.nameOf_eq hR hentity label, ih (hnames.add hR hentity label)]

/-- **Redaction shows nothing else**: documents that are equal up to a one-to-one correspondence of
their entities are redacted alike. -/
theorem redact_eq_of_alike (token : L → ℕ → List α) {segments : List (Segment α L K)}
    {segments' : List (Segment α L K')} (h : Alike segments segments') :
    redact token [] segments = redact token [] segments' := by
  obtain ⟨R, hR, hsegments⟩ := h
  exact redact_eq_of_forall₂ token hR hsegments .nil

/-! ### Documents that differ in what masks hide -/

/-- The pieces are equal, or the mentions have one label and their entities are related. -/
inductive Segment.AlikeBy (R : L → K → K' → Prop) : Segment α L K → Segment α L K' → Prop
  | kept (piece : List α) : AlikeBy R (.kept piece) (.kept piece)
  | mention (label : L) {entity : K} {entity' : K'} (h : R label entity entity') :
      AlikeBy R (.mention label entity) (.mention label entity')

omit [DecidableEq L] [BEq K] [LawfulBEq K] [BEq K'] [LawfulBEq K'] in
/-- Documents whose mentions have the same masks are masked alike. -/
theorem maskEach_eq_of_alikeBy {mask : L → K → List α} {mask' : L → K' → List α}
    {R : L → K → K' → Prop} (hmask : ∀ label entity entity', R label entity entity' →
      mask label entity = mask' label entity')
    {segments : List (Segment α L K)} {segments' : List (Segment α L K')}
    (h : List.Forall₂ (Segment.AlikeBy R) segments segments') :
    maskEach mask segments = maskEach mask' segments' := by
  induction h with
  | nil => rfl
  | cons hsegment _ ih =>
    rw [maskEach, List.flatMap_cons]
    refine congrArg₂ (· ++ ·) ?_ ih
    cases hsegment with
    | kept piece => rfl
    | mention label hentity => exact hmask label _ _ hentity

end Redaction
