import PiiProxy.Demasking.AliasShapes
import PiiProxy.EntityResolution.Soundness
import PiiProxy.Replacement.Persons

/-!
# Needles of two persons

The engine keeps the full names of the synthetic persons of a document apart. In the nominative,
where a name is written as it was drawn, a needle of full words shows which names it is made of. So
two persons have no needle in common that spells all three names, and a needle of two words only
when they have these two names in common. Needles with initials, and names in other cases, are not
kept apart.

## Main definitions

* `nominativeNeedle`: a shape of full words in the nominative.
* `NominativeApart`: two persons share no full name in the nominative.
* `Ambiguous`: two persons restore a needle to different texts.

## Main results

* `nominativeNeedle_inj`: what a needle of full words shows.
* `pairwise_nominative`: the persons of a result share no full name in the nominative.
* `ambiguous_needles`: they share other needles.
-/

namespace PiiProxy

variable {rt : Runtime}

/-- A shape of full words in the nominative. -/
def nominativeNeedle (rt : Runtime) (identity : Identity) (shape : List ShapeSymbol) :
    Option Text :=
  renderShape rt shape identity.part .nomn identity.gender false

/-- In the nominative the names are written as they were drawn. -/
private theorem nominativeNeedle_eq {identity : Identity} (hdrawn : identity.Drawn)
    {shape : List ShapeSymbol} (hshape : shape ∈ wordShapes) :
    nominativeNeedle rt identity shape =
      some (joinWords (shape.map fun s => identity.part s.role)) := by
  have hinflect : (fun s : ShapeSymbol => inflectWord rt (identity.part s.role) .nomn
      (some identity.gender)) = fun s => identity.part s.role := funext fun s => if_pos (.inl rfl)
  rw [nominativeNeedle, renderShape_words (words_of_mem_wordShapes hshape).1
    fun s _ => hdrawn.ne_nil s.role, hinflect]

/-- Words that are drawn for roles show the roles. -/
private theorem shape_eq_of_map_eq {identity identity' : Identity} (hdrawn : identity.Drawn)
    (hdrawn' : identity'.Drawn) {shape shape' : List ShapeSymbol}
    (hwords : ∀ s ∈ shape, s = .word s.role) (hwords' : ∀ s ∈ shape', s = .word s.role)
    (h : (shape.map fun s => identity.part s.role) = shape'.map fun s => identity'.part s.role) :
    shape = shape' ∧ ∀ s ∈ shape, identity.part s.role = identity'.part s.role := by
  induction shape generalizing shape' with
  | nil => exact ⟨(List.map_eq_nil_iff.1 h.symm).symm, by simp⟩
  | cons s shape ih =>
    cases shape' with
    | nil => cases h
    | cons s' shape' =>
      obtain ⟨hhead, htail⟩ := List.cons.inj h
      have hname : identity.part s.role = identity'.part s'.role := hhead
      obtain ⟨hword, hrest⟩ := List.forall_mem_cons.1 hwords
      obtain ⟨hword', hrest'⟩ := List.forall_mem_cons.1 hwords'
      have hrole : s.role = s'.role :=
        role_eq_of_mem_namePool (hdrawn s.role) (hname ▸ hdrawn' s'.role)
      obtain ⟨rfl, hparts⟩ := ih hrest hrest' htail
      refine ⟨by rw [hword, hword', hrole], List.forall_mem_cons.2 ⟨?_, hparts⟩⟩
      rw [hname, hrole]

/-- **What a needle of full words shows**: its shape, and the names of which it is made. -/
theorem nominativeNeedle_inj {identity identity' : Identity} (hdrawn : identity.Drawn)
    (hdrawn' : identity'.Drawn) {shape shape' : List ShapeSymbol} (hshape : shape ∈ wordShapes)
    (hshape' : shape' ∈ wordShapes)
    (h : nominativeNeedle rt identity shape = nominativeNeedle rt identity' shape') :
    shape = shape' ∧ ∀ s ∈ shape, identity.part s.role = identity'.part s.role := by
  rw [nominativeNeedle_eq hdrawn hshape, nominativeNeedle_eq hdrawn' hshape',
    Option.some.injEq] at h
  obtain ⟨hwords, hlength⟩ := words_of_mem_wordShapes hshape
  obtain ⟨hwords', hlength'⟩ := words_of_mem_wordShapes hshape'
  have hnames {identity : Identity} (hdrawn : identity.Drawn) (shape : List ShapeSymbol) :
      ∀ w ∈ shape.map (fun s => identity.part s.role), ' ' ∉ w := by
    intro w hw
    obtain ⟨s, -, rfl⟩ := List.mem_map.1 hw
    exact (word_of_mem_namePool (hdrawn s.role)).2.1
  refine shape_eq_of_map_eq hdrawn hdrawn' hwords hwords' (joinWords_inj ?_ ?_ (hnames hdrawn shape)
    (hnames hdrawn' shape') h)
  · exact List.ne_nil_of_length_pos (by rw [List.length_map]; omega)
  · exact List.ne_nil_of_length_pos (by rw [List.length_map]; omega)

/-- A shape of three words has all roles. -/
private theorem exists_symbol_of_length {shape : List ShapeSymbol} (hshape : shape ∈ wordShapes)
    (hlength : shape.length = 3) (role : Role) : ∃ s ∈ shape, s.role = role := by
  have hshapes : ∀ shape ∈ wordShapes, shape.length = 3 →
      (∃ s ∈ shape, s.role = .surname) ∧ (∃ s ∈ shape, s.role = .first) ∧
        ∃ s ∈ shape, s.role = .patronymic := by decide
  obtain ⟨hsurname, hfirst, hpatronymic⟩ := hshapes shape hshape hlength
  cases role with
  | surname => exact hsurname
  | first => exact hfirst
  | patronymic => exact hpatronymic

section Result

/-- A needle of full words in the nominative that the persons of two mappings have in common has
two words, stands for the same shape, and its names are those of both. -/
def NominativeApart (rt : Runtime) (m m' : EntityMapping) : Prop :=
  ∀ identity identity', m.metadata.syntheticIdentity = some identity →
    m'.metadata.syntheticIdentity = some identity' →
      ∀ shape ∈ wordShapes, ∀ shape' ∈ wordShapes,
        nominativeNeedle rt identity shape = nominativeNeedle rt identity' shape' →
          shape = shape' ∧ shape.length = 2 ∧
            ∀ s ∈ shape, identity.part s.role = identity'.part s.role

variable {text sessionSeed : Text} {decisions : List PrivacyDecision} {mode : MaskingMode}
  {R : TransformResult}

/-- **The persons of a result share no full name** in the nominative, and only those two words that
both have. -/
theorem pairwise_nominative
    (h : buildTransformResult rt text decisions mode sessionSeed = .ok R) :
    R.mappings.Pairwise (NominativeApart rt) := by
  refine (pairwise_mappings h).imp_of_mem fun {m m'} hm hm' hne identity identity' hidentity
    hidentity' shape hshape shape' hshape' hneedle => ?_
  obtain ⟨hdrawn, hname⟩ := drawn_of_mem_mappings h hm hidentity
  obtain ⟨hdrawn', hname'⟩ := drawn_of_mem_mappings h hm' hidentity'
  obtain ⟨rfl, hparts⟩ := nominativeNeedle_inj hdrawn hdrawn' hshape hshape' hneedle
  refine ⟨rfl, (words_of_mem_wordShapes hshape).2.resolve_right fun hlength => ?_, hparts⟩
  -- all three names agree, and with them the values
  have hall (role : Role) : identity.part role = identity'.part role := by
    obtain ⟨s, hs, rfl⟩ := exists_symbol_of_length hshape hlength role
    exact hparts s hs
  refine hne (hidentity' ▸ Option.some_ne_none identity') ?_
  have hwords : identity.words = identity'.words := by
    rw [Identity.words, Identity.words,
      show identity.surname = identity'.surname from hall .surname,
      show identity.first = identity'.first from hall .first,
      show identity.patronymic = identity'.patronymic from hall .patronymic]
  rw [hname, hname', hwords]

end Result

/-! ### Shared needles -/

/-- The needles of the person of a mapping. -/
def personNeedles (rt : Runtime) (m : EntityMapping) : List (Text × Text) :=
  if m.type.isNameType then nameNeedleReplacements rt m else []

/-- Two persons restore the needle to different texts. -/
def Ambiguous (rt : Runtime) (R : TransformResult) (needle : Text) : Prop :=
  ¬R.mappings.Pairwise fun m m' => ∀ p ∈ personNeedles rt m, ∀ p' ∈ personNeedles rt m',
    p.1 = needle → p'.1 = needle → p.2 = p'.2

instance (R : TransformResult) (needle : Text) : Decidable (Ambiguous rt R needle) :=
  inferInstanceAs (Decidable ¬_)

/-- Draws that give the second person the first name and patronymic of the first, and the third one
the surname and both initials; the analyzer knows one form of both surnames. -/
def sharingRuntime : Runtime where
  __ := basicRuntime 0 zero_lt_two_pow_64
  sha64 t :=
    if t = "2:0".toList then 3
    else if t = "0:0".toList ∨ t = "1:0".toList ∨ t = "1:1".toList then 1 else 0
  sha64_lt t := by split_ifs <;> decide
  parse word :=
    if word = "Иванов".toList ∨ word = "Петров".toList then
      [{ gender := none, case := none, hasRole := fun _ => false,
         inflect := fun case => if case = .gent then some "Х".toList else none }]
    else []

/-- Three persons. -/
def threePersons : List PrivacyDecision :=
  [(nameMention 0 0 "Сидоров Пётр Петрович".toList
      [⟨.word "сидоров".toList, "Сидоров".toList, 0, 7, some .surname⟩,
       ⟨.word "пётр".toList, "Пётр".toList, 8, 12, some .first⟩,
       ⟨.word "петрович".toList, "Петрович".toList, 13, 21, some .patronymic⟩]).2,
   (nameMention 1 23 "Козлов Олег Ильич".toList
      [⟨.word "козлов".toList, "Козлов".toList, 0, 6, some .surname⟩,
       ⟨.word "олег".toList, "Олег".toList, 7, 11, some .first⟩,
       ⟨.word "ильич".toList, "Ильич".toList, 12, 17, some .patronymic⟩]).2,
   (nameMention 2 42 "Зуев Глеб Юрьевич".toList
      [⟨.word "зуев".toList, "Зуев".toList, 0, 4, some .surname⟩,
       ⟨.word "глеб".toList, "Глеб".toList, 5, 9, some .first⟩,
       ⟨.word "юрьевич".toList, "Юрьевич".toList, 10, 17, some .patronymic⟩]).2]

/-- A run on a text with three persons. -/
def sharingRun : Except PyError TransformResult :=
  buildTransformResult sharingRuntime
    "Сидоров Пётр Петрович, Козлов Олег Ильич, Зуев Глеб Юрьевич".toList threePersons
    .syntheticMode "p1".toList

/-- The full names of three persons are kept apart. -/
theorem pairwise_nominative_threePersons :
    ∃ R, sharingRun = .ok R ∧
      R.mappings.map EntityMapping.synthetic = ["Иванов Александр Иванович".toList,
        "Петров Александр Иванович".toList, "Иванов Алексей Иванович".toList] ∧
      R.mappings.Pairwise (NominativeApart sharingRuntime) := by
  have hrun : sharingRun.toOption.any (fun R => decide (R.mappings.map EntityMapping.synthetic =
      ["Иванов Александр Иванович".toList, "Петров Александр Иванович".toList,
        "Иванов Алексей Иванович".toList])) = true := by decide +kernel
  obtain ⟨R, hR, hnames⟩ := Except.exists_of_any hrun
  exact ⟨R, hR, of_decide_eq_true hnames, pairwise_nominative hR⟩

/-- Two words, a shape with initials and an inflected full name are shared. -/
theorem ambiguous_needles :
    ∃ R, sharingRun = .ok R ∧ Ambiguous sharingRuntime R "Александр Иванович".toList ∧
      Ambiguous sharingRuntime R "А. И. Иванов".toList ∧
        Ambiguous sharingRuntime R "Х Александр Иванович".toList := by
  have hrun : sharingRun.toOption.any (fun R =>
      decide (Ambiguous sharingRuntime R "Александр Иванович".toList) &&
        decide (Ambiguous sharingRuntime R "А. И. Иванов".toList) &&
          decide (Ambiguous sharingRuntime R "Х Александр Иванович".toList)) = true := by
    decide +kernel
  obtain ⟨R, hR, hshared⟩ := Except.exists_of_any hrun
  simp only [Bool.and_eq_true, decide_eq_true_eq] at hshared
  exact ⟨R, hR, hshared.1.1, hshared.1.2, hshared.2⟩

end PiiProxy
