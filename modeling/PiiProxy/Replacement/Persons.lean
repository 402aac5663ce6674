import PiiProxy.Replacement.Draws
import PiiProxy.Replacement.Surrogates

/-!
# The persons that are drawn

The names of a synthetic person come from three pools, one for each role. No name is in two of them,
and none has a blank, so names that are joined by blanks can be told apart again. The full name of
each person of a document is new in the document: it was used for no mapping before.

## Main definitions

* `namePool`: the names for a role, of both genders.
* `Identity.Drawn`: every part of the identity is from the pool of its role.
* `Identity.words`: the parts of an identity in the order of the nominal form.

## Main results

* `role_eq_of_mem_namePool`: the pools are disjoint.
* `joinWords_inj`: joined words are told apart by the blanks.
* `drawn_of_mem_mappings`: an identity in a result is drawn, and the value is its full name.
* `pairwise_mappings`: two mappings with identities have different values.
-/

namespace PiiProxy

/-! ### Pools -/

/-- The names from which a part in the role is drawn. -/
def namePool : Role → List Text
  | .surname => maleLast ++ femaleLast
  | .first => maleFirst ++ femaleFirst
  | .patronymic => malePatr ++ femalePatr

/-- A name of a pool is a word: it is not empty, and has no blank and no angle bracket. -/
theorem word_of_mem_namePool {role : Role} {w : Text} (hw : w ∈ namePool role) :
    w ≠ [] ∧ ' ' ∉ w ∧ '<' ∉ w := by
  have hpool : ∀ w ∈ namePool role, w ≠ [] ∧ ' ' ∉ w ∧ '<' ∉ w := by
    cases role <;> decide +kernel
  exact hpool w hw

/-- **No name is in two pools.** -/
theorem role_eq_of_mem_namePool {role role' : Role} {w : Text} (hw : w ∈ namePool role)
    (hw' : w ∈ namePool role') : role = role' := by
  have hpools : (∀ w ∈ namePool .surname, w ∉ namePool .first ∧ w ∉ namePool .patronymic) ∧
      ∀ w ∈ namePool .first, w ∉ namePool .patronymic := by decide +kernel
  obtain ⟨hsurname, hfirst⟩ := hpools
  cases role <;> cases role'
  case surname.surname | first.first | patronymic.patronymic => rfl
  case surname.first => exact absurd hw' (hsurname w hw).1
  case surname.patronymic => exact absurd hw' (hsurname w hw).2
  case first.surname => exact absurd hw (hsurname w hw').1
  case first.patronymic => exact absurd hw' (hfirst w hw)
  case patronymic.surname => exact absurd hw (hsurname w hw').2
  case patronymic.first => exact absurd hw (hfirst w hw')

/-- Joined words are told apart by the blanks. -/
theorem joinWords_inj {words words' : List Text} (hne : words ≠ []) (hne' : words' ≠ [])
    (hwords : ∀ w ∈ words, ' ' ∉ w) (hwords' : ∀ w ∈ words', ' ' ∉ w)
    (h : joinWords words = joinWords words') : words = words' := by
  rw [← List.splitOn_intercalate ' ' hwords hne, ← List.splitOn_intercalate ' ' hwords' hne']
  exact congrArg (List.splitOn ' ') h

/-! ### Draws -/

/-- Every part of the identity is from the pool of its role. -/
def Identity.Drawn (identity : Identity) : Prop := ∀ role, identity.part role ∈ namePool role

/-- The parts of an identity in the order of the nominal form. -/
def Identity.words (identity : Identity) : List Text :=
  [identity.surname, identity.first, identity.patronymic]

theorem Identity.Drawn.ne_nil {identity : Identity} (h : identity.Drawn) (role : Role) :
    identity.part role ≠ [] := (word_of_mem_namePool (h role)).1

/-- The words of a drawn identity are its parts. -/
theorem Identity.Drawn.words_spec {identity : Identity} (h : identity.Drawn) :
    ∀ w ∈ identity.words, w ≠ [] ∧ ' ' ∉ w ∧ '<' ∉ w := by
  intro w hw
  rcases List.mem_cons.1 hw with rfl | hw
  · exact word_of_mem_namePool (h .surname)
  · rcases List.mem_cons.1 hw with rfl | hw
    · exact word_of_mem_namePool (h .first)
    · rw [List.mem_singleton.1 hw]
      exact word_of_mem_namePool (h .patronymic)

section Generators

variable {rt : Runtime} {seed : ℕ}

/-- An element that is chosen is an element. -/
theorem always_choice_mem {seq : List Text} (hseq : seq ≠ []) :
    (choice rt seed seq).Always (· ∈ seq) :=
  Gen.always_bind (always_randbelow (List.length_pos_of_ne_nil hseq)) fun i hi =>
    Gen.always_pure (by
      rw [List.getD_eq_getElem _ _ hi]
      exact List.getElem_mem hi)

/-- The pools from which the names of a gender are drawn. -/
private theorem pools_of_gender (gender : Gender) :
    let pools := if gender = .masc then (maleFirst, maleLast, malePatr)
      else (femaleFirst, femaleLast, femalePatr)
    (pools.1 ≠ [] ∧ pools.1 ⊆ namePool .first) ∧ (pools.2.1 ≠ [] ∧ pools.2.1 ⊆ namePool .surname) ∧
      pools.2.2 ≠ [] ∧ pools.2.2 ⊆ namePool .patronymic := by
  dsimp only
  split_ifs
  · exact ⟨⟨by decide, List.subset_append_left _ _⟩, ⟨by decide, List.subset_append_left _ _⟩,
      by decide, List.subset_append_left _ _⟩
  · exact ⟨⟨by decide, List.subset_append_right _ _⟩, ⟨by decide, List.subset_append_right _ _⟩,
      by decide, List.subset_append_right _ _⟩

/-- **A person is drawn from the pools**, whatever the stream and the gender are. -/
theorem always_person (nominal : Text) (gender : Option Gender) :
    (person rt seed nominal gender).Always Identity.Drawn := by
  unfold person
  extract_lets afterGender
  have hafter (g : Gender) : (afterGender g).Always Identity.Drawn := by
    obtain ⟨⟨hfirst, hfirst_pool⟩, ⟨hlast, hlast_pool⟩, hpatr, hpatr_pool⟩ := pools_of_gender g
    refine Gen.always_retryDraw ?_ _ 9
    exact Gen.always_bind (always_choice_mem hfirst) fun first hfirst =>
      Gen.always_bind (always_choice_mem hlast) fun last hlast =>
        Gen.always_bind (always_choice_mem hpatr) fun patr hpatr =>
          Gen.always_pure fun role => by
            cases role with
            | surname => exact hlast_pool hlast
            | first => exact hfirst_pool hfirst
            | patronymic => exact hpatr_pool hpatr
  have hbind (x : Gen Gender) : (x >>= afterGender).Always Identity.Drawn :=
    Gen.always_bind_any hafter
  cases gender with
  | some g => exact hbind (pure g)
  | none =>
    dsimp only
    split_ifs
    · exact hbind _
    · cases rt.unicode.splitWords nominal with
      | nil => exact hbind _
      | cons w words => exact hbind _

/-- The full name in the nominative is the words of the identity. -/
theorem always_fullName (nominal : Text) (gender : Option Gender) :
    (fullNameInCase rt seed nominal gender .nomn).Always fun drawn =>
      drawn.2.Drawn ∧ drawn.1 = joinWords drawn.2.words := by
  refine Gen.always_bind (always_person nominal gender) fun i hi => Gen.always_pure ⟨hi, ?_⟩
  have hkept : ([i.surname, i.first, i.patronymic].filter fun w => !w.isEmpty) = i.words :=
    List.filter_eq_self.2 fun w hw => by simpa using (hi.words_spec w hw).1
  have hinflect : (fun w => inflectWord rt w .nomn (some i.gender)) = id :=
    funext fun w => if_pos (.inl rfl)
  rw [inflectFullName, inflectNameWords, hkept, hinflect, List.map_id]

/-- What a run of a generator returns. -/
theorem exists_of_run' {α : Type} {gen : Gen α} {a : α} (h : gen.run' 0 = .ok a) :
    ∃ c, gen 0 = .ok (a, c) := by
  change Prod.fst <$> gen 0 = .ok a at h
  cases hrun : gen 0 with
  | error e =>
    rw [hrun] at h
    cases h
  | ok drawn =>
    rw [hrun] at h
    cases h
    exact ⟨drawn.2, rfl⟩

/-- What is drawn for a group: a person with the full name, or a value without a person. -/
theorem drawSurrogate_cases {group : EntityGroup} {drawn : Text × Option Identity}
    (h : drawSurrogate rt group seed = .ok drawn) :
    (group.type.isNameType = true ∧ ∃ identity : Identity, identity.Drawn ∧
      drawn = (joinWords identity.words, some identity)) ∨
    (group.type.isNameType = false ∧ drawn.2 = none ∧
      ∃ c, generic rt seed group.type group.originalNominal 0 = .ok (drawn.1, c)) := by
  rw [drawSurrogate] at h
  split_ifs at h with hname
  · obtain ⟨named, hrun, h⟩ := Except.bind_eq_ok.1 h
    obtain ⟨c, hrun⟩ := exists_of_run' hrun
    cases h
    obtain ⟨hdrawn, hvalue⟩ := always_fullName _ _ _ _ _ hrun
    exact .inl ⟨hname, named.2, hdrawn, by rw [hvalue]⟩
  · obtain ⟨value, hrun, h⟩ := Except.bind_eq_ok.1 h
    obtain ⟨c, hrun⟩ := exists_of_run' hrun
    cases h
    exact .inr ⟨Bool.eq_false_iff.2 hname, rfl, c, hrun⟩

end Generators

/-! ### Mappings -/

section Mappings

variable {rt : Runtime}

/-- The surrogate of a mapping: its token, or what was drawn and accepted. -/
theorem surrogate_of_buildMapping {group : EntityGroup} {sessionSeed text : Text}
    {used used' : List Text} {mapping : EntityMapping}
    (h : buildMapping rt group sessionSeed used text = .ok (mapping, used')) :
    mapping.syntheticNominal = some mapping.synthetic ∧ used' = mapping.synthetic :: used ∧
      ((mapping.synthetic = mapping.token ∧ mapping.metadata.syntheticIdentity = none) ∨
        ∃ drawn seed, drawSurrogate rt group seed = .ok drawn ∧
          acceptSurrogate rt used text drawn = true ∧ mapping.synthetic = drawn.1 ∧
          mapping.metadata.syntheticIdentity = drawn.2) := by
  obtain ⟨chosen, hchosen, h⟩ := Except.bind_eq_ok.1 h
  cases h
  refine ⟨rfl, rfl, ?_⟩
  cases chosen with
  | none => exact .inl ⟨rfl, ite_self none⟩
  | some drawn =>
    obtain ⟨haccept, seed, hdrawn⟩ := chooseSurrogate_eq_some rt hchosen
    refine .inr ⟨drawn, seed, hdrawn, haccept, rfl, ?_⟩
    rcases drawSurrogate_cases hdrawn with ⟨hname, -⟩ | ⟨hname, hnone, -⟩
    · exact if_pos hname
    · exact (if_neg (Bool.eq_false_iff.1 hname)).trans hnone.symm

/-- The value of a mapping with an identity is new. -/
private theorem new_of_buildMappings {sessionSeed text : Text} {groups : List EntityGroup}
    {used : List Text} {entries : List (EntityGroup × EntityMapping)}
    (h : buildMappings rt sessionSeed text groups used = .ok entries) :
    (∀ e ∈ entries, e.2.metadata.syntheticIdentity ≠ none → e.2.synthetic ∉ used) ∧
      entries.Pairwise fun e e' => e'.2.metadata.syntheticIdentity ≠ none →
        e.2.synthetic ≠ e'.2.synthetic := by
  induction groups generalizing used entries with
  | nil =>
    cases h
    exact ⟨by simp, .nil⟩
  | cons g gs ih =>
    obtain ⟨⟨mapping, used'⟩, hbuilt, h⟩ := Except.bind_eq_ok.1 h
    obtain ⟨rest, hrest, h⟩ := Except.bind_eq_ok.1 h
    cases h
    obtain ⟨-, rfl, hcases⟩ := surrogate_of_buildMapping hbuilt
    obtain ⟨hnew, hpairwise⟩ := ih hrest
    refine ⟨List.forall_mem_cons.2 ⟨fun hidentity => ?_, fun e he hidentity hmem =>
      hnew e he hidentity (List.mem_cons_of_mem _ hmem)⟩, List.pairwise_cons.2
      ⟨fun e he hidentity heq => hnew e he hidentity (heq ▸ List.mem_cons_self), hpairwise⟩⟩
    rcases hcases with ⟨-, hnone⟩ | ⟨drawn, seed, -, haccept, hsynthetic, -⟩
    · exact absurd hnone hidentity
    · dsimp only
      rw [hsynthetic]
      exact (acceptSurrogate_iff.1 haccept).2.1

variable {text sessionSeed : Text} {decisions : List PrivacyDecision} {mode : MaskingMode}
  {R : TransformResult}

/-- **An identity in a result is drawn**, and the value of its mapping is its full name. -/
theorem drawn_of_mem_mappings (h : buildTransformResult rt text decisions mode sessionSeed = .ok R)
    {m : EntityMapping} (hm : m ∈ R.mappings) {identity : Identity}
    (hidentity : m.metadata.syntheticIdentity = some identity) :
    identity.Drawn ∧ m.synthetic = joinWords identity.words := by
  obtain ⟨group, -, built, used, used', hbuilt, fallback, rfl⟩ :=
    mapping_of_buildTransformResult rt h hm
  obtain ⟨-, -, ⟨-, hnone⟩ | ⟨drawn, seed, hdrawn, -, hsynthetic, hsome⟩⟩ :=
    surrogate_of_buildMapping hbuilt
  · cases hnone.symm.trans hidentity
  · rcases drawSurrogate_cases hdrawn with ⟨-, identity', hidentity', rfl⟩ | ⟨-, hnone, -⟩
    · cases hsome.symm.trans hidentity
      exact ⟨hidentity', hsynthetic⟩
    · cases hnone.symm.trans (hsome.symm.trans hidentity)

/-- **Two mappings with identities have different values.** -/
theorem pairwise_mappings (h : buildTransformResult rt text decisions mode sessionSeed = .ok R) :
    R.mappings.Pairwise fun m m' => m'.metadata.syntheticIdentity ≠ none →
      m.synthetic ≠ m'.synthetic := by
  obtain ⟨entries, placed, hentries, hplaced, hmappings, -⟩ := buildTransformResult_eq_ok rt h
  -- what is compared of a mapping is the same before and after the main loop
  have hsame : (placed.entries.map fun e => (e.2.synthetic, e.2.metadata.syntheticIdentity)) =
      entries.map fun e => (e.2.synthetic, e.2.metadata.syntheticIdentity) := by
    refine List.forall₂_eq_eq_eq ▸ List.forall₂_map_left_iff.2 (List.forall₂_map_right_iff.2
      ((foldlM_placeDecision_downgrades rt hplaced).imp fun e built hentry => ?_))
    obtain ⟨-, fallback, hdown⟩ := hentry
    rw [hdown]
  have hpairwise : (entries.map fun e => (e.2.synthetic, e.2.metadata.syntheticIdentity)).Pairwise
      fun p q => q.2 ≠ none → p.1 ≠ q.1 :=
    List.pairwise_map.2 (new_of_buildMappings hentries).2
  rw [← hsame] at hpairwise
  rw [hmappings, List.pairwise_map]
  exact List.pairwise_map.1 hpairwise

end Mappings

end PiiProxy
