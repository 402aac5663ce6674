import PiiProxy.EntityResolution.Resolver

/-!
# Entity resolution never merges conflicting people

What a person knows only grows: a role that has a word keeps it. A mention is merged only when every
word with a role agrees with what is known, when its gender does, and on the evidence of a surname
together with another name or with initials. So all mentions of a person agree with one another.

## Main definitions

* `Relabels`: a component after the resolution has perhaps been given a role.
* `Evidence`: what a mention has in common with the person it is merged into.
* `ResolvedPerson.Sound`: the mentions of a person agree.

## Main results

* `matchWords_spec`, `matchInitials_spec`, `compatible_spec`: what a match says.
* `lookup_learned`: what a person knows after a mention.
* `resolveMention_cases`: a mention is merged into one person, or founds one.
* `resolveMention_sound`, `Resolved.mention`: one mention keeps the persons sound and apart.
* `resolvePersonEntities_sound`: the persons are sound, and every mention belongs to one of them.
-/

namespace PiiProxy

/-! ### Words and initials of a mention -/

/-- The letter of an initial. -/
def NameComponent.letter? (c : NameComponent) : Option Char :=
  match c.kind with
  | .initial letter => some letter
  | .word _ => none

/-- The normalized full words of a mention. -/
def wordTexts (components : List NameComponent) : List Text :=
  components.filterMap NameComponent.normalizedWord?

/-- The letters of the initials of a mention. -/
def initialLetters (components : List NameComponent) : List Char :=
  components.filterMap NameComponent.letter?

theorem mem_mentionWords {components : List NameComponent} {cw : NameComponent × Text} :
    cw ∈ mentionWords components ↔ cw.1 ∈ components ∧ cw.1.normalizedWord? = some cw.2 := by
  obtain ⟨c, w⟩ := cw
  rw [mentionWords, List.mem_filterMap]
  constructor
  · rintro ⟨c', hc', h⟩
    obtain ⟨w', hw', heq⟩ := Option.map_eq_some_iff.1 h
    obtain ⟨rfl, rfl⟩ := Prod.mk.inj heq
    exact ⟨hc', hw'⟩
  · rintro ⟨hc, hw⟩
    exact ⟨c, hc, by rw [hw]; rfl⟩

theorem mem_mentionInitials {components : List NameComponent} {cl : NameComponent × Char} :
    cl ∈ mentionInitials components ↔ cl.1 ∈ components ∧ cl.1.letter? = some cl.2 := by
  obtain ⟨c, l⟩ := cl
  rw [mentionInitials, List.mem_filterMap]
  constructor
  · rintro ⟨c', hc', h⟩
    cases hkind : c'.kind with
    | word w =>
      rw [hkind] at h
      cases h
    | initial l' =>
      rw [hkind] at h
      cases h
      exact ⟨hc', by simp only [NameComponent.letter?, hkind]⟩
  · rintro ⟨hc, hl⟩
    refine ⟨c, hc, ?_⟩
    unfold NameComponent.letter? at hl
    cases hkind : c.kind with
    | word w =>
      rw [hkind] at hl
      cases hl
    | initial l' =>
      rw [hkind] at hl
      cases hl
      rfl

theorem map_snd_mentionWords (components : List NameComponent) :
    (mentionWords components).map Prod.snd = wordTexts components := by
  rw [mentionWords, wordTexts, List.map_filterMap]
  congr 1
  funext c
  cases c.normalizedWord? <;> rfl

theorem map_snd_mentionInitials (components : List NameComponent) :
    (mentionInitials components).map Prod.snd = initialLetters components := by
  rw [mentionInitials, initialLetters, List.map_filterMap]
  congr 1
  funext c
  unfold NameComponent.letter?
  cases c.kind <;> rfl

/-- An initial is no full word. -/
theorem normalizedWord?_of_letter {c : NameComponent} {l : Char} (h : c.letter? = some l) :
    c.normalizedWord? = none := by
  unfold NameComponent.letter? at h
  unfold NameComponent.normalizedWord?
  split at h
  · rename_i hkind
    rw [hkind]
  · cases h

/-! ### Roles that the resolution gives -/

/-- The component is as before, but for its role; a word with a role keeps it. -/
structure Relabels (c c' : NameComponent) : Prop where
  eq : c' = { c with role := c'.role }
  role : ∀ w r, c.normalizedWord? = some w → c.role = some r → c'.role = some r

theorem Relabels.refl (c : NameComponent) : Relabels c c := ⟨rfl, fun _ _ _ h => h⟩

theorem Relabels.normalizedWord? {c c' : NameComponent} (h : Relabels c c') :
    c'.normalizedWord? = c.normalizedWord? := by
  rw [h.eq]
  rfl

theorem Relabels.letter? {c c' : NameComponent} (h : Relabels c c') : c'.letter? = c.letter? := by
  rw [h.eq]
  rfl

theorem wordTexts_of_relabels {cs cs' : List NameComponent} (h : List.Forall₂ Relabels cs cs') :
    wordTexts cs' = wordTexts cs := by
  induction h with
  | nil => rfl
  | cons hc _ ih =>
    rw [wordTexts, wordTexts, List.filterMap_cons, List.filterMap_cons, hc.normalizedWord?]
    rw [wordTexts, wordTexts] at ih
    rw [ih]

theorem initialLetters_of_relabels {cs cs' : List NameComponent}
    (h : List.Forall₂ Relabels cs cs') :
    initialLetters cs' = initialLetters cs := by
  induction h with
  | nil => rfl
  | cons hc _ ih =>
    rw [initialLetters, initialLetters, List.filterMap_cons, List.filterMap_cons, hc.letter?]
    rw [initialLetters, initialLetters] at ih
    rw [ih]

/-- What `_annotate_roles` does to the component at an index. -/
theorem annotateRoles_getElem? (assignment : List (ℕ × Role)) (cs : List NameComponent) (i : ℕ)
    (c' : NameComponent) (h : (annotateRoles cs assignment)[i]? = some c') :
    ∃ c, cs[i]? = some c ∧ c' = { c with role := c'.role } ∧
      (c'.role = c.role ∨ ∃ r, (i, r) ∈ assignment ∧ c'.role = some r) := by
  induction assignment generalizing cs with
  | nil => exact ⟨c', h, rfl, .inl rfl⟩
  | cons a assignment ih =>
    obtain ⟨c₁, hc₁, heq, hrole⟩ := ih _ h
    rw [List.getElem?_modify] at hc₁
    obtain ⟨c, hc, rfl⟩ := Option.map_eq_some_iff.1 hc₁
    refine ⟨c, hc, ?_, ?_⟩
    · split_ifs at heq
      · exact heq
      · exact heq
    · rcases hrole with hrole | ⟨r, hmem, hrole⟩
      · split_ifs at hrole with hi
        · exact .inr ⟨a.2, by rw [← hi]; exact List.mem_cons_self, hrole⟩
        · exact .inl hrole
      · exact .inr ⟨r, List.mem_cons_of_mem _ hmem, hrole⟩

theorem length_annotateRoles (assignment : List (ℕ × Role)) (cs : List NameComponent) :
    (annotateRoles cs assignment).length = cs.length := by
  induction assignment generalizing cs with
  | nil => rfl
  | cons a assignment ih =>
    rw [annotateRoles, List.foldl_cons]
    exact (ih _).trans (List.length_modify _ _ _)

/-! ### What a match says -/

/-- Each role of a person has one word. -/
def ResolvedPerson.Keyed (p : ResolvedPerson) : Prop := (p.parts.map Prod.fst).Nodup

theorem lookup_eq_some_of_mem {parts : RoleDict} (hkeys : (parts.map Prod.fst).Nodup) {r : Role}
    {w : Text} (h : (r, w) ∈ parts) : parts.lookup r = some w := by
  induction parts with
  | nil => cases h
  | cons a parts ih =>
    rw [List.map_cons, List.nodup_cons] at hkeys
    rcases List.mem_cons.1 h with rfl | h
    · rw [List.lookup_cons, beq_self_eq_true]
    · have hne : r ≠ a.1 := fun heq =>
        hkeys.1 (heq ▸ List.mem_map.2 ⟨(r, w), h, rfl⟩)
      rw [List.lookup_cons, beq_false_of_ne hne]
      exact ih hkeys.2 h

/-- The role that a match gives to a word is its own, or the person has the word in this role. -/
def Fits (entity : ResolvedPerson) (cw : NameComponent × Text) (r : Role) : Prop :=
  cw.1.role = some r ∨ (cw.1.role = none ∧ entity.parts.lookup r = some cw.2)

/-- What placing one word says: the word agrees with the person, and its role is matched or new. -/
theorem assignWord_cases {entity : ResolvedPerson} (hkeys : entity.Keyed) {comp : NameComponent}
    {normalized : Text} {idx : ℕ} {m m' : WordMatch}
    (h : assignWord entity comp normalized idx m = some m') :
    ∃ r, Fits entity (comp, normalized) r ∧
      ((entity.parts.lookup r = some normalized ∧
        m' = { m with
          assignment := m.assignment ++ [(idx, r)], matchedRoles := r :: m.matchedRoles }) ∨
      (entity.parts.lookup r = none ∧ m' = { m with newInfo := m.newInfo ++ [(idx, r)] })) := by
  unfold assignWord at h
  split at h
  · rename_i role hrole
    split_ifs at h
    split at h
    · rename_i known hknown
      split_ifs at h with hne
      rw [ne_eq, not_not] at hne
      cases h
      exact ⟨role, .inl hrole, .inl ⟨by rw [hknown, hne], rfl⟩⟩
    · rename_i hnone
      cases h
      exact ⟨role, .inl hrole, .inr ⟨hnone, rfl⟩⟩
  · rename_i hrole
    split at h
    · cases h
    · rename_i role known hfind
      cases h
      have hmem := List.mem_of_find?_eq_some hfind
      have hprop := List.find?_some hfind
      rw [decide_eq_true_eq] at hprop
      have hlookup := lookup_eq_some_of_mem hkeys hmem
      have hsame : known = normalized := hprop.1
      rw [hsame] at hlookup
      exact ⟨role, .inr ⟨hrole, hlookup⟩, .inl ⟨hlookup, rfl⟩⟩

/-- What matching the words of a mention says. The words that are matched with known roles are
listed in `ms`. -/
structure MatchSpec (entity : ResolvedPerson) (components : List NameComponent)
    (words : List (NameComponent × Text)) (m m' : WordMatch) (ms : List (Role × Text)) : Prop where
  roles : m'.matchedRoles = (ms.map Prod.fst).reverse ++ m.matchedRoles
  known : ∀ rw ∈ ms, entity.parts.lookup rw.1 = some rw.2
  sublist : (ms.map Prod.snd).Sublist (words.map Prod.snd)
  agree : ∀ cw ∈ words, ∀ r, cw.1.role = some r →
    entity.parts.lookup r = none ∨ entity.parts.lookup r = some cw.2
  entries : ∀ a ∈ m'.assignment ++ m'.newInfo, a ∈ m.assignment ++ m.newInfo ∨
    ∃ cw ∈ words, a.1 = components.idxOf cw.1 ∧ Fits entity cw a.2

theorem matchWords_spec {entity : ResolvedPerson} (hkeys : entity.Keyed)
    {components : List NameComponent} {words : List (NameComponent × Text)} {m m' : WordMatch}
    (h : matchWords entity components words m = some m') :
    ∃ ms, MatchSpec entity components words m m' ms := by
  induction words generalizing m with
  | nil =>
    cases h
    exact ⟨[], rfl, (fun _ h => nomatch h), .refl _, (fun _ h => nomatch h), fun _ h => .inl h⟩
  | cons cw words ih =>
    obtain ⟨m₁, hm₁, h⟩ := Option.bind_eq_some_iff.1 h
    obtain ⟨ms, hms⟩ := ih h
    obtain ⟨r, hfits, hcase⟩ := assignWord_cases hkeys hm₁
    have hagree : ∀ r', cw.1.role = some r' →
        entity.parts.lookup r' = none ∨ entity.parts.lookup r' = some cw.2 := by
      intro r' hr'
      rcases hfits with hr | ⟨hnone, -⟩
      · obtain rfl : r = r' := Option.some.inj (hr.symm.trans hr')
        exact hcase.elim (fun h => .inr h.1) fun h => .inl h.1
      · rw [hnone] at hr'
        cases hr'
    have hentry : ∀ a ∈ m₁.assignment ++ m₁.newInfo, a ∈ m.assignment ++ m.newInfo ∨
        a = (components.idxOf cw.1, r) := by
      intro a ha
      rcases hcase with ⟨-, rfl⟩ | ⟨-, rfl⟩
      · simp only [List.mem_append, List.mem_singleton] at ha ⊢
        tauto
      · simp only [List.mem_append, List.mem_singleton] at ha ⊢
        tauto
    have hagrees := List.forall_mem_cons.2 ⟨hagree, hms.agree⟩
    have hentries : ∀ a ∈ m'.assignment ++ m'.newInfo, a ∈ m.assignment ++ m.newInfo ∨
        ∃ cw' ∈ cw :: words, a.1 = components.idxOf cw'.1 ∧ Fits entity cw' a.2 := by
      intro a ha
      rcases hms.entries a ha with ha | ⟨cw', hcw', hspec⟩
      · rcases hentry a ha with ha | rfl
        · exact .inl ha
        · exact .inr ⟨cw, List.mem_cons_self, rfl, hfits⟩
      · exact .inr ⟨cw', List.mem_cons_of_mem _ hcw', hspec⟩
    rcases hcase with ⟨hlookup, rfl⟩ | ⟨-, rfl⟩
    · refine ⟨(r, cw.2) :: ms, ?_, List.forall_mem_cons.2 ⟨hlookup, hms.known⟩,
        hms.sublist.cons_cons cw.2, hagrees, hentries⟩
      rw [hms.roles, List.map_cons, List.reverse_cons, List.append_assoc]
      rfl
    · exact ⟨ms, hms.roles, hms.known, hms.sublist.cons cw.2, hagrees, hentries⟩

variable (u : Unicode)

/-- The letter is the first one of what is known in the role, in any case. -/
def LetterFits (parts : RoleDict) (letter : Char) (role : Role) : Prop :=
  ∃ known, parts.lookup role = some known ∧ u.upper (known.take 1) = u.upper [letter]

/-- What matching initials says: one after the other they fit the expected roles. -/
theorem matchInitials_spec {entity : ResolvedPerson} {components : List NameComponent}
    {expected : List Role} {initials : List (NameComponent × Char)}
    {assignment assignment' : List (ℕ × Role)}
    (h : matchInitials u entity components expected initials assignment = some assignment') :
    List.Forall₂ (LetterFits u entity.parts) (initials.map Prod.snd)
      (expected.take initials.length) ∧
      ∀ a ∈ assignment', a ∈ assignment ∨ ∃ cl ∈ initials, a.1 = components.idxOf cl.1 := by
  induction initials generalizing expected assignment with
  | nil =>
    unfold matchInitials at h
    cases h
    exact ⟨.nil, fun a ha => .inl ha⟩
  | cons cl initials ih =>
    cases expected with
    | nil => cases h
    | cons role expected =>
      rw [matchInitials] at h
      split at h
      · cases h
      · rename_i known hknown
        split_ifs at h with hne
        rw [ne_eq, not_not] at hne
        obtain ⟨hletters, hentries⟩ := ih h
        refine ⟨.cons ⟨known, hknown, hne⟩ hletters, fun a ha => ?_⟩
        rcases hentries a ha with ha | ⟨cl', hcl', hi⟩
        · rcases List.mem_append.1 ha with ha | ha
          · exact .inl ha
          · exact .inr ⟨cl, List.mem_cons_self, by rw [List.mem_singleton.1 ha]⟩
        · exact .inr ⟨cl', List.mem_cons_of_mem _ hcl', hi⟩

/-- **The evidence for a merge**: the mention holds the surname of the person, and another word of
it that is the first name or the patronymic, or initials that fit the first name and the patronymic
in this order. -/
def Evidence (parts : RoleDict) (components : List NameComponent) : Prop :=
  ∃ surname, parts.lookup .surname = some surname ∧
    ((initialLetters components = [] ∧ ∃ r ∈ [Role.first, Role.patronymic], ∃ w,
        parts.lookup r = some w ∧ List.Subperm [surname, w] (wordTexts components)) ∨
      (initialLetters components ≠ [] ∧ surname ∈ wordTexts components ∧
        List.Forall₂ (LetterFits u parts) (initialLetters components)
          ([Role.first, Role.patronymic].take (initialLetters components).length)))

/-- What a match of a mention with a person says. -/
structure CompatibleSpec (entity : ResolvedPerson) (components : List NameComponent)
    (gender : Option Gender) (assignment : List (ℕ × Role)) : Prop where
  gender : ∀ g g', entity.gender = some g → gender = some g' → g = g'
  evidence : Evidence u entity.parts components
  agree : ∀ cw ∈ mentionWords components, ∀ r, cw.1.role = some r →
    entity.parts.lookup r = none ∨ entity.parts.lookup r = some cw.2
  entries : ∀ a ∈ assignment, (∃ cw ∈ mentionWords components, a.1 = components.idxOf cw.1 ∧
    Fits entity cw a.2) ∨ ∃ cl ∈ mentionInitials components, a.1 = components.idxOf cl.1

/-- Two roles that a match has found have their words at two places of the mention. -/
theorem MatchSpec.subperm {entity : ResolvedPerson} {components : List NameComponent}
    {words : List (NameComponent × Text)} {m : WordMatch} {ms : List (Role × Text)}
    (h : MatchSpec entity components words {} m ms) {r r' : Role} (hne : r ≠ r')
    (hr : r ∈ m.matchedRoles) (hr' : r' ∈ m.matchedRoles) :
    ∃ w w', entity.parts.lookup r = some w ∧ entity.parts.lookup r' = some w' ∧
      List.Subperm [w, w'] (words.map Prod.snd) := by
  rw [h.roles, List.append_nil, List.mem_reverse] at hr hr'
  obtain ⟨⟨r, w⟩, hw, rfl⟩ := List.mem_map.1 hr
  obtain ⟨⟨r', w'⟩, hw', rfl⟩ := List.mem_map.1 hr'
  refine ⟨w, w', h.known _ hw, h.known _ hw', ?_⟩
  have hpair : List.Subperm [(r, w), (r', w')] ms := by
    refine List.subperm_of_subset (List.nodup_cons.2 ⟨?_, List.nodup_singleton _⟩) ?_
    · rw [List.mem_singleton]
      exact fun heq => hne (Prod.mk.inj heq).1
    · exact List.cons_subset.2 ⟨hw, List.cons_subset.2 ⟨hw', List.nil_subset _⟩⟩
  obtain ⟨l, hperm, hsub⟩ := hpair
  exact ⟨l.map Prod.snd, hperm.map Prod.snd, (hsub.map Prod.snd).trans h.sublist⟩

theorem compatible_spec {entity : ResolvedPerson} (hkeys : entity.Keyed)
    {components : List NameComponent} {gender : Option Gender} {assignment : List (ℕ × Role)}
    (h : compatible u entity components gender = some assignment) :
    CompatibleSpec u entity components gender assignment := by
  unfold compatible at h
  split_ifs at h with hgender
  have hgenders : ∀ g g', entity.gender = some g → gender = some g' → g = g' := by
    intro g g' hg hg'
    by_contra hne
    rw [hg, hg', genderConflict] at hgender
    exact hgender (by simpa using hne)
  dsimp only at h
  split at h
  · cases h
  · rename_i m hm
    obtain ⟨ms, hms⟩ := matchWords_spec hkeys hm
    split_ifs at h with hsurname hinitials hnames
    · -- evidence by initials
      obtain ⟨hletters, hentries⟩ := matchInitials_spec u h
      rw [map_snd_mentionInitials] at hletters
      have hlength : (mentionInitials components).length = (initialLetters components).length := by
        rw [← map_snd_mentionInitials, List.length_map]
      rw [hlength] at hletters
      have hne : initialLetters components ≠ [] := by
        rw [← map_snd_mentionInitials]
        intro hnil
        rw [List.map_eq_nil_iff.1 hnil] at hinitials
        cases hinitials
      rw [hms.roles, List.append_nil, List.mem_reverse] at hsurname
      obtain ⟨⟨r, w⟩, hw, hr⟩ := List.mem_map.1 hsurname
      obtain rfl : r = .surname := hr
      have hword : w ∈ wordTexts components := by
        rw [← map_snd_mentionWords]
        exact hms.sublist.subset (List.mem_map.2 ⟨_, hw, rfl⟩)
      refine ⟨hgenders, ⟨w, hms.known _ hw, .inr ⟨hne, hword, hletters⟩⟩, hms.agree, fun a ha => ?_⟩
      rcases hentries a ha with ha | hcl
      · rcases hms.entries a (List.mem_append_left _ ha) with hnil | hcw
        · cases hnil
        · exact .inl hcw
      · exact .inr hcl
    · -- evidence by another name
      rw [not_or, not_and_or, not_not, not_not] at hnames
      have hnil : initialLetters components = [] := by
        rw [← map_snd_mentionInitials]
        rw [Bool.not_eq_true, Bool.not_eq_false'] at hinitials
        rw [List.isEmpty_iff.1 hinitials, List.map_nil]
      have hname : ∃ r ∈ [Role.first, Role.patronymic], r ∈ m.matchedRoles ∧ Role.surname ≠ r := by
        rcases hnames.2 with hr | hr
        · exact ⟨.first, by decide, hr, by decide⟩
        · exact ⟨.patronymic, by decide, hr, by decide⟩
      obtain ⟨r, hr, hmatched, hne⟩ := hname
      obtain ⟨w, w', hw, hw', hsub⟩ := hms.subperm hne hsurname hmatched
      rw [map_snd_mentionWords] at hsub
      cases h
      refine ⟨hgenders, ⟨w, hw, .inl ⟨hnil, r, hr, w', hw', hsub⟩⟩, hms.agree, fun a ha => ?_⟩
      rcases hms.entries a ha with hnil | hcw
      · cases hnil
      · exact .inl hcw

/-! ### What a person learns from a mention -/

/-- The word of the mention that has the role. -/
def wordWithRole (words : List (NameComponent × Text)) (r : Role) : Option Text :=
  (words.find? fun cw => cw.1.role == some r).map Prod.snd

theorem wordWithRole_cons (cw : NameComponent × Text)
    (words : List (NameComponent × Text)) (r : Role) :
    wordWithRole (cw :: words) r = if cw.1.role = some r then some cw.2
      else wordWithRole words r := by
  rw [wordWithRole, List.find?_cons]
  by_cases h : cw.1.role = some r
  · rw [if_pos h, h, beq_self_eq_true]
    rfl
  · rw [if_neg h, beq_false_of_ne h]
    rfl

/-- **What a person knows after a mention**: what it knew before, and otherwise the word of the
mention. -/
theorem lookup_learned (words : List (NameComponent × Text))
    (parts surfaces : RoleDict) (r : Role) :
    (words.foldl (learnPart u) (parts, surfaces)).1.lookup r =
      (parts.lookup r).or (wordWithRole words r) := by
  induction words generalizing parts surfaces with
  | nil => exact (Option.or_none).symm
  | cons cw words ih =>
    rw [List.foldl_cons, learnPart, wordWithRole_cons]
    split
    · rename_i hnone
      rw [ih, hnone, if_neg (fun h => by cases h)]
    · rename_i role hrole
      split_ifs with hknown hr hr
      · -- the role is known already
        obtain rfl : role = r := Option.some.inj (hrole.symm.trans hr)
        obtain ⟨w, hw⟩ := Option.isSome_iff_exists.1 hknown
        rw [ih, hw, Option.some_or, Option.some_or]
      · rw [ih]
      · obtain rfl : role = r := Option.some.inj (hrole.symm.trans hr)
        rw [Option.not_isSome_iff_eq_none] at hknown
        rw [ih, List.lookup_append, hknown, Option.none_or, Option.none_or, List.lookup_cons,
          beq_self_eq_true, Option.some_or]
      · have hne : r ≠ role := fun heq => hr (by rw [hrole, heq])
        rw [ih, List.lookup_append, List.lookup_cons, beq_false_of_ne hne, List.lookup_nil,
          Option.or_none]

theorem keyed_learned (words : List (NameComponent × Text)) (parts surfaces : RoleDict)
    (hkeys : (parts.map Prod.fst).Nodup) :
    ((words.foldl (learnPart u) (parts, surfaces)).1.map Prod.fst).Nodup := by
  induction words generalizing parts surfaces with
  | nil => exact hkeys
  | cons cw words ih =>
    rw [List.foldl_cons, learnPart]
    split
    · exact ih parts surfaces hkeys
    · rename_i role hrole
      split_ifs with hknown
      · exact ih parts surfaces hkeys
      · refine ih _ _ ?_
        rw [Option.not_isSome_iff_eq_none, List.lookup_eq_none_iff] at hknown
        rw [List.map_append, List.nodup_append]
        refine ⟨hkeys, List.nodup_singleton _, fun a ha b hb => ?_⟩
        obtain ⟨rw', hmem, rfl⟩ := List.mem_map.1 ha
        rw [List.map_singleton, List.mem_singleton] at hb
        rw [hb]
        intro heq
        have heq : rw'.1 = role := heq
        have hno := hknown rw' hmem
        rw [heq, bne_self_eq_false] at hno
        cases hno

/-! ### Sound persons -/

/-- The decision stands for `d`: it is the same one, and its components have perhaps been given
roles. -/
structure AnnotatedFrom (d o : DecisionObject) : Prop where
  id_eq : o.1 = d.1
  relabels : List.Forall₂ Relabels d.2.components o.2.components
  gender_eq : o.2.candidate.metadata.gender = d.2.candidate.metadata.gender
  rest_eq : o.2.withComponents [] = d.2.withComponents []

/-- **The mentions of a person agree**: their words with a role are those that the person has in
this role, their genders are that of the person, and all but the founding one were merged on
evidence. -/
structure ResolvedPerson.Sound (p : ResolvedPerson) : Prop where
  keyed : p.Keyed
  parts : ∀ o ∈ p.decisions, ∀ c ∈ o.2.components, ∀ r w, c.role = some r →
    c.normalizedWord? = some w → p.parts.lookup r = some w
  gender : ∀ o ∈ p.decisions, ∀ g, o.2.candidate.metadata.gender = some g → p.gender = some g
  evidence : ∃ founding rest, p.decisions = founding :: rest ∧
    ∀ o ∈ rest, Evidence u p.parts o.2.components

variable {u}

theorem Evidence.mono {parts parts' : RoleDict} {components : List NameComponent}
    (hparts : ∀ r w, parts.lookup r = some w → parts'.lookup r = some w)
    (h : Evidence u parts components) : Evidence u parts' components := by
  obtain ⟨surname, hsurname, ⟨hnil, r, hr, w, hw, hsub⟩ | ⟨hne, hmem, hletters⟩⟩ := h
  · exact ⟨surname, hparts _ _ hsurname, .inl ⟨hnil, r, hr, w, hparts _ _ hw, hsub⟩⟩
  · refine ⟨surname, hparts _ _ hsurname, .inr ⟨hne, hmem, hletters.imp ?_⟩⟩
    rintro letter role ⟨known, hknown, hfits⟩
    exact ⟨known, hparts _ _ hknown, hfits⟩

/-- Evidence is a matter of words and letters, not of roles. -/
theorem Evidence.of_relabels {parts : RoleDict} {cs cs' : List NameComponent}
    (hcs : List.Forall₂ Relabels cs cs') (h : Evidence u parts cs) : Evidence u parts cs' := by
  rw [Evidence, wordTexts_of_relabels hcs, initialLetters_of_relabels hcs]
  exact h

/-- The roles of a mention are different. -/
def DistinctRoles (components : List NameComponent) : Prop :=
  (components.filterMap NameComponent.role).Nodup

instance (components : List NameComponent) : Decidable (DistinctRoles components) :=
  inferInstanceAs (Decidable (List.Nodup _))

/-- Two components with one role are the same one. -/
theorem DistinctRoles.eq {components : List NameComponent} (h : DistinctRoles components)
    {c c' : NameComponent} (hc : c ∈ components) (hc' : c' ∈ components) {r : Role}
    (hr : c.role = some r) (hr' : c'.role = some r) : c = c' := by
  have hpairs := List.pairwise_filterMap.1 h
  rcases PySeq.eq_or_rel_of_pairwise hpairs hc hc' with heq | hne | hne
  · exact heq
  · exact absurd rfl (hne r hr r hr')
  · exact absurd rfl (hne r hr' r hr)

/-- The word with a role is the one that is found for it. -/
theorem wordWithRole_eq {words : List (NameComponent × Text)} {r : Role} {w : Text}
    (hmem : ∃ c, (c, w) ∈ words ∧ c.role = some r)
    (hunique : ∀ cw ∈ words, cw.1.role = some r → cw.2 = w) : wordWithRole words r = some w := by
  obtain ⟨c, hcw, hr⟩ := hmem
  cases hfind : words.find? fun cw => cw.1.role == some r with
  | none =>
    have hno := List.find?_eq_none.1 hfind (c, w) hcw
    rw [hr, beq_self_eq_true] at hno
    exact absurd rfl hno
  | some cw =>
    have hrole := List.find?_some hfind
    rw [wordWithRole, hfind, Option.map_some,
      hunique cw (List.mem_of_find?_eq_some hfind) (eq_of_beq hrole)]

/-! ### One mention -/

variable {p : ResolvedPerson} {o : DecisionObject} {components : List NameComponent}
  {gender : Option Gender} {aliasType : AliasType} {assignment : List (ℕ × Role)}

theorem lookup_absorb (r : Role) : (absorb u p o components gender aliasType).parts.lookup r =
    (p.parts.lookup r).or (wordWithRole (mentionWords components) r) :=
  lookup_learned u _ _ _ r

/-- A role that has a word keeps it. -/
theorem lookup_absorb_of_known {r : Role} {w : Text} (h : p.parts.lookup r = some w) :
    (absorb u p o components gender aliasType).parts.lookup r = some w := by
  rw [lookup_absorb, h, Option.some_or]

/-- After a mention its words with a role are known, when they agree with what was known before and
with one another. -/
theorem absorb_learns {c : NameComponent} (hc : c ∈ components) {r : Role} {w : Text}
    (hr : c.role = some r) (hw : c.normalizedWord? = some w)
    (hagree : p.parts.lookup r = some w ∨ (p.parts.lookup r = none ∧ ∀ c' ∈ components,
      c'.role = some r → ∀ w', c'.normalizedWord? = some w' → w' = w)) :
    (absorb u p o components gender aliasType).parts.lookup r = some w := by
  rcases hagree with hknown | ⟨hnone, hunique⟩
  · exact lookup_absorb_of_known hknown
  · rw [lookup_absorb, hnone, Option.none_or]
    refine wordWithRole_eq ⟨c, mem_mentionWords.2 ⟨hc, hw⟩, hr⟩ fun cw hcw hrole => ?_
    obtain ⟨hmem, hword⟩ := mem_mentionWords.1 hcw
    exact hunique cw.1 hmem hrole cw.2 hword

/-- The person that a mention founds. -/
def foundedPerson (u : Unicode) (ordinal : ℕ) (d : DecisionObject) : ResolvedPerson :=
  absorb u { ordinal := ordinal, gender := d.2.candidate.metadata.gender } d d.2.components
    d.2.candidate.metadata.gender (d.2.candidate.metadata.aliasType.getD .full)

/-- The mention with the roles that a match has given to its components. -/
def annotatedMention (d : DecisionObject) (assignment : List (ℕ × Role)) : DecisionObject :=
  (d.1, d.2.withComponents (annotateRoles d.2.components assignment))

/-- The person after a mention has been merged into it. -/
def mergedPerson (u : Unicode) (p : ResolvedPerson) (d : DecisionObject)
    (assignment : List (ℕ × Role)) : ResolvedPerson :=
  absorb u p (annotatedMention d assignment) (annotateRoles d.2.components assignment)
    d.2.candidate.metadata.gender (d.2.candidate.metadata.aliasType.getD .full)

/-- **A new person is sound**, when the roles of its first mention are different. -/
theorem foundedPerson_sound {d : DecisionObject} (ordinal : ℕ)
    (hroles : DistinctRoles d.2.components) :
    (foundedPerson u ordinal d).Sound u := by
  have hdecisions : ∀ o ∈ (foundedPerson u ordinal d).decisions, o = d :=
    fun o ho => List.mem_singleton.1 ho
  refine ⟨keyed_learned u _ _ _ List.nodup_nil, fun o ho c hc r w hr hw => ?_, fun o ho g hg => ?_,
    d, [], rfl, fun _ h => nomatch h⟩
  · rw [hdecisions o ho] at hc
    refine absorb_learns hc hr hw (.inr ⟨rfl, fun c' hc' hr' w' hw' => ?_⟩)
    rw [hroles.eq hc' hc hr' hr] at hw'
    exact Option.some.inj (hw'.symm.trans hw)
  · rw [hdecisions o ho] at hg
    simp only [foundedPerson, absorb]
    split_ifs <;> exact hg

/-- The resolution gives a role only to an initial or to a word that fits. -/
theorem annotated_cases (h : CompatibleSpec u p components gender assignment) {i : ℕ}
    {c' : NameComponent} (hc' : (annotateRoles components assignment)[i]? = some c') :
    ∃ c, components[i]? = some c ∧ c' = { c with role := c'.role } ∧
      (c'.role = c.role ∨ ∃ r, c'.role = some r ∧
        ((∃ w, c.normalizedWord? = some w ∧ Fits p (c, w) r) ∨ c.normalizedWord? = none)) := by
  obtain ⟨c, hc, heq, hrole⟩ := annotateRoles_getElem? assignment components i c' hc'
  refine ⟨c, hc, heq, hrole.imp_right ?_⟩
  rintro ⟨r, hmem, hr⟩
  refine ⟨r, hr, ?_⟩
  -- the entry is that of a component at this very index
  have hself {c₁ : NameComponent} (hc₁ : c₁ ∈ components)
    (hi : i = components.idxOf c₁) : c = c₁ := by
    rw [hi, List.getElem?_eq_getElem (List.idxOf_lt_length_of_mem hc₁), List.getElem_idxOf] at hc
    exact (Option.some.inj hc).symm
  rcases h.entries _ hmem with ⟨cw, hcw, hi, hfits⟩ | ⟨cl, hcl, hi⟩
  · obtain ⟨hcmem, hw⟩ := mem_mentionWords.1 hcw
    obtain rfl := hself hcmem hi
    exact .inl ⟨cw.2, hw, hfits⟩
  · obtain ⟨hcmem, hl⟩ := mem_mentionInitials.1 hcl
    obtain rfl := hself hcmem hi
    exact .inr (normalizedWord?_of_letter hl)

/-- The annotation only gives roles. -/
theorem annotateRoles_relabels (h : CompatibleSpec u p components gender assignment) :
    List.Forall₂ Relabels components (annotateRoles components assignment) := by
  refine List.forall₂_iff_get.2 ⟨(length_annotateRoles _ _).symm, fun i hi hi' => ?_⟩
  obtain ⟨c, hc, heq, hrole⟩ := annotated_cases h (List.getElem?_eq_getElem hi')
  obtain rfl : components[i] = c := Option.some.inj ((List.getElem?_eq_getElem hi).symm.trans hc)
  refine ⟨heq, fun w r hw hr => ?_⟩
  rcases hrole with hsame | ⟨r', hr', ⟨w', -, hfits⟩ | hnone⟩
  · exact hsame.trans hr
  · rcases hfits with hown | ⟨hunlabelled, -⟩
    · exact hr'.trans (hown.symm.trans hr)
    · exact absurd (hunlabelled.symm.trans hr) (by simp)
  · exact absurd (hnone.symm.trans hw) (by simp)

/-- A word with a role of an annotated mention had it before, or the person knows it. -/
theorem word_of_annotated (h : CompatibleSpec u p components gender assignment) {c' : NameComponent}
    (hc' : c' ∈ annotateRoles components assignment) {r : Role} {w : Text} (hr : c'.role = some r)
    (hw : c'.normalizedWord? = some w) :
    (∃ c ∈ components, c.role = some r ∧ c.normalizedWord? = some w) ∨
    p.parts.lookup r = some w := by
  obtain ⟨i, hi⟩ := List.mem_iff_getElem?.1 hc'
  obtain ⟨c, hc, heq, hrole⟩ := annotated_cases h hi
  have hword : c.normalizedWord? = some w := by
    rw [heq] at hw
    exact hw
  have hmem : c ∈ components := List.mem_of_getElem? hc
  rcases hrole with hsame | ⟨r', hr', ⟨w', hw', hown | ⟨-, hknown⟩⟩ | hnone⟩
  · exact .inl ⟨c, hmem, hsame.symm.trans hr, hword⟩
  · obtain rfl : r' = r := Option.some.inj (hr'.symm.trans hr)
    exact .inl ⟨c, hmem, hown, hword⟩
  · obtain rfl : r' = r := Option.some.inj (hr'.symm.trans hr)
    obtain rfl : w' = w := Option.some.inj (hw'.symm.trans hword)
    exact .inr hknown
  · exact absurd (hnone.symm.trans hword) (by simp)

theorem components_annotatedMention (d : DecisionObject) (assignment : List (ℕ × Role)) :
    (annotatedMention d assignment).2.components = annotateRoles d.2.components assignment := rfl

/-- **A person stays sound when a compatible mention is merged into it.** -/
theorem mergedPerson_sound {d : DecisionObject} (hp : p.Sound u)
    (hroles : DistinctRoles d.2.components)
    (h : CompatibleSpec u p d.2.components d.2.candidate.metadata.gender assignment) :
    (mergedPerson u p d assignment).Sound u := by
  have hmono (r : Role) (w : Text) (hr : p.parts.lookup r = some w) :
      (mergedPerson u p d assignment).parts.lookup r = some w := lookup_absorb_of_known hr
  refine ⟨keyed_learned u _ _ _ hp.keyed, fun o ho c hc r w hr hw => ?_, fun o ho g hg => ?_, ?_⟩
  · rcases List.mem_append.1 ho with ho | ho
    · exact hmono r w (hp.parts o ho c hc r w hr hw)
    · rw [List.mem_singleton.1 ho, components_annotatedMention] at hc
      refine absorb_learns hc hr hw ?_
      rcases word_of_annotated h hc hr hw with ⟨c₀, hc₀, hr₀, hw₀⟩ | hknown
      · refine (h.agree (c₀, w) (mem_mentionWords.2 ⟨hc₀, hw₀⟩) r hr₀).symm.imp_right fun hnone =>
          ?_
        refine ⟨hnone, fun c' hc' hr' w' hw' => ?_⟩
        rcases word_of_annotated h hc' hr' hw' with ⟨c₁, hc₁, hr₁, hw₁⟩ | hknown
        · rw [hroles.eq hc₁ hc₀ hr₁ hr₀] at hw₁
          exact Option.some.inj (hw₁.symm.trans hw₀)
        · rw [hnone] at hknown
          cases hknown
      · exact .inl hknown
  · simp only [mergedPerson, absorb]
    rcases List.mem_append.1 ho with ho | ho
    · have hg' := hp.gender o ho g hg
      rw [hg', Option.isNone_some, if_neg Bool.false_ne_true]
    · rw [List.mem_singleton.1 ho] at hg
      cases hpg : p.gender with
      | none => rw [Option.isNone_none, if_pos rfl]; exact hg
      | some g₀ => rw [Option.isNone_some, if_neg Bool.false_ne_true, h.gender g₀ g hpg hg]
  · obtain ⟨founding, rest, hdecisions, hevidence⟩ := hp.evidence
    refine ⟨founding, rest ++ [annotatedMention d assignment], ?_, fun o ho => ?_⟩
    · change p.decisions ++ [annotatedMention d assignment] = _
      rw [hdecisions, List.cons_append]
    · rcases List.mem_append.1 ho with ho | ho
      · exact (hevidence o ho).mono hmono
      · rw [List.mem_singleton.1 ho, components_annotatedMention]
        exact (h.evidence.of_relabels (annotateRoles_relabels h)).mono hmono

/-! ### One mention after the other -/

variable (u)

/-- **What one mention does**: it is merged into one person with which it is compatible, or it
founds a new one. -/
theorem resolveMention_cases (entities : List ResolvedPerson) (d : DecisionObject) :
    (∃ before p after assignment, entities = before ++ p :: after ∧
      compatible u p d.2.components d.2.candidate.metadata.gender = some assignment ∧
      resolveMention u entities d = before ++ mergedPerson u p d assignment :: after) ∨
    resolveMention u entities d = entities ++ [foundedPerson u (entities.length + 1) d] := by
  unfold resolveMention
  dsimp only
  split
  · rename_i i assignment hfound
    left
    obtain ⟨⟨e, j⟩, hmem, hmap⟩ := List.mem_filterMap.1 (hfound ▸ List.mem_singleton_self _)
    obtain ⟨assignment', hcompatible, heq⟩ := Option.map_eq_some_iff.1 hmap
    obtain ⟨rfl, rfl⟩ := Prod.mk.inj heq
    have hget := List.mem_zipIdx_iff_getElem?.1 hmem
    obtain ⟨hlt, hentry⟩ := List.getElem?_eq_some_iff.1 hget
    obtain ⟨before, p, after, heq, hlength, hmodify⟩ :=
      List.exists_of_modify (fun e => mergedPerson u e d assignment') hlt
    refine ⟨before, p, after, assignment', heq, ?_, hmodify⟩
    have hp : p = e := by
      rw [heq, List.getElem?_append_right hlength.le, hlength, Nat.sub_self] at hget
      exact Option.some.inj hget
    rw [hp]
    exact hcompatible
  · exact .inr rfl

/-- The persons after the mentions `ds`: each role of a person has one word, every mention belongs
to exactly one person, and the persons are numbered. -/
structure Resolved (ds : List DecisionObject) (entities : List ResolvedPerson) : Prop where
  keyed : ∀ p ∈ entities, p.Keyed
  partition : ∃ os, List.Forall₂ AnnotatedFrom ds os ∧
    (entities.flatMap ResolvedPerson.decisions).Perm os
  ordinals : entities.map ResolvedPerson.ordinal = List.range' 1 entities.length

theorem AnnotatedFrom.refl (d : DecisionObject) : AnnotatedFrom d d :=
  ⟨rfl, List.forall₂_same.2 fun _ _ => .refl _, rfl, rfl⟩

variable {u}

theorem annotatedFrom_annotatedMention {d : DecisionObject}
    (h : CompatibleSpec u p d.2.components d.2.candidate.metadata.gender assignment) :
    AnnotatedFrom d (annotatedMention d assignment) :=
  ⟨rfl, annotateRoles_relabels h, rfl, rfl⟩

/-- A property of the persons is kept when the person that a mention merges into and the person that
it founds have it. -/
theorem forall_mem_resolveMention {P : ResolvedPerson → Prop} {entities : List ResolvedPerson}
    (h : ∀ p ∈ entities, P p) (d : DecisionObject)
    (hmerge : ∀ p assignment, P p →
      compatible u p d.2.components d.2.candidate.metadata.gender = some assignment →
        P (mergedPerson u p d assignment))
    (hfound : P (foundedPerson u (entities.length + 1) d)) :
    ∀ p ∈ resolveMention u entities d, P p := by
  intro q hq
  rcases resolveMention_cases u entities d
    with ⟨before, p, after, assignment, rfl, hmatch, hnew⟩ | hnew
  · rw [hnew, List.mem_append, List.mem_cons] at hq
    rcases hq with hq | rfl | hq
    · exact h q (List.mem_append_left _ hq)
    · exact hmerge p assignment (h p List.mem_append_cons_self) hmatch
    · exact h q (List.mem_append_right _ (List.mem_cons_of_mem _ hq))
  · rw [hnew] at hq
    rcases List.mem_append.1 hq with hq | hq
    · exact h q hq
    · rw [List.mem_singleton.1 hq]
      exact hfound

/-- **One mention keeps the persons sound.** -/
theorem resolveMention_sound {entities : List ResolvedPerson} (h : ∀ p ∈ entities, p.Sound u)
    (d : DecisionObject) (hroles : DistinctRoles d.2.components) :
    ∀ p ∈ resolveMention u entities d, p.Sound u :=
  forall_mem_resolveMention h d
    (fun _ _ hp hmatch => mergedPerson_sound hp hroles (compatible_spec u hp.keyed hmatch))
    (foundedPerson_sound _ hroles)

/-- **One mention keeps the persons apart.** -/
theorem Resolved.mention {ds : List DecisionObject} {entities : List ResolvedPerson}
    (h : Resolved ds entities) (d : DecisionObject) :
    Resolved (ds ++ [d]) (resolveMention u entities d) := by
  have hkeyed : ∀ p ∈ resolveMention u entities d, p.Keyed :=
    forall_mem_resolveMention h.keyed d (fun _ _ hp _ => keyed_learned u _ _ _ hp)
      (keyed_learned u _ _ _ List.nodup_nil)
  obtain ⟨os, hos, hperm⟩ := h.partition
  rcases resolveMention_cases u entities d
    with ⟨before, p, after, assignment, heq, hmatch, hnew⟩ | hnew
  · -- the mention is merged into `p`
    have hp : p.Keyed := h.keyed p (by rw [heq]; exact List.mem_append_cons_self)
    refine ⟨hkeyed, ⟨os ++ [annotatedMention d assignment], List.rel_append hos
      (.cons (annotatedFrom_annotatedMention (compatible_spec u hp hmatch)) .nil), ?_⟩, ?_⟩
    · rw [heq, List.flatMap_append, List.flatMap_cons] at hperm
      rw [hnew, List.flatMap_append, List.flatMap_cons]
      change (before.flatMap _ ++ ((p.decisions ++ [annotatedMention d assignment]) ++ _)).Perm _
      rw [List.append_assoc]
      refine .trans (List.Perm.append_left _ (List.Perm.append_left _ List.perm_append_comm)) ?_
      rw [← List.append_assoc, ← List.append_assoc, List.append_assoc (before.flatMap _)]
      exact hperm.append_right _
    · have hordinals := h.ordinals
      rw [heq, List.map_append, List.map_cons, List.length_append, List.length_cons] at hordinals
      rw [hnew, List.map_append, List.map_cons, List.length_append, List.length_cons]
      exact hordinals
  · -- the mention founds a person
    refine ⟨hkeyed, ⟨os ++ [d], List.rel_append hos (.cons (.refl d) .nil), ?_⟩, ?_⟩
    · rw [hnew, List.flatMap_append]
      exact hperm.append_right _
    · rw [hnew, List.map_append, h.ordinals, List.length_append, List.length_singleton,
        List.range'_concat, Nat.one_mul, Nat.add_comm 1]
      rfl

variable (u)

/-- The mentions of a document, whatever their components, are divided among the persons. -/
theorem resolved_resolvePersonEntities (ds : List DecisionObject) :
    Resolved ds (resolvePersonEntities u ds) := by
  have hrun (todo : List DecisionObject) : Resolved todo (todo.foldl (resolveMention u) []) := by
    induction todo using List.reverseRecOn with
    | nil => exact ⟨(fun _ h => nomatch h), ⟨[], .nil, .refl _⟩, rfl⟩
    | append_singleton todo d ih =>
      rw [List.foldl_concat]
      exact ih.mention d
  have h := hrun (PySeq.sortedBy (fun d : DecisionObject => d.2.candidate.start) ds)
  obtain ⟨os, hos, hperm⟩ := h.partition
  obtain ⟨os', hos', hperm'⟩ := List.perm_comp_forall₂ (PySeq.sortedBy_perm _ ds).symm hos
  exact ⟨h.keyed, ⟨os', hos', hperm.trans hperm'.symm⟩, h.ordinals⟩

/-- The persons of a document whose mentions have different roles are sound. -/
theorem sound_of_mem_resolvePersonEntities {ds : List DecisionObject}
    (hroles : ∀ d ∈ ds, DistinctRoles d.2.components) :
    ∀ p ∈ resolvePersonEntities u ds, p.Sound u :=
  List.foldlRecOn (motive := fun entities : List ResolvedPerson => ∀ p ∈ entities, p.Sound u) _ _
    (fun _ h => nomatch h) fun _ h d hd =>
      resolveMention_sound h d (hroles d (PySeq.mem_sortedBy.1 hd))

/-- No mention of a person has an empty word when those of the document have none. -/
theorem Resolved.word_ne_nil {ds : List DecisionObject} {entities : List ResolvedPerson}
    (h : Resolved ds entities) (hwords : ∀ d ∈ ds, ∀ c ∈ d.2.components, c.kind ≠ .word [])
    {p : ResolvedPerson} (hp : p ∈ entities) {o : DecisionObject} (ho : o ∈ p.decisions)
    {c : NameComponent} (hc : c ∈ o.2.components) : c.kind ≠ .word [] := by
  obtain ⟨os, hos, hperm⟩ := h.partition
  have hmem : o ∈ os := hperm.mem_iff.1 (List.mem_flatMap.2 ⟨p, hp, ho⟩)
  obtain ⟨d, hd, hfrom⟩ := PySeq.exists_of_forall₂ hos.flip hmem
  obtain ⟨c₀, hc₀, hrelabels⟩ := PySeq.exists_of_forall₂ hfrom.relabels.flip hc
  rw [hrelabels.eq]
  exact hwords d hd c₀ hc₀

/-- **Entity resolution never merges conflicting people.** -/
theorem resolvePersonEntities_sound (ds : List DecisionObject)
    (hroles : ∀ d ∈ ds, DistinctRoles d.2.components)
    (hwords : ∀ d ∈ ds, ∀ c ∈ d.2.components, c.kind ≠ .word []) :
    (∀ p ∈ resolvePersonEntities u ds,
      (∀ o ∈ p.decisions, ∀ c ∈ o.2.components, ∀ w r, c.kind = .word w → c.role = some r →
        p.parts.lookup r = some w) ∧
      (∀ o ∈ p.decisions, ∀ o' ∈ p.decisions, ∀ g g', o.2.candidate.metadata.gender = some g →
        o'.2.candidate.metadata.gender = some g' → g = g') ∧
      ∃ founding rest, p.decisions = founding :: rest ∧
        ∀ o ∈ rest, Evidence u p.parts o.2.components) ∧
    ∃ os, List.Forall₂ AnnotatedFrom ds os ∧
      ((resolvePersonEntities u ds).flatMap ResolvedPerson.decisions).Perm os := by
  have h := resolved_resolvePersonEntities u ds
  have hsound := sound_of_mem_resolvePersonEntities u hroles
  refine ⟨fun p hp => ⟨fun o ho c hc w r hw hr => ?_, fun o ho o' ho' g g' hg hg' => ?_,
    (hsound p hp).evidence⟩, h.partition⟩
  · refine (hsound p hp).parts o ho c hc r w hr ?_
    have hne : w ≠ [] := by
      rintro rfl
      exact h.word_ne_nil hwords hp ho hc hw
    unfold NameComponent.normalizedWord?
    rw [hw]
    split
    · rename_i heq
      cases heq
      exact absurd rfl hne
    · rename_i heq
      cases heq
      rfl
    · rename_i heq
      cases heq
  · have hg := (hsound p hp).gender o ho g hg
    rw [(hsound p hp).gender o' ho' g' hg'] at hg
    exact (Option.some.inj hg).symm

/-- A mention of a person at an offset. -/
def nameMention (id start : ℕ) (value : Text) (components : List NameComponent) : DecisionObject :=
  (id, { candidate := {
           type := .fullName
           value := value
           start := start
           stop := start + value.length
           detector := "fio".toList
           metadata := { gender := some .masc, nameParts := some components } }
         decision := .mask
         confidence := 1 })

/-- "Иванов Иван", and then "И. Иванов". -/
def ivanov : List DecisionObject :=
  [nameMention 0 0 "Иванов Иван".toList
    [⟨.word "иванов".toList, "Иванов".toList, 0, 6, some .surname⟩,
     ⟨.word "иван".toList, "Иван".toList, 7, 11, some .first⟩],
   nameMention 1 19 "И. Иванов".toList
    [⟨.initial 'И', "И".toList, 0, 2, none⟩,
     ⟨.word "иванов".toList, "Иванов".toList, 3, 9, some .surname⟩]]

example : ((resolvePersonEntities basicUnicode ivanov).map fun p =>
    (p.decisions.map Prod.fst, p.nominal)) = [([0, 1], "Иванов Иван".toList)] := by decide +kernel

theorem resolvePersonEntities_sound_ivanov :
    (∀ p ∈ resolvePersonEntities basicUnicode ivanov,
      (∀ o ∈ p.decisions, ∀ c ∈ o.2.components, ∀ w r, c.kind = .word w → c.role = some r →
        p.parts.lookup r = some w) ∧
      (∀ o ∈ p.decisions, ∀ o' ∈ p.decisions, ∀ g g', o.2.candidate.metadata.gender = some g →
        o'.2.candidate.metadata.gender = some g' → g = g') ∧
      ∃ founding rest, p.decisions = founding :: rest ∧
        ∀ o ∈ rest, Evidence basicUnicode p.parts o.2.components) ∧
    ∃ os, List.Forall₂ AnnotatedFrom ivanov os ∧
      ((resolvePersonEntities basicUnicode ivanov).flatMap ResolvedPerson.decisions).Perm os :=
  resolvePersonEntities_sound basicUnicode ivanov (by decide) (by decide)

end PiiProxy
