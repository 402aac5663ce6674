import PiiProxy.Demasking.Demasker
import PiiProxy.Replacement.Tokens

/-!
# Demasking tokens

In token mode the value-based demasker restores the source text when all mentions of an entity have
one surface and no issued token was in the text before. On any other text it replaces every
occurrence of an issued token once. Both rest on the shape of tokens: an angle bracket stands at
their ends only, so that no two tokens overlap, and the ids of the entities are different.

## Main definitions

* `DecisionsApart`: personal decisions about disjoint spans of the text, in any order.
* `OneSurface`: all mentions of an entity have the surface of the first one.

## Main results

* `apart_tokenRules`: no two issued tokens can overlap.
* `demask_tokenMode`: demasking undoes token mode, and replaces every issued token on any text.
-/

namespace PiiProxy

/-! ### The decisions that the groups hold -/

/-- The object stands for a decision of the list: its identity and its surface are those of the
decision. -/
def StandsIn (ds : List DecisionObject) (o : DecisionObject) : Prop :=
  ∃ d ∈ ds, o.1 = d.1 ∧ o.2.candidate.value = d.2.candidate.value

private theorem resolveMention_standsIn {u : Unicode} {ds : List DecisionObject}
    {entities : List ResolvedPerson} {d : DecisionObject} (hd : d ∈ ds)
    (h : ∀ p ∈ entities, ∀ o ∈ p.decisions, StandsIn ds o) :
    ∀ p ∈ resolveMention u entities d, ∀ o ∈ p.decisions, StandsIn ds o := by
  intro p hp o ho
  unfold resolveMention at hp
  dsimp only at hp
  split at hp
  · obtain ⟨k, hk, rfl⟩ := List.mem_iff_getElem.mp hp
    have hlt : k < entities.length := by simpa using hk
    rw [List.getElem_modify] at ho
    split at ho
    · rcases List.mem_append.mp ho with ho | ho
      · exact h _ (List.getElem_mem hlt) o ho
      · rw [List.mem_singleton.mp ho]
        exact ⟨d, hd, rfl, rfl⟩
    · exact h _ (List.getElem_mem hlt) o ho
  · rcases List.mem_append.mp hp with hp | hp
    · exact h p hp o ho
    · rw [List.mem_singleton.mp hp] at ho
      obtain rfl : o = d := by simpa [absorb] using ho
      exact ⟨o, hd, rfl, rfl⟩

theorem standsIn_resolvePersonEntities (u : Unicode) (ds : List DecisionObject) :
    ∀ p ∈ resolvePersonEntities u ds, ∀ o ∈ p.decisions, StandsIn ds o := by
  refine List.foldlRecOn
    (motive := fun entities : List ResolvedPerson =>
      ∀ p ∈ entities, ∀ o ∈ p.decisions, StandsIn ds o) _ _ (fun p hp => by cases hp) ?_
  intro entities h d hd
  exact resolveMention_standsIn (PySeq.mem_sortedBy.mp hd) h

private theorem groupDecision_standsIn {u : Unicode} {ds : List DecisionObject}
    {persons : List ResolvedPerson} {st : Grouping} {d : DecisionObject} (hd : d ∈ ds)
    (hpersons : ∀ p ∈ persons, ∀ o ∈ p.decisions, StandsIn ds o)
    (h : ∀ g ∈ st.groups, ∀ o ∈ g.decisions, StandsIn ds o) :
    ∀ g ∈ (groupDecision u persons st d).groups, ∀ o ∈ g.decisions, StandsIn ds o := by
  have hobject : StandsIn ds (d.1, ((resolvedBy persons d.1).map Prod.snd).getD d.2) := by
    cases hresolved : resolvedBy persons d.1 with
    | none => exact ⟨d, hd, rfl, rfl⟩
    | some found =>
      obtain ⟨p, hp, hlookup⟩ := List.exists_of_findSome?_eq_some hresolved
      obtain ⟨object, hobject, rfl⟩ := Option.map_eq_some_iff.mp hlookup
      exact hpersons p hp _ (mem_of_lookup_eq_some hobject)
  intro g hg o ho
  unfold groupDecision at hg
  dsimp only at hg
  split at hg
  · obtain ⟨k, hk, rfl⟩ := List.mem_iff_getElem.mp hg
    have hlt : k < st.groups.length := by simpa using hk
    rw [List.getElem_modify] at ho
    split at ho
    · rcases List.mem_cons.mp ho with rfl | ho
      · exact h _ (List.getElem_mem hlt) _ List.mem_cons_self
      · rcases List.mem_append.mp ho with ho | ho
        · exact h _ (List.getElem_mem hlt) o (List.mem_cons_of_mem _ ho)
        · rw [List.mem_singleton.mp ho]
          exact hobject
    · exact h _ (List.getElem_mem hlt) o ho
  · rcases List.mem_append.mp hg with hg | hg
    · exact h g hg o ho
    · rw [List.mem_singleton.mp hg] at ho
      rw [List.mem_singleton.mp ho]
      exact hobject

/-- The groups hold the decisions, perhaps with other roles of name components. -/
theorem standsIn_groups (u : Unicode) (ds : List DecisionObject) :
    ∀ g ∈ groupPersonalDecisions u ds, ∀ o ∈ g.decisions, StandsIn ds o := by
  have hpersons (p) (hp : p ∈ resolvePersonEntities u ((ds.filter (·.2.isPersonal)).filter fun d =>
      d.2.candidate.type = .fullName ∧ d.2.components ≠ [])) (o) (ho : o ∈ p.decisions) :
      StandsIn ds o := by
    obtain ⟨d, hd, hstands⟩ := standsIn_resolvePersonEntities u _ p hp o ho
    exact ⟨d, List.mem_of_mem_filter (List.mem_of_mem_filter hd), hstands⟩
  refine List.foldlRecOn
    (motive := fun st : Grouping => ∀ g ∈ st.groups, ∀ o ∈ g.decisions, StandsIn ds o) _ _
    (fun g hg => by cases hg) ?_
  intro st h d hd
  exact groupDecision_standsIn (List.mem_of_mem_filter (PySeq.mem_sortedBy.mp hd)) hpersons h

/-! ### Tokens do not overlap -/

/-- An id has no angle brackets. -/
theorem IsEntityId.bracket_notMem {id : Text} (h : IsEntityId id) : '<' ∉ id ∧ '>' ∉ id := by
  obtain ⟨type, n, rfl⟩ := h
  have htype : '<' ∉ tokenPrefix type ∧ '>' ∉ tokenPrefix type := by
    cases type <;> decide
  have hdigit (c : Char) (hc : c ∈ showNat n) : c.isDigit = true :=
    Nat.isDigit_of_mem_toDigits (by decide) (by decide) hc
  constructor
  · intro hmem
    simp only [List.mem_append, List.mem_singleton] at hmem
    rcases hmem with (hmem | hmem) | hmem
    · exact htype.1 hmem
    · exact absurd hmem (by decide)
    · exact absurd (hdigit _ hmem) (by decide)
  · intro hmem
    simp only [List.mem_append, List.mem_singleton] at hmem
    rcases hmem with (hmem | hmem) | hmem
    · exact htype.2 hmem
    · exact absurd hmem (by decide)
    · exact absurd (hdigit _ hmem) (by decide)

/-- Of two tokens that begin one text, each is the other. -/
theorem tokenFor_eq_of_begins {id id' s : Text} (hid : IsEntityId id) (hid' : IsEntityId id')
    (h : tokenFor id <+: s) (h' : tokenFor id' <+: s) : tokenFor id = tokenFor id' := by
  have hshort {a b : Text} (ha : '>' ∉ b) (hab : tokenFor a <+: tokenFor b) :
      tokenFor a = tokenFor b := by
    rcases List.prefix_concat_iff.mp (show '<' :: a ++ ['>'] <+: '<' :: b ++ ['>'] from hab)
      with heq | hin
    · exact heq
    · have hmem : '>' ∈ '<' :: b := hin.subset (List.mem_append_right _ List.mem_cons_self)
      rcases List.mem_cons.mp hmem with hlt | hmem
      · exact absurd hlt (by decide)
      · exact absurd hmem ha
  rcases List.prefix_or_prefix_of_prefix h h' with hle | hle
  · exact hshort hid'.bracket_notMem.2 hle
  · exact (hshort hid.bracket_notMem.2 hle).symm

/-- The angle bracket that opens a token stands nowhere else in it. -/
theorem tokenFor_drop_ne {id : Text} (hid : IsEntityId id) {k : ℕ} (hk : 0 < k) (t : Text) :
    (tokenFor id).drop k ≠ '<' :: t := by
  intro heq
  obtain ⟨k, rfl⟩ := Nat.exists_eq_add_one.mpr hk
  have hmem : '<' ∈ id ++ ['>'] := by
    refine List.mem_of_mem_drop (i := k) ?_
    have hdrop : (id ++ ['>']).drop k = '<' :: t := heq
    rw [hdrop]
    exact List.mem_cons_self
  rcases List.mem_append.mp hmem with hmem | hmem
  · exact hid.bracket_notMem.1 hmem
  · exact absurd (List.mem_singleton.mp hmem) (by decide)

/-- Rules for different tokens, each with one replacement, are apart. -/
theorem apart_tokenRules {rules : List (Text × Text)} (htokens : ∀ r ∈ rules, IsToken r.1)
    (hnodup : (rules.map Prod.fst).Nodup) : Subst.Apart rules where
  ne_nil r hr := by
    obtain ⟨id, -, htoken⟩ := htokens r hr
    rw [htoken]
    exact List.cons_ne_nil _ _
  eq r hr r' hr' k hk s hdrop hbegins := by
    obtain ⟨id, hid, htoken⟩ := htokens r hr
    obtain ⟨id', hid', htoken'⟩ := htokens r' hr'
    rw [htoken] at hk hdrop
    rw [htoken'] at hbegins
    have hzero : k = 0 := by
      by_contra hne
      cases hrest : (tokenFor id).drop k with
      | nil =>
        rw [List.drop_eq_nil_iff] at hrest
        omega
      | cons c t =>
        rw [hrest] at hdrop
        obtain ⟨x, rfl⟩ := hdrop
        obtain ⟨y, hy⟩ := hbegins
        have hc : '<' = c := (List.cons.inj hy).1
        exact tokenFor_drop_ne hid (Nat.pos_of_ne_zero hne) t (hrest.trans (by rw [hc]))
    refine ⟨hzero, List.inj_on_of_nodup_map hnodup hr' hr ?_⟩
    rw [hzero, List.drop_zero] at hdrop
    rw [htoken, htoken']
    exact tokenFor_eq_of_begins hid' hid hbegins hdrop

/-! ### The spans of token mode -/

variable (rt : Runtime)

/-- The main loop in token mode: the entries stay, and every span is replaced by the token of the
entry that holds its decision. -/
theorem foldlM_placeDecision_tokenMode {ds : List DecisionObject}
    {entries : List (EntityGroup × EntityMapping)} {placed : Placement}
    (h : ds.foldlM (placeDecision rt .tokenMode) { entries := entries } = .ok placed) :
    placed.entries = entries ∧ ∀ sp ∈ placed.spans, ∃ d ∈ ds, ∃ e ∈ entries, ∃ object,
      sp.IsFor d.2 ∧ d.2.isPersonal = true ∧ sp.replacement = e.2.token ∧
        (d.1, object) ∈ e.1.decisions := by
  refine Except.foldlM_invariant_of_mem
    (P := fun st : Placement => st.entries = entries ∧ ∀ sp ∈ st.spans, ∃ d ∈ ds, ∃ e ∈ entries,
      ∃ object, sp.IsFor d.2 ∧ d.2.isPersonal = true ∧ sp.replacement = e.2.token ∧
        (d.1, object) ∈ e.1.decisions) ?_ ⟨rfl, fun sp hsp => by cases hsp⟩ h
  rintro st d st' hd ⟨hentries, hspans⟩ hstep
  obtain ⟨-, hentries', hspans'⟩ | ⟨hpersonal, i, group, mapping, object, hfind, hentries', hspans'⟩
    := placeDecision_eq_ok rt hstep
  · rw [hentries', hspans']
    exact ⟨hentries, hspans⟩
  · obtain ⟨hget, hobject⟩ := findEntry_eq_some hfind
    obtain ⟨hi, hget⟩ := List.getElem?_eq_some_iff.mp hget
    have hmem : (group, mapping) ∈ entries := hentries ▸ hget ▸ List.getElem_mem hi
    have hsame : st'.entries = entries := by
      rw [hentries', ← hentries]
      show st.entries.set i (group, mapping) = st.entries
      rw [← hget, List.set_getElem_self]
    refine ⟨hsame, fun sp hsp => ?_⟩
    rw [hspans'] at hsp
    rcases List.mem_append.mp hsp with hsp | hsp
    · exact hspans sp hsp
    · rw [List.mem_singleton.mp hsp]
      exact ⟨d, hd, (group, mapping), hmem, object, ⟨rfl, rfl⟩, hpersonal, rfl, hobject⟩

/-- Personal decisions about pieces of the text that do not overlap, in any order. -/
structure DecisionsApart (text : Text) (decisions : List PrivacyDecision) : Prop where
  wellFormed : ∀ d ∈ decisions, d.isPersonal = true → d.candidate.WellFormed text
  disjoint : (decisions.filter (·.isPersonal)).Pairwise fun d d' =>
    d.candidate.stop ≤ d'.candidate.start ∨ d'.candidate.stop ≤ d.candidate.start

/-- Spans of decisions that do not overlap are ordered once they are sorted. -/
theorem ordered_sortedBy_spans {text : Text} {decisions : List PrivacyDecision}
    (h : DecisionsApart text decisions) {spans : List Span}
    (hspans : List.Forall₂ Span.IsFor spans (decisions.filter (·.isPersonal))) :
    Splice.Ordered text.length 0 ((PySeq.sortedBy Span.start spans).map Span.edit) := by
  have hmap : spans.map (fun sp => (sp.start, sp.stop)) =
      (decisions.filter (·.isPersonal)).map fun d => (d.candidate.start, d.candidate.stop) := by
    generalize decisions.filter (·.isPersonal) = ds at hspans
    induction hspans with
    | nil => rfl
    | cons hfor _ ih => rw [List.map_cons, List.map_cons, ih, hfor.1, hfor.2]
  have hrange (sp) (hsp : sp ∈ spans) : sp.start < sp.stop ∧ sp.stop ≤ text.length := by
    have hmem := List.mem_map_of_mem (f := fun sp : Span => (sp.start, sp.stop)) hsp
    rw [hmap] at hmem
    obtain ⟨d, hd, heq⟩ := List.mem_map.mp hmem
    obtain ⟨hd, hpersonal⟩ := List.mem_filter.mp hd
    obtain ⟨hstart, hstop⟩ := Prod.mk.inj heq
    rw [← hstart, ← hstop]
    exact ⟨(h.wellFormed d hd hpersonal).start_lt_stop,
      (h.wellFormed d hd hpersonal).stop_le_length⟩
  have hapart : spans.Pairwise fun a b => a.stop ≤ b.start ∨ b.stop ≤ a.start := by
    have hpairs := (List.pairwise_map (f := fun d : PrivacyDecision =>
      (d.candidate.start, d.candidate.stop)) (R := fun a b => a.2 ≤ b.1 ∨ b.2 ≤ a.1)).mpr h.disjoint
    rw [← hmap] at hpairs
    exact List.pairwise_map.mp hpairs
  have hsorted : (PySeq.sortedBy Span.start spans).Pairwise fun a b => a.stop ≤ b.start := by
    have hdisjoint := (PySeq.sortedBy_perm Span.start spans).symm.pairwise hapart Or.symm
    refine ((PySeq.pairwise_sortedBy Span.start spans).and hdisjoint).imp_of_mem ?_
    rintro a b - hb ⟨hle, hab⟩
    have := (hrange b (PySeq.mem_sortedBy.mp hb)).1
    omega
  refine Splice.ordered_of_pairwise 0 _ (Nat.zero_le _) (fun e he => ?_) ?_
  · obtain ⟨sp, hsp, rfl⟩ := List.mem_map.mp he
    obtain ⟨hlt, hle⟩ := hrange sp (PySeq.mem_sortedBy.mp hsp)
    exact ⟨Nat.zero_le _, hlt.le, hle⟩
  · exact List.pairwise_map.mpr hsorted

/-! ### Demasking in token mode -/

/-- All mentions of an entity have the surface of the first one. -/
def OneSurface (u : Unicode) (decisions : List PrivacyDecision) : Prop :=
  ∀ g ∈ groupPersonalDecisions u (decisionObjects decisions), ∀ o ∈ g.decisions,
    o.2.candidate.value = g.representativeValue

/-- Decisions are told apart by their identities. -/
theorem eq_of_mem_decisionObjects {decisions : List PrivacyDecision} {d d' : DecisionObject}
    (hd : d ∈ decisionObjects decisions) (hd' : d' ∈ decisionObjects decisions) (h : d.1 = d'.1) :
    d = d' := by
  obtain ⟨⟨x, i⟩, hx, rfl⟩ := List.mem_map.mp hd
  obtain ⟨⟨y, j⟩, hy, rfl⟩ := List.mem_map.mp hd'
  obtain rfl : i = j := h
  have hxy : some x = some y :=
    (List.mem_zipIdx_iff_getElem?.mp hx).symm.trans (List.mem_zipIdx_iff_getElem?.mp hy)
  rw [Option.some.inj hxy]

/-- The rules of the demasker in token mode are those of the entries. -/
theorem tokenReplacements_entries {sessionSeed text : Text} {decisions : List PrivacyDecision}
    {entries : List (EntityGroup × EntityMapping)}
    (h : buildMappings rt sessionSeed text
      (groupPersonalDecisions rt.unicode (decisionObjects decisions)) [] = .ok entries) :
    tokenReplacements (entries.map Prod.snd) = entries.map (fun e => (e.2.token, e.2.original)) ∧
      Subst.Apart (entries.map fun e => (e.2.token, e.2.original)) := by
  obtain ⟨hgroups, hbuilt⟩ := buildMappings_eq_ok rt h
  have htoken (e) (he : e ∈ entries) : e.2.token = tokenFor e.1.entityId := by
    obtain ⟨used₁, used₂, hbuilt⟩ := hbuilt e he
    obtain ⟨-, -, -, -, -, htoken, -⟩ := buildMapping_eq_ok rt hbuilt
    exact htoken
  have hnodup : (entries.map fun e => e.2.token).Nodup := by
    have hids : (entries.map fun e => e.2.token) =
        (entries.map Prod.fst).map fun g => tokenFor g.entityId := by
      rw [List.map_map]
      exact List.map_congr_left htoken
    rw [hids, hgroups]
    have hnodup := nodup_entityId_groups rt.unicode (decisionObjects decisions)
    have hinj : Function.Injective tokenFor := fun a b hab => by
      simpa [tokenFor] using hab
    simpa only [List.map_map, Function.comp_def] using hnodup.map hinj
  have hkeys : ((entries.map fun e => (e.2.token, e.2.original)).map Prod.fst).Nodup := by
    simpa only [List.map_map, Function.comp_def] using hnodup
  refine ⟨?_, apart_tokenRules (fun r hr => ?_) hkeys⟩
  · have hall : (entries.map Prod.snd).filter (fun m => !m.token.isEmpty) =
        entries.map Prod.snd := by
      refine List.filter_eq_self.mpr fun m hm => ?_
      obtain ⟨e, he, rfl⟩ := List.mem_map.mp hm
      rw [htoken e he]
      rfl
    rw [tokenReplacements, hall, List.map_map]
    exact PyDict.ofPairs_eq_self hkeys
  · obtain ⟨e, he, rfl⟩ := List.mem_map.mp hr
    have hgroup : e.1 ∈ groupPersonalDecisions rt.unicode (decisionObjects decisions) :=
      hgroups ▸ List.mem_map_of_mem he
    exact ⟨e.1.entityId, isEntityId_of_mem_groups e.1 hgroup, htoken e he⟩

/-- The order of the rules does not matter for rules that are apart. -/
theorem apart_sortedBy {rules : List (Text × Text)} (h : Subst.Apart rules)
    (key : Text × Text → ℤ) : Subst.Apart (PySeq.sortedBy key rules) where
  ne_nil r hr := h.ne_nil r (PySeq.mem_sortedBy.mp hr)
  eq r hr r' hr' := h.eq r (PySeq.mem_sortedBy.mp hr) r' (PySeq.mem_sortedBy.mp hr')

/-- **Demasking tokens.** Let `R` be the result of token mode on decisions about disjoint pieces of
the text. If all mentions of an entity have one surface and no issued token is in the text, the
demasker restores the text from the result, as the splice of the record does. And it replaces in any
text every occurrence of an issued token by the original of its entity, once, and nothing else. -/
theorem demask_tokenMode {text sessionSeed : Text} {decisions : List PrivacyDecision}
    (hdecisions : DecisionsApart text decisions) {R : TransformResult}
    (hR : buildTransformResult rt text decisions .tokenMode sessionSeed = .ok R) :
    (OneSurface rt.unicode decisions → (∀ m ∈ R.mappings, ¬ m.token <:+: text) →
      demask rt R.text R.mappings .tokenMode = text ∧
        ∀ record : MappingRecord, record.occurrences = R.occurrences →
          applyDemaskFromRecord R.text record = demask rt R.text R.mappings .tokenMode) ∧
    ∀ u : Text, ∃ es, Splice.Ordered u.length 0 es ∧
      demask rt u R.mappings .tokenMode = Splice.apply u 0 es ∧
      ∀ e, e ∈ es ↔ ∃ m ∈ R.mappings, m.token <+: u.drop e.start ∧
        e.stop = e.start + m.token.length ∧ e.insert = m.original := by
  obtain ⟨entries, placed, hentries, hplaced, hmappings, htext⟩ := buildTransformResult_eq_ok rt hR
  obtain ⟨hgroups, hbuilt⟩ := buildMappings_eq_ok rt hentries
  obtain ⟨hplaced_entries, hspans⟩ := foldlM_placeDecision_tokenMode rt hplaced
  rw [hplaced_entries] at hmappings
  obtain ⟨hrules, hapart⟩ := tokenReplacements_entries rt hentries
  have hsorted := apart_sortedBy hapart fun r => -(r.1.length : ℤ)
  constructor
  · intro hsurface hfresh
    obtain ⟨spans, hfor, hplaced_spans⟩ := foldlM_placeDecision rt hplaced
    rw [map_snd_decisionObjects] at hfor
    rw [List.nil_append] at hplaced_spans
    rw [hplaced_spans] at hspans htext
    have hordered := ordered_sortedBy_spans hdecisions hfor
    have hdescribes : R.Describes text ((PySeq.sortedBy Span.start spans).map Span.edit) := by
      obtain ⟨hresult, hoccurrences⟩ := Prod.mk.inj htext
      refine ⟨hordered, hresult.trans (spliceFrom_text text 0 0 _), ?_, ?_⟩
      · rw [hoccurrences]
        exact spliceFrom_lists_edits text 0 0 _
      · rw [hoccurrences]
        exact spliceFrom_lists_inverse text 0 0 _ hordered
    have hrestored : demask rt R.text R.mappings .tokenMode = text := by
      rw [demask, demaskToken, hmappings, hrules, hdescribes.text_eq]
      refine Subst.subst_apply hsorted (fun r hr => ?_) hordered fun e he => ?_
      · obtain ⟨e, he, rfl⟩ := List.mem_map.mp (PySeq.mem_sortedBy.mp hr)
        exact hfresh e.2 (hmappings ▸ List.mem_map_of_mem he)
      · obtain ⟨sp, hsp, rfl⟩ := List.mem_map.mp he
        obtain ⟨d, hd, e, he, object, hisFor, hpersonal, htoken, hobject⟩ :=
          hspans sp (PySeq.mem_sortedBy.mp hsp)
        have hgroup : e.1 ∈ groupPersonalDecisions rt.unicode (decisionObjects decisions) :=
          hgroups ▸ List.mem_map_of_mem he
        have hpiece : PySeq.slice text sp.start sp.stop = d.2.candidate.value := by
          have hmem : d.2 ∈ decisions := by
            rw [← map_snd_decisionObjects decisions]
            exact List.mem_map_of_mem hd
          rw [hisFor.1, hisFor.2, PySeq.slice_natCast]
          exact (hdecisions.wellFormed d.2 hmem hpersonal).value_eq.symm
        have hobject_value : object.candidate.value = d.2.candidate.value := by
          obtain ⟨d', hd', hid, hvalue⟩ := standsIn_groups _ _ e.1 hgroup _ hobject
          rw [eq_of_mem_decisionObjects hd hd' hid]
          exact hvalue
        have horiginal : e.2.original = e.1.representativeValue := by
          obtain ⟨used₁, used₂, hbuilt⟩ := hbuilt e he
          obtain ⟨-, -, -, -, horiginal, -⟩ := buildMapping_eq_ok rt hbuilt
          exact horiginal
        refine PySeq.mem_sortedBy.mpr (List.mem_map.mpr ⟨e, he, Prod.ext htoken.symm ?_⟩)
        calc e.2.original = e.1.representativeValue := horiginal
          _ = object.candidate.value := (hsurface e.1 hgroup _ hobject).symm
          _ = d.2.candidate.value := hobject_value
          _ = PySeq.slice text sp.start sp.stop := hpiece.symm
    exact ⟨hrestored, fun record hrecord => (hdescribes.applyDemask hrecord).trans hrestored.symm⟩
  · intro u
    obtain ⟨es, hordered, hsubst, hmem⟩ := Subst.subst_spec hsorted u
    refine ⟨es, hordered, ?_, fun e => (hmem e).trans ?_⟩
    · rw [demask, demaskToken, hmappings, hrules]
      exact hsubst
    · simp only [PySeq.mem_sortedBy, hmappings, List.mem_map]
      constructor
      · rintro ⟨_, ⟨e', he', rfl⟩, h⟩
        exact ⟨e'.2, ⟨e', he', rfl⟩, h⟩
      · rintro ⟨_, ⟨e', he', rfl⟩, h⟩
        exact ⟨_, ⟨e', he', rfl⟩, h⟩

/-- The case of an address and a code, and of an answer that names them the other way round. -/
theorem demask_tokenMode_mail :
    ∃ R, buildTransformResult (basicRuntime 0 (by decide)) mailAndPin mailAndPinDecisions
        .tokenMode "p1".toList = .ok R ∧
      R.text = "mail <EMAIL_1>, pin <PIN_1>".toList ∧
      demask (basicRuntime 0 (by decide)) R.text R.mappings .tokenMode = mailAndPin ∧
      demask (basicRuntime 0 (by decide)) "<PIN_1>: <EMAIL_1>, <PIN_1>".toList R.mappings
        .tokenMode = "1234: a@b.ru, 1234".toList ∧
      ∃ es, Splice.Ordered 27 0 es ∧
        "1234: a@b.ru, 1234".toList = Splice.apply "<PIN_1>: <EMAIL_1>, <PIN_1>".toList 0 es ∧
        ∀ e, e ∈ es ↔ ∃ m ∈ R.mappings,
          m.token <+: "<PIN_1>: <EMAIL_1>, <PIN_1>".toList.drop e.start ∧
          e.stop = e.start + m.token.length ∧ e.insert = m.original := by
  have hrun : ∃ R, buildTransformResult (basicRuntime 0 (by decide)) mailAndPin
      mailAndPinDecisions .tokenMode "p1".toList = .ok R ∧
        R.text = "mail <EMAIL_1>, pin <PIN_1>".toList ∧
        R.mappings.all (fun m => !PySeq.hasSub m.token mailAndPin) = true ∧
        demask (basicRuntime 0 (by decide)) "<PIN_1>: <EMAIL_1>, <PIN_1>".toList R.mappings
          .tokenMode = "1234: a@b.ru, 1234".toList :=
    ⟨_, rfl, by decide, by decide +kernel, by decide +kernel⟩
  obtain ⟨R, hR, htext, hfresh, hanswer⟩ := hrun
  have hapart : DecisionsApart mailAndPin mailAndPinDecisions := by
    refine ⟨fun d hd _ => ?_, by decide⟩
    rcases List.mem_pair.mp hd with rfl | rfl
    · exact ⟨by decide, by decide, by decide⟩
    · exact ⟨by decide, by decide, by decide⟩
  obtain ⟨hrestore, hevery⟩ := demask_tokenMode _ hapart hR
  obtain ⟨es, hordered, hsplice, hiff⟩ := hevery "<PIN_1>: <EMAIL_1>, <PIN_1>".toList
  refine ⟨R, hR, htext, (hrestore ?_ fun m hm hin => ?_).1, hanswer, es, hordered,
    hanswer.symm.trans hsplice, hiff⟩
  · have hall : (groupPersonalDecisions basicUnicode (decisionObjects mailAndPinDecisions)).all
        (fun g => g.decisions.all fun o =>
          decide (o.2.candidate.value = g.representativeValue)) = true := by decide +kernel
    intro g hg o ho
    exact of_decide_eq_true (List.all_eq_true.mp (List.all_eq_true.mp hall g hg) o ho)
  · have := List.all_eq_true.mp hfresh m hm
    rw [(PySeq.hasSub_iff m.token mailAndPin).mpr hin] at this
    cases this

end PiiProxy
