import PiiProxy.Replacement.Reversibility

/-!
# Tokens in masked texts

In token mode every masked occurrence is replaced by the token of its entity, and an entity id is
always a token prefix, an underscore and a number. So a text that token mode has changed holds a
token. The ids of the entities of a document are all different, as the numbers of each prefix are
counted.

## Main definitions

* `IsEntityId`: the shape of entity ids.

## Main results

* `isEntityId_of_mem_groups`: the ids that the grouping gives out have this shape.
* `nodup_entityId_groups`: the ids that the grouping gives out are different.
* `exists_token_infix`: a text that token mode has changed holds a token.
-/

namespace PiiProxy

/-- The shape of entity ids. -/
def IsEntityId (id : Text) : Prop :=
  ∃ (type : PIIType) (n : ℕ), id = tokenPrefix type ++ ['_'] ++ showNat n

/-- One decision of the grouping loop gives out at most one new id. -/
private theorem groupDecision_isEntityId {u : Unicode} {persons : List ResolvedPerson}
    {st : Grouping} {d : DecisionObject} (hst : ∀ g ∈ st.groups, IsEntityId g.entityId) :
    ∀ g ∈ (groupDecision u persons st d).groups, IsEntityId g.entityId := by
  intro g hg
  unfold groupDecision at hg
  dsimp only at hg
  split at hg
  · obtain ⟨i, hi, rfl⟩ := List.mem_iff_getElem.mp hg
    have hlt : i < st.groups.length := by simpa using hi
    rw [List.getElem_modify]
    split
    · exact hst st.groups[i] (List.getElem_mem _)
    · exact hst st.groups[i] (List.getElem_mem _)
  · rcases List.mem_append.mp hg with hg | hg
    · exact hst g hg
    · rw [List.mem_singleton.mp hg]
      exact ⟨_, _, rfl⟩

/-- Every entity id is a token prefix, an underscore and a number. -/
theorem isEntityId_of_mem_groups {u : Unicode} {decisions : List DecisionObject} :
    ∀ g ∈ groupPersonalDecisions u decisions, IsEntityId g.entityId := by
  refine List.foldlRecOn (motive := fun st : Grouping => ∀ g ∈ st.groups, IsEntityId g.entityId)
    _ _ ?_ ?_
  · intro g hg
    cases hg
  · intro st hst d _
    exact groupDecision_isEntityId hst

/-! ### Entity ids are different -/

theorem mem_of_lookup_eq_some {l : List DecisionObject} {id : ℕ} {d : PrivacyDecision}
    (h : l.lookup id = some d) : (id, d) ∈ l := by
  obtain ⟨l₁, l₂, rfl, -⟩ := List.lookup_eq_some_iff.mp h
  exact List.mem_append_right _ List.mem_cons_self

/-- An entry that is found holds the decision. -/
theorem findEntry_eq_some {entries : List (EntityGroup × EntityMapping)} {id i : ℕ}
    {e : EntityGroup × EntityMapping} {object : PrivacyDecision}
    (h : findEntry entries id = some (i, e, object)) :
    entries[i]? = some e ∧ (id, object) ∈ e.1.decisions := by
  obtain ⟨e', he', hlookup⟩ := List.exists_of_findSome?_eq_some h
  obtain ⟨object', hobject, heq⟩ := Option.map_eq_some_iff.mp hlookup
  simp only [Prod.mk.injEq] at heq
  obtain ⟨hi, he, rfl⟩ := heq
  rw [← he, ← hi]
  exact ⟨List.mem_zipIdx_iff_getElem?.mp he', mem_of_lookup_eq_some hobject⟩

/-- The last occurrence of a separator divides a text. -/
theorem append_separator_inj {c : Char} {a a' b b' : Text} (hb : c ∉ b) (hb' : c ∉ b')
    (h : a ++ c :: b = a' ++ c :: b') : a = a' ∧ b = b' := by
  rcases List.append_eq_append_iff.mp h with ⟨d, ha, hd⟩ | ⟨d, ha, hd⟩
  · cases d with
    | nil => exact ⟨by simpa using ha.symm, by simpa using hd⟩
    | cons x d =>
      obtain ⟨-, hmem⟩ := List.cons.inj hd
      exact absurd (hmem ▸ by simp) hb
  · cases d with
    | nil => exact ⟨by simpa using ha, by simpa using hd.symm⟩
    | cons x d =>
      obtain ⟨-, hmem⟩ := List.cons.inj hd
      exact absurd (hmem ▸ by simp) hb'

theorem showNat_inj {n n' : ℕ} (h : showNat n = showNat n') : n = n' := by
  have hvalue := congrArg (fun ds => Nat.ofDigitChars 10 ds 0) h
  simpa only [showNat, Nat.ofDigitChars_toDigits (by decide : 1 < 10) le_rfl] using hvalue

/-- An id tells its prefix and its number. -/
theorem entityId_inj {p p' : Text} {n n' : ℕ}
    (h : p ++ ['_'] ++ showNat n = p' ++ ['_'] ++ showNat n') : p = p' ∧ n = n' := by
  rw [List.append_assoc, List.append_assoc] at h
  obtain ⟨hp, hn⟩ := append_separator_inj Nat.underscore_not_in_toDigits
    Nat.underscore_not_in_toDigits h
  exact ⟨hp, showNat_inj hn⟩

theorem lookup_bumpCounter_self (counters : Counters) (p : Text) :
    ((bumpCounter counters p).lookup p).getD 0 = (counters.lookup p).getD 0 + 1 := by
  simp [bumpCounter]

theorem lookup_bumpCounter_of_ne (counters : Counters) {p q : Text} (h : q ≠ p) :
    (bumpCounter counters p).lookup q = counters.lookup q := by
  have hfilter : (counters.filter (·.1 ≠ p)).lookup q = counters.lookup q := by
    induction counters with
    | nil => rfl
    | cons c counters ih =>
      by_cases hc : c.1 = p
      · have hq : q ≠ c.1 := fun heq => h (heq.trans hc)
        rw [List.filter_cons_of_neg (by simpa using hc), List.lookup_cons, beq_false_of_ne hq]
        exact ih
      · rw [List.filter_cons_of_pos (by simpa using hc), List.lookup_cons, List.lookup_cons, ih]
  rw [bumpCounter, List.lookup_cons, beq_false_of_ne h]
  exact hfilter

/-- What the grouping loop keeps: ids are different, and the number of an id is at most the counter
of its prefix. -/
structure Grouping.Numbered (st : Grouping) : Prop where
  nodup : (st.groups.map EntityGroup.entityId).Nodup
  le_counter : ∀ g ∈ st.groups, ∃ (type : PIIType) (n : ℕ),
    g.entityId = tokenPrefix type ++ ['_'] ++ showNat n ∧
      n ≤ (st.counters.lookup (tokenPrefix type)).getD 0

private theorem groupDecision_numbered {u : Unicode} {persons : List ResolvedPerson}
    {st : Grouping} {d : DecisionObject} (hst : st.Numbered) :
    (groupDecision u persons st d).Numbered := by
  unfold groupDecision
  dsimp only
  split
  · next i _ =>
    have hids (object : DecisionObject) :
        (st.groups.modify i fun g => { g with rest := g.rest ++ [object] }).map
          EntityGroup.entityId = st.groups.map EntityGroup.entityId := by
      refine List.ext_getElem (by simp) fun k hk hk' => ?_
      simp only [List.getElem_map, List.getElem_modify]
      split <;> rfl
    refine ⟨by rw [hids]; exact hst.nodup, fun g hg => ?_⟩
    have hmem := List.mem_map_of_mem (f := EntityGroup.entityId) hg
    rw [hids] at hmem
    obtain ⟨g', hg', heq⟩ := List.mem_map.mp hmem
    rw [← heq]
    exact hst.le_counter g' hg'
  · have hbump := lookup_bumpCounter_self st.counters (tokenPrefix d.2.candidate.type)
    -- the new number is greater than those of all ids with the prefix
    have hnew (g : EntityGroup) (hg : g ∈ st.groups) : g.entityId ≠
        tokenPrefix d.2.candidate.type ++ ['_'] ++ showNat (((bumpCounter st.counters
          (tokenPrefix d.2.candidate.type)).lookup (tokenPrefix d.2.candidate.type)).getD 0) := by
      intro heq
      obtain ⟨type, n, hid, hn⟩ := hst.le_counter g hg
      obtain ⟨hp, rfl⟩ := entityId_inj (hid.symm.trans heq)
      rw [hp, hbump] at hn
      omega
    refine ⟨?_, fun g hg => ?_⟩
    · rw [List.map_append, List.nodup_append]
      refine ⟨hst.nodup, List.nodup_singleton _, fun a ha b hb => ?_⟩
      obtain ⟨g, hg, rfl⟩ := List.mem_map.mp ha
      rw [List.map_singleton, List.mem_singleton] at hb
      rw [hb]
      exact hnew g hg
    · rcases List.mem_append.mp hg with hg | hg
      · obtain ⟨type, n, hid, hn⟩ := hst.le_counter g hg
        refine ⟨type, n, hid, ?_⟩
        by_cases hp : tokenPrefix type = tokenPrefix d.2.candidate.type
        · rw [hp] at hn ⊢
          exact hn.trans (Nat.le_of_lt (hbump ▸ Nat.lt_succ_self _))
        · rwa [lookup_bumpCounter_of_ne _ hp]
      · rw [List.mem_singleton.mp hg]
        exact ⟨_, _, rfl, le_rfl⟩

/-- **The ids of the entities are different.** -/
theorem nodup_entityId_groups (u : Unicode) (decisions : List DecisionObject) :
    ((groupPersonalDecisions u decisions).map EntityGroup.entityId).Nodup := by
  have h : Grouping.Numbered (List.foldl (groupDecision u
      (resolvePersonEntities u ((decisions.filter (·.2.isPersonal)).filter fun d =>
        d.2.candidate.type = .fullName ∧ d.2.components ≠ []))) {}
      (PySeq.sortedBy (fun d : DecisionObject => d.2.candidate.start)
        (decisions.filter (·.2.isPersonal)))) :=
    List.foldlRecOn (motive := Grouping.Numbered) _ _ ⟨List.nodup_nil, fun g hg => by cases hg⟩
      fun st hst d _ => groupDecision_numbered hst
  exact h.nodup

variable (rt : Runtime)

/-- The token of an entity id. -/
def IsToken (token : Text) : Prop := ∃ id, IsEntityId id ∧ token = tokenFor id

/-- **One mapping of `build_mapping`**: the surrogate that was chosen, or the token. -/
theorem buildMapping_eq_ok {group : EntityGroup} {sessionSeed text : Text} {used used' : List Text}
    {mapping : EntityMapping}
    (h : buildMapping rt group sessionSeed used text = .ok (mapping, used')) :
    ∃ chosen, chooseSurrogate rt group (entitySeed rt sessionSeed group.identityKey) used text
        maxCollisionRetries = .ok chosen ∧
      mapping.entityId = group.entityId ∧ mapping.type = group.type ∧
      mapping.original = group.representativeValue ∧ mapping.token = tokenFor group.entityId ∧
      mapping.synthetic = (chosen.map Prod.fst).getD (tokenFor group.entityId) ∧
      mapping.metadata.syntheticFallback = chosen.isNone ∧
      mapping.metadata.syntheticIdentity =
        (if group.type.isNameType then chosen.bind Prod.snd else none) ∧
      mapping.metadata.originalIdentity = group.originalIdentity ∧
      used' = mapping.synthetic :: used := by
  obtain ⟨chosen, hchosen, h⟩ := Except.bind_eq_ok.mp h
  cases h
  exact ⟨chosen, hchosen, rfl, rfl, rfl, rfl, rfl, rfl, rfl, rfl, rfl⟩

/-- The mappings belong to the groups, each built by `build_mapping`. -/
theorem buildMappings_eq_ok {sessionSeed text : Text} {groups : List EntityGroup}
    {used : List Text} {entries : List (EntityGroup × EntityMapping)}
    (h : buildMappings rt sessionSeed text groups used = .ok entries) :
    entries.map Prod.fst = groups ∧ ∀ e ∈ entries, ∃ used₁ used₂,
      buildMapping rt e.1 sessionSeed used₁ text = .ok (e.2, used₂) := by
  induction groups generalizing used entries with
  | nil =>
    cases h
    exact ⟨rfl, fun e he => by cases he⟩
  | cons g gs ih =>
    obtain ⟨built, hbuilt, h⟩ := Except.bind_eq_ok.mp h
    obtain ⟨rest, hrest, h⟩ := Except.bind_eq_ok.mp h
    cases h
    obtain ⟨hgroups, hrest⟩ := ih hrest
    refine ⟨by rw [List.map_cons, hgroups], fun e he => ?_⟩
    rcases List.mem_cons.mp he with rfl | he
    · exact ⟨used, built.2, hbuilt⟩
    · exact hrest e he

/-- The mappings of groups with well-shaped ids carry tokens. -/
theorem buildMappings_isToken {sessionSeed text : Text} {groups : List EntityGroup}
    {used : List Text} {entries : List (EntityGroup × EntityMapping)}
    (hgroups : ∀ g ∈ groups, IsEntityId g.entityId)
    (h : buildMappings rt sessionSeed text groups used = .ok entries) :
    ∀ e ∈ entries, IsToken e.2.token := by
  intro e he
  obtain ⟨hfst, hbuilt⟩ := buildMappings_eq_ok rt h
  obtain ⟨used₁, used₂, hbuilt⟩ := hbuilt e he
  obtain ⟨-, -, -, -, -, htoken, -⟩ := buildMapping_eq_ok rt hbuilt
  exact ⟨e.1.entityId, hgroups e.1 (hfst ▸ List.mem_map_of_mem he), htoken⟩

/-- What the main loop keeps in token mode: the mappings carry tokens, and the spans are replaced by
tokens. -/
def Placement.Tokens (st : Placement) : Prop :=
  (∀ e ∈ st.entries, IsToken e.2.token) ∧ ∀ sp ∈ st.spans, IsToken sp.replacement

private theorem placeDecision_tokens {st st' : Placement} {d : DecisionObject} (hst : st.Tokens)
    (h : placeDecision rt .tokenMode st d = .ok st') : st'.Tokens := by
  obtain ⟨-, hentries, hspans⟩ | ⟨-, i, group, mapping, object, hfind, hentries, hspans⟩ :=
    placeDecision_eq_ok rt h
  · exact ⟨by rw [hentries]; exact hst.1, by rw [hspans]; exact hst.2⟩
  · have htoken := hst.1 _ (List.mem_of_getElem? (findEntry_eq_some hfind).1)
    refine ⟨fun e' he' => ?_, fun sp hsp => ?_⟩
    · rw [hentries] at he'
      rcases List.mem_or_eq_of_mem_set he' with he' | rfl
      · exact hst.1 e' he'
      · exact htoken
    · rw [hspans] at hsp
      rcases List.mem_append.mp hsp with hsp | hsp
      · exact hst.2 sp hsp
      · rw [List.mem_singleton.mp hsp]
        exact htoken

/-- The splice holds the replacement of every span. -/
theorem replacement_infix_spliceFrom {text : Text} {cursor : ℕ} {offset : ℤ} {spans : List Span}
    {sp : Span} (hsp : sp ∈ spans) :
    sp.replacement <:+: (spliceFrom text cursor offset spans).1 := by
  induction spans generalizing cursor offset with
  | nil => cases hsp
  | cons sp' spans ih =>
    rw [spliceFrom]
    rcases List.mem_cons.mp hsp with rfl | hsp
    · exact (List.infix_append _ _ _)
    · exact (ih hsp).trans (List.suffix_append _ _).isInfix

/-- **A text that token mode has changed holds a token.** -/
theorem exists_token_infix {text : Text} {decisions : List PrivacyDecision} {sessionSeed : Text}
    {R : TransformResult}
    (h : buildTransformResult rt text decisions .tokenMode sessionSeed = .ok R)
    (hne : R.text ≠ text) : ∃ token, IsToken token ∧ token <:+: R.text := by
  obtain ⟨entries, placed, hentries, hplaced, -, hR⟩ := buildTransformResult_eq_ok rt h
  have htokens : placed.Tokens := by
    refine Except.foldlM_invariant (fun st d st' => placeDecision_tokens rt) ⟨?_, ?_⟩ hplaced
    · exact buildMappings_isToken rt isEntityId_of_mem_groups hentries
    · intro sp hsp
      cases hsp
  have htext : R.text = (spliceSpans text (PySeq.sortedBy Span.start placed.spans)).1 :=
    (Prod.ext_iff.mp hR).1
  cases hspans : placed.spans with
  | nil =>
    rw [hspans] at htext
    exact absurd (htext.trans (PySeq.slice_to_length text 0)) hne
  | cons sp spans =>
    have hsp : sp ∈ placed.spans := by
      rw [hspans]
      exact List.mem_cons_self
    refine ⟨sp.replacement, htokens.2 sp hsp, ?_⟩
    rw [htext]
    exact replacement_infix_spliceFrom (PySeq.mem_sortedBy.mpr hsp)

end PiiProxy
