import PiiProxy.Core.Concurrency
import PiiProxy.Lib.Redaction
import PiiProxy.Replacement.GroupPartition

/-!
# What a text masked in token mode shows

In token mode the masked text is the redaction of the document: the pieces that are kept, and for
each mention the prefix of its type with the number of its entity. All values that the engine draws,
hashes or normalizes on the way leave no trace in it. So two documents that differ in their
identities only, however long these are and whatever the session seeds, have the same masked text.

## Main definitions

* `segmentsFrom`, `documentSegments`: a document with the decisions about it, as redaction sees it.
* `numberedToken`: the token of a label and a number.
* `Grouping.Names`: the state of the grouping loop after some names were given.

## Main results

* `groupDecision_names`: one decision of the grouping loop gives one name.
* `text_eq_redact`: the masked text is the redaction of the document.
* `Pipeline.text_eq_of_alike`: what the pipeline shows.
-/

namespace PiiProxy

open Redaction (Segment)
open ProcessService (tokenService tokenConsumer)

/-! ### Documents as redaction sees them -/

section Segments

variable (u : Unicode) (text : Text) (persons : List ResolvedPerson)

/-- The text from a cursor on, with the mentions that start there. -/
def segmentsFrom : ℕ → List DecisionObject → List (Segment Char Text Text)
  | cursor, [] => [.kept (PySeq.slice text cursor text.length)]
  | cursor, d :: ds =>
    .kept (PySeq.slice text cursor d.2.candidate.start) ::
      .mention (tokenPrefix d.2.candidate.type) (groupKey u persons d) ::
        segmentsFrom d.2.candidate.stop ds

/-- The document with the decisions about it. -/
def documentSegments (decisions : List PrivacyDecision) : List (Segment Char Text Text) :=
  segmentsFrom u text (personsOf u (decisionObjects decisions)) 0
    (inTextOrder (decisionObjects decisions))

end Segments

/-- The id of a label and a number. -/
def numberedId (name : Text × ℕ) : Text := name.1 ++ ['_'] ++ showNat name.2

/-- The token of a label and a number. -/
def numberedToken (label : Text) (n : ℕ) : Text := tokenFor (numberedId (label, n))

/-! ### The grouping loop gives names -/

/-- The key and the id of a group. -/
def EntityGroup.keyedId (g : EntityGroup) : Text × Text := (g.identityKey, g.entityId)

/-- The ids of the entities, by their keys. -/
def Grouping.ids (st : Grouping) : List (Text × Text) := st.groups.map EntityGroup.keyedId

/-- The loop has given these names. -/
structure Grouping.Names (st : Grouping) (names : Redaction.Names Text Text) : Prop where
  lookup : ∀ key, st.ids.lookup key = (names.lookup key).map numberedId
  count : ∀ p, (st.counters.lookup p).getD 0 = names.count p

section Loop

variable {u : Unicode} {persons : List ResolvedPerson} {st : Grouping} {d : DecisionObject}
  {names : Redaction.Names Text Text}

/-- A decision of a new entity. -/
theorem groupDecision_new (hnew : st.ids.lookup (groupKey u persons d) = none) :
    (groupDecision u persons st d).ids = st.ids ++ [(groupKey u persons d,
        numberedId (tokenPrefix d.2.candidate.type,
          (st.counters.lookup (tokenPrefix d.2.candidate.type)).getD 0 + 1))] ∧
      (groupDecision u persons st d).counters =
        bumpCounter st.counters (tokenPrefix d.2.candidate.type) := by
  have hfind : st.groups.findIdx? (·.identityKey = groupKey u persons d) = none := by
    refine List.findIdx?_eq_none_iff.2 fun g hg => ?_
    have hne := List.lookup_eq_none_iff.1 hnew _ (List.mem_map_of_mem hg)
    exact decide_eq_false fun heq => absurd heq.symm (by simpa [EntityGroup.keyedId] using hne)
  rw [groupDecision_eq, hfind]
  dsimp only [Grouping.ids]
  rw [List.map_append, List.map_singleton, lookup_bumpCounter_self]
  exact ⟨rfl, rfl⟩

/-- A decision of an entity that has a group. -/
theorem groupDecision_known {entityId : Text}
    (hknown : st.ids.lookup (groupKey u persons d) = some entityId) :
    (groupDecision u persons st d).ids = st.ids ∧
      (groupDecision u persons st d).counters = st.counters := by
  have hfind : ∃ i, st.groups.findIdx? (·.identityKey = groupKey u persons d) = some i := by
    refine Option.ne_none_iff_exists'.1 fun hnone => ?_
    obtain ⟨l₁, l₂, hids, -⟩ := List.lookup_eq_some_iff.1 hknown
    have hmem : (groupKey u persons d, entityId) ∈ st.ids := by
      rw [hids]
      exact List.mem_append_cons_self
    obtain ⟨g, hg, heq⟩ := List.mem_map.1 hmem
    have hno := List.findIdx?_eq_none_iff.1 hnone g hg
    exact of_decide_eq_false hno (Prod.mk.inj heq).1
  obtain ⟨i, hi⟩ := hfind
  rw [groupDecision_eq, hi]
  refine ⟨?_, rfl⟩
  dsimp only [Grouping.ids]
  rw [KeyGroups.map_modify EntityGroup.keyedId id, List.modify_id]
  exact fun _ => rfl

/-- **One decision gives one name.** -/
theorem groupDecision_names (h : st.Names names) :
    (groupDecision u persons st d).Names
        (names.add (tokenPrefix d.2.candidate.type) (groupKey u persons d)) ∧
      (groupDecision u persons st d).ids.lookup (groupKey u persons d) =
        some (numberedId (names.nameOf (tokenPrefix d.2.candidate.type) (groupKey u persons d))) ∧
      st.ids <+: (groupDecision u persons st d).ids := by
  have hkey := h.lookup (groupKey u persons d)
  cases hnames : names.lookup (groupKey u persons d) with
  | some name =>
    rw [hnames, Option.map_some] at hkey
    obtain ⟨hids, hcounters⟩ := groupDecision_known hkey
    rw [hids, Redaction.Names.add, Redaction.Names.nameOf, hnames]
    exact ⟨⟨hids ▸ h.lookup, hcounters ▸ h.count⟩, hkey, List.prefix_refl _⟩
  | none =>
    rw [hnames, Option.map_none] at hkey
    obtain ⟨hids, hcounters⟩ := groupDecision_new hkey
    rw [hids, Redaction.Names.add, Redaction.Names.nameOf, hnames, h.count]
    refine ⟨⟨fun key => ?_, fun p => ?_⟩, ?_, List.prefix_append _ _⟩
    · rw [hids, List.lookup_append, h.lookup, List.lookup_cons, List.lookup_cons, h.count]
      by_cases heq : key = groupKey u persons d
      · subst heq
        simp [hnames]
      · rw [beq_false_of_ne heq]
        exact Option.or_none
    · rw [hcounters]
      by_cases heq : p = tokenPrefix d.2.candidate.type
      · subst heq
        rw [lookup_bumpCounter_self, h.count]
        simp [Redaction.Names.count]
      · rw [lookup_bumpCounter_of_ne _ heq, h.count]
        simp [Redaction.Names.count, Ne.symm heq]
    · rw [List.lookup_append, hkey]
      simp

theorem ids_prefix_foldl (ds : List DecisionObject) (st : Grouping) :
    st.ids <+: (ds.foldl (groupDecision u persons) st).ids := by
  induction ds generalizing st with
  | nil => exact List.prefix_refl _
  | cons d ds ih =>
    refine .trans ?_ (ih _)
    cases hkey : st.ids.lookup (groupKey u persons d) with
    | some id => rw [(groupDecision_known hkey).1]
    | none =>
      rw [(groupDecision_new hkey).1]
      exact List.prefix_append _ _

/-- The token of a decision by the ids of the entities. -/
def tokenBy (u : Unicode) (persons : List ResolvedPerson) (ids : List (Text × Text))
    (d : DecisionObject) : Text := tokenFor ((ids.lookup (groupKey u persons d)).getD [])

/-- The span of a decision in token mode. -/
def tokenSpan (u : Unicode) (persons : List ResolvedPerson) (ids : List (Text × Text))
    (d : DecisionObject) : Span where
  start := d.2.candidate.start
  stop := d.2.candidate.stop
  replacement := tokenBy u persons ids d
  entityId := (ids.lookup (groupKey u persons d)).getD []

/-- The splice of the tokens is the redaction of the document. -/
theorem redact_segmentsFrom (text : Text) (ds : List DecisionObject) (h : st.Names names)
    (cursor : ℕ) (offset : ℤ) :
    Redaction.redact numberedToken names (segmentsFrom u text persons cursor ds) =
      (spliceFrom text cursor offset
        (ds.map (tokenSpan u persons (ds.foldl (groupDecision u persons) st).ids))).1 := by
  generalize hfinal : (ds.foldl (groupDecision u persons) st).ids = ids
  induction ds generalizing st names cursor offset with
  | nil => exact List.append_nil _
  | cons d ds ih =>
    obtain ⟨hnames, hname, -⟩ : (groupDecision u persons st d).Names _ ∧ _ ∧ _ :=
      groupDecision_names h
    have hid : ids.lookup (groupKey u persons d) = some (numberedId
        (names.nameOf (tokenPrefix d.2.candidate.type) (groupKey u persons d))) := by
      rw [← hfinal]
      exact (ids_prefix_foldl ds _).lookup_eq_some hname
    have htoken : tokenBy u persons ids d = numberedToken
        (names.nameOf (tokenPrefix d.2.candidate.type) (groupKey u persons d)).1
        (names.nameOf (tokenPrefix d.2.candidate.type) (groupKey u persons d)).2 := by
      rw [tokenBy, hid]
      rfl
    rw [segmentsFrom, Redaction.redact, Redaction.redact, List.map_cons, spliceFrom,
      ih hnames d.2.candidate.stop _ hfinal, ← htoken, List.append_assoc]
    rfl

end Loop

/-! ### The main loop places tokens -/

variable {rt : Runtime} {text : Text} {decisions : List PrivacyDecision} {sessionSeed : Text}

/-- The ids of the entities of a document. -/
def entityIds (u : Unicode) (ds : List DecisionObject) : List (Text × Text) :=
  (groupPersonalDecisions u ds).map EntityGroup.keyedId

/-- The group that holds a decision is the one of its key. -/
theorem lookup_entityIds {u : Unicode} {ds : List DecisionObject} (hids : DistinctIds ds)
    {d : DecisionObject} (hd : d ∈ personalDecisions ds) {g : EntityGroup}
    (hg : g ∈ groupPersonalDecisions u ds) {object : PrivacyDecision}
    (hobject : (d.1, object) ∈ g.decisions) :
    (entityIds u ds).lookup (groupKey u (personsOf u ds) d) = some g.entityId := by
  obtain ⟨gs, hgs, hkeyed⟩ := groups_groupPersonalDecisions u ds
  obtain ⟨g', hg', heq⟩ := List.mem_map.1 (hkeyed ▸ List.mem_map_of_mem (f := EntityGroup.keyed) hg)
  obtain ⟨hkey, hdecisions⟩ := Prod.mk.inj heq
  have hmember : groupKey u (personsOf u ds) d = g.identityKey := by
    obtain ⟨d', hd', hobj⟩ := List.mem_map.1 (hdecisions ▸ hobject)
    have hpersonal := mem_inTextOrder.1 ((hgs.mem_iff hg').1 hd').1
    have hid : d'.1 = d.1 := (Prod.ext_iff.1 hobj).1
    have hsame : d' = d := (hids.filter _).eq hpersonal hd hid
    rw [← hkey, ← hsame]
    exact ((hgs.mem_iff hg').1 hd').2
  have hnodup : ((entityIds u ds).map Prod.fst).Nodup := by
    have hfst := congrArg (List.map Prod.fst) hkeyed
    rw [List.map_map, List.map_map] at hfst
    rw [entityIds, List.map_map]
    exact (show _ = gs.map Prod.fst from hfst) ▸ hgs.nodup
  obtain ⟨before, after, hsplit⟩ := List.append_of_mem
    (List.mem_map_of_mem (f := EntityGroup.keyedId) hg)
  rw [hmember, List.lookup_eq_some_iff]
  refine ⟨before, after, hsplit, fun pair hpair => bne_iff_ne.2 fun heq => ?_⟩
  rw [entityIds, hsplit, List.map_append, List.map_cons, List.nodup_middle] at hnodup
  exact (List.nodup_cons.1 hnodup).1
    (List.mem_append_left _ (List.mem_map.2 ⟨pair, hpair, heq.symm⟩))

/-- The tokens of the mappings are those of the groups. -/
theorem token_of_buildMappings {groups : List EntityGroup} {used : List Text}
    {entries : List (EntityGroup × EntityMapping)}
    (h : buildMappings rt sessionSeed text groups used = .ok entries) :
    ∀ e ∈ entries, e.1 ∈ groups ∧ e.2.token = tokenFor e.1.entityId := by
  intro e he
  obtain ⟨hgroups, hbuilt⟩ := buildMappings_eq_ok rt h
  obtain ⟨used₁, used₂, hbuilt⟩ := hbuilt e he
  obtain ⟨-, -, -, -, -, htoken, -⟩ := buildMapping_eq_ok rt hbuilt
  exact ⟨hgroups ▸ List.mem_map_of_mem he, htoken⟩

/-- **The main loop** places the token of each decision to mask. -/
theorem foldlM_placeDecision_tokens {objects ds : List DecisionObject} (hids : DistinctIds objects)
    {st st' : Placement}
    (hentries : ∀ e ∈ st.entries, e.1 ∈ groupPersonalDecisions rt.unicode objects ∧
      e.2.token = tokenFor e.1.entityId)
    (hds : ds ⊆ objects) (h : ds.foldlM (placeDecision rt .tokenMode) st = .ok st') :
    st'.spans = st.spans ++ (personalDecisions ds).map
      (tokenSpan rt.unicode (personsOf rt.unicode objects) (entityIds rt.unicode objects)) := by
  induction ds generalizing st with
  | nil =>
    cases h
    exact (List.append_nil _).symm
  | cons d ds ih =>
    obtain ⟨st₁, hstep, h⟩ := Except.foldlM_cons_eq_ok.1 h
    obtain ⟨hd, hst₁, hspans⟩ | ⟨hd, i, group, mapping, object, hfind, hst₁, hspans⟩ :=
      placeDecision_eq_ok rt hstep
    · have hcons : personalDecisions (d :: ds) = personalDecisions ds :=
        List.filter_cons_of_neg (by simp [hd])
      rw [ih (hst₁ ▸ hentries) (fun _ h => hds (.tail _ h)) h, hspans, hcons]
    · obtain ⟨hentry, hobject⟩ := findEntry_eq_some hfind
      obtain ⟨hgroup, htoken⟩ := hentries _ (List.mem_of_getElem? hentry)
      have hsame : st₁.entries = st.entries := by
        obtain ⟨hlt, heq⟩ := List.getElem?_eq_some_iff.1 hentry
        rw [hst₁]
        show st.entries.set i (group, mapping) = st.entries
        rw [← heq, List.set_getElem_self]
      have hmem : d ∈ personalDecisions objects := List.mem_filter.2 ⟨hds List.mem_cons_self, hd⟩
      have hid := lookup_entityIds hids hmem hgroup hobject
      have hcons : personalDecisions (d :: ds) = d :: personalDecisions ds :=
        List.filter_cons_of_pos (by simp [hd])
      rw [ih (hsame ▸ hentries) (fun _ h => hds (.tail _ h)) h, hspans, hcons, List.map_cons,
        List.append_assoc]
      have htoken' : mapping.token = tokenFor group.entityId := htoken
      simp only [occurrenceReplacement, htoken', tokenSpan, tokenBy, hid, Option.getD_some]
      rfl

/-- **The masked text is the redaction of the document.** -/
theorem text_eq_redact {R : TransformResult}
    (h : buildTransformResult rt text decisions .tokenMode sessionSeed = .ok R) :
    R.text = Redaction.redact numberedToken [] (documentSegments rt.unicode text decisions) := by
  obtain ⟨entries, placed, hentries, hplaced, -, hR⟩ := buildTransformResult_eq_ok rt h
  have hspans := foldlM_placeDecision_tokens (distinctIds_decisionObjects decisions)
    (token_of_buildMappings hentries) (List.Subset.refl _) hplaced
  have htext : R.text = (spliceSpans text (PySeq.sortedBy Span.start placed.spans)).1 :=
    (Prod.ext_iff.1 hR).1
  have hempty : Grouping.Names {} [] := ⟨fun _ => rfl, fun _ => rfl⟩
  rw [htext, hspans, List.nil_append, PySeq.sortedBy_map, documentSegments,
    redact_segmentsFrom text _ hempty 0 0]
  rfl

namespace Pipeline

/-- The document with the decisions of the pipeline. -/
def segments (p : Pipeline) (text : Text) (consumer : ConsumerConfig) :
    List (Segment Char Text Text) :=
  documentSegments p.runtime.unicode text (p.analyze text consumer).2

/-- **What token mode shows.** Two documents in which the pipeline masks mentions of the same types
between the same pieces, and in which the same mentions are of one entity, have the same masked
text. -/
theorem text_eq_of_alike (p : Pipeline) {text text' : Text} {consumer consumer' : ConsumerConfig}
    {sessionSeed sessionSeed' : Text} {R R' : TransformResult}
    (h : p.process text .tokenMode consumer sessionSeed = .ok R)
    (h' : p.process text' .tokenMode consumer' sessionSeed' = .ok R')
    (halike : Redaction.Alike (p.segments text consumer) (p.segments text' consumer')) :
    R.text = R'.text := by
  rw [text_eq_redact h, text_eq_redact h']
  exact Redaction.redact_eq_of_alike numberedToken halike

/-- Two documents with three addresses, the last of which is the first one again. -/
def mailPairOfThree : Bool → Text
  | false => "mail a@b.ru, c@d.ru or a@b.ru".toList
  | true => "mail longer@b.ru, other@dd.ru or longer@b.ru".toList

/-- The correspondence of their addresses. -/
private def sameAddress (key key' : Text) : Prop :=
  (key, key') = ("EMAIL:a@b.ru".toList, "EMAIL:longer@b.ru".toList) ∨
    (key, key') = ("EMAIL:c@d.ru".toList, "EMAIL:other@dd.ru".toList)

private theorem biUnique_sameAddress : Relator.BiUnique sameAddress := by
  refine ⟨fun key₁ key key₂ h₁ h₂ => ?_, fun key key₁ key₂ h₁ h₂ => ?_⟩ <;>
    simp only [sameAddress, Prod.mk.injEq] at h₁ h₂ <;> grind

/-- Both are masked to one text. -/
theorem text_eq_of_alike_mails :
    ∃ R R', tokenService.pipeline.process (mailPairOfThree false) .tokenMode tokenConsumer
        "s".toList = .ok R ∧
      tokenService.pipeline.process (mailPairOfThree true) .tokenMode tokenConsumer
        "t".toList = .ok R' ∧ R.text = R'.text := by
  obtain ⟨R, hR, -⟩ := exists_process
    (show (tokenService.pipeline.process (mailPairOfThree false) .tokenMode tokenConsumer
      "s".toList).toOption.map TransformResult.text =
        some "mail <EMAIL_1>, <EMAIL_2> or <EMAIL_1>".toList by decide +kernel)
  obtain ⟨R', hR', -⟩ := exists_process
    (show (tokenService.pipeline.process (mailPairOfThree true) .tokenMode tokenConsumer
      "t".toList).toOption.map TransformResult.text =
        some "mail <EMAIL_1>, <EMAIL_2> or <EMAIL_1>".toList by decide +kernel)
  refine ⟨R, R', hR, hR', text_eq_of_alike tokenService.pipeline hR hR' ?_⟩
  have hfirst : tokenService.pipeline.segments (mailPairOfThree false) tokenConsumer =
      [.kept "mail ".toList, .mention "EMAIL".toList "EMAIL:a@b.ru".toList, .kept ", ".toList,
        .mention "EMAIL".toList "EMAIL:c@d.ru".toList, .kept " or ".toList,
        .mention "EMAIL".toList "EMAIL:a@b.ru".toList, .kept []] := by decide +kernel
  have hsecond : tokenService.pipeline.segments (mailPairOfThree true) tokenConsumer =
      [.kept "mail ".toList, .mention "EMAIL".toList "EMAIL:longer@b.ru".toList, .kept ", ".toList,
        .mention "EMAIL".toList "EMAIL:other@dd.ru".toList, .kept " or ".toList,
        .mention "EMAIL".toList "EMAIL:longer@b.ru".toList, .kept []] := by decide +kernel
  rw [hfirst, hsecond]
  exact ⟨sameAddress, biUnique_sameAddress, .cons (.kept _) (.cons (.mention _ (.inl rfl))
    (.cons (.kept _) (.cons (.mention _ (.inr rfl)) (.cons (.kept _)
      (.cons (.mention _ (.inl rfl)) (.cons (.kept _) .nil))))))⟩

end Pipeline

end PiiProxy
