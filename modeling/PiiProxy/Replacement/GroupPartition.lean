import PiiProxy.EntityResolution.Soundness
import PiiProxy.Lib.KeyGroups
import PiiProxy.Replacement.Tokens

/-!
# Grouping is a partition

The loop of `group_personal_decisions` groups the decisions to mask by their keys. The key of a
resolved mention tells the ordinal of its person, and no other key looks like it. So the groups are
those of the persons, and of the keys of all that is not resolved.

## Main definitions

* `groupKey`, `groupObject`: the key of a decision, and the decision that its group holds.
* `IsPersonKey`: the form of the keys of resolved persons.

## Main results

* `groups_groupPersonalDecisions`: the loop computes the groups of the keys.
* `identityKeyFor_eq_iff`: when the own keys of two decisions are equal.
* `groupKey_eq_iff`: when the keys of the grouping are.
* `numbered_groupPersonalDecisions`: the ids of a prefix are numbered without gaps.
* `groupPersonalDecisions_partition`: the groups are a partition.
-/

namespace PiiProxy

variable (u : Unicode)

/-! ### The keys of decisions -/

/-- The decisions to mask. -/
def personalDecisions (ds : List DecisionObject) : List DecisionObject := ds.filter (·.2.isPersonal)

/-- A mention that goes through entity resolution. -/
abbrev IsNameMention (d : DecisionObject) : Prop :=
  d.2.candidate.type = .fullName ∧ d.2.components ≠ []

/-- The persons of a list of decisions. -/
def personsOf (ds : List DecisionObject) : List ResolvedPerson :=
  resolvePersonEntities u ((personalDecisions ds).filter fun d => IsNameMention d)

/-- The key by which a decision is grouped. -/
def groupKey (persons : List ResolvedPerson) (d : DecisionObject) : Text :=
  match resolvedBy persons d.1 with
  | some (p, _) => p.identityKey
  | none => identityKeyFor u d.2

/-- The decision that its group holds. -/
def groupObject (persons : List ResolvedPerson) (d : DecisionObject) : DecisionObject :=
  (d.1, ((resolvedBy persons d.1).map Prod.snd).getD d.2)

/-- The ids of the decisions of a person. -/
def ResolvedPerson.ids (p : ResolvedPerson) : List ℕ := p.decisions.map Prod.fst

/-- The ids of the decisions of a group. -/
def EntityGroup.ids (g : EntityGroup) : List ℕ := g.decisions.map Prod.fst

/-- The form of the keys of resolved persons. -/
def IsPersonKey (key : Text) : Prop :=
  ∃ canonical n, key = "person:".toList ++ canonical ++ ['#'] ++ showNat n

theorem isPersonKey_identityKey (p : ResolvedPerson) : IsPersonKey p.identityKey := ⟨_, _, rfl⟩

/-- The key of a person tells its ordinal. -/
theorem ordinal_of_identityKey {p p' : ResolvedPerson} (h : p.identityKey = p'.identityKey) :
    p.ordinal = p'.ordinal := by
  have hhash (n : ℕ) : '#' ∉ showNat n := fun hmem =>
    absurd (Nat.isDigit_of_mem_toDigits (by decide) (by decide) hmem) (by decide)
  unfold ResolvedPerson.identityKey at h
  rw [List.append_assoc _ ['#'], List.append_assoc _ ['#']] at h
  exact showNat_inj (append_separator_inj (hhash _) (hhash _) h).2

/-- The key of a type and a value is no key of a person: it starts with a capital letter. -/
theorem not_isPersonKey_type (t : PIIType) (value : Text) :
    ¬IsPersonKey (t.value ++ [':'] ++ value) := by
  rintro ⟨canonical, n, heq⟩
  have hvalue : ∃ c rest, t.value = c :: rest ∧ c ≠ 'p' := by
    cases t <;> exact ⟨_, _, rfl, by decide⟩
  obtain ⟨c, rest, hc, hne⟩ := hvalue
  rw [hc] at heq
  exact hne (List.cons.inj heq).1

theorem PIIType.value_injective : Function.Injective PIIType.value := by
  intro t t' h
  cases t <;> cases t' <;> first | rfl | exact absurd h (by decide)

/-- An explicit key of the metadata is the key of the decision. -/
theorem identityKeyFor_explicit {d : PrivacyDecision} {key : Text}
    (h : d.candidate.metadata.identityKey = some key) (hne : key ≠ []) :
    identityKeyFor u d = key := by
  have hkept : d.candidate.metadata.identityKey.filter (fun k => !k.isEmpty) = some key := by
    rw [h, Option.filter_some, if_pos (by simpa using hne)]
  rw [identityKeyFor, hkept]

/-- Otherwise it is the type and the value, in lower case and without blanks around it. -/
theorem identityKeyFor_value {d : PrivacyDecision}
    (h : ∀ key, d.candidate.metadata.identityKey = some key → key = []) :
    identityKeyFor u d =
      d.candidate.type.value ++ [':'] ++ u.lower (u.strip d.candidate.value) := by
  have hnone : d.candidate.metadata.identityKey.filter (fun k => !k.isEmpty) = none := by
    rw [Option.filter_eq_none_iff]
    intro key hkey
    simp [h key hkey]
  rw [identityKeyFor, hnone]

/-- **When the own keys of two decisions are equal.** Without explicit keys: when the types are the
same, and the values are up to case and blanks around them. -/
theorem identityKeyFor_eq_iff {d d' : PrivacyDecision}
    (h : ∀ key, d.candidate.metadata.identityKey = some key → key = [])
    (h' : ∀ key, d'.candidate.metadata.identityKey = some key → key = []) :
    identityKeyFor u d = identityKeyFor u d' ↔ d.candidate.type = d'.candidate.type ∧
      u.lower (u.strip d.candidate.value) = u.lower (u.strip d'.candidate.value) := by
  have hcolon (t : PIIType) : ':' ∉ t.value.reverse := by cases t <;> decide
  rw [identityKeyFor_value u h, identityKeyFor_value u h']
  constructor
  · intro heq
    -- the separator is the first colon, so it is found from behind in the reversed keys
    have hreverse := congrArg List.reverse heq
    rw [List.reverse_append, List.reverse_append, List.reverse_append, List.reverse_append,
      List.reverse_singleton, ← List.append_assoc, ← List.append_assoc, List.append_assoc,
      List.append_assoc, List.singleton_append, List.singleton_append] at hreverse
    obtain ⟨hvalue, htype⟩ := append_separator_inj (hcolon _) (hcolon _) hreverse
    exact ⟨PIIType.value_injective (List.reverse_injective htype), List.reverse_injective hvalue⟩
  · rintro ⟨htype, hvalue⟩
    rw [htype, hvalue]

/-! ### The loop -/

/-- A group as its key and its members. -/
def EntityGroup.keyed (g : EntityGroup) : Text × List DecisionObject := (g.identityKey, g.decisions)

/-- The group of raw decisions as it stands in the result. -/
def withObjects (persons : List ResolvedPerson) (g : Text × List DecisionObject) :
    Text × List DecisionObject := (g.1, g.2.map (groupObject persons))

theorem groupDecision_eq (persons : List ResolvedPerson) (st : Grouping) (d : DecisionObject) :
    groupDecision u persons st d =
      match st.groups.findIdx? (·.identityKey = groupKey u persons d) with
      | some i => { st with groups := st.groups.modify i fun g =>
          { g with rest := g.rest ++ [groupObject persons d] } }
      | none =>
        let p := tokenPrefix d.2.candidate.type
        let counters := bumpCounter st.counters p
        { groups := st.groups ++ [{
            entityId := p ++ ['_'] ++ showNat ((counters.lookup p).getD 0)
            identityKey := groupKey u persons d
            first := groupObject persons d
            resolved := (resolvedBy persons d.1).map Prod.fst }]
          counters := counters } := rfl

/-- **One decision of the loop is one step of grouping by keys.** -/
theorem keyed_groupDecision (persons : List ResolvedPerson) {st : Grouping}
    {gs : List (Text × List DecisionObject)} (d : DecisionObject)
    (h : st.groups.map EntityGroup.keyed = gs.map (withObjects persons)) :
    (groupDecision u persons st d).groups.map EntityGroup.keyed =
      (KeyGroups.add (groupKey u persons d) d gs).map (withObjects persons) := by
  have hfind : st.groups.findIdx? (·.identityKey = groupKey u persons d) =
      gs.findIdx? (·.1 = groupKey u persons d) := by
    have hmap := congrArg (List.findIdx? (·.1 = groupKey u persons d)) h
    rw [List.findIdx?_map, List.findIdx?_map] at hmap
    exact hmap
  rw [groupDecision_eq, KeyGroups.add, hfind]
  cases gs.findIdx? (·.1 = groupKey u persons d) with
  | some i =>
    dsimp only
    rw [KeyGroups.map_modify EntityGroup.keyed (fun g => (g.1, g.2 ++ [groupObject persons d]))
        (fun g => rfl), h,
      KeyGroups.map_modify (withObjects persons) (fun g => (g.1, g.2 ++ [groupObject persons d]))
        (fun g => by rw [withObjects, withObjects, List.map_append, List.map_singleton])]
  | none =>
    dsimp only
    rw [List.map_append, List.map_append, h]
    rfl

/-- **The loop computes the groups of the keys.** -/
theorem groups_groupPersonalDecisions (ds : List DecisionObject) :
    ∃ gs, KeyGroups.Groups (groupKey u (personsOf u ds))
        (PySeq.sortedBy (fun d : DecisionObject => d.2.candidate.start) (personalDecisions ds)) gs ∧
      (groupPersonalDecisions u ds).map EntityGroup.keyed = gs.map
      (withObjects (personsOf u ds)) := by
  refine ⟨_, KeyGroups.groups_foldl _ _, ?_⟩
  have hrun (l : List DecisionObject) :
      ((l.foldl (groupDecision u (personsOf u ds)) {}).groups.map EntityGroup.keyed) =
        (l.foldl (fun gs d => KeyGroups.add (groupKey u (personsOf u ds) d) d gs) []).map
          (withObjects (personsOf u ds)) := by
    induction l using List.reverseRecOn with
    | nil => rfl
    | append_singleton l d ih =>
      rw [List.foldl_concat, List.foldl_concat]
      exact keyed_groupDecision u _ d ih
  exact hrun _

/-! ### Numbers -/

/-- The prefix and the id of a group. -/
def EntityGroup.numbered (g : EntityGroup) : Text × Text := (tokenPrefix g.type, g.entityId)

/-- The ids of a prefix are numbered up to its counter, in the order of the groups. -/
def Grouping.Counted (st : Grouping) : Prop :=
  ∀ p, ((st.groups.map EntityGroup.numbered).filter (·.1 = p)).map Prod.snd =
    (List.range' 1 ((st.counters.lookup p).getD 0)).map fun n => p ++ ['_'] ++ showNat n

variable {u}

theorem groupDecision_counted {persons : List ResolvedPerson} {st : Grouping} {d : DecisionObject}
    (h : st.Counted) (htype : (groupObject persons d).2.candidate.type = d.2.candidate.type) :
    (groupDecision u persons st d).Counted := by
  intro p
  rw [groupDecision_eq]
  split
  · rename_i i _
    have hsame : (st.groups.modify i fun g =>
      { g with rest := g.rest ++ [groupObject persons d] }).map
        EntityGroup.numbered = st.groups.map EntityGroup.numbered := by
      rw [KeyGroups.map_modify EntityGroup.numbered id, List.modify_id]
      exact fun _ => rfl
    dsimp only
    rw [hsame]
    exact h p
  · dsimp only
    have hnew : EntityGroup.numbered {
        entityId := tokenPrefix d.2.candidate.type ++ ['_'] ++ showNat (((bumpCounter st.counters
          (tokenPrefix d.2.candidate.type)).lookup (tokenPrefix d.2.candidate.type)).getD 0)
        identityKey := groupKey u persons d
        first := groupObject persons d
        resolved := (resolvedBy persons d.1).map Prod.fst } =
      (tokenPrefix d.2.candidate.type, tokenPrefix d.2.candidate.type ++ ['_'] ++
        showNat ((st.counters.lookup (tokenPrefix d.2.candidate.type)).getD 0 + 1)) := by
      rw [EntityGroup.numbered, EntityGroup.type, htype, lookup_bumpCounter_self]
    rw [List.map_append, List.map_singleton, hnew, List.filter_append, List.map_append, h p,
      List.filter_singleton]
    by_cases hp : tokenPrefix d.2.candidate.type = p
    · subst hp
      rw [lookup_bumpCounter_self, List.range'_concat, List.map_append,
        decide_eq_true rfl, Nat.one_mul,
        Nat.add_comm 1]
      rfl
    · rw [lookup_bumpCounter_of_ne _ (Ne.symm hp), decide_eq_false hp]
      exact List.append_nil _

/-! ### Resolved decisions -/

section Resolved

variable {ds : List DecisionObject} {persons : List ResolvedPerson}

theorem mem_of_resolvedBy {id : ℕ} {p : ResolvedPerson} {x : PrivacyDecision}
    (h : resolvedBy persons id = some (p, x)) : p ∈ persons ∧ (id, x) ∈ p.decisions := by
  obtain ⟨p', hp', hlookup⟩ := List.exists_of_findSome?_eq_some h
  obtain ⟨x', hx', heq⟩ := Option.map_eq_some_iff.1 hlookup
  obtain ⟨rfl, rfl⟩ := Prod.mk.inj heq
  exact ⟨hp', mem_of_lookup_eq_some hx'⟩

theorem notMem_of_resolvedBy {id : ℕ} (h : resolvedBy persons id = none) :
    ∀ p ∈ persons, id ∉ p.ids := by
  intro p hp hid
  obtain ⟨o, ho, rfl⟩ := List.mem_map.1 hid
  have hnone := Option.map_eq_none_iff.1 (List.findSome?_eq_none_iff.1 h p hp)
  have hno := List.lookup_eq_none_iff.1 hnone o ho
  rw [bne_self_eq_false] at hno
  cases hno

/-- The ids of the mentions are those of the persons. -/
theorem Resolved.perm_ids (h : Resolved ds persons) :
    (persons.flatMap ResolvedPerson.ids).Perm (ds.map Prod.fst) := by
  obtain ⟨os, hos, hperm⟩ := h.partition
  have hids : os.map Prod.fst = ds.map Prod.fst := by
    refine List.forall₂_eq_eq_eq ▸ ?_
    exact List.forall₂_map_left_iff.2
      (List.forall₂_map_right_iff.2 (hos.flip.imp fun _ _ h => h.id_eq))
  rw [← hids]
  refine .trans (.of_eq ?_) (hperm.map Prod.fst)
  rw [List.map_flatMap]
  rfl

/-- A mention belongs to one person. -/
theorem Resolved.eq_of_mem (h : Resolved ds persons) (hnodup : (ds.map Prod.fst).Nodup)
    {p p' : ResolvedPerson} (hp : p ∈ persons) (hp' : p' ∈ persons) {id : ℕ} (hid : id ∈ p.ids)
    (hid' : id ∈ p'.ids) : p = p' := by
  have hpairs := (List.nodup_flatMap.1 (h.perm_ids.nodup_iff.2 hnodup)).2
  rcases PySeq.eq_or_rel_of_pairwise hpairs hp hp' with heq | hne | hne
  · exact heq
  · exact absurd hid' (hne hid)
  · exact absurd hid (hne hid')

/-- Persons with one key are the same one. -/
theorem Resolved.eq_of_identityKey (h : Resolved ds persons) {p p' : ResolvedPerson}
    (hp : p ∈ persons) (hp' : p' ∈ persons) (hkey : p.identityKey = p'.identityKey) : p = p' := by
  have hnodup : (persons.map ResolvedPerson.ordinal).Nodup := by
    rw [h.ordinals]
    exact List.nodup_range'
  exact List.inj_on_of_nodup_map hnodup hp hp' (ordinal_of_identityKey hkey)

/-- The decisions have different ids. -/
abbrev DistinctIds (ds : List DecisionObject) : Prop := (ds.map Prod.fst).Nodup

theorem DistinctIds.eq (h : DistinctIds ds) {d d' : DecisionObject} (hd : d ∈ ds) (hd' : d' ∈ ds)
    (hid : d.1 = d'.1) : d = d' :=
  List.inj_on_of_nodup_map h hd hd' hid

theorem DistinctIds.filter (h : DistinctIds ds) (q : DecisionObject → Bool) :
    DistinctIds (ds.filter q) :=
  List.Nodup.sublist (List.filter_sublist.map Prod.fst) h

variable (u)

theorem resolved_personsOf (ds : List DecisionObject) :
    Resolved ((personalDecisions ds).filter fun d => IsNameMention d) (personsOf u ds) :=
  resolved_resolvePersonEntities u _

/-- A decision is resolved to one person. -/
theorem eq_of_mem_personsOf (hids : DistinctIds ds) {p p' : ResolvedPerson}
    (hp : p ∈ personsOf u ds)
    (hp' : p' ∈ personsOf u ds) {id : ℕ} (hid : id ∈ p.ids) (hid' : id ∈ p'.ids) : p = p' :=
  (resolved_personsOf u ds).eq_of_mem ((hids.filter _).filter _) hp hp' hid hid'

/-- **What a group holds of a decision**: the decision itself, its components perhaps with roles. -/
theorem annotatedFrom_groupObject (hids : DistinctIds ds) {d : DecisionObject}
    (hd : d ∈ personalDecisions ds) : AnnotatedFrom d (groupObject (personsOf u ds) d) := by
  unfold groupObject
  cases hresolved : resolvedBy (personsOf u ds) d.1 with
  | none => exact .refl d
  | some found =>
    obtain ⟨hp, hx⟩ := mem_of_resolvedBy hresolved
    obtain ⟨os, hos, hperm⟩ := (resolved_personsOf u ds).partition
    have hmem := hperm.mem_iff.1 (List.mem_flatMap.2 ⟨_, hp, hx⟩)
    obtain ⟨d', hd', hfrom⟩ := PySeq.exists_of_forall₂ hos.flip hmem
    have heq : d' = d := (hids.filter _).eq (List.mem_of_mem_filter hd') hd hfrom.id_eq.symm
    exact heq ▸ hfrom

theorem groupKey_of_mem (hids : DistinctIds ds) {d : DecisionObject} {p : ResolvedPerson}
    (hp : p ∈ personsOf u ds) (hd : d.1 ∈ p.ids) :
    groupKey u (personsOf u ds) d = p.identityKey := by
  unfold groupKey
  cases hresolved : resolvedBy (personsOf u ds) d.1 with
  | none => exact absurd hd (notMem_of_resolvedBy hresolved p hp)
  | some found =>
    obtain ⟨hp', hx⟩ := mem_of_resolvedBy hresolved
    have hid : d.1 ∈ found.1.ids := List.mem_map.2 ⟨_, hx, rfl⟩
    rw [eq_of_mem_personsOf u hids hp hp' hd hid]

theorem groupKey_of_notMem {d : DecisionObject} (hd : ∀ p ∈ personsOf u ds, d.1 ∉ p.ids) :
    groupKey u (personsOf u ds) d = identityKeyFor u d.2 := by
  unfold groupKey
  cases hresolved : resolvedBy (personsOf u ds) d.1 with
  | none => rfl
  | some found =>
    obtain ⟨hp, hx⟩ := mem_of_resolvedBy hresolved
    exact absurd (List.mem_map.2 ⟨_, hx, rfl⟩) (hd _ hp)

/-- No decision that is not resolved has an explicit key in the form of those of persons. -/
def NoPersonKey (ds : List DecisionObject) : Prop :=
  ∀ d ∈ ds, d.2.isPersonal → ¬IsNameMention d → ∀ key,
    d.2.candidate.metadata.identityKey = some key → ¬IsPersonKey key

/-- The key of a decision that is not resolved is no key of a person. -/
theorem not_isPersonKey_of_notMem (hkeys : NoPersonKey ds) {d : DecisionObject}
    (hd : d ∈ personalDecisions ds) (hnone : ∀ p ∈ personsOf u ds, d.1 ∉ p.ids) :
    ¬IsPersonKey (identityKeyFor u d.2) := by
  obtain ⟨hmem, hpersonal⟩ := List.mem_filter.1 hd
  have hmention : ¬IsNameMention d := by
    intro hmention
    have hd' : d ∈ (personalDecisions ds).filter fun d => IsNameMention d :=
      List.mem_filter.2 ⟨hd, decide_eq_true hmention⟩
    have hid := (resolved_personsOf u ds).perm_ids.mem_iff.2 (List.mem_map_of_mem hd')
    obtain ⟨p, hp, hid⟩ := List.mem_flatMap.1 hid
    exact hnone p hp hid
  by_cases hexplicit : ∃ key, d.2.candidate.metadata.identityKey = some key ∧ key ≠ []
  · obtain ⟨key, hkey, hne⟩ := hexplicit
    rw [identityKeyFor_explicit u hkey hne]
    exact hkeys d hmem hpersonal hmention key hkey
  · rw [identityKeyFor_value u fun key hkey => by_contra fun hne => hexplicit ⟨key, hkey, hne⟩]
    exact not_isPersonKey_type _ _

/-- **When the keys of two decisions are equal**: they were resolved to one person, or neither was
and their own keys are equal. -/
theorem groupKey_eq_iff (hids : DistinctIds ds) (hkeys : NoPersonKey ds) {d d' : DecisionObject}
    (hd : d ∈ personalDecisions ds) (hd' : d' ∈ personalDecisions ds) :
    groupKey u (personsOf u ds) d = groupKey u (personsOf u ds) d' ↔
      (∃ p ∈ personsOf u ds, d.1 ∈ p.ids ∧ d'.1 ∈ p.ids) ∨
        ((∀ p ∈ personsOf u ds, d.1 ∉ p.ids ∧ d'.1 ∉ p.ids) ∧
          identityKeyFor u d.2 = identityKeyFor u d'.2) := by
  by_cases h : ∃ p ∈ personsOf u ds, d.1 ∈ p.ids
  · obtain ⟨p, hp, hid⟩ := h
    have hright : ¬∀ q ∈ personsOf u ds, d.1 ∉ q.ids ∧ d'.1 ∉ q.ids := fun h => (h p hp).1 hid
    rw [groupKey_of_mem u hids hp hid, or_iff_left fun h => hright h.1]
    by_cases h' : ∃ p ∈ personsOf u ds, d'.1 ∈ p.ids
    · obtain ⟨p', hp', hid'⟩ := h'
      rw [groupKey_of_mem u hids hp' hid']
      constructor
      · intro heq
        obtain rfl := (resolved_personsOf u ds).eq_of_identityKey hp hp' heq
        exact ⟨p, hp, hid, hid'⟩
      · rintro ⟨q, hq, hdq, hdq'⟩
        rw [eq_of_mem_personsOf u hids hp hq hid hdq, eq_of_mem_personsOf u hids hp' hq hid' hdq']
    · have hnone : ∀ p ∈ personsOf u ds, d'.1 ∉ p.ids := fun q hq hdq => h' ⟨q, hq, hdq⟩
      rw [groupKey_of_notMem u hnone]
      refine ⟨fun heq => ?_, fun ⟨q, hq, _, hdq⟩ => absurd hdq (hnone q hq)⟩
      exact absurd (heq ▸ isPersonKey_identityKey p) (not_isPersonKey_of_notMem u hkeys hd' hnone)
  · have hnone : ∀ p ∈ personsOf u ds, d.1 ∉ p.ids := fun q hq hdq => h ⟨q, hq, hdq⟩
    have hleft : ¬∃ q ∈ personsOf u ds, d.1 ∈ q.ids ∧ d'.1 ∈ q.ids :=
      fun ⟨q, hq, hdq, _⟩ => hnone q hq hdq
    rw [groupKey_of_notMem u hnone, or_iff_right hleft]
    by_cases h' : ∃ p ∈ personsOf u ds, d'.1 ∈ p.ids
    · obtain ⟨p', hp', hid'⟩ := h'
      rw [groupKey_of_mem u hids hp' hid']
      refine ⟨fun heq => ?_, fun h => absurd hid' (h.1 p' hp').2⟩
      exact absurd (heq ▸ isPersonKey_identityKey p') (not_isPersonKey_of_notMem u hkeys hd hnone)
    · have hnone' : ∀ p ∈ personsOf u ds, d'.1 ∉ p.ids := fun q hq hdq => h' ⟨q, hq, hdq⟩
      rw [groupKey_of_notMem u hnone', and_iff_right fun q hq => ⟨hnone q hq, hnone' q hq⟩]

end Resolved

/-! ### The groups -/

section Groups

variable (u) {ds : List DecisionObject}

/-- The decisions to mask, in the order of the text. -/
def inTextOrder (ds : List DecisionObject) : List DecisionObject :=
  PySeq.sortedBy (fun d : DecisionObject => d.2.candidate.start) (personalDecisions ds)

theorem mem_inTextOrder {d : DecisionObject} : d ∈ inTextOrder ds ↔ d ∈ personalDecisions ds :=
  PySeq.mem_sortedBy

theorem start_groupObject (hids : DistinctIds ds) {d : DecisionObject}
    (hd : d ∈ personalDecisions ds) :
    (groupObject (personsOf u ds) d).2.candidate.start = d.2.candidate.start := by
  have h := congrArg (fun o => o.candidate.start) (annotatedFrom_groupObject u hids hd).rest_eq
  exact h

theorem type_groupObject (hids : DistinctIds ds) {d : DecisionObject}
    (hd : d ∈ personalDecisions ds) :
    (groupObject (personsOf u ds) d).2.candidate.type = d.2.candidate.type := by
  have h := congrArg (fun o => o.candidate.type) (annotatedFrom_groupObject u hids hd).rest_eq
  exact h

/-- Each decision to mask is in exactly one group. -/
theorem perm_groupPersonalDecisions (hids : DistinctIds ds) :
    ∃ os, List.Forall₂ AnnotatedFrom (personalDecisions ds) os ∧
      ((groupPersonalDecisions u ds).flatMap EntityGroup.decisions).Perm os := by
  obtain ⟨gs, hgs, hkeyed⟩ := groups_groupPersonalDecisions u ds
  refine ⟨(personalDecisions ds).map (groupObject (personsOf u ds)),
    List.forall₂_map_right_iff.2 (List.forall₂_same.2 fun d hd =>
      annotatedFrom_groupObject u hids hd), ?_⟩
  have hflat : (groupPersonalDecisions u ds).flatMap EntityGroup.decisions =
      (gs.flatMap Prod.snd).map (groupObject (personsOf u ds)) := by
    have hmap := congrArg (List.flatMap Prod.snd) hkeyed
    rw [List.flatMap_map, List.flatMap_map] at hmap
    rw [List.map_flatMap]
    exact hmap
  rw [hflat]
  exact (hgs.perm.trans (PySeq.sortedBy_perm _ _)).map _

/-- Two decisions share a group when their keys are equal. -/
theorem share_group_iff (hids : DistinctIds ds) {d d' : DecisionObject}
    (hd : d ∈ personalDecisions ds) (hd' : d' ∈ personalDecisions ds) :
    (∃ g ∈ groupPersonalDecisions u ds, d.1 ∈ g.ids ∧ d'.1 ∈ g.ids) ↔
      groupKey u (personsOf u ds) d = groupKey u (personsOf u ds) d' := by
  obtain ⟨gs, hgs, hkeyed⟩ := groups_groupPersonalDecisions u ds
  have hmapids : (groupPersonalDecisions u ds).map EntityGroup.ids = gs.map fun g =>
    g.2.map Prod.fst := by
    have hmap := congrArg (List.map fun g => g.2.map Prod.fst) hkeyed
    rw [List.map_map, List.map_map] at hmap
    refine hmap.trans (List.map_congr_left fun g _ => ?_)
    dsimp only [Function.comp, withObjects]
    rw [List.map_map]
    rfl
  -- the id of a decision tells the decision
  have hmem {g : Text × List DecisionObject} (hg : g ∈ gs) {e : DecisionObject}
      (he : e ∈ personalDecisions ds) : e.1 ∈ g.2.map Prod.fst ↔ e ∈ g.2 := by
    refine ⟨fun hid => ?_, fun h => List.mem_map_of_mem h⟩
    obtain ⟨e', he', heq⟩ := List.mem_map.1 hid
    have hpersonal := mem_inTextOrder.1 ((hgs.mem_iff hg).1 he').1
    exact (hids.filter _).eq hpersonal he heq ▸ he'
  rw [← hgs.share_iff (mem_inTextOrder.2 hd) (mem_inTextOrder.2 hd')]
  constructor
  · rintro ⟨g, hg, h⟩
    obtain ⟨g', hg', heq⟩ := List.mem_map.1 (hmapids ▸ List.mem_map_of_mem hg)
    rw [← heq, hmem hg' hd, hmem hg' hd'] at h
    exact ⟨g', hg', h⟩
  · rintro ⟨g, hg, h⟩
    have hin : g.2.map Prod.fst ∈ (groupPersonalDecisions u ds).map EntityGroup.ids := by
      rw [hmapids]
      exact List.mem_map.2 ⟨g, hg, rfl⟩
    obtain ⟨g', hg', heq⟩ := List.mem_map.1 hin
    rw [← hmem hg hd, ← hmem hg hd', ← heq] at h
    exact ⟨g', hg', h⟩

/-- The mentions of a group stand in the order of the text. -/
theorem pairwise_decisions_of_mem_groups (hids : DistinctIds ds) {g : EntityGroup}
    (hg : g ∈ groupPersonalDecisions u ds) :
    g.decisions.Pairwise fun o o' => o.2.candidate.start ≤ o'.2.candidate.start := by
  obtain ⟨gs, hgs, hkeyed⟩ := groups_groupPersonalDecisions u ds
  obtain ⟨g', hg', heq⟩ := List.mem_map.1 (hkeyed ▸ List.mem_map_of_mem (f := EntityGroup.keyed) hg)
  have hdecisions : g'.2.map (groupObject (personsOf u ds)) = g.decisions := (Prod.mk.inj heq).2
  rw [← hdecisions, List.pairwise_map]
  refine (hgs.head_rel (PySeq.pairwise_sortedBy _ _) hg').imp_of_mem fun ha hb hle => ?_
  have hpersonal {a : DecisionObject} (ha : a ∈ g'.2) : a ∈ personalDecisions ds :=
    mem_inTextOrder.1 ((hgs.mem_iff hg').1 ha).1
  rw [start_groupObject u hids (hpersonal ha), start_groupObject u hids (hpersonal hb)]
  exact hle

/-- The groups stand in the order of their first mentions. -/
theorem pairwise_first_groups (hids : DistinctIds ds) :
    (groupPersonalDecisions u ds).Pairwise fun g g' =>
      g.first.2.candidate.start ≤ g'.first.2.candidate.start := by
  obtain ⟨gs, hgs, hkeyed⟩ := groups_groupPersonalDecisions u ds
  have hfirsts : (groupPersonalDecisions u ds).map EntityGroup.first =
      (gs.filterMap (·.2.head?)).map (groupObject (personsOf u ds)) := by
    have hmap := congrArg (List.filterMap (·.2.head?)) hkeyed
    rw [List.filterMap_map, List.filterMap_map] at hmap
    rw [List.map_filterMap]
    refine .trans ?_ (hmap.trans (List.filterMap_congr fun g _ => ?_))
    · exact (congrFun List.filterMap_eq_map _).symm
    · exact List.head?_map
  have hheads : (gs.filterMap (·.2.head?)).Pairwise fun d d' =>
      d.2.candidate.start ≤ d'.2.candidate.start := hgs.pairwise_heads (PySeq.pairwise_sortedBy _ _)
  have hpersonal {a : DecisionObject} (ha : a ∈ gs.filterMap (·.2.head?)) :
    a ∈ personalDecisions ds :=
    mem_inTextOrder.1 (hgs.heads.subset ha)
  have hfirst : ((groupPersonalDecisions u ds).map EntityGroup.first).Pairwise fun o o' =>
      o.2.candidate.start ≤ o'.2.candidate.start := by
    rw [hfirsts, List.pairwise_map]
    refine hheads.imp_of_mem fun ha hb hle => ?_
    rw [start_groupObject u hids (hpersonal ha), start_groupObject u hids (hpersonal hb)]
    exact hle
  rw [List.pairwise_map] at hfirst
  exact hfirst

/-- **The ids of a prefix are numbered without gaps**, in the order of the groups. -/
theorem numbered_groupPersonalDecisions (hids : DistinctIds ds) (p : Text) :
    ∃ k, ((groupPersonalDecisions u ds).filter (tokenPrefix ·.type = p)).map EntityGroup.entityId =
      (List.range' 1 k).map fun n => p ++ ['_'] ++ showNat n := by
  have h : Grouping.Counted (List.foldl (groupDecision u (personsOf u ds)) {} (inTextOrder ds)) :=
    List.foldlRecOn (motive := Grouping.Counted) _ _ (fun _ => rfl) fun st hst d hd =>
      groupDecision_counted hst (type_groupObject u hids (mem_inTextOrder.1 hd))
  refine ⟨_, .trans ?_ (h p)⟩
  rw [List.filter_map, List.map_map]
  rfl

theorem distinctIds_decisionObjects (decisions : List PrivacyDecision) :
    DistinctIds (decisionObjects decisions) := by
  have hids : (decisionObjects decisions).map Prod.fst = List.range' 0 decisions.length := by
    rw [decisionObjects, List.map_map]
    exact List.zipIdx_map_snd 0 decisions
  rw [DistinctIds, hids]
  exact List.nodup_range'

theorem tokenFor_injective : Function.Injective tokenFor :=
  fun _ _ h => List.append_cancel_left (List.append_cancel_right h)

/-- **Grouping is a faithful partition**: each decision to mask is in exactly one group and no other
one is; two of them share a group when they were resolved to one person, or neither was and their
keys are equal; the ids and the tokens of the groups are different, those of a prefix are numbered
without gaps in the order of the first mentions, and each group starts with its earliest mention. -/
theorem groupPersonalDecisions_partition (decisions : List PrivacyDecision)
    (hkeys : NoPersonKey (decisionObjects decisions)) :
    (∃ os, List.Forall₂ AnnotatedFrom (personalDecisions (decisionObjects decisions)) os ∧
      ((groupPersonalDecisions u (decisionObjects decisions)).flatMap
        EntityGroup.decisions).Perm os) ∧
    (∀ d ∈ personalDecisions (decisionObjects decisions),
      ∀ d' ∈ personalDecisions (decisionObjects decisions),
        ((∃ g ∈ groupPersonalDecisions u (decisionObjects decisions), d.1 ∈ g.ids ∧ d'.1 ∈ g.ids) ↔
          (∃ p ∈ personsOf u (decisionObjects decisions), d.1 ∈ p.ids ∧ d'.1 ∈ p.ids) ∨
            ((∀ p ∈ personsOf u (decisionObjects decisions), d.1 ∉ p.ids ∧ d'.1 ∉ p.ids) ∧
              identityKeyFor u d.2 = identityKeyFor u d'.2))) ∧
    ((groupPersonalDecisions u (decisionObjects decisions)).map EntityGroup.entityId).Nodup ∧
    ((groupPersonalDecisions u (decisionObjects decisions)).map fun g =>
      tokenFor g.entityId).Nodup ∧
    (∀ p, ∃ k, ((groupPersonalDecisions u (decisionObjects decisions)).filter
        (tokenPrefix ·.type = p)).map EntityGroup.entityId =
      (List.range' 1 k).map fun n => p ++ ['_'] ++ showNat n) ∧
    (groupPersonalDecisions u (decisionObjects decisions)).Pairwise
      (fun g g' => g.first.2.candidate.start ≤ g'.first.2.candidate.start) ∧
    ∀ g ∈ groupPersonalDecisions u (decisionObjects decisions), ∀ o ∈ g.decisions,
      g.first.2.candidate.start ≤ o.2.candidate.start := by
  have hids := distinctIds_decisionObjects decisions
  have hnodup := nodup_entityId_groups u (decisionObjects decisions)
  refine ⟨perm_groupPersonalDecisions u hids, fun d hd d' hd' => ?_, hnodup, ?_,
    numbered_groupPersonalDecisions u hids, pairwise_first_groups u hids, fun g hg o ho => ?_⟩
  · rw [share_group_iff u hids hd hd', groupKey_eq_iff u hids hkeys hd hd']
  · have htokens := hnodup.map tokenFor_injective
    rw [List.map_map] at htokens
    exact htokens
  · have hpairs := pairwise_decisions_of_mem_groups u hids hg
    rw [EntityGroup.decisions, List.pairwise_cons] at hpairs
    rcases List.mem_cons.1 ho with rfl | ho
    · exact le_rfl
    · exact hpairs.1 o ho

/-- A decision to mask an e-mail address at a position. -/
def mailDecision (value : Text) (start : ℕ) : PrivacyDecision where
  candidate := { type := .email, value, start, stop := start + value.length,
                 detector := "email".toList }
  decision := .mask
  confidence := 1

/-- Two mentions of one person, and three e-mail addresses, of which two are the same. -/
def ivanovAndMail : List PrivacyDecision :=
  [(nameMention 0 0 "Иванов Иван".toList
      [⟨.word "иванов".toList, "Иванов".toList, 0, 6, some .surname⟩,
       ⟨.word "иван".toList, "Иван".toList, 7, 11, some .first⟩]).2,
    mailDecision "ii@a.ru".toList 12,
    (nameMention 2 20 "И. Иванов".toList
      [⟨.initial 'И', "И".toList, 0, 2, none⟩,
       ⟨.word "иванов".toList, "Иванов".toList, 3, 9, some .surname⟩]).2,
    mailDecision "jj@a.ru".toList 30,
    mailDecision "II@a.ru".toList 38]

theorem noPersonKey_ivanovAndMail : NoPersonKey (decisionObjects ivanovAndMail) := by
  have hnone : ∀ d ∈ decisionObjects ivanovAndMail, d.2.candidate.metadata.identityKey = none := by
    decide
  intro d hd _ _ key hkey
  rw [hnone d hd] at hkey
  cases hkey

/-- The mentions of the person are together, and so are the two spellings of one address; the other
address has a group of its own. -/
theorem groupPersonalDecisions_partition_ivanov :
    (groupPersonalDecisions basicUnicode (decisionObjects ivanovAndMail)).map
        (fun g => (g.entityId, g.ids)) = [("PERSON_1".toList, [0, 2]), ("EMAIL_1".toList, [1, 4]),
          ("EMAIL_2".toList, [3])] ∧
      (∃ g ∈ groupPersonalDecisions basicUnicode (decisionObjects ivanovAndMail),
        1 ∈ g.ids ∧ 4 ∈ g.ids) ∧
      (¬∃ g ∈ groupPersonalDecisions basicUnicode (decisionObjects ivanovAndMail),
        1 ∈ g.ids ∧ 3 ∈ g.ids) ∧
      ((groupPersonalDecisions basicUnicode (decisionObjects ivanovAndMail)).map
        EntityGroup.entityId).Nodup := by
  obtain ⟨-, hshare, hnodup, -⟩ :=
    groupPersonalDecisions_partition basicUnicode ivanovAndMail noPersonKey_ivanovAndMail
  have hfirst : (1, mailDecision "ii@a.ru".toList 12) ∈
      personalDecisions (decisionObjects ivanovAndMail) := by decide
  have hother : (3, mailDecision "jj@a.ru".toList 30) ∈
      personalDecisions (decisionObjects ivanovAndMail) := by decide
  have hagain : (4, mailDecision "II@a.ru".toList 38) ∈
      personalDecisions (decisionObjects ivanovAndMail) := by decide
  have hunresolved : ∀ p ∈ personsOf basicUnicode (decisionObjects ivanovAndMail),
      1 ∉ p.ids ∧ 3 ∉ p.ids ∧ 4 ∉ p.ids := by decide +kernel
  refine ⟨by decide +kernel, (hshare _ hfirst _ hagain).2 (.inr ⟨fun p hp => ?_, ?_⟩),
    fun hsame => ?_, hnodup⟩
  · exact ⟨(hunresolved p hp).1, (hunresolved p hp).2.2⟩
  · exact (identityKeyFor_eq_iff basicUnicode (by decide) (by decide)).2 ⟨rfl, by decide⟩
  · rcases (hshare _ hfirst _ hother).1 hsame with ⟨p, hp, hid, -⟩ | ⟨-, hkey⟩
    · exact (hunresolved p hp).1 hid
    · have hvalues := ((identityKeyFor_eq_iff basicUnicode (by decide) (by decide)).1 hkey).2
      exact absurd hvalues (by decide)

end Groups

end PiiProxy
