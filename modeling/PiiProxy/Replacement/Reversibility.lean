import PiiProxy.Context.Overlap
import PiiProxy.Core.Record
import PiiProxy.Lib.Raising
import PiiProxy.Replacement.Engine

/-!
# Masking is reversible

A transform result *describes* edits of the source text when its text is the splice of these edits
and its occurrences list the edits in the source and the inverse edits in the result. The main
loop of the engine places one span for each MASK decision, so over decisions about disjoint spans
the engine describes the edits of the MASK decisions. The splices of a record built from such a
result then map the two texts to each other.

## Main definitions

* `TransformResult.Describes`: the result records the given edits of the source text.

## Main results

* `buildTransformResult_describes`: the engine describes one edit for each MASK decision.
* `TransformResult.Describes.applyMask`, `TransformResult.Describes.applyDemask`: the splices of
  the record.
* `buildTransformResult_reversible`: exact reversibility of masking.
-/

namespace PiiProxy

/-! ### Results that describe edits -/

/-- The text of the result is the splice of the edits `es` into `text`, and its occurrences list
these edits in `text` and the inverse edits in the result. -/
structure TransformResult.Describes (R : TransformResult) (text : Text)
    (es : List (Splice.Edit Char)) : Prop where
  ordered : Splice.Ordered text.length 0 es
  text_eq : R.text = Splice.apply text 0 es
  lists_edits : ListsEdits Occurrence.originalStart Occurrence.originalEnd Occurrence.masked
    R.occurrences es
  lists_inverse : ListsEdits Occurrence.maskedStart Occurrence.maskedEnd Occurrence.original
    R.occurrences (Splice.invert text 0 0 es)

namespace TransformResult.Describes

variable {R : TransformResult} {text : Text} {es : List (Splice.Edit Char)}

/-- Splicing the masks of the record into the source gives the result. -/
theorem applyMask (hR : R.Describes text es) {record : MappingRecord}
    (hrec : record.occurrences = R.occurrences) : applyMaskFromRecord text record = R.text := by
  rw [applyMaskFromRecord, hrec, hR.text_eq]
  exact spliceOccurrences_eq_apply text hR.lists_edits hR.ordered

/-- Splicing the originals of the record into the result gives the source back. -/
theorem applyDemask (hR : R.Describes text es) {record : MappingRecord}
    (hrec : record.occurrences = R.occurrences) : applyDemaskFromRecord R.text record = text := by
  rw [applyDemaskFromRecord, hrec, hR.text_eq]
  rw [spliceOccurrences_eq_apply _ hR.lists_inverse (Splice.ordered_invert text es hR.ordered)]
  exact Splice.apply_invert text es hR.ordered

/-- The two texts have the same pieces between the occurrences. -/
theorem keptPieces_eq (hR : R.Describes text es) :
    keptPieces R.text Occurrence.maskedStart Occurrence.maskedEnd 0 R.occurrences =
      keptPieces text Occurrence.originalStart Occurrence.originalEnd 0 R.occurrences := by
  have hresult := keptPieces_eq_kept R.text 0 hR.lists_inverse
  have hsource := keptPieces_eq_kept text 0 hR.lists_edits
  rw [Nat.cast_zero] at hresult hsource
  rw [hresult, hsource, hR.text_eq]
  exact Splice.kept_invert text es hR.ordered

end TransformResult.Describes

/-! ### The forward splice -/

/-- The edit of a span. -/
def Span.edit (sp : Span) : Splice.Edit Char := ⟨sp.start, sp.stop, sp.replacement⟩

theorem spliceFrom_text (text : Text) : (cursor : ℕ) → (offset : ℤ) → (spans : List Span) →
    (spliceFrom text cursor offset spans).1 = Splice.apply text cursor (spans.map Span.edit)
  | cursor, _, [] => PySeq.slice_to_length text cursor
  | cursor, offset, sp :: spans => by
      rw [spliceFrom, List.map_cons, Splice.apply, spliceFrom_text]
      rfl

/-- The occurrence records the span of the source text with its piece and its replacement. -/
structure Occurrence.Records (text : Text) (o : Occurrence) (sp : Span) : Prop where
  start_eq : o.originalStart = (sp.start : ℤ)
  stop_eq : o.originalEnd = (sp.stop : ℤ)
  original_eq : o.original = PySeq.slice text sp.start sp.stop
  masked_eq : o.masked = sp.replacement
  entityId_eq : o.entityId = sp.entityId

theorem spliceFrom_records (text : Text) : (cursor : ℕ) → (offset : ℤ) → (spans : List Span) →
    List.Forall₂ (Occurrence.Records text) (spliceFrom text cursor offset spans).2 spans
  | _, _, [] => .nil
  | _, _, sp :: spans =>
      .cons ⟨rfl, rfl, rfl, rfl, rfl⟩ (spliceFrom_records text sp.stop _ spans)

theorem spliceFrom_lists_edits (text : Text) (cursor : ℕ) (offset : ℤ) (spans : List Span) :
    ListsEdits Occurrence.originalStart Occurrence.originalEnd Occurrence.masked
      (spliceFrom text cursor offset spans).2 (spans.map Span.edit) := by
  refine List.forall₂_map_right_iff.mpr ((spliceFrom_records text cursor offset spans).imp ?_)
  intro o sp ho
  exact ⟨ho.start_eq, ho.stop_eq, ho.masked_eq⟩

/-- The running offset is the length written so far minus the cursor, so the masked coordinates
of the occurrences are those of the inverse edits. -/
theorem spliceFrom_lists_inverse (text : Text) {n : ℕ} : (cursor m : ℕ) → (spans : List Span) →
    Splice.Ordered n cursor (spans.map Span.edit) →
      ListsEdits Occurrence.maskedStart Occurrence.maskedEnd Occurrence.original
        (spliceFrom text cursor (m - cursor) spans).2
        (Splice.invert text cursor m (spans.map Span.edit))
  | _, _, [], _ => .nil
  | cursor, m, sp :: spans, ⟨hcursor, hspan, h⟩ => by
      simp only [Span.edit] at hcursor hspan h
      have hstart : (sp.start : ℤ) + (m - cursor) = ((m + (sp.start - cursor) : ℕ) : ℤ) := by
        omega
      have hoffset : (m - cursor : ℤ) + (sp.replacement.length - (sp.stop - sp.start : ℤ)) =
          ((m + (sp.start - cursor) + sp.replacement.length : ℕ) : ℤ) - (sp.stop : ℤ) := by
        omega
      rw [spliceFrom, hoffset]
      refine .cons ⟨hstart, ?_, rfl⟩ (spliceFrom_lists_inverse text sp.stop _ spans h)
      rw [hstart]
      rfl

/-! ### The spans of the main loop -/

/-- The span lies where the candidate of the decision lies. -/
def Span.IsFor (sp : Span) (d : PrivacyDecision) : Prop :=
  sp.start = d.candidate.start ∧ sp.stop = d.candidate.stop

variable (rt : Runtime)

/-- **One decision of the main loop.** A KEEP decision is only listed; a MASK decision finds the
entry of its entity, adds its span and updates the entry. -/
theorem placeDecision_eq_ok {mode : MaskingMode} {st st' : Placement} {d : DecisionObject}
    (h : placeDecision rt mode st d = .ok st') :
    (d.2.isPersonal = false ∧ st'.entries = st.entries ∧ st'.spans = st.spans) ∨
      (d.2.isPersonal = true ∧ ∃ i group mapping object,
        findEntry st.entries d.1 = some (i, (group, mapping), object) ∧
        st'.entries =
          st.entries.set i (group, (occurrenceReplacement rt mode object mapping).2) ∧
        st'.spans = st.spans ++ [⟨d.2.candidate.start, d.2.candidate.stop,
          (occurrenceReplacement rt mode object mapping).1, group.entityId⟩]) := by
  unfold placeDecision at h
  cases hd : d.2.isPersonal with
  | false =>
    simp only [hd, Bool.not_false, ↓reduceIte, Except.ok.injEq] at h
    rw [← h]
    exact .inl ⟨rfl, rfl, rfl⟩
  | true =>
    simp only [hd, Bool.not_true, Bool.false_eq_true, ↓reduceIte] at h
    split at h
    · cases h
    · next i group mapping object hfind =>
      rw [Except.ok.injEq] at h
      rw [← h]
      exact .inr ⟨rfl, i, group, mapping, object, hfind, rfl, rfl⟩

/-- The main loop adds one span for each MASK decision, in order. -/
theorem foldlM_placeDecision {mode : MaskingMode} {ds : List DecisionObject}
    {st st' : Placement} (h : ds.foldlM (placeDecision rt mode) st = .ok st') :
    ∃ spans, List.Forall₂ Span.IsFor spans ((ds.map Prod.snd).filter (·.isPersonal)) ∧
      st'.spans = st.spans ++ spans := by
  induction ds generalizing st with
  | nil =>
    cases h
    exact ⟨[], .nil, (List.append_nil _).symm⟩
  | cons d ds ih =>
    obtain ⟨st₁, hstep, h⟩ := Except.foldlM_cons_eq_ok.mp h
    obtain ⟨spans, hspans, hst'⟩ := ih h
    rw [List.map_cons, List.filter_cons]
    obtain ⟨hd, -, hst₁⟩ | ⟨hd, _, _, _, _, -, -, hst₁⟩ := placeDecision_eq_ok rt hstep
    · rw [hd, if_neg Bool.false_ne_true]
      exact ⟨spans, hspans, by rw [hst', hst₁]⟩
    · rw [hd, if_pos rfl]
      rw [hst₁, List.append_assoc, List.singleton_append] at hst'
      exact ⟨_, .cons ⟨rfl, rfl⟩ hspans, hst'⟩

/-- The main loop keeps the number of entries, and without entries it raises at the first MASK
decision. -/
private theorem foldlM_placeDecision_entries {mode : MaskingMode} {ds : List DecisionObject}
    {st st' : Placement} (h : ds.foldlM (placeDecision rt mode) st = .ok st') :
    st'.entries.length = st.entries.length ∧
      (st.entries = [] → (ds.map Prod.snd).filter (·.isPersonal) = []) := by
  induction ds generalizing st with
  | nil =>
    cases h
    exact ⟨rfl, fun _ => rfl⟩
  | cons d ds ih =>
    obtain ⟨st₁, hstep, h⟩ := Except.foldlM_cons_eq_ok.mp h
    obtain ⟨hlen, hnil⟩ := ih h
    rw [List.map_cons, List.filter_cons]
    obtain ⟨hd, hst₁, -⟩ | ⟨hd, i, group, mapping, object, hfind, hst₁, -⟩ :=
      placeDecision_eq_ok rt hstep
    · rw [hst₁] at hlen hnil
      rw [hd, if_neg Bool.false_ne_true]
      exact ⟨hlen, hnil⟩
    · rw [hst₁, List.length_set] at hlen
      refine ⟨hlen, fun hst => ?_⟩
      rw [hst] at hfind
      cases hfind

/-- **A run of `build_transform_result`** that returned built its mappings and placed its
decisions. -/
theorem buildTransformResult_eq_ok {text : Text} {decisions : List PrivacyDecision}
    {mode : MaskingMode} {sessionSeed : Text} {R : TransformResult}
    (h : buildTransformResult rt text decisions mode sessionSeed = .ok R) :
    ∃ entries placed,
      buildMappings rt sessionSeed text
        (groupPersonalDecisions rt.unicode (decisionObjects decisions)) [] = .ok entries ∧
      (decisionObjects decisions).foldlM (placeDecision rt mode) { entries := entries } =
        .ok placed ∧
      R.mappings = placed.entries.map Prod.snd ∧
      (R.text, R.occurrences) = spliceSpans text (PySeq.sortedBy Span.start placed.spans) := by
  obtain ⟨entries, hentries, h⟩ := Except.bind_eq_ok.mp h
  obtain ⟨placed, hplaced, h⟩ := Except.bind_eq_ok.mp h
  cases h
  exact ⟨entries, placed, hentries, hplaced, rfl, rfl⟩

theorem map_snd_decisionObjects (decisions : List PrivacyDecision) :
    (decisionObjects decisions).map Prod.snd = decisions := by
  rw [decisionObjects, List.map_map]
  exact List.zipIdx_map_fst 0 decisions

/-- **A result without mappings masks nothing.** The mappings are empty exactly when there is no
MASK decision. -/
theorem buildTransformResult_mappings_eq_nil_iff {text : Text} {decisions : List PrivacyDecision}
    {mode : MaskingMode} {sessionSeed : Text} {R : TransformResult}
    (h : buildTransformResult rt text decisions mode sessionSeed = .ok R) :
    R.mappings = [] ↔ decisions.filter (·.isPersonal) = [] := by
  obtain ⟨entries, placed, hentries, hplaced, hmappings, -⟩ := buildTransformResult_eq_ok rt h
  obtain ⟨hlen, hnil⟩ := foldlM_placeDecision_entries rt hplaced
  rw [map_snd_decisionObjects] at hnil
  rw [hmappings, List.map_eq_nil_iff]
  constructor
  · intro hnone
    rw [hnone] at hlen
    exact hnil (List.length_eq_zero_iff.mp hlen.symm)
  · intro hmask
    have hobjects : (decisionObjects decisions).filter (·.2.isPersonal) = [] := by
      rw [← map_snd_decisionObjects decisions, List.filter_map] at hmask
      exact List.map_eq_nil_iff.mp hmask
    have hgroups : groupPersonalDecisions rt.unicode (decisionObjects decisions) = [] := by
      simp only [groupPersonalDecisions, hobjects]
      rfl
    rw [hgroups] at hentries
    cases hentries
    exact List.length_eq_zero_iff.mp hlen

/-- The spans that `build_transform_result` splices, before they are sorted. -/
private theorem buildTransformResult_spans {text : Text} {decisions : List PrivacyDecision}
    {mode : MaskingMode} {sessionSeed : Text} {R : TransformResult}
    (h : buildTransformResult rt text decisions mode sessionSeed = .ok R) :
    ∃ spans, List.Forall₂ Span.IsFor spans (decisions.filter (·.isPersonal)) ∧
      (R.text, R.occurrences) = spliceSpans text (PySeq.sortedBy Span.start spans) := by
  obtain ⟨entries, placed, -, hplaced, -, hR⟩ := buildTransformResult_eq_ok rt h
  obtain ⟨spans, hspans, hst⟩ := foldlM_placeDecision rt hplaced
  rw [map_snd_decisionObjects] at hspans
  rw [hst] at hR
  exact ⟨spans, hspans, hR⟩

/-! ### Decisions about disjoint spans -/

/-- The decisions are about pieces of the text that follow each other without overlap. -/
structure DecisionsFit (text : Text) (decisions : List PrivacyDecision) : Prop where
  wellFormed : ∀ d ∈ decisions, d.candidate.WellFormed text
  pairwise : decisions.Pairwise fun d d' => d.candidate.stop ≤ d'.candidate.start

/-- Decisions about the output of `resolve_overlaps` fit. -/
theorem decisionsFit_of_resolveOverlaps {text : Text} {candidates : List Candidate}
    (hc : ∀ c ∈ candidates, c.WellFormed text) {decisions : List PrivacyDecision}
    (hd : decisions.map PrivacyDecision.candidate = resolveOverlaps candidates) :
    DecisionsFit text decisions where
  wellFormed d hmem := by
    have hcand : d.candidate ∈ resolveOverlaps candidates := hd ▸ List.mem_map_of_mem hmem
    exact hc _ (mem_of_mem_resolveOverlaps hcand)
  pairwise := by
    have h := pairwise_resolveOverlaps fun c hmem => (hc c hmem).start_lt_stop
    rwa [← hd, List.pairwise_map] at h

theorem DecisionsFit.filter {text : Text} {decisions : List PrivacyDecision}
    (h : DecisionsFit text decisions) (p : PrivacyDecision → Bool) :
    DecisionsFit text (decisions.filter p) where
  wellFormed d hd := h.wellFormed d (List.mem_of_mem_filter hd)
  pairwise := h.pairwise.filter p

/-- The spans of decisions that fit are ordered. -/
private theorem ordered_of_decisionsFit {text : Text} {n c : ℕ} : (spans : List Span) →
    (ds : List PrivacyDecision) → List.Forall₂ Span.IsFor spans ds → DecisionsFit text ds →
      c ≤ text.length → n = text.length → (∀ d ∈ ds, c ≤ d.candidate.start) →
        Splice.Ordered n c (spans.map Span.edit)
  | _, _, .nil, _, hc, hn, _ => hc.trans hn.ge
  | sp :: spans, d :: ds, .cons ⟨hstart, hstop⟩ hspans, hfit, _, hn, hcs => by
      obtain ⟨hhead, htail⟩ := List.pairwise_cons.mp hfit.pairwise
      have hd := hfit.wellFormed d List.mem_cons_self
      have hrest : DecisionsFit text ds :=
        ⟨fun d' hd' => hfit.wellFormed d' (List.mem_cons_of_mem _ hd'), htail⟩
      refine ⟨?_, ?_, ordered_of_decisionsFit spans ds hspans hrest ?_ hn ?_⟩
      · exact (hcs d List.mem_cons_self).trans hstart.ge
      · exact (hstart.trans_le hd.start_lt_stop.le).trans hstop.ge
      · exact hstop.trans_le hd.stop_le_length
      · exact fun d' hd' => hstop.trans_le (hhead d' hd')

/-- The occurrence covers exactly the candidate of the decision. -/
structure Occurrence.IsFor (o : Occurrence) (d : PrivacyDecision) : Prop where
  start_eq : o.originalStart = (d.candidate.start : ℤ)
  stop_eq : o.originalEnd = (d.candidate.stop : ℤ)
  original_eq : o.original = d.candidate.value

private theorem forall₂_isFor {text : Text} : {os : List Occurrence} → {spans : List Span} →
    {ds : List PrivacyDecision} → List.Forall₂ (Occurrence.Records text) os spans →
      List.Forall₂ Span.IsFor spans ds → (∀ d ∈ ds, d.candidate.WellFormed text) →
        List.Forall₂ Occurrence.IsFor os ds
  | _, _, _, .nil, .nil, _ => .nil
  | o :: _, sp :: _, d :: _, .cons ho hos, .cons ⟨hstart, hstop⟩ hspans, hds => by
      have hd := hds d List.mem_cons_self
      refine .cons ⟨?_, ?_, ?_⟩
        (forall₂_isFor hos hspans fun d' hd' => hds d' (List.mem_cons_of_mem _ hd'))
      · rw [ho.start_eq, hstart]
      · rw [ho.stop_eq, hstop]
      · rw [ho.original_eq, PySeq.slice_natCast, hd.value_eq, hstart, hstop]

/-- **What the engine records.** Over decisions that fit, the result describes one edit for each
MASK decision, and its occurrences are those of the MASK decisions, in order. -/
theorem buildTransformResult_describes {text : Text} {decisions : List PrivacyDecision}
    {mode : MaskingMode} {sessionSeed : Text} {R : TransformResult}
    (hfit : DecisionsFit text decisions)
    (h : buildTransformResult rt text decisions mode sessionSeed = .ok R) :
    (∃ es, R.Describes text es) ∧
      List.Forall₂ Occurrence.IsFor R.occurrences (decisions.filter (·.isPersonal)) := by
  obtain ⟨spans, hspans, hR⟩ := buildTransformResult_spans rt h
  have hmask := hfit.filter (·.isPersonal)
  have hordered : Splice.Ordered text.length 0 (spans.map Span.edit) :=
    ordered_of_decisionsFit spans _ hspans hmask (Nat.zero_le _) rfl fun _ _ => Nat.zero_le _
  have hsorted : PySeq.sortedBy Span.start spans = spans := by
    have hstarts := hordered.pairwise_start
    rw [List.pairwise_map] at hstarts
    exact PySeq.sortedBy_eq_self hstarts
  rw [hsorted, spliceSpans, Prod.ext_iff] at hR
  obtain ⟨htext, hoccs⟩ := hR
  simp only at htext hoccs
  have hinv := spliceFrom_lists_inverse text 0 0 spans hordered
  rw [Nat.cast_zero, sub_zero] at hinv
  refine ⟨⟨spans.map Span.edit, hordered, ?_, ?_, ?_⟩, ?_⟩
  · rw [htext, spliceFrom_text]
  · rw [hoccs]
    exact spliceFrom_lists_edits text 0 0 spans
  · rw [hoccs]
    exact hinv
  · rw [hoccs]
    exact forall₂_isFor (spliceFrom_records text 0 0 spans) hspans hmask.wellFormed

/-- A result without mappings has the source text. -/
theorem text_eq_of_mappings_eq_nil {text : Text} {decisions : List PrivacyDecision}
    {mode : MaskingMode} {sessionSeed : Text} {R : TransformResult}
    (h : buildTransformResult rt text decisions mode sessionSeed = .ok R) (hnil : R.mappings = []) :
    R.text = text := by
  obtain ⟨spans, hspans, hR⟩ := buildTransformResult_spans rt h
  rw [(buildTransformResult_mappings_eq_nil_iff rt h).mp hnil] at hspans
  cases hspans
  exact (Prod.ext_iff.mp hR).1.trans (PySeq.slice_to_length text 0)

/-! ### Exact reversibility -/

/-- **Exact reversibility of masking.** For all detector candidates, all decisions about the
candidates that overlap resolution keeps, all modes and seeds: whenever the engine returns, the
record of its result masks the text to the result and demasks the result to the text, the recorded
occurrences are those of the MASK decisions in order, and the two texts have the same pieces outside
the occurrences. -/
theorem buildTransformResult_reversible (rt : Runtime) (hashing : Hashing) (text : Text)
    (candidates : List Candidate) (hc : ∀ c ∈ candidates, c.WellFormed text)
    (decisions : List PrivacyDecision)
    (hd : decisions.map PrivacyDecision.candidate = resolveOverlaps candidates)
    (mode : MaskingMode) (sessionSeed : Text) (R : TransformResult)
    (hR : buildTransformResult rt text decisions mode sessionSeed = .ok R)
    (demaskEnabled : Bool) (secret : Option Text) (now : ℚ) (record : MappingRecord)
    (hrecord : record = buildRecord hashing R text demaskEnabled secret now) :
    applyMaskFromRecord text record = R.text ∧
      applyDemaskFromRecord R.text record = text ∧
      List.Forall₂ Occurrence.IsFor record.occurrences (decisions.filter (·.isPersonal)) ∧
      keptPieces R.text Occurrence.maskedStart Occurrence.maskedEnd 0 record.occurrences =
        keptPieces text Occurrence.originalStart Occurrence.originalEnd 0 record.occurrences := by
  subst hrecord
  obtain ⟨⟨es, hes⟩, hoccs⟩ :=
    buildTransformResult_describes rt (decisionsFit_of_resolveOverlaps hc hd) hR
  exact ⟨hes.applyMask rfl, hes.applyDemask rfl, hoccs, hes.keptPieces_eq⟩

/-- A document with an address and a code, for the case below. -/
def mailAndPin : Text := "mail a@b.ru, pin 1234".toList

/-- The address in `mailAndPin`. -/
def mailCandidate : Candidate where
  type := .email
  value := "a@b.ru".toList
  start := 5
  stop := 11
  detector := "email".toList

/-- The code in `mailAndPin`. -/
def pinCandidate : Candidate where
  type := .pin
  value := "1234".toList
  start := 17
  stop := 21
  detector := "pin".toList

/-- Both values of `mailAndPin` are masked. -/
def mailAndPinDecisions : List PrivacyDecision :=
  [⟨mailCandidate, .mask, 1, []⟩, ⟨pinCandidate, .mask, 1, []⟩]

/-- The case of an address and a code, whose tokens are longer than they are. -/
theorem buildTransformResult_reversible_mail :
    ∃ R, buildTransformResult (basicRuntime 0 (by decide)) mailAndPin mailAndPinDecisions
        .tokenMode "p1".toList = .ok R ∧
      R.text = "mail <EMAIL_1>, pin <PIN_1>".toList ∧
      applyMaskFromRecord mailAndPin (buildRecord ⟨id, fun _ => id⟩ R mailAndPin true none 0) =
        R.text ∧
      applyDemaskFromRecord R.text (buildRecord ⟨id, fun _ => id⟩ R mailAndPin true none 0) =
        mailAndPin := by
  have hrun : ∃ R, buildTransformResult (basicRuntime 0 (by decide)) mailAndPin
      mailAndPinDecisions .tokenMode "p1".toList = .ok R ∧
        R.text = "mail <EMAIL_1>, pin <PIN_1>".toList := ⟨_, rfl, by decide⟩
  obtain ⟨R, hR, htext⟩ := hrun
  have hwf : ∀ c ∈ [pinCandidate, mailCandidate], c.WellFormed mailAndPin := by
    intro c hc
    rcases List.mem_pair.mp hc with rfl | rfl
    · exact ⟨by decide, by decide, by decide⟩
    · exact ⟨by decide, by decide, by decide⟩
  have h := buildTransformResult_reversible (basicRuntime 0 (by decide)) ⟨id, fun _ => id⟩
    mailAndPin [pinCandidate, mailCandidate] hwf mailAndPinDecisions (by decide) .tokenMode
    "p1".toList R hR true none 0 _ rfl
  exact ⟨R, hR, htext, h.1, h.2.1⟩

end PiiProxy
