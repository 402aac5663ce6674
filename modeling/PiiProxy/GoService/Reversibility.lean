import PiiProxy.GoService.Demask
import PiiProxy.Lib.Splice

/-!
# Exact reversibility in the Go service

The candidates that overlap resolution keeps follow each other in the text. Grouping rearranges
them, but each of them stays in exactly one group, and sorting by the start puts them back in order.
So the spans that `BuildTransform` writes are ordered, its slices are in range, and its occurrences
describe a splice together with the inverse splice.

## Main definitions

* `GoService.Span.edit`, `GoService.Occurrence.maskEdit`, `GoService.Occurrence.demaskEdit`: spans
  and occurrences as edits.

## Main results

* `GoService.perm_groupDecisions`: every decision to mask is in exactly one group.
* `GoService.writeSpans_eq`: what the loop over ordered spans writes.
* `GoService.buildTransform_reversible`: both splices with the occurrences succeed and undo each
  other.
-/

namespace PiiProxy.GoService

variable (rt : GoRuntime)

/-! ### Every decision is in one group -/

/-- The keys differ, and the items are the decisions so far. -/
structure Grouping.Covers (st : Grouping) (ds : List Decided) : Prop where
  nodup : (st.groups.map Group.key).Nodup
  perm : (st.groups.flatMap Group.items).Perm ds

/-- A decision joins the one group with its key. -/
theorem perm_flatMap_items {groups : List Group} {key : GoString} (d : Decided)
    (hnodup : (groups.map Group.key).Nodup) (hkey : ∃ g ∈ groups, g.key = key) :
    ((groups.map fun g => if g.key = key then { g with others := g.others ++ [d] } else g).flatMap
      Group.items).Perm (groups.flatMap Group.items ++ [d]) := by
  induction groups with
  | nil => simp at hkey
  | cons g groups ih =>
    obtain ⟨hfresh, hnodup⟩ := List.nodup_cons.1 hnodup
    rw [List.map_cons, List.flatMap_cons, List.flatMap_cons]
    by_cases hg : g.key = key
    · have hrest : (groups.map fun g => if g.key = key then { g with others := g.others ++ [d] }
          else g) = groups := by
        refine (List.map_congr_left fun g' hg' => if_neg fun h => ?_).trans (List.map_id groups)
        exact hfresh (hg.trans h.symm ▸ List.mem_map_of_mem hg')
      rw [hrest, if_pos hg, Group.items, ← List.cons_append]
      show (g.items ++ [d] ++ groups.flatMap Group.items).Perm _
      rw [List.append_assoc, List.append_assoc]
      exact List.perm_append_comm.append_left g.items
    · have hkey : ∃ g ∈ groups, g.key = key := by
        obtain ⟨g', hg', heq⟩ := hkey
        rcases List.mem_cons.1 hg' with rfl | hg'
        · exact absurd heq hg
        · exact ⟨g', hg', heq⟩
      rw [if_neg hg, List.append_assoc]
      exact (ih hnodup hkey).append_left g.items

theorem addDecision_covers {st : Grouping} {ds : List Decided} (h : st.Covers ds) (d : Decided) :
    (addDecision rt st d).Covers (ds ++ [d]) := by
  unfold addDecision
  dsimp only
  split_ifs with hfound
  · have hkey : ∃ g ∈ st.groups, g.key = groupKey rt d.candidate := by simpa using hfound
    refine ⟨?_, (perm_flatMap_items d h.nodup hkey).trans (h.perm.append_right [d])⟩
    have hkeys : (st.groups.map fun g => if g.key = groupKey rt d.candidate then
        { g with others := g.others ++ [d] } else g).map Group.key = st.groups.map Group.key := by
      rw [List.map_map]
      refine List.map_congr_left fun g _ => ?_
      simp only [Function.comp_apply]
      split_ifs <;> rfl
    show (List.map Group.key _).Nodup
    rw [hkeys]
    exact h.nodup
  · constructor
    · show (List.map Group.key (st.groups ++ [_])).Nodup
      rw [List.map_append, List.map_singleton]
      refine List.Nodup.append h.nodup (List.nodup_singleton _) ?_
      rw [List.disjoint_singleton]
      intro hmem
      obtain ⟨g, hg, hkey⟩ := List.mem_map.1 hmem
      exact hfound (List.any_eq_true.2 ⟨g, hg, beq_iff_eq.2 hkey⟩)
    · show (List.flatMap Group.items (st.groups ++ [_])).Perm _
      rw [List.flatMap_append, List.flatMap_singleton]
      exact h.perm.append_right [d]

/-- **Every decision to mask is in exactly one group.** -/
theorem perm_groupDecisions (decided : List Decided) :
    ((groupDecisions rt decided).flatMap Group.items).Perm
      (decided.filter fun d => d.decision == .mask) := by
  have hfold (ds : List Decided) (st : Grouping) (seen : List Decided) (h : st.Covers seen) :
      (ds.foldl (addDecision rt) st).Covers (seen ++ ds) := by
    induction ds generalizing st seen with
    | nil => rwa [List.append_nil]
    | cons d ds ih =>
      rw [List.append_cons]
      exact ih _ _ (addDecision_covers rt h d)
  exact (hfold _ ⟨[], fun _ => 0⟩ [] ⟨List.nodup_nil, List.Perm.refl _⟩).perm

/-! ### Spans and occurrences as edits -/

/-- A span as an edit of the text. -/
def Span.edit (sp : Span) : Splice.Edit UInt8 := ⟨sp.s.toNat, sp.e.toNat, sp.rep⟩

/-- An occurrence as an edit that masks. -/
def Occurrence.maskEdit (o : Occurrence) : Splice.Edit UInt8 :=
  ⟨o.originalStart.toNat, o.originalEnd.toNat, o.masked⟩

/-- An occurrence as an edit that demasks. -/
def Occurrence.demaskEdit (o : Occurrence) : Splice.Edit UInt8 :=
  ⟨o.maskedStart.toNat, o.maskedEnd.toNat, o.original⟩

/-- A splice along ordered edits is in range. -/
theorem spliceFrom_eq {start stop : Occurrence → ℤ} {insert : Occurrence → GoString}
    {payload : GoString} {occ : List Occurrence} (hnonneg : ∀ o ∈ occ, 0 ≤ start o ∧ 0 ≤ stop o)
    {cursor : ℕ} (b : GoString)
    (hordered : Splice.Ordered payload.length cursor
      (occ.map fun o => ⟨(start o).toNat, (stop o).toNat, insert o⟩)) :
    spliceFrom start stop insert payload occ cursor b =
      .ok (b ++ Splice.apply payload cursor
        (occ.map fun o => ⟨(start o).toNat, (stop o).toNat, insert o⟩)) := by
  induction occ generalizing cursor b with
  | nil =>
    rw [spliceFrom, Go.slice_to_end payload hordered.cursor_le]
    rfl
  | cons o occ ih =>
    obtain ⟨hstart, hstop, hordered⟩ := hordered
    obtain ⟨hs, he⟩ := hnonneg o List.mem_cons_self
    have hlen : (start o).toNat ≤ payload.length := le_trans hstop hordered.cursor_le
    have hslice : Go.slice payload cursor (start o) =
        .ok (PySeq.slice payload cursor (start o).toNat) := by
      rw [← Int.toNat_of_nonneg hs, Go.slice_eq_ok payload hstart hlen, Int.toNat_natCast,
        PySeq.slice_natCast]
    have hnext := ih (fun o ho => hnonneg o (.tail _ ho))
      (b ++ PySeq.slice payload cursor (start o).toNat ++ insert o) hordered
    rw [Int.toNat_of_nonneg he] at hnext
    rw [spliceFrom, hslice]
    show spliceFrom start stop insert payload occ (stop o) _ = _
    rw [hnext, List.map_cons, Splice.apply]
    simp only [List.append_assoc]

/-- **What the loop over ordered spans writes.** The occurrences mask the text to the output, and
the inverse edits demask it. -/
theorem writeSpans_eq {text : GoString} {sps : List Span}
    (hnonneg : ∀ sp ∈ sps, 0 ≤ sp.s ∧ 0 ≤ sp.e)
    (b : GoString) (occ : List Occurrence) (cursor offset : ℤ) (hcursor : 0 ≤ cursor)
    (hoffset : b.length = cursor + offset)
    (hordered : Splice.Ordered text.length cursor.toNat (sps.map Span.edit)) :
    ∃ os, writeSpans text sps b occ cursor offset =
        .ok (b ++ Splice.apply text cursor.toNat (sps.map Span.edit), occ ++ os) ∧
      os.map Occurrence.maskEdit = sps.map Span.edit ∧
      os.map Occurrence.demaskEdit =
        Splice.invert text cursor.toNat b.length (sps.map Span.edit) ∧
      ∀ o ∈ os, (0 ≤ o.originalStart ∧ 0 ≤ o.originalEnd) ∧ 0 ≤ o.maskedStart ∧
        0 ≤ o.maskedEnd := by
  induction sps generalizing b occ cursor offset with
  | nil =>
    refine ⟨[], ?_, rfl, rfl, by simp⟩
    have hrest := Go.slice_to_end text hordered.cursor_le
    rw [Int.toNat_of_nonneg hcursor] at hrest
    rw [writeSpans, hrest, List.append_nil]
    rfl
  | cons sp sps ih =>
    obtain ⟨hstart, hstop, hordered⟩ := hordered
    obtain ⟨hs, he⟩ := hnonneg sp List.mem_cons_self
    have hstart : cursor.toNat ≤ sp.s.toNat := hstart
    have hstop : sp.s.toNat ≤ sp.e.toNat := hstop
    have hend : sp.e.toNat ≤ text.length := hordered.cursor_le
    have hkept := Go.slice_eq_ok text hstart (hstop.trans hend)
    have horiginal := Go.slice_eq_ok text hstop hend
    rw [← PySeq.slice_natCast, Int.toNat_of_nonneg hcursor, Int.toNat_of_nonneg hs] at hkept
    rw [← PySeq.slice_natCast, Int.toNat_of_nonneg hs, Int.toNat_of_nonneg he] at horiginal
    have hlen := PySeq.length_slice_natCast text (hstop.trans hend) (i := cursor.toNat)
    rw [Int.toNat_of_nonneg hcursor, Int.toNat_of_nonneg hs] at hlen
    have hwritten : (b ++ PySeq.slice text cursor sp.s ++ sp.rep).length =
        b.length + (sp.s.toNat - cursor.toNat) + sp.rep.length := by
      rw [List.length_append, List.length_append, hlen]
    let o : Occurrence := ⟨sp.id, sp.s, sp.e, sp.s + offset, sp.s + offset + sp.rep.length,
      PySeq.slice text sp.s sp.e, sp.rep⟩
    obtain ⟨os, hwrite, hmask, hdemask, hos⟩ := ih (fun sp hsp => hnonneg sp (.tail _ hsp))
      (b ++ PySeq.slice text cursor sp.s ++ sp.rep) (occ ++ [o]) sp.e
      (offset + (sp.rep.length - (sp.e - sp.s))) he (by rw [hwritten]; push_cast; omega) hordered
    refine ⟨o :: os, ?_, ?_, ?_, ?_⟩
    · rw [writeSpans, hkept, horiginal]
      show writeSpans text sps _ (occ ++ [o]) sp.e _ = _
      rw [hwrite, List.map_cons, Splice.apply]
      simp only [Span.edit, Int.toNat_of_nonneg hcursor, Int.toNat_of_nonneg hs, List.append_assoc,
        List.singleton_append]
    · rw [List.map_cons, List.map_cons, hmask]
      rfl
    · rw [List.map_cons, List.map_cons, Splice.invert, hdemask, hwritten]
      have hmasked : (sp.s + offset).toNat = b.length + (sp.s.toNat - cursor.toNat) := by omega
      have hmasked' : (sp.s + offset + sp.rep.length).toNat =
          b.length + (sp.s.toNat - cursor.toNat) + sp.rep.length := by omega
      simp only [o, Occurrence.demaskEdit, hmasked, hmasked', Span.edit, Int.toNat_of_nonneg hs,
        Int.toNat_of_nonneg he]
    · rintro o' (_ | ⟨_, ho⟩)
      · exact ⟨⟨hs, he⟩, by dsimp only [o]; omega, by dsimp only [o]; omega⟩
      · exact hos o' ho

/-! ### The spans of a transformation are ordered -/

/-- Disjoint pieces of a text, sorted by their start, are ordered. -/
theorem ordered_sortSlice {n : ℕ} {sps : List Span}
    (hin : ∀ sp ∈ sps, 0 ≤ sp.s ∧ sp.s < sp.e ∧ sp.e ≤ n)
    (hdisjoint : sps.Pairwise fun a b => a.e ≤ b.s ∨ b.e ≤ a.s) :
    Splice.Ordered n 0 ((rt.sortSlice (fun a b => decide (a.s < b.s)) sps).map Span.edit) := by
  have hperm := rt.sortSlice_perm (fun a b : Span => decide (a.s < b.s)) sps
  have hsorted := rt.sortSlice_sorted Span.s (fun a b => decide (a.s < b.s)) sps fun _ _ => rfl
  have hin' : ∀ sp ∈ rt.sortSlice (fun a b => decide (a.s < b.s)) sps,
      0 ≤ sp.s ∧ sp.s < sp.e ∧ sp.e ≤ n := fun sp hsp => hin sp (hperm.mem_iff.1 hsp)
  have hdisjoint' := (hperm.pairwise_iff fun {a b} h => Or.symm h).2 hdisjoint
  refine Splice.ordered_of_pairwise 0 _ (Nat.zero_le n) ?_ (List.pairwise_map.2 ?_)
  · intro e he
    obtain ⟨sp, hsp, rfl⟩ := List.mem_map.1 he
    obtain ⟨h0, hlt, hle⟩ := hin' sp hsp
    refine ⟨Nat.zero_le _, ?_, ?_⟩ <;> simp only [Span.edit] <;> omega
  · refine (hsorted.and hdisjoint').imp_of_mem fun {a b} ha hb h => ?_
    obtain ⟨hle, hor⟩ := h
    obtain ⟨ha0, ha, -⟩ := hin' a ha
    obtain ⟨hb0, hb, -⟩ := hin' b hb
    simp only [Span.edit]
    rcases hor with hor | hor <;> omega

/-- Each group keeps its place among the mappings. -/
theorem fst_buildMappings {sessionSeed : GoString} {used : PIIType → List GoString}
    {groups : List Group} {mappings : List (Group × Mapping)}
    (h : buildMappings rt sessionSeed used groups = some mappings) :
    mappings.map Prod.fst = groups := by
  induction groups generalizing used mappings with
  | nil =>
    cases h
    rfl
  | cons g groups ih =>
    obtain ⟨m, -, h⟩ := Option.bind_eq_some_iff.1 h
    obtain ⟨rest, hrest, h⟩ := Option.bind_eq_some_iff.1 h
    cases h
    rw [List.map_cons, ih hrest]

/-- The spans are those of the decisions in the groups. -/
theorem map_mentionSpans (mode : Mode) (mappings : List (Group × Mapping)) :
    (mentionSpans rt mode mappings).map (fun sp => (sp.s, sp.e)) =
      ((mappings.map Prod.fst).flatMap Group.items).map
        fun d => (d.candidate.start, d.candidate.stop) := by
  simp only [mentionSpans, List.map_flatMap, List.map_map, List.flatMap_map]
  rfl

/-- **The spans that a transformation writes are disjoint pieces of the text**, when the candidates
of the decisions are. -/
theorem mentionSpans_spec {text : GoString} {decided : List Decided}
    (hwf : ∀ d ∈ decided, d.candidate.WellFormed text)
    (hdisjoint : decided.Pairwise fun a b =>
      a.candidate.stop ≤ b.candidate.start ∨ b.candidate.stop ≤ a.candidate.start)
    (mode : Mode) {sessionSeed : GoString} {mappings : List (Group × Mapping)}
    (hmappings : buildMappings rt sessionSeed (fun _ => []) (groupDecisions rt decided) =
      some mappings) :
    (∀ sp ∈ mentionSpans rt mode mappings, 0 ≤ sp.s ∧ sp.s < sp.e ∧ sp.e ≤ text.length) ∧
      (mentionSpans rt mode mappings).Pairwise fun a b => a.e ≤ b.s ∨ b.e ≤ a.s := by
  have hperm := perm_groupDecisions rt decided
  have hspans := map_mentionSpans rt mode mappings
  rw [fst_buildMappings rt hmappings] at hspans
  constructor
  · intro sp hsp
    have hmem := hspans ▸ List.mem_map_of_mem hsp
    obtain ⟨d, hd, heq⟩ := List.mem_map.1 hmem
    have hwf := hwf d (List.mem_of_mem_filter (hperm.mem_iff.1 hd))
    obtain ⟨hs, he⟩ := Prod.mk.inj heq
    rw [← hs, ← he]
    exact ⟨hwf.start_nonneg, hwf.start_lt_stop, hwf.stop_le_length⟩
  · have hitems : ((groupDecisions rt decided).flatMap Group.items).Pairwise fun a b =>
        a.candidate.stop ≤ b.candidate.start ∨ b.candidate.stop ≤ a.candidate.start :=
      (hperm.pairwise_iff fun {a b} h => Or.symm h).2 (hdisjoint.filter _)
    have hpairs : ((mentionSpans rt mode mappings).map fun sp => (sp.s, sp.e)).Pairwise
        fun a b => a.2 ≤ b.1 ∨ b.2 ≤ a.1 := by
      rw [hspans]
      exact List.pairwise_map.2 hitems
    exact List.pairwise_map.1 hpairs

/-- The decisions about what is left of the overlaps are about disjoint pieces of the text. -/
theorem decideAll_resolveOverlaps {text : GoString} {cands : List Candidate}
    (hcands : ∀ c ∈ cands, c.WellFormed text) :
    (∀ d ∈ decideAll rt.unicode text (resolveOverlaps rt cands), d.candidate.WellFormed text) ∧
      (decideAll rt.unicode text (resolveOverlaps rt cands)).Pairwise fun a b =>
        a.candidate.stop ≤ b.candidate.start ∨ b.candidate.stop ≤ a.candidate.start := by
  obtain ⟨hkept, hpairwise⟩ := resolveOverlaps_spec rt fun c hc => (hcands c hc).start_lt_stop
  constructor
  · intro d hd
    have hc := List.mem_map_of_mem (f := Decided.candidate) hd
    rw [candidate_decideAll] at hc
    exact hcands _ (hkept _ hc)
  · have hdecided : (decideAll rt.unicode text (resolveOverlaps rt cands)).Pairwise
        fun a b => a.candidate.stop ≤ b.candidate.start := by
      refine (List.pairwise_map (f := Decided.candidate) (R := fun a b => a.stop ≤ b.start)).1 ?_
      rw [candidate_decideAll]
      exact hpairwise
    exact hdecided.imp fun h => Or.inl h

/-! ### Both splices -/

/-- Both splices along the occurrences of ordered spans succeed. -/
theorem applyMappings_reversible {text : GoString} {mode : Mode} {mappings : List (Group × Mapping)}
    (hin : ∀ sp ∈ mentionSpans rt mode mappings, 0 ≤ sp.s ∧ sp.s < sp.e ∧ sp.e ≤ text.length)
    (hdisjoint : (mentionSpans rt mode mappings).Pairwise fun a b => a.e ≤ b.s ∨ b.e ≤ a.s) :
    ∃ tr, applyMappings rt text mode mappings = .ok tr ∧
      spliceMaskedToOriginal tr.text tr.occurrences = .ok text ∧
      spliceOriginalToMasked text tr.occurrences = .ok tr.text := by
  have hordered := ordered_sortSlice rt hin hdisjoint
  have hperm := rt.sortSlice_perm (fun a b : Span => decide (a.s < b.s))
    (mentionSpans rt mode mappings)
  have hnonneg : ∀ sp ∈ rt.sortSlice (fun a b => decide (a.s < b.s))
    (mentionSpans rt mode mappings),
      0 ≤ sp.s ∧ 0 ≤ sp.e := by
    intro sp hsp
    obtain ⟨h0, hlt, -⟩ := hin sp (hperm.mem_iff.1 hsp)
    exact ⟨h0, h0.trans hlt.le⟩
  obtain ⟨os, hwrite, hmask, hdemask, hos⟩ := writeSpans_eq hnonneg [] [] 0 0 le_rfl rfl hordered
  simp only [List.nil_append, Int.toNat_zero, List.length_nil] at hwrite hdemask
  refine ⟨_, by simp only [applyMappings, hwrite]; rfl, ?_, ?_⟩
  · have hinvert := Splice.ordered_invert _ _ hordered
    rw [← hdemask] at hinvert
    have h := spliceFrom_eq (fun o ho => (hos o ho).2) [] hinvert
    refine h.trans ?_
    show Except.ok ([] ++ Splice.apply _ 0 (os.map Occurrence.demaskEdit)) = _
    rw [List.nil_append, hdemask, Splice.apply_invert _ _ hordered]
  · rw [← hmask] at hordered ⊢
    exact spliceFrom_eq (fun o ho => (hos o ho).1) [] hordered

/-- A transformation of the text by candidates fails in no slice. It fails when some draw of a
synthetic value does not end; else both splices along its occurrences succeed, the one undoes it and
the other repeats it. -/
def Reversible (text : GoString) (cands : List Candidate) (mode : Mode) (sessionSeed : GoString) :
    Prop :=
  match buildTransform rt text (decideAll rt.unicode text cands) mode sessionSeed with
  | .error fault => fault = .loops ∧ buildMappings rt sessionSeed (fun _ => [])
      (groupDecisions rt (decideAll rt.unicode text cands)) = none
  | .ok tr => spliceMaskedToOriginal tr.text tr.occurrences = .ok text ∧
      spliceOriginalToMasked text tr.occurrences = .ok tr.text

theorem Reversible.splices {text : GoString} {cands : List Candidate} {mode : Mode}
    {sessionSeed : GoString} (h : Reversible rt text cands mode sessionSeed) {tr : Transform}
    (htr : buildTransform rt text (decideAll rt.unicode text cands) mode sessionSeed = .ok tr) :
    spliceMaskedToOriginal tr.text tr.occurrences = .ok text ∧
      spliceOriginalToMasked text tr.occurrences = .ok tr.text := by
  rw [Reversible, htr] at h
  exact h

theorem reversible_of_wellFormed {text : GoString} (cands : List Candidate)
    (hcands : ∀ c ∈ cands, c.WellFormed text) (mode : Mode) (sessionSeed : GoString) :
    Reversible rt text (resolveOverlaps rt cands) mode sessionSeed := by
  unfold Reversible buildTransform
  cases hmappings : buildMappings rt sessionSeed (fun _ => [])
      (groupDecisions rt (decideAll rt.unicode text (resolveOverlaps rt cands))) with
  | none => exact ⟨rfl, rfl⟩
  | some mappings =>
    obtain ⟨hwf, hpairwise⟩ := decideAll_resolveOverlaps rt hcands
    obtain ⟨hin, hdisjoint⟩ := mentionSpans_spec rt hwf hpairwise mode hmappings
    obtain ⟨tr, happly, hsplice⟩ := applyMappings_reversible rt hin hdisjoint
    simp only [happly]
    exact hsplice

/-- **Both splices with the occurrences succeed and undo each other.** This holds of what `Detect`
finds, and of every list of candidates that are pieces of the text and not empty. -/
theorem buildTransform_reversible (text : GoString) (mode : Mode) (sessionSeed : GoString) :
    Reversible rt text (detect rt text) mode sessionSeed ∧
      ∀ cands : List Candidate, (∀ c ∈ cands, c.WellFormed text) →
        Reversible rt text (resolveOverlaps rt cands) mode sessionSeed := by
  have hwf := wellFormed_rawCandidates rt text
  refine ⟨?_, fun cands hcands => reversible_of_wellFormed rt cands hcands mode sessionSeed⟩
  generalize hraw : rawCandidates rt text = raw at hwf
  rw [detect, hraw]
  exact reversible_of_wellFormed rt raw hwf mode sessionSeed

/-- The transformation of a text by what `Detect` finds can be undone. -/
theorem splices_of_buildTransform {text : GoString} {mode : Mode} {sessionSeed : GoString}
    {tr : Transform} (htr : buildTransform rt text (decideAll rt.unicode text (detect rt text)) mode
      sessionSeed = .ok tr) :
    spliceMaskedToOriginal tr.text tr.occurrences = .ok text ∧
      spliceOriginalToMasked text tr.occurrences = .ok tr.text := by
  have hwf := wellFormed_rawCandidates rt text
  rw [detect] at htr
  generalize rawCandidates rt text = raw at hwf htr
  exact (reversible_of_wellFormed rt raw hwf mode sessionSeed).splices rt htr

/-- A text with an address and a number, for the case below. -/
def mailAndInn : GoString := str "to a@b.ru, inn 7707083893"

/-- The candidates of `mailAndInn`, the last one first. -/
def mailAndInnCandidates : List Candidate :=
  [candidateAt .inn mailAndInn (15, 25), candidateAt .email mailAndInn (3, 9)]

/-- The case of an address and a number: one token is longer than the value, one is shorter. -/
theorem buildTransform_reversible_mail :
    (buildTransform (basicGoRuntime 5 (by decide)) mailAndInn
        (decideAll basicGoUnicode mailAndInn
          (resolveOverlaps (basicGoRuntime 5 (by decide)) mailAndInnCandidates))
        .tokenMode (str "seed")).map Transform.text = .ok (str "to <EMAIL_1>, inn <INN_1>") ∧
      Reversible (basicGoRuntime 5 (by decide)) mailAndInn
        (resolveOverlaps (basicGoRuntime 5 (by decide)) mailAndInnCandidates) .tokenMode
        (str "seed") := by
  refine ⟨by decide +kernel, (buildTransform_reversible _ _ _ _).2 _ fun c hc => ?_⟩
  rcases List.mem_pair.1 hc with rfl | rfl
  · exact wellFormed_candidateAt .inn ⟨by decide, by decide +kernel⟩
  · exact wellFormed_candidateAt .email ⟨by decide, by decide +kernel⟩

end PiiProxy.GoService
