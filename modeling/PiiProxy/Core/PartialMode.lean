import PiiProxy.Core.Redaction
import PiiProxy.GoService.MaskAgreement

/-!
# What a text masked in partial mode shows

In partial mode each mention is masked by itself: the masked text shows the pieces that are kept,
and of each value the characters that its mask keeps. Of a number these are its format and its first
and last digits, of a name the initials, and of anything else what is neither letter nor digit. Two
documents whose values differ in the rest only have the same masked text, whoever they are about.

## Main definitions

* `valueSegments`: a document with the decisions about it.
* `DigitsAlike`, `HiddenAlike`: values that differ in what their masks hide.

## Main results

* `partialMask_eq_of_hiddenAlike`: the masks of such values are equal.
* `text_eq_maskEach`: each mention is masked by itself.
* `Pipeline.partial_text_eq_of_alike`: what the pipeline shows.
-/

namespace PiiProxy

open Redaction (Segment)

/-! ### What a mask hides -/

/-- Two values with the same format, the same `first` first digits and the same `last` last ones. -/
structure DigitsAlike (isDigit : Char → Bool) (first last : ℕ) (v v' : Text) : Prop where
  layout : v'.map isDigit = v.map isDigit
  shown : ∀ (i : ℕ) (c c' : Char), v[i]? = some c → v'[i]? = some c' →
    (isDigit c = false ∨ (v.take i).countP isDigit < first ∨
      v.countP isDigit ≤ (v.take i).countP isDigit + last) → c = c'

/-- Two values with the same characters, but for letters and digits. -/
def AlnumAlike (u : Unicode) (v v' : Text) : Prop :=
  List.Forall₂ (fun c c' => c = c' ∨ u.isAlnum c = true ∧ u.isAlnum c' = true) v v'

/-- Two addresses with the same characters, but for letters and digits. -/
def MailAlike (u : Unicode) (v v' : Text) : Prop :=
  List.Forall₂ (fun c c' => c = c' ∨
    (c ≠ '@' ∧ u.isAlnum c = true) ∧ c' ≠ '@' ∧ u.isAlnum c' = true) v v'

/-- The initials of the words of a name. -/
def initials (u : Unicode) (v : Text) : List Text :=
  (u.splitWords (u.strip v)).map fun p => u.upper [(p.find? u.isAlpha).getD '*']

/-- Two values that differ in what the mask of the type hides. -/
def HiddenAlike (u : Unicode) (type : PIIType) (v v' : Text) : Prop :=
  match type, shownDigits type (v.countP u.isDigit) with
  | .fullName, _ | .cardholder, _ => initials u v = initials u v'
  | .email, _ => MailAlike u v v'
  | _, some (first, last) => DigitsAlike u.isDigit first last v v'
  | _, none => AlnumAlike u v v'

section Masks

variable {u : Unicode} {v v' : Text}

theorem DigitsAlike.countP_eq {isDigit : Char → Bool} {first last : ℕ}
    (h : DigitsAlike isDigit first last v v') (i : ℕ) :
    (v'.take i).countP isDigit = (v.take i).countP isDigit := by
  have hmap (t : Text) : (t.take i).countP isDigit = ((t.map isDigit).take i).countP id := by
    rw [← List.map_take, List.countP_map]
    rfl
  rw [hmap, hmap, h.layout]

theorem DigitsAlike.length_eq {isDigit : Char → Bool} {first last : ℕ}
    (h : DigitsAlike isDigit first last v v') : v'.length = v.length := by
  simpa only [List.length_map] using congrArg List.length h.layout

theorem DigitsAlike.countP_whole {isDigit : Char → Bool} {first last : ℕ}
    (h : DigitsAlike isDigit first last v v') : v'.countP isDigit = v.countP isDigit := by
  have htake := h.countP_eq v.length
  rwa [List.take_length, ← h.length_eq, List.take_length] at htake

/-- **The masks that show the same digits are equal.** -/
theorem DigitsAlike.mask_eq {isDigit : Char → Bool} {first last : ℕ} {result result' : Text}
    (h : DigitsAlike isDigit first last v v') (hv : ShowsDigits isDigit first last v result)
    (hv' : ShowsDigits isDigit first last v' result') : result = result' := by
  have hlen := h.length_eq
  have hcount := h.countP_whole
  refine List.ext_getElem? fun i => ?_
  rcases Nat.lt_or_ge i v.length with hi | hi
  swap
  · rw [List.getElem?_eq_none (hv.length_eq ▸ hi),
      List.getElem?_eq_none (by rw [hv'.length_eq, hlen]; exact hi)]
  have hc := List.getElem?_eq_getElem hi
  have hc' := List.getElem?_eq_getElem (hlen ▸ hi : i < v'.length)
  have hdigit : isDigit v'[i] = isDigit v[i] := by
    have hmap := congrArg (fun t => t[i]?) h.layout
    simpa only [List.getElem?_map, hc, hc', Option.map_some, Option.some.injEq] using hmap
  by_cases hkept : isDigit v[i] = false
  · rw [hv.kept i _ hc hkept, hv'.kept i _ hc' (hdigit.trans hkept),
      h.shown i _ _ hc hc' (.inl hkept)]
  have hd : isDigit v[i] = true := by simpa using hkept
  by_cases hshown : (v.take i).countP isDigit < first ∨
      v.countP isDigit ≤ (v.take i).countP isDigit + last
  · rw [hv.shown i _ hc hd hshown, hv'.shown i _ hc' (hdigit.trans hd)
      (by rwa [h.countP_eq, hcount]), h.shown i _ _ hc hc' (.inr hshown)]
  · rw [hv.starred i _ hc hd hshown, hv'.starred i _ hc' (hdigit.trans hd)
      (by rwa [h.countP_eq, hcount])]

theorem AlnumAlike.mask_eq (h : AlnumAlike u v v') : maskAlnum u v = maskAlnum u v' := by
  induction h with
  | nil => rfl
  | @cons c c' _ _ hc _ ih =>
    rw [maskAlnum, List.map_cons, maskAlnum, List.map_cons]
    refine congrArg₂ _ ?_ ih
    rcases hc with rfl | ⟨hc, hc'⟩
    · rfl
    · rw [if_pos hc, if_pos hc']

private theorem forall₂_while {R : Char → Char → Prop} {p : Char → Bool}
    (hp : ∀ c c', R c c' → p c = p c') {s s' : Text} (h : List.Forall₂ R s s') :
    List.Forall₂ R (s.takeWhile p) (s'.takeWhile p) ∧
      List.Forall₂ R (s.dropWhile p) (s'.dropWhile p) := by
  induction h with
  | nil => exact ⟨.nil, .nil⟩
  | @cons c c' s s' hc hs ih =>
    rw [List.takeWhile_cons, List.takeWhile_cons, List.dropWhile_cons, List.dropWhile_cons,
      hp c c' hc]
    split_ifs
    · exact ⟨.cons hc ih.1, ih.2⟩
    · exact ⟨.nil, .cons hc hs⟩

private theorem forall₂_all {R : Char → Char → Prop} {p : Char → Bool}
    (hp : ∀ c c', R c c' → p c = p c') {s s' : Text} (h : List.Forall₂ R s s') :
    s.all p = s'.all p := by
  induction h with
  | nil => rfl
  | cons hc _ ih => rw [List.all_cons, List.all_cons, hp _ _ hc, ih]

theorem MailAlike.mask_eq (h : MailAlike u v v') : maskEmail u v = maskEmail u v' := by
  have hat (c c' : Char) (hc : c = c' ∨ (c ≠ '@' ∧ u.isAlnum c = true) ∧ c' ≠ '@' ∧
      u.isAlnum c' = true) : (c != '@') = (c' != '@') := by
    rcases hc with rfl | ⟨⟨hc, -⟩, hc', -⟩
    · rfl
    · rw [bne_iff_ne.2 hc, bne_iff_ne.2 hc']
  have halnum {s s' : Text} (hs : MailAlike u s s') : AlnumAlike u s s' :=
    List.Forall₂.imp (fun _ _ => Or.imp_right fun hc => ⟨hc.1.2, hc.2.2⟩) hs
  have hmem (t : Text) : '@' ∈ t ↔ t.all (· != '@') = false := by
    rw [List.all_eq_false]
    constructor
    · exact fun h => ⟨'@', h, by decide⟩
    · rintro ⟨c, hc, heq⟩
      have hat : c = '@' := by simpa using heq
      exact hat ▸ hc
  obtain ⟨htake, hdrop⟩ := forall₂_while hat (List.forall₂_reverse_iff.2 h)
  have hbefore := halnum (List.forall₂_reverse_iff.2 (List.forall₂_drop 1 hdrop))
  have hbehind := halnum (List.forall₂_reverse_iff.2 htake)
  rw [maskEmail, maskEmail]
  refine if_congr ?_ ?_ (halnum h).mask_eq
  · rw [hmem, hmem, forall₂_all hat h]
  · rw [rsplitAt, rsplitAt]
    exact congrArg₂ (fun a b => a ++ ['@'] ++ b) hbefore.mask_eq hbehind.mask_eq

/-- **The masks of values that differ in what they hide are equal.** -/
theorem partialMask_eq_of_hiddenAlike {type : PIIType} (h : HiddenAlike u type v v') :
    partialMask u type v = partialMask u type v' := by
  have hname (h : initials u v = initials u v') : maskName u v = maskName u v' := by
    have hmap (t : Text) : maskName u t = joinWords ((initials u t).map (· ++ ['.'])) := by
      rw [maskName, initials, List.map_map]
      rfl
    rw [hmap, hmap, h]
  have hdigits {first last : ℕ}
      (hshown : shownDigits type (v.countP u.isDigit) = some (first, last))
      (h : DigitsAlike u.isDigit first last v v') :
      partialMask u type v = partialMask u type v' :=
    h.mask_eq (showsDigits_partialMask type v hshown)
      (showsDigits_partialMask type v' (h.countP_whole ▸ hshown))
  cases type
  case fullName => exact hname h
  case cardholder => exact hname h
  case email => exact MailAlike.mask_eq h
  case phone => exact hdigits rfl h
  case passport => exact hdigits rfl h
  case cardNumber => exact hdigits rfl h
  case driverLicense => exact hdigits rfl h
  case inn => exact hdigits rfl h
  all_goals exact AlnumAlike.mask_eq h

end Masks

/-! ### Documents -/

/-- The text from a cursor on, with the values that are mentioned there. -/
def valueSegmentsFrom (text : Text) : ℕ → List DecisionObject → List (Segment Char PIIType Text)
  | cursor, [] => [.kept (text.drop cursor)]
  | cursor, d :: ds => .kept (PySeq.slice text cursor d.2.candidate.start) ::
    .mention d.2.candidate.type d.2.candidate.value :: valueSegmentsFrom text d.2.candidate.stop ds

/-- The document with the values that are to be masked. -/
def valueSegments (text : Text) (decisions : List PrivacyDecision) :
    List (Segment Char PIIType Text) :=
  valueSegmentsFrom text 0 (inTextOrder (decisionObjects decisions))

/-- The edit of a decision in partial mode. -/
def partialEdit (u : Unicode) (d : DecisionObject) : Splice.Edit Char :=
  ⟨d.2.candidate.start, d.2.candidate.stop, partialMask u d.2.candidate.type d.2.candidate.value⟩

theorem maskEach_valueSegmentsFrom (u : Unicode) (text : Text) (ds : List DecisionObject)
    (cursor : ℕ) :
    Redaction.maskEach (partialMask u) (valueSegmentsFrom text cursor ds) =
      Splice.apply text cursor (ds.map (partialEdit u)) := by
  induction ds generalizing cursor with
  | nil => exact List.append_nil _
  | cons d ds ih =>
    rw [valueSegmentsFrom, Redaction.maskEach, List.flatMap_cons, List.flatMap_cons,
      ← Redaction.maskEach, ih, List.map_cons, Splice.apply, ← List.append_assoc]
    rfl

variable {rt : Runtime} {text : Text} {decisions : List PrivacyDecision} {sessionSeed : Text}

/-- A group holds each decision with its own type and value. -/
theorem object_of_group {u : Unicode} {ds : List DecisionObject} (hids : DistinctIds ds)
    {d : DecisionObject} (hd : d ∈ personalDecisions ds) {g : EntityGroup}
    (hg : g ∈ groupPersonalDecisions u ds) {object : PrivacyDecision}
    (hobject : (d.1, object) ∈ g.decisions) :
    object.candidate.type = d.2.candidate.type ∧ object.candidate.value = d.2.candidate.value := by
  obtain ⟨gs, hgs, hkeyed⟩ := groups_groupPersonalDecisions u ds
  obtain ⟨g', hg', heq⟩ := List.mem_map.1 (hkeyed ▸ List.mem_map_of_mem (f := EntityGroup.keyed) hg)
  obtain ⟨-, hdecisions⟩ := Prod.mk.inj heq
  obtain ⟨d', hd', hobj⟩ := List.mem_map.1 (hdecisions ▸ hobject)
  have hpersonal := mem_inTextOrder.1 ((hgs.mem_iff hg').1 hd').1
  have hid : d'.1 = d.1 := (Prod.ext_iff.1 hobj).1
  obtain rfl : d' = d := (hids.filter _).eq hpersonal hd hid
  have hrest := (annotatedFrom_groupObject u hids hd).rest_eq
  have hsecond : (groupObject (personsOf u ds) d').2 = object := (Prod.ext_iff.1 hobj).2
  rw [hsecond] at hrest
  exact ⟨congrArg (fun o => o.candidate.type) hrest, congrArg (fun o => o.candidate.value) hrest⟩

/-- **The main loop** places the mask of each decision. -/
theorem foldlM_placeDecision_partial {objects ds : List DecisionObject} (hids : DistinctIds objects)
    {st st' : Placement}
    (hentries : ∀ e ∈ st.entries, e.1 ∈ groupPersonalDecisions rt.unicode objects)
    (hds : ds ⊆ objects) (h : ds.foldlM (placeDecision rt .partialMode) st = .ok st') :
    st'.spans.map Span.edit =
      st.spans.map Span.edit ++ (personalDecisions ds).map (partialEdit rt.unicode) := by
  induction ds generalizing st with
  | nil =>
    cases h
    exact (List.append_nil _).symm
  | cons d ds ih =>
    obtain ⟨st₁, hstep, h⟩ := Except.foldlM_cons_eq_ok.1 h
    obtain ⟨hd, hst₁, hspans⟩ | ⟨hd, i, group, mapping, object, hfind, hst₁, hspans⟩ :=
      placeDecision_eq_ok rt hstep
    · have hcons : personalDecisions (d :: ds) = personalDecisions ds :=
        List.filter_cons_of_neg (by simp [hd])
      rw [ih (hst₁ ▸ hentries) (fun _ h => hds (.tail _ h)) h, hspans, hcons]
    · obtain ⟨hentry, hobject⟩ := findEntry_eq_some hfind
      have hgroup := hentries _ (List.mem_of_getElem? hentry)
      have hsame : st₁.entries = st.entries := by
        obtain ⟨hlt, heq⟩ := List.getElem?_eq_some_iff.1 hentry
        rw [hst₁]
        show st.entries.set i (group, mapping) = st.entries
        rw [← heq, List.set_getElem_self]
      have hmem : d ∈ personalDecisions objects := List.mem_filter.2 ⟨hds List.mem_cons_self, hd⟩
      obtain ⟨htype, hvalue⟩ := object_of_group hids hmem hgroup hobject
      have hcons : personalDecisions (d :: ds) = d :: personalDecisions ds :=
        List.filter_cons_of_pos (by simp [hd])
      rw [ih (hsame ▸ hentries) (fun _ h => hds (.tail _ h)) h, hspans, hcons, List.map_cons,
        List.map_append, List.append_assoc]
      simp only [occurrenceReplacement, htype, hvalue]
      rfl

/-- **Each mention is masked by itself.** -/
theorem text_eq_maskEach {R : TransformResult}
    (h : buildTransformResult rt text decisions .partialMode sessionSeed = .ok R) :
    R.text = Redaction.maskEach (partialMask rt.unicode) (valueSegments text decisions) := by
  obtain ⟨entries, placed, hentries, hplaced, -, hR⟩ := buildTransformResult_eq_ok rt h
  have hspans := foldlM_placeDecision_partial (distinctIds_decisionObjects decisions)
    (fun e he => (token_of_buildMappings hentries e he).1) (List.Subset.refl _) hplaced
  have htext : R.text = (spliceSpans text (PySeq.sortedBy Span.start placed.spans)).1 :=
    (Prod.ext_iff.1 hR).1
  have hsorted : (PySeq.sortedBy Span.start placed.spans).map Span.edit =
      (inTextOrder (decisionObjects decisions)).map (partialEdit rt.unicode) := by
    have hedits := PySeq.sortedBy_map Splice.Edit.start Span.edit placed.spans
    rw [hspans, List.map_nil, List.nil_append, PySeq.sortedBy_map] at hedits
    exact hedits.symm
  rw [htext, spliceSpans, spliceFrom_text, hsorted, valueSegments, maskEach_valueSegmentsFrom]

namespace Pipeline

/-- The document with the values that the pipeline masks. -/
def values (p : Pipeline) (text : Text) (consumer : ConsumerConfig) :
    List (Segment Char PIIType Text) :=
  valueSegments text (p.analyze text consumer).2

/-- **What partial mode shows.** Two documents in which the pipeline masks values of the same types
between the same pieces, and whose values differ in what their masks hide only, have the same masked
text, whichever of the values are of one entity. -/
theorem partial_text_eq_of_alike (p : Pipeline) {text text' : Text}
    {consumer consumer' : ConsumerConfig} {sessionSeed sessionSeed' : Text} {R R' : TransformResult}
    (h : p.process text .partialMode consumer sessionSeed = .ok R)
    (h' : p.process text' .partialMode consumer' sessionSeed' = .ok R')
    (halike : List.Forall₂ (Segment.AlikeBy (HiddenAlike p.runtime.unicode))
      (p.values text consumer) (p.values text' consumer')) :
    R.text = R'.text := by
  rw [text_eq_maskEach h, text_eq_maskEach h']
  refine Redaction.maskEach_eq_of_alikeBy ?_ halike
  exact fun _ _ _ hvalues => partialMask_eq_of_hiddenAlike hvalues

open ProcessService (tokenService tokenConsumer)

/-- A card number and an address, and others that look like them. -/
def cardAndMail : Bool → Text
  | false => "card 4111111111111111, mail xy@c.de".toList
  | true => "card 4111222220061111, mail a1@b.ru".toList

private theorem hiddenAlike_cards :
    HiddenAlike basicUnicode .cardNumber "4111111111111111".toList "4111222220061111".toList := by
  refine ⟨by decide, fun i c c' hc hc' hshown => ?_⟩
  have hi : i < 16 := (List.getElem?_eq_some_iff.1 hc).1
  interval_cases i <;> cases hc <;> cases hc' <;> first | rfl | exact absurd hshown (by decide)

private theorem mailAlike_mails : MailAlike basicUnicode "xy@c.de".toList "a1@b.ru".toList := by
  have halnum {c c' : Char} (hc : c ≠ '@' ∧ basicUnicode.isAlnum c = true)
      (hc' : c' ≠ '@' ∧ basicUnicode.isAlnum c' = true) :
      c = c' ∨ (c ≠ '@' ∧ basicUnicode.isAlnum c = true) ∧ c' ≠ '@' ∧
        basicUnicode.isAlnum c' = true := .inr ⟨hc, hc'⟩
  exact .cons (halnum (by decide) (by decide)) (.cons (halnum (by decide) (by decide))
    (.cons (.inl rfl) (.cons (halnum (by decide) (by decide)) (.cons (.inl rfl)
      (.cons (halnum (by decide) (by decide)) (.cons (halnum (by decide) (by decide)) .nil))))))

/-- Both are masked to one text. -/
theorem partial_text_eq_of_alike_cards :
    ∃ R R', tokenService.pipeline.process (cardAndMail false) .partialMode tokenConsumer
        "s".toList = .ok R ∧
      tokenService.pipeline.process (cardAndMail true) .partialMode tokenConsumer
        "t".toList = .ok R' ∧ R.text = R'.text := by
  obtain ⟨R, hR, -⟩ := exists_process
    (show (tokenService.pipeline.process (cardAndMail false) .partialMode tokenConsumer
      "s".toList).toOption.map TransformResult.text =
        some "card 4111********1111, mail **@*.**".toList by decide +kernel)
  obtain ⟨R', hR', -⟩ := exists_process
    (show (tokenService.pipeline.process (cardAndMail true) .partialMode tokenConsumer
      "t".toList).toOption.map TransformResult.text =
        some "card 4111********1111, mail **@*.**".toList by decide +kernel)
  refine ⟨R, R', hR, hR', partial_text_eq_of_alike tokenService.pipeline hR hR' ?_⟩
  have hvalues (i : Bool) : tokenService.pipeline.values (cardAndMail i) tokenConsumer =
      [.kept "card ".toList,
        .mention .cardNumber (if i then "4111222220061111" else "4111111111111111").toList,
        .kept ", mail ".toList, .mention .email (if i then "a1@b.ru" else "xy@c.de").toList,
        .kept []] := by
    cases i <;> decide +kernel
  rw [hvalues, hvalues]
  exact .cons (.kept _) (.cons (.mention _ hiddenAlike_cards) (.cons (.kept _)
    (.cons (.mention _ mailAlike_mails) (.cons (.kept _) .nil))))

end Pipeline

end PiiProxy
