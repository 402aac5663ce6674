import PiiProxy.Context.Windows
import PiiProxy.Detectors.Builtin
import PiiProxy.Lib.Blocks

/-!
# Documents made of fragments

`is_nearby` takes a blank line for the end of a fragment: what stands behind it is unrelated. The
sentences end there as well, and spans on either side of it do not overlap. So the decisions about
a document that is put together from fragments are the decisions about each fragment alone, as long
as the detectors find in it what they find in the fragments: no fragment changes what is masked in
another.

## Main definitions

* `Candidate.shift`, `PrivacyDecision.shift`: the same candidate further behind.
* `ContextualPrivacyEngine.decisions`: the decisions about the candidates of the detectors.
* `Fragment`, `document`, `FoundApart`: fragments, the document, what is found in it.

## Main results

* `SplitsAt.resolveOverlaps`: overlaps are resolved on either side of a cut apart.
* `windowBounds_before`, `windowBounds_behind`: no window crosses a blank line.
* `satisfied_before`, `satisfied_behind`: no relationship crosses a blank line.
* `ContextualPrivacyEngine.decisions_document`: the decisions about a document.
-/

namespace PiiProxy

/-! ### Further behind -/

/-- The candidate with `k` more characters before it. -/
def Candidate.shift (k : ℕ) (c : Candidate) : Candidate :=
  { c with start := k + c.start, stop := k + c.stop }

/-- The decision with `k` more characters before its candidate. -/
def PrivacyDecision.shift (k : ℕ) (d : PrivacyDecision) : PrivacyDecision :=
  { d with candidate := d.candidate.shift k }

@[simp] theorem Candidate.start_shift (k : ℕ) (c : Candidate) : (c.shift k).start = k + c.start :=
  rfl

@[simp] theorem Candidate.stop_shift (k : ℕ) (c : Candidate) : (c.shift k).stop = k + c.stop := rfl

@[simp] theorem Candidate.type_shift (k : ℕ) (c : Candidate) : (c.shift k).type = c.type := rfl

@[simp] theorem Candidate.value_shift (k : ℕ) (c : Candidate) : (c.shift k).value = c.value := rfl

@[simp] theorem Candidate.metadata_shift (k : ℕ) (c : Candidate) :
    (c.shift k).metadata = c.metadata := rfl

theorem Candidate.shift_injective (k : ℕ) : Function.Injective (Candidate.shift k) := by
  rintro ⟨⟩ ⟨⟩ h
  simpa [Candidate.shift] using h

/-- Overlaps are resolved in the same way further behind. -/
theorem resolveOverlaps_map_shift (k : ℕ) (cs : List Candidate) :
    resolveOverlaps (cs.map (Candidate.shift k)) =
      (resolveOverlaps cs).map (Candidate.shift k) := by
  have hlen (c : Candidate) : (((k + c.stop : ℕ) : ℤ) - (k + c.start : ℕ)) = c.stop - c.start := by
    omega
  have hpriority (a b : Candidate) :
      (Candidate.priority ∘ Candidate.shift k) a ≤ (Candidate.priority ∘ Candidate.shift k) b ↔
        a.priority ≤ b.priority := by
    simp only [Function.comp_apply, Candidate.priority, Candidate.shift, hlen,
      Prod.Lex.toLex_le_toLex, Nat.add_le_add_iff_left]
  have hstart (a b : Candidate) :
      (Candidate.start ∘ Candidate.shift k) a ≤ (Candidate.start ∘ Candidate.shift k) b ↔
        a.start ≤ b.start := by
    simp only [Function.comp_apply, Candidate.shift, Nat.add_le_add_iff_left]
  have hconflict :
      (fun a b => Candidate.overlaps (a.shift k) (b.shift k)) = Candidate.overlaps := by
    funext a b
    simp only [Candidate.overlaps, Candidate.shift, Nat.add_lt_add_iff_left]
  have hselect := @Greedy.select_map _ Candidate.overlaps _ (Candidate.shift k) []
    (PySeq.sortedBy Candidate.priority cs)
  rw [hconflict, List.map_nil] at hselect
  rw [resolveOverlaps, PySeq.sortedBy_map, PySeq.sortedBy_congr hpriority, ← hselect,
    PySeq.sortedBy_map, PySeq.sortedBy_congr hstart]
  rfl

/-- The candidates that begin before the position `k`, and those that begin behind it. -/
structure SplitsAt (k : ℕ) (found before behind : List Candidate) : Prop where
  before_eq : (found.filter fun c => c.start < k) = before
  behind_eq : (found.filter fun c => !decide (c.start < k)) = behind.map (Candidate.shift k)

/-- **Overlaps are resolved on either side of a cut apart.** -/
theorem SplitsAt.resolveOverlaps {k : ℕ} {found before behind : List Candidate}
    (h : SplitsAt k found before behind) (hbefore : ∀ c ∈ before, c.start < c.stop ∧ c.stop ≤ k)
    (hbehind : ∀ c ∈ behind, c.start < c.stop) :
    resolveOverlaps found =
      resolveOverlaps before ++ (resolveOverlaps behind).map (Candidate.shift k) := by
  have hcut : ∀ c ∈ found, c.start < c.stop ∧ (c.start < k → c.stop ≤ k) := by
    intro c hc
    by_cases hlt : c.start < k
    · obtain ⟨hspan, hstop⟩ := hbefore c (h.before_eq ▸ List.mem_filter.2 ⟨hc, decide_eq_true hlt⟩)
      exact ⟨hspan, fun _ => hstop⟩
    · have hmem : c ∈ behind.map (Candidate.shift k) :=
        h.behind_eq ▸ List.mem_filter.2 ⟨hc, by simpa using hlt⟩
      obtain ⟨c', hc', rfl⟩ := List.mem_map.1 hmem
      exact ⟨Nat.add_lt_add_left (hbehind c' hc') k, fun hlt' => absurd hlt' hlt⟩
  have hsides := Greedy.sortedBy_select_append Candidate.priority k hcut
  rw [h.before_eq, h.behind_eq] at hsides
  rw [← resolveOverlaps_map_shift]
  exact hsides

/-! ### Windows -/

/-- A blank line. -/
def blankLine : Text := ['\n', '\n']

@[simp] theorem length_blankLine : blankLine.length = 2 := rfl

theorem terminatorAt_blank (body rest : Text) {i : ℕ} (hi : i = body.length ∨ i = body.length + 1) :
    TerminatorAt (body ++ blankLine ++ rest) i := by
  refine ⟨'\n', ?_, rfl⟩
  rcases hi with rfl | rfl
  · rw [List.append_assoc, List.getElem?_append_right le_rfl, Nat.sub_self]
    rfl
  · rw [List.append_assoc, List.getElem?_append_right (Nat.le_add_right _ 1),
      Nat.add_sub_cancel_left]
    rfl

/-- A sentence does not go on behind a blank line. -/
theorem sentenceRight_blank (body rest : Text) (radius : ℕ) :
    sentenceRight (body ++ blankLine ++ rest) radius =
      sentenceRight (body ++ blankLine) radius := by
  refine eq_of_forall_le_iff fun k => ?_
  have hends (rest : Text) (h : ∀ i, i + 1 < k → ¬TerminatorAt (body ++ blankLine ++ rest) i) :
      k ≤ body.length + 1 := by
    by_contra hk
    exact h body.length (by omega) (terminatorAt_blank body rest (.inl rfl))
  have hsame {i : ℕ} (hi : i < body.length + 1) :
      TerminatorAt (body ++ blankLine ++ rest) i ↔ TerminatorAt (body ++ blankLine) i := by
    rw [TerminatorAt, List.getElem?_append_left (by simp [blankLine]; omega)]
    rfl
  rw [le_sentenceRight_iff, le_sentenceRight_iff]
  refine and_congr_right fun _ => ?_
  constructor
  · rintro ⟨-, h⟩
    have hk := hends rest h
    refine ⟨?_, fun i hi => (hsame (by omega)).not.1 (h i hi)⟩
    rw [List.length_append, length_blankLine]
    omega
  · rintro ⟨-, h⟩
    have hk := hends [] (by simpa using h)
    refine ⟨?_, fun i hi => (hsame (by omega)).not.2 (h i hi)⟩
    rw [List.length_append, List.length_append, length_blankLine]
    omega

/-- A sentence does not begin before a blank line. -/
theorem sentenceLeft_blank (body p : Text) (radius : ℕ) :
    sentenceLeft (body ++ blankLine ++ p) radius =
      (body ++ blankLine).length + sentenceLeft p radius := by
  have hle := sentenceLeft_le (body ++ blankLine ++ p) radius
  have hle' := sentenceLeft_le p radius
  obtain ⟨hradius, hfree⟩ := (sentenceLeft_le_iff hle).1 le_rfl
  obtain ⟨hradius', hfree'⟩ := (sentenceLeft_le_iff hle').1 le_rfl
  have hlen : (body ++ blankLine).length = body.length + 2 := List.length_append
  have hlen' : (body ++ blankLine ++ p).length = body.length + 2 + p.length := by
    rw [List.length_append, hlen]
  have hsame (i : ℕ) : TerminatorAt (body ++ blankLine ++ p) ((body ++ blankLine).length + i) ↔
      TerminatorAt p i := by
    rw [TerminatorAt, List.getElem?_append_right (Nat.le_add_right _ _), Nat.add_sub_cancel_left]
    rfl
  refine le_antisymm ?_ ?_
  · rw [sentenceLeft_le_iff (by omega)]
    refine ⟨by omega, fun i hi hlt => ?_⟩
    obtain ⟨j, rfl⟩ := Nat.exists_eq_add_of_le (le_of_add_le_left hi)
    exact (hsame j).not.2 (hfree' j (by omega) (by omega))
  · -- it begins behind the blank line, and as far to the left as it would without it
    have hbehind : (body ++ blankLine).length ≤ sentenceLeft (body ++ blankLine ++ p) radius := by
      by_contra hlt
      exact hfree (body.length + 1) (by omega) (by omega) (terminatorAt_blank body p (.inr rfl))
    obtain ⟨l, hl⟩ := Nat.exists_eq_add_of_le hbehind
    rw [hl, Nat.add_le_add_iff_left]
    refine (sentenceLeft_le_iff (by omega)).2 ⟨by omega, fun i hi hlt => ?_⟩
    exact (hsame i).not.1 (hfree _ (by omega) (by omega))

/-- Spans that do not clip the bounds. -/
theorem foldl_clip_eq_self {start stop : ℕ} {spans : List (ℕ × ℕ)} {b : ℕ × ℕ}
    (h : ∀ o ∈ spans, clip start stop b o = b) : spans.foldl (clip start stop) b = b := by
  induction spans with
  | nil => rfl
  | cons o spans ih =>
    obtain ⟨ho, hspans⟩ := List.forall_mem_cons.1 h
    rw [List.foldl_cons, ho, ih hspans]

theorem foldl_clip_shift (k start stop : ℕ) (spans : List (ℕ × ℕ)) (b : ℕ × ℕ) :
    (spans.map fun o => (k + o.1, k + o.2)).foldl (clip (k + start) (k + stop)) (k + b.1, k + b.2) =
      (k + (spans.foldl (clip start stop) b).1, k + (spans.foldl (clip start stop) b).2) := by
  induction spans generalizing b with
  | nil => rfl
  | cons o spans ih =>
    have hclip : clip (k + start) (k + stop) (k + b.1, k + b.2) (k + o.1, k + o.2) =
        (k + (clip start stop b o).1, k + (clip start stop b o).2) := by
      simp only [clip, Nat.add_le_add_iff_left, Nat.add_max_add_left, Nat.add_min_add_left]
      split_ifs <;> rfl
    rw [List.map_cons, List.foldl_cons, List.foldl_cons, hclip, ih]

/-- A window stays inside the text. -/
theorem windowBounds_le_length {text : Text} {start stop : ℕ} (spans : List (ℕ × ℕ)) (radius : ℕ)
    (hspan : start ≤ stop) (hstop : stop ≤ text.length) :
    (windowBounds text start stop spans radius).2 ≤ text.length := by
  obtain ⟨hle, -⟩ := (le_foldl_clip_snd spans).1
    (le_refl (windowBounds text start stop spans radius).2)
  rcases Nat.lt_or_ge (windowBounds text start stop spans radius).2 stop with hlt | hge
  · exact hlt.le.trans hstop
  · exact (((sentenceBounds_iff radius hspan hstop).2 _ hge).1 hle).2.1

/-- The spans of candidates. -/
def spansOf (cs : List Candidate) : List (ℕ × ℕ) := cs.map fun c => (c.start, c.stop)

theorem spansOf_map_shift (k : ℕ) (cs : List Candidate) :
    spansOf (cs.map (Candidate.shift k)) = (spansOf cs).map fun o => (k + o.1, k + o.2) := by
  rw [spansOf, spansOf, List.map_map, List.map_map]
  rfl

variable {body rest : Text} {start stop : ℕ} {before behind : List Candidate}

/-- **No window crosses a blank line** behind it. -/
theorem windowBounds_before (hspan : start ≤ stop) (hstop : stop ≤ body.length) (radius : ℕ) :
    windowBounds (body ++ blankLine ++ rest) start stop
        (spansOf (before ++ behind.map (Candidate.shift (body ++ blankLine).length))) radius =
      windowBounds (body ++ blankLine) start stop (spansOf before) radius := by
  have hlen : (body.take start).length = start := List.length_take_of_le (hspan.trans hstop)
  have hmid : (PySeq.slice body start stop).length = stop - start :=
    PySeq.length_slice_natCast body hstop
  have hsplit : body = body.take start ++ PySeq.slice body start stop ++ body.drop stop := by
    rw [PySeq.take_append_slice body hspan, List.take_append_drop]
  have hbounds (rest : Text) := sentenceBounds_append (body.take start)
    (PySeq.slice body start stop) (body.drop stop ++ blankLine ++ rest) radius
  have htext (rest : Text) : body.take start ++ PySeq.slice body start stop ++
      (body.drop stop ++ blankLine ++ rest) = body ++ blankLine ++ rest := by
    rw [List.append_assoc (body.drop stop), ← List.append_assoc _ (body.drop stop), ← hsplit,
      List.append_assoc]
  simp only [htext, hlen, hmid, Nat.add_sub_cancel' hspan] at hbounds
  have hsentence : sentenceBounds (body ++ blankLine ++ rest) start stop radius =
      sentenceBounds (body ++ blankLine) start stop radius := by
    have hnil := hbounds []
    rw [List.append_nil, List.append_nil] at hnil
    rw [hbounds, hnil, sentenceRight_blank]
  have hright := windowBounds_le_length (spansOf before) radius hspan
    (hstop.trans (List.sublist_append_left body blankLine).length_le)
  rw [windowBounds, hsentence, spansOf, List.map_append, List.foldl_append]
  refine foldl_clip_eq_self fun o ho => ?_
  obtain ⟨c, hc, rfl⟩ := List.mem_map.1 ho
  obtain ⟨c, -, rfl⟩ := List.mem_map.1 hc
  rw [windowBounds, spansOf] at hright
  simp only [List.length_append, length_blankLine] at hright
  simp only [clip, Candidate.shift, List.length_append, length_blankLine]
  rw [if_neg (by omega), if_pos (by omega), min_eq_left (by omega)]

/-- **No window crosses a blank line** before it. -/
theorem windowBounds_behind (hspan : start ≤ stop) (hstop : stop ≤ rest.length)
    (hbefore : ∀ c ∈ before, c.stop ≤ (body ++ blankLine).length) (radius : ℕ) :
    windowBounds (body ++ blankLine ++ rest) ((body ++ blankLine).length + start)
        ((body ++ blankLine).length + stop)
        (spansOf (before ++ behind.map (Candidate.shift (body ++ blankLine).length))) radius =
      ((body ++ blankLine).length + (windowBounds rest start stop (spansOf behind) radius).1,
        (body ++ blankLine).length + (windowBounds rest start stop (spansOf behind) radius).2) := by
  have hlen : (rest.take start).length = start := List.length_take_of_le (hspan.trans hstop)
  have hmid : (PySeq.slice rest start stop).length = stop - start :=
    PySeq.length_slice_natCast rest hstop
  have hsplit : rest.take start ++ PySeq.slice rest start stop ++ rest.drop stop = rest := by
    rw [PySeq.take_append_slice rest hspan, List.take_append_drop]
  have hsentence : sentenceBounds (body ++ blankLine ++ rest) ((body ++ blankLine).length + start)
      ((body ++ blankLine).length + stop) radius =
        ((body ++ blankLine).length + (sentenceBounds rest start stop radius).1,
          (body ++ blankLine).length + (sentenceBounds rest start stop radius).2) := by
    have hwhole := sentenceBounds_append (body ++ blankLine ++ rest.take start)
      (PySeq.slice rest start stop) (rest.drop stop) radius
    have hpart := sentenceBounds_append (rest.take start) (PySeq.slice rest start stop)
      (rest.drop stop) radius
    rw [hsplit, hlen, hmid, Nat.add_sub_cancel' hspan] at hpart
    have htext : body ++ blankLine ++ rest.take start ++ PySeq.slice rest start stop ++
        rest.drop stop = body ++ blankLine ++ rest := by
      rw [List.append_assoc _ (rest.take start), List.append_assoc _ _ (rest.drop stop), hsplit]
    rw [htext, sentenceLeft_blank, @List.length_append _ (body ++ blankLine), hlen, hmid,
      Nat.add_assoc, Nat.add_sub_cancel' hspan] at hwhole
    rw [hwhole, hpart, Nat.add_assoc]
  have hclip (b : ℕ × ℕ) (hb : (body ++ blankLine).length ≤ b.1) :
      (spansOf before).foldl (clip ((body ++ blankLine).length + start)
        ((body ++ blankLine).length + stop)) b = b := by
    refine foldl_clip_eq_self fun o ho => ?_
    obtain ⟨c, hc, rfl⟩ := List.mem_map.1 ho
    have hstop := hbefore c hc
    simp only [clip]
    rw [if_pos (by omega), max_eq_left (by omega)]
  have hshift := spansOf_map_shift (body ++ blankLine).length behind
  rw [spansOf] at hclip hshift
  rw [windowBounds, hsentence, spansOf, List.map_append, List.foldl_append,
    hclip _ (Nat.le_add_right _ _), hshift, foldl_clip_shift]
  rfl

/-! ### Contextual decisions -/

/-- A slice of a text behind another one. -/
theorem slice_append_add (p q : Text) (i j : ℕ) :
    PySeq.slice (p ++ q) ((p.length + i : ℕ) : ℤ) ((p.length + j : ℕ) : ℤ) = PySeq.slice q i j := by
  rw [PySeq.slice_natCast, PySeq.slice_natCast, List.take_length_add_append,
    List.drop_length_add_append]

/-- A slice of a text before another one. -/
theorem slice_append_of_le (p q : Text) {i j : ℕ} (hj : j ≤ p.length) :
    PySeq.slice (p ++ q) i j = PySeq.slice p i j := by
  rw [PySeq.slice_natCast, PySeq.slice_natCast, List.take_append_of_le_length hj]

namespace ContextualPrivacyEngine

variable (e : ContextualPrivacyEngine)

/-- The decision about a candidate follows its window. -/
theorem decide_congr {text text' : Text} {c : Candidate} {cs cs' : List Candidate}
    (hspan : c.start < c.stop)
    (hwindow : PySeq.slice text
        (windowBounds text c.start c.stop (spansOf cs) e.windowChars).1
        (windowBounds text c.start c.stop (spansOf cs) e.windowChars).2 =
      PySeq.slice text' (windowBounds text' c.start c.stop (spansOf cs') e.windowChars).1
        (windowBounds text' c.start c.stop (spansOf cs') e.windowChars).2) :
    e.decide text c cs = e.decide text' c cs' := by
  rw [spansOf, spansOf, ← windowBounds_otherSpans hspan, ← windowBounds_otherSpans hspan,
    ← attributedWindow_eq, ← attributedWindow_eq, otherSpans, otherSpans] at hwindow
  simp only [decide, hwindow]

/-- The decision about a candidate further behind. -/
theorem decide_shift {k : ℕ} {text text' : Text} {c : Candidate} {cs cs' : List Candidate}
    (hspan : c.start < c.stop)
    (hwindow : PySeq.slice text'
        (windowBounds text' (k + c.start) (k + c.stop) (spansOf cs') e.windowChars).1
        (windowBounds text' (k + c.start) (k + c.stop) (spansOf cs') e.windowChars).2 =
      PySeq.slice text (windowBounds text c.start c.stop (spansOf cs) e.windowChars).1
        (windowBounds text c.start c.stop (spansOf cs) e.windowChars).2) :
    e.decide text' (c.shift k) cs' = (e.decide text c cs).shift k := by
  have hspan' : (c.shift k).start < (c.shift k).stop := Nat.add_lt_add_left hspan k
  have hshifted := windowBounds_otherSpans hspan' text' cs' e.windowChars
  rw [spansOf, spansOf, ← windowBounds_otherSpans hspan] at hwindow
  have hwindow' : attributedWindow text' (c.shift k).start (c.shift k).stop
      (otherSpans cs' (c.shift k)) e.windowChars =
        attributedWindow text c.start c.stop (otherSpans cs c) e.windowChars := by
    rw [attributedWindow_eq, attributedWindow_eq, hshifted]
    exact hwindow
  rw [otherSpans, otherSpans] at hwindow'
  have hname (w : Text) : e.decideFullName (c.shift k) w = (e.decideFullName c w).shift k := by
    simp only [decideFullName, Candidate.metadata_shift, apply_ite (PrivacyDecision.shift k)]
    refine if_congr Iff.rfl rfl (if_congr Iff.rfl rfl ?_)
    rcases e with ⟨u, radius, _ | _⟩
    · rfl
    · rfl
  have haddress (w : Text) : e.decideAddress (c.shift k) w = (e.decideAddress c w).shift k := by
    simp only [decideAddress, Candidate.value_shift, apply_ite (PrivacyDecision.shift k)]
    refine if_congr Iff.rfl rfl (if_congr Iff.rfl rfl ?_)
    rcases e with ⟨u, radius, _ | _⟩
    · rfl
    · rfl
  simp only [decide, hwindow', Candidate.type_shift]
  split
  · exact hname _
  · exact haddress _
  · rfl

end ContextualPrivacyEngine

/-! ### Relationships -/

theorem hasSub_slice_blank (body rest : Text) {i j : ℕ} (hi : i ≤ body.length)
    (hj : (body ++ blankLine).length ≤ j) :
    PySeq.hasSub ['\n', '\n'] (PySeq.slice (body ++ blankLine ++ rest) i j) = true := by
  rw [PySeq.hasSub_iff, PySeq.slice_natCast]
  obtain ⟨n, rfl⟩ := Nat.exists_eq_add_of_le hj
  rw [List.take_length_add_append, List.append_assoc, List.drop_append_of_le_length hi]
  exact ⟨body.drop i, rest.take n, by rw [List.append_assoc]; rfl⟩

/-- **Nothing is nearby across a blank line.** -/
theorem isNearby_across (rule : RelationshipRule) (rest : Text) {c : Candidate} (c' : Candidate)
    (hspan : c.start < c.stop) (hc : c.stop ≤ body.length) :
    isNearby rule (body ++ blankLine ++ rest) c.start c.stop
        ((body ++ blankLine).length + c'.start) ((body ++ blankLine).length + c'.stop) = false ∧
      isNearby rule (body ++ blankLine ++ rest) ((body ++ blankLine).length + c'.start)
        ((body ++ blankLine).length + c'.stop) c.start c.stop = false := by
  have hlen : (body ++ blankLine).length = body.length + 2 := List.length_append
  have hgap : c.stop < (body ++ blankLine).length + c'.start := by omega
  have hblank := hasSub_slice_blank body rest hc (Nat.le_add_right _ c'.start)
  have hmin : min c.stop ((body ++ blankLine).length + c'.stop) = c.stop := min_eq_left (by omega)
  have hmax : max c.start ((body ++ blankLine).length + c'.start) =
      (body ++ blankLine).length + c'.start := max_eq_right (by omega)
  constructor
  · rw [isNearby, hmin, hmax, if_pos ⟨hgap, hblank⟩]
  · rw [isNearby, min_comm, max_comm, hmin, hmax, if_pos ⟨hgap, hblank⟩]

theorem isNearby_append (rule : RelationshipRule) (p q : Text) {c c' : Candidate}
    (hstart : c.start ≤ p.length) (hstart' : c'.start ≤ p.length) :
    isNearby rule (p ++ q) c.start c.stop c'.start c'.stop =
      isNearby rule p c.start c.stop c'.start c'.stop := by
  rw [isNearby, isNearby, slice_append_of_le p q (max_le hstart hstart')]

theorem isNearby_shift (rule : RelationshipRule) (p q : Text) (c c' : Candidate) :
    isNearby rule (p ++ q) (p.length + c.start) (p.length + c.stop) (p.length + c'.start)
        (p.length + c'.stop) = isNearby rule q c.start c.stop c'.start c'.stop := by
  have hdistance (i j : ℕ) : ((p.length + i : ℕ) : ℤ) - (p.length + j : ℕ) = i - j := by omega
  simp only [isNearby, Nat.add_min_add_left, Nat.add_max_add_left, slice_append_add, hdistance,
    Nat.add_lt_add_iff_left]

/-- **No relationship crosses a blank line** behind it. -/
theorem satisfied_before (rule : RelationshipRule) (rest : Text)
    (hbefore : ∀ c ∈ before, c.start < c.stop ∧ c.stop ≤ body.length) {c : Candidate}
    (hc : c ∈ before) :
    rule.satisfied (body ++ blankLine ++ rest) c
        (before ++ behind.map (Candidate.shift (body ++ blankLine).length)) =
      rule.satisfied (body ++ blankLine) c before := by
  obtain ⟨hspan, hstop⟩ := hbefore c hc
  rw [RelationshipRule.satisfied, RelationshipRule.satisfied, List.filter_append, List.any_append]
  have hnone : (((behind.map (Candidate.shift (body ++ blankLine).length)).filter (· ≠ c)).any
      fun other => other.type == rule.requiresNearbyType && isNearby rule
        (body ++ blankLine ++ rest) c.start c.stop other.start other.stop) = false := by
    rw [List.any_eq_false]
    intro other hother
    obtain ⟨c', hc', rfl⟩ := List.mem_map.1 (List.mem_of_mem_filter hother)
    have hfar := (isNearby_across rule rest c' hspan hstop).1
    simp only [Candidate.shift, hfar, Bool.and_false, Bool.false_eq_true, not_false_eq_true]
  rw [hnone, Bool.or_false]
  rw [Bool.eq_iff_iff, List.any_eq_true, List.any_eq_true]
  refine exists_congr fun other => and_congr_right fun hother => ?_
  obtain ⟨hspan', hstop'⟩ := hbefore other (List.mem_of_mem_filter hother)
  rw [isNearby_append rule _ rest (by rw [List.length_append]; omega)
    (by rw [List.length_append]; omega)]

/-- **No relationship crosses a blank line** before it. -/
theorem satisfied_behind (rule : RelationshipRule) (rest : Text)
    (hbefore : ∀ c ∈ before, c.start < c.stop ∧ c.stop ≤ body.length) (c : Candidate) :
    rule.satisfied (body ++ blankLine ++ rest) (c.shift (body ++ blankLine).length)
        (before ++ behind.map (Candidate.shift (body ++ blankLine).length)) =
      rule.satisfied rest c behind := by
  rw [RelationshipRule.satisfied, RelationshipRule.satisfied, List.filter_append, List.any_append]
  have hnone : ((before.filter (· ≠ c.shift (body ++ blankLine).length)).any
      fun other => other.type == rule.requiresNearbyType && isNearby rule
        (body ++ blankLine ++ rest) (c.shift (body ++ blankLine).length).start
          (c.shift (body ++ blankLine).length).stop other.start other.stop) = false := by
    rw [List.any_eq_false]
    intro other hother
    obtain ⟨hspan', hstop'⟩ := hbefore other (List.mem_of_mem_filter hother)
    have hfar := (isNearby_across rule rest c hspan' hstop').2
    simp only [Candidate.shift, hfar, Bool.and_false, Bool.false_eq_true, not_false_eq_true]
  have hne (c' : Candidate) : decide (c'.shift (body ++ blankLine).length ≠
      c.shift (body ++ blankLine).length) = decide (c' ≠ c) := by
    rw [decide_eq_decide, ne_eq, (Candidate.shift_injective _).eq_iff]
  rw [hnone, Bool.false_or, List.filter_map, List.any_map]
  simp only [Function.comp_def, hne, Candidate.type_shift, Candidate.start_shift,
    Candidate.stop_shift, isNearby_shift]

/-! ### Documents -/

/-- What the policy decides about the candidates of the detectors, after overlap resolution and the
contextual decision: `PiiPipeline.analyze` behind the detectors. -/
def ContextualPrivacyEngine.decisions (e : ContextualPrivacyEngine) (rules : List RelationshipRule)
    (consumer : ConsumerConfig) (text : Text) (found : List Candidate) : List PrivacyDecision :=
  evaluatePolicy rules text (e.decider.decideBatch text (resolveOverlaps found))
    (resolveOverlaps found) consumer

/-- A piece of a document with the candidates that are found in it. -/
structure Fragment where
  body : Text
  found : List Candidate
  inside : ∀ c ∈ found, c.start < c.stop ∧ c.stop ≤ body.length

/-- A fragment with the blank line behind it. -/
def Fragment.text (f : Fragment) : Text := f.body ++ blankLine

/-- The fragments with blank lines between them. -/
def document : List Fragment → Fragment → Text
  | [], last => last.body
  | f :: fs, last => f.text ++ document fs last

/-- In the document is found what is found in the fragments, in any order of the fragments. -/
def FoundApart : List Fragment → Fragment → List Candidate → Prop
  | [], last, found => found = last.found
  | f :: fs, last, found =>
    ∃ others, SplitsAt f.text.length found f.found others ∧ FoundApart fs last others

theorem applyConsumerPolicy_shift (consumer : ConsumerConfig) (k : ℕ) (d : PrivacyDecision) :
    applyConsumerPolicy consumer (d.shift k) = (applyConsumerPolicy consumer d).shift k := by
  simp only [applyConsumerPolicy, apply_ite (PrivacyDecision.shift k)]
  rfl

/-- The rules judge a decision by the candidates nearby. -/
theorem applyRelationshipRules_shift {rules : List RelationshipRule} {text text' : Text}
    {cs cs' : List Candidate} (k : ℕ) {d : PrivacyDecision}
    (hsatisfied : ∀ rule : RelationshipRule, rule.satisfied text' (d.candidate.shift k) cs' =
      rule.satisfied text d.candidate cs) :
    applyRelationshipRules rules text' cs' (d.shift k) =
      (applyRelationshipRules rules text cs d).shift k := by
  have hcandidate : (d.shift k).candidate = d.candidate.shift k := rfl
  simp only [applyRelationshipRules, hcandidate, Candidate.type_shift, hsatisfied]
  rw [apply_ite (PrivacyDecision.shift k)]
  refine if_congr Iff.rfl rfl ?_
  split
  · rfl
  · rfl

/-- The engine decides about a candidate in its own fragment. -/
private theorem decideBatch_append (e : ContextualPrivacyEngine)
    (hbefore : ∀ c ∈ before, c.start < c.stop ∧ c.stop ≤ body.length)
    (hbehind : ∀ c ∈ behind, c.start < c.stop ∧ c.stop ≤ rest.length) :
    e.decider.decideBatch (body ++ blankLine ++ rest)
        (before ++ behind.map (Candidate.shift (body ++ blankLine).length)) =
      e.decider.decideBatch (body ++ blankLine) before ++
        (e.decider.decideBatch rest behind).map
          (PrivacyDecision.shift (body ++ blankLine).length) := by
  have hlen : body.length ≤ (body ++ blankLine).length :=
    (List.sublist_append_left body blankLine).length_le
  rw [PrivacyDecider.decideBatch, List.map_append]
  refine congrArg₂ _ (List.map_congr_left fun c hc => ?_) ?_
  · obtain ⟨hspan, hstop⟩ := hbefore c hc
    refine e.decide_congr hspan ?_
    rw [windowBounds_before hspan.le hstop, slice_append_of_le]
    exact windowBounds_le_length _ _ hspan.le (hstop.trans hlen)
  · rw [PrivacyDecider.decideBatch, List.map_map, List.map_map]
    refine List.map_congr_left fun c hc => ?_
    obtain ⟨hspan, hstop⟩ := hbehind c hc
    refine e.decide_shift hspan ?_
    rw [windowBounds_behind hspan.le hstop fun c hc => (hbefore c hc).2.trans hlen,
      slice_append_add]

/-- The policy judges a decision by the candidates of its own fragment. -/
private theorem evaluatePolicy_append {rules : List RelationshipRule} {consumer : ConsumerConfig}
    (hbefore : ∀ c ∈ before, c.start < c.stop ∧ c.stop ≤ body.length)
    {ds ds' : List PrivacyDecision} (hds : ∀ d ∈ ds, d.candidate ∈ before) :
    evaluatePolicy rules (body ++ blankLine ++ rest)
        (ds ++ ds'.map (PrivacyDecision.shift (body ++ blankLine).length))
        (before ++ behind.map (Candidate.shift (body ++ blankLine).length)) consumer =
      evaluatePolicy rules (body ++ blankLine) ds before consumer ++
        (evaluatePolicy rules rest ds' behind consumer).map
          (PrivacyDecision.shift (body ++ blankLine).length) := by
  rw [evaluatePolicy, evaluatePolicy, evaluatePolicy, List.map_append, List.map_append]
  refine congrArg₂ _ (congrArg _ (List.map_congr_left fun d hd => ?_)) ?_
  · simp only [applyRelationshipRules, satisfied_before _ rest hbefore (hds d hd)]
  · simp only [List.map_map]
    refine List.map_congr_left fun d _ => ?_
    have hsatisfied (rule : RelationshipRule) :
        rule.satisfied (body ++ blankLine ++ rest)
            (d.candidate.shift (body ++ blankLine).length)
            (before ++ behind.map (Candidate.shift (body ++ blankLine).length)) =
          rule.satisfied rest d.candidate behind :=
      satisfied_behind rule rest hbefore d.candidate
    simp only [Function.comp_apply, applyRelationshipRules_shift _ hsatisfied,
      applyConsumerPolicy_shift]

namespace ContextualPrivacyEngine

variable (e : ContextualPrivacyEngine) (rules : List RelationshipRule) (consumer : ConsumerConfig)

/-- What is decided about a fragment and what stands behind it. -/
theorem decisions_append (f : Fragment) {found others : List Candidate}
    (hothers : ∀ c ∈ others, c.start < c.stop ∧ c.stop ≤ rest.length)
    (hfound : SplitsAt f.text.length found f.found others) :
    e.decisions rules consumer (f.text ++ rest) found =
      e.decisions rules consumer f.text f.found ++
        (e.decisions rules consumer rest others).map (PrivacyDecision.shift f.text.length) := by
  have htext : f.body.length ≤ f.text.length := by simp [Fragment.text]
  have hresolve := hfound.resolveOverlaps
    (fun c hc => ⟨(f.inside c hc).1, (f.inside c hc).2.trans htext⟩) fun c hc => (hothers c hc).1
  have hbefore : ∀ c ∈ resolveOverlaps f.found, c.start < c.stop ∧ c.stop ≤ f.body.length :=
    fun c hc => f.inside c (mem_of_mem_resolveOverlaps hc)
  have hbehind : ∀ c ∈ resolveOverlaps others, c.start < c.stop ∧ c.stop ≤ rest.length :=
    fun c hc => hothers c (mem_of_mem_resolveOverlaps hc)
  rw [decisions, decisions, decisions, hresolve, Fragment.text,
    decideBatch_append e hbefore hbehind]
  refine evaluatePolicy_append hbefore fun d hd => ?_
  obtain ⟨c, hc, rfl⟩ := List.mem_map.1 hd
  rw [e.decider.decide_candidate]
  exact hc

/-- What is decided about the fragments, each alone. -/
def decideApart : List Fragment → Fragment → List PrivacyDecision
  | [], last => e.decisions rules consumer last.body last.found
  | f :: fs, last => e.decisions rules consumer f.text f.found ++
    (decideApart fs last).map (PrivacyDecision.shift f.text.length)

/-- What is found apart lies in the document. -/
theorem inside_of_foundApart {fs : List Fragment} {last : Fragment} {found : List Candidate}
    (h : FoundApart fs last found) :
    ∀ c ∈ found, c.start < c.stop ∧ c.stop ≤ (document fs last).length := by
  induction fs generalizing found with
  | nil =>
    rw [FoundApart] at h
    rw [h]
    exact last.inside
  | cons f fs ih =>
    obtain ⟨others, hsplit, hothers⟩ := h
    intro c hc
    rw [document, List.length_append]
    by_cases hlt : c.start < f.text.length
    · have hmem : c ∈ f.found :=
        hsplit.before_eq ▸ List.mem_filter.2 ⟨hc, decide_eq_true hlt⟩
      obtain ⟨hspan, hstop⟩ := f.inside c hmem
      exact ⟨hspan, hstop.trans (by rw [Fragment.text, List.length_append]; omega)⟩
    · have hmem : c ∈ others.map (Candidate.shift f.text.length) :=
        hsplit.behind_eq ▸ List.mem_filter.2 ⟨hc, by simpa using hlt⟩
      obtain ⟨c', hc', rfl⟩ := List.mem_map.1 hmem
      obtain ⟨hspan, hstop⟩ := ih hothers c' hc'
      exact ⟨Nat.add_lt_add_left hspan _, Nat.add_le_add_left hstop _⟩

/-- **The decisions about a document** are those about its fragments. -/
theorem decisions_document {fs : List Fragment} {last : Fragment} {found : List Candidate}
    (h : FoundApart fs last found) :
    e.decisions rules consumer (document fs last) found = e.decideApart rules consumer fs last := by
  induction fs generalizing found with
  | nil =>
    rw [FoundApart] at h
    rw [document, decideApart, h]
  | cons f fs ih =>
    obtain ⟨others, hsplit, hothers⟩ := h
    rw [document, decideApart, ← ih hothers]
    exact e.decisions_append rules consumer f (inside_of_foundApart hothers) hsplit

end ContextualPrivacyEngine

namespace Pipeline

/-- **No fragment changes what is decided about another.** When the detectors find in a document
what they find in its fragments, the pipeline decides about the document as about each fragment
alone. -/
theorem analyze_document (p : Pipeline) {e : ContextualPrivacyEngine} (hp : p.decider = e.decider)
    (consumer : ConsumerConfig) {fs : List Fragment} {last : Fragment}
    (h : FoundApart fs last (p.detectors.detectAll (document fs last))) :
    (p.analyze (document fs last) consumer).2 = e.decideApart p.rules consumer fs last := by
  rw [← e.decisions_document p.rules consumer h, analyze, hp]
  rfl

/-- The built-in pipeline over a small run time. -/
def basicPipeline : Pipeline := builtinPipeline (basicRuntime 0 zero_lt_two_pow_64)

/-- A PIN that is not that of a card. -/
def pinFragment : Fragment where
  body := "pin 1234".toList
  found := basicPipeline.detectors.detectAll ("pin 1234".toList ++ blankLine)
  inside := by decide +kernel

/-- A card number. -/
def cardFragment : Fragment where
  body := "card 4111111111111111".toList
  found := basicPipeline.detectors.detectAll "card 4111111111111111".toList
  inside := by decide +kernel

/-- A consumer of all types. -/
def anyConsumer : ConsumerConfig where
  consumerId := "default".toList

/-- The PIN is kept, however near the card is. -/
theorem analyze_document_pin :
    (basicPipeline.analyze (document [pinFragment] cardFragment) anyConsumer).2 =
        ContextualPrivacyEngine.decideApart { unicode := basicPipeline.runtime.unicode }
          defaultRelationshipRules anyConsumer [pinFragment] cardFragment ∧
      (basicPipeline.analyze (document [pinFragment] cardFragment) anyConsumer).2.map
        PrivacyDecision.decision = [.keep, .mask] := by
  have hsplit : SplitsAt pinFragment.text.length
      (basicPipeline.detectors.detectAll (document [pinFragment] cardFragment)) pinFragment.found
      cardFragment.found := ⟨by decide +kernel, by decide +kernel⟩
  exact ⟨analyze_document basicPipeline rfl anyConsumer ⟨_, hsplit, rfl⟩, by decide +kernel⟩

end Pipeline

end PiiProxy
