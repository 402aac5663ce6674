import PiiProxy.Context.OwnLetters

/-!
# The window of a candidate

The engine looks for keywords in a piece of the text around a candidate. The piece reaches no
further than the radius on either side, not over the end of the sentence before and at most to the
end of its own sentence, and not into the span of another candidate. It is the largest piece of that
kind, so a change of the text outside of it that keeps the sentences and the candidates where they
are changes no decision.

## Main definitions

* `TerminatorAt`: a sentence ends at a position.
* `ContextWindow`: a piece of the text around a span that stays within the four limits.
* `windowBounds`: the bounds of the attributed window.

## Main results

* `contextWindow_iff`: the pieces within the limits are those within the bounds.
* `ContextualPrivacyEngine.attributedWindow_largest`: the window of a candidate, and what a decision
  depends on.
-/

namespace PiiProxy

/-- A sentence ends with the character at the position. -/
def TerminatorAt (text : Text) (i : ℕ) : Prop := ∃ c, text[i]? = some c ∧ isTerminator c = true

/-- The piece of the text from `l` to `r` contains the span from `start` to `stop`, reaches no
further than the radius on either side, contains no character of the other spans, no end of a
sentence before the span, and behind the span one at most, as its last character. -/
structure ContextWindow (text : Text) (start stop : ℕ) (others : List (ℕ × ℕ)) (radius l r : ℕ) :
    Prop where
  start_le : start ≤ l + radius
  le_start : l ≤ start
  stop_le : stop ≤ r
  le_stop : r ≤ stop + radius
  inside : r ≤ text.length
  apart : ∀ o ∈ others, ∀ i, l ≤ i → i < r → ¬(o.1 ≤ i ∧ i < o.2)
  before : ∀ i, l ≤ i → i < start → ¬TerminatorAt text i
  after : ∀ i, stop ≤ i → i + 1 < r → ¬TerminatorAt text i

/-! ### The sentence -/

private theorem le_length_takeWhile_iff {α : Type*} {f : α → Bool} {s : List α} {n : ℕ} :
    n ≤ (s.takeWhile f).length ↔ n ≤ s.length ∧ ∀ i < n, ∀ a ∈ s[i]?, f a = true := by
  induction s generalizing n with
  | nil => simp
  | cons a s ih =>
    cases n with
    | zero => simp
    | succ n =>
      by_cases ha : f a = true
      · rw [List.takeWhile_cons_of_pos ha, List.length_cons, Nat.add_le_add_iff_right, ih,
          List.length_cons, Nat.add_le_add_iff_right]
        refine and_congr_right fun _ => ⟨fun h i hi => ?_, fun h i hi => h (i + 1) (by omega)⟩
        cases i with
        | zero => simpa using ha
        | succ i => exact h i (by omega)
      · rw [List.takeWhile_cons_of_neg ha]
        refine iff_of_false (Nat.not_succ_le_zero n) fun ⟨_, h⟩ => ha ?_
        exact h 0 (Nat.succ_pos n) a rfl

/-- How far a window may reach to the left of the text `p`. -/
theorem sentenceLeft_le_iff {p : Text} {radius l : ℕ} (hl : l ≤ p.length) :
    sentenceLeft p radius ≤ l ↔
      p.length ≤ l + radius ∧ ∀ i, l ≤ i → i < p.length → ¬TerminatorAt p i := by
  have hlen : (p.drop (p.length - radius)).reverse.length = p.length - (p.length - radius) := by
    rw [List.length_reverse, List.length_drop]
  have hget (i : ℕ) (hi : i < p.length - (p.length - radius)) :
      (p.drop (p.length - radius)).reverse[i]? = p[p.length - 1 - i]? := by
    rw [List.getElem?_reverse (by rw [List.length_drop]; exact hi), List.getElem?_drop,
      List.length_drop]
    congr 1
    omega
  have hle := (List.takeWhile_sublist (l := (p.drop (p.length - radius)).reverse)
    fun c => !isTerminator c).length_le
  have hiff : sentenceLeft p radius ≤ l ↔ p.length - l ≤
      ((p.drop (p.length - radius)).reverse.takeWhile fun c => !isTerminator c).length := by
    simp only [sentenceLeft, List.length_drop]
    rw [hlen] at hle
    omega
  rw [hiff, le_length_takeWhile_iff, hlen]
  constructor
  · rintro ⟨hn, hfree⟩
    refine ⟨by omega, fun i hli hi hterminator => ?_⟩
    obtain ⟨c, hc, hterm⟩ := hterminator
    have hback : p.length - 1 - (p.length - 1 - i) = i := by omega
    have hnot := hfree (p.length - 1 - i) (by omega) c (by rw [hget _ (by omega), hback, hc]; rfl)
    rw [hterm] at hnot
    cases hnot
  · rintro ⟨hn, hfree⟩
    refine ⟨by omega, fun i hi c hc => ?_⟩
    rw [hget i (by omega)] at hc
    have hnot := hfree (p.length - 1 - i) (by omega) (by omega)
    rw [Bool.not_eq_true']
    exact Bool.eq_false_iff.2 fun hterm => hnot ⟨c, hc, hterm⟩

/-- How far a window may reach into the text `q` behind a span. -/
theorem le_sentenceRight_iff {q : Text} {radius k : ℕ} :
    k ≤ sentenceRight q radius ↔
      k ≤ radius ∧ k ≤ q.length ∧ ∀ i, i + 1 < k → ¬TerminatorAt q i := by
  have hlen : (q.take radius).length = min radius q.length := List.length_take
  rw [sentenceRight]
  cases hfind : (q.take radius).findIdx? isTerminator with
  | none =>
    have hnone := List.findIdx?_eq_none_iff.1 hfind
    dsimp only
    rw [hlen, le_min_iff]
    constructor
    · rintro ⟨hradius, hq⟩
      refine ⟨hradius, hq, fun i hi hterminator => ?_⟩
      obtain ⟨c, hc, hterm⟩ := hterminator
      have hmem : c ∈ q.take radius := by
        refine List.mem_of_getElem? (i := i) ?_
        rw [List.getElem?_take_of_lt (by omega), hc]
      rw [hnone c hmem] at hterm
      cases hterm
    · rintro ⟨hradius, hq, -⟩
      exact ⟨hradius, hq⟩
  | some j =>
    obtain ⟨hj, hterm, hfirst⟩ := List.findIdx?_eq_some_iff_getElem.1 hfind
    rw [hlen] at hj
    have hat : TerminatorAt q j := by
      refine ⟨_, ?_, hterm⟩
      rw [List.getElem_take, List.getElem?_eq_getElem]
    dsimp only
    constructor
    · intro hk
      refine ⟨by omega, by omega, fun i hi hterminator => ?_⟩
      obtain ⟨c, hc, hterm⟩ := hterminator
      have hnot := hfirst i (by omega)
      rw [List.getElem_take] at hnot
      obtain ⟨hlt, rfl⟩ := List.getElem?_eq_some_iff.1 hc
      exact hnot hterm
    · rintro ⟨-, -, hfree⟩
      by_contra hlt
      exact hfree j (by omega) hat

/-- How far the sentence around a span reaches. -/
theorem sentenceBounds_iff {text : Text} {start stop : ℕ} (radius : ℕ) (hspan : start ≤ stop)
    (hstop : stop ≤ text.length) :
    (∀ l ≤ start, (sentenceBounds text start stop radius).1 ≤ l ↔
      start ≤ l + radius ∧ ∀ i, l ≤ i → i < start → ¬TerminatorAt text i) ∧
    ∀ r, stop ≤ r → (r ≤ (sentenceBounds text start stop radius).2 ↔
      r ≤ stop + radius ∧ r ≤ text.length ∧ ∀ i, stop ≤ i → i + 1 < r → ¬TerminatorAt text i) := by
  have hlen : (text.take start).length = start := List.length_take_of_le (hspan.trans hstop)
  have hmid : (PySeq.slice text start stop).length = stop - start :=
    PySeq.length_slice_natCast text hstop
  have hsplit : text = text.take start ++ PySeq.slice text start stop ++ text.drop stop := by
    rw [PySeq.take_append_slice text hspan, List.take_append_drop]
  have hbounds := sentenceBounds_append (text.take start) (PySeq.slice text start stop)
    (text.drop stop) radius
  rw [← hsplit, hlen, hmid, Nat.add_sub_cancel' hspan] at hbounds
  have hbefore {i : ℕ} (hi : i < start) :
      TerminatorAt (text.take start) i ↔ TerminatorAt text i := by
    rw [TerminatorAt, List.getElem?_take_of_lt hi]
    rfl
  have hafter (i : ℕ) : TerminatorAt (text.drop stop) i ↔ TerminatorAt text (stop + i) := by
    rw [TerminatorAt, List.getElem?_drop]
    rfl
  rw [hbounds]
  refine ⟨fun l hl => ?_, fun r hr => ?_⟩
  · rw [sentenceLeft_le_iff (hlen.symm ▸ hl), hlen]
    refine and_congr_right fun _ => forall_congr' fun i => forall₂_congr fun _ hi => ?_
    rw [hbefore hi]
  · obtain ⟨k, rfl⟩ := Nat.exists_eq_add_of_le hr
    rw [Nat.add_le_add_iff_left, Nat.add_le_add_iff_left, le_sentenceRight_iff, List.length_drop]
    refine and_congr_right fun _ => and_congr (by omega) ?_
    simp only [hafter]
    constructor
    · intro hfree i hi hlt
      obtain ⟨j, rfl⟩ := Nat.exists_eq_add_of_le hi
      exact hfree j (by omega)
    · exact fun hfree i hi => hfree (stop + i) (Nat.le_add_right _ _) (by omega)

/-! ### The other candidates -/

theorem foldl_clip_fst_le {start stop l : ℕ} (spans : List (ℕ × ℕ)) {b : ℕ × ℕ} :
    (spans.foldl (clip start stop) b).1 ≤ l ↔ b.1 ≤ l ∧ ∀ o ∈ spans, o.2 ≤ start → o.2 ≤ l := by
  induction spans generalizing b with
  | nil => simp
  | cons o spans ih =>
    rw [List.foldl_cons, ih, List.forall_mem_cons, ← and_assoc]
    refine and_congr_left fun _ => ?_
    rw [clip]
    split_ifs with hleft
    · simp [hleft]
    · simp [hleft]
    · simp [hleft]

theorem le_foldl_clip_snd {start stop r : ℕ} (spans : List (ℕ × ℕ)) {b : ℕ × ℕ} :
    r ≤ (spans.foldl (clip start stop) b).2 ↔
      r ≤ b.2 ∧ ∀ o ∈ spans, start < o.2 → stop ≤ o.1 → r ≤ o.1 := by
  induction spans generalizing b with
  | nil => simp
  | cons o spans ih =>
    rw [List.foldl_cons, ih, List.forall_mem_cons, ← and_assoc]
    refine and_congr_left fun _ => ?_
    rw [clip]
    split_ifs with hleft hright
    · simp [hleft]
    · simp [Nat.lt_of_not_le hleft, hright]
    · simp [hright]

/-! ### The bounds -/

/-- The bounds of the attributed window. -/
def windowBounds (text : Text) (start stop : ℕ) (others : List (ℕ × ℕ)) (radius : ℕ) : ℕ × ℕ :=
  others.foldl (clip start stop) (sentenceBounds text start stop radius)

theorem attributedWindow_eq (text : Text) (start stop : ℕ) (others : List (ℕ × ℕ)) (radius : ℕ) :
    attributedWindow text start stop others radius =
      PySeq.slice text (windowBounds text start stop others radius).1
        (windowBounds text start stop others radius).2 := rfl

/-- A piece around a span contains no character of another span that is not empty. -/
private theorem apart_iff {start stop l r : ℕ} {o : ℕ × ℕ} (hspan : start ≤ stop) (hl : l ≤ start)
    (hr : stop ≤ r) (ho : o.1 < o.2 ∧ (o.2 ≤ start ∨ stop ≤ o.1)) :
    (∀ i, l ≤ i → i < r → ¬(o.1 ≤ i ∧ i < o.2)) ↔
      (o.2 ≤ start → o.2 ≤ l) ∧ (start < o.2 → stop ≤ o.1 → r ≤ o.1) := by
  constructor
  · refine fun hfree => ⟨fun hleft => ?_, fun hlt hright => ?_⟩
    · by_contra hgt
      exact hfree (o.2 - 1) (by omega) (by omega) (by omega)
    · by_contra hgt
      exact hfree o.1 (by omega) (by omega) (by omega)
  · rintro ⟨hleft, hright⟩ i hli hir ⟨hoi, hio⟩
    rcases ho.2 with hstart | hstop
    · exact absurd (hleft hstart) (by omega)
    · rcases Nat.lt_or_ge start o.2 with hlt | hge
      · exact absurd (hright hlt hstop) (by omega)
      · exact absurd (hleft hge) (by omega)

/-- **The pieces within the limits are those within the bounds.** -/
theorem contextWindow_iff {text : Text} {start stop : ℕ} {others : List (ℕ × ℕ)} {radius l r : ℕ}
    (hspan : start ≤ stop) (hstop : stop ≤ text.length)
    (hothers : ∀ o ∈ others, o.1 < o.2 ∧ (o.2 ≤ start ∨ stop ≤ o.1)) :
    ContextWindow text start stop others radius l r ↔
      ((windowBounds text start stop others radius).1 ≤ l ∧ l ≤ start) ∧
        stop ≤ r ∧ r ≤ (windowBounds text start stop others radius).2 := by
  obtain ⟨hleft, hright⟩ := sentenceBounds_iff radius hspan hstop
  rw [windowBounds, foldl_clip_fst_le, le_foldl_clip_snd]
  constructor
  · intro hw
    have hapart (o) (ho : o ∈ others) :=
      (apart_iff hspan hw.le_start hw.stop_le (hothers o ho)).1 (hw.apart o ho)
    exact ⟨⟨⟨(hleft l hw.le_start).2 ⟨hw.start_le, hw.before⟩, fun o ho => (hapart o ho).1⟩,
      hw.le_start⟩, hw.stop_le, (hright r hw.stop_le).2 ⟨hw.le_stop, hw.inside, hw.after⟩,
      fun o ho => (hapart o ho).2⟩
  · rintro ⟨⟨⟨hsentence, hbehind⟩, hl⟩, hr, hsentence', hahead⟩
    obtain ⟨hstart_le, hbefore⟩ := (hleft l hl).1 hsentence
    obtain ⟨hle_stop, hinside, hafter⟩ := (hright r hr).1 hsentence'
    exact ⟨hstart_le, hl, hr, hle_stop, hinside, fun o ho =>
      (apart_iff hspan hl hr (hothers o ho)).2 ⟨hbehind o ho, hahead o ho⟩, hbefore, hafter⟩

/-- The piece between the bounds is within the limits. -/
theorem contextWindow_windowBounds {text : Text} {start stop : ℕ}
    {others : List (ℕ × ℕ)} {radius : ℕ}
    (hspan : start ≤ stop) (hstop : stop ≤ text.length)
    (hothers : ∀ o ∈ others, o.1 < o.2 ∧ (o.2 ≤ start ∨ stop ≤ o.1)) :
    ContextWindow text start stop others radius (windowBounds text start stop others radius).1
      (windowBounds text start stop others radius).2 := by
  obtain ⟨hleft, hright⟩ := sentenceBounds_iff radius hspan hstop
  refine (contextWindow_iff hspan hstop hothers).2 ⟨⟨le_rfl, ?_⟩, ?_, le_rfl⟩
  · rw [windowBounds, foldl_clip_fst_le, hleft start le_rfl]
    exact ⟨⟨Nat.le_add_right _ _, fun i hi hlt => absurd hlt (Nat.not_lt.2 hi)⟩, fun _ _ => id⟩
  · rw [windowBounds, le_foldl_clip_snd, hright stop le_rfl]
    exact ⟨⟨Nat.le_add_right _ _, hstop, fun i hi hlt => absurd hlt (by omega)⟩, fun _ _ _ => id⟩

/-! ### What a decision depends on -/

/-- Two texts have the same length and the same ends of sentences, as far as the radius reaches. -/
def SameSentences (text text' : Text) (start stop radius : ℕ) : Prop :=
  ∀ i, start ≤ i + radius → i < stop + radius →
    (text'[i]?).map isTerminator = (text[i]?).map isTerminator

private theorem SameSentences.terminatorAt {text text' : Text} {start stop radius i : ℕ}
    (h : SameSentences text text' start stop radius) (hstart : start ≤ i + radius)
    (hstop : i < stop + radius) : TerminatorAt text' i ↔ TerminatorAt text i := by
  have hiff (t : Text) : TerminatorAt t i ↔ (t[i]?).map isTerminator = some true := by
    rw [TerminatorAt, Option.map_eq_some_iff]
  rw [hiff, hiff, h i hstart hstop]

private theorem SameSentences.lt_length {text text' : Text} {start stop radius i : ℕ}
    (h : SameSentences text text' start stop radius) (hstart : start ≤ i + radius)
    (hstop : i < stop + radius) : i < text'.length ↔ i < text.length := by
  have hiff (t : Text) : i < t.length ↔ ((t[i]?).map isTerminator).isSome = true := by
    simp
  rw [hiff, hiff, h i hstart hstop]

private theorem SameSentences.symm {text text' : Text} {start stop radius : ℕ}
    (h : SameSentences text text' start stop radius) :
    SameSentences text' text start stop radius :=
  fun i hstart hstop => (h i hstart hstop).symm

private theorem ContextWindow.congr {text text' : Text} {start stop : ℕ} {others : List (ℕ × ℕ)}
    {radius l r : ℕ} (hspan : start < stop) (hsame : SameSentences text text' start stop radius)
    (hw : ContextWindow text start stop others radius l r) :
    ContextWindow text' start stop others radius l r := by
  have hstart := hw.start_le
  have hstop := hw.le_stop
  refine ⟨hstart, hw.le_start, hw.stop_le, hstop, ?_, hw.apart, fun i hli hi => ?_,
    fun i hsi hi => ?_⟩
  · -- the last character of the window is in both texts
    have hstop_le := hw.stop_le
    have hinside := hw.inside
    have hlast : r - 1 < text'.length ↔ r - 1 < text.length := hsame.lt_length (by omega) (by omega)
    omega
  · exact (hsame.terminatorAt (by omega) (by omega)).not.2 (hw.before i hli hi)
  · exact (hsame.terminatorAt (by omega) (by omega)).not.2 (hw.after i hsi hi)

/-- The bounds depend on the sentences within the radius only. -/
theorem windowBounds_congr {text text' : Text} {start stop : ℕ} {others : List (ℕ × ℕ)} {radius : ℕ}
    (hspan : start < stop) (hstop : stop ≤ text.length)
    (hothers : ∀ o ∈ others, o.1 < o.2 ∧ (o.2 ≤ start ∨ stop ≤ o.1))
    (hsame : SameSentences text text' start stop radius) :
    windowBounds text' start stop others radius = windowBounds text start stop others radius := by
  have hstop' : stop ≤ text'.length := by
    have hlast : stop - 1 < text'.length ↔ stop - 1 < text.length :=
      hsame.lt_length (by omega) (by omega)
    omega
  have hw := (contextWindow_windowBounds hspan.le hstop hothers).congr hspan hsame
  have hw' := (contextWindow_windowBounds hspan.le hstop' hothers).congr hspan hsame.symm
  obtain ⟨⟨hl, -⟩, -, hr⟩ := (contextWindow_iff hspan.le hstop' hothers).1 hw
  obtain ⟨⟨hl', -⟩, -, hr'⟩ := (contextWindow_iff hspan.le hstop hothers).1 hw'
  exact Prod.ext (le_antisymm hl hl') (le_antisymm hr' hr)

/-- Candidates whose spans are not empty, lie inside the text and share no position. -/
structure DisjointIn (text : Text) (cs : List Candidate) : Prop where
  inside : ∀ c ∈ cs, c.start < c.stop ∧ c.stop ≤ text.length
  disjoint : cs.Pairwise fun c c' => c.stop ≤ c'.start ∨ c'.stop ≤ c.start

/-- The spans of the candidates other than `c`. -/
def otherSpans (cs : List Candidate) (c : Candidate) : List (ℕ × ℕ) :=
  (cs.filter (· ≠ c)).map fun o => (o.start, o.stop)

theorem DisjointIn.otherSpans {text : Text} {cs : List Candidate} (h : DisjointIn text cs)
    {c : Candidate} (hc : c ∈ cs) :
    ∀ o ∈ otherSpans cs c, o.1 < o.2 ∧ (o.2 ≤ c.start ∨ c.stop ≤ o.1) := by
  intro o ho
  obtain ⟨c', hc', rfl⟩ := List.mem_map.1 ho
  obtain ⟨hmem, hne⟩ := List.mem_filter.1 hc'
  refine ⟨(h.inside c' hmem).1, ?_⟩
  rcases PySeq.eq_or_rel_of_pairwise h.disjoint hmem hc with rfl | hapart | hapart
  · simp at hne
  · exact hapart
  · exact hapart.symm

/-- The window of a candidate among candidates depends on their spans only. -/
theorem windowBounds_otherSpans {c : Candidate} (hspan : c.start < c.stop) (text : Text)
    (cs : List Candidate) (radius : ℕ) :
    windowBounds text c.start c.stop (otherSpans cs c) radius =
      windowBounds text c.start c.stop (cs.map fun o => (o.start, o.stop)) radius :=
  foldl_clip_filter hspan rfl cs _

namespace ContextualPrivacyEngine

/-- **The window of a candidate is the largest piece within the limits, and decides.** The keywords
of a candidate are looked for in a piece of the text that contains it, reaches no further than the
radius, not over the end of a sentence and not into another candidate, and contains every such
piece. A text with the same piece there, the same ends of sentences within the radius and
candidates with the same spans leads to the same decision. -/
theorem attributedWindow_largest (e : ContextualPrivacyEngine) {text : Text} {cs : List Candidate}
    (hcs : DisjointIn text cs) {c : Candidate} (hc : c ∈ cs) :
    ∃ l r : ℕ,
      attributedWindow text c.start c.stop (otherSpans cs c) e.windowChars = PySeq.slice text l r ∧
      ContextWindow text c.start c.stop (otherSpans cs c) e.windowChars l r ∧
      (∀ l' r', ContextWindow text c.start c.stop (otherSpans cs c) e.windowChars l' r' →
        l ≤ l' ∧ r' ≤ r) ∧
      ∀ text' cs', cs'.map (fun o => (o.start, o.stop)) = cs.map (fun o => (o.start, o.stop)) →
        PySeq.slice text' l r = PySeq.slice text l r →
        SameSentences text text' c.start c.stop e.windowChars →
          e.decide text' c cs' = e.decide text c cs := by
  obtain ⟨hspan, hstop⟩ := hcs.inside c hc
  have hothers := hcs.otherSpans hc
  refine ⟨_, _, attributedWindow_eq _ _ _ _ _, contextWindow_windowBounds hspan.le hstop hothers,
    fun l' r' hw => ?_, fun text' cs' hspans hslice hsame => ?_⟩
  · obtain ⟨⟨hl, -⟩, -, hr⟩ := (contextWindow_iff hspan.le hstop hothers).1 hw
    exact ⟨hl, hr⟩
  · have hbounds : windowBounds text' c.start c.stop (otherSpans cs' c) e.windowChars =
        windowBounds text c.start c.stop (otherSpans cs c) e.windowChars := by
      rw [windowBounds_otherSpans hspan, hspans, ← windowBounds_otherSpans hspan]
      exact windowBounds_congr hspan hstop hothers hsame
    have hwindow : attributedWindow text' c.start c.stop (otherSpans cs' c) e.windowChars =
        attributedWindow text c.start c.stop (otherSpans cs c) e.windowChars := by
      rw [attributedWindow_eq, attributedWindow_eq, hbounds, hslice]
    rw [otherSpans, otherSpans] at hwindow
    simp only [decide, hwindow]

/-- A sentence of its own and a sentence with a name and an address. -/
def twoSentences : Text := "Антон Ким ушёл. Клиент Роман Ким, почта a@b.ru".toList

/-- The name of the second sentence. -/
def secondName : Candidate where
  type := .fullName
  value := roman
  start := 23
  stop := 32
  detector := "fio".toList

/-- The candidates of the two sentences: a name, the name and an address. -/
def threeCandidates : List Candidate :=
  [nameBehind [] anton, secondName,
    { type := .email, value := "a@b.ru".toList, start := 40, stop := 46,
      detector := "email".toList }]

/-- The window begins behind the sentence before and ends before the address. -/
theorem attributedWindow_largest_roman :
    attributedWindow twoSentences 23 32 (otherSpans threeCandidates secondName) 220 =
        " Клиент Роман Ким, почта ".toList ∧
      ∃ l r : ℕ, PySeq.slice twoSentences l r = " Клиент Роман Ким, почта ".toList ∧
        ContextWindow twoSentences 23 32 (otherSpans threeCandidates secondName) 220 l r ∧
        ∀ l' r',
          ContextWindow twoSentences 23 32 (otherSpans threeCandidates secondName) 220 l' r' →
            l ≤ l' ∧ r' ≤ r := by
  have hcs : DisjointIn twoSentences threeCandidates := ⟨by decide, by decide⟩
  have hvalue : attributedWindow twoSentences 23 32 (otherSpans threeCandidates secondName) 220 =
      " Клиент Роман Ким, почта ".toList := by decide
  obtain ⟨l, r, hslice, hwindow, hlargest, -⟩ :=
    attributedWindow_largest { unicode := basicUnicode } hcs
      (List.mem_cons_of_mem _ List.mem_cons_self)
  exact ⟨hvalue, l, r, hslice.symm.trans hvalue, hwindow, hlargest⟩

end ContextualPrivacyEngine

end PiiProxy
