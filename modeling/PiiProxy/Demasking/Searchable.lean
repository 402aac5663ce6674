import PiiProxy.Demasking.OneNeedle
import PiiProxy.Demasking.TokenMode
import PiiProxy.Detectors.Builtin
import PiiProxy.Replacement.Surrogates

/-!
# Finding planted surrogates

In synthetic mode the demasker searches each surrogate with word boundaries, while a detector may
find a span next to a letter or a digit. A surrogate planted there is in the masked text and among
the needles, and still the search does not report it: it reports a planted surrogate exactly when no
word character touches it.

## Main definitions

* `touching`: the characters directly before and after a span.
* `Planted`: an occurrence that holds the token or the synthetic value of its entity.
* `Searchable`: the search reports the occurrence at its coordinates.

## Main results

* `mem_findAllSpans`: what the search reports.
* `TransformResult.Describes.split`: where an occurrence stands in the masked text, and between
  which characters.
* `searchable_iff`: a planted surrogate is reported exactly when no word character touches it.
-/

namespace PiiProxy

/-! ### What the search reports -/

theorem mem_findAll {needle : Text} {pos i : ℕ} {s : Text} :
    i ∈ findAll needle pos s ↔ ∃ j ≤ s.length, i = pos + j ∧ needle <+: s.drop j := by
  induction s generalizing pos with
  | nil =>
    rw [findAll]
    split_ifs with hbegins
    · rw [List.isPrefixOf_iff_prefix] at hbegins
      simp only [List.mem_singleton, List.length_nil, Nat.le_zero, exists_eq_left, Nat.add_zero,
        List.drop_nil, hbegins, and_true]
    · rw [List.isPrefixOf_iff_prefix] at hbegins
      simp [hbegins]
  | cons a s ih =>
    have hsplit : (∃ j ≤ (a :: s).length, i = pos + j ∧ needle <+: (a :: s).drop j) ↔
        (i = pos ∧ needle <+: a :: s) ∨ ∃ j ≤ s.length, i = pos + 1 + j ∧ needle <+: s.drop j := by
      constructor
      · rintro ⟨j, hj, rfl, hbegins⟩
        cases j with
        | zero => exact .inl ⟨rfl, hbegins⟩
        | succ j => exact .inr ⟨j, Nat.le_of_succ_le_succ hj, by omega, hbegins⟩
      · rintro (⟨rfl, hbegins⟩ | ⟨j, hj, rfl, hbegins⟩)
        · exact ⟨0, Nat.zero_le _, rfl, hbegins⟩
        · exact ⟨j + 1, Nat.succ_le_succ hj, by omega, hbegins⟩
    rw [hsplit, findAll]
    split_ifs with hbegins
    · rw [List.isPrefixOf_iff_prefix] at hbegins
      rw [List.mem_cons, ih]
      simp only [hbegins, and_true]
    · rw [List.isPrefixOf_iff_prefix] at hbegins
      rw [ih]
      simp only [hbegins, and_false, false_or]

/-- **What the search reports**: the places where a needle stands within word boundaries. -/
theorem mem_findAllSpans {u : Unicode} {text : Text} {pairs : List (Text × Text)}
    {s : Splice.Edit Char} :
    s ∈ findAllSpans u text pairs ↔ ∃ p ∈ pairs, p.1 ≠ [] ∧ p.1 <+: text.drop s.start ∧
      s.stop = s.start + p.1.length ∧ s.insert = p.2 ∧ boundaryOk u text s.start s.stop = true := by
  obtain ⟨start, stop, insert⟩ := s
  simp only [findAllSpans, findSpans, List.mem_flatMap, List.mem_map, List.mem_filter, mem_findAll,
    Nat.zero_add, Bool.not_eq_true', List.isEmpty_eq_false_iff, Splice.Edit.mk.injEq]
  constructor
  · rintro ⟨p, ⟨hp, hne⟩, i, ⟨⟨j, -, rfl, hbegins⟩, hok⟩, rfl, rfl, rfl⟩
    exact ⟨p, hp, hne, hbegins, rfl, rfl, hok⟩
  · rintro ⟨p, hp, hne, hbegins, rfl, rfl, hok⟩
    refine ⟨p, ⟨hp, hne⟩, start, ⟨⟨start, ?_, rfl, hbegins⟩, hok⟩, rfl, rfl, rfl⟩
    -- Behind the end nothing begins with a needle that is not empty.
    by_contra hlt
    rw [List.drop_of_length_le (Nat.le_of_not_le hlt)] at hbegins
    exact hne (List.prefix_nil.mp hbegins)

/-! ### The place of an occurrence in the masked text -/

/-- The characters directly before and after the span of a text. -/
def touching (text : Text) (start stop : ℤ) : List Char :=
  (text.take start.toNat).getLast?.toList ++ (text.drop stop.toNat).head?.toList

/-- The occurrence stands in the masked text between the given pieces. Where no other occurrence
touches it in the source, they end and begin as there. -/
structure Occurrence.Between (source : Text) (os : List Occurrence) (o : Occurrence)
    (pre post : Text) : Prop where
  start_eq : o.maskedStart = (pre.length : ℤ)
  stop_eq : o.maskedEnd = ((pre.length + o.masked.length : ℕ) : ℤ)
  before_eq : (∀ o' ∈ os, o'.originalEnd ≠ o.originalStart) →
    pre.getLast? = (source.take o.originalStart.toNat).getLast?
  after_eq : (∀ o' ∈ os, o'.originalStart ≠ o.originalEnd) →
    post.head? = (source.drop o.originalEnd.toNat).head?

/-- A piece before a position that is not empty ends as the sequence does there. -/
private theorem getLast?_slice {s pre : Text} {i j : ℕ} (hij : i < j) (hj : j ≤ s.length) :
    (pre ++ PySeq.slice s i j).getLast? = (s.take j).getLast? := by
  have hne : PySeq.slice s (i : ℤ) j ≠ [] := by
    refine List.ne_nil_of_length_pos ?_
    rw [PySeq.length_slice_natCast s hj]
    omega
  rw [← PySeq.take_append_slice s hij.le, List.getLast?_append_of_ne_nil _ hne,
    List.getLast?_append_of_ne_nil _ hne]

/-- The splice behind an edit begins as the sequence does there, unless the next edit touches it. -/
private theorem head?_apply {s : Text} {c : ℕ} {es : List (Splice.Edit Char)}
    (hordered : Splice.Ordered s.length c es) (hfree : ∀ e ∈ es, e.start ≠ c) :
    (Splice.apply s c es).head? = (s.drop c).head? := by
  cases es with
  | nil => rfl
  | cons e es =>
    obtain ⟨hstart, hstop, hordered⟩ := hordered
    have hlt : c < e.start := lt_of_le_of_ne hstart (hfree e List.mem_cons_self).symm
    have hlen : e.start ≤ s.length := hstop.trans hordered.cursor_le
    have hne : PySeq.slice s (c : ℤ) e.start ≠ [] := by
      refine List.ne_nil_of_length_pos ?_
      rw [PySeq.length_slice_natCast s hlen]
      omega
    rw [Splice.apply, List.append_assoc, List.head?_append_of_ne_nil _ hne,
      ← PySeq.slice_append_drop s hlt.le, List.head?_append_of_ne_nil _ hne]

/-- The induction of `TransformResult.Describes.split`: `pre` is written when the cursor stands at
`cursor`. -/
private theorem split_aux {source : Text} {es : List (Splice.Edit Char)} {os : List Occurrence}
    (pre : Text) {cursor : ℕ} (hordered : Splice.Ordered source.length cursor es)
    (hedits : ListsEdits Occurrence.originalStart Occurrence.originalEnd Occurrence.masked os es)
    (hinverse : ListsEdits Occurrence.maskedStart Occurrence.maskedEnd Occurrence.original os
      (Splice.invert source cursor pre.length es))
    {o : Occurrence} (ho : o ∈ os) :
    ∃ pre' post, pre ++ Splice.apply source cursor es = pre' ++ o.masked ++ post ∧
      o.maskedStart = (pre'.length : ℤ) ∧
      o.maskedEnd = ((pre'.length + o.masked.length : ℕ) : ℤ) ∧
      ((o.originalStart = cursor → pre.getLast? = (source.take cursor).getLast?) →
        (∀ o' ∈ os, o'.originalEnd ≠ o.originalStart) →
          pre'.getLast? = (source.take o.originalStart.toNat).getLast?) ∧
      ((∀ o' ∈ os, o'.originalStart ≠ o.originalEnd) →
        post.head? = (source.drop o.originalEnd.toNat).head?) := by
  induction es generalizing pre cursor os with
  | nil =>
    cases hedits
    cases ho
  | cons e es ih =>
    obtain ⟨hstart, hstop, hordered⟩ := hordered
    have hlen : e.start ≤ source.length := hstop.trans hordered.cursor_le
    have hwritten : (pre ++ PySeq.slice source cursor e.start).length =
        pre.length + (e.start - cursor) := by
      rw [List.length_append, PySeq.length_slice_natCast source hlen]
    rw [Splice.invert] at hinverse
    cases hedits with
    | @cons first _ os _ hfirst hedits =>
    obtain ⟨horiginalStart, horiginalEnd, hmasked⟩ := hfirst
    cases hinverse with
    | cons hfirst hinverse =>
    obtain ⟨hmaskedStart, hmaskedEnd, -⟩ := hfirst
    rcases List.mem_cons.mp ho with rfl | ho
    · refine ⟨pre ++ PySeq.slice source cursor e.start, Splice.apply source e.stop es,
        ?_, ?_, ?_, ?_,
        ?_⟩
      · rw [Splice.apply, hmasked]
        simp only [List.append_assoc]
      · rw [hmaskedStart, hwritten]
      · rw [hmaskedEnd, hwritten, hmasked]
      · intro hcursor _
        rw [horiginalStart, Int.toNat_natCast]
        rcases hstart.lt_or_eq with hlt | heq
        · exact getLast?_slice hlt hlen
        · rw [← heq, PySeq.slice_natCast, List.drop_of_length_le (by simp), List.append_nil]
          exact hcursor (by rw [horiginalStart, heq])
      · intro hfree
        rw [horiginalEnd, Int.toNat_natCast]
        refine head?_apply hordered fun e' he' heq => ?_
        obtain ⟨o', ho', hlisted⟩ := PySeq.exists_of_forall₂ hedits.flip he'
        exact hfree o' (.tail _ ho') (by rw [hlisted.1, horiginalEnd, heq])
    · have hnext : (pre ++ PySeq.slice source cursor e.start ++ e.insert).length =
          pre.length + (e.start - cursor) + e.insert.length := by
        rw [List.length_append, hwritten]
      rw [← hnext] at hinverse
      obtain ⟨pre', post, hsplit, hstart', hstop', hbefore, hafter⟩ :=
        ih _ hordered hedits hinverse ho
      refine ⟨pre', post, ?_, hstart', hstop', fun _ hfree => ?_, fun hfree => ?_⟩
      · rw [← hsplit, Splice.apply]
        simp only [List.append_assoc]
      · refine hbefore (fun heq => ?_) fun o' ho' => hfree o' (.tail _ ho')
        exact absurd (horiginalEnd.trans heq.symm) (hfree first List.mem_cons_self)
      · exact hafter fun o' ho' => hfree o' (.tail _ ho')

/-- **Where an occurrence stands in the masked text, and between which characters.** -/
theorem TransformResult.Describes.split {R : TransformResult} {text : Text}
    {es : List (Splice.Edit Char)} (hR : R.Describes text es) {o : Occurrence}
    (ho : o ∈ R.occurrences) :
    ∃ pre post, R.text = pre ++ o.masked ++ post ∧ o.Between text R.occurrences pre post := by
  obtain ⟨pre, post, hsplit, hstart, hstop, hbefore, hafter⟩ :=
    split_aux [] hR.ordered hR.lists_edits hR.lists_inverse ho
  exact ⟨pre, post, hR.text_eq.trans hsplit, hstart, hstop, hbefore fun _ => rfl, hafter⟩

theorem touching_append (pre masked post : Text) :
    touching (pre ++ masked ++ post) (pre.length : ℤ) ((pre.length + masked.length : ℕ) : ℤ) =
      pre.getLast?.toList ++ post.head?.toList := by
  rw [touching, Int.toNat_natCast, Int.toNat_natCast, ← List.length_append, List.drop_left,
    List.append_assoc, List.take_left]

/-! ### Planted surrogates -/

variable (rt : Runtime)

/-- The surrogates of a mapping are not empty. -/
theorem surrogate_ne_nil {text : Text} {decisions : List PrivacyDecision} {mode : MaskingMode}
    {sessionSeed : Text} {R : TransformResult}
    (h : buildTransformResult rt text decisions mode sessionSeed = .ok R) :
    ∀ m ∈ R.mappings, m.token ≠ [] ∧ m.synthetic ≠ [] := by
  intro m hm
  obtain ⟨group, -, built, used, used', hbuilt, hdown⟩ := mapping_of_buildTransformResult rt h hm
  obtain ⟨fallback, rfl⟩ := hdown
  obtain ⟨chosen, hchosen, -, -, -, htoken, hsynthetic, -⟩ := buildMapping_eq_ok rt hbuilt
  have hne : tokenFor group.entityId ≠ [] := List.cons_ne_nil _ _
  refine ⟨htoken ▸ hne, ?_⟩
  show built.synthetic ≠ []
  rw [hsynthetic]
  cases chosen with
  | none => exact hne
  | some drawn => exact (acceptSurrogate_iff.1 (chooseSurrogate_eq_some rt hchosen).1).1

/-- The occurrence holds the token of its entity or, for a type that is no name, its synthetic
value. -/
def Planted (R : TransformResult) (o : Occurrence) : Prop :=
  ∃ m ∈ R.mappings, m.entityId = o.entityId ∧
    (o.masked = m.token ∨ (m.type.isNameType = false ∧ o.masked = m.synthetic))

/-- The search for the needles of the mappings reports the occurrence at its coordinates. -/
def Searchable (R : TransformResult) (o : Occurrence) : Prop :=
  ∃ s ∈ findAllSpans rt.unicode R.text (needleReplacements rt R.mappings),
    (s.start : ℤ) = o.maskedStart ∧ (s.stop : ℤ) = o.maskedEnd

instance (R : TransformResult) (o : Occurrence) : Decidable (Planted R o) :=
  inferInstanceAs (Decidable (∃ m ∈ R.mappings, _))

instance (R : TransformResult) (o : Occurrence) : Decidable (Searchable rt R o) :=
  inferInstanceAs (Decidable (∃ s ∈ findAllSpans _ _ _, _))

/-- A planted surrogate is a needle. -/
theorem exists_needle_of_planted {R : TransformResult} {o : Occurrence} (ho : Planted R o)
    (hne : ∀ m ∈ R.mappings, m.token ≠ [] ∧ m.synthetic ≠ []) :
    o.masked ≠ [] ∧ ∃ original, (o.masked, original) ∈ needleReplacements rt R.mappings := by
  obtain ⟨m, hm, -, hmasked⟩ := ho
  obtain ⟨htoken, hsynthetic⟩ := hne m hm
  have hneedles {pair : Text × Text} (hpair : pair ∈ mappingNeedles rt m) :
      pair ∈ needleReplacements rt R.mappings := List.mem_flatMap.mpr ⟨m, hm, hpair⟩
  rcases hmasked with hmasked | ⟨htype, hmasked⟩
  · refine ⟨hmasked ▸ htoken, m.original, hneedles (List.mem_append_left _ ?_)⟩
    rw [if_neg (by simpa using htoken), hmasked]
    exact List.mem_singleton_self _
  · refine ⟨hmasked ▸ hsynthetic, m.original, hneedles (List.mem_append_right _ ?_)⟩
    have htype : (m.type == .fullName || m.type == .cardholder) = false := htype
    rw [htype, if_neg Bool.false_ne_true, if_neg (by simpa using hsynthetic), hmasked]
    exact List.mem_singleton_self _

/-- **A planted surrogate is reported exactly when no word character touches it.** The characters
that touch it in the masked text are those that touch the detected span in the source, unless
another masked span touches it there. -/
theorem searchable_iff {p : Pipeline} {text : Text} {consumer : ConsumerConfig} {sessionSeed : Text}
    {R : TransformResult} (h : p.process text .syntheticMode consumer sessionSeed = .ok R) :
    ∀ o ∈ R.occurrences, Planted R o →
      (Searchable p.runtime R o ↔ ∀ c ∈ touching R.text o.maskedStart o.maskedEnd,
        Demasker.isWordChar p.runtime.unicode c = false) ∧
      ((∀ o' ∈ R.occurrences, o'.originalEnd ≠ o.originalStart ∧ o'.originalStart ≠ o.originalEnd) →
        touching R.text o.maskedStart o.maskedEnd =
          touching text o.originalStart o.originalEnd) := by
  intro o ho hplanted
  obtain ⟨es, hdescribes⟩ := p.process_describes h
  obtain ⟨pre, post, hsplit, hbetween⟩ := hdescribes.split ho
  obtain ⟨hmasked, original, hneedle⟩ :=
    exists_needle_of_planted p.runtime hplanted (surrogate_ne_nil p.runtime h)
  have htouching : touching R.text o.maskedStart o.maskedEnd =
      pre.getLast?.toList ++ post.head?.toList := by
    rw [hbetween.start_eq, hbetween.stop_eq, hsplit, touching_append]
  have hboundary : boundaryOk p.runtime.unicode R.text pre.length (pre.length + o.masked.length) =
      WordBounded.free (Demasker.isWordChar p.runtime.unicode) pre.getLast? post.head? := by
    rw [hsplit, List.append_assoc, boundaryOk_eq, List.drop_left]
  have hfree : boundaryOk p.runtime.unicode R.text pre.length
    (pre.length + o.masked.length) = true ↔
      ∀ c ∈ touching R.text o.maskedStart o.maskedEnd,
        Demasker.isWordChar p.runtime.unicode c = false := by
    rw [hboundary, htouching, WordBounded.free, Bool.and_eq_true, Bool.not_eq_true',
      Bool.not_eq_true',
      List.forall_mem_append]
    cases pre.getLast? <;> cases post.head? <;> simp
  refine ⟨?_, fun hapart => ?_⟩
  · rw [← hfree, Searchable, hbetween.start_eq, hbetween.stop_eq]
    constructor
    · rintro ⟨s, hs, hstart, hstop⟩
      obtain ⟨-, -, -, -, -, -, hok⟩ := mem_findAllSpans.mp hs
      rwa [Int.ofNat_inj.mp hstart, Int.ofNat_inj.mp hstop] at hok
    · intro hok
      refine ⟨⟨pre.length, pre.length + o.masked.length, original⟩, mem_findAllSpans.mpr
        ⟨_, hneedle, hmasked, ?_, rfl, rfl, hok⟩, rfl, rfl⟩
      rw [hsplit, List.append_assoc, List.drop_left]
      exact List.prefix_append _ _
  · rw [htouching, hbetween.before_eq fun o' ho' => (hapart o' ho').1,
      hbetween.after_eq fun o' ho' => (hapart o' ho').2, touching]

/-! ### An address behind a letter -/

/-- A consumer that masks with synthetic values. -/
def syntheticConsumer : ConsumerConfig where
  consumerId := "default".toList
  maskingMode := .syntheticMode

/-- A run of the built-in pipeline on the text, with basic tables and a hash of one value. -/
def syntheticRun (text : Text) : Except PyError TransformResult :=
  (builtinPipeline (basicRuntime 0 zero_lt_two_pow_64)).process text .syntheticMode
    syntheticConsumer "p1".toList

private theorem exists_occurrence {text : Text} {test : TransformResult → Occurrence → Bool}
    (h : (syntheticRun text).toOption.any (fun R => R.occurrences.any (test R)) = true) :
    ∃ R, syntheticRun text = .ok R ∧ ∃ o ∈ R.occurrences, test R o = true := by
  obtain ⟨R, hR, htest⟩ := Except.exists_of_any h
  exact ⟨R, hR, List.any_eq_true.mp htest⟩

/-- In "почтаa@b.ru" the planted address stands behind a letter, and the search misses it. -/
theorem not_searchable_letter :
    ∃ R, syntheticRun "почтаa@b.ru".toList = .ok R ∧ ∃ o ∈ R.occurrences,
      R.text = "почтаivan10@mail.ru".toList ∧ Planted R o ∧
        ¬Searchable (basicRuntime 0 (by decide)) R o := by
  have hrun : (syntheticRun "почтаa@b.ru".toList).toOption.any (fun R => R.occurrences.any fun o =>
      decide (R.text = "почтаivan10@mail.ru".toList) && decide (Planted R o) &&
        !decide (Searchable (basicRuntime 0 (by decide)) R o)) = true := by decide +kernel
  obtain ⟨R, hR, o, ho, htest⟩ := exists_occurrence hrun
  simp only [Bool.and_eq_true, decide_eq_true_eq, Bool.not_eq_true',
    decide_eq_false_iff_not] at htest
  exact ⟨R, hR, o, ho, htest.1.1, htest.1.2, htest.2⟩

/-- In "mail a@b.ru" the planted address stands behind a space. -/
theorem searchable_iff_mail :
    ∃ R, syntheticRun "mail a@b.ru".toList = .ok R ∧ ∃ o ∈ R.occurrences, Planted R o ∧
      Searchable (basicRuntime 0 (by decide)) R o := by
  have hrun : (syntheticRun "mail a@b.ru".toList).toOption.any (fun R => R.occurrences.any fun o =>
      decide (Planted R o) && (touching R.text o.maskedStart o.maskedEnd).all fun c =>
        !Demasker.isWordChar basicUnicode c) = true := by decide +kernel
  obtain ⟨R, hR, o, ho, htest⟩ := exists_occurrence hrun
  simp only [Bool.and_eq_true, decide_eq_true_eq, List.all_eq_true, Bool.not_eq_true'] at htest
  exact ⟨R, hR, o, ho, htest.1, ((searchable_iff hR) o ho htest.1).1.mpr htest.2⟩

end PiiProxy
