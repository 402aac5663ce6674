import PiiProxy.GoService.Fio

/-!
# Detection in the Go service

`Detect` of `go-service/pii/detectors.go` joins what all detectors report and resolves overlaps: the
candidates are sorted by start and falling length, and each one that starts before the end of the
last one kept is dropped. The filter reuses the slice of the candidates for the kept ones.

## Main definitions

* `GoService.filterInPlace`, `GoService.resolveOverlaps`, `GoService.detect`.
* `GoService.keepFrom`: the kept candidates, without reuse of the slice.

## Main results

* `GoService.filterInPlace_eq`: writing to the slice while reading it loses nothing.
* `GoService.resolveOverlaps_spec`: the kept candidates follow each other.
* `GoService.wellFormed_rawCandidates`: every candidate of a detector is a piece of the text.
-/

namespace PiiProxy.GoService

/-! ### Overlap resolution -/

/-- The loop of `resolveOverlaps` over a slice, with `n` elements to read from index `i` on; the
first `k` elements are the kept ones. -/
def filterInPlace : ℕ → ℕ → List Candidate → ℕ → ℤ → List Candidate
  | 0, _, cands, k, _ => cands.take k
  | n + 1, i, cands, k, lastEnd =>
    match cands[i]? with
    | none => cands.take k
    | some c =>
      if lastEnd ≤ c.start then filterInPlace n (i + 1) (cands.set k c) (k + 1) c.stop
      else filterInPlace n (i + 1) cands k lastEnd

/-- The order of `sortCandidates`. -/
def candidateLess (a b : Candidate) : Bool :=
  if a.start ≠ b.start then decide (a.start < b.start)
  else decide (a.stop - a.start > b.stop - b.start)

variable (rt : GoRuntime)

/-- `resolveOverlaps`. -/
def resolveOverlaps (cands : List Candidate) : List Candidate :=
  if cands.length < 2 then cands
  else
    let sorted := rt.sortSlice candidateLess cands
    filterInPlace sorted.length 0 sorted 0 (-1)

/-- What the detectors report, in the order of `Detect`. -/
def rawCandidates (text : GoString) : List Candidate :=
  let u := rt.unicode
  detectEmail text ++ detectPhone text ++ detectInn u text ++ detectCard text ++
    detectPassport u text ++
    detectDeptCode u text ++ detectCvvPin u text ++ detectLicense u text ++ detectDates u text ++
    detectAddress u text ++ detectBirthPlace text ++ detectCitizenship u text ++
      detectIssuer text ++
    detectCardholder u text ++ detectFIO u text

/-- `Detect`. -/
def detect (text : GoString) : List Candidate := resolveOverlaps rt (rawCandidates rt text)

/-! ### The kept candidates -/

/-- The candidates that start at `lastEnd` or behind it, and behind each one kept before. -/
def keepFrom : ℤ → List Candidate → List Candidate
  | _, [] => []
  | lastEnd, c :: cs =>
    if lastEnd ≤ c.start then c :: keepFrom c.stop cs else keepFrom lastEnd cs

/-- **The filter in place keeps what a filter into a new slice keeps.** The kept candidates `out`
never reach the ones still to be read. -/
theorem filterInPlace_eq (out passed rest : List Candidate) (lastEnd : ℤ) :
    filterInPlace rest.length (out.length + passed.length)
      (out ++ passed ++ rest) out.length lastEnd =
      out ++ keepFrom lastEnd rest := by
  induction rest generalizing out passed lastEnd with
  | nil => simp [filterInPlace, keepFrom]
  | cons c rest ih =>
    have hread : (out ++ passed ++ c :: rest)[out.length + passed.length]? = some c := by
      rw [← List.length_append, List.getElem?_append_right le_rfl, Nat.sub_self]
      rfl
    rw [List.length_cons, filterInPlace, hread, keepFrom]
    by_cases hkeep : lastEnd ≤ c.start
    · simp only [hkeep, ↓reduceIte]
      have hright : out ++ c :: keepFrom c.stop rest = out ++ [c] ++ keepFrom c.stop rest :=
        List.append_cons ..
      cases passed with
      | nil =>
        have hset : (out ++ [] ++ c :: rest).set out.length c = (out ++ [c]) ++ [] ++
          rest := by simp
        have hnext := ih (out ++ [c]) [] c.stop
        rw [List.length_append, List.length_singleton] at hnext
        rw [hset, hright]
        exact hnext
      | cons p passed =>
        have hset : (out ++ p :: passed ++ c :: rest).set out.length c =
            (out ++ [c]) ++ (passed ++ [c]) ++ rest := by simp
        have hnext := ih (out ++ [c]) (passed ++ [c]) c.stop
        have hindex : out.length + (p :: passed).length + 1 =
            (out ++ [c]).length + (passed ++ [c]).length := by
          simp only [List.length_cons, List.length_append, List.length_nil]
          omega
        rw [hset, hright, hindex, ← hnext, List.length_append, List.length_singleton]
    · simp only [hkeep, ↓reduceIte]
      have hnext := ih out (passed ++ [c]) lastEnd
      rw [List.length_append, List.length_singleton, ← Nat.add_assoc, ← List.append_assoc,
        List.append_assoc, List.singleton_append] at hnext
      exact hnext

theorem keepFrom_sublist (lastEnd : ℤ) (cands : List Candidate) :
    (keepFrom lastEnd cands).Sublist cands := by
  induction cands generalizing lastEnd with
  | nil => exact List.Sublist.refl _
  | cons c cands ih =>
    rw [keepFrom]
    split_ifs
    · exact (ih c.stop).cons_cons c
    · exact (ih lastEnd).cons c

/-- Each kept candidate starts behind all those kept before it. -/
theorem pairwise_keepFrom (lastEnd : ℤ) {cands : List Candidate}
    (hcands : ∀ c ∈ cands, c.start < c.stop) :
    (∀ c ∈ keepFrom lastEnd cands, lastEnd ≤ c.start) ∧
      (keepFrom lastEnd cands).Pairwise fun a b => a.stop ≤ b.start := by
  induction cands generalizing lastEnd with
  | nil => simp [keepFrom]
  | cons c cands ih =>
    have htail : ∀ c ∈ cands, c.start < c.stop := fun c hc => hcands c (.tail _ hc)
    rw [keepFrom]
    split_ifs with hkeep
    · obtain ⟨hafter, hpairwise⟩ := ih c.stop htail
      refine ⟨?_, List.pairwise_cons.2 ⟨hafter, hpairwise⟩⟩
      rintro d (_ | ⟨_, hd⟩)
      · exact hkeep
      · exact hkeep.trans ((hcands c List.mem_cons_self).le.trans (hafter d hd))
    · exact ih lastEnd htail

/-- **Overlap resolution keeps candidates that follow each other.** -/
theorem resolveOverlaps_spec {cands : List Candidate} (hcands : ∀ c ∈ cands, c.start < c.stop) :
    (∀ c ∈ resolveOverlaps rt cands, c ∈ cands) ∧
      (resolveOverlaps rt cands).Pairwise fun a b => a.stop ≤ b.start := by
  rw [resolveOverlaps]
  split_ifs with hshort
  · refine ⟨fun c hc => hc, ?_⟩
    match cands, hshort with
    | [], _ => exact List.Pairwise.nil
    | [c], _ => exact List.pairwise_singleton _ _
  · have hperm := rt.sortSlice_perm candidateLess cands
    have hfilter := filterInPlace_eq [] [] (rt.sortSlice candidateLess cands) (-1)
    simp only [List.nil_append, List.length_nil, Nat.add_zero] at hfilter
    simp only [hfilter]
    refine ⟨fun c hc => hperm.mem_iff.1 ((keepFrom_sublist _ _).subset hc), ?_⟩
    exact (pairwise_keepFrom (-1) fun c hc => hcands c (hperm.mem_iff.1 hc)).2

/-! ### Every candidate is a piece of the text -/

section

variable {text : GoString} {re : Regex Char}

theorem isPiece_sub {m : ℕ × ℕ} (hm : m.1 < m.2 ∧ m.2 ≤ text.length) :
    Regex.IsPiece text m.1 (sub text m.1 m.2) := by
  have hlen : m.1 + (sub text m.1 m.2).length = m.2 := by
    rw [sub, List.length_drop, List.length_take]
    omega
  exact ⟨hlen.le.trans hm.2, by rw [hlen]; rfl⟩

theorem trimRight_begins (cutset : String) (s : GoString) : trimRight cutset s <+: s := by
  have h := List.dropWhile_suffix (l := s.reverse) fun b => (str cutset).contains b
  rwa [← List.reverse_prefix, List.reverse_reverse] at h

/-- A trimmed match is well-formed when something of it is left. -/
theorem wellFormed_trimmedAt (cutset : String) (type : PIIType) {m : ℕ × ℕ}
    (hm : m.1 < m.2 ∧ m.2 ≤ text.length) (hne : trimRight cutset (sub text m.1 m.2) ≠ []) :
    (trimmedAt cutset type text m).WellFormed text := by
  obtain ⟨hle, heq⟩ := Regex.IsPiece.shorten (isPiece_sub hm) (trimRight_begins cutset _)
  have hpos := List.length_pos_of_ne_nil hne
  exact ⟨Int.natCast_nonneg _, Int.ofNat_lt.2 (Nat.lt_add_of_pos_right hpos),
    Int.ofNat_le.2 hle, heq⟩

/-- The first rune of a match is one that the expression starts with. -/
theorem trimRight_ne_nil {p : Char → Prop} (hstart : re.StartsIn p) (hre : 0 < re.minLen)
    (cutset : String)
    (hcutset : ∀ b ∈ str cutset, b < 0x80 ∧ ¬p (Char.ofNat b.toNat)) {m : ℕ × ℕ}
    (hm : m ∈ findAllStringIndex re text) : trimRight cutset (sub text m.1 m.2) ≠ [] := by
  obtain ⟨m, hmatch, rfl⟩ := List.mem_map.1 hm
  obtain ⟨⟨hlen, hpiece⟩, hstop, hmin⟩ := Regex.isPiece_of_mem_finditer hmatch
  obtain ⟨a, ha, hpa⟩ := Regex.head_of_mem_finditer hstart hre hmatch
  have hsub := sub_offset (s := text) (i := m.start) (j := m.stop) (by omega)
  have hchars : (((runes text).take m.stop).drop m.start).map Prod.fst = m.text := by
    rw [List.map_drop, List.map_take, hpiece, ← hstop]
    rfl
  -- The first rune of the match and its first byte.
  cases hrunes : ((runes text).take m.stop).drop m.start with
  | nil =>
    rw [hrunes] at hchars
    rw [← hchars] at ha
    cases ha
  | cons r rs =>
    have hmem : r ∈ runes text := by
      have hpart : r ∈ ((runes text).take m.stop).drop m.start := by
        rw [hrunes]
        exact List.mem_cons_self
      exact List.mem_of_mem_take (List.mem_of_mem_drop hpart)
    have hr : r.1 = a := by
      rw [hrunes] at hchars
      rw [← hchars] at ha
      exact Option.some.inj ha
    obtain ⟨b, bs, hbytes⟩ := List.exists_cons_of_ne_nil (ne_nil_of_mem_runes hmem)
    rw [hsub, hrunes, bytesOf, List.flatMap_cons, hbytes]
    intro hnil
    have hall : ∀ x ∈ (b :: bs ++ rs.flatMap Prod.snd).reverse, (str cutset).contains x = true :=
      List.dropWhile_eq_nil_iff.1 (List.reverse_eq_nil_iff.1 hnil)
    have hb : b ∈ str cutset := List.contains_iff_mem.1 (hall b (by simp))
    obtain ⟨hascii, hno⟩ := hcutset b hb
    have heq := eq_of_mem_runes hmem hascii (by rw [hbytes]; rfl)
    exact hno (heq ▸ hr.symm ▸ hpa)

theorem findAllGroupIndex_bounds {b : ℕ → ℕ} (hb : re.respects b = true) (hb1 : 0 < b 1)
    {m : ℕ × ℕ} (hm : m ∈ findAllGroupIndex re text) : m.1 < m.2 ∧ m.2 ≤ text.length := by
  obtain ⟨m', hmatch, hm⟩ := List.mem_filterMap.1 hm
  obtain ⟨⟨start, t⟩, hgroup, rfl⟩ := Option.map_eq_some_iff.1 hm
  obtain ⟨⟨hlen, -⟩, hpos⟩ := Regex.group_of_mem_finditer hb hmatch hgroup
  rw [chars, List.length_map] at hlen
  exact ⟨offset_lt (by show start < start + t.length; omega) hlen, offset_le_length text _⟩

/-- An occurrence of a word is the word. -/
theorem occurrencesFrom_spec {word : GoString} (hword : word ≠ []) (fuel idx : ℕ) {m : ℕ × ℕ}
    (hm : m ∈ occurrencesFrom word text fuel idx) :
    (m.1 < m.2 ∧ m.2 ≤ text.length) ∧ sub text m.1 m.2 = word := by
  induction fuel generalizing idx with
  | zero => cases hm
  | succ fuel ih =>
    rw [occurrencesFrom] at hm
    split at hm
    · cases hm
    · rename_i p hindex
      rcases List.mem_cons.1 hm with rfl | hm
      · obtain ⟨t, u, hdrop, rfl, -⟩ := Go.index_eq_some hindex
        have hpos : 0 < word.length := List.length_pos_of_ne_nil hword
        have hlen := congrArg List.length hdrop
        simp only [List.length_drop, List.length_append] at hlen
        have htext : text = text.take idx ++ t ++ (word ++ u) := by
          rw [List.append_assoc, ← hdrop, List.take_append_drop]
        have hstart : idx + t.length = (text.take idx ++ t).length := by
          rw [List.length_append, List.length_take]
          omega
        refine ⟨⟨by show idx + t.length < idx + t.length + word.length; omega,
          by show idx + t.length + word.length ≤ text.length; omega⟩, ?_⟩
        show sub text (idx + t.length) (idx + t.length + word.length) = word
        rw [hstart, sub]
        generalize text.take idx ++ t = x at htext
        rw [htext, List.take_length_add_append, List.drop_left, List.take_left]
      · exact ih _ hm

variable (u : GoUnicode) (text)

theorem wellFormed_detectEmail : ∀ c ∈ detectEmail text, c.WellFormed text := by
  intro c hc
  unfold detectEmail at hc
  split_ifs at hc
  · exact wellFormed_matching .email (of_decide_eq_true rfl) text _ c hc
  · cases hc

theorem wellFormed_detectPhone : ∀ c ∈ detectPhone text, c.WellFormed text := by
  intro c hc
  rcases List.mem_append.1 hc with hc | hc
  · have hc : c ∈ matching .phone rePhone text (digitBounded text) := hc
    exact wellFormed_matching .phone (of_decide_eq_true rfl) text _ c hc
  · exact wellFormed_matching .phone (of_decide_eq_true rfl) text _ c hc

/-- Several expressions with one test. -/
theorem wellFormed_flatMap_matching (type : PIIType) {res : List (Regex Char)}
    (hres : ∀ re ∈ res, 0 < re.minLen) (test : ℕ × ℕ → Bool) :
    ∀ c ∈ res.flatMap fun re => matching type re text test, c.WellFormed text := by
  intro c hc
  obtain ⟨re, hre, hc⟩ := List.mem_flatMap.1 hc
  exact wellFormed_matching type (hres re hre) text test c hc

theorem wellFormed_detectPassport : ∀ c ∈ detectPassport u text, c.WellFormed text := by
  intro c hc
  rcases List.mem_append.1 hc with hc | hc
  · rcases List.mem_append.1 hc with hc | hc
    · exact wellFormed_matching .passport (of_decide_eq_true rfl) text _ c hc
    · exact wellFormed_matching .passport (of_decide_eq_true rfl) text _ c hc
  · exact wellFormed_flatMap_matching text .passport (by decide) _ c hc

theorem wellFormed_detectCvvPin : ∀ c ∈ detectCvvPin u text, c.WellFormed text := by
  intro c hc
  obtain ⟨m, hm, hc⟩ := List.mem_flatMap.1 hc
  have hmatch : m ∈ findAllStringIndex reCvvPin text := List.mem_of_mem_filter hm
  have hbounds := findAllStringIndex_bounds (of_decide_eq_true rfl) hmatch
  split_ifs at hc
  · rw [List.mem_singleton.1 hc]
    exact wellFormed_candidateAt _ hbounds
  · rw [List.mem_singleton.1 hc]
    exact wellFormed_candidateAt _ hbounds
  · cases hc

theorem wellFormed_detectDates : ∀ c ∈ detectDates u text, c.WellFormed text := by
  intro c hc
  obtain ⟨re, hre, hc⟩ := List.mem_flatMap.1 hc
  obtain ⟨m, hm, hc⟩ := List.mem_flatMap.1 hc
  have hmin : ∀ re ∈ [reDateNumeric, reDateISO, reDateText], 0 < re.minLen := by decide
  have hbounds := findAllStringIndex_bounds (hmin re hre) (List.mem_of_mem_filter hm)
  split_ifs at hc
  · rw [List.mem_singleton.1 hc]
    exact wellFormed_candidateAt _ hbounds
  · rw [List.mem_singleton.1 hc]
    exact wellFormed_candidateAt _ hbounds
  · cases hc

theorem wellFormed_detectAddress : ∀ c ∈ detectAddress u text, c.WellFormed text := by
  intro c hc
  rcases List.mem_append.1 hc with hc | hc
  · exact wellFormed_flatMap_matching text .address (by decide) _ c hc
  · exact wellFormed_matching .address (of_decide_eq_true rfl) text _ c hc

theorem wellFormed_detectBirthPlace : ∀ c ∈ detectBirthPlace text, c.WellFormed text := by
  intro c hc
  obtain ⟨m, hm, rfl⟩ := List.mem_map.1 hc
  exact wellFormed_candidateAt _
    (findAllGroupIndex_bounds (b := fun n => if n = 1 then 1 else 0) (of_decide_eq_true rfl)
      Nat.one_pos hm)

theorem wellFormed_detectCitizenship : ∀ c ∈ detectCitizenship u text, c.WellFormed text := by
  intro c hc
  unfold detectCitizenship at hc
  split_ifs at hc
  · obtain ⟨name, hname, hc⟩ := List.mem_flatMap.1 hc
    obtain ⟨m, hm, rfl⟩ := List.mem_map.1 hc
    have hne : ∀ name ∈ citizenships, str name ≠ [] := by decide
    obtain ⟨hbounds, hvalue⟩ := occurrencesFrom_spec (hne name hname) _ 0
      (List.mem_of_mem_filter hm)
    have h := wellFormed_candidateAt .citizenship hbounds
    exact ⟨h.start_nonneg, h.start_lt_stop, h.stop_le_length, hvalue.symm.trans h.value_eq⟩
  · cases hc

private theorem startsIn_lit {s : String}
    (hs : s.toList.head?.any (fun c => decide (0x80 ≤ c.toNat)) = true) :
    (Pat.lit s).StartsIn fun c => 0x80 ≤ c.toNat := by
  rw [Pat.lit]
  cases hlist : s.toList with
  | nil =>
    rw [hlist] at hs
    cases hs
  | cons a rest =>
    rw [hlist] at hs
    exact .inl fun c hc => beq_iff_eq.1 hc ▸ of_decide_eq_true hs

theorem startsIn_reIssuer : reIssuer.StartsIn fun c => 0x80 ≤ c.toNat :=
  .inl ⟨.inl (startsIn_lit (by decide)), startsIn_lit (by decide), startsIn_lit (by decide),
    startsIn_lit (by decide), .inl (startsIn_lit (by decide))⟩

theorem wellFormed_detectIssuer : ∀ c ∈ detectIssuer text, c.WellFormed text := by
  intro c hc
  obtain ⟨m, hm, rfl⟩ := List.mem_map.1 hc
  have hne : trimRight " \t." (sub text m.1 m.2) ≠ [] :=
    trimRight_ne_nil startsIn_reIssuer (of_decide_eq_true rfl) _ (by decide +kernel) hm
  exact wellFormed_trimmedAt _ _ (findAllStringIndex_bounds (of_decide_eq_true rfl) hm) hne

/-! ### Names -/

/-- A word of the text, in front of the words after it. -/
def Tok.Within (text : GoString) (t : Tok) : Prop := t.s < t.e ∧ t.e ≤ text.length

theorem nameToks_spec :
    (nameToks u text).Pairwise (fun t t' => t.e ≤ t'.s) ∧ ∀ t ∈ nameToks u text, t.Within text := by
  have htok {m : ℕ × ℕ} {t : Tok}
    (ht : (if roleWords.any fun r => str r == toLower u (sub text m.1 m.2)
      then none else (classifyWord u (sub text m.1 m.2)).map fun x =>
        (⟨m.1, m.2, x.1, x.2⟩ : Tok)) =
        some t) : t.s = m.1 ∧ t.e = m.2 := by
    split_ifs at ht
    obtain ⟨x, -, rfl⟩ := Option.map_eq_some_iff.1 ht
    exact ⟨rfl, rfl⟩
  constructor
  · refine (findAllStringIndex_pairwise reCapWord text).filterMap _ fun m m' hle t ht t' ht' => ?_
    rw [(htok ht).2, (htok ht').1]
    exact hle
  · intro t ht
    obtain ⟨m, hm, hmt⟩ := List.mem_filterMap.1 ht
    rw [Tok.Within, (htok hmt).1, (htok hmt).2]
    exact findAllStringIndex_bounds (of_decide_eq_true rfl) hm

theorem continueRun_sublist (limit : ℕ) (t : Tok) (ts : List Tok) :
    (continueRun u text limit t ts).Sublist ts := by
  induction limit generalizing t ts with
  | zero => exact List.nil_sublist ts
  | succ limit ih =>
    cases ts with
    | nil => exact List.Sublist.refl _
    | cons t' ts =>
      rw [continueRun]
      split_ifs
      · exact List.nil_sublist _
      · exact (ih t' ts).cons_cons t'

theorem wellFormed_runCandidates (skip : ℕ) {toks : List Tok}
    (hpairwise : toks.Pairwise fun t t' => t.e ≤ t'.s) (hwithin : ∀ t ∈ toks, t.Within text) :
    ∀ c ∈ runCandidates u text skip toks, c.WellFormed text := by
  induction toks generalizing skip with
  | nil =>
    intro c hc
    cases skip <;> cases hc
  | cons t ts ih =>
    obtain ⟨hafter, hpairwise⟩ := List.pairwise_cons.1 hpairwise
    have hrest (skip) := ih skip hpairwise fun t' ht' => hwithin t' (.tail _ ht')
    cases skip with
    | succ skip => exact hrest skip
    | zero =>
      intro c hc
      rw [runCandidates] at hc
      split at hc
      · exact hrest 0 c hc
      · rename_i t' more hrun
        simp only at hc
        split_ifs at hc
        · rcases List.mem_cons.1 hc with rfl | hc
          · have hlast : more.getLastD t' ∈ ts := by
              have hmem : more.getLastD t' ∈ t' :: more := List.getLastD_mem_cons
              rw [← hrun] at hmem
              exact (continueRun_sublist text u 2 t ts).subset hmem
            obtain ⟨hlt, hle⟩ := hwithin _ (.tail _ hlast)
            have hfirst := hwithin t List.mem_cons_self
            have hbounds : t.s < (more.getLastD t').e ∧ (more.getLastD t').e ≤ text.length :=
              ⟨by have := hafter _ hlast; have := hfirst.1; omega, hle⟩
            have h := wellFormed_candidateAt .fullName (m := (t.s, (more.getLastD t').e)) hbounds
            exact ⟨h.start_nonneg, h.start_lt_stop, h.stop_le_length, h.value_eq⟩
          · exact hrest _ c hc
        · exact hrest 0 c hc

theorem wellFormed_initialsCandidates {re : Regex Char} (hre : 0 < re.minLen) :
    ∀ c ∈ initialsCandidates u re text, c.WellFormed text := by
  intro c hc
  obtain ⟨m, hm, hc⟩ := List.mem_filterMap.1 hc
  simp only at hc
  split_ifs at hc with hsurname hsuffix
  have hne : trimRight " " (sub text m.1 m.2) ≠ [] := by
    intro hnil
    rw [hnil] at hsurname
    exact hsurname rfl
  have h := wellFormed_trimmedAt " " .fullName (findAllStringIndex_bounds hre hm) hne
  cases hc
  exact ⟨h.start_nonneg, h.start_lt_stop, h.stop_le_length, h.value_eq⟩

theorem wellFormed_detectFIO : ∀ c ∈ detectFIO u text, c.WellFormed text := by
  intro c hc
  rcases List.mem_append.1 hc with hc | hc
  · obtain ⟨hpairwise, hwithin⟩ := nameToks_spec text u
    exact wellFormed_runCandidates text u 0 hpairwise hwithin c hc
  · obtain ⟨re, hre, hc⟩ := List.mem_flatMap.1 hc
    have hmin : ∀ re ∈ [reInitialsSurname, reSurnameInitials], 0 < re.minLen := by decide
    exact wellFormed_initialsCandidates text u (hmin re hre) c hc

end

/-- **Every candidate of a detector is a piece of the text that is not empty.** -/
theorem wellFormed_rawCandidates (text : GoString) :
    ∀ c ∈ rawCandidates rt text, c.WellFormed text := by
  intro c hc
  simp only [rawCandidates, List.mem_append] at hc
  rcases hc with (((((((((((((hc | hc) | hc) | hc) | hc) | hc) | hc) | hc) | hc) | hc) | hc) | hc) |
    hc) | hc) | hc
  · exact wellFormed_detectEmail text c hc
  · exact wellFormed_detectPhone text c hc
  · exact wellFormed_matching .inn (of_decide_eq_true rfl) text _ c hc
  · exact wellFormed_matching .cardNumber (of_decide_eq_true rfl) text _ c hc
  · exact wellFormed_detectPassport text _ c hc
  · exact wellFormed_matching .departmentCode (of_decide_eq_true rfl) text _ c hc
  · exact wellFormed_detectCvvPin text _ c hc
  · exact wellFormed_flatMap_matching text .driverLicense (by decide) _ c hc
  · exact wellFormed_detectDates text _ c hc
  · exact wellFormed_detectAddress text _ c hc
  · exact wellFormed_detectBirthPlace text c hc
  · exact wellFormed_detectCitizenship text _ c hc
  · exact wellFormed_detectIssuer text c hc
  · exact wellFormed_matching .cardholder (of_decide_eq_true rfl) text _ c hc
  · exact wellFormed_detectFIO text _ c hc

end PiiProxy.GoService
