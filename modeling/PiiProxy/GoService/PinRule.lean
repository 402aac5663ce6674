import PiiProxy.GoService.Context
import PiiProxy.Policies.Engine

/-!
# The rule about PINs in Go and in Python

A PIN stays masked when a card number is nearby. The Python service measures the gap between the two
spans in characters and looks for a blank line in it. The Go service measures the whole stretch from
the start of the one span to the end of the other, in bytes, and looks for a blank line in all of
it. So whatever the Go service links, the Python service links, and not the other way around.

## Main definitions

* `byteOffset`: the place of a character in the bytes of a text.
* `GoService.keepsMasked`: the Go rule keeps a PIN masked because of one card number.
* `SpanOf`: a span of a text, with its gap and its stretch to another one.
* `PinAlike`: both services keep the PIN masked because of the card number, or both do not.

## Main results

* `GoService.applyRelationshipRules_pin`: a PIN stays masked when some card number is linked to it.
* `pinAlike_iff`: when the two services agree.
-/

namespace PiiProxy

/-! ### Places in characters and in bytes -/

/-- The number of bytes before the character at position `i`. -/
def byteOffset (text : Text) (i : ℕ) : ℕ := (Utf8.encode (text.take i)).length

/-- The bytes between two characters are those of the piece between them. -/
theorem byteOffset_sub (text : Text) {i j : ℕ} (hij : i ≤ j) :
    byteOffset text j = byteOffset text i + (Utf8.encode (PySeq.slice text i j)).length ∧
      GoService.sub (Utf8.encode text) (byteOffset text i) (byteOffset text j) =
        Utf8.encode (PySeq.slice text i j) := by
  have hencode : Utf8.encode (text.take j) =
      Utf8.encode (text.take i) ++ Utf8.encode (PySeq.slice text i j) := by
    rw [← PySeq.take_append_slice text hij, Utf8.encode_append]
  refine ⟨by rw [byteOffset, hencode, List.length_append, byteOffset], ?_⟩
  have htext : Utf8.encode text = Utf8.encode (text.take j) ++ Utf8.encode (text.drop j) := by
    rw [← Utf8.encode_append, List.take_append_drop]
  rw [GoService.sub, byteOffset, byteOffset, htext, List.take_left, hencode, List.drop_left]

theorem byteOffset_lt_iff (text : Text) {i j : ℕ} (hi : i ≤ text.length) (hj : j ≤ text.length) :
    byteOffset text i < byteOffset text j ↔ i < j := by
  have hlt {i j : ℕ} (hij : i < j) (hj : j ≤ text.length) :
    byteOffset text i < byteOffset text j := by
    have hne : PySeq.slice text (i : ℤ) j ≠ [] := by
      refine List.ne_nil_of_length_pos ?_
      rw [PySeq.length_slice_natCast text hj]
      omega
    have hpos := List.length_pos_of_ne_nil (Utf8.encode_ne_nil hne)
    rw [(byteOffset_sub text hij.le).1]
    omega
  refine ⟨fun h => ?_, fun h => hlt h hj⟩
  rcases lt_trichotomy i j with hij | rfl | hji
  · exact hij
  · exact absurd h (lt_irrefl _)
  · exact absurd (h.trans (hlt hji hi)) (lt_irrefl _)

/-- A text is found in the bytes of another one when it is found in the text. -/
theorem contains_encode {needle : Text} (hneedle : needle ≠ []) (s : Text) :
    GoService.contains (Utf8.encode s) (Utf8.encode needle) = PySeq.hasSub needle s := by
  rw [Bool.eq_iff_iff, GoService.contains, Go.isSome_index_iff (Utf8.encode_ne_nil hneedle),
    Utf8.encode_infix_iff hneedle, PySeq.hasSub_iff]

/-! ### The rule of the Go service -/

namespace GoService

/-- **A masked PIN stays masked when some card number of the list is linked to it.** -/
theorem applyRelationshipRules_pin (text : GoString) {ds : List Decided} {i : ℕ} {d : Decided}
    (hd : ds[i]? = some d) (hpin : d.candidate.type = .pin) (hmask : d.decision = .mask) :
    ((applyRelationshipRules text ds)[i]?).any (fun d => d.decision == .mask) =
      ((ds.map Decided.candidate).filter fun c => c.type == .cardNumber).any
        (isLinked text d.candidate) := by
  simp only [applyRelationshipRules, List.getElem?_map, hd, Option.map_some, Option.any_some]
  generalize (((ds.map Decided.candidate).filter fun c => c.type == .cardNumber).any
    (isLinked text d.candidate)) = linked
  cases linked with
  | false => rw [if_pos ⟨hpin, rfl⟩]; rfl
  | true =>
    rw [if_neg fun h => Bool.false_ne_true h.2, hmask]
    rfl

/-- The rule keeps the PIN masked because of the card number: it does when this is the only one. -/
def keepsMasked (text : GoString) (pin card : Candidate) : Bool :=
  (applyRelationshipRules text [⟨pin, .mask, []⟩, ⟨card, .mask, []⟩]).head?.any fun d =>
    d.decision == .mask

theorem keepsMasked_eq (text : GoString) {pin card : Candidate} (hpin : pin.type = .pin)
    (hcard : card.type = .cardNumber) : keepsMasked text pin card = isLinked text pin card := by
  have hrule := @applyRelationshipRules_pin text [⟨pin, .mask, []⟩, ⟨card, .mask, []⟩] 0
    ⟨pin, .mask, []⟩
    rfl hpin rfl
  have hcards : ([pin, card].filter fun c => c.type == .cardNumber) = [card] := by
    rw [List.filter_cons_of_neg (by rw [hpin]; decide),
      List.filter_cons_of_pos (by rw [hcard]; rfl)]
    rfl
  rw [keepsMasked, List.head?_eq_getElem?, hrule]
  change ([pin, card].filter fun c => c.type == .cardNumber).any (isLinked text pin) = _
  rw [hcards, List.any_cons, List.any_nil, Bool.or_false]

end GoService

/-! ### When the services agree -/

/-- A span of a text, in characters. -/
structure SpanOf (text : Text) where
  start : ℕ
  stop : ℕ
  start_lt_stop : start < stop
  stop_le_length : stop ≤ text.length

namespace SpanOf

variable {text : Text}

/-- The candidate that the Go service makes of the same characters. -/
def toGo (s : SpanOf text) (type : PIIType) : GoService.Candidate :=
  GoService.candidateAt type (Utf8.encode text) (byteOffset text s.start, byteOffset text s.stop)

/-- The text between two spans. -/
def gap (s t : SpanOf text) : Text := PySeq.slice text (min s.stop t.stop) (max s.start t.start)

/-- The text from the start of the one span to the end of the other. -/
def stretch (s t : SpanOf text) : Text := PySeq.slice text (min s.start t.start) (max s.stop t.stop)

end SpanOf

variable {text : Text}

/-- Both services keep the PIN masked because of the card number, or both do not. -/
def PinAlike (pin card : SpanOf text) : Prop :=
  GoService.keepsMasked (Utf8.encode text) (pin.toGo .pin) (card.toGo .cardNumber) =
    defaultRelationshipRules.head?.any fun rule =>
      isNearby rule text pin.start pin.stop card.start card.stop

instance (pin card : SpanOf text) : Decidable (PinAlike pin card) :=
  inferInstanceAs (Decidable (_ = _))

/-- The Python rule: the gap is short, in characters, and has no blank line. -/
theorem isNearby_iff (rule : RelationshipRule) (pin card : SpanOf text) :
    isNearby rule text pin.start pin.stop card.start card.stop = true ↔
      (pin.gap card).length ≤ rule.windowChars ∧ ¬['\n', '\n'] <:+: pin.gap card := by
  have hpin := pin.start_lt_stop
  have hcard := card.start_lt_stop
  have hpinStop := pin.stop_le_length
  have hcardStop := card.stop_le_length
  have hgap : (pin.gap card).length =
      max pin.start card.start - min pin.stop card.stop := by
    rw [SpanOf.gap]
    exact_mod_cast PySeq.length_slice_natCast text (by omega)
  have hempty : ¬min pin.stop card.stop < max pin.start card.start → pin.gap card = [] := by
    intro h
    exact List.length_eq_zero_iff.1 (by omega)
  have hslice : PySeq.slice text ↑(min pin.stop card.stop) ↑(max pin.start card.start) =
      pin.gap card := by
    rw [SpanOf.gap]
    push_cast
    rfl
  unfold isNearby
  simp only [hslice, PySeq.hasSub_iff]
  split_ifs with hblank
  · exact iff_of_false (fun h => h) fun h => h.2 hblank.2
  · rw [decide_eq_true_eq]
    have hno : ¬['\n', '\n'] <:+: pin.gap card := by
      intro hinside
      by_cases hlt : min pin.stop card.stop < max pin.start card.start
      · exact hblank ⟨hlt, hinside⟩
      · rw [hempty hlt, List.infix_nil] at hinside
        exact List.cons_ne_nil _ _ hinside
    rw [and_iff_left hno, hgap]
    omega

/-- The test of the Go rule between two characters of the text. -/
private theorem linked_iff {i j : ℕ} (hij : i ≤ j) :
    (decide ((byteOffset text j : ℤ) - byteOffset text i ≤ 300) &&
      !GoService.contains (GoService.sub (Utf8.encode text) (byteOffset text i) (byteOffset text j))
        (GoService.str "\n\n")) = true ↔
      (Utf8.encode (PySeq.slice text i j)).length ≤ 300 ∧
      ¬['\n', '\n'] <:+: PySeq.slice text i j := by
  obtain ⟨hlength, hsub⟩ := byteOffset_sub text hij
  have hblank : GoService.contains (Utf8.encode (PySeq.slice text i j)) (GoService.str "\n\n") =
      PySeq.hasSub ['\n', '\n'] (PySeq.slice text i j) := contains_encode (List.cons_ne_nil _ _) _
  rw [hsub, hblank, Bool.and_eq_true, decide_eq_true_eq, Bool.not_eq_true',
    Bool.eq_false_iff, ne_eq,
    PySeq.hasSub_iff, hlength]
  refine and_congr_left fun _ => ?_
  omega

/-- The Go rule, for spans that are disjoint: the whole stretch is short, in bytes, and has no blank
line. -/
theorem isLinked_iff (pin card : SpanOf text)
    (hdisjoint : pin.stop ≤ card.start ∨ card.stop ≤ pin.start) :
    GoService.isLinked (Utf8.encode text) (pin.toGo .pin) (card.toGo .cardNumber) = true ↔
      (Utf8.encode (pin.stretch card)).length ≤ 300 ∧ ¬['\n', '\n'] <:+: pin.stretch card := by
  have hpin := pin.start_lt_stop
  have hcard := card.start_lt_stop
  have hpinStop := pin.stop_le_length
  have hcardStop := card.stop_le_length
  have horder : (pin.toGo .pin).start < (card.toGo .cardNumber).start ↔ pin.start < card.start := by
    rw [← byteOffset_lt_iff text (by omega) (by omega)]
    exact Int.ofNat_lt
  rw [GoService.isLinked]
  by_cases hfirst : pin.start < card.start
  · have hstretch : pin.stretch card = PySeq.slice text pin.start card.stop := by
      rw [SpanOf.stretch, min_eq_left (by omega), max_eq_right (by omega)]
    rw [if_pos (horder.2 hfirst), hstretch, ← linked_iff (by omega)]
    rfl
  · have hstretch : pin.stretch card = PySeq.slice text card.start pin.stop := by
      rw [SpanOf.stretch, min_eq_right (by omega), max_eq_left (by omega)]
    rw [if_neg fun h => hfirst (horder.1 h), hstretch, ← linked_iff (by omega)]
    rfl

/-- The gap is a piece of the stretch. -/
theorem SpanOf.gap_infix_stretch (s t : SpanOf text)
    (hdisjoint : s.stop ≤ t.start ∨ t.stop ≤ s.start) :
    s.gap t <:+: s.stretch t := by
  have hs := s.start_lt_stop
  have ht := t.start_lt_stop
  have hsplit : s.stretch t = PySeq.slice text ↑(min s.start t.start) ↑(min s.stop t.stop) ++
      PySeq.slice text ↑(min s.stop t.stop) ↑(max s.start t.start) ++
      PySeq.slice text ↑(max s.start t.start) ↑(max s.stop t.stop) := by
    rw [PySeq.slice_append_slice text (by omega) (by omega),
      PySeq.slice_append_slice text (by omega) (by omega), SpanOf.stretch]
    push_cast
    rfl
  rw [hsplit, SpanOf.gap]
  push_cast
  exact ⟨_, _, rfl⟩

/-- **When Go and Python agree about a PIN and a card number.** They do exactly when the gap is too
long or has a blank line, so that neither links the two, or the whole stretch has at most 300 bytes
and no blank line, so that both do. -/
theorem pinAlike_iff (pin card : SpanOf text)
    (hdisjoint : pin.stop ≤ card.start ∨ card.stop ≤ pin.start) :
    PinAlike pin card ↔
      (300 < (pin.gap card).length ∨ ['\n', '\n'] <:+: pin.gap card) ∨
      (Utf8.encode (pin.stretch card)).length ≤ 300 ∧ ¬['\n', '\n'] <:+: pin.stretch card := by
  have hgo : GoService.keepsMasked (Utf8.encode text) (pin.toGo .pin) (card.toGo .cardNumber) =
      GoService.isLinked (Utf8.encode text) (pin.toGo .pin) (card.toGo .cardNumber) :=
    GoService.keepsMasked_eq _ rfl rfl
  have hpython := isNearby_iff ⟨.pin, .cardNumber, 300⟩ pin card
  have hsound : (Utf8.encode (pin.stretch card)).length ≤ 300 ∧
    ¬['\n', '\n'] <:+: pin.stretch card →
      (pin.gap card).length ≤ 300 ∧ ¬['\n', '\n'] <:+: pin.gap card := by
    rintro ⟨hshort, hblank⟩
    have hgap := SpanOf.gap_infix_stretch pin card hdisjoint
    exact ⟨hgap.length_le.trans ((Utf8.length_le_encode _).trans hshort),
      fun h => hblank (h.trans hgap)⟩
  rw [PinAlike, hgo, defaultRelationshipRules, List.head?_cons, Option.any_some, Bool.eq_iff_iff,
    hpython, isLinked_iff pin card hdisjoint]
  constructor
  · intro halike
    by_cases hlinked : (Utf8.encode (pin.stretch card)).length ≤ 300 ∧
        ¬['\n', '\n'] <:+: pin.stretch card
    · exact .inr hlinked
    · refine .inl ?_
      by_contra hnear
      rw [not_or, not_lt] at hnear
      exact hlinked (halike.2 hnear)
  · rintro ((hlong | hblank) | hlinked)
    · exact iff_of_false (fun h => absurd (hsound h).1 (not_le.2 hlong))
        fun h => absurd h.1 (not_le.2 hlong)
    · exact iff_of_false (fun h => (hsound h).2 hblank) fun h => h.2 hblank
    · exact iff_of_true hlinked (hsound hlinked)

/-- The case of a PIN right after its card number. -/
theorem pinAlike_iff_short :
    @PinAlike "карта 4111111111111111, пин 1234".toList
      ⟨28, 32, by decide, by decide⟩ ⟨6, 22, by decide, by decide⟩ := by
  refine (pinAlike_iff _ _ (.inr (by decide))).2 (.inr ⟨by decide +kernel, ?_⟩)
  rw [← PySeq.hasSub_iff]
  decide +kernel

/-- 150 Cyrillic letters between a PIN and a card number have 300 bytes: the Python service links
the two, and the Go service lets the PIN through. -/
theorem not_pinAlike_cyrillic :
    let text : Text := "1234".toList ++ List.replicate 150 'я' ++ "4111111111111111".toList
    let pin : SpanOf text := ⟨0, 4, by decide, by decide +kernel⟩
    let card : SpanOf text := ⟨154, 170, by decide, by decide +kernel⟩
    pin.stop ≤ card.start ∧ (pin.gap card).length ≤ 300 ∧
      PySeq.hasSub ['\n', '\n'] (pin.gap card) = false ∧
      isNearby ⟨.pin, .cardNumber, 300⟩ text pin.start pin.stop card.start card.stop = true ∧
      GoService.keepsMasked (Utf8.encode text) (pin.toGo .pin) (card.toGo .cardNumber) = false ∧
      ¬PinAlike pin card := by
  decide +kernel

end PiiProxy
