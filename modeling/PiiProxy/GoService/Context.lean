import PiiProxy.GoService.Detect

/-!
# The contextual privacy rules of the Go service

`go-service/pii/context.go`: a name or an address is masked or kept by the keywords in the window
around it, which ends at the sentence and at the neighbouring candidates. A PIN is masked only near
a card number. The window functions are applied to well-formed candidates, whose slices are in
range.

## Main definitions

* `GoService.keywordHit`, `GoService.attributedWindow`.
* `GoService.Decided`, `GoService.decideAll`: `Decide`.

## Main results

* `GoService.candidate_decideAll`: the rules decide about every candidate and change none.
* `GoService.attributedWindow_bounds`: a window is a slice of the text around the candidate.
-/

namespace PiiProxy.GoService

/-! ### Keywords -/

def personalRoles : List String :=
  ["клиент", "заемщик", "заёмщик", "заявитель", "страхователь", "застрахованн",
    "держатель", "получатель", "созаемщик", "созаёмщик", "пользователь",
    "вкладчик", "абонент", "истец", "ответчик", "должник", "наследник", "арендатор"]

def privateActions : List String :=
  ["обратился", "обратилась", "подал заявку", "подала заявку", "оформил", "оформила",
    "зарегистрирован", "зарегистрирована", "проживает", "проживал", "проживала",
    "сообщил", "сообщила", "указал", "указала"]

def bankConcepts : List String :=
  ["кредит", "ипотек", "договор", "полис", "счет", "счёт", "заявление", "вклад"]

def strongPII : List String :=
  ["паспорт", "телефон", "email", "e-mail", "почта", "инн", "карт",
    "cvv", "пин", "дата рождения", "адрес проживания", "адрес регистрации"]

def publicMarkers : List String :=
  ["поэт", "писатель", "автор", "ученый", "учёный", "композитор",
    "актер", "актёр", "историческая личность", "написал", "написала", "создал", "создала",
    "произведение", "биография", "роман", "стихотворение", "космонавт", "изобрел", "изобрёл",
    "открыл", "основал", "художник", "картин"]

def orgAddressMarkers : List String :=
  ["офис", "отделени", "филиал", "банкомат", "магазин",
    "штаб-квартир", "представительств", "точка продаж", "точке продаж", "пункт выдачи"]

def personalAddressMarkers : List String :=
  ["проживает", "проживал", "проживала", "зарегистрирован",
    "зарегистрирована", "адрес клиента", "адрес проживания", "адрес регистрации",
    "домашний адрес", "место жительства", "прописан", "прописана", "должник", "ответчик"]

def isWordByte (b : UInt8) : Bool :=
  ('a'.toUInt8 ≤ b && b ≤ 'z'.toUInt8) || ('A'.toUInt8 ≤ b && b ≤ 'Z'.toUInt8) ||
    ('0'.toUInt8 ≤ b && b ≤ '9'.toUInt8) || decide (0x80 ≤ b) || b == '-'.toUInt8 ||
    b == '_'.toUInt8

/-- How many word bytes follow from `e` on; the count stops at five. -/
def tailLength (window : GoString) (e : ℕ) : ℕ :=
  min ((window.drop e).takeWhile isWordByte).length 5

/-- The loop of `keywordHit` from `idx` on. -/
def keywordHitFrom (window keyword : GoString) : ℕ → ℕ → Bool
  | 0, _ => false
  | fuel + 1, idx =>
    match Go.index keyword (window.drop idx) with
    | none => false
    | some p =>
      let s := idx + p
      if (s == 0 || !(window[s - 1]?).any isWordByte) &&
          decide (tailLength window (s + keyword.length) ≤ 4) then true
      else keywordHitFrom window keyword fuel (s + 1)

/-- `keywordHit`. Each round moves on by a byte. -/
def keywordHit (window keyword : GoString) : Bool :=
  keywordHitFrom window keyword (window.length + 1) 0

/-- `countHits`. -/
def countHits (window : GoString) (keywords : List String) : ℕ :=
  keywords.countP fun kw => keywordHit window (str kw)

/-! ### Windows -/

/-- The end of a sentence. -/
def isTerminator (b : UInt8) : Bool :=
  b == '.'.toUInt8 || b == '!'.toUInt8 || b == '?'.toUInt8 || b == '\n'.toUInt8

/-- `sentenceWindowBounds`. -/
def sentenceWindowBounds (text : GoString) (start stop radius : ℕ) : ℕ × ℕ :=
  let lo := start - radius
  let hi := min (stop + radius) text.length
  let seg := sub text lo hi
  let relS := start - lo
  let relE := stop - lo
  let sStart := (List.range relS).foldl (fun s i => if (seg[i]?).any isTerminator
    then i + 1 else s) 0
  let sEnd := match (seg.drop relE).findIdx? isTerminator with
    | some i => relE + i + 1
    | none => seg.length
  (lo + sStart, lo + sEnd)

/-- One round of `clipToNeighbors`. -/
def clipRound (self : Candidate) (w : ℤ × ℤ) (o : Candidate) : ℤ × ℤ :=
  if o.start = self.start ∧ o.stop = self.stop then w
  else
    (if o.stop ≤ self.start ∧ o.stop > w.1 then o.stop else w.1,
      if o.start ≥ self.stop ∧ o.start < w.2 then o.start else w.2)

/-- `clipToNeighbors`. -/
def clipToNeighbors (lo hi : ℤ) (self : Candidate) (cands : List Candidate) : ℤ × ℤ :=
  cands.foldl (clipRound self) (lo, hi)

/-- The bounds of `attributedWindow`. -/
def windowBounds (text : GoString) (c : Candidate) (cands : List Candidate) : ℤ × ℤ :=
  let w := sentenceWindowBounds text c.start.toNat c.stop.toNat 220
  clipToNeighbors w.1 w.2 c cands

/-- `attributedWindow`. -/
def attributedWindow (text : GoString) (c : Candidate) (cands : List Candidate) : GoString :=
  let w := windowBounds text c cands
  sub text w.1.toNat w.2.toNat

/-! ### Decisions -/

inductive Decision where
  | keep | mask
  deriving DecidableEq, Repr

structure Decided where
  candidate : Candidate
  decision : Decision
  reasons : List String
  deriving DecidableEq

variable (u : GoUnicode)

/-- `decideFullName`. -/
def decideFullName (text : GoString) (c : Candidate) (cands : List Candidate) : Decided :=
  let w := toLower u (attributedWindow text c cands)
  let private' := countHits w personalRoles * 2 + countHits w privateActions * 2 +
    countHits w bankConcepts + countHits w strongPII * 3
  let public' := countHits w publicMarkers * 2
  if private' > 0 then ⟨c, .mask, ["private_context"]⟩
  else if public' > 0 then ⟨c, .keep, ["public_context"]⟩
  else ⟨c, .mask, ["no_context_fail_safe"]⟩

/-- `decideAddress`. -/
def decideAddress (text : GoString) (c : Candidate) (cands : List Candidate) : Decided :=
  let w := toLower u (attributedWindow text c cands)
  if countHits w personalAddressMarkers > 0 then ⟨c, .mask, ["personal_address"]⟩
  else if countHits w orgAddressMarkers > 0 then ⟨c, .keep, ["organizational_address"]⟩
  else ⟨c, .mask, ["no_context_fail_safe"]⟩

/-- A PIN and a card number are near each other. -/
def isLinked (text : GoString) (pin card : Candidate) : Bool :=
  let w := if pin.start < card.start then (pin.start, card.stop) else (card.start, pin.stop)
  decide (w.2 - w.1 ≤ 300) && !contains (sub text w.1.toNat w.2.toNat) (str "\n\n")

/-- `applyRelationshipRules`. -/
def applyRelationshipRules (text : GoString) (ds : List Decided) : List Decided :=
  let cards := (ds.map Decided.candidate).filter fun c => c.type == .cardNumber
  ds.map fun d =>
    if d.candidate.type = .pin ∧ !cards.any (isLinked text d.candidate) then
      { d with decision := .keep, reasons := d.reasons ++ ["relationship_rule_unmet:CARD_NUMBER"] }
    else d

/-- The decision about one candidate. -/
def decideOne (text : GoString) (cands : List Candidate) (c : Candidate) : Decided :=
  match c.type with
  | .fullName => decideFullName u text c cands
  | .address => decideAddress u text c cands
  | _ => ⟨c, .mask, ["personal_by_construction"]⟩

/-- `Decide`. -/
def decideAll (text : GoString) (cands : List Candidate) : List Decided :=
  applyRelationshipRules text (cands.map (decideOne u text cands))

/-! ### What the rules keep -/

theorem candidate_decideOne (text : GoString) (cands : List Candidate) (c : Candidate) :
    (decideOne u text cands c).candidate = c := by
  unfold decideOne
  split
  · unfold decideFullName
    dsimp only
    split_ifs <;> rfl
  · unfold decideAddress
    dsimp only
    split_ifs <;> rfl
  · rfl

/-- **The rules decide about every candidate, in order, and change none.** -/
theorem candidate_decideAll (text : GoString) (cands : List Candidate) :
    (decideAll u text cands).map Decided.candidate = cands := by
  have hrule (ds : List Decided) :
      (applyRelationshipRules text ds).map Decided.candidate = ds.map Decided.candidate := by
    simp only [applyRelationshipRules, List.map_map]
    refine List.map_congr_left fun d _ => ?_
    simp only [Function.comp_apply]
    split_ifs <;> rfl
  rw [decideAll, hrule, List.map_map]
  calc cands.map (Decided.candidate ∘ decideOne u text cands) = cands.map id :=
        List.map_congr_left fun c _ => candidate_decideOne u text cands c
    _ = cands := List.map_id cands

/-! ### Windows are slices of the text -/

theorem foldl_sentenceStart_le (seg : GoString) (n : ℕ) :
    (List.range n).foldl (fun s i => if (seg[i]?).any isTerminator then i + 1 else s) 0 ≤ n := by
  induction n with
  | zero => rfl
  | succ n ih =>
    rw [List.range_succ, List.foldl_append, List.foldl_cons, List.foldl_nil]
    split_ifs
    · exact le_rfl
    · exact ih.trans (Nat.le_succ n)

theorem sentenceWindowBounds_spec (text : GoString) (start stop radius : ℕ)
    (hstart : start ≤ stop) (hstop : stop ≤ text.length) :
    (sentenceWindowBounds text start stop radius).1 ≤ start ∧
      stop ≤ (sentenceWindowBounds text start stop radius).2 ∧
      (sentenceWindowBounds text start stop radius).2 ≤ text.length := by
  unfold sentenceWindowBounds
  dsimp only
  set seg := sub text (start - radius) (min (stop + radius) text.length) with hseg
  have hlen : seg.length = min (stop + radius) text.length - (start - radius) := by
    rw [hseg, sub, List.length_drop, List.length_take]
    omega
  have hfirst := foldl_sentenceStart_le seg (start - (start - radius))
  refine ⟨by omega, ?_⟩
  split
  · rename_i i hfind
    obtain ⟨hi, -⟩ := List.findIdx?_eq_some_iff_getElem.1 hfind
    rw [List.length_drop] at hi
    change stop ≤ start - radius + (stop - (start - radius) + i + 1) ∧
      start - radius + (stop - (start - radius) + i + 1) ≤ text.length
    omega
  · omega

/-- The window keeps the candidate between its bounds. -/
theorem clipToNeighbors_spec {lo hi n : ℤ} {self : Candidate} (cands : List Candidate)
    (h : lo ≤ self.start ∧ self.stop ≤ hi ∧ hi ≤ n) (hlo : 0 ≤ lo) :
    (clipToNeighbors lo hi self cands).1 ≤ self.start ∧
      self.stop ≤ (clipToNeighbors lo hi self cands).2 ∧
      (clipToNeighbors lo hi self cands).2 ≤ n ∧ 0 ≤ (clipToNeighbors lo hi self cands).1 := by
  induction cands generalizing lo hi with
  | nil => exact ⟨h.1, h.2.1, h.2.2, hlo⟩
  | cons o cands ih =>
    have hround : (clipRound self (lo, hi) o).1 ≤ self.start ∧
        self.stop ≤ (clipRound self (lo, hi) o).2 ∧ (clipRound self (lo, hi) o).2 ≤ n ∧
          0 ≤ (clipRound self (lo, hi) o).1 := by
      unfold clipRound
      split_ifs <;> refine ⟨?_, ?_, ?_, ?_⟩ <;> dsimp only <;> omega
    exact ih ⟨hround.1, hround.2.1, hround.2.2.1⟩ hround.2.2.2

/-- **The window of a candidate is a slice of the text around it.** -/
theorem attributedWindow_bounds {text : GoString} {c : Candidate} (hc : c.WellFormed text)
    (cands : List Candidate) :
    (windowBounds text c cands).1 ≤ c.start ∧ c.stop ≤ (windowBounds text c cands).2 ∧
      (windowBounds text c cands).2 ≤ text.length ∧ 0 ≤ (windowBounds text c cands).1 := by
  have hnonneg := hc.start_nonneg
  have hlt := hc.start_lt_stop
  have hle := hc.stop_le_length
  obtain ⟨hfirst, hlast, hend⟩ := sentenceWindowBounds_spec text c.start.toNat
    c.stop.toNat 220 (by omega) (by omega)
  exact clipToNeighbors_spec cands ⟨by omega, by omega, by omega⟩ (Int.natCast_nonneg _)

end PiiProxy.GoService
