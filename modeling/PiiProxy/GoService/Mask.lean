import PiiProxy.GoService.Context

/-!
# Masking in the Go service

`go-service/pii/mask.go`: partial masks, synthetic values drawn from a hash stream, and
`BuildTransform`, which groups the decisions to mask by identity, makes one mapping for each group
and splices the replacements into the text.

## Main definitions

* `GoService.Gen`, `GoService.intn`: the stream `hashRand`.
* `GoService.partialMask`, `GoService.syntheticFor`.
* `GoService.Mode`, `GoService.Mapping`, `GoService.Occurrence`, `GoService.Transform`.
* `GoService.groupDecisions`, `GoService.buildMappings`, `GoService.writeSpans`,
  `GoService.applyMappings`, `GoService.buildTransform`.
-/

namespace PiiProxy.GoService

/-! ### The hash stream -/

/-- Draws from a hash stream; the state is the counter. A draw that spends its fuel has no
result. -/
abbrev Gen : Type → Type := StateT ℕ Option

variable (rt : GoRuntime)

/-- The loop of `Intn`: draws from the limit on are rejected. -/
def intnLoop (seed : ℤ) (n : ℕ) : ℕ → Gen ℕ
  | 0 => failure
  | fuel + 1 => do
    let counter ← get
    set (counter + 1)
    let value := rt.sha64 (showInt seed ++ str ":" ++ showInt counter)
    if value < (2 ^ 64 - 1) / n * n then return value % n else intnLoop seed n fuel

/-- `Intn` of the stream with the seed. -/
def intn (seed : ℤ) (n : ℕ) : Gen ℕ := intnLoop rt seed n rt.fuel

/-- An element of the table. -/
def pick (seed : ℤ) (table : List String) : Gen GoString := do
  return str (table.getD (← intn rt seed table.length) "")

/-! ### Partial masks -/

variable (u : GoUnicode)

/-- `maskAlnum`. -/
def maskAlnum (v : GoString) : GoString :=
  Utf8.encode ((chars v).map fun r => if u.isLetter r || u.isDigit r then '*' else r)

/-- `maskName`. -/
def maskName (v : GoString) : GoString :=
  joinSpaces ((fields u (trimSpace u v)).map fun p =>
    Utf8.encode [(((chars p).find? u.isLetter).map u.toUpper).getD '*', '.'])

/-- The indices of the digits among the runes. -/
def digitPositions (rs : List Char) : List ℕ :=
  (List.range rs.length).filter fun i => (rs[i]?).any u.isDigit

/-- The runes, with stars for the digits that are not kept. -/
def starDigits (rs : List Char) (keep : List ℕ) : GoString :=
  Utf8.encode (rs.mapIdx fun i r => if u.isDigit r && !keep.contains i then '*' else r)

/-- `maskDigitsKeep`. -/
def maskDigitsKeep (v : GoString) (first last : ℕ) : GoString :=
  let rs := chars v
  let pos := digitPositions u rs
  starDigits u rs (if pos.length > first + last then
      pos.take first ++ pos.drop (pos.length - last)
    else if first = 1 then pos.take 1 else [])

/-- `maskEmail`. -/
def maskEmail (v : GoString) : GoString :=
  match v.reverse.findIdx? (· == '@'.toUInt8) with
  | none => maskAlnum u v
  | some i =>
    let at' := v.length - 1 - i
    maskAlnum u (v.take at') ++ str "@" ++ maskAlnum u (v.drop (at' + 1))

/-- `maskPhone`. -/
def maskPhone (v : GoString) : GoString :=
  let rs := chars v
  starDigits u rs ((digitPositions u rs).take 1)

/-- `PartialMask`. -/
def partialMask (t : PIIType) (v : GoString) : GoString :=
  match t with
  | .fullName | .cardholder => maskName u v
  | .email => maskEmail u v
  | .phone => maskPhone u v
  | .passport => maskDigitsKeep u v 2 2
  | .cardNumber => maskDigitsKeep u v 4 4
  | .driverLicense | .inn => maskDigitsKeep u v 2 2
  | _ => maskAlnum u v

/-! ### Synthetic values -/

def synMaleFirst : List String :=
  ["Иван", "Александр", "Дмитрий", "Алексей", "Сергей", "Михаил", "Николай", "Андрей", "Павел",
    "Максим"]

def synFemaleFirst : List String :=
  ["Анна", "Мария", "Елена", "Ольга", "Наталья", "Екатерина", "Ирина", "Алина", "Дарья", "Светлана"]

def synMaleLast : List String :=
  ["Иванов", "Петров", "Смирнов", "Кузнецов", "Соколов", "Попов", "Лебедев", "Козлов", "Новиков",
    "Морозов"]

def synMalePatr : List String :=
  ["Иванович", "Александрович", "Сергеевич", "Петрович", "Алексеевич", "Михайлович", "Николаевич",
    "Андреевич", "Дмитриевич", "Викторович"]

def synFemalePatr : List String :=
  ["Ивановна", "Александровна", "Сергеевна", "Петровна", "Алексеевна", "Михайловна", "Николаевна",
    "Андреевна", "Дмитриевна", "Викторовна"]

def synCities : List String :=
  ["Москва", "Санкт-Петербург", "Казань", "Екатеринбург", "Новосибирск", "Самара",
    "Воронеж", "Пермь"]

def synStreets : List String :=
  ["Ленина", "Мира", "Гагарина", "Садовая", "Советская", "Победы", "Лесная", "Центральная"]

def synCountries : List String :=
  ["Россия", "Беларусь", "Казахстан", "Армения", "Узбекистан", "Грузия"]

/-- `entitySeed`. -/
def entitySeed (sessionSeed identityKey : GoString) : ℤ :=
  (rt.sha64 (sessionSeed ++ str ":" ++ identityKey) % 2 ^ 63 : ℕ)

/-- The runes, with drawn digits for all digits but the first `keep` ones; `seen` came before. -/
def drawDigits (seed : ℤ) (keep : ℕ) : ℕ → List Char → Gen (List Char)
  | _, [] => return []
  | seen, r :: rs =>
    if rt.unicode.isDigit r then do
      let r ← if keep ≤ seen then (do return Char.ofNat ('0'.toNat + (← intn rt seed 10)))
        else pure r
      return r :: (← drawDigits seed keep (seen + 1) rs)
    else do return r :: (← drawDigits seed keep seen rs)

/-- `synDigitsLike`. A result equal to the value is drawn again, with no digit kept. -/
def synDigitsLike (seed : ℤ) (v : GoString) : ℕ → ℕ → Gen GoString
  | 0, _ => failure
  | fuel + 1, keep => do
    let out := Utf8.encode (← drawDigits rt seed keep 0 (chars v))
    if out = v then synDigitsLike seed v fuel 0 else return out

/-- `n` drawn digits. -/
def drawMany (seed : ℤ) : ℕ → Gen (List ℕ)
  | 0 => return []
  | n + 1 => do
    let d ← intn rt seed 10
    return d :: (← drawMany seed n)

/-- The characters of digits. -/
def showDigits (ds : List ℕ) : GoString := Utf8.encode (ds.map fun d => Char.ofNat ('0'.toNat + d))

/-- `LuhnCheckDigit`. -/
def luhnCheckDigit (digits : List ℕ) : ℕ :=
  (10 - luhnSumFrom ((digits.length + 1) % 2) 0 (digits ++ [0]) % 10) % 10

/-- `synCard`. -/
def synCard (seed : ℤ) : Gen GoString := do
  let body := 4 :: (← drawMany rt seed 14)
  return showDigits (body ++ [luhnCheckDigit body])

/-- `synInn`. -/
def synInn (seed : ℤ) (length : ℕ) : Gen GoString := do
  if length = 12 then
    let d ← drawMany rt seed 12
    let d11 := d.take 10 ++ [innCheck innW11 d]
    return showDigits (d11 ++ [innCheck innW12 d11])
  else
    let d ← drawMany rt seed 10
    return showDigits (d.take 9 ++ [innCheck innW10 d])

/-- The name that `syntheticFor` makes, of as many words as the original has. -/
def synName (seed : ℤ) (original : GoString) (gender : Option Gender) : Gen GoString := do
  let female := gender == some .femn
  let first := if female then synFemaleFirst else synMaleFirst
  let patr := if female then synFemalePatr else synMalePatr
  let l ← pick rt seed synMaleLast
  let l := if female then l ++ str "а" else l
  let n := (fields rt.unicode original).length
  if n ≥ 3 then
    let f ← pick rt seed first
    let p ← pick rt seed patr
    return l ++ str " " ++ f ++ str " " ++ p
  else if n = 2 then
    let f ← pick rt seed first
    return f ++ str " " ++ l
  else return l

/-- `syntheticFor`. -/
def syntheticFor (seed : ℤ) (t : PIIType) (original : GoString) (gender : Option Gender) :
    Gen GoString :=
  match t with
  | .fullName | .cardholder => synName rt seed original gender
  | .email => do return str "user" ++ showPadded 5 (← intn rt seed 100000) ++ str "@example.com"
  | .phone => synDigitsLike rt seed original rt.fuel 1
  | .inn => synInn rt seed ((chars original).countP rt.unicode.isDigit)
  | .cardNumber => synCard rt seed
  | .birthDate | .passportIssueDate => do
    let day := 1 + (← intn rt seed 28)
    let month := 1 + (← intn rt seed 12)
    let year := 1950 + (← intn rt seed 55)
    return showPadded 2 day ++ str "." ++ showPadded 2 month ++ str "." ++ showInt year
  | .departmentCode => do
    let a ← intn rt seed 1000
    let b ← intn rt seed 1000
    return showPadded 3 a ++ str "-" ++ showPadded 3 b
  | .citizenship => pick rt seed synCountries
  | .passportIssuer => do return str "ГУ МВД России по г. " ++ (← pick rt seed synCities)
  | .birthPlace => do return str "г. " ++ (← pick rt seed synCities)
  | .address => do
    let index := 100000 + (← intn rt seed 599999)
    let city ← pick rt seed synCities
    let street ← pick rt seed synStreets
    let house := 1 + (← intn rt seed 250)
    let flat := 1 + (← intn rt seed 500)
    return showPadded 6 index ++ str ", г. " ++ city ++ str ", ул. " ++ street ++ str ", д. " ++
      showInt house ++ str ", кв. " ++ showInt flat
  | _ => synDigitsLike rt seed original rt.fuel 0

/-! ### The transformation -/

/-- A masking mode. Any other string than the three masks like synthetic mode. -/
inductive Mode where
  | partialMode | tokenMode | syntheticMode
  | other (name : GoString)
  deriving DecidableEq, Repr

structure Mapping where
  entityId : GoString
  type : PIIType
  original : GoString
  token : GoString
  synthetic : GoString
  partialValue : GoString
  deriving DecidableEq

structure Occurrence where
  entityId : GoString
  originalStart : ℤ
  originalEnd : ℤ
  maskedStart : ℤ
  maskedEnd : ℤ
  original : GoString
  masked : GoString
  deriving DecidableEq

structure Transform where
  text : GoString
  mappings : List Mapping
  occurrences : List Occurrence
  deriving DecidableEq

/-- `TokenPrefix`. -/
def tokenPrefix : PIIType → GoString
  | .fullName => str "PERSON"
  | .cardNumber => str "CARD"
  | t => Utf8.encode t.value

/-- `isNominativeMention`. -/
def isNominativeMention (c : Candidate) : Bool :=
  if c.type ≠ .fullName ∧ c.type ≠ .cardholder then true
  else (fields rt.unicode c.value).all fun w =>
    let lw := toLower rt.unicode (trimRight "." w)
    decide ((chars lw).length ≤ 2) || normalizeNameWord rt.unicode lw == lw

/-- The decisions to mask one identity. The first of them names the entity. -/
structure Group where
  id : GoString
  key : GoString
  first : Decided
  others : List Decided

/-- `g.items`. -/
def Group.items (g : Group) : List Decided := g.first :: g.others

/-- The key by which decisions are grouped. -/
def groupKey (c : Candidate) : GoString :=
  if c.identityKey = [] then
    Utf8.encode c.type.value ++ str ":" ++ toLower rt.unicode (trimSpace rt.unicode c.value)
  else c.identityKey

/-- The groups so far and the counters of the token names. -/
structure Grouping where
  groups : List Group
  counters : GoString → ℕ

/-- One round of the grouping. -/
def addDecision (st : Grouping) (d : Decided) : Grouping :=
  let key := groupKey rt d.candidate
  if st.groups.any fun g => g.key == key then
    { st with groups := st.groups.map fun g =>
        if g.key = key then { g with others := g.others ++ [d] } else g }
  else
    let name := tokenPrefix d.candidate.type
    let n := st.counters name + 1
    { groups := st.groups ++ [⟨name ++ str "_" ++ showInt n, key, d, []⟩]
      counters := Function.update st.counters name n }

/-- The groups of the decisions to mask, in the order of their first appearance. -/
def groupDecisions (decided : List Decided) : List Group :=
  ((decided.filter fun d => d.decision == .mask).foldl (addDecision rt) ⟨[], fun _ => 0⟩).groups

/-- One attempt to draw a synthetic value, from a stream of its own. -/
def attemptSynthetic (seed : ℤ) (d : Candidate) (attempt : ℕ) : Option GoString :=
  ((syntheticFor rt (Int.bmod (seed + attempt) (2 ^ 64)) d.type d.value d.gender).run
    0).map Prod.fst

/-- The attempts to draw a synthetic value that is neither used nor the original; the last of them
counts in any case. -/
def drawSynthetic (seed : ℤ) (d : Candidate) (used : List GoString) :
    ℕ → ℕ → Option GoString
  | 0, attempt => attemptSynthetic rt seed d attempt
  | remaining + 1, attempt => do
    let syn ← attemptSynthetic rt seed d attempt
    if !used.contains syn && syn != d.value then return syn
    else drawSynthetic seed d used remaining (attempt + 1)

/-- The mapping of a group, with the synthetic values `used` for its type. -/
def buildMapping (sessionSeed : GoString) (used : List GoString) (g : Group) : Option Mapping := do
  let d := g.first.candidate
  let syn ← drawSynthetic rt (entitySeed rt sessionSeed g.key) d used 19 0
  return {
    entityId := g.id
    type := d.type
    original := d.value
    token := str "<" ++ g.id ++ str ">"
    synthetic := syn
    partialValue := partialMask rt.unicode d.type d.value }

/-- The groups with their mappings; `used` holds the synthetic values of each type so far. -/
def buildMappings (sessionSeed : GoString) :
    (PIIType → List GoString) → List Group → Option (List (Group × Mapping))
  | _, [] => return []
  | used, g :: gs => do
    let type := g.first.candidate.type
    let m ← buildMapping rt sessionSeed (used type) g
    let rest ← buildMappings sessionSeed (Function.update used type (m.synthetic :: used type)) gs
    return (g, m) :: rest

/-- The replacement of one mention. -/
def replacement (mode : Mode) (m : Mapping) (d : Decided) : GoString :=
  match mode with
  | .partialMode => partialMask rt.unicode d.candidate.type d.candidate.value
  | .tokenMode => m.token
  | _ => if isNominativeMention rt d.candidate then m.synthetic else m.token

/-- A span with its replacement. -/
structure Span where
  s : ℤ
  e : ℤ
  rep : GoString
  id : GoString

/-- The spans of the mentions, group by group. -/
def mentionSpans (mode : Mode) (mappings : List (Group × Mapping)) : List Span :=
  mappings.flatMap fun (g, m) =>
    g.items.map fun d => ⟨d.candidate.start, d.candidate.stop, replacement rt mode m d, g.id⟩

/-- The loop over the spans in position order: `b` is written up to `cursor`, and `offset` is how
much longer it is than the text read. -/
def writeSpans (text : GoString) : List Span → GoString → List Occurrence → ℤ → ℤ →
    Except Go.Fault (GoString × List Occurrence)
  | [], b, occ, cursor, _ => do
    let rest ← Go.slice text cursor text.length
    return (b ++ rest, occ)
  | sp :: sps, b, occ, cursor, offset => do
    let kept ← Go.slice text cursor sp.s
    let original ← Go.slice text sp.s sp.e
    let occurrence : Occurrence := {
      entityId := sp.id
      originalStart := sp.s
      originalEnd := sp.e
      maskedStart := sp.s + offset
      maskedEnd := sp.s + offset + sp.rep.length
      original := original
      masked := sp.rep }
    writeSpans text sps (b ++ kept ++ sp.rep) (occ ++ [occurrence]) sp.e
      (offset + (sp.rep.length - (sp.e - sp.s)))

/-- The end of `BuildTransform`, with the mappings made. -/
def applyMappings (text : GoString) (mode : Mode) (mappings : List (Group × Mapping)) :
    Except Go.Fault Transform := do
  let spans := rt.sortSlice (fun a b => decide (a.s < b.s)) (mentionSpans rt mode mappings)
  let (out, occ) ← writeSpans text spans [] [] 0 0
  return { text := out, mappings := mappings.map Prod.snd, occurrences := occ }

/-- `BuildTransform`. -/
def buildTransform (text : GoString) (decided : List Decided) (mode : Mode)
    (sessionSeed : GoString) :
    Except Go.Fault Transform :=
  match buildMappings rt sessionSeed (fun _ => []) (groupDecisions rt decided) with
  | none => .error .loops
  | some mappings => applyMappings rt text mode mappings

end PiiProxy.GoService
