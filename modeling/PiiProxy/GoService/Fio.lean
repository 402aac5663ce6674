import PiiProxy.GoService.Detectors

/-!
# Names in the Go service

`go-service/pii/fio.go`: a run of two or three capitalized words is a name when each word looks like
a part of a name by its ending, and so is a surname with initials. The key of a name is made of the
words in a heuristic nominative.

## Main definitions

* `GoService.classifyWord`, `GoService.normalizeNameWord`.
* `GoService.detectFIO`.
-/

namespace PiiProxy.GoService

open Regex (concat oneOf opt plus star times)
open Pat (lit ruUpper ruLower capitalizedWord)

def reCapWord : Regex Char := capitalizedWord

/-- `[А-ЯЁ]\.\s?`. -/
def initialDot : Regex Char := concat [ruUpper, lit ".", opt space]

def reInitialsSurname : Regex Char := concat [.rep initialDot 1 (some 2), ruUpper, plus ruLower]

def reSurnameInitials : Regex Char := concat [ruUpper, plus ruLower, space, times 2 initialDot]

def patrSuffixes : List String :=
  ["овичу", "евичу", "овичем", "евичем", "овиче", "евиче", "ович", "евич", "ичем", "ичу", "иче",
    "овича", "евича", "ьича", "ича", "ыча",
    "ьичем", "ьичу", "ьиче", "ьич", "ич", "ыч",
    "овне", "евне", "овною", "евною",
    "овной", "евной", "овну", "евну", "овна", "евна", "ичной", "ичны", "ична", "ичне", "ичну",
    "овны", "евны", "ичны"]

def surnSuffixes : List String :=
  ["овым", "евым", "иным", "ыным", "овой", "евой", "иной", "ыной", "скому", "цкому",
    "ского", "цкого",
    "ским", "цким", "ском", "цком",
    "ову", "еву", "ину", "ыну", "ова", "ева", "ина", "ына", "ове", "еве", "ине", "ыне",
    "ской", "цкой",
    "ская", "цкая", "скую", "цкую",
    "ов", "ев", "ин", "ын", "ский", "цкий", "ко", "ук", "юк", "енко",
    "ой", "ая", "ую", "ого", "ому", "ым"]

def maleNames : List String :=
  ["иван", "александр", "дмитрий", "алексей", "сергей",
    "михаил", "николай", "андрей", "павел", "максим",
    "антон", "юрий", "петр", "пётр", "лев", "роман",
    "виктор", "олег", "игорь", "владимир", "евгений",
    "илья", "егор", "тимур", "марат", "матвей",
    "глеб", "марк", "степан", "никита", "артем", "артём",
    "денис", "кирилл", "богдан", "руслан", "родион",
    "демид", "ярослав", "вячеслав", "станислав", "григорий",
    "павла", "павлу", "павлом", "павле",
    "льва", "льву", "львом", "льве",
    "петра", "петру", "петром", "петре",
    "пётра", "марка", "марку", "марком"]

def femaleNames : List String :=
  ["анна", "мария", "елена", "ольга", "наталья",
    "екатерина", "ирина", "алина", "дарья", "светлана",
    "татьяна", "юлия", "полина", "виктория", "ксения",
    "вера", "алиса", "инна", "ева", "лада", "жанна",
    "надежда", "любовь", "галина", "валентина", "маргарита"]

/-- `firstNames`. -/
def firstNames (w : GoString) : Option Gender :=
  if maleNames.any fun n => str n == w then some .masc
  else if femaleNames.any fun n => str n == w then some .femn
  else none

/-- `hasSuffix`: the first of the suffixes that leaves more than two bytes. -/
def findSuffix (w : GoString) (suffixes : List String) : Option GoString :=
  (suffixes.map str).find? fun s => hasSuffix w s && decide (w.length > s.length + 2)

/-- What a first name may end in when a case ending is taken off. -/
def nameTails : List String := ["", "а", "я", "й", "ий", "ь"]

/-- The first name that a word without its case ending stands for. -/
def nameOfBase (base : GoString) : Option GoString :=
  (nameTails.map fun tail => base ++ str tail).find? fun n => (firstNames n).isSome

variable (u : GoUnicode)

/-- The word without one of the endings, when more than two bytes are left. -/
def bases (w : GoString) (endings : List String) : List GoString :=
  endings.filterMap fun e =>
    if hasSuffix w (str e) && decide (w.length > (str e).length + 2) then
      some (trimSuffix w (str e))
    else none

/-- `classifyWord`. -/
def classifyWord (word : GoString) : Option (Role × Option Gender) :=
  let w := toLower u word
  let endings := ["ой", "ем", "ём", "ом", "ей", "ии", "ию", "ья", "ье", "ью", "ы", "у",
    "ю", "а", "я",
    "е", "и"]
  match firstNames w with
  | some g => some (.first, some g)
  | none =>
    match (bases w endings).findSome? nameOfBase with
    | some n => some (.first, firstNames n)
    | none =>
      match findSuffix w patrSuffixes with
      | some s =>
        some (.patronymic,
          some (if contains s (str "вн") || contains s (str "чн") then .femn else .masc))
      | none =>
        match findSuffix w surnSuffixes with
        | some s =>
          some (.surname, if hasSuffix s (str "ая") || hasSuffix s (str "а") then none
            else some .masc)
        | none => none

/-- The nominative that `normalizeNameWord` sees in a word without its case ending. -/
def normalizeBase (base : GoString) : Option GoString :=
  match nameOfBase base with
  | some n => some n
  | none =>
    if (findSuffix base surnSuffixes).isSome then some base
    else if (findSuffix base patrSuffixes).isSome then some base
    else if ["ов", "ев", "ин", "ын", "вич", "вн"].any fun s => hasSuffix base (str s) then some base
    else if ["ст", "цк", "ск"].any fun s => hasSuffix base (str s) then some (base ++ str "ой")
    else none

/-- `normalizeNameWord`. -/
def normalizeNameWord (word : GoString) : GoString :=
  let w := toLower u word
  if (firstNames w).isSome then w
  else
    ((bases w ["ого", "ому", "ой", "ем", "ём", "ом", "ей", "ую", "ая", "ым", "ье", "ья",
      "ью", "ы", "у",
      "ю", "е", "и", "а", "я"]).findSome? normalizeBase).getD w

def roleWords : List String :=
  ["клиент", "банк", "заявитель", "договор", "паспорт", "россия", "москва", "отдел",
    "улица", "город"]

/-- A word that may be part of a name. -/
structure Tok where
  s : ℕ
  e : ℕ
  role : Role
  gender : Option Gender

/-- The words of a text that may be part of a name. -/
def nameToks (text : GoString) : List Tok :=
  (findAllStringIndex reCapWord text).filterMap fun m =>
    let w := sub text m.1 m.2
    if roleWords.any fun r => str r == toLower u w then none
    else (classifyWord u w).map fun (role, gender) => ⟨m.1, m.2, role, gender⟩

/-- The words that continue a run, at most `limit` of them: only up to three bytes of white space
separate them. -/
def continueRun (text : GoString) : ℕ → Tok → List Tok → List Tok
  | 0, _, _ => []
  | _, _, [] => []
  | limit + 1, t, t' :: ts =>
    let gap := sub text t.e t'.s
    if trimSpace u gap ≠ [] ∨ gap.length > 3 then [] else t' :: continueRun text limit t' ts

/-- The candidate of a run. -/
def runCandidate (text : GoString) (first last : Tok) (run : List Tok) : Candidate :=
  let value := sub text first.s last.e
  { type := .fullName
    value := value
    start := first.s
    stop := last.e
    identityKey := str "person:" ++ joinSpaces ((fields u value).map (normalizeNameWord u))
    gender := run.findSome? Tok.gender }

/-- The candidates of the runs of two or three words with a first name or a patronymic; the next
`skip` words belong to the run found last. -/
def runCandidates (text : GoString) : ℕ → List Tok → List Candidate
  | _, [] => []
  | skip + 1, _ :: ts => runCandidates text skip ts
  | 0, t :: ts =>
    match continueRun u text 2 t ts with
    | [] => runCandidates text 0 ts
    | t' :: more =>
      let run := t :: t' :: more
      if run.any fun x => x.role == .first || x.role == .patronymic then
        runCandidate u text t (more.getLastD t') run :: runCandidates text (more.length + 1) ts
      else runCandidates text 0 ts

/-- The candidates of surnames with initials. -/
def initialsCandidates (re : Regex Char) (text : GoString) : List Candidate :=
  (findAllStringIndex re text).filterMap fun m =>
    let v := trimRight " " (sub text m.1 m.2)
    let surname := ((fields u v).filter fun w => decide ((chars w).length > 2)).getLastD []
    if surname = [] then none
    else if (findSuffix (toLower u surname) surnSuffixes).isNone then none
    else some { trimmedAt " " .fullName text m with
      identityKey := str "person:" ++ normalizeNameWord u surname }

/-- `DetectFIO`. -/
def detectFIO (text : GoString) : List Candidate :=
  runCandidates u text 0 (nameToks u text) ++
    [reInitialsSurname, reSurnameInitials].flatMap fun re => initialsCandidates u re text

end PiiProxy.GoService
