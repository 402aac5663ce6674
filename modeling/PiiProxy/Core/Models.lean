import Mathlib

/-!
# Data model of the PII proxy

The enumerations and records shared by the pipeline, the replacement engine and the mapping
stores (`app/core/enums.py`, `app/core/models.py`, `app/entity_resolution/naming.py`,
`app/config/consumers.py`), and the text of the program: a `str` is a list of code points.

A candidate's metadata dictionary is the record `CandidateMetadata` of the keys that some detector
sets and some stage reads. A component of a person mention is a full word with its normalized
form or an initial with its letter, so that an initial without a letter cannot be written down.

## Main definitions

* `PIIType`, `Decision`, `MaskingMode`, `ProcessDirection`, `MappingState`.
* `NameComponent`, `CandidateMetadata`, `Candidate`, `PrivacyDecision`.
* `Identity`, `EntityMapping`, `Occurrence`, `DetectedEntity`, `TransformResult`.
* `ConsumerConfig`, `ConsumerRegistry`.
-/

namespace PiiProxy

/-- A Python `str`. -/
abbrev Text : Type := List Char

/-! ### Enumerations -/

inductive PIIType where
  | fullName | birthDate | birthPlace | passport | citizenship | passportIssuer
  | departmentCode | passportIssueDate | driverLicense | address | email | phone | inn
  | cardNumber | cvv | pin | cardholder
  deriving DecidableEq, Repr

/-- The string value of a PII type. -/
def PIIType.value : PIIType → Text
  | .fullName => "FULL_NAME".toList
  | .birthDate => "BIRTH_DATE".toList
  | .birthPlace => "BIRTH_PLACE".toList
  | .passport => "PASSPORT".toList
  | .citizenship => "CITIZENSHIP".toList
  | .passportIssuer => "PASSPORT_ISSUER".toList
  | .departmentCode => "DEPARTMENT_CODE".toList
  | .passportIssueDate => "PASSPORT_ISSUE_DATE".toList
  | .driverLicense => "DRIVER_LICENSE".toList
  | .address => "ADDRESS".toList
  | .email => "EMAIL".toList
  | .phone => "PHONE".toList
  | .inn => "INN".toList
  | .cardNumber => "CARD_NUMBER".toList
  | .cvv => "CVV".toList
  | .pin => "PIN".toList
  | .cardholder => "CARDHOLDER".toList

inductive Decision where
  | mask | keep | uncertain
  deriving DecidableEq, Repr

inductive MaskingMode where
  | partialMode | tokenMode | syntheticMode
  deriving DecidableEq, Repr

inductive ProcessDirection where
  | mask | demask | retryMask | retryDemask
  deriving DecidableEq, Repr

inductive MappingState where
  | active | demaskedGrace
  deriving DecidableEq, Repr

inductive Gender where
  | masc | femn | neut
  deriving DecidableEq, Repr

/-- The grammatical cases of pymorphy3. -/
inductive GramCase where
  | nomn | gent | datv | accs | ablt | loct | voct | gen1 | gen2 | acc2 | loc1 | loc2
  deriving DecidableEq, Repr

/-- The role of a component of a person's name. -/
inductive Role where
  | surname | first | patronymic
  deriving DecidableEq, Repr

/-- The layout of a person mention. -/
inductive AliasType where
  | full | nameSurname | namePatronymic | surnameInitials
  deriving DecidableEq, Repr

/-- The string value of an alias type. -/
def AliasType.value : AliasType → Text
  | .full => "FULL".toList
  | .nameSurname => "NAME_SURNAME".toList
  | .namePatronymic => "NAME_PATRONYMIC".toList
  | .surnameInitials => "SURNAME_INITIALS".toList

/-! ### Candidates and decisions -/

/-- A full word with its nominative lower-case form, or an initial with its letter. -/
inductive NameKind where
  | word (normalized : Text)
  | initial (letter : Char)
  deriving DecidableEq, Repr

/-- One component of a person mention, with its offsets inside the mention. -/
structure NameComponent where
  kind : NameKind
  surface : Text
  offsetStart : ℕ
  offsetEnd : ℕ
  role : Option Role := none
  deriving DecidableEq, Repr

structure CandidateMetadata where
  gramCase : Option GramCase := none
  gender : Option Gender := none
  nominalForm : Option Text := none
  identityKey : Option Text := none
  knownPublicFigure : Bool := false
  nameParts : Option (List NameComponent) := none
  aliasType : Option AliasType := none
  normalized : Option Text := none
  deriving DecidableEq, Repr

/-- A raw span found by a detector, before any privacy decision is made. -/
structure Candidate where
  type : PIIType
  value : Text
  start : ℕ
  stop : ℕ
  detector : Text
  detectorConfidence : ℚ := 1
  metadata : CandidateMetadata := {}
  deriving DecidableEq, Repr

/-- Whether a specific candidate occurrence is personal data in context. -/
structure PrivacyDecision where
  candidate : Candidate
  decision : Decision
  confidence : ℚ
  reasons : List Text := []
  deriving DecidableEq, Repr

/-- `PrivacyDecision.is_personal`. -/
def PrivacyDecision.isPersonal (d : PrivacyDecision) : Bool := d.decision == .mask

/-- The span of a candidate lies inside `text`, is not empty, and its value is that piece. -/
structure Candidate.WellFormed (text : Text) (c : Candidate) : Prop where
  start_lt_stop : c.start < c.stop
  stop_le_length : c.stop ≤ text.length
  value_eq : c.value = (text.take c.stop).drop c.start

/-! ### Mappings and transform results -/

/-- A synthetic person. -/
structure Identity where
  surname : Text
  first : Text
  patronymic : Text
  gender : Gender
  nominal : Text
  deriving DecidableEq, Repr

/-- `identity.get(role)`. -/
def Identity.part (i : Identity) : Role → Text
  | .surname => i.surname
  | .first => i.first
  | .patronymic => i.patronymic

/-- The known parts of an original person. -/
structure OriginalIdentity where
  surname : Option Text
  first : Option Text
  patronymic : Option Text
  gender : Option Gender
  deriving DecidableEq, Repr

structure MappingMetadata where
  /-- `metadata["synthetic_fallback"] == "token"`. -/
  syntheticFallback : Bool := false
  syntheticIdentity : Option Identity := none
  originalIdentity : Option OriginalIdentity := none
  aliasTypes : List AliasType := []
  deriving DecidableEq, Repr

/-- Everything needed to demask one logical entity later. -/
structure EntityMapping where
  entityId : Text
  type : PIIType
  original : Text
  token : Text
  synthetic : Text
  partialForm : Text
  originalNominal : Option Text := none
  syntheticNominal : Option Text := none
  grammaticalCase : Option GramCase := none
  gender : Option Gender := none
  aliases : List Text := []
  metadata : MappingMetadata := {}
  deriving DecidableEq, Repr

/-- An occurrence of an entity, ready for replacement. -/
structure DetectedEntity where
  entityId : Text
  decision : PrivacyDecision
  start : ℕ
  stop : ℕ
  deriving DecidableEq, Repr

/-- One masked span with its coordinates in both the original and the masked text. -/
structure Occurrence where
  entityId : Text
  originalStart : ℤ
  originalEnd : ℤ
  maskedStart : ℤ
  maskedEnd : ℤ
  original : Text
  masked : Text
  deriving DecidableEq, Repr

structure TransformResult where
  text : Text
  mode : MaskingMode
  mappings : List EntityMapping
  detectedEntities : List DetectedEntity
  keptEntities : List DetectedEntity
  occurrences : List Occurrence := []
  deriving DecidableEq, Repr

/-! ### Consumers -/

/-- Per-consumer policy; `maskTypes = none` means all supported types. -/
structure ConsumerConfig where
  consumerId : Text
  enabled : Bool := true
  maskTypes : Option (List PIIType) := none
  demask : Bool := true
  maskingMode : MaskingMode := .partialMode
  deriving DecidableEq, Repr

/-- `ConsumerConfig.should_mask_type`. -/
def ConsumerConfig.shouldMaskType (c : ConsumerConfig) (t : PIIType) : Bool :=
  match c.maskTypes with
  | none => true
  | some ts => ts.contains t

structure ConsumerRegistry where
  defaultConsumer : ConsumerConfig
  consumers : List (Text × ConsumerConfig) := []

/-- `ConsumerRegistry.resolve`: callers without an id get the default consumer. -/
def ConsumerRegistry.resolve (r : ConsumerRegistry) (consumerId : Option Text) :
    Option ConsumerConfig :=
  match consumerId with
  | none => some r.defaultConsumer
  | some i => r.consumers.lookup i

/-- The exceptions that computations of the pipeline raise. `exhausted` stands for a rejection
loop of the hash stream that has not ended within the fuel of the model. -/
inductive PyError where
  | valueError (message : Text)
  | indexError
  | keyError (key : Text)
  | exhausted
  deriving DecidableEq, Repr

end PiiProxy
