import PiiProxy.Core.Models
import PiiProxy.Lib.Splice

/-!
# Mapping records

The record that is stored for a payload id and the two splices that answer a request from it
(`app/core/process_service.py`, `app/core/hashing.py`). A record holds fingerprints, mappings and
spans, but neither of the two documents. The hash functions are parameters.

## Main definitions

* `Hashing`, `payloadFingerprint`.
* `MappingRecord`, `buildRecord`.
* `spliceOccurrences`, `applyMaskFromRecord`, `applyDemaskFromRecord`.

## Main results

* `spliceOccurrences_eq_apply`: over occurrences that list ordered edits the splice of a record is
  the splice of these edits.
-/

namespace PiiProxy

/-- The digests of `hashlib` and `hmac` as hexadecimal texts. -/
structure Hashing where
  sha256Hex : Text → Text
  /-- The keyed digest, with the secret as the first argument. -/
  hmacSha256Hex : Text → Text → Text

/-- `payload_fingerprint`. -/
def payloadFingerprint (h : Hashing) (value : Text) (secret : Option Text) : Text :=
  match secret with
  | some s => if s.isEmpty then h.sha256Hex value else h.hmacSha256Hex s value
  | none => h.sha256Hex value

/-- What is stored for a payload id. -/
structure MappingRecord where
  version : ℕ
  state : MappingState
  mode : MaskingMode
  originalFingerprint : Text
  transformedFingerprint : Text
  noPii : Bool
  demaskEnabled : Bool
  mappings : List EntityMapping
  occurrences : List Occurrence
  createdAt : ℚ
  demaskedAt : Option ℚ
  deriving DecidableEq, Repr

/-- `RECORD_VERSION`. -/
def recordVersion : ℕ := 2

/-- `build_record` at the time `now`. -/
def buildRecord (h : Hashing) (transform : TransformResult) (payload : Text)
    (demaskEnabled : Bool) (secret : Option Text) (now : ℚ) : MappingRecord where
  version := recordVersion
  state := .active
  mode := transform.mode
  originalFingerprint := payloadFingerprint h payload secret
  transformedFingerprint := payloadFingerprint h transform.text secret
  noPii := transform.mappings.isEmpty
  demaskEnabled := demaskEnabled
  mappings := transform.mappings
  occurrences := transform.occurrences
  createdAt := now
  demaskedAt := none

/-- The loop of `_splice` from a cursor on. -/
def spliceFromCursor (payload : Text) (start stop : Occurrence → ℤ) (insert : Occurrence → Text) :
    ℤ → List Occurrence → Text
  | cursor, [] => PySeq.slice payload cursor payload.length
  | cursor, o :: os =>
    PySeq.slice payload cursor (start o) ++ insert o ++
      spliceFromCursor payload start stop insert (stop o) os

/-- `_splice`. -/
def spliceOccurrences (payload : Text) (occurrences : List Occurrence)
    (start stop : Occurrence → ℤ) (insert : Occurrence → Text) : Text :=
  spliceFromCursor payload start stop insert 0 (PySeq.sortedBy start occurrences)

/-- `apply_mask_from_record`. -/
def applyMaskFromRecord (payload : Text) (record : MappingRecord) : Text :=
  spliceOccurrences payload record.occurrences Occurrence.originalStart Occurrence.originalEnd
    Occurrence.masked

/-- `apply_demask_from_record`. -/
def applyDemaskFromRecord (payload : Text) (record : MappingRecord) : Text :=
  spliceOccurrences payload record.occurrences Occurrence.maskedStart Occurrence.maskedEnd
    Occurrence.original

/-! ### The splice of a record as a splice of edits -/

/-- The occurrences list the edits `es`, in order, under the given coordinates. -/
def ListsEdits (start stop : Occurrence → ℤ) (insert : Occurrence → Text)
    (os : List Occurrence) (es : List (Splice.Edit Char)) : Prop :=
  List.Forall₂ (fun o e => start o = (e.start : ℤ) ∧ stop o = (e.stop : ℤ) ∧ insert o = e.insert)
    os es

variable {start stop : Occurrence → ℤ} {insert : Occurrence → Text}

private theorem spliceFromCursor_eq_apply (payload : Text) (cursor : ℕ) {os : List Occurrence}
    {es : List (Splice.Edit Char)} (h : ListsEdits start stop insert os es) :
    spliceFromCursor payload start stop insert cursor os = Splice.apply payload cursor es := by
  induction h generalizing cursor with
  | nil => rw [spliceFromCursor, Splice.apply, PySeq.slice_to_length]
  | cons hoe _ ih =>
    obtain ⟨h₁, h₂, h₃⟩ := hoe
    rw [spliceFromCursor, Splice.apply, h₁, h₂, h₃, ih]

theorem ListsEdits.pairwise_start {os : List Occurrence} {es : List (Splice.Edit Char)}
    (h : ListsEdits start stop insert os es)
    (hes : es.Pairwise fun e e' => e.start ≤ e'.start) :
    os.Pairwise fun o o' => start o ≤ start o' := by
  have hstarts : os.map start = es.map fun e => (e.start : ℤ) := by
    induction h with
    | nil => rfl
    | cons hoe _ ih => rw [List.map_cons, List.map_cons, hoe.1, ih (List.pairwise_cons.mp hes).2]
  rw [← List.pairwise_map (f := start) (R := (· ≤ ·)), hstarts, List.pairwise_map]
  exact hes.imp Int.ofNat_le.mpr

/-- Over occurrences that list ordered edits the splice of a record is the splice of the edits:
sorting by the start changes nothing. -/
theorem spliceOccurrences_eq_apply {n c : ℕ} (payload : Text) {os : List Occurrence}
    {es : List (Splice.Edit Char)} (h : ListsEdits start stop insert os es)
    (hes : Splice.Ordered n c es) :
    spliceOccurrences payload os start stop insert = Splice.apply payload 0 es := by
  rw [spliceOccurrences, PySeq.sortedBy_eq_self (h.pairwise_start hes.pairwise_start)]
  exact spliceFromCursor_eq_apply payload 0 h

/-! ### The pieces outside the spans of the occurrences -/

/-- The pieces of `text` from `cursor` on between the spans of the occurrences. -/
def keptPieces (text : Text) (start stop : Occurrence → ℤ) : ℤ → List Occurrence → List Text
  | cursor, [] => [PySeq.slice text cursor text.length]
  | cursor, o :: os =>
    PySeq.slice text cursor (start o) :: keptPieces text start stop (stop o) os

theorem keptPieces_eq_kept (text : Text) (cursor : ℕ) {os : List Occurrence}
    {es : List (Splice.Edit Char)} (h : ListsEdits start stop insert os es) :
    keptPieces text start stop cursor os = Splice.kept text cursor es := by
  induction h generalizing cursor with
  | nil => rw [keptPieces, Splice.kept, PySeq.slice_to_length]
  | cons hoe _ ih =>
    obtain ⟨h₁, h₂, -⟩ := hoe
    rw [keptPieces, Splice.kept, h₁, h₂, ih]

end PiiProxy
