import ChunkBuild.Failure
import ChunkBuild.Proofs.Json.Kept
import ChunkBuild.Proofs.Json.LineEnds
/-! # JSON in bytes

The bytes of a file write a JSON value, are malformed, or break off reading: these failures are neither
those of a file nor those of a JSON text. The layout on one line writes every readable value, and what
bytes write is readable. -/
namespace ChunkBuild

open ChunkBuild.Json ChunkBuild.Text

def breakOff? (bytes : Bytes) : Option Failure :=
  match decodeUtf8 bytes with
  | .error problem => some (.undecodable problem.message)
  | .ok text =>
    match parse text with
    | .error (.integer problem) => some (.badValue problem.message)
    | .error (.tooDeep kind) => some (.tooDeep kind.message)
    | _ => none

def writtenValue? (bytes : Bytes) : Option Value :=
  match decodeUtf8 bytes with
  | .error _ => none
  | .ok text => (parse text).toOption

variable {bytes : Bytes} {v : Value}

theorem writtenValue?_eq_some : writtenValue? bytes = some v ↔
    ∃ text, decodeUtf8 bytes = .ok text ∧ parse text = .ok v := by
  unfold writtenValue?
  cases decodeUtf8 bytes with
  | error problem => simp
  | ok text =>
    cases hp : parse text with
    | error e => simp [hp, Except.toOption]
    | ok u => simp [hp, Except.toOption]

theorem isReadable_of_writtenValue (h : writtenValue? bytes = some v) : v.IsReadable depthLimit := by
  obtain ⟨text, htext, hv⟩ := writtenValue?_eq_some.mp h
  exact isReadable_of_parse hv (isLettered_of_decodeUtf8 htext)

/-- What bytes write does not break off reading. -/
theorem breakOff_of_writtenValue (h : writtenValue? bytes = some v) : breakOff? bytes = none := by
  obtain ⟨text, htext, hv⟩ := writtenValue?_eq_some.mp h
  simp only [breakOff?, htext, hv]

theorem writtenValue_compact (h : v.IsReadable depthLimit) :
    writtenValue? (encodeUtf8 v.compact) = some v := by
  have hspelled := compact_isSpelled v
  obtain ⟨hwhole, hhalf⟩ := isWhole_of_unmarked fun c hc =>
    Nat.lt_trans (hspelled.plain h c hc).1 (by decide)
  exact writtenValue?_eq_some.mpr
    ⟨v.compact, decodeUtf8_encodeUtf8 hwhole hhalf, hspelled.parse_eq h⟩

end ChunkBuild
