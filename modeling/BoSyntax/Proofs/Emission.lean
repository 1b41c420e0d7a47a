import BoSyntax.Program

/-!
# The two outputs of a run

Both outputs of a run are put together from those of its parts. Records show in neither of them
unless they are asked for.
-/

namespace BoSyntax

namespace Emission

variable {emissions emissions' : List Emission}

/-- Standard output is put together from that of the parts. -/
@[simp] theorem standardOutput_append : standardOutput (emissions ++ emissions') =
    standardOutput emissions ++ standardOutput emissions' := by
  simp [standardOutput]

/-- Standard error is put together from that of the parts. -/
@[simp] theorem standardError_append (verbose : Bool) :
    standardError verbose (emissions ++ emissions') =
      standardError verbose emissions ++ standardError verbose emissions' := by
  simp [standardError]

/-- A line shows on standard output. -/
@[simp] theorem standardOutput_line (text : String) :
    standardOutput [line text] = text ++ "\n" := by
  simp [standardOutput, line, toOutput]

/-- A line does not show on standard error. -/
@[simp] theorem standardError_line (verbose : Bool) (text : String) :
    standardError verbose [line text] = "" := by
  simp [standardError, line, toError]

/-- A record does not show on standard output. -/
@[simp] theorem standardOutput_record (logger message : String) :
    standardOutput [.record logger message] = "" := by
  simp [standardOutput, toOutput]

/-- A record does not show on standard error unless records are asked for. -/
@[simp] theorem standardError_record (logger message : String) :
    standardError false [.record logger message] = "" := by
  simp [standardError, toError]

/-- A line for standard error does not show on standard output. -/
@[simp] theorem standardOutput_errorLine (text : String) :
    standardOutput [errorLine text] = "" := by
  simp [standardOutput, errorLine, toOutput]

/-- A line for standard error shows there. -/
@[simp] theorem standardError_errorLine (verbose : Bool) (text : String) :
    standardError verbose [errorLine text] = text ++ "\n" := by
  simp [standardError, errorLine, toError]

/-- Whether an emission is a record. -/
def isRecord : Emission → Bool
  | .record .. => true
  | _ => false

/-- Records that are not asked for show nowhere. -/
theorem outputs_of_records (h : ∀ emission ∈ emissions, emission.isRecord = true) :
    standardOutput emissions = "" ∧ standardError false emissions = "" := by
  induction emissions with
  | nil => exact ⟨rfl, rfl⟩
  | cons emission emissions ih =>
    obtain ⟨hfirst, hrest⟩ := List.forall_mem_cons.mp h
    obtain ⟨houtput, herror⟩ := ih hrest
    cases emission with
    | record logger message =>
      rw [← List.singleton_append, standardOutput_append, standardError_append, houtput, herror]
      simp
    | _ => cases hfirst

end Emission

open Emission

namespace Program

/-- Reading a program leaves records only. -/
theorem isRecord_of_mem_records {limit : Nat} {source name : String} {emission : Emission}
    (h : emission ∈ records limit source name) : emission.isRecord = true := by
  revert h emission
  unfold records
  cases tokens source (some name) <;> cases ofStringWithin limit source (some name) <;>
    simp [tokensRecord, programRecord, failureRecord, isRecord]

/-- The records of reading a program do not show on standard output. -/
@[simp] theorem standardOutput_records (limit : Nat) (source name : String) :
    standardOutput (records limit source name) = "" :=
  (outputs_of_records fun _ => isRecord_of_mem_records).1

end Program

end BoSyntax
