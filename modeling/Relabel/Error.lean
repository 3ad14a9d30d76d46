import Relabel.Disk.Path

/-!
# What can go wrong

`Error` names the causes; `Error.message` words them, and `Error.report` adds the cause that the
message itself rests on.
-/

namespace Relabel

/-- Why an operation stopped. -/
inductive Error where
  /-- A value the user gave is not acceptable. -/
  | validation (field detail : String)
  /-- A file could not be read, understood or written. -/
  | persistence (operation : String) (path : Path) (cause : String)
  /-- An item refused its new name. -/
  | mutation (item detail : String)
  /-- A find text gives no usable pattern. -/
  | patternCompile (find cause : String)
  /-- The session has ended, in the given state. -/
  | sessionClosed (state : String)
  /-- Anything else that an operation reports. -/
  | generic (message : String)
  /-- The run as a whole cannot go on. -/
  | run (message : String)
  deriving DecidableEq, Repr

namespace Error

def message : Error → String
  | validation field detail => s!"Invalid {field}: {detail}"
  | persistence operation path cause => s!"Failed to {operation} {path}: {cause}"
  | mutation item detail => s!"Could not rename '{item}': {detail}"
  | patternCompile find _ => s!"Invalid find pattern: {find}"
  | sessionClosed state => s!"Rename session is already {state}"
  | generic message => message
  | run message => message

/-- The cause below the error, for the two kinds that carry one. -/
def cause? : Error → Option String
  | persistence _ _ cause => some cause
  | patternCompile _ cause => some cause
  | _ => none

/-- The message followed by the cause below it. -/
def report (e : Error) : String :=
  match e.cause? with
  | some cause => s!"{e.message}: {cause}"
  | none => e.message

/-- An error of reading or writing that no path or operation is known for. -/
def ofCause (cause : String) : Error := .persistence "access" ⟨[]⟩ cause

end Error
end Relabel
