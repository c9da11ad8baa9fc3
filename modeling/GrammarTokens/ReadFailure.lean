/-!
# Failures of a reader

A reader of bytes may fail before its end. Two kinds of failure have a meaning of their own:
an interruption, after which the same read is tried again, and data that is no text.
-/

namespace GrammarTokens

/-- Why a read failed. -/
inductive FailureKind where
  /-- The read was interrupted and is to be tried again. -/
  | interrupted
  /-- The bytes that were read are no text. -/
  | invalidData
  /-- Any other reason, by its name. -/
  | other (name : String)
deriving DecidableEq, Repr, Inhabited

/-- A failed read: its kind, and the reader's own words for it. -/
structure ReadFailure where
  kind : FailureKind
  message : String
deriving DecidableEq, Repr, Inhabited

/-- Whether the read is to be tried again. -/
def ReadFailure.isInterruption (f : ReadFailure) : Bool := f.kind == .interrupted

end GrammarTokens
