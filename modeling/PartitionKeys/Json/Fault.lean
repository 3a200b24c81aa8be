/-
# Why a JSON text was not read

Reading goes from left to right and stops at the first fault.  A text can end too early, it
can break the grammar, or it can be well formed and hold something else than what was asked
for; only the last kind has a cause worth telling.
-/

namespace PartitionKeys.Json

/-- How a well-formed value differs from what was asked for. -/
inductive Mismatch where
  /-- A name that none of the alternatives has. -/
  | unknownVariant (name : String)
  /-- A value of another kind, say text for a number. -/
  | invalidType
  /-- A number outside the range asked for. -/
  | invalidValue
  /-- An array with too few elements, and how many it has. -/
  | invalidLength (found : Nat)
  /-- An object that ended without a required field. -/
  | missingField (name : String)
  /-- A field that occurs twice. -/
  | duplicateField (name : String)
  /-- A value that fits none of the shapes of an untagged type. -/
  | noVariant (type : String)
deriving DecidableEq, Repr

/-- What is said about a mismatch, up to the point where the found value is described. -/
def Mismatch.headline : Mismatch → String
  | .unknownVariant name => "unknown variant `" ++ name ++ "`"
  | .invalidType => "invalid type"
  | .invalidValue => "invalid value"
  | .invalidLength found => "invalid length " ++ toString found
  | .missingField name => "missing field `" ++ name ++ "`"
  | .duplicateField name => "duplicate field `" ++ name ++ "`"
  | .noVariant type => "data did not match any variant of untagged enum " ++ type

/-- The first fault of a text. -/
inductive Fault where
  /-- The text ended inside a value. -/
  | truncated
  /-- The text breaks the grammar. -/
  | malformed
  /-- The text holds something else than what was asked for. -/
  | mismatch (cause : Mismatch)
deriving DecidableEq, Repr

/-- The class of a fault. -/
def Fault.category : Fault → String
  | .truncated => "eof"
  | .malformed => "syntax"
  | .mismatch _ => "data"

/-- A reader takes a value from the front of a text and leaves the rest. -/
abbrev Reader (α : Type) := List Char → Except Fault (α × List Char)

end PartitionKeys.Json
