/-
# Values of unknown kind

Where the kind of a value is not known before it has been read, the value is kept as a tree
and interpreted afterwards.  Trees are read with a limit on nesting.
-/
import PartitionKeys.Json.Reader

namespace PartitionKeys.Json

/-- A JSON value. -/
inductive Content where
  | null
  | boolean (b : Bool)
  | number (n : Number)
  | text (s : String)
  | array (elements : List Content)
  | object (fields : List (String × Content))

/-- How many arrays and objects may be open at once. -/
def nestingLimit : Nat := 127

/-- A value of any kind in which at most `room` further arrays and objects may be open at
once; deeper nesting is malformed. -/
def readContent : Nat → Reader Content
  | room, text =>
    match skipBlank text with
    | [] => .error .truncated
    | 'n' :: rest => do
      let rest ← skipWord ['u', 'l', 'l'] rest
      .ok (.null, rest)
    | 't' :: rest => do
      let rest ← skipWord ['r', 'u', 'e'] rest
      .ok (.boolean true, rest)
    | 'f' :: rest => do
      let rest ← skipWord ['a', 'l', 's', 'e'] rest
      .ok (.boolean false, rest)
    | '"' :: rest => do
      let (s, rest) ← readQuoted rest
      .ok (.text s, rest)
    | '[' :: rest =>
      match room with
      | 0 => .error .malformed
      | room + 1 => do
        let (elements, rest) ← readElements (readContent room) rest
        .ok (.array elements, rest)
    | '\x7b' :: rest =>
      match room with
      | 0 => .error .malformed
      | room + 1 => do
        let (fields, rest) ← foldFields
          (fun name fields text => do
            let text ← skipColon text
            let (value, text) ← readContent room text
            .ok ((name, value) :: fields, text)) [] rest
        let rest ← closeObject rest
        .ok (.object fields.reverse, rest)
    | c :: rest =>
      if c = '-' ∨ isDigit c = true then do
        let (n, rest) ← readNumber (c :: rest)
        .ok (.number n, rest)
      else .error .malformed

namespace Content

/-- A whole number between two bounds. -/
def integer (low high : Int) : Content → Except Mismatch Int
  | .number (.natural n) => if (n : Int) ≤ high then .ok n else .error .invalidValue
  | .number (.negative n) => if low ≤ n then .ok n else .error .invalidValue
  | _ => .error .invalidType

/-- A whole number of sixty-four bits with a sign. -/
def int64 (content : Content) : Except Mismatch Int64 :=
  (content.integer Int64.minValue.toInt Int64.maxValue.toInt).map Int64.ofInt

/-- A number as a floating point number. -/
def binary64 : Content → Except Mismatch Binary64
  | .number n => .ok n.toBinary64
  | _ => .error .invalidType

/-- A text. -/
def string : Content → Except Mismatch String
  | .text s => .ok s
  | _ => .error .invalidType

end Content

end PartitionKeys.Json
