/-
# Writing JSON

Texts are written without blanks, fields in a fixed order.  Only the quote, the backslash and
the characters below the blank are escaped.
-/
import PartitionKeys.Binary64.Notation

namespace PartitionKeys.Json

/-- Numbers are written positionally from `1e-5` up to, but not including, `1e16`, always
with a point or an exponent; exponents have a sign and ties go to the even digit. -/
def numberLayout : Layout where
  positional e := decide (-5 ≤ e) && decide (e < 16)
  keepPoint := true
  plusSign := true
  tie := .even

/-- A floating point number; the values that are not finite are written as `null`. -/
def writeBinary64 (x : Binary64) : List Char :=
  if Binary64.infiniteMagnitude ≤ x.magnitude then ['n', 'u', 'l', 'l']
  else (numberLayout.text x).toList

/-- One character of a quoted text. -/
def writeChar (c : Char) : List Char :=
  match c with
  | '"' => ['\\', '"']
  | '\\' => ['\\', '\\']
  | '\x08' => ['\\', 'b']
  | '\x0c' => ['\\', 'f']
  | '\n' => ['\\', 'n']
  | '\r' => ['\\', 'r']
  | '\t' => ['\\', 't']
  | c =>
    if c < ' ' then
      ['\\', 'u', '0', '0', Bytes.hexDigit (c.toNat / 16), Bytes.hexDigit (c.toNat % 16)]
    else [c]

/-- A quoted text. -/
def writeText (s : String) : List Char := '"' :: s.toList.flatMap writeChar ++ ['"']

/-- A whole number. -/
def writeInt (n : Int) : List Char := (toString n).toList

/-- Parts with commas between them. -/
def separated : List (List Char) → List Char
  | [] => []
  | [part] => part
  | part :: parts => part ++ ',' :: separated parts

/-- An array of written elements. -/
def writeArray (elements : List (List Char)) : List Char := '[' :: separated elements ++ [']']

/-- An object of named and written fields. -/
def writeObject (fields : List (String × List Char)) : List Char :=
  '\x7b' :: separated (fields.map fun (name, value) => writeText name ++ ':' :: value) ++ ['\x7d']

/-- A value that may be missing, written as `null`. -/
def writeOptional {α : Type} (write : α → List Char) : Option α → List Char
  | none => ['n', 'u', 'l', 'l']
  | some x => write x

end PartitionKeys.Json
