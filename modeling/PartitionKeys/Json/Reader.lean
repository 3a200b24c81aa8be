/-
# Reading JSON from left to right

The grammar of texts, arrays and objects, as readers that stop at the first fault.  Values
that nobody asked for are passed over: there the grammar alone counts, so that a number may
be out of range and an escape may name half of a character.
-/
import PartitionKeys.Json.Number

namespace PartitionKeys.Json

/-! ## Blanks, words and punctuation -/

/-- The four characters that may stand between tokens. -/
def isBlank (c : Char) : Bool := c == ' ' || c == '\n' || c == '\t' || c == '\r'

/-- The text from its first character that is not blank. -/
def skipBlank (text : List Char) : List Char := text.dropWhile isBlank

/-- Passes over a fixed word. -/
def skipWord : List Char → List Char → Except Fault (List Char)
  | [], text => .ok text
  | _ :: _, [] => .error .truncated
  | w :: word, c :: text => if c = w then skipWord word text else .error .malformed

/-- Passes over the colon after a field's name. -/
def skipColon (text : List Char) : Except Fault (List Char) :=
  match skipBlank text with
  | [] => .error .truncated
  | ':' :: rest => .ok rest
  | _ => .error .malformed

/-! ## Texts -/

/-- The value of a hexadecimal digit. -/
def hexValue? (c : Char) : Option Nat :=
  if isDigit c then some (digitValue c)
  else if 'a' ≤ c ∧ c ≤ 'f' then some (c.toNat - 'a'.toNat + 10)
  else if 'A' ≤ c ∧ c ≤ 'F' then some (c.toNat - 'A'.toNat + 10)
  else none

/-- The four hexadecimal digits of an escape.  A text with fewer than four bytes left is
taken to end inside the escape, whatever those bytes are. -/
def takeHex (text : List Char) : Except Fault (Nat × List Char) :=
  match text with
  | a :: b :: c :: d :: rest =>
    match hexValue? a, hexValue? b, hexValue? c, hexValue? d with
    | some a, some b, some c, some d => .ok (((a * 16 + b) * 16 + c) * 16 + d, rest)
    | _, _, _, _ => .error .malformed
  | few => .error (if (String.ofList few).utf8ByteSize < 4 then .truncated else .malformed)

/-- The character of an escape with a single letter. -/
def simpleEscape? : Char → Option Char
  | '"' => some '"'
  | '\\' => some '\\'
  | '/' => some '/'
  | 'b' => some '\x08'
  | 'f' => some '\x0c'
  | 'n' => some '\n'
  | 'r' => some '\r'
  | 't' => some '\t'
  | _ => none

/-- Whether a code is the first half of a pair. -/
def isLeadingHalf (code : Nat) : Bool := decide (0xd800 ≤ code) && decide (code ≤ 0xdbff)

/-- Whether a code is the second half of a pair. -/
def isTrailingHalf (code : Nat) : Bool := decide (0xdc00 ≤ code) && decide (code ≤ 0xdfff)

/-- The character that a pair of halves stands for. -/
def joinHalves (leading trailing : Nat) : Char :=
  Char.ofNat (0x10000 + (leading - 0xd800) * 0x400 + (trailing - 0xdc00))

/-- The second half of a pair, which must follow the first at once. -/
def takeTrailingHalf (text : List Char) : Except Fault (Nat × List Char) :=
  match text with
  | [] | ['\\'] => .error .truncated
  | '\\' :: 'u' :: rest => do
    let (code, rest) ← takeHex rest
    if isTrailingHalf code then .ok (code, rest) else .error .malformed
  | _ => .error .malformed

/-- The character of a numeric escape, after its letter `u`. -/
def takeUnicode (text : List Char) : Except Fault (Char × List Char) := do
  let (code, rest) ← takeHex text
  if isTrailingHalf code then .error .malformed
  else if isLeadingHalf code then
    let (trailing, rest) ← takeTrailingHalf rest
    .ok (joinHalves code trailing, rest)
  else .ok (Char.ofNat code, rest)

/-- The character of an escape, after its backslash. -/
def takeEscape : List Char → Except Fault (Char × List Char)
  | [] => .error .truncated
  | 'u' :: rest => takeUnicode rest
  | c :: rest =>
    match simpleEscape? c with
    | some d => .ok (d, rest)
    | none => .error .malformed

/-- The characters of a quoted text after its opening quote, with an allowance of steps;
a character below the blank must be escaped. -/
def readQuotedWithin : Nat → Reader (List Char)
  | 0, _ => .error .truncated
  | _ + 1, [] => .error .truncated
  | steps + 1, c :: text =>
    if c = '"' then .ok ([], text)
    else if c = '\\' then do
      let (d, rest) ← takeEscape text
      let (more, rest) ← readQuotedWithin steps rest
      .ok (d :: more, rest)
    else if c < ' ' then .error .malformed
    else do
      let (more, rest) ← readQuotedWithin steps text
      .ok (c :: more, rest)

/-- A quoted text after its opening quote. -/
def readQuoted : Reader String := fun text => do
  let (chars, rest) ← readQuotedWithin (text.length + 1) text
  .ok (String.ofList chars, rest)

/-- Passes over an escape, after its backslash; half a character will do. -/
def skipEscape : List Char → Except Fault (List Char)
  | [] => .error .truncated
  | 'u' :: rest => do
    let (_, rest) ← takeHex rest
    .ok rest
  | c :: rest => if (simpleEscape? c).isSome then .ok rest else .error .malformed

/-- Passes over a quoted text after its opening quote, with an allowance of steps. -/
def skipQuotedWithin : Nat → List Char → Except Fault (List Char)
  | 0, _ => .error .truncated
  | _ + 1, [] => .error .truncated
  | steps + 1, c :: text =>
    if c = '"' then .ok text
    else if c = '\\' then do
      let rest ← skipEscape text
      skipQuotedWithin steps rest
    else if c < ' ' then .error .malformed
    else skipQuotedWithin steps text

/-- Passes over a quoted text after its opening quote. -/
def skipQuoted (text : List Char) : Except Fault (List Char) :=
  skipQuotedWithin (text.length + 1) text

/-! ## Arrays and objects -/

/-- Steps to the next element of an array, past the comma if it is not the first one;
`none` stands before the closing bracket. -/
def nextElement? (first : Bool) (text : List Char) : Except Fault (Option (List Char)) :=
  match skipBlank text with
  | [] => .error .truncated
  | ']' :: _ => .ok none
  | c :: rest =>
    if first then .ok (some (c :: rest))
    else if c = ',' then
      match skipBlank rest with
      | [] => .error .truncated
      | ']' :: _ => .error .malformed
      | rest => .ok (some rest)
    else .error .malformed

/-- Closes an array whose elements have all been taken. -/
def closeArray (text : List Char) : Except Fault (List Char) :=
  match skipBlank text with
  | [] => .error .truncated
  | ']' :: rest => .ok rest
  | _ => .error .malformed

/-- Steps to the name of the next field of an object, past its opening quote; `none` stands
before the closing brace. -/
def nextField? (first : Bool) (text : List Char) : Except Fault (Option (List Char)) :=
  match skipBlank text with
  | [] => .error .truncated
  | '\x7d' :: _ => .ok none
  | c :: rest =>
    if first then
      if c = '"' then .ok (some rest) else .error .malformed
    else if c = ',' then
      match skipBlank rest with
      | [] => .error .truncated
      | '"' :: rest => .ok (some rest)
      | _ => .error .malformed
    else .error .malformed

/-- Closes an object whose fields have all been taken. -/
def closeObject (text : List Char) : Except Fault (List Char) :=
  match skipBlank text with
  | [] => .error .truncated
  | '\x7d' :: rest => .ok rest
  | _ => .error .malformed

/-- The elements of an array after its opening bracket, with an allowance of steps. -/
def readElementsWithin {α : Type} (element : Reader α) : Nat → Bool → Reader (List α)
  | 0, _, _ => .error .truncated
  | steps + 1, first, text => do
    match ← nextElement? first text with
    | none =>
      let rest ← closeArray text
      .ok ([], rest)
    | some text =>
      let (x, rest) ← element text
      let (more, rest) ← readElementsWithin element steps false rest
      .ok (x :: more, rest)

/-- The elements of an array after its opening bracket. -/
def readElements {α : Type} (element : Reader α) : Reader (List α) := fun text =>
  readElementsWithin element (text.length + 1) true text

/-- The fields of an object after its opening brace, with an allowance of steps.  Each one is
handed on with its name as the text behind the name, and folded into a state. -/
def foldFieldsWithin {σ : Type} (field : String → σ → Reader σ) : Nat → Bool → σ → Reader σ
  | 0, _, _, _ => .error .truncated
  | steps + 1, first, state, text => do
    match ← nextField? first text with
    | none =>
      .ok (state, text)
    | some text =>
      let (name, rest) ← readQuoted text
      let (state, rest) ← field name state rest
      foldFieldsWithin field steps false state rest

/-- The fields of an object after its opening brace, up to the closing one. -/
def foldFields {σ : Type} (field : String → σ → Reader σ) (state : σ) : Reader σ := fun text =>
  foldFieldsWithin field (text.length + 1) true state text

/-! ## Passing over a value -/

/-- Passes over the elements of an array, each by `skipOne`. -/
def skipElementsWithin (skipOne : List Char → Except Fault (List Char)) :
    Nat → Bool → List Char → Except Fault (List Char)
  | 0, _, _ => .error .truncated
  | steps + 1, first, text => do
    match ← nextElement? first text with
    | none => closeArray text
    | some text =>
      let rest ← skipOne text
      skipElementsWithin skipOne steps false rest

/-- Passes over the fields of an object, each value by `skipOne`. -/
def skipFieldsWithin (skipOne : List Char → Except Fault (List Char)) :
    Nat → Bool → List Char → Except Fault (List Char)
  | 0, _, _ => .error .truncated
  | steps + 1, first, text => do
    match ← nextField? first text with
    | none => closeObject text
    | some text =>
      let rest ← skipQuoted text
      let rest ← skipColon rest
      let rest ← skipOne rest
      skipFieldsWithin skipOne steps false rest

/-- Passes over a value, with an allowance of nesting. -/
def skipValueWithin : Nat → List Char → Except Fault (List Char)
  | 0, _ => .error .truncated
  | depth + 1, text =>
    match skipBlank text with
    | [] => .error .truncated
    | 'n' :: rest => skipWord ['u', 'l', 'l'] rest
    | 't' :: rest => skipWord ['r', 'u', 'e'] rest
    | 'f' :: rest => skipWord ['a', 'l', 's', 'e'] rest
    | '"' :: rest => skipQuoted rest
    | '[' :: rest => skipElementsWithin (skipValueWithin depth) (rest.length + 1) true rest
    | '\x7b' :: rest => skipFieldsWithin (skipValueWithin depth) (rest.length + 1) true rest
    | c :: rest =>
      if c = '-' ∨ isDigit c = true then do
        let (_, rest) ← takeLiteral .malformed (c :: rest)
        .ok rest
      else .error .malformed

/-- Passes over a value of any depth. -/
def skipValue (text : List Char) : Except Fault (List Char) :=
  skipValueWithin (text.length + 1) text

/-! ## Values of a kind -/

/-- The fault of a value that is not of the kind asked for.  A word, number or quoted text is
still read, and its own fault goes first; an array or object is not entered. -/
def otherKind (text : List Char) : Fault :=
  let after {α : Type} (outcome : Except Fault α) : Fault :=
    match outcome with
    | .ok _ => .mismatch .invalidType
    | .error fault => fault
  match text with
  | [] => .truncated
  | 'n' :: rest => after (skipWord ['u', 'l', 'l'] rest)
  | 't' :: rest => after (skipWord ['r', 'u', 'e'] rest)
  | 'f' :: rest => after (skipWord ['a', 'l', 's', 'e'] rest)
  | '"' :: rest => after (readQuoted rest)
  | '[' :: _ => .mismatch .invalidType
  | '\x7b' :: _ => .mismatch .invalidType
  | c :: rest =>
    if c = '-' ∨ isDigit c = true then after (readNumber (c :: rest)) else .malformed

/-- A quoted text. -/
def readText : Reader String := fun text =>
  match skipBlank text with
  | '"' :: rest => readQuoted rest
  | other => .error (otherKind other)

/-- A number of any kind. -/
def readAnyNumber : Reader Number := fun text =>
  match skipBlank text with
  | c :: rest =>
    if c = '-' ∨ isDigit c = true then readNumber (c :: rest) else .error (otherKind (c :: rest))
  | [] => .error .truncated

/-- A whole number between two bounds. -/
def readInteger (low high : Int) : Reader Int := fun text => do
  let (n, rest) ← readAnyNumber text
  match n with
  | .natural n => if (n : Int) ≤ high then .ok (n, rest) else .error (.mismatch .invalidValue)
  | .negative n => if low ≤ n then .ok (n, rest) else .error (.mismatch .invalidValue)
  | .float _ => .error (.mismatch .invalidType)

/-- A whole number of sixty-four bits with a sign. -/
def readInt64 : Reader Int64 := fun text => do
  let (n, rest) ← readInteger Int64.minValue.toInt Int64.maxValue.toInt text
  .ok (Int64.ofInt n, rest)

/-- A number as a floating point number. -/
def readBinary64 : Reader Binary64 := fun text => do
  let (n, rest) ← readAnyNumber text
  .ok (n.toBinary64, rest)

/-- An array whose elements are all read alike. -/
def readArray {α : Type} (element : Reader α) : Reader (List α) := fun text =>
  match skipBlank text with
  | '[' :: rest => readElements element rest
  | other => .error (otherKind other)

/-- A value that may be missing, written as `null`. -/
def readOptional {α : Type} (value : Reader α) : Reader (Option α) := fun text =>
  match skipBlank text with
  | 'n' :: rest => do
    let rest ← skipWord ['u', 'l', 'l'] rest
    .ok (none, rest)
  | text => do
    let (x, rest) ← value text
    .ok (some x, rest)

/-- The word `null`. -/
def skipNull (text : List Char) : Except Fault (List Char) :=
  match skipBlank text with
  | 'n' :: rest => skipWord ['u', 'l', 'l'] rest
  | other => .error (otherKind other)

/-- The alternative that has a name. -/
def chooseAlternative {α : Type} (alternatives : List (String × α)) (name : String) :
    Except Fault α :=
  match alternatives.lookup name with
  | some x => .ok x
  | none => .error (.mismatch (.unknownVariant name))

/-- One of some named alternatives, written as its name. -/
def readName {α : Type} (alternatives : List (String × α)) : Reader α := fun text => do
  let (name, rest) ← readText text
  let x ← chooseAlternative alternatives name
  .ok (x, rest)

/-- One of some named alternatives.  It is written as its name or as an object whose only
field has that name and the value `null`; no other kind of value has a chance. -/
def readAlternative {α : Type} (alternatives : List (String × α)) : Reader α := fun text =>
  match skipBlank text with
  | [] => .error .truncated
  | '"' :: rest => readName alternatives ('"' :: rest)
  | '\x7b' :: rest => do
    match ← nextField? true rest with
    | none => .error .malformed
    | some rest =>
      let (x, rest) ← readName alternatives ('"' :: rest)
      let rest ← skipColon rest
      let rest ← skipNull rest
      let rest ← closeObject rest
      .ok (x, rest)
  | _ => .error .malformed

/-- A whole text: one value, and nothing but blanks behind it. -/
def readWhole {α : Type} (value : Reader α) (text : String) : Except Fault α := do
  let (x, rest) ← value text.toList
  match skipBlank rest with
  | [] => .ok x
  | _ => .error .malformed

end PartitionKeys.Json
