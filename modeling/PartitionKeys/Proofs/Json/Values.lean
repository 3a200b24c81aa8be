/-
# Written values are read back

What is written for a text, a whole number, an array, an object or a value that may be missing
is read as what was written, and the reader stops exactly behind it.  The only thing that must
be known of the text behind a value is that a number would not go on with it; commas and
closing brackets are such.  Arrays and objects are read in as many steps as they have elements,
so that the allowance of steps, the length of the text, is never used up.
-/
import PartitionKeys.Proofs.Json.Literal
import PartitionKeys.Json.Content

namespace PartitionKeys

namespace Json

/-- A reader takes a written value back, and nothing of what stands behind it. -/
def ReadsBack {α : Type} (read : Reader α) (written : List Char) (x : α) : Prop :=
  ∀ rest, EndsNumber rest → read (written ++ rest) = .ok (x, rest)

/-- A text that starts with a token other than the ones a reader looks for on its own: no blank,
no closing bracket, and not the word for a missing value. -/
def StartsValue (written : List Char) : Prop :=
  ∃ c more, written = c :: more ∧ isBlank c = false ∧ c ≠ ']' ∧ c ≠ 'n'

@[simp] lemma skipBlank_cons {c : Char} {text : List Char} (h : isBlank c = false) :
    skipBlank (c :: text) = c :: text := by simp [skipBlank, h]

/-- Behind a comma the next element is found. -/
lemma nextElement?_comma {written : List Char} (h : StartsValue written) (rest : List Char) :
    nextElement? false (',' :: (written ++ rest)) = .ok (some (written ++ rest)) := by
  obtain ⟨c, more, rfl, hblank, hclose, -⟩ := h
  have hcomma : isBlank ',' = false := by decide
  rw [nextElement?, skipBlank_cons hcomma]
  split
  · rename_i heq
    cases heq
  · rename_i heq
    exact absurd (List.cons.inj heq).1 (by decide)
  · rename_i heq
    obtain ⟨rfl, rfl⟩ := List.cons.inj heq
    rw [if_neg (by decide), if_pos rfl, List.cons_append, skipBlank_cons hblank]
    split
    · rename_i hsame
      cases hsame
    · rename_i hsame
      exact absurd (List.cons.inj hsame).1 hclose
    · rfl

/-- Behind an opening bracket the first element is found. -/
lemma nextElement?_bracket {written : List Char} (h : StartsValue written) (rest : List Char) :
    nextElement? true (written ++ rest) = .ok (some (written ++ rest)) := by
  obtain ⟨c, more, rfl, hblank, hclose, -⟩ := h
  rw [nextElement?, List.cons_append, skipBlank_cons hblank]
  split
  · rename_i heq
    cases heq
  · rename_i heq
    exact absurd (List.cons.inj heq).1 hclose
  · rename_i heq
    cases heq
    rfl

lemma endsNumber_comma (rest : List Char) : EndsNumber (',' :: rest) :=
  endsNumber_cons (by decide)

lemma endsNumber_bracket (rest : List Char) : EndsNumber (']' :: rest) :=
  endsNumber_cons (by decide)

lemma endsNumber_brace (rest : List Char) : EndsNumber ('\x7d' :: rest) :=
  endsNumber_cons (by decide)

/-- A text that is one written value is read as it. -/
theorem ReadsBack.readWhole {α : Type} {read : Reader α} {written : List Char} {x : α}
    (h : ReadsBack read written x) : readWhole read (String.ofList written) = .ok x := by
  have hread := h [] endsNumber_nil
  rw [List.append_nil] at hread
  simp [Json.readWhole, hread, skipBlank, bind, Except.bind]

/-! ## Texts -/

lemma hexValue?_hexDigit {n : Nat} (h : n < 16) : hexValue? (Bytes.hexDigit n) = some n := by
  have hall : ∀ n < 16, hexValue? (Bytes.hexDigit n) = some n := by decide
  exact hall n h

/-- The escape of a character below the blank names that character. -/
lemma takeUnicode_control {c : Char} {text : List Char} (h : c < ' ') :
    takeUnicode ('0' :: '0' :: Bytes.hexDigit (c.toNat / 16) :: Bytes.hexDigit (c.toNat % 16) ::
      text) = .ok (c, text) := by
  have hc : c.toNat < 32 := h
  have hzero : hexValue? '0' = some 0 := by decide
  have hhigh := hexValue?_hexDigit (n := c.toNat / 16) (by omega)
  have hlow := hexValue?_hexDigit (n := c.toNat % 16) (by omega)
  have hcode : ((0 * 16 + 0) * 16 + c.toNat / 16) * 16 + c.toNat % 16 = c.toNat := by omega
  have htrailing : isTrailingHalf c.toNat = false := by
    simp only [isTrailingHalf, Bool.and_eq_false_imp, decide_eq_true_eq]
    omega
  have hleading : isLeadingHalf c.toNat = false := by
    simp only [isLeadingHalf, Bool.and_eq_false_imp, decide_eq_true_eq]
    omega
  simp only [takeUnicode, takeHex, hzero, hhigh, hlow, hcode, bind, Except.bind, htrailing,
    hleading, Bool.false_eq_true, if_false, Char.ofNat_toNat]

lemma readQuotedWithin_escape {c : Char} {text rest : List Char} (steps : Nat)
    (h : takeEscape text = .ok (c, rest)) :
    readQuotedWithin (steps + 1) ('\\' :: text) =
      (readQuotedWithin steps rest).map fun result => (c :: result.1, result.2) := by
  rw [readQuotedWithin, if_neg (by decide), if_pos rfl, h]
  simp only [bind, Except.bind]
  cases readQuotedWithin steps rest <;> rfl

/-- One step takes one written character. -/
lemma readQuotedWithin_writeChar (c : Char) (steps : Nat) (text : List Char) :
    readQuotedWithin (steps + 1) (writeChar c ++ text) =
      (readQuotedWithin steps text).map fun result => (c :: result.1, result.2) := by
  unfold writeChar
  split
  case h_8 hquote hslash _ _ _ _ _ =>
    split
    · rename_i hcontrol
      exact readQuotedWithin_escape steps (takeUnicode_control hcontrol)
    · rename_i hplain
      rw [List.singleton_append, readQuotedWithin, if_neg hquote, if_neg hslash, if_neg hplain]
      cases readQuotedWithin steps text <;> rfl
  all_goals exact readQuotedWithin_escape steps rfl

lemma readQuotedWithin_flatMap (chars rest : List Char) {steps : Nat}
    (h : chars.length < steps) :
    readQuotedWithin steps (chars.flatMap writeChar ++ '"' :: rest) = .ok (chars, rest) := by
  induction chars generalizing steps with
  | nil =>
    obtain ⟨steps, rfl⟩ := Nat.exists_eq_succ_of_ne_zero (Nat.ne_of_gt h)
    simp [readQuotedWithin]
  | cons c chars ih =>
    obtain ⟨steps, rfl⟩ := Nat.exists_eq_succ_of_ne_zero (Nat.ne_of_gt (Nat.zero_lt_of_lt h))
    rw [List.length_cons] at h
    rw [List.flatMap_cons, List.append_assoc, readQuotedWithin_writeChar, ih (by omega)]
    rfl

lemma one_le_length_writeChar (c : Char) : 1 ≤ (writeChar c).length := by
  unfold writeChar
  split
  case h_8 => split <;> simp
  all_goals simp

lemma length_le_flatMap {ι : Type} (xs : List ι) {write : ι → List Char}
    (h : ∀ x, 1 ≤ (write x).length) : xs.length ≤ (xs.flatMap write).length := by
  induction xs with
  | nil => simp
  | cons x xs ih =>
    have := h x
    rw [List.flatMap_cons, List.length_cons, List.length_append]
    omega

lemma readQuoted_writeText (s : String) (rest : List Char) :
    readQuoted (s.toList.flatMap writeChar ++ '"' :: rest) = .ok (s, rest) := by
  have hlength : s.toList.length <
      (s.toList.flatMap writeChar ++ '"' :: rest).length + 1 := by
    have := length_le_flatMap s.toList one_le_length_writeChar
    rw [List.length_append]
    omega
  rw [readQuoted, readQuotedWithin_flatMap _ _ hlength]
  simp [bind, Except.bind]

lemma writeText_append (s : String) (rest : List Char) :
    writeText s ++ rest = '"' :: (s.toList.flatMap writeChar ++ '"' :: rest) := by
  simp [writeText]

lemma startsValue_writeText (s : String) : StartsValue (writeText s) :=
  ⟨'"', _, rfl, by decide, by decide, by decide⟩

/-- **Written texts are read back**, whatever characters they have. -/
theorem readsBack_writeText (s : String) : ReadsBack readText (writeText s) s := by
  intro rest _
  rw [readText, writeText_append, skipBlank_cons (by decide)]
  exact readQuoted_writeText s rest

lemma readsBack_content_writeText (room : Nat) (s : String) :
    ReadsBack (readContent room) (writeText s) (.text s) := by
  intro rest _
  rw [readContent, writeText_append, skipBlank_cons (by decide)]
  simp [readQuoted_writeText, bind, Except.bind]

/-- One of some named alternatives is read back from its name. -/
theorem readsBack_alternative {α : Type} {alternatives : List (String × α)} {name : String}
    {x : α} (h : alternatives.lookup name = some x) :
    ReadsBack (readAlternative alternatives) (writeText name) x := by
  intro rest hrest
  have hname : readName alternatives (writeText name ++ rest) = .ok (x, rest) := by
    simp [readName, readsBack_writeText name rest hrest, chooseAlternative, h, bind, Except.bind]
  rw [writeText_append] at hname ⊢
  rw [readAlternative, skipBlank_cons (by decide)]
  exact hname

/-! ## Whole numbers -/

/-- A spelled number starts like no other value. -/
lemma head_writeInt (n : Int) :
    ∃ c more, writeInt n = c :: more ∧ (c = '-' ∨ isDigit c = true) := by
  rw [writeInt_eq]
  exact (Literal.grammatical_ofInt n).head

lemma number_head_ne {c d : Char} (hc : c = '-' ∨ isDigit c = true) (hminus : d ≠ '-')
    (hdigit : isDigit d = false) : c ≠ d := by
  rintro rfl
  rcases hc with rfl | hc
  · exact hminus rfl
  · rw [hc] at hdigit
    cases hdigit

lemma isBlank_number_head {c : Char} (hc : c = '-' ∨ isDigit c = true) : isBlank c = false := by
  have hspace := number_head_ne (d := ' ') hc (by decide) (by decide)
  have hline := number_head_ne (d := '\n') hc (by decide) (by decide)
  have htab := number_head_ne (d := '\t') hc (by decide) (by decide)
  have hreturn := number_head_ne (d := '\r') hc (by decide) (by decide)
  simp [isBlank, hspace, hline, htab, hreturn]

lemma startsValue_writeInt (n : Int) : StartsValue (writeInt n) := by
  obtain ⟨c, more, hn, hc⟩ := head_writeInt n
  exact ⟨c, more, hn, isBlank_number_head hc, number_head_ne hc (by decide) (by decide),
    number_head_ne hc (by decide) (by decide)⟩

lemma readAnyNumber_cons {c : Char} {text : List Char} (hc : c = '-' ∨ isDigit c = true) :
    readAnyNumber (c :: text) = readNumber (c :: text) := by
  rw [readAnyNumber, skipBlank_cons (isBlank_number_head hc)]
  exact if_pos hc

/-- A value that starts like a number is read as one. -/
lemma readContent_number {room : Nat} {c : Char} {text : List Char}
    (hc : c = '-' ∨ isDigit c = true) :
    readContent room (c :: text) =
      (readNumber (c :: text)).map fun result => (.number result.1, result.2) := by
  have hnull := number_head_ne (d := 'n') hc (by decide) (by decide)
  have htrue := number_head_ne (d := 't') hc (by decide) (by decide)
  have hfalse := number_head_ne (d := 'f') hc (by decide) (by decide)
  have hquote := number_head_ne (d := '"') hc (by decide) (by decide)
  have hbracket := number_head_ne (d := '[') hc (by decide) (by decide)
  have hbrace := number_head_ne (d := '\x7b') hc (by decide) (by decide)
  rw [readContent, skipBlank_cons (isBlank_number_head hc)]
  simp only [hc, if_true]
  cases readNumber (c :: text) <;> rfl

variable {n : Int}

lemma readsBack_anyNumber_writeInt (hlow : -0x8000000000000000 ≤ n)
    (hhigh : n < 0x10000000000000000) :
    ReadsBack readAnyNumber (writeInt n) (Number.ofInt n) := by
  intro rest hrest
  have hread := readNumber_writeInt hlow hhigh hrest
  obtain ⟨c, more, hn, hc⟩ := head_writeInt n
  rw [hn, List.cons_append] at hread ⊢
  rw [readAnyNumber_cons hc, hread]

lemma readsBack_content_writeInt (room : Nat) (hlow : -0x8000000000000000 ≤ n)
    (hhigh : n < 0x10000000000000000) :
    ReadsBack (readContent room) (writeInt n) (.number (Number.ofInt n)) := by
  intro rest hrest
  have hread := readNumber_writeInt hlow hhigh hrest
  obtain ⟨c, more, hn, hc⟩ := head_writeInt n
  rw [hn, List.cons_append] at hread ⊢
  rw [readContent_number hc, hread]
  rfl

/-- A whole number that lies between the bounds it is read with is read back. -/
theorem readsBack_writeInt {low high : Int} (hlow : low ≤ n) (hhigh : n ≤ high)
    (hmin : -0x8000000000000000 ≤ low) (hmax : high < 0x10000000000000000) :
    ReadsBack (readInteger low high) (writeInt n) n := by
  intro rest hrest
  have hread := readsBack_anyNumber_writeInt (n := n) (by omega) (by omega) rest hrest
  rw [readInteger, hread]
  rcases Int.lt_or_le n 0 with hneg | hneg
  · have hnot : ¬ 0 ≤ n := by omega
    simp [Number.ofInt, hnot, bind, Except.bind, hlow]
  · have hnat : ((n.toNat : Nat) : Int) = n := by omega
    simp only [Number.ofInt, if_pos hneg, bind, Except.bind, hnat, hhigh, if_true]

/-- A whole number between two bounds, taken from a value of unknown kind. -/
lemma integer_ofInt {low high : Int} (hlow : low ≤ n) (hhigh : n ≤ high) :
    (Content.number (Number.ofInt n)).integer low high = .ok n := by
  rcases Int.lt_or_le n 0 with hneg | hneg
  · have hnot : ¬ 0 ≤ n := by omega
    simp [Number.ofInt, hnot, Content.integer, hlow]
  · have hnat : ((n.toNat : Nat) : Int) = n := by omega
    simp only [Number.ofInt, if_pos hneg, Content.integer, hnat, hhigh, if_true]

/-! ## Values that may be missing -/

theorem readsBack_writeOptional {α : Type} {read : Reader α} {write : α → List Char}
    (h : ∀ x, ReadsBack read (write x) x) (hstarts : ∀ x, StartsValue (write x))
    (value : Option α) : ReadsBack (readOptional read) (writeOptional write value) value := by
  intro rest hrest
  cases value with
  | none => rfl
  | some x =>
    have hread := h x rest hrest
    obtain ⟨c, more, hx, hblank, -, hnull⟩ := hstarts x
    rw [hx, List.cons_append] at hread
    rw [writeOptional, hx, List.cons_append, readOptional, skipBlank_cons hblank]
    split
    · rename_i heq
      exact absurd (List.cons.inj heq).1 hnull
    · simp [hread, bind, Except.bind]

/-! ## Arrays -/

lemma separated_cons (part : List Char) (parts : List (List Char)) :
    separated (part :: parts) = part ++ parts.flatMap fun next => ',' :: next := by
  induction parts generalizing part with
  | nil => simp [separated]
  | cons next parts ih =>
    rw [separated, ih next]
    · simp
    · simp

section Arrays

variable {ι α : Type} {element : Reader α} {write : ι → List Char} {value : ι → α}

/-- What stands behind an element of an array or a field of an object. -/
lemma endsNumber_separated (parts : List (List Char)) {rest : List Char}
    (hrest : EndsNumber rest) :
    EndsNumber ((parts.flatMap fun next => ',' :: next) ++ rest) := by
  cases parts with
  | nil => simpa using hrest
  | cons next parts => exact endsNumber_comma _

/-- The elements behind the first one: each is preceded by a comma. -/
lemma readElementsWithin_flatMap (xs : List ι) {steps : Nat} (rest : List Char)
    (h : ∀ x ∈ xs, ReadsBack element (write x) (value x))
    (hstarts : ∀ x ∈ xs, StartsValue (write x)) (hsteps : xs.length < steps) :
    readElementsWithin element steps false
      (((xs.map write).flatMap fun next => ',' :: next) ++ ']' :: rest) =
      .ok (xs.map value, rest) := by
  induction xs generalizing steps with
  | nil =>
    obtain ⟨steps, rfl⟩ := Nat.exists_eq_succ_of_ne_zero (Nat.ne_of_gt hsteps)
    rfl
  | cons x xs ih =>
    obtain ⟨steps, rfl⟩ := Nat.exists_eq_succ_of_ne_zero (Nat.ne_of_gt (Nat.zero_lt_of_lt hsteps))
    rw [List.length_cons] at hsteps
    have hmore := ih (fun y hy => h y (by simp [hy])) (fun y hy => hstarts y (by simp [hy]))
      (Nat.lt_of_succ_lt_succ hsteps)
    have hread := h x (by simp) _ (endsNumber_separated (xs.map write) (endsNumber_bracket rest))
    simp only [List.map_cons, List.flatMap_cons, List.cons_append, List.append_assoc,
      readElementsWithin, nextElement?_comma (hstarts x (by simp)), bind, Except.bind, hread, hmore]

lemma length_le_separated (xs : List ι) : xs.length ≤ (separated (xs.map write)).length + 1 := by
  cases xs with
  | nil => simp
  | cons x xs =>
    have : (xs.map write).length ≤ ((xs.map write).flatMap fun next => ',' :: next).length :=
      length_le_flatMap _ (by simp)
    rw [List.map_cons, separated_cons, List.length_append, List.length_cons]
    rw [List.length_map] at this
    omega

/-- The elements of a written array are read back one by one. -/
theorem readElements_separated (xs : List ι) (rest : List Char)
    (h : ∀ x ∈ xs, ReadsBack element (write x) (value x))
    (hstarts : ∀ x ∈ xs, StartsValue (write x)) :
    readElements element (separated (xs.map write) ++ ']' :: rest) = .ok (xs.map value, rest) := by
  have hsteps : xs.length ≤ (separated (xs.map write)).length + 1 := length_le_separated xs
  rw [readElements]
  generalize hlength : (separated (xs.map write) ++ ']' :: rest).length = length
  rw [List.length_append, List.length_cons] at hlength
  cases xs with
  | nil => rfl
  | cons x xs =>
    have hread := h x (by simp) _ (endsNumber_separated (xs.map write) (endsNumber_bracket rest))
    have hlength : xs.length < length := by
      rw [List.length_cons] at hsteps
      omega
    have hmore := readElementsWithin_flatMap xs rest (fun y hy => h y (by simp [hy]))
      (fun y hy => hstarts y (by simp [hy])) hlength
    simp only [List.map_cons, separated_cons, List.append_assoc, readElementsWithin,
      nextElement?_bracket (hstarts x (by simp)), bind, Except.bind, hread, hmore]

lemma writeArray_append (parts : List (List Char)) (rest : List Char) :
    writeArray parts ++ rest = '[' :: (separated parts ++ ']' :: rest) := by
  simp [writeArray]

lemma startsValue_writeArray (parts : List (List Char)) : StartsValue (writeArray parts) :=
  ⟨'[', _, rfl, by decide, by decide, by decide⟩

/-- **Written arrays are read back** if their elements are. -/
theorem readsBack_writeArray (xs : List ι)
    (h : ∀ x ∈ xs, ReadsBack element (write x) (value x))
    (hstarts : ∀ x ∈ xs, StartsValue (write x)) :
    ReadsBack (readArray element) (writeArray (xs.map write)) (xs.map value) := by
  intro rest _
  rw [readArray, writeArray_append, skipBlank_cons (by decide)]
  exact readElements_separated xs rest h hstarts

lemma readsBack_content_writeArray {room : Nat} {content : ι → Content} (xs : List ι)
    (h : ∀ x ∈ xs, ReadsBack (readContent room) (write x) (content x))
    (hstarts : ∀ x ∈ xs, StartsValue (write x)) :
    ReadsBack (readContent (room + 1)) (writeArray (xs.map write)) (.array (xs.map content)) := by
  intro rest _
  rw [readContent, writeArray_append, skipBlank_cons (by decide)]
  simp [readElements_separated xs rest h hstarts, bind, Except.bind]

end Arrays

/-! ## Objects -/

/-- A reader has one outcome on a written value, whatever stands behind it. -/
def ReadsAs {α : Type} (read : Reader α) (written : List Char) (outcome : Except Fault α) :
    Prop :=
  ∀ rest, EndsNumber rest → read (written ++ rest) = outcome.map fun x => (x, rest)

lemma ReadsBack.readsAs {α : Type} {read : Reader α} {written : List Char} {x : α}
    (h : ReadsBack read written x) : ReadsAs read written (.ok x) := h

/-- A field of an object: its name, its written value, and what becomes of a state when the
field is folded into it. -/
structure WrittenField (σ : Type) where
  name : String
  written : List Char
  outcome : σ → Except Fault σ

namespace WrittenField

variable {σ : Type}

/-- The field in the object. -/
def text (f : WrittenField σ) : List Char := writeText f.name ++ ':' :: f.written

/-- The value of the field is read as the field says, in every state. -/
def IsFoldedBy (f : WrittenField σ) (field : String → σ → Reader σ) : Prop :=
  ∀ state, ReadsAs (field f.name state) (':' :: f.written) (f.outcome state)

/-- What is left to read once the quote of the name has been found. -/
def unquoted (f : WrittenField σ) (rest : List Char) : List Char :=
  f.name.toList.flatMap writeChar ++ '"' :: ':' :: (f.written ++ rest)

lemma text_append (f : WrittenField σ) (rest : List Char) :
    f.text ++ rest = '"' :: f.unquoted rest := by
  simp [text, unquoted, writeText]

lemma readQuoted_unquoted (f : WrittenField σ) (rest : List Char) :
    readQuoted (f.unquoted rest) = .ok (f.name, ':' :: (f.written ++ rest)) :=
  readQuoted_writeText f.name _

/-- What becomes of a state when fields are folded into it one after the other. -/
def foldAll : List (WrittenField σ) → σ → Except Fault σ
  | [], state => .ok state
  | f :: fields, state => f.outcome state >>= foldAll fields

end WrittenField

section Objects

variable {σ : Type} {field : String → σ → Reader σ}

/-- The fields behind the first one: each is preceded by a comma. -/
lemma foldFieldsWithin_flatMap (fields : List (WrittenField σ)) {steps : Nat} (state : σ)
    (rest : List Char) (h : ∀ f ∈ fields, f.IsFoldedBy field) (hsteps : fields.length < steps) :
    foldFieldsWithin field steps false state
      (((fields.map WrittenField.text).flatMap fun next => ',' :: next) ++ '\x7d' :: rest) =
      (WrittenField.foldAll fields state).map fun state => (state, '\x7d' :: rest) := by
  induction fields generalizing steps state with
  | nil =>
    obtain ⟨steps, rfl⟩ := Nat.exists_eq_succ_of_ne_zero (Nat.ne_of_gt hsteps)
    rfl
  | cons f fields ih =>
    obtain ⟨steps, rfl⟩ := Nat.exists_eq_succ_of_ne_zero (Nat.ne_of_gt (Nat.zero_lt_of_lt hsteps))
    rw [List.length_cons] at hsteps
    have hmore := fun next => ih next (fun g hg => h g (by simp [hg]))
      (Nat.lt_of_succ_lt_succ hsteps)
    have hfield := h f (by simp) state _
      (endsNumber_separated (fields.map WrittenField.text) (endsNumber_brace rest))
    have hnext : ∀ more, nextField? false (',' :: '"' :: more) = .ok (some more) := fun _ => rfl
    rw [List.cons_append] at hfield
    simp only [List.map_cons, List.flatMap_cons, List.cons_append, List.append_assoc]
    simp only [WrittenField.text_append, foldFieldsWithin, hnext,
      WrittenField.readQuoted_unquoted, bind, Except.bind, hfield, WrittenField.foldAll]
    cases f.outcome state with
    | error fault => rfl
    | ok next => exact hmore next

/-- **Written objects are folded field by field.** -/
theorem foldFields_separated (fields : List (WrittenField σ)) (state : σ) (rest : List Char)
    (h : ∀ f ∈ fields, f.IsFoldedBy field) :
    foldFields field state (separated (fields.map WrittenField.text) ++ '\x7d' :: rest) =
      (WrittenField.foldAll fields state).map fun state => (state, '\x7d' :: rest) := by
  have hsteps : fields.length ≤ (separated (fields.map WrittenField.text)).length + 1 :=
    length_le_separated fields
  rw [foldFields]
  generalize hlength :
    (separated (fields.map WrittenField.text) ++ '\x7d' :: rest).length = length
  rw [List.length_append, List.length_cons] at hlength
  cases fields with
  | nil => rfl
  | cons f fields =>
    have hfields : fields.length < length := by
      rw [List.length_cons] at hsteps
      omega
    have hmore := fun next => foldFieldsWithin_flatMap fields next rest
      (fun g hg => h g (by simp [hg])) hfields
    have hfield := h f (by simp) state _
      (endsNumber_separated (fields.map WrittenField.text) (endsNumber_brace rest))
    have hnext : ∀ more, nextField? true ('"' :: more) = .ok (some more) := fun _ => rfl
    rw [List.cons_append] at hfield
    simp only [List.map_cons, separated_cons, List.append_assoc]
    simp only [WrittenField.text_append, foldFieldsWithin, hnext,
      WrittenField.readQuoted_unquoted, bind, Except.bind, hfield, WrittenField.foldAll]
    cases f.outcome state with
    | error fault => rfl
    | ok next => exact hmore next

end Objects

end Json

end PartitionKeys
