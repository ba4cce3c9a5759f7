import Raster.Json.Syntax

/-!
# The grammar of JSON texts

Texts spell values with blanks wherever they may stand, with the members of an object in whatever
order, and with the escapes of strings as they come. A text that spells a value is read as this
value, so the text determines the value.
-/

namespace Raster.Json

/-! ### Blanks -/

def IsBlanks (text : List Char) : Prop :=
  ∀ c ∈ text, isBlank c = true

theorem isBlanks_nil : IsBlanks [] :=
  fun _ member => absurd member List.not_mem_nil

theorem skipBlanks_append {blanks : List Char} (skipped : IsBlanks blanks) (rest : List Char) :
    skipBlanks (blanks ++ rest) = skipBlanks rest :=
  List.dropWhile_append_of_pos skipped

theorem skipBlanks_cons {c : Char} (printed : isBlank c = false) (rest : List Char) :
    skipBlanks (c :: rest) = c :: rest :=
  List.dropWhile_cons_of_neg (by simp [printed])

/-- After blanks, the first other character is found. -/
theorem skipBlanks_append_cons {blanks : List Char} (skipped : IsBlanks blanks) {c : Char}
    (printed : isBlank c = false) (rest : List Char) :
    skipBlanks (blanks ++ c :: rest) = c :: rest := by
  rw [skipBlanks_append skipped, skipBlanks_cons printed]

/-! ### Numbers -/

/-- At least one digit, and nothing else. -/
structure IsDigits (text : List Char) : Prop where
  ne_nil : text ≠ []
  isDigit : ∀ c ∈ text, c.isDigit = true

inductive SpellsFraction : List Char → Option (List Nat) → Prop where
  | absent : SpellsFraction [] none
  | present {digits : List Char} : IsDigits digits →
      SpellsFraction ('.' :: digits) (some (digits.map digitValue))

inductive SpellsSign : List Char → Bool → Prop where
  | absent : SpellsSign [] false
  | plus : SpellsSign ['+'] false
  | minus : SpellsSign ['-'] true

inductive SpellsExponent : List Char → Option (Bool × List Nat) → Prop where
  | absent : SpellsExponent [] none
  | present {mark : Char} {sign digits : List Char} {negative : Bool} : mark = 'e' ∨ mark = 'E' →
      SpellsSign sign negative → IsDigits digits →
      SpellsExponent (mark :: (sign ++ digits)) (some (negative, digits.map digitValue))

/-- The text of a number. Its digits before the point start with a zero only if there is no
other. -/
inductive SpellsNumeral : List Char → Numeral → Prop where
  | mk {whole fractionText exponentText : List Char} {fraction : Option (List Nat)}
      {exponent : Option (Bool × List Nat)} (negative : Bool) : IsDigits whole →
      (∀ more, whole = '0' :: more → more = []) → SpellsFraction fractionText fraction →
      SpellsExponent exponentText exponent →
      SpellsNumeral ((if negative then ['-'] else []) ++ (whole ++ (fractionText ++ exponentText)))
        ⟨negative, whole.map digitValue, fraction, exponent⟩

/-- What follows does not go on with the digits before it. -/
def EndsDigits (rest : List Char) : Prop :=
  ∀ c, rest.head? = some c → c.isDigit = false

/-- What follows does not go on with the number before it. -/
def EndsNumber (rest : List Char) : Prop :=
  ∀ c, rest.head? = some c → c.isDigit = false ∧ c ≠ '.' ∧ c ≠ 'e' ∧ c ≠ 'E'

theorem endsDigits_cons {c : Char} (other : c.isDigit = false) (rest : List Char) :
    EndsDigits (c :: rest) := by
  rintro d ⟨⟩
  exact other

theorem EndsNumber.endsDigits {rest : List Char} (ends : EndsNumber rest) : EndsDigits rest :=
  fun c first => (ends c first).1

theorem endsNumber_nil : EndsNumber [] := by
  rintro c ⟨⟩

theorem endsNumber_cons {c : Char} (other : c.isDigit = false ∧ c ≠ '.' ∧ c ≠ 'e' ∧ c ≠ 'E')
    (rest : List Char) : EndsNumber (c :: rest) := by
  rintro d ⟨⟩
  exact other

theorem ne_of_isDigit {c d : Char} (digit : c.isDigit = true) (other : d.isDigit = false) :
    c ≠ d := by
  rintro rfl
  rw [digit] at other
  cases other

theorem readDigits_append {digits rest : List Char} (each : ∀ c ∈ digits, c.isDigit = true)
    (ends : EndsDigits rest) : readDigits (digits ++ rest) = (digits.map digitValue, rest) := by
  have stops : rest.takeWhile Char.isDigit = [] ∧ rest.dropWhile Char.isDigit = rest := by
    cases rest with
    | nil => exact ⟨rfl, rfl⟩
    | cons c rest => simp [ends c rfl]
  rw [readDigits, List.takeWhile_append_of_pos each, List.dropWhile_append_of_pos each, stops.1,
    stops.2, List.append_nil]

theorem readSomeDigits_append {digits rest : List Char} (written : IsDigits digits)
    (ends : EndsDigits rest) :
    readSomeDigits (digits ++ rest) = some (digits.map digitValue, rest) := by
  rw [readSomeDigits, readDigits_append written.isDigit ends]
  cases digits with
  | nil => exact absurd rfl written.ne_nil
  | cons c digits => rfl

theorem readFraction_append {text rest : List Char} {fraction : Option (List Nat)}
    (spelled : SpellsFraction text fraction) (ends : EndsDigits rest)
    (noPoint : ∀ c, rest.head? = some c → c ≠ '.') :
    readFraction (text ++ rest) = some (fraction, rest) := by
  cases spelled with
  | absent =>
    cases rest with
    | nil => rfl
    | cons c rest =>
      have other := noPoint c rfl
      simp [readFraction, other]
  | present written =>
    simp only [List.cons_append, readFraction, readSomeDigits_append written ends, Option.map_some]

theorem readExponentSign_append {text digits rest : List Char} {negative : Bool}
    (spelled : SpellsSign text negative) (written : IsDigits digits) :
    readExponentSign (text ++ (digits ++ rest)) = (negative, digits ++ rest) := by
  cases spelled with
  | absent =>
    obtain ⟨nonempty, each⟩ := written
    cases digits with
    | nil => exact absurd rfl nonempty
    | cons c digits =>
      have digit := each c (by simp)
      have noMinus : c ≠ '-' := ne_of_isDigit digit (by decide)
      have noPlus : c ≠ '+' := ne_of_isDigit digit (by decide)
      simp [readExponentSign, noMinus, noPlus]
  | plus => rfl
  | minus => rfl

theorem readExponent_append {text rest : List Char} {exponent : Option (Bool × List Nat)}
    (spelled : SpellsExponent text exponent) (ends : EndsNumber rest) :
    readExponent (text ++ rest) = some (exponent, rest) := by
  cases spelled with
  | absent =>
    cases rest with
    | nil => rfl
    | cons c rest =>
      obtain ⟨-, -, lower, upper⟩ := ends c rfl
      simp [readExponent, lower, upper]
  | present mark sign written =>
    simp only [List.cons_append, List.append_assoc, readExponent, if_pos mark,
      readExponentSign_append sign written, readSomeDigits_append written ends.endsDigits,
      Option.map_some]

theorem SpellsExponent.endsDigits {text rest : List Char} {exponent : Option (Bool × List Nat)}
    (spelled : SpellsExponent text exponent) (ends : EndsNumber rest) :
    EndsDigits (text ++ rest) ∧ ∀ c, (text ++ rest).head? = some c → c ≠ '.' := by
  cases spelled with
  | absent => exact ⟨ends.endsDigits, fun c first => (ends c first).2.1⟩
  | present mark _ _ =>
    constructor
    · rintro c ⟨⟩
      rcases mark with rfl | rfl <;> decide
    · rintro c ⟨⟩
      rcases mark with rfl | rfl <;> decide

theorem SpellsFraction.endsDigits {text rest : List Char} {fraction : Option (List Nat)}
    (spelled : SpellsFraction text fraction) (ends : EndsDigits rest) :
    EndsDigits (text ++ rest) := by
  cases spelled with
  | absent => exact ends
  | present _ => exact endsDigits_cons (by decide) _

theorem digitValue_eq_zero_iff {c : Char} (digit : c.isDigit = true) :
    digitValue c = 0 ↔ c = '0' := by
  constructor
  · intro zero
    simp only [Char.isDigit, Bool.and_eq_true, decide_eq_true_eq] at digit
    apply Char.toNat_inj.mp
    have low : '0'.toNat ≤ c.toNat := digit.1
    simp only [digitValue] at zero
    omega
  · rintro rfl
    rfl

theorem IsDigits.exists_cons {text : List Char} (written : IsDigits text) :
    ∃ c rest, text = c :: rest ∧ c.isDigit = true := by
  obtain ⟨nonempty, each⟩ := written
  cases text with
  | nil => exact absurd rfl nonempty
  | cons c rest => exact ⟨c, rest, rfl, each c (by simp)⟩

theorem readNumber_append {text rest : List Char} {n : Numeral} (spelled : SpellsNumeral text n)
    (ends : EndsNumber rest) : readNumber (text ++ rest) = some (n, rest) := by
  cases spelled with
  | @mk whole fractionText exponentText fraction exponent negative written single spelledFraction
      spelledExponent =>
    -- Each part ends where the next one begins, so the ends are found from the last part backwards.
    obtain ⟨afterPoint, noPoint⟩ := spelledExponent.endsDigits ends
    have wholeRead := readSomeDigits_append written (spelledFraction.endsDigits afterPoint)
    have fractionRead := readFraction_append spelledFraction afterPoint noPoint
    have exponentRead := readExponent_append spelledExponent ends
    obtain ⟨c, more, rfl, digit⟩ := written.exists_cons
    have leading : digitValue c = 0 → more = [] := fun zero =>
      single more (by rw [(digitValue_eq_zero_iff digit).mp zero])
    have noMinus : c ≠ '-' := ne_of_isDigit digit (by decide)
    simp only [List.cons_append] at wholeRead
    cases negative with
    | false => simpa [readNumber, noMinus, wholeRead, fractionRead, exponentRead] using leading
    | true => simpa [readNumber, wholeRead, fractionRead, exponentRead] using leading

/-! ### Strings -/

/-- The text between the quotation marks of a string, and the units that it names. -/
inductive SpellsUnits : List Char → List Nat → Prop where
  | nil : SpellsUnits [] []
  | plain {c : Char} {text : List Char} {units : List Nat} : 0x20 ≤ c.toNat → c ≠ '"' → c ≠ '\\' →
      SpellsUnits text units → SpellsUnits (c :: text) (c.toNat :: units)
  | escaped {c d : Char} {text : List Char} {units : List Nat} : escaped? c = some d →
      SpellsUnits text units → SpellsUnits ('\\' :: c :: text) (d.toNat :: units)
  | named {a b c d : Char} {unit : Nat} {text : List Char} {units : List Nat} :
      hexUnit? a b c d = some unit → SpellsUnits text units →
      SpellsUnits ('\\' :: 'u' :: a :: b :: c :: d :: text) (unit :: units)

theorem readUnits_append {text rest : List Char} {units : List Nat}
    (spelled : SpellsUnits text units) :
    readUnits (text ++ '"' :: rest) = some (units, rest) := by
  induction spelled with
  | nil => rfl
  | @plain c text units printed noQuote noEscape _ ih =>
    have shown : ¬c.toNat < 0x20 := by omega
    simp [readUnits, noEscape, shown, ih]
  | @escaped c d text units letter _ ih =>
    have other : c ≠ 'u' := by rintro rfl; cases letter
    simp [readUnits, other, letter, ih]
  | named hex _ ih =>
    simp [readUnits, hex, ih]

/-- The text that units stand for, if they stand for any. -/
def textOf (units : List Nat) : Option String :=
  (decodeUnits units).map String.ofList

/-! ### Values -/

/-- What a piece of a text can be: a value, a member, or the inside of an array or of an object that
is not empty. -/
inductive Part where
  | value (json : Json)
  | member (key : Option String) (json : Json)
  | items (items : List Json)
  | members (members : List (Option String × Json))

/-- The piece of text is this part. -/
inductive Spells : List Char → Part → Prop where
  | nullWord : Spells ['n', 'u', 'l', 'l'] (.value .null)
  | trueWord : Spells ['t', 'r', 'u', 'e'] (.value (.bool true))
  | falseWord : Spells ['f', 'a', 'l', 's', 'e'] (.value (.bool false))
  | number {text : List Char} {n : Numeral} : SpellsNumeral text n →
      Spells text (.value (.number n))
  | string {text : List Char} {units : List Nat} : SpellsUnits text units →
      Spells ('"' :: (text ++ ['"'])) (.value (.string (textOf units)))
  | emptyArray {blanks : List Char} : IsBlanks blanks →
      Spells ('[' :: (blanks ++ [']'])) (.value (.array []))
  | array {text : List Char} {items : List Json} : Spells text (.items items) →
      Spells ('[' :: (text ++ [']'])) (.value (.array items))
  | emptyObject {blanks : List Char} : IsBlanks blanks →
      Spells ('\x7b' :: (blanks ++ ['\x7d'])) (.value (.object []))
  | object {text : List Char} {members : List (Option String × Json)} :
      Spells text (.members members) →
      Spells ('\x7b' :: (text ++ ['\x7d'])) (.value (.object members))
  | lastItem {before text after : List Char} {item : Json} : IsBlanks before →
      Spells text (.value item) → IsBlanks after → Spells (before ++ (text ++ after)) (.items [item])
  | nextItem {before text after rest : List Char} {item : Json} {items : List Json} :
      IsBlanks before → Spells text (.value item) → IsBlanks after → Spells rest (.items items) →
      Spells (before ++ (text ++ (after ++ ',' :: rest))) (.items (item :: items))
  | member {name before after text : List Char} {units : List Nat} {json : Json} :
      SpellsUnits name units → IsBlanks before → IsBlanks after → Spells text (.value json) →
      Spells ('"' :: (name ++ '"' :: (before ++ ':' :: (after ++ text)))) (.member (textOf units) json)
  | lastMember {before text after : List Char} {key : Option String} {json : Json} :
      IsBlanks before → Spells text (.member key json) → IsBlanks after →
      Spells (before ++ (text ++ after)) (.members [(key, json)])
  | nextMember {before text after rest : List Char} {key : Option String} {json : Json}
      {members : List (Option String × Json)} : IsBlanks before → Spells text (.member key json) →
      IsBlanks after → Spells rest (.members members) →
      Spells (before ++ (text ++ (after ++ ',' :: rest))) (.members ((key, json) :: members))

/-- The text is this value, with nothing but blanks around it. -/
def IsTextOf (text : String) (json : Json) : Prop :=
  ∃ before inner after, text.toList = before ++ (inner ++ after) ∧ IsBlanks before ∧
    Spells inner (.value json) ∧ IsBlanks after

/-- What is read from a piece of text, whatever follows that does not go on with it. -/
def Part.ReadFrom (text : List Char) : Part → Prop
  | value json => ∀ bound rest, text.length ≤ bound → EndsNumber rest →
      readValue bound (text ++ rest) = some (json, rest)
  | member key json => ∀ bound before rest, text.length ≤ bound → IsBlanks before →
      EndsNumber rest →
      (∀ after, skipBlanks rest = '\x7d' :: after →
        readMembers (bound + 1) (before ++ (text ++ rest)) = some ([(key, json)], after)) ∧
      (∀ after, skipBlanks rest = ',' :: after →
        readMembers (bound + 1) (before ++ (text ++ rest)) =
          (readMembers bound after).map fun (others, rest) => ((key, json) :: others, rest))
  | items list => ∀ bound rest, text.length < bound →
      readItems bound (text ++ ']' :: rest) = some (list, rest)
  | members list => ∀ bound rest, text.length < bound →
      readMembers bound (text ++ '\x7d' :: rest) = some (list, rest)

theorem readValue_append {blanks : List Char} (skipped : IsBlanks blanks) (bound : Nat)
    (rest : List Char) : readValue bound (blanks ++ rest) = readValue bound rest := by
  cases bound with
  | zero => simp only [readValue]
  | succ bound => simp only [readValue, skipBlanks_append skipped]

theorem isBlank_of_isDigit {c : Char} (digit : c.isDigit = true) : isBlank c = false := by
  simp only [isBlank, Bool.or_eq_false_iff, beq_eq_false_iff_ne]
  exact ⟨⟨⟨ne_of_isDigit digit (by decide), ne_of_isDigit digit (by decide)⟩,
    ne_of_isDigit digit (by decide)⟩, ne_of_isDigit digit (by decide)⟩

/-- A number starts with a digit or with a minus sign. -/
theorem SpellsNumeral.exists_cons {text : List Char} {n : Numeral} (spelled : SpellsNumeral text n) :
    ∃ c rest, text = c :: rest ∧ (c.isDigit = true ∨ c = '-') := by
  cases spelled with
  | mk negative written _ _ _ =>
    obtain ⟨c, more, rfl, digit⟩ := written.exists_cons
    cases negative with
    | true => exact ⟨_, _, rfl, .inr rfl⟩
    | false => exact ⟨_, _, rfl, .inl digit⟩

/-- A value does not start with a blank, and not with the end of an array either. -/
theorem Spells.exists_cons {text : List Char} {json : Json} (spelled : Spells text (.value json)) :
    ∃ c rest, text = c :: rest ∧ isBlank c = false ∧ c ≠ ']' := by
  cases spelled with
  | nullWord | trueWord | falseWord | string _ | emptyArray _ | array _ | emptyObject _ | object _ =>
    exact ⟨_, _, rfl, by decide, by decide⟩
  | number spelled =>
    obtain ⟨c, rest, rfl, first⟩ := spelled.exists_cons
    refine ⟨c, rest, rfl, ?_⟩
    rcases first with digit | rfl
    · exact ⟨isBlank_of_isDigit digit, ne_of_isDigit digit (by decide)⟩
    · decide

theorem readValue_number {text rest : List Char} {n : Numeral} (spelled : SpellsNumeral text n)
    (ends : EndsNumber rest) (bound : Nat) :
    readValue (bound + 1) (text ++ rest) = some (number n, rest) := by
  have read := readNumber_append spelled ends
  obtain ⟨c, more, rfl, first⟩ := spelled.exists_cons
  have printed : isBlank c = false := by
    rcases first with digit | rfl
    · exact isBlank_of_isDigit digit
    · decide
  have other : c ≠ 'n' ∧ c ≠ 't' ∧ c ≠ 'f' ∧ c ≠ '"' ∧ c ≠ '[' ∧ c ≠ '\x7b' := by
    refine ⟨?_, ?_, ?_, ?_, ?_, ?_⟩ <;> rintro rfl <;> revert first <;> decide
  simp only [List.cons_append] at read
  simp [readValue, skipBlanks_cons printed, other, read]

/-- The inside of an array that is not empty does not start with the end of the array. -/
theorem Spells.skipBlanks_items {text : List Char} {list : List Json}
    (spelled : Spells text (.items list)) (rest : List Char) :
    ∃ c more, skipBlanks (text ++ rest) = c :: more ∧ c ≠ ']' := by
  cases spelled with
  | lastItem before spelled _ | nextItem before spelled _ _ =>
    obtain ⟨c, more, rfl, printed, other⟩ := spelled.exists_cons
    rw [List.append_assoc, skipBlanks_append before]
    exact ⟨c, _, skipBlanks_cons printed _, other⟩

/-- The inside of an object that is not empty starts with a string. -/
theorem Spells.skipBlanks_members {text : List Char} {list : List (Option String × Json)}
    (spelled : Spells text (.members list)) (rest : List Char) :
    ∃ more, skipBlanks (text ++ rest) = '"' :: more := by
  cases spelled with
  | lastMember before spelled _ | nextMember before spelled _ _ =>
    cases spelled with
    | member _ _ _ _ =>
      rw [List.append_assoc, skipBlanks_append before]
      exact ⟨_, skipBlanks_cons (by decide) _⟩

theorem endsNumber_append {blanks rest : List Char} (skipped : IsBlanks blanks)
    (ends : EndsNumber rest) : EndsNumber (blanks ++ rest) := by
  cases blanks with
  | nil => exact ends
  | cons b blanks =>
    apply endsNumber_cons
    have blank := skipped b List.mem_cons_self
    simp only [isBlank, Bool.or_eq_true, beq_iff_eq] at blank
    rcases blank with ((rfl | rfl) | rfl) | rfl <;> decide

theorem Spells.readFrom {text : List Char} {part : Part} (spelled : Spells text part) :
    part.ReadFrom text := by
  -- Induction on the grammar. A reader has used up one of its bound when it is inside of a bracket,
  -- and the bracket is one character, so the inside is as much shorter as the bound is less.
  induction spelled with
  | nullWord | trueWord | falseWord =>
    rintro (_ | bound) rest fits ends
    · simp at fits
    · simp [readValue, skipBlanks, isBlank]
  | number spelled =>
    rintro (_ | bound) rest fits ends
    · obtain ⟨c, more, rfl, -⟩ := spelled.exists_cons
      simp at fits
    · exact readValue_number spelled ends bound
  | string spelled =>
    rintro (_ | bound) rest fits ends
    · simp at fits
    · simp [readValue, skipBlanks, isBlank, readString, readUnits_append spelled, textOf]
  | emptyArray blanks =>
    rintro (_ | bound) rest fits ends
    · simp at fits
    · have closed := skipBlanks_append_cons blanks (c := ']') (by decide) rest
      simp [readValue, skipBlanks_cons (show isBlank '[' = false by decide), closed]
  | array spelled ih =>
    rintro (_ | bound) rest fits ends
    · simp at fits
    · obtain ⟨c, more, first, other⟩ := spelled.skipBlanks_items (']' :: rest)
      have inside := ih bound rest (by simp at fits; omega)
      simp [readValue, skipBlanks_cons (show isBlank '[' = false by decide), first, other, inside]
  | emptyObject blanks =>
    rintro (_ | bound) rest fits ends
    · simp at fits
    · have closed := skipBlanks_append_cons blanks (c := '\x7d') (by decide) rest
      simp [readValue, skipBlanks_cons (show isBlank '\x7b' = false by decide), closed]
  | object spelled ih =>
    rintro (_ | bound) rest fits ends
    · simp at fits
    · obtain ⟨more, first⟩ := spelled.skipBlanks_members ('\x7d' :: rest)
      have inside := ih bound rest (by simp at fits; omega)
      simp [readValue, skipBlanks_cons (show isBlank '\x7b' = false by decide), first, inside]
  | @lastItem before text after item skipped _ after' ih =>
    rintro (_ | bound) rest fits
    · simp at fits
    · have read := ih bound (after ++ ']' :: rest) (by simp at fits; omega)
        (endsNumber_append after' (endsNumber_cons (by decide) _))
      have closed := skipBlanks_append_cons after' (c := ']') (by decide) rest
      simp [readItems, readValue_append skipped, read, closed]
  | @nextItem before text after more item list skipped _ after' _ ih ihRest =>
    rintro (_ | bound) rest fits
    · simp at fits
    · have read := ih bound (after ++ ',' :: (more ++ ']' :: rest)) (by simp at fits; omega)
        (endsNumber_append after' (endsNumber_cons (by decide) _))
      have separated := skipBlanks_append_cons after' (c := ',') (by decide) (more ++ ']' :: rest)
      have others := ihRest bound rest (by simp at fits; omega)
      simp [readItems, readValue_append skipped, read, separated, others]
  | @member name before after text units json named before' after' _ ih =>
    -- A member is read on its own in no reader, only with the comma or the brace that follows it.
    intro bound blanks rest fits skipped ends
    have read := ih bound rest (by simp at fits; omega) ends
    have opened := skipBlanks_append_cons skipped (c := '"') (by decide)
      (name ++ '"' :: (before ++ ':' :: (after ++ (text ++ rest))))
    have colon := skipBlanks_append_cons before' (c := ':') (by decide) (after ++ (text ++ rest))
    constructor
    · intro closing closed
      simp [readMembers, opened, readString, readUnits_append named, colon, readValue_append after',
        read, closed, textOf]
    · intro others separated
      cases more : readMembers bound others <;>
        simp [readMembers, opened, readString, readUnits_append named, colon,
          readValue_append after', read, separated, textOf, more]
  | @lastMember before text after key json skipped _ after' ih =>
    rintro (_ | bound) rest fits
    · simp at fits
    · have read := ih bound before (after ++ '\x7d' :: rest) (by simp at fits; omega) skipped
        (endsNumber_append after' (endsNumber_cons (by decide) _))
      have closed := skipBlanks_append_cons after' (c := '\x7d') (by decide) rest
      simpa using read.1 _ closed
  | @nextMember before text after more key json list skipped _ after' _ ih ihRest =>
    rintro (_ | bound) rest fits
    · simp at fits
    · have read := ih bound before (after ++ ',' :: (more ++ '\x7d' :: rest))
        (by simp at fits; omega) skipped (endsNumber_append after' (endsNumber_cons (by decide) _))
      have separated := skipBlanks_append_cons after' (c := ',') (by decide) (more ++ '\x7d' :: rest)
      have others := ihRest bound rest (by simp at fits; omega)
      simpa [others] using read.2 _ separated

/-- A text that spells a value is read as this value. -/
theorem read?_of_isTextOf {text : String} {json : Json} (spelled : IsTextOf text json) :
    read? text = some json := by
  obtain ⟨before, inner, after, parts, skipped, spelled, after'⟩ := spelled
  have closed : skipBlanks after = [] := by simpa [skipBlanks] using skipBlanks_append after' []
  have ends : EndsNumber after := by simpa using endsNumber_append after' endsNumber_nil
  have read := spelled.readFrom (2 * text.toList.length + 2) after
    (by simp only [parts, List.length_append]; omega) ends
  rw [← readValue_append skipped, ← parts] at read
  simp [read?, read, closed]

end Raster.Json
