import Raster.Json.Codec
import Raster.Proofs.Json.Grammar

/-!
# Written texts

The texts that are written for natural numbers and for objects are texts in the sense of the
grammar, so they are read as what they were written for.
-/

namespace Raster.Json

/-! ### Natural numbers -/

theorem valueOf_map_digitValue (text : List Char) :
    Numeral.valueOf (text.map digitValue) = Nat.ofDigitChars 10 text 0 := by
  simp only [Numeral.valueOf, List.foldl_map, Nat.ofDigitChars, digitValue, Nat.mul_comm]

theorem isDigits_toDigits (n : Nat) : IsDigits (Nat.toDigits 10 n) where
  ne_nil := Nat.toDigits_ne_nil
  isDigit _ member := Nat.isDigit_of_mem_toDigits (by decide) (by decide) member

theorem isDigits_zero : IsDigits ['0'] :=
  ⟨List.cons_ne_nil _ _, List.forall_mem_singleton.mpr rfl⟩

theorem nil_of_leading_zero {c : Char} (more : List Char) (leading : [c] = '0' :: more) :
    more = [] :=
  (List.cons.inj leading).2.symm

/-- Only zero is written with a leading zero. -/
theorem eq_zero_of_toDigits {n : Nat} {more : List Char} (leading : Nat.toDigits 10 n = '0' :: more) :
    n = 0 := by
  induction n using Nat.strongRecOn generalizing more with
  | ind n ih =>
    rw [Nat.toDigits_eq_if (by decide)] at leading
    split at leading
    next => exact Nat.digitChar_eq_zero.mp (List.head_eq_of_cons_eq leading)
    next several =>
      obtain ⟨c, front, digits⟩ :=
        List.exists_cons_of_ne_nil (Nat.toDigits_ne_nil (n := n / 10) (b := 10))
      rw [digits, List.cons_append] at leading
      obtain ⟨rfl, -⟩ := List.cons.inj leading
      have smaller := ih (n / 10) (by omega) digits
      omega

/-- The digits of a natural number, the first one first. -/
def naturalNumeral (n : Nat) : Numeral :=
  ⟨false, (Nat.toDigits 10 n).map digitValue, none, none⟩

theorem spells_toString (n : Nat) :
    Spells (toString n).toList (.value (.number (naturalNumeral n))) := by
  have single : ∀ more, Nat.toDigits 10 n = '0' :: more → more = [] := by
    intro more leading
    obtain rfl := eq_zero_of_toDigits leading
    simpa using leading
  have spelled := SpellsNumeral.mk false (isDigits_toDigits n) single .absent .absent
  simp only [Bool.false_eq_true, if_false, List.nil_append, List.append_nil] at spelled
  rw [Nat.toString_eq_repr, Nat.toList_repr]
  exact .number spelled

/-! ### Strings -/

/-- Characters that stand for themselves in a string. -/
def IsPlain (text : String) : Prop :=
  ∀ c ∈ text.toList, 0x20 ≤ c.toNat ∧ c ≠ '"' ∧ c ≠ '\\'

instance (text : String) : Decidable (IsPlain text) :=
  List.decidableBAll _ text.toList

/-- No character is a surrogate. -/
theorem decodeUnits_map_toNat (text : List Char) :
    decodeUnits (text.map Char.toNat) = some text := by
  induction text with
  | nil => rfl
  | cons c rest ih =>
    have valid : c.toNat < 0xD800 ∨ 0xDFFF < c.toNat ∧ c.toNat < 0x110000 := c.valid
    have notHigh : isHighSurrogate c.toNat = false := decide_eq_false (by omega)
    have notLow : isLowSurrogate c.toNat = false := decide_eq_false (by omega)
    rw [List.map_cons, decodeUnits.eq_def]
    simp [notHigh, notLow, ih]

theorem spellsUnits_of_plain {text : List Char}
    (plain : ∀ c ∈ text, 0x20 ≤ c.toNat ∧ c ≠ '"' ∧ c ≠ '\\') :
    SpellsUnits text (text.map Char.toNat) := by
  induction text with
  | nil => exact .nil
  | cons c rest ih =>
    obtain ⟨⟨printed, noQuote, noEscape⟩, others⟩ := List.forall_mem_cons.mp plain
    exact .plain printed noQuote noEscape (ih others)

theorem spells_member {name text : String} {json : Json} (plain : IsPlain name)
    (spelled : Spells text.toList (.value json)) :
    Spells ("\"" ++ name ++ "\":" ++ text).toList (.member (some name) json) := by
  have member := Spells.member (spellsUnits_of_plain plain) isBlanks_nil isBlanks_nil spelled
  rw [textOf, decodeUnits_map_toNat] at member
  simpa using member

/-! ### Objects -/

/-- A member as it is written, and what it is written for. -/
structure WrittenMember where
  name : String
  text : String
  json : Json
  plain : IsPlain name
  spelled : Spells text.toList (.value json)

namespace WrittenMember

def memberText (m : WrittenMember) : String :=
  "\"" ++ m.name ++ "\":" ++ m.text

theorem spells (m : WrittenMember) : Spells m.memberText.toList (.member (some m.name) m.json) :=
  spells_member m.plain m.spelled

end WrittenMember

theorem spells_intercalate (first : WrittenMember) (rest : List WrittenMember) :
    Spells (",".intercalate ((first :: rest).map WrittenMember.memberText)).toList
      (.members ((first :: rest).map fun m => (some m.name, m.json))) := by
  induction rest generalizing first with
  | nil => simpa using Spells.lastMember isBlanks_nil first.spells isBlanks_nil
  | cons next rest ih =>
    simpa using Spells.nextMember isBlanks_nil first.spells isBlanks_nil (ih next)

theorem spells_objectText (first : WrittenMember) (rest : List WrittenMember) :
    Spells (objectText ((first :: rest).map fun m => (m.name, m.text))).toList
      (.value (.object ((first :: rest).map fun m => (some m.name, m.json)))) := by
  have inside := Spells.object (spells_intercalate first rest)
  simpa [objectText, WrittenMember.memberText, Function.comp_def] using inside

/-- A written value is a text without blanks around it. -/
theorem isTextOf_of_spells {text : String} {json : Json} (spelled : Spells text.toList (.value json)) :
    IsTextOf text json :=
  ⟨[], text.toList, [], by simp, isBlanks_nil, spelled, isBlanks_nil⟩

end Raster.Json
