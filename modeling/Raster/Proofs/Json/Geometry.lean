import Mathlib.Data.Nat.Digits.Defs
import Raster.Proofs.Json.Fields
import Raster.Proofs.Json.Written

/-!
# Texts of points, sizes and rectangles

Points, sizes and rectangles are shown by structures with coordinates for fields, in either form at
each level. From a text exactly the geometry that it shows is read, so what is written is read back,
and what lacks a field or has an unfit one at some level is refused.
-/

namespace Raster

namespace Json

/-- What is read from a text. -/
def decode? {α : Type} (ofJson? : Json → Option α) (text : String) : Option α :=
  (read? text).bind ofJson?

/-- Texts and values of a type fit together: the values that are read are those that texts show. -/
structure DecodesExactly {α : Type} (toJson : α → String) (ofJson? : Json → Option α)
    (Shows : Json → α → Prop) (Lacks : Json → Prop) : Prop where
  readBack : ∀ x, decode? ofJson? (toJson x) = some x
  reads_iff : ∀ text json, IsTextOf text json → ∀ x, decode? ofJson? text = some x ↔ Shows json x
  refuses : ∀ text json, IsTextOf text json → Lacks json → decode? ofJson? text = none

theorem decode?_of_isTextOf {α : Type} (ofJson? : Json → Option α) {text : String} {json : Json}
    (spelled : IsTextOf text json) : decode? ofJson? text = ofJson? json := by
  rw [decode?, read?_of_isTextOf spelled, Option.bind_some]

theorem DecodesExactly.of_shows {α : Type} {toJson : α → String} {ofJson? : Json → Option α}
    {Shows : Json → α → Prop} {Lacks : Json → Prop}
    (written : ∀ x, ∃ json, IsTextOf (toJson x) json ∧ Shows json x)
    (decodes : ∀ json x, ofJson? json = some x ↔ Shows json x)
    (lacks : ∀ json x, Lacks json → ¬Shows json x) :
    DecodesExactly toJson ofJson? Shows Lacks where
  readBack x := by
    obtain ⟨json, spelled, shown⟩ := written x
    rw [decode?_of_isTextOf ofJson? spelled]
    exact (decodes json x).mpr shown
  reads_iff text json spelled x := by
    rw [decode?_of_isTextOf ofJson? spelled]
    exact decodes json x
  refuses text json spelled lacking := by
    rw [decode?_of_isTextOf ofJson? spelled]
    apply Option.eq_none_iff_forall_not_mem.mpr
    exact fun x read => lacks json x lacking ((decodes json x).mp read)

/-! ### Coordinates -/

/-- A coordinate is written as a natural number, with neither sign nor point nor exponent. -/
def IsCoordinate (json : Json) (n : UInt32) : Prop :=
  ∃ digits, json = .number ⟨false, digits, none, none⟩ ∧
    Nat.ofDigits 10 digits.reverse = n.toNat

theorem valueOf_eq_ofDigits (digits : List Nat) :
    Numeral.valueOf digits = Nat.ofDigits 10 digits.reverse := by
  simp only [Numeral.valueOf, Nat.ofDigits_eq_foldr, List.foldr_reverse, Nat.cast_id,
    Nat.mul_comm 10, Nat.add_comm]

theorem toUInt32?_eq_some_iff (json : Json) (n : UInt32) :
    json.toUInt32? = some n ↔ IsCoordinate json n := by
  constructor
  · intro read
    cases json with
    | number numeral =>
      simp only [toUInt32?, Numeral.toUInt32?] at read
      split at read
      next digits =>
        split at read
        next fits =>
          refine ⟨digits, rfl, ?_⟩
          rw [← valueOf_eq_ofDigits, ← Option.some.inj read, UInt32.toNat_ofNat_of_lt' fits]
        next => cases read
      next => cases read
    | null | bool | string | array | object => cases read
  · rintro ⟨digits, rfl, value⟩
    have fits : Numeral.valueOf digits < UInt32.size := by
      rw [valueOf_eq_ofDigits, value]
      exact n.toNat_lt_size
    simp only [toUInt32?, Numeral.toUInt32?]
    rw [if_pos fits, valueOf_eq_ofDigits, value, UInt32.ofNat_toNat]

theorem isCoordinate_naturalNumeral (n : UInt32) :
    IsCoordinate (.number (naturalNumeral n.toNat)) n := by
  refine ⟨_, rfl, ?_⟩
  rw [← valueOf_eq_ofDigits, valueOf_map_digitValue, Nat.ofDigitChars_ten_toDigits]

/-- Two coordinates as the fields of a structure. -/
def ShowsCoordinates (first second : String) (json : Json) (u v : UInt32) : Prop :=
  ∃ x y, GivesFields first second json (some x) (some y) ∧ IsCoordinate x u ∧ IsCoordinate y v

/-- No two coordinates are the fields of this structure. -/
def LacksCoordinates (first second : String) : Json → Prop :=
  LacksFields first second fun _ value => ∀ n, ¬IsCoordinate value n

theorem pair?_toUInt32?_eq_some_iff (first second : String) (json : Json) (u v : UInt32) :
    json.pair? first second toUInt32? = some (u, v) ↔ ShowsCoordinates first second json u v := by
  simp only [pair?_eq_some_iff, toUInt32?_eq_some_iff, ShowsCoordinates]

theorem LacksCoordinates.not_shows {first second : String} {json : Json}
    (lacks : LacksCoordinates first second json) (u v : UInt32) :
    ¬ShowsCoordinates first second json u v := by
  rintro ⟨x, y, given, coordinateX, coordinateY⟩
  rcases lacks.unfit_of_gives given with unfit | unfit
  · exact unfit u coordinateX
  · exact unfit v coordinateY

/-- A coordinate as a written member. -/
def coordinateMember (name : String) (plain : IsPlain name) (n : UInt32) : WrittenMember where
  name
  text := toString n.toNat
  json := .number (naturalNumeral n.toNat)
  plain
  spelled := spells_toString n.toNat

theorem gives_two_members {first second : String} (different : first ≠ second) (x y : Json) :
    GivesFields first second (.object [(some first, x), (some second, y)]) (some x) (some y) := by
  refine .members ?_ (@GivesMember.only [] [(some second, y)] _ _ ?_)
    (@GivesMember.only [(some first, x)] [] _ _ ?_)
  · simp
  · simpa using different.symm
  · simpa using different

/-- Two coordinates are written as an object that shows them. -/
theorem spells_coordinates {first second : String} (plainFirst : IsPlain first)
    (plainSecond : IsPlain second) (different : first ≠ second) (u v : UInt32) :
    ∃ json, Spells (objectText [(first, toString u.toNat), (second, toString v.toNat)]).toList
      (.value json) ∧ ShowsCoordinates first second json u v :=
  ⟨_, spells_objectText (coordinateMember first plainFirst u) [coordinateMember second plainSecond v],
    _, _, gives_two_members different _ _, isCoordinate_naturalNumeral u,
    isCoordinate_naturalNumeral v⟩

end Json

open Json

def Point.IsShownBy (json : Json) (p : Point) : Prop :=
  ShowsCoordinates "x" "y" json p.x p.y

def Size.IsShownBy (json : Json) (s : Size) : Prop :=
  ShowsCoordinates "width" "height" json s.width s.height

/-- The parts of a rectangle can have either form, whatever form the rectangle has. -/
def Rect.IsShownBy (json : Json) (r : Rect) : Prop :=
  ∃ origin size, GivesFields "origin" "size" json (some origin) (some size) ∧
    r.origin.IsShownBy origin ∧ r.size.IsShownBy size

/-- What will not do for a part of a rectangle. -/
def Rect.UnfitPart (name : String) (json : Json) : Prop :=
  name = "origin" ∧ LacksCoordinates "x" "y" json ∨
    name = "size" ∧ LacksCoordinates "width" "height" json

theorem Point.ofJson?_eq_some_iff (json : Json) (p : Point) :
    Point.ofJson? json = some p ↔ p.IsShownBy json := by
  rw [IsShownBy, ← pair?_toUInt32?_eq_some_iff, Point.ofJson?, Option.map_eq_some_iff]
  constructor
  · rintro ⟨⟨x, y⟩, read, rfl⟩
    exact read
  · exact fun read => ⟨_, read, rfl⟩

theorem Size.ofJson?_eq_some_iff (json : Json) (s : Size) :
    Size.ofJson? json = some s ↔ s.IsShownBy json := by
  rw [IsShownBy, ← pair?_toUInt32?_eq_some_iff, Size.ofJson?, Option.map_eq_some_iff]
  constructor
  · rintro ⟨⟨width, height⟩, read, rfl⟩
    exact read
  · exact fun read => ⟨_, read, rfl⟩

theorem Rect.ofJson?_eq_some_iff (json : Json) (r : Rect) :
    Rect.ofJson? json = some r ↔ r.IsShownBy json := by
  simp only [IsShownBy, ← fields?_eq_some_iff, ← Point.ofJson?_eq_some_iff,
    ← Size.ofJson?_eq_some_iff]
  constructor
  · intro read
    obtain ⟨found, given, decoded⟩ := Option.bind_eq_some_iff.mp read
    split at decoded
    next x y =>
      simp only [bind, Option.bind_eq_some_iff, pure, Option.some.injEq] at decoded
      obtain ⟨x, rfl, u', readX, y, rfl, v', readY, rfl⟩ := decoded
      exact ⟨x, y, given, readX, readY⟩
    next => cases decoded
  · rintro ⟨x, y, given, readX, readY⟩
    simp [Rect.ofJson?, given, readX, readY]

theorem Rect.not_isShownBy {json : Json} (lacks : LacksFields "origin" "size" UnfitPart json)
    (r : Rect) : ¬r.IsShownBy json := by
  rintro ⟨origin, size, given, shownOrigin, shownSize⟩
  rcases lacks.unfit_of_gives given with (⟨-, unfit⟩ | ⟨other, -⟩) | (⟨other, -⟩ | ⟨-, unfit⟩)
  · exact unfit.not_shows _ _ shownOrigin
  · exact absurd other (by decide)
  · exact absurd other (by decide)
  · exact unfit.not_shows _ _ shownSize

theorem Point.exists_spells (p : Point) :
    ∃ json, Spells p.toJson.toList (.value json) ∧ p.IsShownBy json :=
  spells_coordinates (by decide) (by decide) (by decide) p.x p.y

theorem Size.exists_spells (s : Size) :
    ∃ json, Spells s.toJson.toList (.value json) ∧ s.IsShownBy json :=
  spells_coordinates (by decide) (by decide) (by decide) s.width s.height

theorem Rect.exists_spells (r : Rect) :
    ∃ json, Spells r.toJson.toList (.value json) ∧ r.IsShownBy json := by
  obtain ⟨origin, spelledOrigin, shownOrigin⟩ := r.origin.exists_spells
  obtain ⟨size, spelledSize, shownSize⟩ := r.size.exists_spells
  exact ⟨_, spells_objectText ⟨"origin", _, origin, by decide, spelledOrigin⟩
    [⟨"size", _, size, by decide, spelledSize⟩], origin, size,
    gives_two_members (by decide) origin size, shownOrigin, shownSize⟩

/-- The texts of points, sizes and rectangles are read as exactly the geometry that they show, in
either form at each level and among whatever other members. -/
theorem geometry_decodes_exactly :
    DecodesExactly Point.toJson Point.ofJson? (fun json p => p.IsShownBy json)
        (LacksCoordinates "x" "y") ∧
      DecodesExactly Size.toJson Size.ofJson? (fun json s => s.IsShownBy json)
        (LacksCoordinates "width" "height") ∧
      DecodesExactly Rect.toJson Rect.ofJson? (fun json r => r.IsShownBy json)
        (LacksFields "origin" "size" Rect.UnfitPart) := by
  refine ⟨.of_shows ?_ Point.ofJson?_eq_some_iff fun _ p lacks => lacks.not_shows _ _,
    .of_shows ?_ Size.ofJson?_eq_some_iff fun _ s lacks => lacks.not_shows _ _,
    .of_shows ?_ Rect.ofJson?_eq_some_iff fun _ r lacks => Rect.not_isShownBy lacks r⟩
  · intro p
    obtain ⟨json, spelled, shown⟩ := p.exists_spells
    exact ⟨json, isTextOf_of_spells spelled, shown⟩
  · intro s
    obtain ⟨json, spelled, shown⟩ := s.exists_spells
    exact ⟨json, isTextOf_of_spells spelled, shown⟩
  · intro r
    obtain ⟨json, spelled, shown⟩ := r.exists_spells
    exact ⟨json, isTextOf_of_spells spelled, shown⟩

/-- A rectangle whose parts have different forms, in another order and with another member. -/
theorem geometry_decodes_exactly_mixedForms :
    decode? Rect.ofJson?
        "\x7b\"size\":[3,4],\"note\":null,\"origin\":\x7b\"y\":2,\"x\":1\x7d\x7d" =
      some ⟨⟨1, 2⟩, ⟨3, 4⟩⟩ := by
  have size : Spells "[3,4]".toList
      (.value (.array [.number (naturalNumeral 3), .number (naturalNumeral 4)])) :=
    .array (.nextItem isBlanks_nil (spells_toString 3) isBlanks_nil
      (.lastItem isBlanks_nil (spells_toString 4) isBlanks_nil))
  have origin := spells_objectText (coordinateMember "y" (by decide) 2)
    [coordinateMember "x" (by decide) 1]
  have members := spells_objectText ⟨"size", _, _, by decide, size⟩
    [⟨"note", "null", _, by decide, .nullWord⟩, ⟨"origin", _, _, by decide, origin⟩]
  apply (geometry_decodes_exactly.2.2.reads_iff _ _ (isTextOf_of_spells members) _).mpr
  exact (Rect.ofJson?_eq_some_iff _ _).mp rfl

end Raster
