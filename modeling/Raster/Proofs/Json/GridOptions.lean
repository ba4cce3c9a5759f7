import Raster.Proofs.Json.Geometry
import Raster.Proofs.Json.Reading

/-!
# Texts of grid options

Grid options are written with their overlap as a number and read with or without one. The reader of
numbers rounds the digits and the power of ten separately, so what comes back is the same window and
the overlap or a close neighbour of it: the overlap itself where digits and power are exact. An
overlap that is not finite is written as null and then refused.
-/

namespace Raster

open Json Numeral Binary

/-! ### Reading a number -/

/-- A number of this magnitude with the sign of the numeral. -/
def Numeral.withSign (n : Numeral) (y : Double) : Double :=
  if n.negative then -y else y

theorem Numeral.magnitude_withSign (n : Numeral) (y : Double) :
    (n.withSign y).magnitude = y.magnitude := by
  unfold withSign
  split <;> rfl

theorem Numeral.negative_withSign (n : Numeral) (y : Double) (unsigned : y.negative = false) :
    (n.withSign y).negative = n.negative := by
  unfold withSign
  cases n.negative with
  | false => exact unsigned
  | true => exact congrArg Bool.not unsigned

theorem Numeral.Shows.toDouble?_eq {x : Double} (finite : x.IsFinite) {n : Numeral}
    (shown : n.Shows (writtenDecimal x)) : n.toDouble? =
      some (n.withSign (applyPower (Binary.ofNat n.significand) n.power)) := by
  rw [toDouble?, shown.magnitude?_eq finite, Option.map_some]
  rfl

/-! ### Fields -/

namespace GridOptions

/-- The options that a JSON value shows: the window, and the overlap if there is one. -/
inductive IsShownBy (json : Json) : GridOptions → Prop where
  | given {w o : Json} {window : Size} {overlap : Double} :
      GivesFields "window" "overlap" json (some w) (some o) → window.IsShownBy w →
      o.toDouble? = some overlap → IsShownBy json ⟨window, overlap⟩
  | omitted {w : Json} {window : Size} :
      GivesFields "window" "overlap" json (some w) none → window.IsShownBy w →
      IsShownBy json (ofWindow window)

theorem ofJson?_eq_some_iff (json : Json) (options : GridOptions) :
    ofJson? json = some options ↔ options.IsShownBy json := by
  constructor
  · intro read
    obtain ⟨found, given, decoded⟩ := Option.bind_eq_some_iff.mp read
    split at decoded
    next x y =>
      have given := (fields?_eq_some_iff ..).mp given
      simp only [bind, Option.bind_eq_some_iff] at decoded
      obtain ⟨w, rfl, window, readWindow, rest⟩ := decoded
      have shown := (Size.ofJson?_eq_some_iff w window).mp readWindow
      cases y with
      | none =>
        obtain rfl := Option.some.inj rest
        exact .omitted given shown
      | some o =>
        obtain ⟨overlap, readOverlap, same⟩ := Option.bind_eq_some_iff.mp rest
        obtain rfl := Option.some.inj same
        exact .given given shown readOverlap
    next => cases decoded
  · intro shown
    cases shown with
    | given given shown readOverlap =>
      simp [ofJson?, (fields?_eq_some_iff ..).mpr given, (Size.ofJson?_eq_some_iff ..).mpr shown,
        readOverlap]
    | omitted given shown =>
      simp [ofJson?, (fields?_eq_some_iff ..).mpr given, (Size.ofJson?_eq_some_iff ..).mpr shown]

/-! ### Writing -/

/-- The text of options shows the window and what the text of the overlap spells. -/
theorem exists_isTextOf_toJson (options : GridOptions) {o : Json}
    (spelled : Spells (style.render options.overlap).toList (.value o)) :
    ∃ json w, IsTextOf options.toJson json ∧ options.window.IsShownBy w ∧
      GivesFields "window" "overlap" json (some w) (some o) := by
  obtain ⟨w, spelledWindow, shown⟩ := options.window.exists_spells
  have members := spells_objectText ⟨"window", _, w, by decide, spelledWindow⟩
    [⟨"overlap", _, o, by decide, spelled⟩]
  exact ⟨_, w, isTextOf_of_spells members, shown, gives_two_members (by decide) w o⟩

theorem decode?_toJson (options : GridOptions) {o : Json} {overlap : Double}
    (spelled : Spells (style.render options.overlap).toList (.value o))
    (read : o.toDouble? = some overlap) :
    decode? ofJson? options.toJson = some ⟨options.window, overlap⟩ := by
  obtain ⟨json, w, text, shown, given⟩ := options.exists_isTextOf_toJson spelled
  rw [decode?_of_isTextOf _ text, ofJson?_eq_some_iff]
  exact .given given shown read

/-! ### Round trips -/

/-- What comes back of options that were written with the numeral as their overlap. -/
structure ComesBack (options : GridOptions) (n : Numeral) (back : GridOptions) : Prop where
  /-- The text itself is exact: of all numbers the overlap is nearest to what is written. -/
  written : RoundsTo .double (n.significand * (10 : Rat) ^ n.power) options.overlap.magnitude
  shown : n.Shows (writtenDecimal options.overlap)
  window : back.window = options.window
  /-- The overlap is the rounded digits, times or divided by the rounded power of ten. -/
  value : back.overlap.magnitude = (applyPower (Binary.ofNat n.significand) n.power).magnitude
  sign : back.overlap.negative = options.overlap.negative
  finite : back.overlap.IsFinite
  /-- It is one of the three neighbours on either side of the overlap, or the overlap itself. -/
  atMost : back.overlap.magnitude ≤ options.overlap.magnitude + 3
  atLeast : options.overlap.magnitude ≤ back.overlap.magnitude + 3
  /-- If neither digits nor power need rounding, everything comes back. -/
  exact : n.significand ≤ 2 ^ 53 → n.power.natAbs ≤ 22 →
    back = options ∧ ∀ image, back.generate image = options.generate image

theorem exists_comesBack (options : GridOptions) (finite : options.overlap.IsFinite) :
    ∃ n back, SpellsNumeral (style.render options.overlap).toList n ∧
      decode? ofJson? options.toJson = some back ∧ options.ComesBack n back := by
  obtain ⟨n, spelled, sign, shown⟩ := exists_spellsNumeral_render options.overlap finite
  have read := options.decode?_toJson (.number spelled) (shown.toDouble?_eq finite)
  obtain ⟨bounded, unsigned, atMost, atLeast, exact⟩ := shown.readsBack finite
  have signed := n.negative_withSign _ unsigned
  have same := n.magnitude_withSign (applyPower (Binary.ofNat n.significand) n.power)
  generalize n.withSign (applyPower (Binary.ofNat n.significand) n.power) = overlap at *
  rw [Binary.IsFinite, ← same] at bounded
  rw [← same] at atMost atLeast exact
  have written := roundsTo_writtenDecimal options.overlap
  rw [← shown.toRat_eq] at written
  refine ⟨n, _, spelled, read, written, shown, rfl, same, signed.trans sign, bounded, atMost,
    atLeast, fun few small => ?_⟩
  have whole : overlap = options.overlap := by
    apply Binary.bits_injective
    rw [Binary.bits, Binary.bits, signed.trans sign, exact few small]
  have back : (⟨options.window, overlap⟩ : GridOptions) = options := by rw [whole]
  exact ⟨back, fun image => by rw [back]⟩

theorem render_of_not_finite (x : Double) (unbounded : ¬x.IsFinite) : style.render x = "null" := by
  unfold Style.render
  by_cases nan : x.isNaN = true
  · rw [if_pos nan]
    rfl
  · have infinite : x.isInfinite = true := by
      unfold Binary.IsFinite at unbounded
      simp only [Binary.isNaN, decide_eq_true_eq] at nan
      exact beq_iff_eq.mpr (by omega)
    rw [if_neg nan, if_pos infinite]
    cases x.negative <;> rfl

/-- Without a finite overlap there is no number in the text. -/
theorem toJson_of_not_finite (options : GridOptions) (unbounded : ¬options.overlap.IsFinite) :
    options.toJson = objectText [("window", options.window.toJson), ("overlap", "null")] ∧
      decode? ofJson? options.toJson = none := by
  have word := render_of_not_finite options.overlap unbounded
  refine ⟨by rw [toJson, word], ?_⟩
  obtain ⟨json, w, text, -, given⟩ :=
    options.exists_isTextOf_toJson (o := .null) (by rw [word]; exact .nullWord)
  rw [decode?_of_isTextOf _ text]
  apply Option.eq_none_iff_forall_not_mem.mpr
  -- The overlap is there, so the default does not step in, and null is no number.
  intro back read
  have fields := (fields?_eq_some_iff ..).mpr given
  cases (ofJson?_eq_some_iff json back).mp read with
  | given other _ readOverlap =>
    rw [(fields?_eq_some_iff ..).mpr other] at fields
    cases fields
    cases readOverlap
  | omitted other _ =>
    rw [(fields?_eq_some_iff ..).mpr other] at fields
    cases fields

/-- The options without an overlap are written with the default one, which is exact. -/
theorem decode?_toJson_ofWindow (window : Size) :
    decode? ofJson? (ofWindow window).toJson = some (ofWindow window) := by
  have finite : defaultOverlap.IsFinite := by decide +kernel
  have decimal : writtenDecimal defaultOverlap = ⟨5, -1⟩ := by decide +kernel
  obtain ⟨n, back, -, read, comes⟩ := exists_comesBack (ofWindow window) finite
  have shown : n.Shows (writtenDecimal defaultOverlap) := comes.shown
  rw [decimal] at shown
  rcases shown.parts with ⟨digits, power⟩ | ⟨integer, -⟩
  · rw [read, (comes.exact (by rw [digits]; decide) (by rw [power]; decide)).1]
  · exact absurd integer (by decide)

theorem toRat_defaultOverlap : defaultOverlap.toRat = 1 / 2 := by
  have units : unitsOf .double defaultOverlap.magnitude = 2 ^ 1073 := by decide +kernel
  have unsigned : defaultOverlap.negative = false := by decide +kernel
  rw [toRat, unsigned, if_neg Bool.false_ne_true, absolute_eq_units, units,
    zpow_lowestExponent_double, Nat.cast_pow, Nat.cast_ofNat, pow_succ]
  field_simp

end GridOptions

/-- What a round trip through a text does to grid options, and what a text without an overlap
means. -/
structure RoundTripsGridOptions : Prop where
  finite : ∀ options : GridOptions, options.overlap.IsFinite →
    ∃ n back, SpellsNumeral (style.render options.overlap).toList n ∧
      decode? GridOptions.ofJson? options.toJson = some back ∧ options.ComesBack n back
  notFinite : ∀ options : GridOptions, ¬options.overlap.IsFinite →
    options.toJson = objectText [("window", options.window.toJson), ("overlap", "null")] ∧
      decode? GridOptions.ofJson? options.toJson = none
  omitted : ∀ text json w window, IsTextOf text json →
    GivesFields "window" "overlap" json (some w) none → window.IsShownBy w →
      ∃ options : GridOptions, decode? GridOptions.ofJson? text = some options ∧
        options.window = window ∧ options.overlap.toRat = 1 / 2 ∧
          decode? GridOptions.ofJson? options.toJson = some options

theorem gridOptions_round_trip : RoundTripsGridOptions := by
  refine ⟨GridOptions.exists_comesBack, GridOptions.toJson_of_not_finite,
    fun text json w window spelled given shown => ?_⟩
  refine ⟨GridOptions.ofWindow window, ?_, rfl, GridOptions.toRat_defaultOverlap,
    GridOptions.decode?_toJson_ofWindow window⟩
  rw [decode?_of_isTextOf _ spelled, GridOptions.ofJson?_eq_some_iff]
  exact .omitted given shown

/-- Negative zero comes back with its sign. -/
theorem gridOptions_round_trip_negativeZero :
    decode? GridOptions.ofJson? (GridOptions.mk ⟨20, 10⟩ (ofMagnitude true 0)).toJson =
      some ⟨⟨20, 10⟩, ofMagnitude true 0⟩ := by
  obtain ⟨n, back, -, read, comes⟩ :=
    gridOptions_round_trip.finite ⟨⟨20, 10⟩, ofMagnitude true 0⟩ (by decide)
  have decimal : writtenDecimal (ofMagnitude true 0) = ⟨0, 0⟩ := by decide +kernel
  have parts := (show n.Shows (writtenDecimal (ofMagnitude true 0)) from comes.shown).parts
  rw [decimal] at parts
  have digits : n.significand = 0 := by
    rcases parts with ⟨digits, -⟩ | ⟨-, digits, -⟩
    · exact digits
    · rw [digits, Nat.zero_mul]
  have power : n.power.natAbs ≤ 22 := by
    rcases parts with ⟨-, power⟩ | ⟨-, -, power⟩ <;> rw [power] <;> decide
  rw [read, (comes.exact (by rw [digits]; decide) power).1]

/-- An overlap of fourteen fifteenths is written with one digit too many to be exact. What comes back
is the number before it, and windows of fifteen pixels are then laid out at another distance. -/
theorem gridOptions_round_trip_not_exact :
    (ofBits 0x3fedddddddddddde : Double).IsFinite ∧
      decode? GridOptions.ofJson? (GridOptions.mk ⟨15, 15⟩ (ofBits 0x3fedddddddddddde)).toJson =
        some ⟨⟨15, 15⟩, ofBits 0x3feddddddddddddd⟩ ∧
      (ofBits 0x3feddddddddddddd : Double) ≠ ofBits 0x3fedddddddddddde ∧
      Grid.step 15 (ofBits 0x3fedddddddddddde) = 14 ∧
      Grid.step 15 (ofBits 0x3feddddddddddddd) = 13 := by
  refine ⟨by decide, ?_, by decide, by decide +kernel, by decide +kernel⟩
  obtain ⟨n, back, -, read, comes⟩ :=
    GridOptions.exists_comesBack ⟨⟨15, 15⟩, ofBits 0x3fedddddddddddde⟩ (by decide)
  have decimal : writtenDecimal (ofBits 0x3fedddddddddddde) = ⟨9333333333333333, -16⟩ := by
    decide +kernel
  have parts := (show n.Shows (writtenDecimal (ofBits 0x3fedddddddddddde)) from comes.shown).parts
  rw [decimal] at parts
  obtain ⟨digits, power⟩ : n.significand = 9333333333333333 ∧ n.power = -16 := by
    rcases parts with found | ⟨integer, -⟩
    · exact found
    · exact absurd integer (by decide)
  have evaluated : applyPower (Binary.ofNat 9333333333333333) (-16) = ofBits 0x3feddddddddddddd := by
    decide +kernel
  have value := comes.value
  rw [digits, power, evaluated] at value
  have overlap : back.overlap = ofBits 0x3feddddddddddddd := by
    apply bits_injective
    rw [bits, bits, comes.sign, value]
    decide
  rw [read, ← overlap, ← (show back.window = ⟨15, 15⟩ from comes.window)]

end Raster
