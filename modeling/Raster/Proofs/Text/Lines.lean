import Raster.Image.Text

/-!
# Lines of texts

A text that is written line by line is read back line by line if no line holds a line feed of its
own. The texts of numbers and pixels hold none.
-/

namespace Raster

def IsOneLine (text : String) : Prop :=
  '\n' ∉ text.toList

/-- Cut at its line feeds, the text yields these lines, and nothing after the last line feed. -/
def HasLines (text : String) (lines : List String) : Prop :=
  text.toList.splitOn '\n' = lines.map String.toList ++ [[]]

/-- The text that is written line by line. -/
def joinLines (lines : List String) : String :=
  String.join (lines.map fun line => line ++ "\n")

theorem joinLines_cons (line : String) (lines : List String) :
    joinLines (line :: lines) = line ++ "\n" ++ joinLines lines := by
  simp only [joinLines, List.map_cons, String.join_cons]

theorem joinLines_append (lines rest : List String) :
    joinLines (lines ++ rest) = joinLines lines ++ joinLines rest := by
  simp only [joinLines, List.map_append, String.join_append]

theorem toList_joinLines (lines : List String) :
    (joinLines lines).toList = ['\n'].intercalate (lines.map String.toList ++ [[]]) := by
  induction lines with
  | nil => rfl
  | cons line rest ih =>
    have more : rest.map String.toList ++ [[]] ≠ [] :=
      List.append_ne_nil_of_right_ne_nil _ (List.cons_ne_nil _ _)
    simp only [joinLines_cons, String.toList_append, ih, List.map_cons, List.cons_append,
      List.intercalate_cons_of_ne_nil more]
    rfl

/-- Lines without line feeds of their own are read back. -/
theorem hasLines_joinLines (lines : List String) (each : ∀ line ∈ lines, IsOneLine line) :
    HasLines (joinLines lines) lines := by
  simp only [HasLines, toList_joinLines]
  apply List.splitOn_intercalate
  · intro line member
    rcases List.mem_append.mp member with written | last
    · obtain ⟨text, listed, rfl⟩ := List.mem_map.mp written
      exact each text listed
    · -- What follows the last line feed is empty.
      rw [List.mem_singleton.mp last]
      exact List.not_mem_nil
  · exact List.append_ne_nil_of_right_ne_nil _ (List.cons_ne_nil _ _)

/-! ### Texts on one line -/

theorem isOneLine_append_iff (a b : String) : IsOneLine (a ++ b) ↔ IsOneLine a ∧ IsOneLine b := by
  simp only [IsOneLine, String.toList_append, List.mem_append, not_or]

theorem IsOneLine.append {a b : String} (first : IsOneLine a) (second : IsOneLine b) :
    IsOneLine (a ++ b) :=
  (isOneLine_append_iff a b).mpr ⟨first, second⟩

theorem isOneLine_intercalate (separator : String) (texts : List String)
    (separates : IsOneLine separator) (each : ∀ text ∈ texts, IsOneLine text) :
    IsOneLine (separator.intercalate texts) := by
  induction texts with
  | nil => exact List.not_mem_nil
  | cons text rest ih =>
    have first := each text (by simp)
    have others := ih fun t member => each t (by simp [member])
    cases rest with
    | nil => rwa [String.intercalate_singleton]
    | cons next rest =>
      simp only [String.intercalate_cons_cons, isOneLine_append_iff]
      exact ⟨⟨first, separates⟩, others⟩

theorem lineFeed_not_mem_toDigits (n : Nat) : '\n' ∉ Nat.toDigits 10 n := by
  intro member
  have digit := Nat.isDigit_of_mem_toDigits (by decide) (by decide) member
  exact absurd digit (by decide)

theorem isOneLine_toString_nat (n : Nat) : IsOneLine (toString n) := by
  simp only [IsOneLine, Nat.toString_eq_repr, Nat.toList_repr]
  exact lineFeed_not_mem_toDigits n

/-! ### Numbers and pixels -/

namespace Style

variable (s : Style) (digits : List Char) (noLineFeed : '\n' ∉ digits)

include noLineFeed

theorem lineFeed_not_mem_take (n : Nat) : '\n' ∉ digits.take n :=
  fun member => noLineFeed (List.mem_of_mem_take member)

theorem lineFeed_not_mem_drop (n : Nat) : '\n' ∉ digits.drop n :=
  fun member => noLineFeed (List.mem_of_mem_drop member)

theorem lineFeed_not_mem_positional (whole : Int) : '\n' ∉ s.positional digits whole := by
  have before := lineFeed_not_mem_take digits noLineFeed whole.toNat
  have after := lineFeed_not_mem_drop digits noLineFeed whole.toNat
  simp only [positional]
  -- Besides the digits there are zeros and the point: before, after or among them.
  split
  · simp [noLineFeed]
  · split
    · split <;> simp [noLineFeed]
    · simp [before, after]

theorem lineFeed_not_mem_scientific (leading : Int) : '\n' ∉ s.scientific digits leading := by
  have before := lineFeed_not_mem_take digits noLineFeed 1
  have after := lineFeed_not_mem_drop digits noLineFeed 1
  have exponent := lineFeed_not_mem_toDigits leading.natAbs
  have point : '\n' ∉ if digits.length ≤ 1 then [] else ['.'] := by split <;> simp
  have sign : '\n' ∉ if leading < 0 then ['-'] else if s.plusSign then ['+'] else [] := by
    split
    · simp
    · split <;> simp
  simp only [scientific, List.mem_append, List.mem_cons, not_or]
  exact ⟨⟨⟨⟨before, point⟩, after⟩, by decide, sign⟩, exponent⟩

end Style

theorem Style.lineFeed_not_mem_renderDecimal (s : Style) (d : Decimal) :
    '\n' ∉ s.renderDecimal d := by
  have digits := lineFeed_not_mem_toDigits d.digits
  simp only [renderDecimal]
  split
  · exact s.lineFeed_not_mem_positional _ digits _
  · exact s.lineFeed_not_mem_scientific _ digits _

theorem Style.isOneLine_render_listing {f : BinaryFormat} (x : Binary f) :
    IsOneLine (Style.listing.render x) := by
  have decimal := Style.listing.lineFeed_not_mem_renderDecimal (x.shortestDecimal Style.listing.tie)
  have body : '\n' ∉ if x.isZero then if Style.listing.pointZero then ['0', '.', '0'] else ['0']
      else Style.listing.renderDecimal (x.shortestDecimal Style.listing.tie) := by
    split
    · split <;> simp
    · exact decimal
  simp only [render]
  -- Only finite numbers have digits. What stands for the others are three fixed words.
  split
  · simp [IsOneLine, listing]
  · split
    · split <;> simp [IsOneLine, listing]
    · change '\n' ∉ (String.ofList (if x.negative then '-' :: _ else _)).toList
      rw [String.toList_ofList]
      split
      · simp only [List.mem_cons, not_or]
        exact ⟨by decide, body⟩
      · exact body

theorem Listing.isOneLine_inline_tuple (name item : String) (named : IsOneLine name)
    (written : IsOneLine item) : IsOneLine (tuple name item).inline := by
  simp only [inline, isOneLine_append_iff]
  refine ⟨⟨⟨named, ?_⟩, written⟩, ?_⟩ <;> simp [IsOneLine]

theorem Listing.isOneLine_inline_record (name : String) (fields : List (String × String))
    (named : IsOneLine name) (each : ∀ field ∈ fields, IsOneLine field.1 ∧ IsOneLine field.2) :
    IsOneLine (record name fields).inline := by
  have written : ∀ text ∈ namedFields fields, IsOneLine text := by
    intro text member
    obtain ⟨⟨field, value⟩, listed, rfl⟩ := List.mem_map.mp member
    have parts := each _ listed
    simp only [isOneLine_append_iff]
    exact ⟨⟨parts.1, by simp [IsOneLine]⟩, parts.2⟩
  have joined := isOneLine_intercalate ", " _ (by simp [IsOneLine]) written
  simp only [inline, isOneLine_append_iff]
  refine ⟨⟨⟨named, ?_⟩, joined⟩, ?_⟩ <;> simp [IsOneLine]

theorem PixelFormat.isOneLine_typeName (f : PixelFormat) : IsOneLine f.typeName := by
  cases f <;> simp [IsOneLine, typeName]

theorem PixelFormat.isOneLine_tag (f : PixelFormat) : IsOneLine f.tag := by
  cases f <;> simp [IsOneLine, tag]

theorem Rgba.isOneLine_fields {bits : Nat} (c : Rgba bits) :
    ∀ field ∈ c.fields, IsOneLine field.1 ∧ IsOneLine field.2 := by
  rintro ⟨name, value⟩ member
  obtain ⟨named, written⟩ := List.of_mem_zip member
  obtain ⟨x, -, rfl⟩ := List.mem_map.mp written
  refine ⟨?_, isOneLine_toString_nat _⟩
  simp only [List.mem_cons, List.not_mem_nil, or_false] at named
  rcases named with rfl | rfl | rfl | rfl <;> simp [IsOneLine]

theorem Complex.isOneLine_fields (z : Complex) :
    ∀ field ∈ z.fields, IsOneLine field.1 ∧ IsOneLine field.2 := by
  simp only [fields, List.mem_cons, List.not_mem_nil, or_false, forall_eq_or_imp, forall_eq,
    Style.isOneLine_render_listing, and_true]
  constructor <;> simp [IsOneLine]

/-- The listing of a pixel, of whatever format, is part of a line. -/
theorem Pixel.isOneLine_listing {f : PixelFormat} (p : Pixel f) : IsOneLine p.listing.inline := by
  have named := f.isOneLine_typeName
  -- Single numbers are listed in brackets, and the others field by field.
  cases f with
  | gray8 => exact Listing.isOneLine_inline_tuple _ _ named (isOneLine_toString_nat _)
  | gray16 => exact Listing.isOneLine_inline_tuple _ _ named (isOneLine_toString_nat _)
  | grayFloat => exact Listing.isOneLine_inline_tuple _ _ named (Style.isOneLine_render_listing _)
  | complexFloat => exact Listing.isOneLine_inline_record _ _ named (Complex.isOneLine_fields p)
  | rgba8 => exact Listing.isOneLine_inline_record _ _ named (Rgba.isOneLine_fields p)
  | rgba16 => exact Listing.isOneLine_inline_record _ _ named (Rgba.isOneLine_fields p)

end Raster
