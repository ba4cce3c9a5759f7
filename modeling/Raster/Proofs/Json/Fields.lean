import Raster.Json.Codec

/-!
# Fields of a structure

A structure of two fields has them in an object as the only members of their names, wherever these
stand among other members, or in an array as the items in order. The fields that are read are these.
What has a field twice, has an item too many, or is no structure at all is refused.
-/

namespace Raster.Json

/-! ### Members -/

/-- What an object gives for a name: the value of the only member of this name, or nothing if there
is no such member. For a name that is there twice it gives neither. -/
inductive GivesMember : List (Option String × Json) → String → Option Json → Prop where
  | absent {members : List (Option String × Json)} {name : String} :
      (∀ member ∈ members, member.1 ≠ some name) → GivesMember members name none
  | only {before after : List (Option String × Json)} {name : String} {value : Json} :
      (∀ member ∈ before ++ after, member.1 ≠ some name) →
      GivesMember (before ++ (some name, value) :: after) name (some value)

/-- A name that is there twice or more often. -/
inductive RepeatsMember : List (Option String × Json) → String → Prop where
  | twice {before between after : List (Option String × Json)} {name : String} {first second : Json} :
      RepeatsMember (before ++ (some name, first) :: (between ++ (some name, second) :: after)) name

/-- The members of this name. -/
def namesakes (name : String) (members : List (Option String × Json)) :
    List (Option String × Json) :=
  members.filter fun member => member.1 == some name

theorem namesakes_eq_nil_iff (name : String) (members : List (Option String × Json)) :
    namesakes name members = [] ↔ ∀ member ∈ members, member.1 ≠ some name := by
  simp [namesakes]

theorem namesakes_append_cons (name : String) (before after : List (Option String × Json))
    (value : Json) : namesakes name (before ++ (some name, value) :: after) =
      namesakes name before ++ (some name, value) :: namesakes name after := by
  simp [namesakes]

theorem member?_eq (name : String) (members : List (Option String × Json)) :
    member? name members =
      match namesakes name members with
      | [] => some none
      | [(_, value)] => some (some value)
      | _ => none :=
  rfl

theorem member?_of_gives {members : List (Option String × Json)} {name : String}
    {found : Option Json} (given : GivesMember members name found) :
    member? name members = some found := by
  cases given with
  | absent others => rw [member?_eq, (namesakes_eq_nil_iff name members).mpr others]
  | @only before after _ value others =>
    obtain ⟨earlier, later⟩ := List.forall_mem_append.mp others
    rw [member?_eq, namesakes_append_cons, (namesakes_eq_nil_iff name before).mpr earlier,
      (namesakes_eq_nil_iff name after).mpr later]
    rfl

theorem gives_of_member? {members : List (Option String × Json)} {name : String}
    {found : Option Json} (given : member? name members = some found) :
    GivesMember members name found := by
  -- What the list has of this name tells where it stands and that there is no more of it.
  rw [member?_eq] at given
  cases filtered : namesakes name members with
  | nil =>
    rw [filtered] at given
    obtain rfl := Option.some.inj given
    exact .absent ((namesakes_eq_nil_iff name members).mp filtered)
  | cons member rest =>
    obtain ⟨before, after, rfl, earlier, named, later⟩ := List.filter_eq_cons_iff.mp filtered
    obtain ⟨key, value⟩ := member
    obtain rfl : key = some name := beq_iff_eq.mp named
    cases rest with
    | nil =>
      rw [filtered] at given
      obtain rfl := Option.some.inj given
      refine .only (List.forall_mem_append.mpr ⟨?_, (namesakes_eq_nil_iff name after).mp later⟩)
      exact fun member listed same => earlier member listed (beq_iff_eq.mpr same)
    | cons =>
      rw [filtered] at given
      cases given

theorem member?_eq_some_iff (name : String) (members : List (Option String × Json))
    (found : Option Json) : member? name members = some found ↔ GivesMember members name found :=
  ⟨gives_of_member?, member?_of_gives⟩

theorem member?_of_repeats {members : List (Option String × Json)} {name : String}
    (repeated : RepeatsMember members name) : member? name members = none := by
  obtain @⟨before, between, after, name, first, second⟩ := repeated
  rw [member?_eq, namesakes_append_cons, namesakes_append_cons]
  cases namesakes name before with
  | nil => cases namesakes name between <;> rfl
  | cons member rest => cases rest <;> rfl

/-! ### Structures -/

/-- What an object or an array gives for the two fields of a structure. -/
inductive GivesFields (first second : String) : Json → Option Json → Option Json → Prop where
  | members {members : List (Option String × Json)} {x y : Option Json} :
      (∀ member ∈ members, member.1 ≠ none) → GivesMember members first x →
      GivesMember members second y → GivesFields first second (.object members) x y
  | items (x y : Json) : GivesFields first second (.array [x, y]) (some x) (some y)
  | oneItem (x : Json) : GivesFields first second (.array [x]) (some x) none
  | noItem : GivesFields first second (.array []) none none

theorem fields?_object_eq_some_iff (first second : String) (members : List (Option String × Json))
    (x y : Option Json) :
    (object members).fields? [first, second] = some [x, y] ↔
      (∀ member ∈ members, member.1 ≠ none) ∧ GivesMember members first x ∧
        GivesMember members second y := by
  have texts : (members.all fun member => member.1.isSome) = true ↔
      ∀ member ∈ members, member.1 ≠ none := by
    simp only [List.all_eq_true, Option.isSome_iff_ne_none]
  rw [← texts, ← member?_eq_some_iff, ← member?_eq_some_iff]
  cases givenX : member? first members with
  | none => simp [fields?, givenX]
  | some u => cases givenY : member? second members <;> simp [fields?, givenX, givenY]

theorem fields?_eq_some_iff (first second : String) (json : Json) (x y : Option Json) :
    json.fields? [first, second] = some [x, y] ↔ GivesFields first second json x y := by
  constructor
  · intro given
    cases json with
    | object members =>
      obtain ⟨texts, givenX, givenY⟩ := (fields?_object_eq_some_iff ..).mp given
      exact .members texts givenX givenY
    | array items =>
      -- An array is at most as long as the structure has fields.
      match items with
      | [] =>
        obtain ⟨rfl, rfl⟩ : none = x ∧ none = y := by simpa [fields?] using given
        exact .noItem
      | [u] =>
        obtain ⟨rfl, rfl⟩ : some u = x ∧ none = y := by simpa [fields?] using given
        exact .oneItem u
      | [u, v] =>
        obtain ⟨rfl, rfl⟩ : some u = x ∧ some v = y := by simpa [fields?] using given
        exact .items u v
      | _ :: _ :: _ :: _ => simp [fields?] at given
    | null | bool | number | string => cases given
  · rintro (⟨texts, givenX, givenY⟩ | _ | _ | _)
    · exact (fields?_object_eq_some_iff ..).mpr ⟨texts, givenX, givenY⟩
    · simp [fields?]
    · simp [fields?]
    · simp [fields?]

theorem pair?_eq_some_iff {α : Type} (first second : String) (decode : Json → Option α)
    (json : Json) (u v : α) :
    json.pair? first second decode = some (u, v) ↔
      ∃ x y, GivesFields first second json (some x) (some y) ∧ decode x = some u ∧
        decode y = some v := by
  simp only [← fields?_eq_some_iff]
  constructor
  · intro read
    obtain ⟨found, given, decoded⟩ := Option.bind_eq_some_iff.mp read
    split at decoded
    next x y =>
      simp only [bind, Option.bind_eq_some_iff, pure, Option.some.injEq, Prod.mk.injEq] at decoded
      obtain ⟨x, rfl, u', readX, y, rfl, v', readY, rfl, rfl⟩ := decoded
      exact ⟨x, y, given, readX, readY⟩
    next => cases decoded
  · rintro ⟨x, y, given, readX, readY⟩
    simp [pair?, given, readX, readY]

/-- What no structure of these two fields is: a field is missing or repeated, the value of one will
not do, or there are more or fewer items than fields. -/
inductive LacksFields (first second : String) (Unfit : String → Json → Prop) : Json → Prop where
  | missing {members : List (Option String × Json)} {name : String} :
      name = first ∨ name = second → (∀ member ∈ members, member.1 ≠ some name) →
      LacksFields first second Unfit (.object members)
  | repeated {members : List (Option String × Json)} {name : String} :
      name = first ∨ name = second → RepeatsMember members name →
      LacksFields first second Unfit (.object members)
  | unfitMember {members : List (Option String × Json)} {name : String} {value : Json} :
      name = first ∨ name = second → (some name, value) ∈ members → Unfit name value →
      LacksFields first second Unfit (.object members)
  | otherLength {items : List Json} : items.length ≠ 2 →
      LacksFields first second Unfit (.array items)
  | unfitFirst {x y : Json} : Unfit first x → LacksFields first second Unfit (.array [x, y])
  | unfitSecond {x y : Json} : Unfit second y → LacksFields first second Unfit (.array [x, y])
  | noStructure {json : Json} : (∀ members, json ≠ .object members) →
      (∀ items, json ≠ .array items) → LacksFields first second Unfit json

theorem GivesMember.mem_iff {members : List (Option String × Json)} {name : String}
    {value found : Json} (given : GivesMember members name (some found)) :
    (some name, value) ∈ members ↔ value = found := by
  cases given with
  | only others =>
    constructor
    · intro listed
      rcases List.mem_append.mp listed with earlier | later
      · exact absurd rfl (others _ (List.mem_append_left _ earlier))
      · rcases List.mem_cons.mp later with same | later
        · exact (Prod.mk.inj same).2
        · exact absurd rfl (others _ (List.mem_append_right _ later))
    · rintro rfl
      exact List.mem_append_right _ List.mem_cons_self

theorem GivesMember.not_repeats {members : List (Option String × Json)} {name : String}
    {found : Option Json} (given : GivesMember members name found) : ¬RepeatsMember members name := by
  intro repeated
  have read := member?_of_gives given
  rw [member?_of_repeats repeated] at read
  cases read

/-- If what lacks fields gives both, then one of them will not do. -/
theorem LacksFields.unfit_of_gives {first second : String} {Unfit : String → Json → Prop}
    {json : Json} (lacks : LacksFields first second Unfit json) {x y : Json}
    (given : GivesFields first second json (some x) (some y)) : Unfit first x ∨ Unfit second y := by
  cases given with
  | members texts givenX givenY =>
    cases lacks with
    | missing known unnamed =>
      rcases known with rfl | rfl
      · exact absurd rfl (unnamed _ (givenX.mem_iff.mpr rfl))
      · exact absurd rfl (unnamed _ (givenY.mem_iff.mpr rfl))
    | repeated known twice =>
      rcases known with rfl | rfl
      · exact absurd twice givenX.not_repeats
      · exact absurd twice givenY.not_repeats
    | unfitMember known listed unfit =>
      rcases known with rfl | rfl
      · exact .inl (givenX.mem_iff.mp listed ▸ unfit)
      · exact .inr (givenY.mem_iff.mp listed ▸ unfit)
    | noStructure noObject _ => exact absurd rfl (noObject _)
  | items x y =>
    cases lacks with
    | otherLength other => exact absurd rfl other
    | unfitFirst unfit => exact .inl unfit
    | unfitSecond unfit => exact .inr unfit
    | noStructure _ noArray => exact absurd rfl (noArray _)

end Raster.Json
