import Mathlib.Data.List.Nodup
import Mathlib.Data.Option.Basic
import StreamPlacement.Json.Record

/-!
Values that differ in nothing a reader of records looks at.

A shape says which names a reader knows, and how the values behind them are read in turn. Two values
are akin for a shape if one becomes the other by changing the order of members and by adding or
taking away members with names that are not known, at any depth. What is read by a shape is the same
for both. Where a record is known only by its tag, everything in it is looked at beforehand, so
there a member that is added must be sound and not nested too deeply.
-/

namespace StreamPlacement.Json

/-- How a value is read. -/
inductive Shape
  /-- As it is. -/
  | whole
  | list (item : Shape)
  | record (fields : List (String × Shape))
  /-- As the record that a tag tells, nested in some others. Its fields are read as they are. -/
  | tagged (tagName : String) (outerDepth : Nat) (variants : List (String × List String))

/-- The shape of a variant without its tag. -/
def Shape.flat (names : List String) : Shape := .record (names.map (·, .whole))

/-- Two values that differ in what a shape does not look at. -/
inductive Akin : Shape → Json → Json → Prop
  | refl (shape : Shape) (value : Json) : Akin shape value value
  | symm {shape : Shape} {value value' : Json} (same : Akin shape value value') :
      Akin shape value' value
  | trans {shape : Shape} {value value' value'' : Json} (same : Akin shape value value')
      (same' : Akin shape value' value'') : Akin shape value value''
  /-- The order of members. -/
  | order {fields : List (String × Shape)} {members members' : List (Option String × Json)}
      (perm : members.Perm members') :
      Akin (.record fields) (.object members) (.object members')
  /-- A member that is not known. -/
  | unknown {fields : List (String × Shape)} {members : List (Option String × Json)}
      (name : String) (value : Json) (fresh : name ∉ fields.map Prod.fst) :
      Akin (.record fields) (.object members) (.object ((some name, value) :: members))
  /-- A change inside a member. -/
  | member {fields : List (String × Shape)} {front back : List (Option String × Json)}
      {name : String} {shape : Shape} {value value' : Json} (known : (name, shape) ∈ fields)
      (same : Akin shape value value') :
      Akin (.record fields) (.object (front ++ (some name, value) :: back))
        (.object (front ++ (some name, value') :: back))
  /-- A change inside a field that is given by its position. -/
  | position {front back : List (String × Shape)} {items items' : List Json} {name : String}
      {shape : Shape} {value value' : Json} (place : items.length = front.length)
      (same : Akin shape value value') :
      Akin (.record (front ++ (name, shape) :: back)) (.array (items ++ value :: items'))
        (.array (items ++ value' :: items'))
  /-- A change inside an item. -/
  | item {shape : Shape} {front back : List Json} {value value' : Json}
      (same : Akin shape value value') :
      Akin (.list shape) (.array (front ++ value :: back)) (.array (front ++ value' :: back))
  /-- The order of members, the tag among them. -/
  | taggedOrder {tagName : String} {outerDepth : Nat} {variants : List (String × List String)}
      {members members' : List (Option String × Json)} (perm : members.Perm members') :
      Akin (.tagged tagName outerDepth variants) (.object members) (.object members')
  /-- A member that the variant does not know. -/
  | taggedUnknown {tagName : String} {outerDepth : Nat} {variants : List (String × List String)}
      {members : List (Option String × Json)} (name : String) (value : Json)
      (fresh : name ≠ tagName)
      (unknown : ∀ variant ∈ variants,
        (some tagName, .string (some variant.1)) ∈ members → name ∉ variant.2)
      (sound : isSound value = true) (shallow : outerDepth + 1 + depth value ≤ maxDepth) :
      Akin (.tagged tagName outerDepth variants) (.object members)
        (.object ((some name, value) :: members))

/-- A reader for which akin values are the same. -/
def Respects {β : Type} (shape : Shape) (read : Json → Option β) : Prop :=
  ∀ value value' : Json, Akin shape value value' → read value = read value'

variable {β : Type} {shape : Shape} {value value' : Json} {read : Json → Option β}

/-! ### Plain values and lists -/

theorem Akin.eq_of_whole (h : Akin .whole value value') : value = value' := by
  generalize hshape : Shape.whole = shape at h
  induction h with
  | refl => rfl
  | symm same ih => exact (ih hshape).symm
  | trans same same' ih ih' => exact (ih hshape).trans (ih' hshape)
  | _ => cases hshape

theorem respects_whole (read : Json → Option β) : Respects .whole read :=
  fun _ _ h => congrArg read h.eq_of_whole

theorem Akin.null_iff (h : Akin shape value value') :
    value = .null ↔ value' = .null := by
  induction h with
  | refl => rfl
  | symm same ih => exact ih.symm
  | trans same same' ih ih' => exact ih.trans ih'
  | _ => exact iff_of_false (fun h => nomatch h) fun h => nomatch h

theorem nullable?_of_ne (h : value ≠ .null) : nullable? read value = (read value).map some := by
  unfold nullable?
  split
  · exact absurd rfl h
  · rfl

/-- Nothing but null becomes null. -/
theorem Respects.nullable? (hread : Respects shape read) : Respects shape (nullable? read) := by
  intro value value' h
  by_cases hnull : value = .null
  · rw [hnull, h.null_iff.mp hnull]
  · rw [nullable?_of_ne hnull, nullable?_of_ne (h.null_iff.not.mp hnull),
      hread _ _ h]

theorem Respects.list? (hread : Respects shape read) : Respects (.list shape) (list? read) := by
  intro value value' h
  generalize hshape : Shape.list shape = listShape at h
  induction h with
  | refl => rfl
  | symm same ih => exact (ih hshape).symm
  | trans same same' ih ih' => exact (ih hshape).trans (ih' hshape)
  | item same =>
      cases hshape
      show (_ ++ _ :: _).mapM read = (_ ++ _ :: _).mapM read
      rw [List.mapM_append, List.mapM_append, List.mapM_cons, List.mapM_cons,
        hread _ _ same]
  | _ => cases hshape

/-! ### Members with known names -/

/-- The members whose names are text and known. -/
def knownOf (names : List String) (members : List (Option String × Json)) : List (String × Json) :=
  members.filterMap fun (name, value) =>
    name.bind fun name => if names.contains name then some (name, value) else none

theorem mapM_names (members : List (Option String × Json)) :
    (members.mapM fun (name, value) => name.map fun name => (name, value)) =
      if ∀ member ∈ members, member.1.isSome = true then
        some (members.filterMap fun (name, value) => name.map fun name => (name, value))
      else none := by
  induction members with
  | nil => rfl
  | cons member rest ih =>
      obtain ⟨name | name, value⟩ := member
      · simp
      · rw [List.mapM_cons, ih]
        simp only [List.forall_mem_cons, Option.isSome_some, true_and]
        split <;> rfl

/-- Known members are given if every name is text and no known one repeats. -/
theorem known?_eq (names : List String) (members : List (Option String × Json)) :
    known? names members =
      if (∀ member ∈ members, member.1.isSome = true) ∧
        ((knownOf names members).map Prod.fst).Nodup then some (knownOf names members)
      else none := by
  have hknown : (members.filterMap fun (name, value) => name.map fun name => (name, value)).filter
      (fun member => names.contains member.1) = knownOf names members := by
    rw [List.filter_filterMap]
    refine List.filterMap_congr fun member _ => ?_
    obtain ⟨name | name, value⟩ := member <;> rfl
  unfold known?
  rw [mapM_names]
  by_cases hall : ∀ member ∈ members, member.1.isSome = true
  · rw [if_pos hall]
    show (let fields := List.filter (fun member => names.contains member.1) _
      if (fields.map Prod.fst).Nodup then some fields else none) = _
    rw [hknown]
    exact if_congr (and_iff_right hall).symm rfl rfl
  · rw [if_neg hall, if_neg fun h => hall h.1]

/-! ### Fields -/

/-- Two values for a name that are akin, or none. -/
def Matching (shape : Shape) : Option Json → Option Json → Prop
  | some value, some value' => Akin shape value value'
  | none, none => True
  | _, _ => False

/-- Fields that were given alike. -/
structure Alike (fields : List (String × Shape)) (given given' : Given) : Prop where
  positional : given.positional = given'.positional
  matching : ∀ {name shape}, (name, shape) ∈ fields →
    Matching shape (given.fields.lookup name) (given'.fields.lookup name)

/-- Records that are given alike, or neither of which is given. -/
def AlikeOrNone (fields : List (String × Shape)) : Option Given → Option Given → Prop
  | some given, some given' => Alike fields given given'
  | none, none => True
  | _, _ => False

theorem Matching.refl (shape : Shape) (value : Option Json) : Matching shape value value := by
  cases value with
  | none => exact trivial
  | some value => exact Akin.refl shape value

theorem Matching.symm {value value' : Option Json} (h : Matching shape value value') :
    Matching shape value' value := by
  match value, value' with
  | none, none => exact trivial
  | some value, some value' => exact Akin.symm h

theorem Matching.trans {value value' value'' : Option Json} (h : Matching shape value value')
    (h' : Matching shape value' value'') : Matching shape value value'' := by
  match value, value', value'' with
  | none, none, none => exact trivial
  | some value, some value', some value'' => exact Akin.trans h h'

variable {fields : List (String × Shape)}

theorem AlikeOrNone.refl (given : Option Given) : AlikeOrNone fields given given := by
  cases given with
  | none => exact trivial
  | some given => exact ⟨rfl, fun _ => .refl _ _⟩

theorem AlikeOrNone.symm {given given' : Option Given} (h : AlikeOrNone fields given given') :
    AlikeOrNone fields given' given := by
  match given, given' with
  | none, none => exact trivial
  | some given, some given' => exact ⟨h.positional.symm, fun hknown => (h.matching hknown).symm⟩

theorem AlikeOrNone.trans {given given' given'' : Option Given}
    (h : AlikeOrNone fields given given') (h' : AlikeOrNone fields given' given'') :
    AlikeOrNone fields given given'' := by
  match given, given', given'' with
  | none, none, none => exact trivial
  | some given, some given', some given'' =>
      exact ⟨h.positional.trans h'.positional, fun hknown =>
        (h.matching hknown).trans (h'.matching hknown)⟩

/-- Of names that do not repeat each one stands for its only value. -/
theorem lookup_eq_some_iff {members : List (String × Json)} (h : (members.map Prod.fst).Nodup)
    {name : String} : members.lookup name = some value ↔ (name, value) ∈ members := by
  induction members with
  | nil => simp
  | cons member rest ih =>
      obtain ⟨name', value'⟩ := member
      rw [List.map_cons, List.nodup_cons] at h
      rw [List.lookup_cons, List.mem_cons, Prod.mk.injEq]
      by_cases hname : name = name'
      · subst hname
        have hrest : (name, value) ∉ rest := fun hmem => h.1 (List.mem_map.mpr ⟨_, hmem, rfl⟩)
        simp [hrest, eq_comm]
      · rw [beq_eq_false_iff_ne.mpr hname]
        simp [hname, ih h.2]

theorem lookup_perm {members members' : List (String × Json)} (h : members.Perm members')
    (hnodup : (members.map Prod.fst).Nodup) (name : String) :
    members.lookup name = members'.lookup name := by
  refine Option.ext fun value => ?_
  rw [lookup_eq_some_iff hnodup, lookup_eq_some_iff ((h.map Prod.fst).nodup_iff.mp hnodup),
    h.mem_iff]

/-- A change at one place is seen by nothing but the name that stands there. -/
theorem matching_append {front back : List (String × Json)} {name : String}
    (hnodup : (fields.map Prod.fst).Nodup) (hknown : (name, shape) ∈ fields)
    (same : Akin shape value value') {name' : String} {shape' : Shape}
    (hknown' : (name', shape') ∈ fields) :
    Matching shape' ((front ++ (name, value) :: back).lookup name')
      ((front ++ (name, value') :: back).lookup name') := by
  induction front with
  | nil =>
      rw [List.nil_append, List.nil_append, List.lookup_cons, List.lookup_cons]
      by_cases hname : name' = name
      · subst hname
        -- One name, one shape: what is known of the name is what the change was made by.
        obtain rfl := (Prod.mk.inj (List.inj_on_of_nodup_map hnodup hknown hknown' rfl)).2
        rw [beq_self_eq_true]
        exact same
      · rw [beq_eq_false_iff_ne.mpr hname]
        exact Matching.refl _ _
  | cons member front ih =>
      rw [List.cons_append, List.cons_append, List.lookup_cons, List.lookup_cons]
      cases name' == member.1 with
      | true => exact Matching.refl _ _
      | false => exact ih

/-! ### Records -/

theorem knownOf_append (names : List String) (front back : List (Option String × Json)) :
    knownOf names (front ++ back) = knownOf names front ++ knownOf names back :=
  List.filterMap_append

theorem knownOf_cons_of_mem {names : List String} {name : String} (h : name ∈ names)
    (value : Json) (members : List (Option String × Json)) :
    knownOf names ((some name, value) :: members) = (name, value) :: knownOf names members := by
  simp [knownOf, h]

theorem knownOf_cons_of_not_mem {names : List String} {name : String} (h : name ∉ names)
    (value : Json) (members : List (Option String × Json)) :
    knownOf names ((some name, value) :: members) = knownOf names members := by
  simp [knownOf, h]

/-- Members give alike what is known of them if the same names are known and what stands behind them
matches. -/
theorem alikeOrNone_object {members members' : List (Option String × Json)}
    (htext : (∀ member ∈ members, member.1.isSome = true) ↔
      ∀ member ∈ members', member.1.isSome = true)
    (hnames : ((knownOf (fields.map Prod.fst) members).map Prod.fst).Perm
      ((knownOf (fields.map Prod.fst) members').map Prod.fst))
    (hmatching : ((knownOf (fields.map Prod.fst) members).map Prod.fst).Nodup →
      ∀ {name shape}, (name, shape) ∈ fields →
        Matching shape ((knownOf (fields.map Prod.fst) members).lookup name)
          ((knownOf (fields.map Prod.fst) members').lookup name)) :
    AlikeOrNone fields (given? (fields.map Prod.fst) (.object members))
      (given? (fields.map Prod.fst) (.object members')) := by
  rw [given?, given?, known?_eq, known?_eq]
  have hsame := and_congr htext hnames.nodup_iff
  split
  · next h =>
      rw [if_pos (hsame.mp h)]
      exact ⟨rfl, hmatching h.2⟩
  · next h =>
      rw [if_neg (hsame.not.mp h)]
      exact trivial

/-- Akin values give the same fields to a record, up to what is rearranged inside them. -/
theorem Akin.alikeOrNone (hnodup : (fields.map Prod.fst).Nodup)
    (h : Akin (.record fields) value value') :
    AlikeOrNone fields (given? (fields.map Prod.fst) value)
      (given? (fields.map Prod.fst) value') := by
  generalize hshape : Shape.record fields = shape at h
  induction h with
  | refl => exact .refl _
  | symm same ih => exact (ih hshape).symm
  | trans same same' ih ih' => exact (ih hshape).trans (ih' hshape)
  | @order _ members members' perm =>
      cases hshape
      have hknown : (knownOf (fields.map Prod.fst) members).Perm
          (knownOf (fields.map Prod.fst) members') := perm.filterMap _
      refine alikeOrNone_object (by simp only [perm.mem_iff]) (hknown.map _) fun hunique _ _ _ => ?_
      rw [lookup_perm hknown hunique]
      exact Matching.refl _ _
  | unknown name value fresh =>
      cases hshape
      have hsame := knownOf_cons_of_not_mem fresh value
      refine alikeOrNone_object (by simp) (by rw [hsame]) fun _ _ _ _ => ?_
      rw [hsame]
      exact Matching.refl _ _
  | @member _ front back name shape value value' known same =>
      cases hshape
      have hname : name ∈ fields.map Prod.fst := List.mem_map.mpr ⟨_, known, rfl⟩
      have htext : (∀ member ∈ front ++ (some name, value) :: back, member.1.isSome = true) ↔
          ∀ member ∈ front ++ (some name, value') :: back, member.1.isSome = true := by
        simp only [List.forall_mem_append, List.forall_mem_cons]
      refine alikeOrNone_object htext ?_ fun _ _ _ hknown => ?_
      · simp only [knownOf_append, knownOf_cons_of_mem hname, List.map_append, List.map_cons]
        exact .refl _
      · simp only [knownOf_append, knownOf_cons_of_mem hname]
        exact matching_append hnodup known same hknown
  | @position front back items items' name shape value value' place same =>
      cases hshape
      have hzip : ∀ value : Json,
          ((front ++ (name, shape) :: back).map Prod.fst).zip (items ++ value :: items') =
            (front.map Prod.fst).zip items ++ (name, value) :: (back.map Prod.fst).zip items' := by
        intro value
        rw [List.map_append, List.map_cons, List.zip_append (by rw [List.length_map, place]),
          List.zip_cons_cons]
      have hlength : (items ++ value :: items').length = (items ++ value' :: items').length := by
        simp
      rw [given?, given?, hlength]
      split
      · refine ⟨rfl, fun hknown => ?_⟩
        rw [hzip, hzip]
        exact matching_append hnodup (by simp) same hknown
      · exact trivial
  | _ => cases hshape

/-! ### Readers of records -/

namespace Given

variable (given : Given) (name : String) (read : Json → Option β)

theorem required_eq :
    given.required name read = ((given.fields.lookup name).map read).join := by
  unfold required
  cases given.fields.lookup name <;> rfl

theorem defaulted_eq (default : β) :
    given.defaulted name read default =
      ((given.fields.lookup name).map read).getD (some default) := by
  unfold defaulted
  cases given.fields.lookup name <;> rfl

theorem optional_eq :
    given.optional name read = ((given.fields.lookup name).map (nullable? read)).getD
      (if given.positional then none else some none) := by
  unfold optional
  cases given.fields.lookup name <;> rfl

end Given

namespace Alike

variable {given given' : Given}

/-- What is read behind a known name is the same. -/
theorem map_lookup (h : Alike fields given given') (name : String) (hknown : (name, shape) ∈ fields)
    (hread : Respects shape read) :
    (given.fields.lookup name).map read = (given'.fields.lookup name).map read := by
  have hmatching := h.matching hknown
  match hvalue : given.fields.lookup name, hvalue' : given'.fields.lookup name with
  | none, none => rfl
  | some value, some value' =>
      rw [hvalue, hvalue'] at hmatching
      exact congrArg some (hread _ _ hmatching)
  | none, some value' => rw [hvalue, hvalue'] at hmatching; exact hmatching.elim
  | some value, none => rw [hvalue, hvalue'] at hmatching; exact hmatching.elim

theorem required (h : Alike fields given given') (name : String) (hknown : (name, shape) ∈ fields)
    (hread : Respects shape read) : given.required name read = given'.required name read := by
  rw [Given.required_eq, Given.required_eq, h.map_lookup name hknown hread]

theorem defaulted (h : Alike fields given given') (name : String) (hknown : (name, shape) ∈ fields)
    (hread : Respects shape read) (default : β) :
    given.defaulted name read default = given'.defaulted name read default := by
  rw [Given.defaulted_eq, Given.defaulted_eq, h.map_lookup name hknown hread]

theorem optional (h : Alike fields given given') (name : String) (hknown : (name, shape) ∈ fields)
    (hread : Respects shape read) : given.optional name read = given'.optional name read := by
  rw [Given.optional_eq, Given.optional_eq, h.map_lookup name hknown hread.nullable?, h.positional]

end Alike

/-- A reader that looks at nothing but the fields it knows. -/
theorem respects_record {names : List String} (hnames : fields.map Prod.fst = names)
    (hnodup : names.Nodup) {build : Given → Option β}
    (h : ∀ given given', Alike fields given given' → build given = build given') :
    Respects (.record fields) fun value => (given? names value).bind build := by
  intro value value' hsame
  subst hnames
  have halike := hsame.alikeOrNone hnodup
  beta_reduce
  revert halike
  cases given? (fields.map Prod.fst) value <;> cases given? (fields.map Prod.fst) value' <;>
    intro halike
  · rfl
  · exact halike.elim
  · exact halike.elim
  · exact h _ _ halike

/-! ### Tagged records -/

theorem membersAreSound_iff (members : List (Option String × Json)) :
    membersAreSound members = true ↔
      ∀ member ∈ members, member.1.isSome = true ∧ isSound member.2 = true := by
  induction members with
  | nil => simp [membersAreSound]
  | cons member rest ih =>
      rw [membersAreSound, Bool.and_eq_true, Bool.and_eq_true, ih, List.forall_mem_cons]

theorem membersDepth_le_iff (members : List (Option String × Json)) (n : Nat) :
    membersDepth members ≤ n ↔ ∀ member ∈ members, depth member.2 ≤ n := by
  induction members with
  | nil => simp [membersDepth]
  | cons member rest ih => rw [membersDepth, Nat.max_le, ih, List.forall_mem_cons]

/-- What is looked at before the tag is known. -/
def Readable (outerDepth : Nat) (value : Json) : Prop :=
  isSound value = true ∧ outerDepth + depth value ≤ maxDepth

instance (outerDepth : Nat) (value : Json) : Decidable (Readable outerDepth value) :=
  inferInstanceAs (Decidable (_ ∧ _))

theorem readable_object_iff (outerDepth : Nat) (members : List (Option String × Json)) :
    Readable outerDepth (.object members) ↔ outerDepth + 1 ≤ maxDepth ∧
      ∀ member ∈ members, member.1.isSome = true ∧ Readable (outerDepth + 1) member.2 := by
  have hdepth : outerDepth + depth (.object members) ≤ maxDepth ↔
      outerDepth + 1 ≤ maxDepth ∧
        ∀ member ∈ members, outerDepth + 1 + depth member.2 ≤ maxDepth := by
    have hle := membersDepth_le_iff members (maxDepth - (outerDepth + 1))
    rw [depth]
    constructor
    · intro h
      refine ⟨by omega, fun member hmember => ?_⟩
      have := hle.mp (by omega) member hmember
      omega
    · rintro ⟨houter, h⟩
      have := hle.mpr fun member hmember => by
        have := h member hmember
        omega
      omega
  have hsound : isSound (.object members) = true ↔
      ∀ member ∈ members, member.1.isSome = true ∧ isSound member.2 = true :=
    membersAreSound_iff members
  rw [Readable, hdepth, hsound]
  constructor
  · rintro ⟨hall, houter, hshallow⟩
    exact ⟨houter, fun member hmember =>
      ⟨(hall member hmember).1, (hall member hmember).2, hshallow member hmember⟩⟩
  · rintro ⟨houter, hall⟩
    exact ⟨fun member hmember => ⟨(hall member hmember).1, (hall member hmember).2.1⟩, houter,
      fun member hmember => (hall member hmember).2.2⟩

/-- The record that the members under the tag's name choose, if they are one member with text. -/
def chosen (marks : List (Option String × Json)) (others : List (Option String × Json)) :
    Option (String × Json) :=
  match marks with
  | [(_, .string (some tag))] => some (tag, .object others)
  | _ => none

theorem tagged?_object (tagName : String) (outerDepth : Nat)
    (members : List (Option String × Json)) :
    tagged? tagName outerDepth (.object members) =
      if Readable outerDepth (.object members) then
        chosen (members.filter (·.1 == some tagName)) (members.filter (·.1 != some tagName))
      else none := by
  unfold tagged?
  by_cases h : Readable outerDepth (.object members)
  · rw [if_pos h, if_neg]
    · rfl
    · rw [Bool.or_eq_true, Bool.not_eq_true', decide_eq_true_eq]
      rintro (hsound | hdeep)
      · rw [h.1] at hsound
        cases hsound
      · exact absurd h.2 (Nat.not_le.mpr hdeep)
  · rw [if_neg h, if_pos]
    rw [Bool.or_eq_true, Bool.not_eq_true', decide_eq_true_eq]
    by_contra hnot
    rw [not_or, Bool.not_eq_false, Nat.not_lt] at hnot
    exact h hnot

/-- Two records with the same tag, or none. -/
def AlikeTagged (variants : List (String × List String)) :
    Option (String × Json) → Option (String × Json) → Prop
  | some (tag, fields), some (tag', fields') =>
    tag = tag' ∧ ∀ names, (tag, names) ∈ variants → Akin (.flat names) fields fields'
  | none, none => True
  | _, _ => False

variable {variants : List (String × List String)}

theorem AlikeTagged.refl (given : Option (String × Json)) : AlikeTagged variants given given := by
  match given with
  | none => exact trivial
  | some (tag, fields) => exact ⟨rfl, fun _ _ => Akin.refl _ _⟩

theorem AlikeTagged.symm {given given' : Option (String × Json)}
    (h : AlikeTagged variants given given') : AlikeTagged variants given' given := by
  match given, given' with
  | none, none => exact trivial
  | some (tag, fields), some (tag', fields') =>
      obtain ⟨rfl, hfields⟩ := h
      exact ⟨rfl, fun names hnames => (hfields names hnames).symm⟩

theorem AlikeTagged.trans {given given' given'' : Option (String × Json)}
    (h : AlikeTagged variants given given') (h' : AlikeTagged variants given' given'') :
    AlikeTagged variants given given'' := by
  match given, given', given'' with
  | none, none, none => exact trivial
  | some (tag, fields), some (tag', fields'), some (tag'', fields'') =>
      obtain ⟨rfl, hfields⟩ := h
      obtain ⟨rfl, hfields'⟩ := h'
      exact ⟨rfl, fun names hnames => (hfields names hnames).trans (hfields' names hnames)⟩

theorem chosen_eq_some_iff {marks others : List (Option String × Json)} {tag : String}
    {fields : Json} : chosen marks others = some (tag, fields) ↔
      ∃ mark, marks = [(mark, .string (some tag))] ∧ fields = .object others := by
  constructor
  · intro h
    unfold chosen at h
    split at h
    · cases h
      exact ⟨_, rfl, rfl⟩
    · cases h
  · rintro ⟨mark, rfl, rfl⟩
    rfl

/-- The same choice is made among the same members, whatever their order. -/
theorem alikeTagged_chosen {marks marks' others others' : List (Option String × Json)}
    (hmarks : marks.Perm marks')
    (hothers : ∀ mark tag names, marks = [(mark, .string (some tag))] → (tag, names) ∈ variants →
      Akin (.flat names) (.object others) (.object others')) :
    AlikeTagged variants (chosen marks others) (chosen marks' others') := by
  cases hchosen : chosen marks others with
  | some choice =>
      obtain ⟨mark, hmark, hfields⟩ := chosen_eq_some_iff.mp hchosen
      -- A choice is made of one mark only, and one member has one order.
      have hmark' := List.singleton_perm.mp (hmark ▸ hmarks)
      rw [chosen_eq_some_iff.mpr ⟨mark, hmark'.symm, rfl⟩]
      exact ⟨rfl, fun names hnames => hfields ▸ hothers mark _ names hmark hnames⟩
  | none =>
      cases hchosen' : chosen marks' others' with
      | none => exact trivial
      | some choice =>
          obtain ⟨mark, hmark, -⟩ := chosen_eq_some_iff.mp hchosen'
          have hmark' := List.perm_singleton.mp (hmark ▸ hmarks)
          rw [chosen_eq_some_iff.mpr ⟨mark, hmark', rfl⟩] at hchosen
          cases hchosen

/-- The tag may be anywhere, and what is known of the others does not change. -/
theorem Akin.alikeTagged {tagName : String} {outerDepth : Nat}
    (h : Akin (.tagged tagName outerDepth variants) value value') :
    AlikeTagged variants (tagged? tagName outerDepth value)
      (tagged? tagName outerDepth value') := by
  generalize hshape : Shape.tagged tagName outerDepth variants = shape at h
  induction h with
  | refl => exact .refl _
  | symm same ih => exact (ih hshape).symm
  | trans same same' ih ih' => exact (ih hshape).trans (ih' hshape)
  | @taggedOrder _ _ _ members members' perm =>
      cases hshape
      have hreadable : Readable outerDepth (.object members) ↔
          Readable outerDepth (.object members') := by
        simp only [readable_object_iff, perm.mem_iff]
      rw [tagged?_object, tagged?_object]
      split
      · next h =>
          rw [if_pos (hreadable.mp h)]
          exact alikeTagged_chosen (perm.filter _) fun _ _ _ _ _ => .order (perm.filter _)
      · next h =>
          rw [if_neg (hreadable.not.mp h)]
          exact trivial
  | @taggedUnknown _ _ _ members name value fresh unknown sound shallow =>
      cases hshape
      have hreadable : Readable outerDepth (.object members) ↔
          Readable outerDepth (.object ((some name, value) :: members)) := by
        rw [readable_object_iff, readable_object_iff, List.forall_mem_cons]
        exact and_congr_right fun _ => (and_iff_right ⟨rfl, sound, shallow⟩).symm
      have hmarks : ((some name, value) :: members).filter (·.1 == some tagName) =
          members.filter (·.1 == some tagName) := List.filter_cons_of_neg (by simpa using fresh)
      have hothers : ((some name, value) :: members).filter (·.1 != some tagName) =
          (some name, value) :: members.filter (·.1 != some tagName) :=
        List.filter_cons_of_pos (by simpa using fresh)
      rw [tagged?_object, tagged?_object, hmarks, hothers]
      split
      · next h =>
          rw [if_pos (hreadable.mp h)]
          refine alikeTagged_chosen (.refl _) fun mark tag names hmark hnames => ?_
          have hmember : (mark, .string (some tag)) ∈ members.filter (·.1 == some tagName) :=
            hmark ▸ List.mem_cons_self
          obtain ⟨hmem, hname⟩ := List.mem_filter.mp hmember
          obtain rfl : mark = some tagName := beq_iff_eq.mp hname
          refine .unknown name value ?_
          rw [List.map_map]
          exact fun hfield => unknown _ hnames hmem (by simpa using hfield)
      · next h =>
          rw [if_neg (hreadable.not.mp h)]
          exact trivial
  | _ => cases hshape

end StreamPlacement.Json
