/-!
Dense numbers that name the things of the system. A number is tagged with what it names, so that a
viewer is never taken for a node.
-/

namespace StreamPlacement

/-- What a number may name. -/
inductive Entity
  | node
  | user
  | group
  | content
  deriving DecidableEq, Repr, Inhabited

/-- The word that stands before a number in labelled form. -/
def Entity.label : Entity → String
  | .node => "NodeId"
  | .user => "UserId"
  | .group => "GroupId"
  | .content => "ContentId"

/-- The number of one thing of a kind, counted from zero. -/
structure Id (entity : Entity) where
  index : Nat
  deriving DecidableEq, Inhabited

abbrev NodeId := Id .node
abbrev UserId := Id .user
abbrev GroupId := Id .group
abbrev ContentId := Id .content

/-- A directed pair of nodes: one hop of a route, or a link in its declared orientation. -/
abbrev Edge := NodeId × NodeId

namespace Id

variable {entity : Entity}

/-- The bare number. -/
def text (id : Id entity) : String := Nat.repr id.index

/-- The number behind the word for what it names, as in a report of one value. -/
def labelled (id : Id entity) : String := entity.label ++ ": " ++ id.text

instance : ToString (Id entity) := ⟨text⟩

instance : Repr (Id entity) := ⟨fun id _ => id.labelled⟩

/-- Numbers of one kind are ordered by size. -/
instance : Ord (Id entity) := ⟨fun a b => compare a.index b.index⟩

theorem compare_def (a b : Id entity) : compare a b = compare a.index b.index := rfl

instance : Std.TransOrd (Id entity) where
  eq_swap := by
    intro a b
    simp only [compare_def]
    exact Std.OrientedCmp.eq_swap
  isLE_trans := by
    intro a b c hab hbc
    simp only [compare_def] at *
    exact Std.TransCmp.isLE_trans hab hbc

instance : Std.LawfulEqOrd (Id entity) where
  compare_self := by
    intro a
    simp only [compare_def]
    exact Std.ReflCmp.compare_self
  eq_of_compare := by
    intro a b h
    simp only [compare_def] at h
    cases a
    cases b
    simpa using h

end Id

end StreamPlacement
