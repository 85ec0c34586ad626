/-!
Finite maps kept as a list in strictly ascending order of the keys. Two maps with the same entries
are the same value, and a traversal visits the keys in order, which is what reports show.
-/

namespace StreamPlacement

/-- Keys with values, in strictly ascending order of the keys. -/
structure OrderedMap (κ ν : Type) [Ord κ] where
  entries : List (κ × ν)
  ascending : entries.Pairwise fun a b => compare a.1 b.1 = .lt

namespace OrderedMap

variable {κ ν : Type} [Ord κ]

/-- Puts a value under its key: in front of the first larger key, or in place of an equal one. -/
def insertEntry (key : κ) (value : ν) : List (κ × ν) → List (κ × ν)
  | [] => [(key, value)]
  | entry :: rest =>
    match compare key entry.1 with
    | .lt => (key, value) :: entry :: rest
    | .eq => (key, value) :: rest
    | .gt => entry :: insertEntry key value rest

theorem mem_insertEntry {key : κ} {value : ν} {entries : List (κ × ν)} {e : κ × ν}
    (h : e ∈ insertEntry key value entries) : e = (key, value) ∨ e ∈ entries := by
  induction entries with
  | nil => simpa [insertEntry] using h
  | cons entry rest ih =>
    unfold insertEntry at h
    split at h
    · simpa using h
    · rcases List.mem_cons.1 h with h | h
      · exact .inl h
      · exact .inr (List.mem_cons_of_mem _ h)
    · rcases List.mem_cons.1 h with h | h
      · exact .inr (h ▸ List.mem_cons_self)
      · exact (ih h).imp_right (List.mem_cons_of_mem _)

theorem insertEntry_ascending [Std.TransOrd κ] [Std.LawfulEqOrd κ] {entries : List (κ × ν)}
    (key : κ) (value : ν) (h : entries.Pairwise fun a b => compare a.1 b.1 = .lt) :
    (insertEntry key value entries).Pairwise fun a b => compare a.1 b.1 = .lt := by
  induction entries with
  | nil => simp [insertEntry]
  | cons entry rest ih =>
    have hrest := (List.pairwise_cons.1 h).2
    have hentry := (List.pairwise_cons.1 h).1
    unfold insertEntry
    split
    · next hlt =>
      refine List.pairwise_cons.2 ⟨fun e he => ?_, h⟩
      rcases List.mem_cons.1 he with rfl | he
      · exact hlt
      · exact Std.TransCmp.lt_trans hlt (hentry e he)
    · next heq =>
      have hkey : key = entry.1 := Std.LawfulEqCmp.eq_of_compare heq
      exact List.pairwise_cons.2 ⟨fun e he => hkey ▸ hentry e he, hrest⟩
    · next hgt =>
      refine List.pairwise_cons.2 ⟨fun e he => ?_, ih hrest⟩
      rcases mem_insertEntry he with rfl | he
      · exact Std.OrientedCmp.lt_of_gt hgt
      · exact hentry e he

instance : EmptyCollection (OrderedMap κ ν) := ⟨⟨[], .nil⟩⟩
instance : Inhabited (OrderedMap κ ν) := ⟨∅⟩

/-- The map with `value` under `key`; what was there before is replaced. -/
def insert [Std.TransOrd κ] [Std.LawfulEqOrd κ] (map : OrderedMap κ ν) (key : κ) (value : ν) :
    OrderedMap κ ν :=
  ⟨insertEntry key value map.entries, insertEntry_ascending key value map.ascending⟩

/-- Puts every pair in turn, so that the last value given for a key stays. -/
def ofList [Std.TransOrd κ] [Std.LawfulEqOrd κ] (pairs : List (κ × ν)) : OrderedMap κ ν :=
  pairs.foldl (fun map pair => map.insert pair.1 pair.2) ∅

/-- The value under `key`. -/
def get? [DecidableEq κ] (map : OrderedMap κ ν) (key : κ) : Option ν := map.entries.lookup key

def contains [DecidableEq κ] (map : OrderedMap κ ν) (key : κ) : Bool := (map.get? key).isSome

def keys (map : OrderedMap κ ν) : List κ := map.entries.map Prod.fst
def values (map : OrderedMap κ ν) : List ν := map.entries.map Prod.snd
def size (map : OrderedMap κ ν) : Nat := map.entries.length

/-- Changes every value in place; the keys stay. -/
def map {ν' : Type} (map : OrderedMap κ ν) (change : κ → ν → ν') : OrderedMap κ ν' where
  entries := map.entries.map fun e => (e.1, change e.1 e.2)
  ascending := List.pairwise_map.2 map.ascending

/-- Changes the value under `key`, if there is one. -/
def modify [DecidableEq κ] (map : OrderedMap κ ν) (key : κ) (change : ν → ν) : OrderedMap κ ν :=
  map.map fun k v => if k = key then change v else v

@[simp] theorem entries_empty : (∅ : OrderedMap κ ν).entries = [] := rfl

@[simp] theorem keys_map {ν' : Type} (map : OrderedMap κ ν) (change : κ → ν → ν') :
    (map.map change).keys = map.keys := by
  simp [OrderedMap.map, keys]

@[simp] theorem keys_modify [DecidableEq κ] (map : OrderedMap κ ν) (key : κ) (change : ν → ν) :
    (map.modify key change).keys = map.keys := keys_map ..

/-- Two maps with the same entries are equal. -/
@[ext] theorem ext {a b : OrderedMap κ ν} (h : a.entries = b.entries) : a = b := by
  cases a
  cases b
  simpa using h

end OrderedMap

/-- Finite sets in ascending order. -/
abbrev OrderedSet (κ : Type) [Ord κ] := OrderedMap κ Unit

end StreamPlacement
