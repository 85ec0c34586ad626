import StreamPlacement.Proofs.Decimal.Numeral
import StreamPlacement.Proofs.Placement.Commands

/-!
What the solver's command line says.

The arguments have no marks between them: what a number means is decided by its position alone. The
first says how many groups there are, so that a reader knows where the blocks end, and every number
is written in the one way that it has in decimal. So the arguments can be read back, and no two
requests have the same.

What is handed over at any moment tells of every group under its own number. The numbers of the
groups as virtual nodes begin where those of the nodes end.
-/

namespace StreamPlacement

/-- The number that a text of digits spells, however large. -/
def Decimal.natural? (text : List Char) : Option Nat :=
  if text ≠ [] ∧ text.all Char.isDigit = true then some (ofDigits text) else none

theorem Decimal.natural?_repr (n : Nat) : natural? (Nat.repr n).toList = some n := by
  have hdigits : (Nat.repr n).toList = Nat.toDigits 10 n := by simp [Nat.repr]
  have hall : (Nat.toDigits 10 n).all Char.isDigit = true :=
    List.all_eq_true.mpr fun _ hc => isDigit_of_mem_toDigits hc
  rw [hdigits, natural?, if_pos ⟨Nat.toDigits_ne_nil, hall⟩, ofDigits_toDigits]

namespace Solver

/-! ### Reading by position -/

/-- The groups that some numbers tell of, four numbers for each. -/
def RosterEntry.ofNumbers? : List Nat → Option (List RosterEntry)
  | [] => some []
  | accessPoint :: syntheticId :: index :: viewers :: rest =>
    (ofNumbers? rest).map (⟨accessPoint, syntheticId, index, viewers⟩ :: ·)
  | _ => none

/-- The request that some numbers tell of: as many groups as the first of them says. -/
def Request.ofNumbers? : List Nat → Option Request
  | count :: a :: b :: blocks =>
    (RosterEntry.ofNumbers? blocks).bind fun roster =>
      if roster.length = count then some ⟨(a, b), roster⟩ else none
  | _ => none

/-- The request that a command line tells of. -/
def Request.ofArguments? (arguments : List String) : Option Request :=
  (arguments.mapM fun argument => Decimal.natural? argument.toList).bind ofNumbers?

@[simp] theorem RosterEntry.length_numbers (entry : RosterEntry) : entry.numbers.length = 4 := rfl

theorem RosterEntry.ofNumbers?_flatMap (roster : List RosterEntry) :
    ofNumbers? (roster.flatMap numbers) = some roster := by
  induction roster with
  | nil => rfl
  | cons entry rest ih =>
      show (ofNumbers? (rest.flatMap numbers)).map (entry :: ·) = _
      rw [ih]
      rfl

theorem Request.length_arguments (request : Request) :
    request.arguments.length = 3 + 4 * request.roster.length := by
  have hblocks : (request.roster.flatMap RosterEntry.numbers).length =
      4 * request.roster.length := by
    induction request.roster with
    | nil => rfl
    | cons entry rest ih =>
        rw [List.flatMap_cons, List.length_append, ih, entry.length_numbers, List.length_cons]
        omega
  rw [arguments, List.length_map, numbers, List.length_append, hblocks]
  rfl

/-- The arguments are read back. -/
theorem Request.ofArguments?_arguments (request : Request) :
    ofArguments? request.arguments = some request := by
  have hread : ∀ numbers : List Nat,
      (numbers.map Nat.repr).mapM (fun argument => Decimal.natural? argument.toList) =
        some numbers := by
    intro numbers
    induction numbers with
    | nil => rfl
    | cons n rest ih =>
        rw [List.map_cons, List.mapM_cons, Decimal.natural?_repr, ih]
        rfl
  rw [ofArguments?, arguments, hread]
  show (RosterEntry.ofNumbers? (request.roster.flatMap RosterEntry.numbers)).bind _ = _
  rw [RosterEntry.ofNumbers?_flatMap]
  exact if_pos rfl

theorem Request.arguments_injective : Function.Injective arguments := fun r r' h =>
  Option.some.inj (by rw [← r.ofArguments?_arguments, h, r'.ofArguments?_arguments])

end Solver

/-! ### What is handed over -/

namespace Placement

variable {α : Type} {p : Placement α}

/-- Some numbers tell of every group under its own number, with where it is, how many viewers it has
and what it is called as a virtual node, which is different for all groups and from all nodes. -/
structure Lists (p : Placement α) (roster : List Solver.RosterEntry) : Prop where
  length_eq : roster.length = p.registry.size
  entry : ∀ {i group}, p.registry.group? ⟨i⟩ = some group → group.id = ⟨i⟩ ∧
    roster[i]? = some ⟨group.accessPoint.index, i + p.topology.size, i, group.size⟩
  distinct : (roster.map Solver.RosterEntry.syntheticId).Nodup
  apart : ∀ entry ∈ roster, ∀ v, p.topology.contains v = true → entry.syntheticId ≠ v.index

/-- The roster tells of the group in every position. -/
theorem getElem?_roster (p : Placement α) (i : Nat) :
    p.roster[i]? = (p.registry.group? ⟨i⟩).map fun group =>
      { accessPoint := group.accessPoint.index
        syntheticId := i + p.topology.size
        index := i
        viewers := group.size } := by
  rw [roster, List.getElem?_map, List.getElem?_zipIdx, Registry.group?, Option.map_map, Nat.zero_add]
  rfl

theorem length_roster (p : Placement α) : p.roster.length = p.registry.size := by
  rw [roster, List.length_map, List.length_zipIdx, Registry.size]

theorem syntheticIds_roster (p : Placement α) :
    p.roster.map Solver.RosterEntry.syntheticId = List.range' p.topology.size p.registry.size := by
  refine List.ext_getElem? fun i => ?_
  rw [List.getElem?_map, getElem?_roster, Option.map_map, Registry.group?]
  by_cases hlt : i < p.registry.groups.length
  · have hinside : (List.range' p.topology.size p.registry.size)[i]? =
        some (p.topology.size + 1 * i) := List.getElem?_range' hlt
    rw [List.getElem?_eq_getElem hlt, hinside, Option.map_some, Nat.one_mul, Nat.add_comm]
    rfl
  · have hbeyond : (List.range' p.topology.size p.registry.size).length ≤ i := by
      rw [List.length_range']
      exact Nat.le_of_not_lt hlt
    rw [List.getElem?_eq_none (Nat.le_of_not_lt hlt), List.getElem?_eq_none hbeyond]
    rfl

/-- Where every group has its position for a number, the roster lists the groups. -/
theorem lists_roster (hnumbered : ∀ {id group}, p.registry.group? id = some group → group.id = id) :
    p.Lists p.roster where
  length_eq := p.length_roster
  entry hgroup := by
    refine ⟨hnumbered hgroup, ?_⟩
    rw [getElem?_roster, hgroup]
    rfl
  distinct := by
    rw [syntheticIds_roster]
    exact List.nodup_range'
  apart entry hentry v hv := by
    have hbeyond : entry.syntheticId ∈ p.roster.map Solver.RosterEntry.syntheticId :=
      List.mem_map_of_mem hentry
    rw [syntheticIds_roster, List.mem_range'_1] at hbeyond
    have hinside := Topology.contains_iff.mp hv
    omega

/-- Where there is a solver that takes requests, it gets both ends of the link and all groups. -/
theorem escalate_of_optimizer (h : p.strategy = .optimizer true) (e : Edge) :
    ∃ q, p.escalate e = .ok (p.requests.size, q) ∧
      q.requests = p.requests.push ⟨(e.1.index, e.2.index), p.roster⟩ := by
  unfold escalate
  rw [h]
  exact ⟨_, rfl, rfl⟩

theorem escalate_of_ne_optimizer (h : p.strategy ≠ .optimizer true) (e : Edge) :
    ∃ fault, p.escalate e = .error fault := by
  unfold escalate
  split
  · exact ⟨_, rfl⟩
  · exact ⟨_, rfl⟩
  · next hstrategy => exact absurd hstrategy h

end Placement

namespace Deployment

variable {α : Type} [Quantity α]

/-- No two requests have the same command line. Whatever was done before, also where groups were
redirected by hand, a congested link is handed over exactly if there is a solver that takes requests.
Then the command line has three arguments and four for each group, and what is read of it by position
is the two ends of the link and the list of all groups. -/
theorem arguments_afterAll (d : Deployment α) (commands : List Command) (e : Edge) :
    let p := d.afterAll commands
    (∀ r r' : Solver.Request, r.arguments = r'.arguments →
      r.congested = r'.congested ∧ r.roster = r'.roster) ∧
    (p.strategy ≠ .optimizer true → ∃ fault, p.escalate e = .error fault) ∧
    (p.strategy = .optimizer true → ∃ q request roster,
      p.escalate e = .ok (p.requests.size, q) ∧ q.requests = p.requests.push request ∧
      request.arguments.length = 3 + 4 * p.registry.size ∧
      Solver.Request.ofArguments? request.arguments = some ⟨(e.1.index, e.2.index), roster⟩ ∧
      p.Lists roster) := by
  intro p
  refine ⟨fun r r' h => ?_, fun h => Placement.escalate_of_ne_optimizer h e, fun h => ?_⟩
  · obtain rfl := Solver.Request.arguments_injective h
    exact ⟨rfl, rfl⟩
  · obtain ⟨q, hescalate, hrequests⟩ := Placement.escalate_of_optimizer h e
    refine ⟨q, _, p.roster, hescalate, hrequests, ?_, Solver.Request.ofArguments?_arguments _,
      Placement.lists_roster (d.filed_afterAll commands).numbered⟩
    rw [Solver.Request.length_arguments, p.length_roster]

/-- After the rush both viewers are in one group behind node 2 of four nodes, and the first link is
handed over. -/
theorem arguments_on_line :
    let p := line.afterAll (line.rush.map .operate)
    p.strategy = .optimizer true ∧ ∃ q request roster, p.escalate (⟨0⟩, ⟨1⟩) = .ok (0, q) ∧
      q.requests.toList = [request] ∧ request.arguments.length = 7 ∧
      Solver.Request.ofArguments? request.arguments = some ⟨(0, 1), roster⟩ ∧
      roster[0]? = some ⟨2, 4, 0, 2⟩ := by
  intro p
  obtain ⟨-, -, hasks⟩ := arguments_afterAll line (line.rush.map .operate) (⟨0⟩, ⟨1⟩)
  have hstrategy : p.strategy = .optimizer true := by decide +kernel
  have hfirst : p.requests = #[] := by decide +kernel
  have hgroups : p.registry.size = 1 := by decide +kernel
  have hnodes : p.topology.size = 4 := by decide +kernel
  obtain ⟨group, hgroup, haccessPoint, hviewers⟩ : ∃ group, p.registry.group? ⟨0⟩ = some group ∧
      group.accessPoint = ⟨2⟩ ∧ group.size = 2 := by decide +kernel
  obtain ⟨q, request, roster, hescalate, hrequests, hlength, hread, hlists⟩ := hasks hstrategy
  change p.escalate _ = .ok (p.requests.size, q) at hescalate
  change q.requests = p.requests.push request at hrequests
  change _ = 3 + 4 * p.registry.size at hlength
  have hentry : roster[0]? = some ⟨group.accessPoint.index, 0 + p.topology.size, 0, group.size⟩ :=
    (hlists.entry hgroup).2
  rw [hfirst] at hescalate hrequests
  rw [hgroups] at hlength
  rw [haccessPoint, hnodes, hviewers] at hentry
  exact ⟨hstrategy, q, request, roster, hescalate, by rw [hrequests]; rfl, hlength, hread, hentry⟩

end Deployment

end StreamPlacement
