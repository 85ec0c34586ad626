import Mathlib.Data.List.Basic
import StreamPlacement.Proofs.Arithmetic.Bits
import StreamPlacement.Proofs.Container.Sorting
import StreamPlacement.Workload.Scenario

/-!
What a generated workload depends on.

Every viewer starts one session. The viewers draw from one generator, one after the other, and each
of them takes the same number of words: two, or one if there is no window. So the words for a viewer
are those in positions given by its own place in the list. When a session starts depends on them and
on the window; what is watched depends on the contents as well, and neither depends on the other
viewers. Sorting by the bits of the times is sorting by the times, since no time has a sign, and it
keeps the order of viewers who start at the same time. So fewer viewers start the same sessions, and
other contents are watched at the same times.
-/

namespace StreamPlacement

/-! ### Words -/

namespace Generator

/-- The state of a generator once `n` words were taken. -/
def after (g : Generator) (seed : Nat) : Nat → g.State
  | 0 => g.start seed
  | n + 1 => (g.next.run (g.after seed n)).2

/-- The word in position `n`. -/
def word (g : Generator) (seed n : Nat) : UInt64 := (g.next.run (g.after seed n)).1

end Generator

theorem KeyStream.after_generator (seed n : Nat) :
    generator.after seed n = { key := key seed, drawn := n } := by
  induction n with
  | zero => rfl
  | succ n ih =>
      rw [Generator.after, ih]
      rfl

/-- The words that come from the key stream are its draws in order. -/
theorem KeyStream.word_generator (seed n : Nat) : generator.word seed n = draw (key seed) n := by
  rw [Generator.word, after_generator]
  rfl

namespace Scenario

variable {scenario : Scenario} {g : Generator} {users : List UserId}

/-! ### Sessions -/

/-- The start of a session. -/
structure Start where
  time : Float
  user : UserId
  content : ContentId

/-- A session that starts is an arrival without a server of its own. -/
def Start.timed (start : Start) : TimedEvent Float :=
  ⟨start.time, .arrival start.user start.content none⟩

/-- When the session of the viewer in position `i` starts. -/
def timeAt (scenario : Scenario) (g : Generator) (i : Nat) : Float :=
  if 0 < scenario.startWindow then
    timeShare (g.word scenario.seed (2 * i)) * scenario.startWindow
  else 0

/-- What the viewer in position `i` watches. -/
def contentAt (scenario : Scenario) (g : Generator) (i : Nat) : ContentId :=
  ⟨rank scenario.bounds (rankShare (g.word scenario.seed
    (if 0 < scenario.startWindow then 2 * i + 1 else i)))⟩

/-- The session of a viewer and its position. -/
def startAt (scenario : Scenario) (g : Generator) (place : UserId × Nat) : Start :=
  ⟨scenario.timeAt g place.2, place.1, scenario.contentAt g place.2⟩

/-- The sessions in order of time. -/
def starts (scenario : Scenario) (g : Generator) (users : List UserId) : List Start :=
  sortByKey (·.time.toBits.toNat) (users.zipIdx.map (scenario.startAt g))

/-- The number of words that `i` viewers take. -/
def drawsOf (scenario : Scenario) (i : Nat) : Nat :=
  if 0 < scenario.startWindow then 2 * i else i

theorem drawsOf_zero (scenario : Scenario) : scenario.drawsOf 0 = 0 := by
  unfold drawsOf
  split <;> rfl

/-- The viewer in position `i` draws from where those in front of it left the generator. -/
theorem run_arrival (scenario : Scenario) (g : Generator) (user : UserId) (i : Nat) :
    (scenario.arrival g scenario.bounds user).run (g.after scenario.seed (scenario.drawsOf i)) =
      ((scenario.startAt g (user, i)).timed,
        g.after scenario.seed (scenario.drawsOf (i + 1))) := by
  unfold arrival drawTime startAt timeAt contentAt drawsOf
  by_cases hspread : 0 < scenario.startWindow
  · simp only [if_pos hspread]
    rfl
  · simp only [if_neg hspread]
    rfl

theorem run_arrivals (scenario : Scenario) (g : Generator) (users : List UserId) (i : Nat) :
    (users.mapM (scenario.arrival g scenario.bounds)).run
        (g.after scenario.seed (scenario.drawsOf i)) =
      ((users.zipIdx i).map fun place => (scenario.startAt g place).timed,
        g.after scenario.seed (scenario.drawsOf (i + users.length))) := by
  induction users generalizing i with
  | nil => rfl
  | cons user rest ih =>
      have hlength : i + (user :: rest).length = i + 1 + rest.length := by
        rw [List.length_cons, Nat.add_right_comm, Nat.add_assoc]
      rw [List.mapM_cons, StateT.run_bind, run_arrival, hlength]
      -- The rest draw from where this viewer left the generator.
      exact congrArg (fun drawn : List (TimedEvent Float) × g.State =>
        ((scenario.startAt g (user, i)).timed :: drawn.1, drawn.2)) (ih (i + 1))

theorem generate_eq (scenario : Scenario) (g : Generator) (users : List UserId) :
    scenario.generate g users = (scenario.starts g users).map Start.timed := by
  have hsort := map_sortByKey (·.time.toBits.toNat) (·.time.toBits.toNat) Start.timed
    (fun _ => rfl) (users.zipIdx.map (scenario.startAt g))
  have hdrawn := run_arrivals scenario g users 0
  rw [drawsOf_zero, Generator.after] at hdrawn
  rw [starts, hsort, List.map_map, generate, hdrawn]
  rfl

/-! ### Ranks -/

theorem length_accumulate (total : Float) (weights : List Float) (sum : Float) :
    (accumulate total weights sum).length = weights.length := by
  induction weights generalizing sum with
  | nil => rfl
  | cons weight rest ih => exact congrArg (· + 1) (ih _)

theorem length_bounds (scenario : Scenario) :
    scenario.bounds.length = max scenario.contents 1 := by
  rw [bounds, length_accumulate, weights, List.length_map, List.length_range]

/-- Whatever the bounds are, a draw has the rank of one of them, or the last. -/
theorem rank_le {bounds : List Float} (hpos : 0 < bounds.length) (draw : Float) :
    1 ≤ rank bounds draw ∧ rank bounds draw ≤ bounds.length := by
  unfold rank
  split
  · next position hposition =>
      obtain ⟨hlt, -⟩ := List.findIdx?_eq_some_iff_getElem.mp hposition
      omega
  · omega

theorem contentAt_le (scenario : Scenario) (g : Generator) (i : Nat) :
    1 ≤ (scenario.contentAt g i).index ∧ (scenario.contentAt g i).index ≤ max scenario.contents 1 := by
  rw [← length_bounds]
  exact rank_le (by rw [length_bounds]; omega) _

/-! ### Times -/

theorem unsigned_timeShare (draw : UInt64) : Double.Unsigned (timeShare draw) := by
  obtain ⟨⟨_, hunpack⟩, -, -⟩ :=
    Double.stands_ofNat (n := Nat.pow 2 52) (by decide) (by decide)
  exact (Double.unsigned_toFloat _).div hunpack

/-- No time has a sign. -/
theorem unsigned_timeAt (g : Generator)
    (hfinite : Binary64.ofFloat scenario.startWindow ≠ .infinite false) (i : Nat) :
    Double.Unsigned (scenario.timeAt g i) := by
  unfold timeAt
  split
  · next hpos =>
      obtain ⟨_, _, _, hunpack⟩ := Double.finite_of_pos hpos hfinite
      exact (unsigned_timeShare _).mul hunpack
  · exact ⟨by decide, by decide⟩

/-! ### All sessions -/

theorem mem_starts {start : Start} (h : start ∈ scenario.starts g users) :
    ∃ place, start = scenario.startAt g place := by
  obtain ⟨place, -, hstart⟩ := List.mem_map.mp ((sortByKey_perm _ _).mem_iff.mp h)
  exact ⟨place, hstart.symm⟩

theorem map_user_zipIdx (scenario : Scenario) (g : Generator) (users : List UserId) :
    (users.zipIdx.map (scenario.startAt g)).map (·.user) = users := by
  rw [List.map_map]
  exact List.zipIdx_map_fst ..

/-- Every viewer starts one session. -/
theorem map_user_starts_perm (scenario : Scenario) (g : Generator) (users : List UserId) :
    ((scenario.starts g users).map (·.user)).Perm users := by
  have hperm := (sortByKey_perm (·.time.toBits.toNat)
    (users.zipIdx.map (scenario.startAt g))).map (·.user)
  rwa [map_user_zipIdx] at hperm

/-- Sessions are in order of time, and those of the same time in the order of their viewers. -/
theorem pairwise_starts (hfinite : Binary64.ofFloat scenario.startWindow ≠ .infinite false) :
    (scenario.starts g users).Pairwise fun a b =>
      a.time < b.time ∨ a.time = b.time ∧ [a.user, b.user].Sublist users := by
  have hplaces : (users.zipIdx.map (scenario.startAt g)).Pairwise fun a b =>
      [a.user, b.user].Sublist users := by
    have husers : users.Pairwise fun a b => [a, b].Sublist users :=
      List.pairwise_iff_forall_sublist.mpr id
    exact List.pairwise_map.mp (by rw [map_user_zipIdx scenario g users]; exact husers)
  refine (pairwise_sortByKey (·.time.toBits.toNat) hplaces).imp_of_mem
    fun {a b} ha hb hab => ?_
  obtain ⟨place, rfl⟩ := mem_starts ha
  obtain ⟨place', rfl⟩ := mem_starts hb
  have htime := unsigned_timeAt g hfinite place.2
  have htime' := unsigned_timeAt g hfinite place'.2
  rcases hab with hlt | ⟨heq, horder⟩
  · exact .inl ((htime.lt_iff htime').mpr hlt)
  · exact .inr ⟨Double.eq_of_toBits_eq heq, horder⟩

/-- Times do not depend on the contents. -/
theorem times_starts {other : Scenario} (g : Generator) (hseed : other.seed = scenario.seed)
    (hwindow : other.startWindow = scenario.startWindow) (users : List UserId) :
    (other.starts g users).map (fun start => (start.user, start.time)) =
      (scenario.starts g users).map (fun start => (start.user, start.time)) := by
  have htime : other.timeAt g = scenario.timeAt g := by
    funext i
    rw [timeAt, timeAt, hseed, hwindow]
  have hsort : ∀ scenario : Scenario,
      (scenario.starts g users).map (fun start => (start.user, start.time)) =
        sortByKey (·.2.toBits.toNat)
          (users.zipIdx.map fun place => (place.1, scenario.timeAt g place.2)) := by
    intro scenario
    have hpairs := map_sortByKey (·.time.toBits.toNat) (·.2.toBits.toNat)
      (fun start : Start => (start.user, start.time)) (fun _ => rfl)
      (users.zipIdx.map (scenario.startAt g))
    rw [starts, hpairs, List.map_map]
    rfl
  rw [hsort, hsort, htime]

/-- More viewers do not change the sessions of those in front of them. -/
theorem filter_starts {more : List UserId} (hnodup : (users ++ more).Nodup) :
    (scenario.starts g (users ++ more)).filter (fun start => users.contains start.user) =
      scenario.starts g users := by
  have hkept : ((users.zipIdx.map (scenario.startAt g)).filter fun start =>
      users.contains start.user) = users.zipIdx.map (scenario.startAt g) := by
    refine List.filter_eq_self.mpr fun start hstart => ?_
    obtain ⟨place, hplace, rfl⟩ := List.mem_map.mp hstart
    exact List.contains_iff_mem.mpr (List.fst_mem_of_mem_zipIdx hplace)
  -- Those behind keep their places, so what is drawn for those in front does not move.
  have hdropped : (((more.zipIdx (0 + users.length)).map (scenario.startAt g)).filter fun start =>
      users.contains start.user) = [] := by
    refine List.filter_eq_nil_iff.mpr fun start hstart hcontains => ?_
    obtain ⟨place, hplace, rfl⟩ := List.mem_map.mp hstart
    exact (List.nodup_append.mp hnodup).2.2 _ (List.contains_iff_mem.mp hcontains) _
      (List.fst_mem_of_mem_zipIdx hplace) rfl
  rw [starts, sortByKey_filter, starts, List.zipIdx_append, List.map_append, List.filter_append,
    hkept, hdropped, List.append_nil]

/-! ### Workloads -/

/-- Weights of eight bytes are asked for before anything is drawn. -/
theorem workloadFrom_eq (hfinite : Binary64.ofFloat scenario.startWindow ≠ .infinite false)
    (users : List UserId) :
    scenario.workloadFrom g users =
      if scenario.contents < 2 ^ 60 then .ok ((scenario.starts g users).map Start.timed)
      else .error (.breakdown .beyondMemory) := by
  have hroom : memoryEnd ≤ max scenario.contents 1 * 8 ↔ ¬ scenario.contents < 2 ^ 60 := by
    rw [memoryEnd, Nat.pow_eq]
    omega
  have hwindow : (decide (Binary64.ofFloat scenario.startWindow = .infinite false) &&
      !users.isEmpty) = false := by
    rw [decide_eq_false hfinite, Bool.false_and]
  unfold workloadFrom reserve
  rw [← generate_eq]
  by_cases hcontents : scenario.contents < 2 ^ 60
  · rw [if_neg (hroom.not.mpr (not_not.mpr hcontents)), if_pos hcontents]
    show (if (decide (Binary64.ofFloat scenario.startWindow = .infinite false) &&
      !users.isEmpty) = true then _ else _ : Except Fault (List (TimedEvent Float))) = _
    rw [hwindow]
    rfl
  · rw [if_pos (hroom.mpr hcontents), if_neg hcontents]
    rfl

/-- Whatever generator it is drawn from, a workload has one arrival for every viewer, in order of time
and for the same time in the given order, with a content that exists and without a server. Other
contents or another exponent leave the viewers and their times as they are, and more viewers behind
leave the arrivals of those in front as they are. With `2 ^ 60` contents and more there is no room
for their weights. -/
theorem workload_of_scenario (g : Generator)
    (hfinite : Binary64.ofFloat scenario.startWindow ≠ .infinite false) (users : List UserId) :
    (2 ^ 60 ≤ scenario.contents →
      scenario.workloadFrom g users = .error (.breakdown .beyondMemory)) ∧
    (scenario.contents < 2 ^ 60 → ∃ starts : List Start,
      scenario.workloadFrom g users = .ok (starts.map Start.timed) ∧
      (starts.map (·.user)).Perm users ∧
      (starts.Pairwise fun a b =>
        a.time < b.time ∨ a.time = b.time ∧ [a.user, b.user].Sublist users) ∧
      (∀ start ∈ starts,
        1 ≤ start.content.index ∧ start.content.index ≤ max scenario.contents 1) ∧
      (∀ other : Scenario, other.seed = scenario.seed →
        other.startWindow = scenario.startWindow → other.contents < 2 ^ 60 →
        ∃ starts' : List Start, other.workloadFrom g users = .ok (starts'.map Start.timed) ∧
          starts'.map (fun start => (start.user, start.time)) =
            starts.map (fun start => (start.user, start.time))) ∧
      ∀ more, (users ++ more).Nodup → ∃ starts' : List Start,
        scenario.workloadFrom g (users ++ more) = .ok (starts'.map Start.timed) ∧
          starts'.filter (fun start => users.contains start.user) = starts) := by
  rw [workloadFrom_eq hfinite]
  refine ⟨fun hlarge => if_neg (Nat.not_lt.mpr hlarge), fun hsmall => ?_⟩
  refine ⟨scenario.starts g users, if_pos hsmall, map_user_starts_perm scenario g users,
    pairwise_starts hfinite, fun start hstart => ?_, fun other hseed hwindow hother => ?_,
    fun more hnodup => ?_⟩
  · obtain ⟨place, rfl⟩ := mem_starts hstart
    exact contentAt_le scenario g place.2
  · refine ⟨other.starts g users, ?_, times_starts g hseed hwindow users⟩
    rw [workloadFrom_eq (hwindow ▸ hfinite), if_pos hother]
  · refine ⟨scenario.starts g (users ++ more), ?_, filter_starts hnodup⟩
    rw [workloadFrom_eq hfinite, if_pos hsmall]

/-- Three viewers of two contents within ten seconds. -/
def matinee : Scenario := { seed := 7, startWindow := 10, contents := 2, zipfExponent := 0.7 }

theorem workload_of_matinee :
    Binary64.ofFloat matinee.startWindow ≠ .infinite false ∧ ∃ starts : List Start,
      matinee.workload [⟨4⟩, ⟨2⟩] = .ok (starts.map Start.timed) ∧
      (starts.map (·.user)).Perm [⟨4⟩, ⟨2⟩] ∧
      ∃ starts' : List Start, matinee.workload [⟨4⟩, ⟨2⟩, ⟨9⟩] = .ok (starts'.map Start.timed) ∧
        starts'.filter (fun start => [⟨4⟩, ⟨2⟩].contains start.user) = starts := by
  have hfinite : Binary64.ofFloat matinee.startWindow ≠ .infinite false := by decide +kernel
  obtain ⟨starts, hworkload, hperm, -, -, -, hmore⟩ :=
    (workload_of_scenario KeyStream.generator hfinite [⟨4⟩, ⟨2⟩]).2 (by decide)
  exact ⟨hfinite, starts, hworkload, hperm, hmore [⟨9⟩] (by decide)⟩

/-- With more contents than there is room for, no viewer arrives. -/
theorem no_room_for_contents :
    ({ matinee with contents := 2 ^ 60 } : Scenario).workload [⟨0⟩] =
      .error (.breakdown .beyondMemory) := by
  rfl

end Scenario

end StreamPlacement
