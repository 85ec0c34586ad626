import StreamPlacement.Proofs.Arithmetic.Duration
import StreamPlacement.Proofs.Container.Failing
import StreamPlacement.Settings

/-!
What a checked configuration keeps within its range.

Every number of a configuration that was read from a text is finite, so a stop time that is not
negative is at least zero. The check refuses with a reason or lets pass, with one exception: the time
that a solver may take is asked to be positive and then turned into whole nanoseconds, and no span of
time is that long where it has `2 ^ 64` seconds or more. Where it has half a nanosecond or less the
span is no time at all. Replacing the strategy writes only where it succeeds, and then no range is
left.
-/

namespace StreamPlacement

open Json

/-! ### Numbers that were read -/

theorem Json.Given.defaulted_eq_some {β : Type} {given : Given} {name : String}
    {read : Json → Option β} {default result : β}
    (h : given.defaulted name read default = some result) :
    result = default ∨ ∃ value, read value = some result := by
  unfold Given.defaulted at h
  split at h
  · next value _ => exact .inr ⟨value, h⟩
  · exact .inl (Option.some.inj h).symm

theorem Json.finite?_eq_some {x y : Float} (h : finite? x = some y) :
    ∃ q, (Binary64.ofFloat y).value? = some q := by
  unfold finite? at h
  split at h
  · next negative significand exponent hx =>
      obtain rfl := Option.some.inj h
      exact ⟨_, by rw [hx]; rfl⟩
  · cases h

/-- A double that is read is finite. -/
theorem Json.float?_eq_some {value : Json} {x : Float} (h : float? value = some x) :
    ∃ q, (Binary64.ofFloat x).value? = some q := by
  cases value with
  | natural n => exact finite?_eq_some h
  | decimal d => exact finite?_eq_some h
  | null => cases h
  | bool b => cases h
  | string text => cases h
  | array items => cases h
  | object members => cases h

theorem Json.nullable?_eq_some {β : Type} {read : Json → Option β} {value : Json} {result : β}
    (h : nullable? read value = some (some result)) : read value = some result := by
  unfold nullable? at h
  split at h
  · cases h
  · obtain ⟨_, hread, heq⟩ := Option.map_eq_some_iff.mp h
    rwa [← Option.some.inj heq]

/-- The numbers of a configuration that are compared without being asked whether they are any. -/
structure Configuration.Finite (c : Configuration) : Prop where
  stopTime : ∃ q, (Binary64.ofFloat c.stopTime).value? = some q
  timeout : ∀ seconds ∈ c.resolution.timeout, ∃ q, (Binary64.ofFloat seconds).value? = some q

theorem ResolutionEntry.finite_of_read {value : Json} {entry : ResolutionEntry}
    (h : Document.read? value = some entry) :
    ∀ seconds ∈ entry.timeout, ∃ q, (Binary64.ofFloat seconds).value? = some q := by
  obtain ⟨given, -, h⟩ := Option.bind_eq_some_iff.mp h
  obtain ⟨strategy, -, h⟩ := Option.bind_eq_some_iff.mp h
  obtain ⟨interpreter, -, h⟩ := Option.bind_eq_some_iff.mp h
  obtain ⟨script, -, h⟩ := Option.bind_eq_some_iff.mp h
  obtain ⟨blocking, -, h⟩ := Option.bind_eq_some_iff.mp h
  obtain ⟨timeout, htimeout, h⟩ := Option.bind_eq_some_iff.mp h
  obtain rfl := Option.some.inj h
  rintro seconds rfl
  rcases Given.defaulted_eq_some htimeout with hdefault | ⟨value, hvalue⟩
  · cases hdefault
  · exact float?_eq_some (nullable?_eq_some hvalue)

theorem Configuration.finite_of_read {value : Json} {c : Configuration}
    (h : Document.read? value = some c) : c.Finite := by
  obtain ⟨given, -, h⟩ := Option.bind_eq_some_iff.mp h
  obtain ⟨topology, -, h⟩ := Option.bind_eq_some_iff.mp h
  obtain ⟨unit, -, h⟩ := Option.bind_eq_some_iff.mp h
  obtain ⟨grouping, -, h⟩ := Option.bind_eq_some_iff.mp h
  obtain ⟨resolution, hresolution, h⟩ := Option.bind_eq_some_iff.mp h
  obtain ⟨origin, -, h⟩ := Option.bind_eq_some_iff.mp h
  obtain ⟨clients, -, h⟩ := Option.bind_eq_some_iff.mp h
  obtain ⟨capacity, -, h⟩ := Option.bind_eq_some_iff.mp h
  obtain ⟨servers, -, h⟩ := Option.bind_eq_some_iff.mp h
  obtain ⟨monitor, -, h⟩ := Option.bind_eq_some_iff.mp h
  obtain ⟨provision, -, h⟩ := Option.bind_eq_some_iff.mp h
  obtain ⟨stopTime, hstopTime, h⟩ := Option.bind_eq_some_iff.mp h
  obtain ⟨trace, -, h⟩ := Option.bind_eq_some_iff.mp h
  obtain ⟨scenario, -, h⟩ := Option.bind_eq_some_iff.mp h
  obtain rfl := Option.some.inj h
  constructor
  · rcases Given.defaulted_eq_some hstopTime with rfl | ⟨value, hvalue⟩
    · have hdefault : Binary64.ofFloat 30 = .finite false (15 * 2 ^ 49) (-48) := by decide +kernel
      exact ⟨_, congrArg Binary64.value? hdefault⟩
    · exact float?_eq_some hvalue
  · rcases Given.defaulted_eq_some hresolution with rfl | ⟨value, hvalue⟩
    · rintro seconds ⟨⟩
    · exact ResolutionEntry.finite_of_read hvalue

/-! ### The check -/

/-- How long the solver may take, where it is asked for and has a script. -/
def ResolutionEntry.limit? (entry : ResolutionEntry) : Option Float :=
  if StrategyKind.ofName entry.strategy = .ok .optimizer ∧ entry.script.isSome then entry.timeout
  else none

namespace Settings

variable {directory : String} {c : Configuration} {entry : ResolutionEntry} {s : Settings}

/-- The ranges of a configuration that was checked. -/
structure Sound (s : Settings) : Prop where
  unit : 0 < s.unit
  interval : 0 < s.monitor.interval
  stopTime : 0 ≤ s.stopTime
  contents : ∀ scenario ∈ s.scenario, 1 ≤ scenario.contents
  startWindow : ∀ scenario ∈ s.scenario, 0 ≤ scenario.startWindow

/-- The time that the solver may take: none was given, or the one that was given, to the nearest
nanosecond, and a half and less is none. -/
def Timed (given : Option Float) (timeout : Option Duration) : Prop :=
  (given = none ∧ timeout = none) ∨
    ∃ seconds q d, given = some seconds ∧ (Binary64.ofFloat seconds).value? = some q ∧
      0 < q ∧ q < 2 ^ 64 ∧ timeout = some d ∧ |(d.nanoseconds : Rat) - q * 10 ^ 9| ≤ 1 / 2 ∧
      (d.nanoseconds = 0 ↔ q * 10 ^ 9 ≤ 1 / 2)

/-- A time that is given is refused, does not exist, or is kept. -/
theorem timeoutOf_of_value {seconds : Float} {q : Rat}
    (hvalue : (Binary64.ofFloat seconds).value? = some q) :
    (q ≤ 0 ∧ timeoutOf (some seconds) = .error (.setting (.timeoutNotPositive seconds))) ∨
      (2 ^ 64 ≤ q ∧ timeoutOf (some seconds) = .error (.breakdown .beyondClock)) ∨
      (0 < q ∧ q < 2 ^ 64 ∧ ∃ timeout, timeoutOf (some seconds) = .ok timeout ∧
        Timed (some seconds) timeout) := by
  have hpos := Binary64.pos_iff_of_value hvalue
  unfold timeoutOf
  dsimp only
  split
  · next hlt =>
      obtain ⟨hlong, hshort⟩ := Duration.ofSeconds_of_value hlt hvalue
      rcases le_or_gt ((2 : Rat) ^ 64) q with hle | hgt
      · exact .inr (.inl ⟨hle, by rw [hlong hle]; rfl⟩)
      · obtain ⟨d, hd, hnear, hzero⟩ := hshort hgt
        refine .inr (.inr ⟨hpos.mp hlt, hgt, some d, by rw [hd]; rfl, .inr ?_⟩)
        exact ⟨seconds, q, d, rfl, hvalue, hpos.mp hlt, hgt, rfl, hnear, hzero⟩
  · next hle => exact .inl ⟨not_lt.mp (hpos.not.mp hle), rfl⟩

/-- The solver is to be given `2 ^ 64` seconds or more. -/
def Endless (entry : ResolutionEntry) : Prop :=
  ∃ seconds ∈ entry.limit?, ∃ q, (Binary64.ofFloat seconds).value? = some q ∧ 2 ^ 64 ≤ q

/-- What becomes of what was said against congestion: it is refused with a reason, there is no such
span of time, or it is kept, the optimizer with its script and its time. -/
inductive Resolved (directory : String) (entry : ResolutionEntry) : Except Fault Resolution → Prop
  | refused (reason : SettingFault) (short : ¬ Endless entry) :
      Resolved directory entry (.error (.setting reason))
  | beyondClock (long : Endless entry) :
      Resolved directory entry (.error (.breakdown .beyondClock))
  | greedy (short : ¬ Endless entry) : Resolved directory entry (.ok .greedy)
  | optimizer (script : String) (timeout : Option Duration) (given : entry.script = some script)
      (timed : Timed entry.timeout timeout) (short : ¬ Endless entry) :
      Resolved directory entry
        (.ok (.optimizer entry.interpreter (Path.join directory script) entry.blocking timeout))

theorem not_endless_of_limit_eq_none (h : entry.limit? = none) : ¬ Endless entry := by
  rintro ⟨seconds, hlimit, -⟩
  rw [h] at hlimit
  cases hlimit

/-- What the solver is given is not endless if a number below `2 ^ 64` was given. -/
theorem not_endless_of_value {seconds : Float} {q : Rat} (hgiven : entry.timeout = some seconds)
    (hvalue : (Binary64.ofFloat seconds).value? = some q) (hlt : q < 2 ^ 64) :
    ¬ Endless entry := by
  rintro ⟨seconds', hlimit, q', hvalue', hle⟩
  unfold ResolutionEntry.limit? at hlimit
  split at hlimit
  · obtain rfl := Option.some.inj (hgiven.symm.trans hlimit)
    obtain rfl := Option.some.inj (hvalue.symm.trans hvalue')
    exact absurd hlt (not_lt.mpr hle)
  · cases hlimit

theorem resolved_resolutionOf (directory : String)
    (hfinite : ∀ seconds ∈ entry.timeout, ∃ q, (Binary64.ofFloat seconds).value? = some q) :
    Resolved directory entry (resolutionOf directory entry) := by
  unfold resolutionOf
  cases hkind : StrategyKind.ofName entry.strategy with
  | error fault =>
      have hname := hkind
      unfold StrategyKind.ofName at hkind
      split at hkind
      · cases hkind
      · obtain rfl := Except.error.inj hkind
        refine .refused _ (not_endless_of_limit_eq_none (if_neg fun h => ?_))
        cases hname.symm.trans h.1
  | ok kind =>
      cases kind with
      | greedy =>
          refine .greedy (not_endless_of_limit_eq_none (if_neg fun h => ?_))
          cases hkind.symm.trans h.1
      | optimizer =>
          cases hscript : entry.script with
          | none =>
              refine .refused _ (not_endless_of_limit_eq_none (if_neg fun h => ?_))
              rw [hscript] at h
              exact nomatch h.2
          | some script =>
              have hlimit : entry.limit? = entry.timeout := if_pos ⟨hkind, by rw [hscript]; rfl⟩
              cases htimeout : entry.timeout with
              | none =>
                  refine .optimizer script none hscript (.inl ⟨htimeout, rfl⟩) ?_
                  exact not_endless_of_limit_eq_none (hlimit.trans htimeout)
              | some seconds =>
                  obtain ⟨q, hvalue⟩ := hfinite seconds htimeout
                  show Resolved directory entry ((timeoutOf (some seconds)).bind _)
                  rcases timeoutOf_of_value hvalue with
                    ⟨hle, htime⟩ | ⟨hle, htime⟩ | ⟨-, hlt, timeout, htime, htimed⟩ <;> rw [htime]
                  · exact .refused _
                      (not_endless_of_value htimeout hvalue (hle.trans_lt (by norm_num)))
                  · exact .beyondClock ⟨seconds, hlimit.trans htimeout, q, hvalue, hle⟩
                  · exact .optimizer script timeout hscript (htimeout ▸ htimed)
                      (not_endless_of_value htimeout hvalue hlt)

/-- The checked form of a configuration, given what is to be done against congestion. -/
def checked (directory : String) (c : Configuration) (resolution : Resolution) : Settings :=
  { nodesFile := Path.join directory c.topology.nodes
    linksFile := Path.join directory c.topology.links
    unit := c.unit
    grouping := c.grouping
    resolution
    origin := c.origin
    clientsPerAccessPoint := c.clientsPerAccessPoint
    defaultCapacity := c.defaultCapacity
    servers := c.servers
    monitor := c.monitor
    provision := c.provision
    stopTime := c.stopTime
    traceFile := c.trace.map (Path.join directory)
    scenario := c.scenario.map scenarioOf }

theorem ofConfiguration_eq (directory : String) (c : Configuration) :
    ofConfiguration directory c =
      if 0 < c.unit then
        if 0 < c.monitor.interval then
          if c.stopTime < 0 then .error (.setting (.stopTimeNegative c.stopTime))
          else (resolutionOf directory c.resolution).map (checked directory c)
        else .error (.setting (.intervalNotPositive c.monitor.interval))
      else .error (.setting (.unitNotPositive c.unit)) := by
  unfold ofConfiguration
  split
  · split
    · split
      · rfl
      · cases resolutionOf directory c.resolution <;> rfl
    · rfl
  · rfl

/-- Whatever the configuration, what was checked has its ranges. -/
theorem sound_checked (resolution : Resolution) (hunit : 0 < c.unit)
    (hinterval : 0 < c.monitor.interval) (hstopTime : 0 ≤ c.stopTime) :
    (checked directory c resolution).Sound where
  unit := hunit
  interval := hinterval
  stopTime := hstopTime
  contents := by
    intro scenario hscenario
    obtain ⟨given, -, rfl⟩ := Option.map_eq_some_iff.mp hscenario
    exact Nat.le_max_right ..
  startWindow := by
    intro scenario hscenario
    obtain ⟨given, -, rfl⟩ := Option.map_eq_some_iff.mp hscenario
    show 0 ≤ Quantity.atLeastZero given.startWindow
    unfold Quantity.atLeastZero
    split
    · next hpos => exact Double.le_of_lt hpos
    · exact Double.le_self_iff.mpr (by decide)

/-! ### Replacing the strategy -/

/-- Replacing the strategy in the order of its checks and writes. -/
def overrideInPlace (name : String) : ExceptT Fault (StateM Settings) Unit := do
  match ← liftM (StrategyKind.ofName name) with
  | .greedy => modify ({ · with resolution := .greedy })
  | .optimizer =>
    let settings ← get
    match settings.resolution.kind with
    | .optimizer => pure ()
    | .greedy => liftM (refuse .scriptMissingForOverride : Except Fault Unit)

/-- The settings after some replacements, also behind one that failed. -/
def overridden (s : Settings) (names : List String) : Settings :=
  names.foldl (fun s name => ((overrideInPlace name).run.run s).2) s

theorem run_overrideInPlace (s : Settings) (name : String) :
    (overrideInPlace name).run.run s =
      match s.overrideStrategy name with
      | .ok s' => (.ok (), s')
      | .error fault => (.error fault, s) := by
  unfold overrideInPlace overrideStrategy
  rw [Failing.run_bind, Failing.run_liftM]
  cases StrategyKind.ofName name with
  | error fault => rfl
  | ok kind =>
      cases kind with
      | greedy => rfl
      | optimizer =>
          dsimp only
          rw [Failing.run_bind, Failing.run_get]
          dsimp only
          cases hkind : s.resolution.kind with
          | greedy => rfl
          | optimizer => rfl

/-- What a replacement leaves: the settings as they were, or with the greedy strategy. -/
theorem overrideStrategy_eq_ok {s s' : Settings} {name : String}
    (h : s.overrideStrategy name = .ok s') : s' = s ∨ s' = { s with resolution := .greedy } := by
  unfold overrideStrategy at h
  cases hname : StrategyKind.ofName name with
  | error fault => rw [hname] at h; cases h
  | ok kind =>
      rw [hname] at h
      cases kind with
      | greedy => exact .inr (Except.ok.inj h).symm
      | optimizer =>
          cases hkind : s.resolution.kind with
          | greedy => rw [hkind] at h; cases h
          | optimizer => rw [hkind] at h; exact .inl (Except.ok.inj h).symm

theorem run_overrideInPlace_cases (s : Settings) (name : String) :
    ((overrideInPlace name).run.run s).2 = s ∨
      ((overrideInPlace name).run.run s).2 = { s with resolution := .greedy } := by
  rw [run_overrideInPlace]
  cases hoverride : s.overrideStrategy name with
  | error fault => exact .inl rfl
  | ok s' => exact overrideStrategy_eq_ok hoverride

/-- Whatever replacements are tried, the settings are as they were, or with the greedy strategy. -/
theorem overridden_cases (s : Settings) (names : List String) :
    s.overridden names = s ∨ s.overridden names = { s with resolution := .greedy } := by
  induction names generalizing s with
  | nil => exact .inl rfl
  | cons name rest ih =>
      show overridden ((overrideInPlace name).run.run s).2 rest = _ ∨
        overridden ((overrideInPlace name).run.run s).2 rest = _
      rcases run_overrideInPlace_cases s name with hs | hs <;> rw [hs]
      · exact ih s
      · rcases ih { s with resolution := .greedy } with hrest | hrest <;> exact .inr hrest

theorem Sound.overridden (h : s.Sound) (names : List String) : (s.overridden names).Sound := by
  rcases overridden_cases s names with hs | hs <;> rw [hs]
  · exact h
  · exact ⟨h.unit, h.interval, h.stopTime, h.contents, h.startWindow⟩

/-- A replacement that fails changes nothing. -/
theorem run_overrideInPlace_of_error {s : Settings} {name : String} {fault : Fault}
    (h : ((overrideInPlace name).run.run s).1 = .error fault) :
    ((overrideInPlace name).run.run s).2 = s := by
  rw [run_overrideInPlace] at h ⊢
  cases hoverride : s.overrideStrategy name with
  | error fault => rfl
  | ok s' => rw [hoverride] at h; cases h

/-! ### Configurations that were read -/

/-- Everything else about a configuration is right, but its solver is given too long. -/
structure TooLong (c : Configuration) : Prop where
  unit : 0 < c.unit
  interval : 0 < c.monitor.interval
  stopTime : ¬ c.stopTime < 0
  solver : Endless c.resolution

/-- What becomes of a configuration. -/
inductive Outcome (directory : String) (c : Configuration) : Except Fault Settings → Prop
  | refused (reason : SettingFault) (short : ¬ TooLong c) :
      Outcome directory c (.error (.setting reason))
  | beyondClock (long : TooLong c) : Outcome directory c (.error (.breakdown .beyondClock))
  | accepted (resolution : Resolution) (sound : (checked directory c resolution).Sound)
      (resolved : Resolved directory c.resolution (.ok resolution)) (short : ¬ TooLong c) :
      Outcome directory c (.ok (checked directory c resolution))

theorem outcome_ofConfiguration (directory : String) (hfinite : c.Finite) :
    Outcome directory c (ofConfiguration directory c) := by
  rw [ofConfiguration_eq]
  split
  · next hunit =>
      split
      · next hinterval =>
          split
          · next hneg => exact .refused _ fun hlong => hlong.stopTime hneg
          · next hnonneg =>
              obtain ⟨q, hq⟩ := hfinite.stopTime
              obtain ⟨_, _, _, hstop, -⟩ := Binary64.finite_of_value hq
              have hstopTime := Double.zero_le_of_not_neg (Double.number_of_finite hstop) hnonneg
              have hresolved := resolved_resolutionOf directory hfinite.timeout
              generalize resolutionOf directory c.resolution = result at hresolved ⊢
              cases result with
              | error fault =>
                  cases hresolved with
                  | refused reason hshort => exact .refused reason fun hlong => hshort hlong.solver
                  | beyondClock hlong => exact .beyondClock ⟨hunit, hinterval, hnonneg, hlong⟩
              | ok resolution =>
                  refine .accepted resolution (sound_checked _ hunit hinterval hstopTime) hresolved
                    fun hlong => ?_
                  cases hresolved with
                  | greedy hshort => exact hshort hlong.solver
                  | optimizer script timeout given timed hshort => exact hshort hlong.solver
      · next hnot => exact .refused _ fun hlong => hnot hlong.interval
  · next hnot => exact .refused _ fun hlong => hnot hlong.unit

/-- A configuration that was read from a text is refused with a reason or checked, unless everything
else is right and the solver is to be given `2 ^ 64` seconds or more. What was checked keeps its
ranges, also behind every sequence of replaced strategies; the optimizer has its script and its time,
which is no time at all exactly for half a nanosecond and less. A replacement that fails changes
nothing. -/
theorem ofConfiguration_of_text {text : List Char} (h : Document.ofText? text = some c)
    (directory : String) :
    (∀ fault, ofConfiguration directory c = .error fault →
      (fault = .breakdown .beyondClock ∧ TooLong c) ∨
        ((∃ reason, fault = .setting reason) ∧ ¬ TooLong c)) ∧
    ∀ s, ofConfiguration directory c = .ok s → ¬ TooLong c ∧
      (∀ interpreter script blocking timeout,
        s.resolution = .optimizer interpreter script blocking timeout →
          (∃ given, c.resolution.script = some given ∧ script = Path.join directory given) ∧
          Timed c.resolution.timeout timeout) ∧
      ∀ names, (s.overridden names).Sound ∧
        (s.overridden names = s ∨ s.overridden names = { s with resolution := .greedy }) ∧
        ∀ name fault, ((overrideInPlace name).run.run (s.overridden names)).1 = .error fault →
          ((overrideInPlace name).run.run (s.overridden names)).2 = s.overridden names := by
  obtain ⟨value, -, hread⟩ := Option.bind_eq_some_iff.mp h
  have houtcome := outcome_ofConfiguration directory (Configuration.finite_of_read hread)
  generalize ofConfiguration directory c = result at houtcome ⊢
  cases houtcome with
  | refused reason hshort =>
      refine ⟨fun fault hfault => .inr ⟨⟨reason, (Except.error.inj hfault).symm⟩, hshort⟩, ?_⟩
      exact fun s hs => nomatch hs
  | beyondClock hlong =>
      refine ⟨fun fault hfault => .inl ⟨(Except.error.inj hfault).symm, hlong⟩, ?_⟩
      exact fun s hs => nomatch hs
  | accepted resolution hsound hresolved hshort =>
      refine ⟨fun fault hfault => (nomatch hfault), fun s hs => ?_⟩
      obtain rfl := Except.ok.inj hs
      refine ⟨hshort, fun interpreter script blocking timeout hoptimizer => ?_, fun names =>
        ⟨hsound.overridden names, overridden_cases _ names, fun name fault =>
          run_overrideInPlace_of_error⟩⟩
      have hchosen : resolution = .optimizer interpreter script blocking timeout := hoptimizer
      rw [hchosen] at hresolved
      cases hresolved with
      | optimizer given timeout hgiven htimed hshort => exact ⟨⟨given, hgiven, rfl⟩, htimed⟩

/-- A configuration whose solver is given the time that a numeral spells. -/
def solverText (seconds : String) : List Char :=
  ("\x7b\"topology\": \x7b\"nodesFile\": \"n\", \"linksFile\": \"l\"\x7d, \"originServer\": 0, "
    ++ "\"resolution\": \x7b\"strategy\": \"optimizer\", \"script\": \"s\", \"timeoutS\": "
    ++ seconds ++ "\x7d\x7d").toList

theorem ranges_when_timed :
    ∃ c s, Document.ofText? (solverText "2.5") = some c ∧ ofConfiguration "" c = .ok s ∧
      s.resolution = .optimizer "python3" "s" true (some ⟨2500000000⟩) ∧
      Timed c.resolution.timeout (some ⟨2500000000⟩) ∧
      (s.overridden ["greedy", "optimizer"]).Sound := by
  have hchecked : ((Document.ofText? (solverText "2.5")).bind fun c : Configuration =>
      ((ofConfiguration "" c).toOption.map (·.resolution))) =
        some (.optimizer "python3" "s" true (some ⟨2500000000⟩)) := by decide +kernel
  obtain ⟨c, hread, hchecked⟩ := Option.bind_eq_some_iff.mp hchecked
  obtain ⟨s, hs, hresolution⟩ := Option.map_eq_some_iff.mp hchecked
  have hok : ofConfiguration "" c = .ok s := by
    cases hresult : ofConfiguration "" c with
    | error fault => rw [hresult] at hs; cases hs
    | ok s' => rw [hresult] at hs; exact congrArg _ (Option.some.inj hs)
  obtain ⟨-, haccepted⟩ := ofConfiguration_of_text hread ""
  obtain ⟨-, hsolver, hkept⟩ := haccepted s hok
  exact ⟨c, s, hread, hok, hresolution, (hsolver _ _ _ _ hresolution).2, (hkept _).1⟩

/-- The time is asked to be positive, but with a tenth of a nanosecond the solver is accepted and has
none, and with `10 ^ 20` seconds the program stops instead of refusing it. -/
theorem solver_time_lost :
    ((Document.ofText? (solverText "1e-10")).map fun c : Configuration =>
      (c.resolution.timeout.map fun seconds => decide (0 < seconds),
        (ofConfiguration "" c).toOption.map (·.resolution))) =
      some (some true, some (.optimizer "python3" "s" true (some ⟨0⟩))) ∧
    ((Document.ofText? (solverText "1e20")).map fun c : Configuration =>
      decide ((ofConfiguration "" c).map (·.resolution) = .error (.breakdown .beyondClock))) =
      some true := by
  constructor <;> decide +kernel

end Settings

end StreamPlacement
