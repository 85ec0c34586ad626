import Mathlib.Algebra.Order.Ring.Nat
import Mathlib.Data.List.Induction
import Mathlib.Data.List.Perm.Basic
import StreamPlacement.Monitor
import StreamPlacement.Proofs.Container.OrderedMap

/-!
One interval of the monitor.

A count is the sum of all bytes that were recorded for its address since it was last set to zero, up
to the largest word. Adding up to a bound does not depend on the order, so neither does what a
sample reports. Closing the interval sets every count to zero, whether or not anything is reported,
and every link that is reported is reacted to once, in order of the addresses, also behind a
reaction that failed.
-/

namespace StreamPlacement.Monitor

variable {α : Type}

/-! ### Recordings -/

/-- Bytes that were seen: at an address, or on the link between two nodes, whose address is looked
up. -/
inductive Recording
  | onAddress (address : Address) (bytes : Nat)
  | onEdge (book : AddressBook) (e : Edge) (bytes : Nat)

/-- The address that the bytes are for: for two nodes that of the link between them as it was
declared, and where none was declared so, that of the link the other way round. -/
def Recording.address? : Recording → Option Address
  | .onAddress address _ => some address
  | .onEdge book e _ => (book.linkAddress? e).or (book.linkAddress? e.swap)

def Recording.bytes : Recording → Nat
  | .onAddress _ bytes => bytes
  | .onEdge _ _ bytes => bytes

/-- The bytes that a recording has for an address. -/
def Recording.bytesFor (recording : Recording) (address : Address) : Nat :=
  if recording.address? = some address then recording.bytes else 0

/-- Takes a recording in. -/
def take (m : Monitor α) : Recording → Monitor α
  | .onAddress address bytes => (m.record address bytes).2
  | .onEdge book e bytes => (m.recordLink book e bytes).2

def takeAll (m : Monitor α) (recordings : List Recording) : Monitor α := recordings.foldl take m

theorem get?_record (m : Monitor α) (address address' : Address) (bytes : Nat) :
    (m.record address bytes).2.links.get? address' =
      if address' = address then (m.links.get? address').map fun link =>
        { link with bytes := min wordMax (link.bytes + bytes) }
      else m.links.get? address' := by
  unfold record
  split
  · exact OrderedMap.get?_modify ..
  · next hnone =>
      have hnone := Option.not_isSome_iff_eq_none.mp hnone
      split
      · next heq =>
          rw [heq, hnone]
          rfl
      · rfl

@[simp] theorem settings_record (m : Monitor α) (address : Address) (bytes : Nat) :
    (m.record address bytes).2.settings = m.settings := by
  unfold record
  split <;> rfl

/-- A recording goes to the count at the address it is for. -/
theorem get?_take (m : Monitor α) (recording : Recording) (address : Address) :
    (m.take recording).links.get? address =
      if recording.address? = some address then (m.links.get? address).map fun link =>
        { link with bytes := min wordMax (link.bytes + recording.bytes) }
      else m.links.get? address := by
  cases recording with
  | onAddress target bytes =>
      show (m.record target bytes).2.links.get? address = _
      simp only [get?_record, Recording.address?, Recording.bytes, Option.some.injEq, eq_comm]
  | onEdge book e bytes =>
      have hbook : ((book.linkAddress? e).orElse fun _ => book.linkAddress? e.swap) =
          (Recording.onEdge book e bytes).address? := by
        show _ = (book.linkAddress? e).or (book.linkAddress? e.swap)
        cases book.linkAddress? e <;> rfl
      show (m.recordLink book e bytes).2.links.get? address = _
      unfold recordLink
      rw [hbook]
      cases (Recording.onEdge book e bytes).address? with
      | none => simp
      | some target => simp only [get?_record, Recording.bytes, Option.some.injEq, eq_comm]

@[simp] theorem settings_recordLink (m : Monitor α) (book : AddressBook) (e : Edge) (bytes : Nat) :
    (m.recordLink book e bytes).2.settings = m.settings := by
  unfold recordLink
  split
  · exact settings_record ..
  · rfl

@[simp] theorem settings_take (m : Monitor α) (recording : Recording) :
    (m.take recording).settings = m.settings := by
  cases recording with
  | onAddress address bytes => exact settings_record ..
  | onEdge book e bytes => exact settings_recordLink ..

/-- Two monitors with the same settings that observe the same are equal. -/
theorem eq_of_get?_eq {m m' : Monitor α} (hsettings : m.settings = m'.settings)
    (hlinks : ∀ address, m.links.get? address = m'.links.get? address) : m = m' := by
  obtain ⟨settings, links⟩ := m
  obtain ⟨settings', links'⟩ := m'
  obtain rfl : settings = settings' := hsettings
  obtain rfl : links = links' := OrderedMap.eq_of_get?_eq hlinks
  rfl

/-- Two recordings may change places. -/
theorem take_right_comm (m : Monitor α) (first second : Recording) :
    (m.take first).take second = (m.take second).take first := by
  refine eq_of_get?_eq (by simp) fun address => ?_
  simp only [get?_take]
  by_cases hfirst : first.address? = some address
  · by_cases hsecond : second.address? = some address
    · simp only [hfirst, hsecond, if_true, Option.map_map]
      refine Option.map_congr fun link _ => ?_
      have hsum : min wordMax (min wordMax (link.bytes + first.bytes) + second.bytes) =
          min wordMax (min wordMax (link.bytes + second.bytes) + first.bytes) := by omega
      simp [hsum]
    · simp [hfirst, hsecond]
  · simp [hfirst]

/-- The order of recordings does not matter. -/
theorem takeAll_perm {recordings recordings' : List Recording}
    (h : recordings.Perm recordings') (m : Monitor α) :
    m.takeAll recordings = m.takeAll recordings' :=
  h.foldl_eq' (fun first _ second _ m => take_right_comm m first second) m

/-- A count grows by all that is recorded for its address, up to the largest word. -/
theorem get?_takeAll (recordings : List Recording) {m : Monitor α} {address : Address}
    (hword : ∀ link, m.links.get? address = some link → link.bytes ≤ wordMax) :
    (m.takeAll recordings).links.get? address = (m.links.get? address).map fun link =>
      { link with bytes := min wordMax (link.bytes + (recordings.map (·.bytesFor address)).sum) } := by
  induction recordings generalizing m with
  | nil =>
      show m.links.get? address = _
      cases hlink : m.links.get? address with
      | none => rfl
      | some link =>
          have hsame : min wordMax link.bytes = link.bytes := Nat.min_eq_right (hword link hlink)
          simp [hsame]
  | cons recording recordings ih =>
      show ((m.take recording).takeAll recordings).links.get? address = _
      rw [List.map_cons, List.sum_cons, Recording.bytesFor]
      by_cases hfor : recording.address? = some address
      · have htake := get?_take m recording address
        rw [if_pos hfor] at htake ⊢
        have hbound : ∀ link, (m.take recording).links.get? address = some link →
            link.bytes ≤ wordMax := by
          intro link hlink
          rw [htake] at hlink
          obtain ⟨before, -, rfl⟩ := Option.map_eq_some_iff.mp hlink
          exact Nat.min_le_left ..
        rw [ih hbound, htake, Option.map_map]
        refine Option.map_congr fun link _ => ?_
        have hsum : ∀ later, min wordMax (min wordMax (link.bytes + recording.bytes) + later) =
            min wordMax (link.bytes + (recording.bytes + later)) := by omega
        simp [hsum]
      · have htake := get?_take m recording address
        rw [if_neg hfor] at htake ⊢
        rw [ih (htake ▸ hword), htake, Nat.zero_add]

/-! ### Samples -/

variable [Quantity α]

/-- A sample reports the links over their limit, if anything is to be reported at all. -/
theorem mem_sample_iff {m : Monitor α} {signal : Signal α} :
    signal ∈ m.sample.1 ↔ m.settings.redirect = true ∧
      ∃ link, m.links.get? signal.address = some link ∧ signal.edge = link.edge ∧
        signal.throughputMbps = m.throughput link.bytes ∧
        m.limit link < m.throughput link.bytes := by
  have hexceeding : signal ∈ m.exceeding ↔ ∃ link, m.links.get? signal.address = some link ∧
      signal.edge = link.edge ∧ signal.throughputMbps = m.throughput link.bytes ∧
        m.limit link < m.throughput link.bytes := by
    simp only [exceeding, List.mem_filterMap, Prod.exists, OrderedMap.mem_entries_iff,
      Option.ite_none_right_eq_some, Option.some.injEq]
    constructor
    · rintro ⟨address, link, hlink, hover, rfl⟩
      exact ⟨link, hlink, rfl, rfl, hover⟩
    · rintro ⟨link, hlink, hedge, hthroughput, hover⟩
      exact ⟨signal.address, link, hlink, hover, by rw [← hedge, ← hthroughput]⟩
  show signal ∈ (if m.settings.redirect then m.exceeding else []) ↔ _
  rw [← hexceeding]
  cases m.settings.redirect <;> simp

/-- A link within its limit is not reported. -/
theorem address_ne_of_within {m : Monitor α} {address : Address} {link : MonitoredLink α}
    (hentry : (address, link) ∈ m.links.entries)
    (hwithin : ¬ m.limit link < m.throughput link.bytes) :
    ∀ signal ∈ m.sample.1, signal.address ≠ address := by
  rintro signal hsignal rfl
  obtain ⟨-, link', hlink', -, -, hover⟩ := mem_sample_iff.mp hsignal
  rw [OrderedMap.mem_entries_iff] at hentry
  obtain rfl : link = link' := Option.some.inj (hentry.symm.trans hlink')
  exact hwithin hover

/-- What is reported comes in ascending order of the addresses, and nothing twice. -/
theorem ascending_sample (m : Monitor α) :
    m.sample.1.Pairwise fun first second => compare first.address second.address = .lt := by
  show (if m.settings.redirect then m.exceeding else []).Pairwise _
  split
  · refine List.pairwise_filterMap.mpr (m.links.ascending.imp fun {first second} hlt => ?_)
    intro signal hsignal signal' hsignal'
    obtain ⟨-, hsome⟩ := Option.ite_none_right_eq_some.mp hsignal
    obtain ⟨-, hsome'⟩ := Option.ite_none_right_eq_some.mp hsignal'
    rw [← Option.some.inj hsome, ← Option.some.inj hsome']
    exact hlt
  · exact .nil

/-- Afterwards every count is zero. -/
theorem get?_sample (m : Monitor α) (address : Address) :
    m.sample.2.links.get? address = (m.links.get? address).map ({ · with bytes := 0 }) :=
  OrderedMap.get?_map ..

/-! ### Counts -/

/-- What can be done to a monitor between two samples, and a sample. -/
inductive Call (α : Type)
  | register (address : Address) (edge : Edge) (capacityMbps : α)
  | take (recording : Recording)
  | sample

def perform (m : Monitor α) : Call α → Monitor α
  | .register address edge capacityMbps => m.register address edge capacityMbps
  | .take recording => m.take recording
  | .sample => m.sample.2

/-- A new monitor after some calls. -/
def performed (settings : MonitorSettings α) (calls : List (Call α)) : Monitor α :=
  calls.foldl perform { settings }

/-- Whether a call sets the count at an address to zero. -/
def Call.clears (address : Address) : Call α → Bool
  | .register address' _ _ => address' = address
  | .take _ => false
  | .sample => true

/-- The bytes that a call brings for an address. -/
def Call.bytesFor (address : Address) : Call α → Nat
  | .take recording => recording.bytesFor address
  | _ => 0

/-- All bytes that were recorded for an address since its count was last set to zero. -/
def recorded (calls : List (Call α)) (address : Address) : Nat :=
  ((calls.reverse.takeWhile (!·.clears address)).map (·.bytesFor address)).sum

omit [Quantity α] in
theorem recorded_concat (calls : List (Call α)) (call : Call α) (address : Address) :
    recorded (calls ++ [call]) address =
      if call.clears address then 0 else call.bytesFor address + recorded calls address := by
  rw [recorded, List.reverse_append, List.reverse_singleton, List.singleton_append,
    List.takeWhile_cons]
  cases call.clears address <;> simp [recorded]

@[simp] theorem settings_performed (settings : MonitorSettings α) (calls : List (Call α)) :
    (performed settings calls).settings = settings :=
  List.foldlRecOn (motive := fun m : Monitor α => m.settings = settings) calls perform rfl
    fun m hm call _ => by
      cases call with
      | register => exact hm
      | take recording => exact (settings_take m recording).trans hm
      | sample => exact hm

/-- A count is the sum of what was recorded, up to the largest word. -/
theorem bytes_performed (settings : MonitorSettings α) (calls : List (Call α)) {address : Address}
    {link : MonitoredLink α} (h : (performed settings calls).links.get? address = some link) :
    link.bytes = min wordMax (recorded calls address) := by
  induction calls using List.reverseRecOn generalizing link with
  | nil => cases h
  | append_singleton calls call ih =>
      rw [performed, List.foldl_concat] at h
      change ((performed settings calls).perform call).links.get? address = some link at h
      rw [recorded_concat]
      cases call with
      | register target edge capacityMbps =>
          have hget : (if address = target then some { edge, capacityMbps }
              else (performed settings calls).links.get? address) = some link :=
            (OrderedMap.get?_insert ..).symm.trans h
          by_cases hsame : address = target
          · obtain rfl := Option.some.inj ((if_pos hsame).symm.trans hget)
            simp [Call.clears, hsame]
          · have hne : target ≠ address := Ne.symm hsame
            simpa [Call.clears, Call.bytesFor, hne] using ih ((if_neg hsame).symm.trans hget)
      | take recording =>
          change ((performed settings calls).take recording).links.get? address = some link at h
          rw [get?_take] at h
          show link.bytes = min wordMax (recording.bytesFor address + recorded calls address)
          unfold Recording.bytesFor
          split at h
          · next hfor =>
              obtain ⟨before, hbefore, rfl⟩ := Option.map_eq_some_iff.mp h
              have hcount := ih hbefore
              rw [if_pos hfor]
              show min wordMax (before.bytes + recording.bytes) = _
              omega
          · next hnot => rw [if_neg hnot, Nat.zero_add, ih h]
      | sample =>
          change (performed settings calls).sample.2.links.get? address = some link at h
          rw [get?_sample] at h
          obtain ⟨before, -, rfl⟩ := Option.map_eq_some_iff.mp h
          rfl

/-! ### Ticks -/

/-- Signals are reacted to one after the other, each once and each in the state that the one before
it left; these are the outcomes. -/
inductive Reacts : Placement α → List (Signal α) → List (Except Fault Reaction) → Placement α → Prop
  | done {p : Placement α} : Reacts p [] [] p
  | next {p p' q : Placement α} {signal : Signal α} {rest : List (Signal α)}
      {outcome : Except Fault Reaction} {outcomes : List (Except Fault Reaction)}
      (react : p.react signal.edge = (p', outcome)) (later : Reacts p' rest outcomes q) :
      Reacts p (signal :: rest) (outcome :: outcomes) q

/-- All signals are reacted to, and the answers are those of the reactions that did not fail. -/
theorem reacts_handle (signals : List (Signal α)) (p : Placement α) :
    ∃ outcomes, Reacts p signals outcomes (handle signals p).2 ∧
      (handle signals p).1 = outcomes.filterMap Except.toOption := by
  induction signals generalizing p with
  | nil => exact ⟨[], .done, rfl⟩
  | cons signal rest ih =>
      obtain ⟨outcomes, hreacts, hanswers⟩ := ih (p.react signal.edge).1
      refine ⟨(p.react signal.edge).2 :: outcomes, .next rfl hreacts, ?_⟩
      show (p.react signal.edge).2.toOption.toList ++ (handle rest (p.react signal.edge).1).1 = _
      rw [hanswers, List.filterMap_cons]
      cases (p.react signal.edge).2 <;> rfl

/-- At any time, a count is the sum of what was recorded for its address since it was last set to
zero, up to the largest word. So after a sample it is the sum of the recordings since, and these may
change places. A sample reports the links over their limit and no others, in ascending order of the
addresses, and nothing where nothing is to be reported; it sets every count to zero all the same.
And a tick has all that is reported reacted to, once each and in this order, whichever reactions
fail. -/
theorem intervals_accounted (settings : MonitorSettings α) (calls : List (Call α)) :
    let m := performed settings calls
    let rate (link : MonitoredLink α) : α := Quantity.ofNat link.bytes * Quantity.ofNat 8 /
      (Quantity.ofNat 1000000 * settings.interval)
    (∀ address link, m.links.get? address = some link →
      link.bytes = min wordMax (recorded calls address)) ∧
    (∀ recordings address, (m.sample.2.takeAll recordings).links.get? address =
      (m.links.get? address).map
        ({ · with bytes := min wordMax (recordings.map (·.bytesFor address)).sum })) ∧
    (∀ recordings recordings', recordings.Perm recordings' →
      m.takeAll recordings = m.takeAll recordings') ∧
    (∀ signal, signal ∈ m.sample.1 ↔ settings.redirect = true ∧
      ∃ link, m.links.get? signal.address = some link ∧ signal.edge = link.edge ∧
        signal.throughputMbps = rate link ∧
        settings.threshold.getD link.capacityMbps < rate link) ∧
    m.sample.1.Pairwise (fun first second => compare first.address second.address = .lt) ∧
    (∀ address, m.sample.2.links.get? address =
      (m.links.get? address).map ({ · with bytes := 0 })) ∧
    ∀ p : Placement α, ∃ outcomes, Reacts p m.sample.1 outcomes (m.tick p).2.2 ∧
      (m.tick p).1 = outcomes.filterMap Except.toOption ∧ (m.tick p).2.1 = m.sample.2 := by
  intro m rate
  have hsettings : m.settings = settings := settings_performed settings calls
  refine ⟨fun _ _ => bytes_performed settings calls, fun recordings address => ?_,
    fun _ _ hperm => takeAll_perm hperm m, fun signal => ?_, ascending_sample m, get?_sample m,
    fun p => ?_⟩
  · have hzero : ∀ link, m.sample.2.links.get? address = some link → link.bytes ≤ wordMax := by
      intro link hlink
      rw [get?_sample] at hlink
      obtain ⟨before, -, rfl⟩ := Option.map_eq_some_iff.mp hlink
      exact Nat.zero_le _
    rw [get?_takeAll recordings hzero, get?_sample, Option.map_map]
    simp only [Function.comp_def, Nat.zero_add]
  · rw [mem_sample_iff]
    simp only [throughput, limit, hsettings, rate]
  · obtain ⟨outcomes, hreacts, hanswers⟩ := reacts_handle m.sample.1 p
    exact ⟨outcomes, hreacts, hanswers, rfl⟩

end StreamPlacement.Monitor
