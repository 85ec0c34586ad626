import Mathlib.Algebra.Order.BigOperators.Group.List
import Mathlib.Algebra.Order.Group.Nat
import StreamPlacement.Cache.Server
import StreamPlacement.Proofs.Container.OrderedMap

/-!
What the servers of a pool hold. A server that becomes known holds nothing yet, so only taking a
content on that was not hosted before changes what is held anywhere.
-/

namespace StreamPlacement

/-- The server may host what it might before, and holds what it held. -/
structure CacheServer.Extends (later server : CacheServer) : Prop where
  hosting_eq : later.hosting = server.hosting
  contains : ∀ content, server.contents.contains content = true →
    later.contents.contains content = true

theorem CacheServer.Extends.refl (server : CacheServer) : server.Extends server :=
  ⟨rfl, fun _ => id⟩

theorem CacheServer.Extends.trans {server later latest : CacheServer} (h : latest.Extends later)
    (h' : later.Extends server) : latest.Extends server :=
  ⟨h.hosting_eq.trans h'.hosting_eq,
    fun content hheld => h.contains content (h'.contains content hheld)⟩

theorem CacheServer.Extends.hosts {server later : CacheServer} (h : later.Extends server)
    {content : ContentId} (hhosts : server.hosts content = true) : later.hosts content = true := by
  unfold CacheServer.hosts at hhosts ⊢
  rw [h.hosting_eq]
  split
  · rfl
  · next hhosting =>
      rw [hhosting] at hhosts
      exact h.contains content hhosts

namespace ServerPool

variable {pool pool' : ServerPool} {node : NodeId} {content : ContentId}

/-- The contents that the server at a node holds; none if there is no server. -/
def contentsAt (pool : ServerPool) (node : NodeId) : OrderedSet ContentId :=
  ((pool.get? node).map CacheServer.contents).getD ∅

theorem get?_put (pool : ServerPool) (node node' : NodeId) (server : CacheServer) :
    (pool.put node server).get? node' = if node' = node then some server else pool.get? node' :=
  OrderedMap.get?_insert pool.servers node node' server

theorem contentsAt_put (pool : ServerPool) (node node' : NodeId) (server : CacheServer) :
    (pool.put node server).contentsAt node' =
      if node' = node then server.contents else pool.contentsAt node' := by
  rw [contentsAt, get?_put]
  split <;> rfl

/-! ### Servers that become known -/

theorem contentsAt_ensure (pool : ServerPool) (node : NodeId) (address : Address)
    (node' : NodeId) : (pool.ensure node address).contentsAt node' = pool.contentsAt node' := by
  unfold ensure
  split
  · rfl
  · next hunknown =>
      rw [contentsAt_put]
      split
      · next heq =>
          rw [heq, contentsAt, hunknown]
          rfl
      · rfl

theorem hosts_ensure (pool : ServerPool) (node : NodeId) (address : Address) (node' : NodeId)
    (content : ContentId) :
    (pool.ensure node address).hosts node' content = pool.hosts node' content := by
  unfold ensure
  split
  · rfl
  · next hunknown =>
      rw [hosts, get?_put]
      split
      · next heq =>
          rw [heq, hosts, hunknown]
          rfl
      · rfl

/-! ### Servers that are chosen -/

theorem warm_of_known {address : Address} (h : (pool.get? node).isSome) :
    (pool.warm node address).2 = pool := by
  obtain ⟨server, hserver⟩ := Option.isSome_iff_exists.mp h
  rw [warm, hserver]

theorem isSome_get?_warm (pool : ServerPool) (node : NodeId) (address : Address)
    (node' : NodeId) :
    ((pool.warm node address).2.get? node').isSome ↔ node' = node ∨ (pool.get? node').isSome := by
  cases hserver : pool.get? node with
  | some server =>
      rw [warm_of_known (by rw [hserver]; rfl)]
      constructor
      · exact .inr
      · rintro (rfl | h)
        · rw [hserver]
          rfl
        · exact h
  | none =>
      have hstate : ∀ pool : ServerPool,
          ((pool.setState node .off).get? node').isSome ↔ (pool.get? node').isSome := by
        intro pool
        have hkeys : (pool.setState node .off).servers.keys = pool.servers.keys :=
          OrderedMap.keys_modify ..
        have hmem : node' ∈ (pool.setState node .off).servers.keys ↔
            ∃ server, (pool.setState node .off).get? node' = some server := OrderedMap.mem_keys_iff
        rw [hkeys, OrderedMap.mem_keys_iff] at hmem
        exact (Option.isSome_iff_exists.trans hmem.symm).trans Option.isSome_iff_exists.symm
      rw [warm, hserver]
      dsimp only
      rw [hstate, ensure, hserver]
      dsimp only
      rw [get?_put]
      by_cases heq : node' = node <;> simp [heq]

/-- Servers at some nodes were chosen. Where all of them were known before, nothing has changed. -/
structure Warmed (pool pool' : ServerPool) (nodes : List NodeId) : Prop where
  known : ∀ node, (pool'.get? node).isSome ↔ node ∈ nodes ∨ (pool.get? node).isSome
  same : (∀ node ∈ nodes, (pool.get? node).isSome) → pool' = pool

theorem Warmed.refl (pool : ServerPool) : pool.Warmed pool [] :=
  ⟨fun _ => by simp, fun _ => rfl⟩

theorem Warmed.warm_cons {nodes : List NodeId} {address : Address}
    (h : (pool.warm node address).2.Warmed pool' nodes) : pool.Warmed pool' (node :: nodes) := by
  constructor
  case known =>
    intro node'
    rw [h.known, isSome_get?_warm, List.mem_cons]
    tauto
  case same =>
    intro hknown
    have hwarm : (pool.warm node address).2 = pool :=
      warm_of_known (hknown node List.mem_cons_self)
    rw [hwarm] at h
    exact h.same fun node' hmem => hknown node' (List.mem_cons_of_mem _ hmem)

/-! ### Contents that are taken on -/

/-- A server takes a content on that it hosts already, or one that there is room for. -/
theorem take?_cases (h : pool.take? node content = some pool') :
    ∃ server, pool.get? node = some server ∧
      ((server.hosts content = true ∧ pool' = pool.put node server) ∨
        ∃ capacity, server.hosting = .upTo capacity ∧ server.contents.contains content = false ∧
          server.contents.size < capacity ∧
          pool' = pool.put node { server with contents := server.contents.insert content () }) := by
  obtain ⟨taken, htaken, rfl⟩ := Option.map_eq_some_iff.mp h
  obtain ⟨server, hserver, htake⟩ := Option.bind_eq_some_iff.mp htaken
  refine ⟨server, hserver, ?_⟩
  unfold CacheServer.take? at htake
  split at htake
  · next hhosts =>
      obtain rfl := Option.some.inj htake
      exact .inl ⟨hhosts, rfl⟩
  · next hlacking =>
      split at htake
      · cases htake
      · next hspare =>
          obtain rfl := Option.some.inj htake
          cases hhosting : server.hosting with
          | everything => exact absurd (by simp [CacheServer.hosts, hhosting]) hlacking
          | upTo capacity =>
              simp only [CacheServer.hosts, hhosting, Bool.not_eq_true] at hlacking
              simp only [CacheServer.spare?, hhosting, Option.some.injEq] at hspare
              exact .inr ⟨capacity, rfl, hlacking, by omega, rfl⟩

theorem hosts_eq {server : CacheServer} (h : pool.get? node = some server) (content : ContentId) :
    pool.hosts node content = server.hosts content := by
  rw [hosts, h, Option.any_some]

theorem contentsAt_eq {server : CacheServer} (h : pool.get? node = some server) :
    pool.contentsAt node = server.contents := by
  rw [contentsAt, h]
  rfl

/-- To put a server where it is already changes nothing. -/
theorem contentsAt_put_self {server : CacheServer} (h : pool.get? node = some server)
    (node' : NodeId) : (pool.put node server).contentsAt node' = pool.contentsAt node' := by
  rw [contentsAt_put]
  split
  · next heq => rw [heq, contentsAt_eq h]
  · rfl

/-- What was taken on is hosted. -/
theorem hosts_take? (h : pool.take? node content = some pool') :
    pool'.hosts node content = true := by
  obtain ⟨server, -, ⟨hhosts, rfl⟩ | ⟨capacity, hhosting, -, -, rfl⟩⟩ := take?_cases h
  · rw [hosts_eq ((get?_put ..).trans (if_pos rfl))]
    exact hhosts
  · rw [hosts_eq ((get?_put ..).trans (if_pos rfl)), CacheServer.hosts]
    simp [hhosting, OrderedMap.contains_insert]

/-- Nothing is taken on that is hosted already. -/
theorem contentsAt_take?_of_hosts (h : pool.take? node content = some pool')
    (hhosts : pool.hosts node content = true) (node' : NodeId) :
    pool'.contentsAt node' = pool.contentsAt node' := by
  obtain ⟨server, hserver, ⟨-, rfl⟩ | ⟨capacity, hhosting, hlacking, -, -⟩⟩ := take?_cases h
  · exact contentsAt_put_self hserver node'
  · rw [hosts_eq hserver, CacheServer.hosts, hhosting] at hhosts
    exact absurd (hhosts.symm.trans hlacking) (by simp)

/-- What was not hosted is held afterwards, and was not before. -/
theorem contentsAt_take?_ne (h : pool.take? node content = some pool')
    (hhosts : pool.hosts node content = false) :
    pool'.contentsAt node ≠ pool.contentsAt node := by
  obtain ⟨server, hserver, ⟨hhosting, -⟩ | ⟨capacity, -, hlacking, -, rfl⟩⟩ := take?_cases h
  · rw [hosts_eq hserver, hhosting] at hhosts
    cases hhosts
  · rw [contentsAt_put, if_pos rfl, contentsAt_eq hserver]
    intro heq
    rw [← heq, OrderedMap.contains_insert] at hlacking
    simp at hlacking

/-! ### What may be hosted -/

/-- What the server at a node may host; nothing if there is no server. -/
def hostingAt? (pool : ServerPool) (node : NodeId) : Option Hosting :=
  (pool.get? node).map CacheServer.hosting

/-- Whoever was known is known, and may host what it might before. -/
def Keeps (pool pool' : ServerPool) : Prop :=
  ∀ node hosting, pool.hostingAt? node = some hosting → pool'.hostingAt? node = some hosting

theorem hostingAt?_put (pool : ServerPool) (node node' : NodeId) (server : CacheServer) :
    (pool.put node server).hostingAt? node' =
      if node' = node then some server.hosting else pool.hostingAt? node' := by
  rw [hostingAt?, get?_put]
  split <;> rfl

theorem get?_setState (pool : ServerPool) (node node' : NodeId) (state : ServerState) :
    (pool.setState node state).get? node' =
      if node' = node then (pool.get? node').map ({ · with state }) else pool.get? node' :=
  OrderedMap.get?_modify ..

theorem get?_activate (pool : ServerPool) (node : NodeId) :
    pool.activate.2.get? node = (pool.get? node).map ({ · with state := .on }) :=
  OrderedMap.get?_map ..

theorem hostingAt?_setState (pool : ServerPool) (node node' : NodeId) (state : ServerState) :
    (pool.setState node state).hostingAt? node' = pool.hostingAt? node' := by
  rw [hostingAt?, get?_setState]
  split
  · rw [Option.map_map]
    rfl
  · rfl

theorem hostingAt?_activate (pool : ServerPool) (node : NodeId) :
    pool.activate.2.hostingAt? node = pool.hostingAt? node := by
  rw [hostingAt?, get?_activate, Option.map_map]
  rfl

/-- A server that may host everything does. -/
theorem hosts_of_everything (h : pool.hostingAt? node = some .everything) (content : ContentId) :
    pool.hosts node content = true := by
  obtain ⟨server, hserver, hhosting⟩ := Option.map_eq_some_iff.mp h
  simp [hosts, hserver, CacheServer.hosts, hhosting]

/-- There are more contents than a server with a limit holds. -/
theorem exists_not_hosts {capacity : Nat} (h : pool.hostingAt? node = some (.upTo capacity)) :
    ∃ content, pool.hosts node content = false := by
  obtain ⟨server, hserver, hhosting⟩ := Option.map_eq_some_iff.mp h
  refine ⟨⟨(server.contents.keys.map Id.index).sum + 1⟩, ?_⟩
  rw [hosts, hserver, Option.any_some, CacheServer.hosts, hhosting]
  refine Bool.eq_false_iff.mpr fun hcontains => ?_
  obtain ⟨value, hvalue⟩ := Option.isSome_iff_exists.mp hcontains
  have hmem := List.mem_map_of_mem (f := Id.index) (OrderedMap.mem_keys_iff.mpr ⟨value, hvalue⟩)
  exact Nat.not_succ_le_self _ (List.single_le_sum (fun _ _ => Nat.zero_le _) _ hmem)

/-- Only a server with a limit that is reached refuses a content, and only one that it lacks. -/
theorem take?_eq_none_iff {hosting : Hosting} (h : pool.hostingAt? node = some hosting) :
    pool.take? node content = none ↔
      ∃ capacity, hosting = .upTo capacity ∧ pool.hosts node content = false ∧
        capacity ≤ (pool.contentsAt node).size := by
  obtain ⟨server, hserver, rfl⟩ := Option.map_eq_some_iff.mp h
  have htake : pool.take? node content = none ↔ server.take? content = none := by
    simp [take?, hserver]
  have hhosts : pool.hosts node content = server.hosts content := by simp [hosts, hserver]
  have hcontents : pool.contentsAt node = server.contents := by simp [contentsAt, hserver]
  rw [htake, hhosts, hcontents, CacheServer.take?]
  cases hhosting : server.hosting with
  | everything => simp [CacheServer.hosts, hhosting]
  | upTo capacity =>
      have hfull : server.spare? = some 0 ↔ capacity ≤ server.contents.size := by
        simp [CacheServer.spare?, hhosting, Nat.sub_eq_zero_iff_le]
      cases server.hosts content <;> simp [hfull]

/-! ### Servers that grow -/

/-- Whoever was known is known, may host what it might before, and holds what it held. -/
def Grows (pool pool' : ServerPool) : Prop :=
  ∀ node server, pool.get? node = some server →
    ∃ later, pool'.get? node = some later ∧ later.Extends server

theorem Grows.refl (pool : ServerPool) : pool.Grows pool :=
  fun _ server hserver => ⟨server, hserver, .refl server⟩

theorem Grows.trans {pool'' : ServerPool} (h : pool.Grows pool') (h' : pool'.Grows pool'') :
    pool.Grows pool'' := by
  intro node server hserver
  obtain ⟨later, hlater, hextends⟩ := h node server hserver
  obtain ⟨latest, hlatest, hextends'⟩ := h' node later hlater
  exact ⟨latest, hlatest, hextends'.trans hextends⟩

theorem Grows.keeps (h : pool.Grows pool') : pool.Keeps pool' := by
  intro node hosting hhosting
  obtain ⟨server, hserver, rfl⟩ := Option.map_eq_some_iff.mp hhosting
  obtain ⟨later, hlater, hextends⟩ := h node server hserver
  rw [hostingAt?, hlater, ← hextends.hosting_eq]
  rfl

theorem Grows.hosts (h : pool.Grows pool') (hhosts : pool.hosts node content = true) :
    pool'.hosts node content = true := by
  cases hserver : pool.get? node with
  | none =>
      rw [ServerPool.hosts, hserver] at hhosts
      cases hhosts
  | some server =>
      obtain ⟨later, hlater, hextends⟩ := h node server hserver
      rw [hosts_eq hserver] at hhosts
      rw [hosts_eq hlater]
      exact hextends.hosts hhosts

theorem grows_put {server : CacheServer}
    (h : ∀ before, pool.get? node = some before → server.Extends before) :
    pool.Grows (pool.put node server) := by
  intro node' before hbefore
  rw [get?_put]
  split
  · next heq => exact ⟨server, rfl, h before (heq ▸ hbefore)⟩
  · exact ⟨before, hbefore, .refl before⟩

theorem grows_ensure (pool : ServerPool) (node : NodeId) (address : Address) :
    pool.Grows (pool.ensure node address) := by
  unfold ensure
  split
  · exact .refl pool
  · next hunknown =>
      refine grows_put fun before hbefore => ?_
      rw [hunknown] at hbefore
      cases hbefore

theorem grows_setState (pool : ServerPool) (node : NodeId) (state : ServerState) :
    pool.Grows (pool.setState node state) := by
  intro node' server hserver
  rw [get?_setState, hserver]
  split
  · exact ⟨_, rfl, rfl, fun _ => id⟩
  · exact ⟨server, rfl, .refl server⟩

theorem grows_activate (pool : ServerPool) : pool.Grows pool.activate.2 := by
  intro node server hserver
  rw [get?_activate, hserver]
  exact ⟨_, rfl, rfl, fun _ => id⟩

theorem grows_take? (h : pool.take? node content = some pool') : pool.Grows pool' := by
  obtain ⟨server, hserver, hcases⟩ := take?_cases h
  have hput : ∀ taken : CacheServer, taken.Extends server → pool.Grows (pool.put node taken) := by
    intro taken htaken
    refine grows_put fun before hbefore => ?_
    obtain rfl : server = before := Option.some.inj (hserver.symm.trans hbefore)
    exact htaken
  rcases hcases with ⟨-, rfl⟩ | ⟨capacity, -, -, -, rfl⟩
  · exact hput server (.refl server)
  · refine hput _ ⟨rfl, fun content' hheld => ?_⟩
    simp [OrderedMap.contains_insert, hheld]

/-! ### Room -/

/-- What the server at a node may host, or a server may that becomes known there. -/
def allowance (pool : ServerPool) (node : NodeId) : Hosting :=
  (pool.hostingAt? node).getD (.upTo pool.defaultCapacity)

theorem allowance_eq {server : CacheServer} (h : pool.get? node = some server) :
    pool.allowance node = server.hosting := by
  rw [allowance, hostingAt?, h]
  rfl

theorem allowance_ensure (pool : ServerPool) (node : NodeId) (address : Address) (node' : NodeId) :
    (pool.ensure node address).allowance node' = pool.allowance node' := by
  unfold ensure
  split
  · rfl
  · next hunknown =>
      rw [allowance, hostingAt?_put]
      split
      · next heq =>
          rw [heq, allowance, hostingAt?, hunknown]
          rfl
      · rfl

theorem allowance_take? (h : pool.take? node content = some pool') (node' : NodeId) :
    pool'.allowance node' = pool.allowance node' := by
  obtain ⟨server, hserver, hcases⟩ := take?_cases h
  have hput : ∀ taken : CacheServer, taken.hosting = server.hosting →
      (pool.put node taken).allowance node' = pool.allowance node' := by
    intro taken htaken
    rw [allowance, hostingAt?_put]
    split
    · next heq =>
        rw [heq, allowance, hostingAt?, hserver, htaken]
        rfl
    · rfl
  rcases hcases with ⟨-, rfl⟩ | ⟨capacity, -, -, -, rfl⟩ <;> exact hput _ rfl

/-- A pool that has come out of another: its servers may host what they might from the first, and
none holds more than it may, unless it did so from the first. -/
structure Within (first pool : ServerPool) : Prop where
  allowance_eq : ∀ node, pool.allowance node = first.allowance node
  size_le : ∀ node capacity, first.allowance node = .upTo capacity →
    (pool.contentsAt node).size ≤ max capacity (first.contentsAt node).size

theorem Within.refl (pool : ServerPool) : pool.Within pool :=
  ⟨fun _ => rfl, fun _ _ _ => Nat.le_max_right ..⟩

variable {first : ServerPool}

/-- Only the allowances and the contents matter. -/
theorem Within.of_same (h : first.Within pool)
    (hallowance : ∀ node, pool'.allowance node = pool.allowance node)
    (hcontents : ∀ node, pool'.contentsAt node = pool.contentsAt node) : first.Within pool' :=
  ⟨fun node => (hallowance node).trans (h.allowance_eq node), fun node capacity hcapacity =>
    hcontents node ▸ h.size_le node capacity hcapacity⟩

theorem Within.ensure (h : first.Within pool) (node : NodeId) (address : Address) :
    first.Within (pool.ensure node address) :=
  h.of_same (allowance_ensure pool node address) (contentsAt_ensure pool node address)

theorem Within.setState (h : first.Within pool) (node : NodeId) (state : ServerState) :
    first.Within (pool.setState node state) := by
  refine h.of_same (fun node' => ?_) fun node' => ?_
  · rw [allowance, hostingAt?_setState]
    rfl
  · rw [contentsAt, get?_setState]
    split
    · rw [Option.map_map]
      rfl
    · rfl

theorem Within.activate (h : first.Within pool) : first.Within pool.activate.2 := by
  refine h.of_same (fun node => ?_) fun node => ?_
  · rw [allowance, hostingAt?_activate]
    rfl
  · rw [contentsAt, get?_activate, Option.map_map]
    rfl

/-- There was room for what is taken on. -/
theorem Within.take? (h : first.Within pool) (htake : pool.take? node content = some pool') :
    first.Within pool' := by
  have hallowance := allowance_take? htake
  obtain ⟨server, hserver, ⟨-, rfl⟩ | ⟨capacity, hhosting, -, hroom, rfl⟩⟩ := take?_cases htake
  · exact h.of_same hallowance (contentsAt_put_self hserver)
  · refine ⟨fun node' => (hallowance node').trans (h.allowance_eq node'), ?_⟩
    intro node' capacity' hcapacity
    rw [contentsAt_put]
    split
    · next heq =>
        rw [heq, ← h.allowance_eq, ServerPool.allowance_eq hserver, hhosting] at hcapacity
        obtain rfl := Hosting.upTo.inj hcapacity
        have hsize := OrderedMap.size_insert_le server.contents content ()
        exact Nat.le_max_left .. |>.trans' (hsize.trans hroom)
    · exact h.size_le node' capacity' hcapacity

/-! ### What is switched on -/

/-- No server waits to be switched on. -/
def AllOn (pool : ServerPool) : Prop :=
  ∀ node server, pool.get? node = some server → server.state = .on

theorem AllOn.put (h : pool.AllOn) {server : CacheServer} (hon : server.state = .on) :
    (pool.put node server).AllOn := by
  intro node' server' hserver
  rw [get?_put] at hserver
  split at hserver
  · obtain rfl := Option.some.inj hserver
    exact hon
  · exact h node' server' hserver

theorem AllOn.ensure (h : pool.AllOn) (node : NodeId) (address : Address) :
    (pool.ensure node address).AllOn := by
  unfold ServerPool.ensure
  split
  · exact h
  · exact h.put rfl

theorem AllOn.take? (h : pool.AllOn) (htake : pool.take? node content = some pool') :
    pool'.AllOn := by
  obtain ⟨server, hserver, ⟨-, rfl⟩ | ⟨capacity, -, -, -, rfl⟩⟩ := take?_cases htake <;>
    exact h.put (h node server hserver)

theorem allOn_activate (pool : ServerPool) : pool.activate.2.AllOn := by
  intro node server hserver
  rw [get?_activate] at hserver
  obtain ⟨before, -, rfl⟩ := Option.map_eq_some_iff.mp hserver
  rfl

/-- Where all servers are on there is nothing to switch. -/
theorem AllOn.activate_eq (h : pool.AllOn) : pool.activate = ([], pool) := by
  have hentries : ∀ entry ∈ pool.servers.entries, entry.2.state = .on := fun entry hentry =>
    h entry.1 entry.2 (OrderedMap.mem_entries_iff.mp hentry)
  have hnone : pool.servers.entries.filter (·.2.state ≠ .on) = [] :=
    List.filter_eq_nil_iff.mpr fun entry hentry => by simp [hentries entry hentry]
  have hsame : (pool.servers.map fun _ server => { server with state := .on }) = pool.servers := by
    refine OrderedMap.ext ((List.map_congr_left fun entry hentry => ?_).trans (List.map_id _))
    exact Prod.ext rfl (by rw [← hentries entry hentry]; rfl)
  rw [ServerPool.activate, hnone, hsame]
  rfl

end ServerPool

end StreamPlacement
