import StreamPlacement.Backhaul.AddressBook

/-!
Cache servers and the pool of them. The origin hosts every content; any other server hosts as many
different contents as its capacity allows.
-/

namespace StreamPlacement

/-- The life of a server. -/
inductive ServerState
  | on
  /-- Chosen as a serving node, not switched on yet. -/
  | off
  | waiting
  | standBy
  deriving DecidableEq, Repr, Inhabited

/-- What a server may host. -/
inductive Hosting
  | everything
  | upTo (capacity : Nat)
  deriving DecidableEq, Repr

/-- A cache server at a node. -/
structure CacheServer where
  address : Address
  state : ServerState := .on
  hosting : Hosting
  contents : OrderedSet ContentId := ∅

namespace CacheServer

def hosts (server : CacheServer) (content : ContentId) : Bool :=
  match server.hosting with
  | .everything => true
  | .upTo _ => server.contents.contains content

/-- How many more contents fit; none where there is no limit. -/
def spare? (server : CacheServer) : Option Nat :=
  match server.hosting with
  | .everything => none
  | .upTo capacity => some (capacity - server.contents.size)

/-- Takes a content on, if there is room or it is there already. -/
def take? (server : CacheServer) (content : ContentId) : Option CacheServer :=
  if server.hosts content then some server
  else if server.spare? = some 0 then none
  else some { server with contents := server.contents.insert content () }

end CacheServer

/-- All known servers by node, and the capacity of those that were not declared. -/
structure ServerPool where
  defaultCapacity : Nat
  servers : OrderedMap NodeId CacheServer := ∅

namespace ServerPool

/-- A server with nothing on it. -/
def fresh (pool : ServerPool) (address : Address) : CacheServer :=
  { address, hosting := .upTo pool.defaultCapacity }

/-- The pool with `server` at `node`, in place of any other. -/
def put (pool : ServerPool) (node : NodeId) (server : CacheServer) : ServerPool :=
  { pool with servers := pool.servers.insert node server }

/-- Declares a server with the contents it starts with, even if they exceed its capacity. -/
def register (pool : ServerPool) (node : NodeId) (address : Address) (capacity : Nat)
    (contents : List ContentId) : ServerPool :=
  pool.put node
    { address, hosting := .upTo capacity, contents := .ofList (contents.map fun c => (c, ())) }

/-- Declares the origin. -/
def registerOrigin (pool : ServerPool) (node : NodeId) (address : Address) : ServerPool :=
  pool.put node { address, hosting := .everything }

def get? (pool : ServerPool) (node : NodeId) : Option CacheServer := pool.servers.get? node

/-- The pool with a server at `node`, a fresh one unless it is known. -/
def ensure (pool : ServerPool) (node : NodeId) (address : Address) : ServerPool :=
  match pool.get? node with
  | some _ => pool
  | none => pool.put node (pool.fresh address)

def setState (pool : ServerPool) (node : NodeId) (state : ServerState) : ServerPool :=
  { pool with servers := pool.servers.modify node ({ · with state }) }

/-- Marks a new server at `node` as chosen. A server that is known stays as it is. The answer says
whether the node was new. -/
def warm (pool : ServerPool) (node : NodeId) (address : Address) : Bool × ServerPool :=
  match pool.get? node with
  | some _ => (false, pool)
  | none => (true, (pool.ensure node address).setState node .off)

/-- Switches on every server that is not, and names their nodes. -/
def activate (pool : ServerPool) : List NodeId × ServerPool :=
  ((pool.servers.entries.filter (·.2.state ≠ .on)).map Prod.fst,
    { pool with servers := pool.servers.map fun _ server => { server with state := .on } })

def hosts (pool : ServerPool) (node : NodeId) (content : ContentId) : Bool :=
  (pool.get? node).any (·.hosts content)

/-- Makes the server at `node` take a content on; nothing where it cannot or is not known. -/
def take? (pool : ServerPool) (node : NodeId) (content : ContentId) : Option ServerPool :=
  ((pool.get? node).bind (·.take? content)).map (pool.put node)

def size (pool : ServerPool) : Nat := pool.servers.size

end ServerPool

end StreamPlacement
