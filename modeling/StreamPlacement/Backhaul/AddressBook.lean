import StreamPlacement.Backhaul.Topology
import StreamPlacement.Container.OrderedMap
import StreamPlacement.Container.Pairing

/-!
The addresses of the backhaul, derived from the topology alone.

Every link has a network of its own in link order, `10.a.b.0`: its source end takes host 1, its
destination end host 2, and host 255 stands for the link in the monitor. A node is reached at the
first address it was given; a node without links falls back to `172.16.a.b`. Every access point owns
a wireless network `192.168.j.0` in which its viewers are numbered from host 2.
-/

namespace StreamPlacement

/-- An address in dotted text. -/
abbrev Address := String

/-- Four numbers with dots between them. -/
def Address.dotted (a b c d : Nat) : Address :=
  Nat.repr a ++ "." ++ Nat.repr b ++ "." ++ Nat.repr c ++ "." ++ Nat.repr d

/-- The address of a host in the network of the link in position `k`. -/
def Address.onLink (k host : Nat) : Address := .dotted 10 (k / 256) (k % 256) host

/-- The address of a node without links. -/
def Address.isolated (node : NodeId) : Address :=
  .dotted 172 16 (node.index / 256) (node.index % 256)

/-- The address of a host in the wireless network of the access point in position `j`. -/
def Address.onAir (j host : Nat) : Address := .dotted 192 (168 + j / 256) (j % 256) host

/-- The host number that stands for a whole network. -/
def broadcastHost : Nat := 255

/-- Where a viewer is attached and how it is addressed. -/
structure Attachment where
  user : UserId
  accessPoint : NodeId
  address : Address
  /-- Shared by all viewers of the access point; the viewers' part of every group key. -/
  broadcast : Address
  deriving DecidableEq, Repr

/-- The wireless network of an access point: its position and the host number to hand out next. -/
structure WirelessNetwork where
  position : Nat
  nextHost : Nat := 2
  deriving DecidableEq, Repr

/-- The last host number that is handed out to a viewer. -/
def WirelessNetwork.lastHost : Nat := 254

/-- All addresses that were given out. -/
structure AddressBook where
  nodes : Pairing NodeId Address := {}
  links : Pairing Edge Address := {}
  networks : OrderedMap NodeId WirelessNetwork := ∅
  clients : Array Attachment := #[]

namespace AddressBook

/-! ### Viewers -/

/-- Attaches a new viewer to an access point. -/
def attach (book : AddressBook) (accessPoint : NodeId) : Except Fault (UserId × AddressBook) :=
  match book.networks.get? accessPoint with
  | none => .error (.topology (.notAccessPoint accessPoint))
  | some network =>
    if WirelessNetwork.lastHost < network.nextHost then
      .error (.topology (.addressesExhausted accessPoint))
    else
      let user : UserId := ⟨book.clients.size⟩
      let attachment : Attachment :=
        { user, accessPoint
          address := .onAir network.position network.nextHost
          broadcast := .onAir network.position broadcastHost }
      .ok (user,
        { book with
          networks :=
            book.networks.insert accessPoint { network with nextHost := network.nextHost + 1 }
          clients := book.clients.push attachment })

/-- Attaches `count` new viewers to one access point, up to the first that cannot be attached. The
answer holds the book with those attached before it. -/
def attachMany (accessPoint : NodeId) :
    Nat → AddressBook → AddressBook × Except Fault (List UserId)
  | 0, book => (book, .ok [])
  | count + 1, book =>
    match book.attach accessPoint with
    | .error fault => (book, .error fault)
    | .ok (user, book) =>
      let (book, rest) := attachMany accessPoint count book
      (book, rest.map (user :: ·))

/-- Attaches `count` new viewers to each of some access points in turn, up to the first that cannot
be attached. -/
def attachEach (count : Nat) :
    List NodeId → AddressBook → AddressBook × Except Fault (List UserId)
  | [], book => (book, .ok [])
  | accessPoint :: rest, book =>
    match attachMany accessPoint count book with
    | (book, .error fault) => (book, .error fault)
    | (book, .ok users) =>
      let (book, more) := attachEach count rest book
      (book, more.map (users ++ ·))

/-- Attaches `count` new viewers to every access point, in order of the node numbers. Room for the
numbers of all of them is asked for beforehand. -/
def populate (book : AddressBook) (count : Nat) : AddressBook × Except Fault (List UserId) :=
  match reserve (book.networks.size * count) 8 with
  | .error fault => (book, .error fault)
  | .ok () => attachEach count book.networks.keys book

/-! ### The addresses of a topology -/

variable {α : Type} [Quantity α]

/-- Gives the link in position `k`, and the ends of it that have no address yet, their addresses. -/
def addLink (book : AddressBook) (link : Link α) (k : Nat) : AddressBook :=
  { book with
    nodes := (book.nodes.join link.src (.onLink k 1)).join link.dst (.onLink k 2)
    links := book.links.join link.edge (.onLink k broadcastHost) }

/-- Gives a node without an address its own. -/
def addIsolated (book : AddressBook) (node : Node) : AddressBook :=
  if (book.nodes.right? node.id).isSome then book
  else { book with nodes := book.nodes.join node.id (.isolated node.id) }

/-- Attaches the viewer that a client node stands for to the first access point it is wired to, if
there is one. -/
def addClientNode (t : Topology α) (book : AddressBook) (node : Node) : Except Fault AddressBook :=
  match (t.neighbours node.id).find? book.networks.contains with
  | none => .ok book
  | some accessPoint => (book.attach accessPoint).map Prod.snd

/-- The addresses of a built topology. -/
def ofTopology (t : Topology α) : Except Fault AddressBook :=
  let wired := t.links.zipIdx.foldl (fun book (link, k) => book.addLink link k) {}
  let reachable := t.nodes.foldl addIsolated wired
  let accessPoints := (t.nodes.filter Node.isAccessPoint).zipIdx
  let book := { reachable with
    networks := .ofList (accessPoints.map fun (node, j) => (node.id, { position := j })) }
  (t.nodes.filter (·.kind == .client)).foldlM (addClientNode t) book

/-- The addresses of a built topology with `count` more viewers behind every access point. -/
def populated (t : Topology α) (count : Nat) : Except Fault AddressBook := do
  let book ← ofTopology t
  let (book, attached) := book.populate count
  let _ ← attached
  pure book

/-! ### Lookup -/

def client? (book : AddressBook) (user : UserId) : Option Attachment := book.clients[user.index]?

def accessPoints (book : AddressBook) : List NodeId := book.networks.keys

/-- The address that a node is reached at. -/
def nodeAddress (book : AddressBook) (node : NodeId) : Except Fault Address :=
  match book.nodes.right? node with
  | some address => .ok address
  | none => .error (.unknownNode node)

def nodeAt? (book : AddressBook) (address : Address) : Option NodeId := book.nodes.left? address

/-- The address of a link in its declared orientation. -/
def linkAddress? (book : AddressBook) (e : Edge) : Option Address := book.links.right? e

def linkAt? (book : AddressBook) (address : Address) : Option Edge := book.links.left? address

end AddressBook

end StreamPlacement
