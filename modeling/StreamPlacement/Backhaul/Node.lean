import StreamPlacement.Ident

/-!
Nodes of the backhaul and the roles they play.
-/

namespace StreamPlacement

/-- The role of a node. -/
inductive NodeKind
  | client
  | accessPoint
  | router
  | cacheServer
  deriving DecidableEq, Repr, Inhabited

/-- The tags that listings use for a role. -/
def NodeKind.tags : NodeKind → List String
  | .client => ["client", "station", "user"]
  | .accessPoint => ["ap", "accesspoint", "access-point"]
  | .router => ["router", "switch", "sw"]
  | .cacheServer => ["server", "cache", "cache-server", "cdn", "edge"]

/-- The role that a tag names. The case of ASCII letters does not matter. -/
def NodeKind.ofTag? (tag : String) : Option NodeKind :=
  let lowered := String.ofList (tag.toList.map Char.toLower)
  [NodeKind.client, .accessPoint, .router, .cacheServer].find? (·.tags.contains lowered)

/-- The tag that a role is written with. -/
def NodeKind.tag : NodeKind → String
  | .client => "client"
  | .accessPoint => "ap"
  | .router => "router"
  | .cacheServer => "server"

/-- What a viewer's player was set up with. It is handed on and never interpreted. -/
structure PlayerProfile where
  adaptationLogic : String
  startUpDelay : Float
  allowDownscale : Bool
  allowUpscale : Bool
  maxBuffered : Float
  deriving DecidableEq

/-- A node of the backhaul; rows for clients may carry a player. -/
structure Node where
  id : NodeId
  kind : NodeKind
  player : Option PlayerProfile := none
  deriving DecidableEq

def Node.isAccessPoint (node : Node) : Bool := node.kind == .accessPoint

end StreamPlacement
