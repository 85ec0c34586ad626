import StreamPlacement.Audience.Group

/-!
The directory that viewers consult before every request: which address serves a group.
-/

namespace StreamPlacement

/-- The serving address of each group key. -/
abbrev Directory := OrderedMap GroupKey Address

end StreamPlacement
