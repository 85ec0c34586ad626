import StreamPlacement.Fault

/-!
Room in memory. A count that is taken as given may ask for more places than any memory has; that is
found out before the first of them is filled. Counts are multiplied as they are: a product that is
no word asks for more than any memory has, so it ends in the same breakdown.
-/

namespace StreamPlacement

/-- The number of bytes that no memory has. -/
def memoryEnd : Nat := Nat.pow 2 63

/-- Asks for some places of `bytes` bytes each. -/
def reserve (places bytes : Nat) : Except Fault Unit :=
  if memoryEnd ≤ places * bytes then .error (.breakdown .beyondMemory) else .ok ()

end StreamPlacement
