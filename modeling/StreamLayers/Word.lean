/-!
The limits of 64-bit words.
-/

namespace StreamLayers

/-- The least number that a 64-bit word is too short for. -/
def wordLimit : Nat := 0x10000000000000000

/-- The least number that a signed 64-bit word is too short for. -/
def signedLimit : Nat := 0x8000000000000000

end StreamLayers
