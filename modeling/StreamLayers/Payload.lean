import StreamLayers.Bytes

/-!
Deterministic payloads for scenarios: counting bytes, pseudo-random bytes, marked regions.
-/

namespace StreamLayers.Payload

/-- The bytes 0, 1, …, 255, 0, 1, … up to length `n`. -/
def counting (n : Nat) : Bytes :=
  (List.range n).map UInt8.ofNat

/-- One step of the linear congruential generator behind `seeded`. -/
def scramble (state : UInt64) : UInt64 :=
  state * 6364136223846793005 + 1442695040888963407

private def seededLoop : Nat → UInt64 → List UInt8 → Bytes
  | 0, _, acc => acc.reverse
  | n + 1, state, acc =>
    let state := scramble state
    seededLoop n state ((state >>> 56).toUInt8 :: acc)

/-- The first `n` bytes of the pseudo-random sequence of `seed`: the top byte of each state. -/
def seeded (n : Nat) (seed : UInt64) : Bytes :=
  seededLoop n (seed ^^^ 0x9E3779B97F4A7C15) []

def region (start body stop : Bytes) : Bytes :=
  start ++ body ++ stop

end StreamLayers.Payload
