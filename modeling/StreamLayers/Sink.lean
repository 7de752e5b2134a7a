import StreamLayers.Source

/-!
Byte sinks, and pumping a source into a sink.
-/

namespace StreamLayers

/-- A sink of bytes with state `κ`. -/
class ByteSink (κ : Type) where
  /-- Takes all of the bytes or fails. -/
  writeAll : κ → Bytes → Except Fault Unit × κ
  /-- Passes on what the sink holds back. -/
  flush : κ → Except Fault Unit × κ := fun k => (.ok (), k)
  /-- Flushes and gives up what the sink holds. -/
  close : κ → Except Fault Unit × κ := flush

/-- The outcome of pumping: the number of bytes, and both ends afterwards. -/
structure Pumped (σ κ : Type) where
  result : Except Fault Nat
  source : σ
  sink : κ

variable {σ κ : Type} [ByteSource σ] [ByteSink κ]

def pumpFrom (chunk : Nat) : Nat → σ → κ → Nat → Pumped σ κ
  | fuel, s, k, total =>
    match ByteSource.read s chunk with
    | (.error e, s) => ⟨.error e, s, k⟩
    | (.ok [], s) =>
      match ByteSink.flush k with
      | (.error e, k) => ⟨.error e, s, k⟩
      | (.ok (), k) => ⟨.ok total, s, k⟩
    | (.ok (b :: d), s) =>
      match ByteSink.writeAll k (b :: d) with
      | (.error e, k) => ⟨.error e, s, k⟩
      | (.ok (), k) =>
        match fuel with
        | 0 => ⟨.ok (total + (d.length + 1)), s, k⟩
        | fuel + 1 => pumpFrom chunk fuel s k (total + (d.length + 1))

/-- Copies a source into a sink in blocks of at most `chunk` bytes, then flushes the sink. The
first failure on either side ends the copy. -/
def pump (s : σ) (k : κ) (chunk : Nat) : Pumped σ κ :=
  if chunk = 0 then
    ⟨.error (.invalidParameter "chunk_size" "must be greater than zero"), s, k⟩
  else pumpFrom chunk (ByteSource.left s) s k 0

end StreamLayers
