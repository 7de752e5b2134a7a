import StreamLayers.Command.Input
import StreamLayers.Probe
import StreamLayers.Replay

/-!
The probe command: an input is read through a probe, once, or twice with a replay buffer below it.
-/

namespace StreamLayers.Command

structure Measurement where
  bytes : Nat
  reads : Nat
  /-- How often the input was read. -/
  passes : Nat
  /-- Whether the replay buffer had to use a file. -/
  spilled : Bool
  deriving DecidableEq, Repr

def measureSite : CallSite := ⟨"measure", 0, 0⟩

def measureOnce (input : Input) (chunk : Nat) : Except Failure Measurement :=
  let run := ByteSource.readBlocks (Probe.attach input measureSite) chunk
  match run.failure with
  | some e => .error ((Failure.ofFault e).during "Failed to read input")
  | none =>
    (run.state.source.finish false).map fun _ =>
      { bytes := run.state.bytes, reads := run.state.reads, passes := 1, spilled := false }

/-- What is left of a measurement with replay: its result, and the store of the replay buffer when
it was let go. -/
structure Replayed where
  result : Except Failure Measurement
  store : Option Store := none

def measurePasses (probe : Probe (Replay Input)) (chunk : Nat) :
    Except Failure Measurement × Probe (Replay Input) :=
  match probe.setMark .unlimited with
  | (.error e, probe) => (.error (.ofFault e), probe)
  | (.ok (), probe) =>
    let first := ByteSource.readBlocks probe chunk
    match first.failure with
    | some e => (.error ((Failure.ofFault e).during "First pass failed"), first.state)
    | none =>
      match first.state.reset with
      | (.error e, probe) => (.error (.ofFault e), probe)
      | (.ok (), probe) =>
        let second := ByteSource.readBlocks probe chunk
        match second.failure with
        | some e => (.error ((Failure.ofFault e).during "Replay pass failed"), second.state)
        | none =>
          let counted := second.state
          if first.data.length ≠ second.data.length then
            (.error ⟨s!"Replay returned {second.data.length} bytes, first pass read {first.data.length}",
              []⟩, counted)
          else
            match counted.close with
            | (.error e, probe) => (.error (.ofFault e), probe)
            | (.ok (), probe) =>
              (.ok { bytes := counted.bytes, reads := counted.reads, passes := 2
                     spilled := first.state.source.store.isSpilled }, probe)

/-- Reads `input` twice in blocks of `chunk` bytes, the second time from a replay buffer. -/
def measureTwice (input : Input) (c : Replay.Settings) (directoryExists : Bool) (chunk : Nat) :
    Replayed :=
  match Replay.ofSettings input c directoryExists with
  | .error e => { result := .error (.ofFault e) }
  | .ok buffer =>
    let (passes, probe) := measurePasses (Probe.attach buffer measureSite) chunk
    let result := do
      let m ← passes
      let _ ← probe.source.source.inner.finish false
      return m
    { result, store := some probe.source.store }

/-- Reads `input` through a probe, and once more from a replay buffer if `replay` holds. -/
def measure (input : Input) (replay : Bool) (c : Replay.Settings) (directoryExists : Bool)
    (chunk : Nat) : Except Failure Measurement :=
  if replay then (measureTwice input c directoryExists chunk).result else measureOnce input chunk

end StreamLayers.Command
