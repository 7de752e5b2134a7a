import StreamLayers.Command.Failure
import StreamLayers.Pipe.Copy

/-!
The input of a command, which a worker reads ahead of it through a pipe.
-/

namespace StreamLayers

/-- An input: a pipe into which a worker copies a reader. -/
abbrev Input := Pipe Copy Nat

namespace Input

/-- Starts to read. A command has no pool of workers. -/
def start (c : Pipe.Settings) (reader : Reader) : Except Pipe.StartFailure Input :=
  Pipe.spawn c false (Copy.ofReader reader)

def refusal (e : Fault) : Failure := (Failure.ofFault e).during "Failed to start input producer"

/-- Closes the input and asks the worker how many bytes it read. A worker that finds its reader gone
was cut short by a command that wanted no more; that is no failure where it stopped early. -/
def finish (input : Input) (stoppedEarly : Bool) : Except Failure (Option Nat) :=
  match ByteSource.close input with
  | (.error e, _) => .error ((Failure.ofFault e).during "Failed to close input")
  | (.ok (), input) =>
    match input.result with
    | (.ok read, _) => .ok (some read)
    | (.error e, _) =>
      if stoppedEarly && e.producerCause?.any Fault.isBrokenPipe then .ok none
      else .error ((Failure.ofFault e).during "Failed to read input")

end Input

end StreamLayers
