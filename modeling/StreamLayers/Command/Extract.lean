import StreamLayers.Command.Input
import StreamLayers.Marker
import StreamLayers.Sink

/-!
The extract command: the regions of an input between two markers go to a sink.
-/

namespace StreamLayers.Command

variable {κ : Type} [ByteSink κ]

/-- Writes the regions of `input` to `sink` in blocks of `chunk` bytes, and closes both. It is no
failure of the input if the last region ends before it does. -/
def extract (input : Input) (sink : κ) (markers : Marker.Settings) (chunk : Nat) :
    Except Failure Nat × κ :=
  match Marker.ofSettings input markers with
  | .error e => (.error (.ofFault e), sink)
  | .ok extractor =>
    let run := pump extractor sink chunk
    match run.result with
    | .error e => (.error ((Failure.ofFault e).during "Failed to extract regions"), run.sink)
    | .ok copied =>
      match ByteSink.close run.sink with
      | (.error e, sink) => (.error ((Failure.ofFault e).during "Failed to close output"), sink)
      | (.ok (), sink) => ((run.source.source.finish run.source.isDone).map fun _ => copied, sink)

end StreamLayers.Command
