import StreamLayers.Command.Input
import StreamLayers.Tee

/-!
The tee command: an input goes to the standard output and to any number of sinks beside it.
-/

namespace StreamLayers.Command

variable {κ τ : Type} [ByteSink κ] [ByteSink τ]

structure Duplicated (κ τ : Type) where
  result : Except Failure Nat
  outputs : List κ
  standard : τ

/-- Writes all of `input` to `outputs` and to `standard` in blocks of `chunk` bytes, and closes
everything, the outputs as the settings say. -/
def duplicate (input : Input) (outputs : List κ) (standard : τ) (c : Tee.Settings) (chunk : Nat) :
    Duplicated κ τ :=
  match Tee.ofSettings input outputs c with
  | .error e => ⟨.error (.ofFault e), outputs, standard⟩
  | .ok tee =>
    let run := pump tee standard chunk
    match run.result with
    | .error e =>
      ⟨.error ((Failure.ofFault e).during "Failed to duplicate input"),
        run.source.outlets.map Outlet.sink, run.sink⟩
    | .ok copied =>
      let (closing, tee) := run.source.close
      let outputs := tee.outlets.map Outlet.sink
      match closing with
      | .error e =>
        ⟨.error ((Failure.ofFault e).during "Failed to close outputs"), outputs, run.sink⟩
      | .ok () =>
        match ByteSink.close run.sink with
        | (.error e, standard) =>
          ⟨.error ((Failure.ofFault e).during "Failed to flush stdout"), outputs, standard⟩
        | (.ok (), standard) =>
          ⟨(tee.source.finish false).map fun _ => copied, outputs, standard⟩

end StreamLayers.Command
