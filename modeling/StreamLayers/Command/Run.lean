import StreamLayers.Command.Arguments
import StreamLayers.Command.Duplicate
import StreamLayers.Command.Extract
import StreamLayers.Command.Host
import StreamLayers.Settings.Load
import StreamLayers.Text
import StreamLayers.Writer

/-!
Running what a command line asks for.
-/

namespace StreamLayers

/-- Why a program ends before its command has begun. -/
inductive Stop where
  | failed (f : Failure)
  /-- The program breaks down. -/
  | crashed
  deriving DecidableEq, Repr

def Stop.outcome : Stop → Outcome
  | .failed f => .ofResult [] (.error f : Except Failure Unit)
  | .crashed => { code := 101 }

def Settings.LoadFailure.toFailure : Settings.LoadFailure → Failure
  | .unreadable => ⟨"Failed to load configuration", []⟩
  | .invalid e => (Failure.ofFault e).during "Invalid configuration"

namespace Command

variable {m : Type → Type} [Monad m] [Host m]

/-- A sink that takes everything, and whose bytes go to a file or to the standard output in the
end. -/
def collector : WriterSink := { writer := {} }

def collected (k : WriterSink) : Bytes := k.writer.accepted.toList

/-- The settings in the file at a path and in environment variables. Where there is no file, the
path does not matter. -/
def loadSettings (path : String) (env : Environment) :
    ExceptT Stop m Settings := do
  let text ← match ← Host.find path with
    | .ok (.file contents) =>
      match String.fromUTF8? ⟨contents.toArray⟩ with
      | some text => pure (some text)
      | none => throw (.failed Settings.LoadFailure.unreadable.toFailure)
    | _ => pure none
  match Settings.load text env with
  | .ok c => return c
  | .error e => throw (.failed e.toFailure)

/-- A reader of what is at a path. A directory can be opened and not read. -/
def readerOf : Entry → Reader
  | .file contents => [.bytes contents]
  | .directory => [.fails Files.isADirectory]
  | .void => []

/-- Whether a path is one dash; a slash and names of the same place do not matter behind it. -/
def isDash (path : String) : Bool :=
  match path.splitOn "/" with
  | name :: rest => name = "-" && rest.all fun name => name.isEmpty || name = "."
  | [] => false

/-- Opens an input. One dash is the standard input. -/
def openInput (path : String) (c : Pipe.Settings) : ExceptT Stop m Input := do
  let reader ← if isDash path then pure [.bytes (← Host.input)] else
    match ← Host.find path with
    | .ok e => pure (readerOf e)
    | .error e => throw (.failed ((Failure.ofOs e).during s!"Failed to open {path}"))
  match Input.start c reader with
  | .ok input => return input
  | .error (.refused e) => throw (.failed (Input.refusal e))
  | .error .tooLarge => throw .crashed

def createOutput (path : String) : ExceptT Stop m Unit := do
  match ← Host.create path with
  | .ok () => return ()
  | .error e => throw (.failed ((Failure.ofOs e).during s!"Failed to create {path}"))

/-- Whether spill files can be created. No name at all is that of the directory at hand. -/
def canSpill (c : Replay.Settings) : m Bool := do
  match c.spillDir with
  | none => return true
  | some directory =>
    match ← Host.find (if directory.isEmpty then "." else directory) with
    | .ok .directory => return true
    | _ => return false

/-- The markers of a request, or else those of the settings. -/
def markersOf (c : Marker.Settings) (start stop : Option String) (single : Bool) :
    Except Failure Marker.Settings :=
  let markers : Marker.Settings :=
    { start := start.getD c.start, stop := stop.getD c.stop, singlePair := c.singlePair || single }
  if markers.start.isEmpty && markers.stop.isEmpty then
    .error ⟨"No markers given; pass --start and/or --stop", []⟩
  else .ok markers

def runExtract (c : Settings) (path : String) (markers : Marker.Settings)
    (output : Option String) : ExceptT Stop m Outcome := do
  let input ← openInput path c.pipe
  match output with
  | none =>
    let (result, sink) := extract input collector markers c.pipe.chunkSize
    return .ofResult (collected sink) result
  | some file =>
    createOutput file
    let (result, sink) := extract input collector markers c.pipe.chunkSize
    Host.save file (collected sink)
    return .ofResult [] result

/-- Duplicates an input. All outputs are created before any of it is copied. -/
def runTee (c : Settings) (path : String) (outputs : List String) (keepOpen : Bool) :
    ExceptT Stop m Outcome := do
  let input ← openInput path c.pipe
  outputs.forM createOutput
  let settings := { c.tee with closeSinks := c.tee.closeSinks && !keepOpen }
  let run := duplicate input (outputs.map fun _ => collector) collector settings c.pipe.chunkSize
  for (file, sink) in outputs.zip run.outputs do
    Host.save file (collected sink)
  return .ofResult (collected run.standard) run.result

def runProbe (c : Settings) (path : String) (replay : Bool) (format : OutputFormat)
    (styled : Bool) : ExceptT Stop m Outcome := do
  let input ← openInput path c.pipe
  let spills ← canSpill c.replay
  let (result, nanos) ← Host.timed fun _ =>
    measure input replay c.replay spills c.pipe.chunkSize
  match result with
  | .error f => throw (.failed f)
  | .ok measured => return .ofText ((Report.ofMeasurement path measured nanos).render styled format)

def showSettings (c : Settings) : OutputFormat → String
  | .json => Json.pretty c.toValue
  | .text | .toml => Toml.document c.toValue

def trimmed (s : String) : String :=
  String.ofList (Text.trimEnd s.toList)

def perform (s : Surroundings) (i : Invocation) : ExceptT Stop m Outcome := do
  let path := i.settingsFile.getD (Settings.defaultPath s)
  let styled := Style.wanted s
  match i.request with
  | .extract input start stop single output =>
    let c ← loadSettings path s.env
    match markersOf c.marker start stop single with
    | .error f => throw (.failed f)
    | .ok markers => runExtract c input markers output
  | .tee input outputs keepOpen => runTee (← loadSettings path s.env) input outputs keepOpen
  | .probe input replay format =>
    runProbe (← loadSettings path s.env) input replay format styled
  | .showSettings format =>
    return .ofText (trimmed (showSettings (← loadSettings path s.env) format))
  | .getSetting key =>
    let step := s!"Failed to read '{key}'"
    let value ← tryCatch (do
      let c ← loadSettings path s.env
      match c.lookup key with
      | .ok value => return value
      | .error e => throw (.failed ⟨e.message, []⟩)) fun
      | .failed f => throw (.failed (f.during step))
      | .crashed => throw .crashed
    return .ofText value
  | .settingsPath =>
    match ← Host.find path with
    | .ok _ => return .ofText path
    | .error _ => return .ofText (path ++ " " ++ Style.dim.paint styled "(not created)")

def run (s : Surroundings) (i : Invocation) : m Outcome := do
  let outcome ← match ← (perform s i).run with
    | .ok outcome => pure outcome
    | .error stop => pure stop.outcome
  let notes := if i.debug then ["Debug logging enabled"] else []
  return { outcome with messages := notes ++ outcome.messages }

def invoke (s : Surroundings) (words : List String) : m Outcome :=
  match Arguments.parse words with
  | .ok i => run s i
  | .error (.help level) => pure (.ofText level.usage)
  | .error .version => pure (.ofText "replaystream 0.1.0-alpha")
  | .error .misuse =>
    pure { code := 2, messages := ["error: unusable command line", "", "Try '--help'."] }

end Command

end StreamLayers
