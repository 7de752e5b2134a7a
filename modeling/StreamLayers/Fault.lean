/-!
What can go wrong in a stream of layers: failures of the system underneath, misuse of a layer,
failures of producers and sinks, and settings that make no sense. A fault is a cause; its wording
is `Fault.message`.
-/

namespace StreamLayers

/-- The classes of failure that the operating system distinguishes. -/
inductive OsErrorKind where
  | brokenPipe
  | interrupted
  | unexpectedEof
  | permissionDenied
  | notFound
  | wouldBlock
  | timedOut
  | invalidData
  | invalidInput
  | writeZero
  | isADirectory
  | notADirectory
  | invalidFilename
  | other
  deriving DecidableEq, Repr

def OsErrorKind.text : OsErrorKind → String
  | .brokenPipe => "broken pipe"
  | .interrupted => "operation interrupted"
  | .unexpectedEof => "unexpected end of file"
  | .permissionDenied => "permission denied"
  | .notFound => "entity not found"
  | .wouldBlock => "operation would block"
  | .timedOut => "timed out"
  | .invalidData => "invalid data"
  | .invalidInput => "invalid input parameter"
  | .writeZero => "write zero"
  | .isADirectory => "is a directory"
  | .notADirectory => "not a directory"
  | .invalidFilename => "invalid filename"
  | .other => "other error"

structure OsError where
  kind : OsErrorKind
  text : String
  deriving DecidableEq, Repr

def OsErrorKind.plain (k : OsErrorKind) : OsError := ⟨k, k.text⟩

/-- Which side of a stream an input or output failure hit. -/
inductive IoKind where
  | source
  | sink
  | spill
  | brokenPipe
  | other
  deriving DecidableEq, Repr

def IoKind.text : IoKind → String
  | .source => "Source read failed"
  | .sink => "Sink write failed"
  | .spill => "Spill file error"
  | .brokenPipe => "Broken pipe"
  | .other => "I/O error"

/-- An input or output failure with what is known about its place. -/
structure IoFault where
  kind : IoKind
  layer : Option String := none
  path : Option String := none
  cause : Option OsError := none
  deriving DecidableEq, Repr

namespace IoFault

def readFailed (layer : String) (e : OsError) : IoFault :=
  { kind := .source, layer := some layer, cause := some e }

def writeFailed (layer : String) (e : OsError) : IoFault :=
  { kind := .sink, layer := some layer, cause := some e }

def spillFailed (path : Option String) (e : OsError) : IoFault :=
  { kind := .spill, layer := some "store", path := path, cause := some e }

def brokenPipe (layer : String) : IoFault :=
  { kind := .brokenPipe, layer := some layer }

/-- A system failure seen by no layer in particular. -/
def ofOs (e : OsError) : IoFault :=
  { kind := if e.kind = .brokenPipe then .brokenPipe else .other, cause := some e }

def message (f : IoFault) : String :=
  f.kind.text
    ++ (f.layer.map (" in " ++ ·)).getD ""
    ++ (f.path.map (fun p => " (" ++ p ++ ")")).getD ""
    ++ (f.cause.map (fun e => ": " ++ e.text)).getD ""

end IoFault

/-- A caller broke the contract of a layer; no resource failed. -/
inductive Misuse where
  | markUnsupported (layer : String)
  | resetWithoutMark
  | markInvalidated
  | markLimitExceeded (limit consumed : Nat)
  | seekBeforeCache (requested earliest : Nat)
  | seekBeyondWritten (requested written : Nat)
  | resultBeforeClose
  | resultTaken
  | streamClosed (layer : String)
  | unknownSink (index count : Nat)
  deriving DecidableEq, Repr

def Misuse.message : Misuse → String
  | .markUnsupported layer => s!"mark/reset not supported by {layer}"
  | .resetWithoutMark => "reset called but no mark is active"
  | .markInvalidated => "reset called after the mark was invalidated"
  | .markLimitExceeded limit consumed =>
    s!"reset failed: {consumed} bytes read past a mark limited to {limit} bytes"
  | .seekBeforeCache requested earliest =>
    s!"cannot seek to {requested}: earliest cached position is {earliest}"
  | .seekBeyondWritten requested written =>
    s!"cannot seek to {requested}: only {written} bytes written"
  | .resultBeforeClose => "producer result requested before the stream was closed"
  | .resultTaken => "producer result was already taken"
  | .streamClosed layer => s!"{layer} stream is closed"
  | .unknownSink index count => s!"no sink at index {index} (have {count})"

inductive Fault where
  | io (f : IoFault)
  | misuse (m : Misuse)
  /-- The producer of a pipe returned a fault. -/
  | producerFailed (cause : Fault)
  /-- The producer of a pipe ended without reporting anything. -/
  | producerVanished
  /-- The sink at `index` refused forwarded bytes. -/
  | sink (index : Nat) (cause : Fault)
  /-- A spill file could not be deleted. -/
  | spillLeft (path : String) (e : OsError)
  /-- The sink at `index` could not be closed. -/
  | sinkLeft (index : Nat) (cause : Fault)
  | invalidSettings (reason : String)
  | invalidParameter (parameter reason : String)
  deriving DecidableEq, Repr

namespace Fault

def message : Fault → String
  | .io f => f.message
  | .misuse m => m.message
  | .producerFailed cause => s!"Producer task failed: {cause.message}"
  | .producerVanished => "Producer task ended without producing a result"
  | .sink index cause => s!"Sink {index} failed: {cause.message}"
  | .spillLeft path e => s!"Failed to delete spill file {path}: {e.text}"
  | .sinkLeft index cause => s!"Failed to close sink {index}: {cause.message}"
  | .invalidSettings reason => s!"Invalid configuration: {reason}"
  | .invalidParameter parameter reason => s!"Invalid parameter '{parameter}': {reason}"

def closed (layer : String) : Fault := .misuse (.streamClosed layer)

/-- The wordings of the causes behind a fault, the nearest first. -/
def causes : Fault → List String
  | .io f => f.cause.toList.map OsError.text
  | .producerFailed cause => cause.message :: cause.causes
  | .sink _ cause => cause.message :: cause.causes
  | .spillLeft _ e => [e.text]
  | .sinkLeft _ cause => cause.message :: cause.causes
  | .misuse _ | .producerVanished | .invalidSettings _ | .invalidParameter _ _ => []

/-- Whether the fault says that a consumer went away. -/
def isBrokenPipe : Fault → Bool
  | .io f => f.kind == .brokenPipe
  | .sink _ cause => cause.isBrokenPipe
  | _ => false

def isMisuse : Fault → Bool
  | .misuse _ => true
  | _ => false

/-- What the producer of a pipe returned, if the fault carries that. -/
def producerCause? : Fault → Option Fault
  | .producerFailed cause => some cause
  | _ => none

def ofOs (e : OsError) : Fault := .io (.ofOs e)

/-- The fault as a system failure. One that came from the system is handed back as it was; a broken
pipe keeps its class; misuse and bad settings are invalid input. -/
def toOs : Fault → OsError
  | .io f =>
    match f.cause with
    | some e => e
    | none => ⟨if f.kind = .brokenPipe then .brokenPipe else .other, f.message⟩
  | .misuse m => ⟨.invalidInput, m.message⟩
  | .invalidSettings reason => ⟨.invalidInput, message (.invalidSettings reason)⟩
  | .invalidParameter parameter reason =>
    ⟨.invalidInput, message (.invalidParameter parameter reason)⟩
  | .producerFailed cause => ⟨.other, message (.producerFailed cause)⟩
  | .producerVanished => ⟨.other, message .producerVanished⟩
  | .sink index cause => ⟨.other, message (.sink index cause)⟩
  | .spillLeft path e => ⟨.other, message (.spillLeft path e)⟩
  | .sinkLeft index cause => ⟨.other, message (.sinkLeft index cause)⟩

end Fault

end StreamLayers
