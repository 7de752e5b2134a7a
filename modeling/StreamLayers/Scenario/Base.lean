import StreamLayers.Pipe.Copy
import StreamLayers.Pipe.Script

/-!
The sources at the bottom of a scenario's stack.
-/

namespace StreamLayers

inductive BaseSource where
  | mock (s : MockSource)
  | reader (s : ReaderSource)
  | plain (s : PlainSource)
  /-- A pipe with a scripted producer. -/
  | pipe (s : Pipe Script (List Script.Note))
  /-- A pipe that a reader is copied into. -/
  | copy (s : Pipe Copy Nat)

namespace BaseSource

inductive Plan where
  | mock (s : MockSource)
  | reader (r : Reader)
  | plain (s : PlainSource)
  /-- A pipe on a given worker, or on the one that its settings ask for. -/
  | pipe (c : Pipe.Settings) (worker : Option Pipe.Strategy) (hasPool : Bool)
    (tasks : List Script.Task)
  | copy (c : Pipe.Settings) (hasPool : Bool) (r : Reader)

def Plan.start : Plan → Except Pipe.StartFailure BaseSource
  | .mock s => .ok (.mock s)
  | .reader r => .ok (.reader ⟨some r⟩)
  | .plain s => .ok (.plain s)
  | .pipe c (some worker) _ tasks => (Pipe.spawnOn c worker (Script.ofTasks tasks)).map .pipe
  | .pipe c none hasPool tasks => (Pipe.spawn c hasPool (Script.ofTasks tasks)).map .pipe
  | .copy c hasPool r => (Pipe.spawn c hasPool (Copy.ofReader r)).map .copy

def name : BaseSource → String
  | .mock s => ByteSource.name s
  | .reader s => ByteSource.name s
  | .plain s => ByteSource.name s
  | .pipe s => ByteSource.name s
  | .copy s => ByteSource.name s

def read : BaseSource → Nat → Except Fault Bytes × BaseSource
  | .mock s, n => let (r, s) := ByteSource.read s n; (r, .mock s)
  | .reader s, n => let (r, s) := ByteSource.read s n; (r, .reader s)
  | .plain s, n => let (r, s) := ByteSource.read s n; (r, .plain s)
  | .pipe s, n => let (r, s) := ByteSource.read s n; (r, .pipe s)
  | .copy s, n => let (r, s) := ByteSource.read s n; (r, .copy s)

def close : BaseSource → Except Fault Unit × BaseSource
  | .mock s => let (r, s) := ByteSource.close s; (r, .mock s)
  | .reader s => let (r, s) := ByteSource.close s; (r, .reader s)
  | .plain s => let (r, s) := ByteSource.close s; (r, .plain s)
  | .pipe s => let (r, s) := ByteSource.close s; (r, .pipe s)
  | .copy s => let (r, s) := ByteSource.close s; (r, .copy s)

/-- No base source can be marked. -/
instance : ByteSource BaseSource where
  name := name
  read := read
  close := close
  left
    | .mock s => ByteSource.left s
    | .reader s => ByteSource.left s
    | .plain s => ByteSource.left s
    | .pipe s => ByteSource.left s
    | .copy s => ByteSource.left s

inductive Outcome where
  | notes (notes : List Script.Note)
  | count (n : Nat)
  deriving Repr

def outcome? : BaseSource → Option (Except Fault Outcome × BaseSource)
  | .pipe s => let (r, s) := s.result; some (r.map .notes, .pipe s)
  | .copy s => let (r, s) := s.result; some (r.map .count, .copy s)
  | .mock _ | .reader _ | .plain _ => none

def awaitOutcome : BaseSource → BaseSource
  | .pipe s => .pipe s.awaitOutcome
  | .copy s => .copy s.awaitOutcome
  | .mock s => .mock s
  | .reader s => .reader s
  | .plain s => .plain s

end BaseSource

end StreamLayers
