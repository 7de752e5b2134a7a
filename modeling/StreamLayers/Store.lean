import StreamLayers.Fault
import StreamLayers.Log

/-!
Stores: append-only logs of bytes with a read cursor. `MemoryStore` holds its log in memory,
`ThresholdStore` moves it to a spill file once it outgrows a threshold.
-/

namespace StreamLayers

structure MemoryStore where
  log : Log := {}
  /-- The read cursor. -/
  cursor : Nat := 0
  deriving Repr

namespace MemoryStore

def put (s : MemoryStore) (data : Bytes) : MemoryStore :=
  { s with log := s.log.append data }

/-- At most `n` bytes from the cursor on; the cursor moves behind them. -/
def get (s : MemoryStore) (n : Nat) : Bytes × MemoryStore :=
  let data := s.log.slice s.cursor n
  (data, { s with cursor := s.cursor + data.length })

def seek (s : MemoryStore) (target : Nat) : Except Fault Unit × MemoryStore :=
  if s.log.size < target then
    (.error (.misuse (.seekBeyondWritten target s.log.size)), s)
  else (.ok (), { s with cursor := target })

end MemoryStore

structure SpillFile where
  contents : Log := {}
  /-- Whether the file can still be found in its directory. -/
  linked : Bool := true
  deriving Repr

/-- The failure to create or delete a file whose place is gone. -/
def noSuchFile : OsError := ⟨.notFound, "No such file or directory (os error 2)"⟩

/-- A log whose first part lives in a file. What memory holds never outgrows `threshold`; an append
that would make it do so moves it to the file first. -/
structure ThresholdStore where
  threshold : Nat
  /-- The directory for spill files; the system's own where none is named. -/
  directory : Option String := none
  /-- Whether the directory exists, so that files can be created in it. -/
  directoryExists : Bool := true
  file : Option SpillFile := none
  memory : Log := {}
  cursor : Nat := 0
  filesCreated : Nat := 0
  deriving Repr

namespace ThresholdStore

def spilled (s : ThresholdStore) : Log := (s.file.map SpillFile.contents).getD {}

def spillPosition (s : ThresholdStore) : Nat := s.spilled.size

/-- How many bytes were written since the last release. -/
def writePosition (s : ThresholdStore) : Nat := s.spillPosition + s.memory.size

def spillPath (s : ThresholdStore) : String :=
  (s.directory.getD "") ++ "/" ++ toString s.filesCreated ++ ".spill"

/-- Appends to the spill file, creating it if there is none. Only the creation can fail. -/
def appendToFile (s : ThresholdStore) (data : Bytes) : Except Fault Unit × ThresholdStore :=
  match s.file with
  | some f => (.ok (), { s with file := some { f with contents := f.contents.append data } })
  | none =>
    if s.directoryExists then
      (.ok (), { s with file := some { contents := ({} : Log).append data }, filesCreated := s.filesCreated + 1 })
    else (.error (.io (.spillFailed s.directory noSuchFile)), s)

/-- Moves what memory holds to the file. The memory is given up before the file is known to
exist. -/
def spillMemory (s : ThresholdStore) : Except Fault Unit × ThresholdStore :=
  if s.memory.size = 0 then (.ok (), s)
  else { s with memory := {} }.appendToFile s.memory.toList

def put (s : ThresholdStore) (data : Bytes) : Except Fault Unit × ThresholdStore :=
  if s.threshold < s.memory.size + data.length then
    match s.spillMemory with
    | (.error e, s) => (.error e, s)
    | (.ok (), s) =>
      if s.threshold < data.length then s.appendToFile data
      else (.ok (), { s with memory := s.memory.append data })
  else (.ok (), { s with memory := s.memory.append data })

/-- At most `n` bytes from the cursor on. A read that starts in the file ends with it. -/
def get (s : ThresholdStore) (n : Nat) : Bytes × ThresholdStore :=
  if s.writePosition ≤ s.cursor then ([], s)
  else
    let data :=
      if s.cursor < s.spillPosition then s.spilled.slice s.cursor n
      else s.memory.slice (s.cursor - s.spillPosition) n
    (data, { s with cursor := s.cursor + data.length })

def seek (s : ThresholdStore) (target : Nat) : Except Fault Unit × ThresholdStore :=
  if s.writePosition < target then
    (.error (.misuse (.seekBeyondWritten target s.writePosition)), s)
  else (.ok (), { s with cursor := target })

/-- Empties the log and deletes the file. The log is empty even if the deletion fails. -/
def release (s : ThresholdStore) : Except Fault Unit × ThresholdStore :=
  let empty := { s with file := none, memory := {}, cursor := 0 }
  match s.file with
  | some f => if f.linked then (.ok (), empty) else (.error (.spillLeft s.spillPath noSuchFile), empty)
  | none => (.ok (), empty)

def directoryMade (name : String) (s : ThresholdStore) : ThresholdStore :=
  if s.directory = some name then { s with directoryExists := true } else s

/-- The directory `name` was removed with all that was in it. An open file stays usable but can no
longer be found. -/
def directoryRemoved (name : String) (s : ThresholdStore) : ThresholdStore :=
  if s.directory = some name then
    { s with directoryExists := false, file := s.file.map ({ · with linked := false }) }
  else s

def filesIn (name : String) (s : ThresholdStore) : Nat :=
  match s.file with
  | some f => if s.directory = some name ∧ f.linked then 1 else 0
  | none => 0

end ThresholdStore

inductive Store where
  | memory (s : MemoryStore)
  | threshold (s : ThresholdStore)
  deriving Repr

namespace Store

/-- How many bytes a store keeps in memory unless told otherwise. -/
def defaultThreshold : Nat := 8 * 1024 * 1024

structure Settings where
  /-- Bytes kept in memory before spilling; `none` never spills. -/
  threshold : Option Nat := some defaultThreshold
  spillDir : Option String := none
  deriving DecidableEq, Repr

/-- The empty store of the given settings; `directoryExists` tells whether files can be created in
the spill directory. -/
def Settings.build (c : Settings) (directoryExists : Bool) : Store :=
  match c.threshold with
  | some t => .threshold { threshold := t, directory := c.spillDir, directoryExists }
  | none => .memory {}

def put : Store → Bytes → Except Fault Unit × Store
  | .memory s, data => (.ok (), .memory (s.put data))
  | .threshold s, data => let (r, s) := s.put data; (r, .threshold s)

def get : Store → Nat → Bytes × Store
  | .memory s, n => let (d, s) := s.get n; (d, .memory s)
  | .threshold s, n => let (d, s) := s.get n; (d, .threshold s)

def seek : Store → Nat → Except Fault Unit × Store
  | .memory s, target => let (r, s) := s.seek target; (r, .memory s)
  | .threshold s, target => let (r, s) := s.seek target; (r, .threshold s)

def release : Store → Except Fault Unit × Store
  | .memory _ => (.ok (), .memory {})
  | .threshold s => let (r, s) := s.release; (r, .threshold s)

def readPosition : Store → Nat
  | .memory s => s.cursor
  | .threshold s => s.cursor

def writePosition : Store → Nat
  | .memory s => s.log.size
  | .threshold s => s.writePosition

def isSpilled : Store → Bool
  | .memory _ => false
  | .threshold s => s.file.isSome

def log : Store → Bytes
  | .memory s => s.log.toList
  | .threshold s => s.spilled.toList ++ s.memory.toList

def directoryMade (name : String) : Store → Store
  | .memory s => .memory s
  | .threshold s => .threshold (s.directoryMade name)

def directoryRemoved (name : String) : Store → Store
  | .memory s => .memory s
  | .threshold s => .threshold (s.directoryRemoved name)

def filesIn (name : String) : Store → Nat
  | .memory _ => 0
  | .threshold s => s.filesIn name

end Store

end StreamLayers
