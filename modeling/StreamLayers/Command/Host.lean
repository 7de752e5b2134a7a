import StreamLayers.Command.Failure
import StreamLayers.Command.Files

/-!
What commands ask of the system that they run on, and a system that is nothing but its files.
-/

namespace StreamLayers

/-- A system to run commands on. -/
class Host (m : Type → Type) where
  /-- What is at a path. -/
  find : String → m (Except OsError Entry)
  /-- Creates an empty file or empties the one that is there. -/
  create : String → m (Except OsError Unit)
  /-- Writes a file that was created. -/
  save : String → Bytes → m Unit
  /-- Everything on the standard input. -/
  input : m Bytes
  /-- Evaluates something, and tells how many nanoseconds that took. -/
  timed {α : Type} : (Unit → α) → m (α × UInt64)

instance (ε : Type) (m : Type → Type) [Monad m] [Host m] : Host (ExceptT ε m) where
  find path := ExceptT.lift (Host.find path)
  create path := ExceptT.lift (Host.create path)
  save path contents := ExceptT.lift (Host.save path contents)
  input := ExceptT.lift Host.input
  timed f := ExceptT.lift (Host.timed f)

/-- Files, and what stands on the standard input. -/
structure Machine where
  files : Files := {}
  input : Bytes := []
  deriving Repr

namespace Machine

/-- Creates an empty file or empties the one that is there. -/
def create (path : String) (s : Machine) : Except OsError Unit × Machine :=
  match s.files.fileFor path with
  | .error e => (.error e, s)
  | .ok place => (.ok (), { s with files := s.files.write place [] })

def save (path : String) (contents : Bytes) (s : Machine) : Machine :=
  match s.files.fileFor path with
  | .error _ => s
  | .ok place => { s with files := s.files.write place contents }

instance : Host (StateM Machine) where
  find path := do return (← get).files.find path
  create path := modifyGet (create path)
  save path contents := modify (save path contents)
  input := do return (← get).input
  timed f := pure (f (), 0)

end Machine

structure Outcome where
  code : Nat := 0
  /-- What it wrote to the standard output. -/
  output : Bytes := []
  /-- The lines that it wrote to the standard error output. -/
  messages : List String := []
  deriving DecidableEq, Repr

namespace Outcome

def ofText (s : String) : Outcome := { output := Bytes.ofText (s ++ "\n") }

def ofResult {α : Type} (output : Bytes) : Except Failure α → Outcome
  | .ok _ => { output }
  | .error f => { code := 1, output, messages := f.lines }

end Outcome

end StreamLayers
