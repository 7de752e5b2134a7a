import StreamLayers.Scenario.Directories
import StreamLayers.Store

/-!
Scenarios on a single store: a script of operations and what each of them answers.
-/

namespace StreamLayers

structure StoreScenario where
  store : Store
  directories : Directories := .initial

namespace StoreScenario

inductive Step where
  | put (data : Bytes)
  | get (n : Nat)
  | seek (target : Nat)
  | release
  | makeDirectory (name : String)
  | removeDirectory (name : String)
  deriving Repr

inductive Reply where
  | done
  | got (data : Bytes)
  | directory (worked : Bool)
  | failed (e : Fault)
  deriving Repr

private def ofUnit : Except Fault Unit → Reply
  | .ok () => .done
  | .error e => .failed e

def step (s : StoreScenario) : Step → Reply × StoreScenario
  | .put data => let (r, store) := s.store.put data; (ofUnit r, { s with store })
  | .get n => let (data, store) := s.store.get n; (.got data, { s with store })
  | .seek target => let (r, store) := s.store.seek target; (ofUnit r, { s with store })
  | .release => let (r, store) := s.store.release; (ofUnit r, { s with store })
  | .makeDirectory name =>
    let (worked, directories) := s.directories.make name
    (.directory worked, ⟨if worked then s.store.directoryMade name else s.store, directories⟩)
  | .removeDirectory name =>
    let (worked, directories) := s.directories.remove name
    (.directory worked, ⟨if worked then s.store.directoryRemoved name else s.store, directories⟩)

/-- How many spill files a directory holds, if it exists. -/
def files (s : StoreScenario) (name : String) : Option Nat :=
  if s.directories.has name then some (s.store.filesIn name) else none

end StoreScenario

end StreamLayers
