/-!
The directories of a scenario, which come and go while stores keep their spill files in them.
-/

namespace StreamLayers

structure Directories where
  present : List String
  deriving Repr

namespace Directories

def initial : Directories := ⟨["dir"]⟩

def has (d : Directories) (name : String) : Bool := d.present.contains name

/-- Whether spill files can be created in the directory, or in the system's own. -/
def admits (d : Directories) : Option String → Bool
  | some name => d.has name
  | none => true

/-- Makes a directory, unless it exists; answers whether that worked. -/
def make (d : Directories) (name : String) : Bool × Directories :=
  if d.has name then (false, d) else (true, ⟨name :: d.present⟩)

/-- Removes a directory with its contents, if it exists; answers whether that worked. -/
def remove (d : Directories) (name : String) : Bool × Directories :=
  if d.has name then (true, ⟨d.present.filter (· ≠ name)⟩) else (false, d)

end Directories

end StreamLayers
