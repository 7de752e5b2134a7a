import StreamLayers.Store

/-!
Trees of files, and how a path is followed through them.
-/

namespace StreamLayers

inductive Entry where
  | file (contents : Bytes)
  | directory
  /-- A file that is always empty and forgets what is written to it. -/
  | void
  deriving DecidableEq, Repr

/-- A place: the names that lead to it from the root. -/
abbrev Place := List String

/-- Files and directories by place, and the directory where relative paths start. -/
structure Files where
  entries : List (Place × Entry) := []
  home : Place := []
  deriving Repr

namespace Files

def notADirectory : OsError := ⟨.notADirectory, "Not a directory (os error 20)"⟩

def isADirectory : OsError := ⟨.isADirectory, "Is a directory (os error 21)"⟩

def nameTooLong : OsError := ⟨.invalidFilename, "File name too long (os error 36)"⟩

def nameLimit : Nat := 255

def pathLimit : Nat := 4095

/-- What is at a place. The root is always there. -/
def at? (f : Files) : Place → Option Entry
  | [] => some .directory
  | place => f.entries.lookup place

def put (f : Files) (place : Place) (e : Entry) : Files :=
  { f with entries := (place, e) :: f.entries.filter (·.1 ≠ place) }

/-- Puts an entry at a place after the directories above it. -/
def putBelow (f : Files) (place : Place) (e : Entry) : Files :=
  let above := ((List.range place.length).map place.take).filter fun p => (f.at? p).isNone
  (above.foldl (fun f p => f.put p .directory) f).put place e

def goTo (f : Files) (place : Place) (name : String) : Except OsError Place :=
  match f.at? place with
  | none => .error noSuchFile
  | some .directory =>
    if name = "" ∨ name = "." then .ok place
    else if name = ".." then .ok place.dropLast
    else if nameLimit < name.utf8ByteSize then .error nameTooLong
    else if (f.at? (place ++ [name])).isSome then .ok (place ++ [name])
    else .error noSuchFile
  | some _ => .error notADirectory

def origin (f : Files) (path : String) : Place := if path.startsWith "/" then [] else f.home

/-- The names in a path, if it can be followed at all. -/
def names (path : String) : Except OsError (List String) :=
  if path.isEmpty then .error noSuchFile
  else if pathLimit < path.utf8ByteSize then .error nameTooLong
  else .ok (path.splitOn "/")

def resolve (f : Files) (path : String) : Except OsError Place := do
  (← names path).foldlM f.goTo (f.origin path)

def find (f : Files) (path : String) : Except OsError Entry := do
  let place ← f.resolve path
  match f.at? place with
  | some e => .ok e
  | none => .error noSuchFile

/-- The place where the file of a path is or could be created. A path that can only be that of a
directory has none. -/
def fileFor (f : Files) (path : String) : Except OsError Place := do
  let names ← names path
  let body := (names.reverse.dropWhile String.isEmpty).reverse
  match body.getLast? with
  | none => .error isADirectory
  | some last =>
    let relative := last = "." || last = ".."
    let above ← (if relative then body else body.dropLast).foldlM f.goTo (f.origin path)
    let above ← f.goTo above "."
    if relative || body.length < names.length || f.at? (above ++ [last]) = some .directory then
      .error isADirectory
    else if nameLimit < last.utf8ByteSize then .error nameTooLong
    else .ok (above ++ [last])

/-- Writes a file at a place, which keeps nothing of what was there. -/
def write (f : Files) (place : Place) (contents : Bytes) : Files :=
  if f.at? place = some .void then f else f.put place (.file contents)

end Files

end StreamLayers
