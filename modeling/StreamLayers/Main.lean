import StreamLayers.Command.Run

/-!
The program itself, on the files of the system that it is started on.
-/

namespace StreamLayers

/-- What a failed operation reports. Some numbers come with their sign turned. -/
def osErrorOf : IO.Error → OsError
  | .noFileOrDirectory .. => noSuchFile
  | .inappropriateType _ code _ =>
    if min code (0 - code) = 20 then Files.notADirectory else Files.isADirectory
  | .permissionDenied _ code _ =>
    ⟨.permissionDenied, s!"Permission denied (os error {min code (0 - code)})"⟩
  | .invalidArgument _ code _ =>
    if min code (0 - code) = 36 then Files.nameTooLong
    else ⟨.invalidInput, s!"Invalid argument (os error {min code (0 - code)})"⟩
  | e => ⟨.other, toString e⟩

/-- Everything that a stream still holds. -/
partial def readAll (stream : IO.FS.Stream) (before : ByteArray) : IO ByteArray := do
  let more ← stream.read 65536
  if more.isEmpty then return before else readAll stream (before ++ more)

instance : Host IO where
  find path := do
    try return .ok (.file (← IO.FS.readBinFile path).toList)
    catch e =>
      let e := osErrorOf e
      return if e = Files.isADirectory then .ok .directory else .error e
  create path := do
    try
      IO.FS.writeBinFile path ByteArray.empty
      return .ok ()
    catch e => return .error (osErrorOf e)
  save path contents := IO.FS.writeBinFile path ⟨contents.toArray⟩
  input := do return (← readAll (← IO.getStdin) ByteArray.empty).toList
  timed f := do
    let before ← IO.monoNanosNow
    let a := f ()
    let after ← IO.monoNanosNow
    return (a, .ofNat (after - before))

def environment : IO Environment := do
  let listed ← try IO.FS.readBinFile "/proc/self/environ" catch _ => pure ByteArray.empty
  let entries := ((String.fromUTF8? listed).getD "").splitOn "\x00"
  return entries.filterMap fun entry =>
    match entry.splitOn "=" with
    | name :: value :: rest => some (name, "=".intercalate (value :: rest))
    | _ => none

end StreamLayers

open StreamLayers in
def main (words : List String) : IO UInt32 := do
  let stdout ← IO.getStdout
  let surroundings : Surroundings :=
    { env := ← environment, account := "/root", isTerminal := ← stdout.isTty }
  let outcome ← Command.invoke surroundings words
  stdout.write ⟨outcome.output.toArray⟩
  stdout.flush
  outcome.messages.forM IO.eprintln
  return .ofNat outcome.code
