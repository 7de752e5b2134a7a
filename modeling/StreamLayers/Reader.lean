import StreamLayers.Source

/-!
System readers given by a script, and the two sources over them.
-/

namespace StreamLayers

inductive ReaderItem where
  | bytes (data : Bytes)
  /-- One read that answers with nothing. -/
  | nothing
  /-- One read that fails. -/
  | fails (e : OsError)
  deriving DecidableEq, Repr

/-- A reader, given by what its reads meet in turn. After the script all reads answer with
nothing. -/
abbrev Reader := List ReaderItem

namespace Reader

/-- One system read of at most `n` bytes; it never goes past the current run of bytes. -/
def read : Reader → Nat → Except OsError Bytes × Reader
  | [], _ => (.ok [], [])
  | .bytes [] :: rest, n => read rest n
  | .bytes (b :: d) :: rest, n => (.ok ((b :: d).take n), .bytes ((b :: d).drop n) :: rest)
  | .nothing :: rest, _ => (.ok [], rest)
  | .fails e :: rest, _ => (.error e, rest)

/-- A read that is tried again for as long as it is interrupted. -/
def readUninterrupted : Reader → Nat → Except OsError Bytes × Reader
  | [], _ => (.ok [], [])
  | .bytes [] :: rest, n => readUninterrupted rest n
  | .bytes (b :: d) :: rest, n => (.ok ((b :: d).take n), .bytes ((b :: d).drop n) :: rest)
  | .nothing :: rest, _ => (.ok [], rest)
  | .fails e :: rest, n =>
    if e.kind = .interrupted then readUninterrupted rest n else (.error e, rest)

def left : Reader → Nat
  | [] => 0
  | .bytes d :: rest => d.length + left rest
  | .nothing :: rest => left rest
  | .fails _ :: rest => left rest

end Reader

/-- A source over a reader: interrupted reads are repeated and the reader is given up on close. -/
structure ReaderSource where
  reader : Option Reader
  deriving Repr

instance : ByteSource ReaderSource where
  name _ := "reader"
  read s n :=
    match s.reader with
    | none => (.error (.closed "reader"), s)
    | some r =>
      match r.readUninterrupted n with
      | (.ok d, r) => (.ok d, ⟨some r⟩)
      | (.error e, r) => (.error (.io (.readFailed "reader" e)), ⟨some r⟩)
  close _ := (.ok (), ⟨none⟩)
  left s := (s.reader.map Reader.left).getD 0

/-- A source that offers reads and nothing else, of at most `maxRead` bytes each. -/
structure PlainSource where
  reader : Reader
  maxRead : Option Nat := none
  deriving Repr

instance : ByteSource PlainSource where
  read s n :=
    match s.reader.read (capped s.maxRead n) with
    | (.ok d, r) => (.ok d, { s with reader := r })
    | (.error e, r) => (.error (.ofOs e), { s with reader := r })
  left s := s.reader.left

end StreamLayers
