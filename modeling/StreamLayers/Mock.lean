import StreamLayers.Log
import StreamLayers.Sink

/-!
Observable ends for scenarios: a source that can answer in short reads and fail on demand, and
sinks that record what they are given.
-/

namespace StreamLayers

/-- A source over bytes in memory. Reads stay short of `failAt` and fail there. -/
structure MockSource where
  rest : Bytes
  /-- How many bytes were handed out. -/
  pulled : Nat := 0
  maxRead : Option Nat := none
  failAt : Option Nat := none
  failClose : Bool := false
  reads : Nat := 0
  closes : Nat := 0
  deriving Repr

namespace MockSource

def injected (what : String) : OsError := ⟨.other, what⟩

/-- How many bytes a read of `n` may get, if it may read at all. -/
def allowance (s : MockSource) (n : Nat) : Option Nat :=
  match s.failAt with
  | none => some (capped s.maxRead n)
  | some offset =>
    if offset ≤ s.pulled then none else some (min (capped s.maxRead n) (offset - s.pulled))

instance : ByteSource MockSource where
  name _ := "mock"
  read s n :=
    let s := { s with reads := s.reads + 1 }
    match s.allowance n with
    | none => (.error (.io (.readFailed "mock" (injected "injected read failure"))), s)
    | some m =>
      let data := s.rest.take m
      (.ok data, { s with rest := s.rest.drop m, pulled := s.pulled + data.length })
  close s :=
    let s := { s with closes := s.closes + 1 }
    if s.failClose then
      (.error (.io (.readFailed "mock" (injected "injected close failure"))), s)
    else (.ok (), s)
  left s := s.rest.length

end MockSource

/-- A sink that records; a write that would take it past `failAfter` bytes is refused. -/
structure MockSink where
  accepted : Log := {}
  writes : Nat := 0
  closes : Nat := 0
  failAfter : Option Nat := none
  deriving Repr

instance : ByteSink MockSink where
  writeAll k data :=
    let full := k.failAfter.any (· < k.accepted.size + data.length)
    if full then
      (.error (.io (.writeFailed "mock" (MockSource.injected "injected write failure"))), k)
    else (.ok (), { k with accepted := k.accepted.append data, writes := k.writes + 1 })
  close k := (.ok (), { k with closes := k.closes + 1 })

/-- A sink that collects bytes until it is closed. -/
structure SharedSink where
  accepted : Log := {}
  closed : Bool := false
  deriving Repr

instance : ByteSink SharedSink where
  writeAll k data :=
    if k.closed then (.error (.closed "shared sink"), k)
    else (.ok (), { k with accepted := k.accepted.append data })
  close k := (.ok (), { k with closed := true })

/-- A sink that offers writes and nothing else; with `fault` every write fails. -/
structure PlainSink where
  accepted : Log := {}
  fault : Option Fault := none
  deriving Repr

instance : ByteSink PlainSink where
  writeAll k data :=
    match k.fault with
    | some e => (.error e, k)
    | none => (.ok (), { k with accepted := k.accepted.append data })

end StreamLayers
