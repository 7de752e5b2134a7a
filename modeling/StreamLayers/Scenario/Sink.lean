import StreamLayers.Guard
import StreamLayers.Mock
import StreamLayers.Writer

/-!
The sinks of a scenario: a bare sink behind guards, numbered in the order of creation.
-/

namespace StreamLayers

inductive BareSink where
  | shared (k : SharedSink)
  | mock (k : MockSink)
  | writer (k : WriterSink)
  | plain (k : PlainSink)
  deriving Repr

namespace BareSink

def writeAll : BareSink → Bytes → Except Fault Unit × BareSink
  | .shared k, d => let (r, k) := ByteSink.writeAll k d; (r, .shared k)
  | .mock k, d => let (r, k) := ByteSink.writeAll k d; (r, .mock k)
  | .writer k, d => let (r, k) := ByteSink.writeAll k d; (r, .writer k)
  | .plain k, d => let (r, k) := ByteSink.writeAll k d; (r, .plain k)

def flush : BareSink → Except Fault Unit × BareSink
  | .shared k => let (r, k) := ByteSink.flush k; (r, .shared k)
  | .mock k => let (r, k) := ByteSink.flush k; (r, .mock k)
  | .writer k => let (r, k) := ByteSink.flush k; (r, .writer k)
  | .plain k => let (r, k) := ByteSink.flush k; (r, .plain k)

def close : BareSink → Except Fault Unit × BareSink
  | .shared k => let (r, k) := ByteSink.close k; (r, .shared k)
  | .mock k => let (r, k) := ByteSink.close k; (r, .mock k)
  | .writer k => let (r, k) := ByteSink.close k; (r, .writer k)
  | .plain k => let (r, k) := ByteSink.close k; (r, .plain k)

instance : ByteSink BareSink := ⟨writeAll, flush, close⟩

def accepted : BareSink → Log
  | .shared k => k.accepted
  | .mock k => k.accepted
  | .writer k => k.writer.accepted
  | .plain k => k.accepted

/-- Takes a sink apart: whether it still had its writer, which is dropped. -/
def release : BareSink → Option (Bool × BareSink)
  | .writer k => some (!k.dropped, .writer { k with dropped := true })
  | .shared _ | .mock _ | .plain _ => none

end BareSink

structure NumberedSink where
  number : Nat
  guards : List GuardKind
  sink : Guarded BareSink guards

namespace NumberedSink

structure Plan where
  bare : BareSink
  /-- Outermost first. -/
  guards : List GuardKind := []

def ofPlan (number : Nat) (p : Plan) : NumberedSink :=
  ⟨number, p.guards, .wrap p.bare p.guards⟩

def bare (k : NumberedSink) : BareSink := Guarded.core k.guards k.sink

instance : ByteSink NumberedSink where
  writeAll k d := let (r, s) := ByteSink.writeAll k.sink d; (r, { k with sink := s })
  flush k := let (r, s) := ByteSink.flush k.sink; (r, { k with sink := s })
  close k := let (r, s) := ByteSink.close k.sink; (r, { k with sink := s })

/-- Whether the outermost guard, if it passes on the first close alone, has done so. -/
def isClosed? : NumberedSink → Option Bool
  | ⟨_, .once :: _, s⟩ => some (Once.closed s)
  | _ => none

def flushInner? : NumberedSink → Option (Except Fault Unit × NumberedSink)
  | ⟨number, g :: gs, s⟩ =>
    let (r, i) := ByteSink.flush (g.inner s)
    some (r, ⟨number, g :: gs, g.setInner s i⟩)
  | ⟨_, [], _⟩ => none

def unguard? : NumberedSink → Option NumberedSink
  | ⟨number, g :: gs, s⟩ => some ⟨number, gs, g.inner s⟩
  | ⟨_, [], _⟩ => none

end NumberedSink

end StreamLayers
