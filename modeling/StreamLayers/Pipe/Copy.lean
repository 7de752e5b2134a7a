import StreamLayers.Pipe
import StreamLayers.Reader

/-!
The producer that copies a system reader into a pipe.
-/

namespace StreamLayers

inductive Copy where
  | running (reader : Reader) (copied : Nat)
  | failed (e : Fault)
  deriving Repr

namespace Copy

def blockSize : Nat := 8192

/-- How a copy reports a system failure: a broken pipe on either side is the pipe's. -/
def faultOf (e : OsError) : Fault :=
  .io (if e.kind = .brokenPipe then .brokenPipe "pipe" else .readFailed "pipe" e)

def next : Copy → Move Copy Nat
  | .failed e => .finish (.error e)
  | .running reader copied =>
    match reader.readUninterrupted blockSize with
    | (.error e, _) => .finish (.error (faultOf e))
    | (.ok [], _) => .finish (.ok copied)
    | (.ok (b :: data), reader) => .write (b :: data) fun
      | .ok () => .running reader (copied + (data.length + 1))
      | .error e => .failed (faultOf e.toOs)

def rank : Copy → Nat
  | .running .. => 1
  | .failed _ => 0

theorem next_quiet (c : Copy) : c.next.Quiet rank c.rank := by
  unfold next
  split
  · trivial
  · split
    · trivial
    · trivial
    · exact ⟨by simp, fun _ => by simp [rank]⟩

instance : Producer Copy Nat where
  next := next
  rank := rank
  quiet := next_quiet
  left
    | .running reader _ => reader.left
    | .failed _ => 0

def ofReader (reader : Reader) : Copy := .running reader 0

end Copy

end StreamLayers
