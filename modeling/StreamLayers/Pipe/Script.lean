import StreamLayers.Mock
import StreamLayers.Pipe
import StreamLayers.Word

/-!
Producers given by a script, for scenarios.
-/

namespace StreamLayers

namespace Script

inductive Note where
  | count (n : Nat)
  | ok
  | fault (e : Fault)
  | os (e : OsError)
  /-- How many bytes were sent, and whether nobody reads them any more. -/
  | standing (written : Nat) (gone : Bool)
  deriving DecidableEq, Repr

/-- One task of a script. A task that fails ends the script, if it is not one that is only tried. -/
inductive Task where
  | write (data : Bytes)
  /-- Writes in the system's terms and notes the count. -/
  | writeOs (data : Bytes)
  /-- Writes and notes how it went. -/
  | tryWrite (data : Bytes)
  | tryWriteOs (data : Bytes)
  | flush
  | close
  | note
  /-- Writes the same bytes until that fails. -/
  | forever (head : UInt8) (tail : Bytes)
  /-- Pumps a source into the pipe, after `total` bytes have been, and notes the count. -/
  | pump (source : MockSource) (chunk total : Nat)
  | fail (e : Fault)
  | crash
  deriving Repr

end Script

/-- A script in progress, with the notes so far, the last one first. -/
inductive Script where
  | running (tasks : List Script.Task) (notes : List Script.Note)
  | failed (e : Fault)
  deriving Repr

namespace Script

/-- Writes in the middle of a script: a failure ends it. -/
private def writing (data : Bytes) (done : Script) (report : Fault → Fault) : Move Script (List Note) :=
  .write data fun
    | .ok () => done
    | .error e => .failed (report e)

def nextOf : List Task → List Note → Move Script (List Note)
  | [], notes => .finish (.ok notes.reverse)
  | .write data :: rest, notes => writing data (.running rest notes) id
  | .writeOs data :: rest, notes =>
    writing data (.running rest (.count data.length :: notes)) fun e => .ofOs e.toOs
  | .tryWrite data :: rest, notes => .write data fun
    | .ok () => .running rest (.ok :: notes)
    | .error e => .running rest (.fault e :: notes)
  | .tryWriteOs data :: rest, notes => .write data fun
    | .ok () => .running rest (.count data.length :: notes)
    | .error e => .running rest (.os e.toOs :: notes)
  | .flush :: rest, notes => nextOf rest notes
  | .close :: rest, notes => .close (.running rest notes)
  | .note :: rest, notes => .look fun written gone => .running rest (.standing written gone :: notes)
  | .forever head tail :: rest, notes =>
    writing (head :: tail) (.running (.forever head tail :: rest) notes) id
  | .pump source chunk total :: rest, notes =>
    if chunk = 0 then
      .finish (.error (.invalidParameter "chunk_size" "must be greater than zero"))
    else
      match ByteSource.read source chunk with
      | (.error e, _) => .finish (.error e)
      | (.ok [], _) => nextOf rest (.count total :: notes)
      | (.ok (b :: data), source) =>
        writing (b :: data)
          (.running (.pump source chunk (total + (data.length + 1)) :: rest) notes) id
  | .fail e :: _, _ => .finish (.error e)
  | .crash :: _, _ => .crash

def next : Script → Move Script (List Note)
  | .running tasks notes => nextOf tasks notes
  | .failed e => .finish (.error e)

def rank : Script → Nat
  | .running tasks _ => tasks.length + 1
  | .failed _ => 0

private theorem quiet_mono {m : Move Script (List Note)} {a b : Nat} (hab : a ≤ b)
    (h : m.Quiet rank a) : m.Quiet rank b := by
  cases m with
  | write data resume =>
    exact ⟨fun hd => Nat.lt_of_lt_of_le (h.1 hd) hab, fun e => Nat.lt_of_lt_of_le (h.2 e) hab⟩
  | close next => exact Nat.lt_of_lt_of_le h hab
  | look resume => exact fun w g => Nat.lt_of_lt_of_le (h w g) hab
  | finish _ => trivial
  | crash => trivial

theorem nextOf_quiet (tasks : List Task) (notes : List Note) :
    (nextOf tasks notes).Quiet rank (tasks.length + 1) := by
  fun_induction nextOf tasks notes with
  | case6 rest notes ih => exact quiet_mono (by simp) ih
  | case12 => rename_i ih; exact quiet_mono (by simp) ih
  | _ => simp [Move.Quiet, writing, rank]

theorem next_quiet (s : Script) : s.next.Quiet rank s.rank := by
  cases s with
  | running tasks notes => exact nextOf_quiet tasks notes
  | failed e => trivial

/-- Stands for the length of data without end: more than any reader takes. -/
def unending : Nat := wordLimit

def Task.left : Task → Nat
  | .write data | .writeOs data | .tryWrite data | .tryWriteOs data => data.length
  | .forever _ _ => unending
  | .pump source _ _ => ByteSource.left source
  | .flush | .close | .note | .fail _ | .crash => 0

instance : Producer Script (List Note) where
  next := next
  rank := rank
  quiet := next_quiet
  left
    | .running tasks _ => tasks.foldr (fun t n => t.left + n) 0
    | .failed _ => 0

def ofTasks (tasks : List Task) : Script := .running tasks []

end Script

end StreamLayers
