import StreamLayers.Bytes
import StreamLayers.Fault

/-!
Byte sources: what every layer of a stack offers to the layer above it, and the reads that are
built from single reads.
-/

namespace StreamLayers

/-- How far a stream may be read past a mark before the mark is lost. -/
inductive MarkLimit where
  | unlimited
  /-- Gives up every byte held for a replay. -/
  | invalidate
  | bytes (n : Nat)
  deriving DecidableEq, Repr

/-- Reads an integer limit: negative is unlimited, zero invalidates, positive counts bytes. -/
def MarkLimit.ofInt (limit : Int) : MarkLimit :=
  if limit < 0 then .unlimited
  else if limit = 0 then .invalidate
  else .bytes limit.toNat

/-- Size of the blocks that are read where the caller gives no size. -/
def defaultChunk : Nat := 65536

def capped (cap : Option Nat) (n : Nat) : Nat :=
  match cap with
  | some m => min n m
  | none => n

/-- A source of bytes with state `σ`. A read of `n` hands out at most `n` bytes and an empty
answer to a read of `n > 0` means that the data has ended. -/
class ByteSource (σ : Type) where
  /-- The word for this source in messages. -/
  name : σ → String := fun _ => "source"
  read : σ → Nat → Except Fault Bytes × σ
  /-- Whether `mark` and `reset` work. -/
  canMark : σ → Bool := fun _ => false
  /-- Remembers the current position. -/
  mark : σ → MarkLimit → Except Fault Unit × σ :=
    fun s _ => (.error (.misuse (.markUnsupported (name s))), s)
  /-- Goes back to the remembered position. -/
  reset : σ → Except Fault Unit × σ :=
    fun s => (.error (.misuse (.markUnsupported (name s))), s)
  /-- Gives up what the source holds. -/
  close : σ → Except Fault Unit × σ := fun s => (.ok (), s)
  /-- A bound on the bytes that reads alone can still get, so that loops over a source end. -/
  left : σ → Nat

/-- The reads up to the end of a source or its first failure. -/
structure ReadRun (σ : Type) where
  /-- What the reads got, none of it empty. -/
  blocks : List Bytes
  /-- The failure that ended the run, if it was not the end of the data. -/
  failure : Option Fault
  state : σ

namespace ReadRun

variable {σ : Type}

def data (r : ReadRun σ) : Bytes := r.blocks.flatten

/-- The number of bytes read, unless a read failed. -/
def total (r : ReadRun σ) : Except Fault Nat :=
  match r.failure with
  | some e => .error e
  | none => .ok r.data.length

end ReadRun

namespace ByteSource

variable {σ : Type} [ByteSource σ]

def readBlocksFrom (n : Nat) : Nat → σ → List Bytes → ReadRun σ
  | fuel, s, acc =>
    match read s n with
    | (.error e, s) => ⟨acc.reverse, some e, s⟩
    | (.ok [], s) => ⟨acc.reverse, none, s⟩
    | (.ok (b :: d), s) =>
      match fuel with
      | 0 => ⟨((b :: d) :: acc).reverse, none, s⟩
      | fuel + 1 => readBlocksFrom n fuel s ((b :: d) :: acc)

/-- Reads blocks of at most `n` bytes until the data ends or a read fails. -/
def readBlocks (s : σ) (n : Nat) : ReadRun σ :=
  readBlocksFrom n (left s) s []

def readToEnd (s : σ) : ReadRun σ :=
  readBlocks s defaultChunk

def fillFrom : Nat → σ → Nat → List Bytes → Except Fault Bytes × σ
  | 0, s, _, acc => (.ok acc.reverse.flatten, s)
  | fuel + 1, s, room, acc =>
    if room = 0 then (.ok acc.reverse.flatten, s)
    else
      match read s room with
      | (.error e, s) => (.error e, s)
      | (.ok [], s) => (.ok acc.reverse.flatten, s)
      | (.ok (b :: d), s) => fillFrom fuel s (room - (d.length + 1)) ((b :: d) :: acc)

/-- Reads until `n` bytes are there or the data ends. -/
def readFull (s : σ) (n : Nat) : Except Fault Bytes × σ :=
  fillFrom n s n []

/-- A read whose failure is reported in the system's terms. -/
def readOs (s : σ) (n : Nat) : Except OsError Bytes × σ :=
  match read s n with
  | (.ok d, s) => (.ok d, s)
  | (.error e, s) => (.error e.toOs, s)

end ByteSource

end StreamLayers
