import StreamLayers.Guard
import StreamLayers.Store

/-!
The replay buffer gives any forward-only source a mark to go back to. Bytes pulled while a mark is
active are kept in a store; after a reset they come from there until the reader has caught up with
the source again.
-/

namespace StreamLayers

/-- What became of the last mark. -/
inductive MarkState where
  | unset
  | active (position : Nat) (limit : MarkLimit)
  | invalidated
  /-- More than `limit` bytes were read past the mark; `consumed` is how far the read that broke
  the limit got. -/
  | exceeded (limit consumed : Nat)
  deriving DecidableEq, Repr

def MarkState.isActive : MarkState → Bool
  | .active _ _ => true
  | _ => false

/-- A source with mark and reset over a source without. -/
structure Replay (σ : Type) where
  source : Once σ
  store : Store
  /-- Position in the stream of the first byte that the store holds. -/
  base : Nat := 0
  /-- Position of the next byte that the caller gets. -/
  position : Nat := 0
  /-- How many bytes were pulled from the source and accepted. -/
  sourcePosition : Nat := 0
  mark : MarkState := .unset
  /-- Whether the whole stream is kept, so that any earlier position can be sought. -/
  retainHistory : Bool := false
  /-- Size of the reads that skip forward. -/
  readChunk : Nat := defaultChunk
  closed : Bool := false

namespace Replay

structure Settings where
  /-- Bytes kept in memory before spilling; `none` never spills. -/
  threshold : Option Nat := some Store.defaultThreshold
  spillDir : Option String := none
  retainHistory : Bool := false
  readChunk : Nat := defaultChunk
  deriving DecidableEq, Repr

namespace Settings

def store (c : Settings) : Store.Settings := ⟨c.threshold, c.spillDir⟩

def validate (c : Settings) : Except Fault Unit :=
  if c.readChunk = 0 then
    .error (.invalidParameter "read_chunk" "must be greater than zero")
  else .ok ()

end Settings

variable {σ : Type}

/-- A buffer over `source` with the given store, keeping bytes only while a mark is active. -/
def withStore (source : σ) (store : Store) : Replay σ :=
  { source := ⟨source, false⟩, store }

def ofSettings (source : σ) (c : Settings) (directoryExists : Bool) : Except Fault (Replay σ) :=
  match c.validate with
  | .error e => .error e
  | .ok () =>
    .ok { withStore source (c.store.build directoryExists) with
      retainHistory := c.retainHistory, readChunk := c.readChunk }

def setSource (b : Replay σ) (source : σ) : Replay σ :=
  { b with source := b.source.setInner source }

def mapStore (f : Store → Store) (b : Replay σ) : Replay σ := { b with store := f b.store }

def buffered (b : Replay σ) : Nat := b.store.writePosition

/-- Whether bytes pulled now are kept. -/
def caching (b : Replay σ) : Bool := b.retainHistory || b.mark.isActive

/-- Gives up the mark if it has a limit and the position is past it. -/
def enforceLimit (b : Replay σ) : Replay σ :=
  match b.mark with
  | .active p (.bytes limit) =>
    if limit < b.position - p then { b with mark := .exceeded limit (b.position - p) } else b
  | _ => b

/-- Empties the store once nothing can replay it. A store that cannot delete its file is empty, but
the base stays where it was. -/
def discardUnreachable (b : Replay σ) : Except Fault Unit × Replay σ :=
  if b.caching || b.position < b.sourcePosition then (.ok (), b)
  else if 0 < b.store.writePosition ∨ b.base ≠ b.sourcePosition then
    match b.store.release with
    | (.ok (), s) => (.ok (), { b with store := s, base := b.sourcePosition })
    | (.error e, s) => (.error e, { b with store := s })
  else (.ok (), b)

/-- What follows every read: the limit is enforced, and what nothing can replay is dropped. A
failure to delete the spill file is not the reader's. -/
def afterRead (b : Replay σ) : Replay σ :=
  b.enforceLimit.discardUnreachable.2

def readStore (b : Replay σ) (n : Nat) : Except Fault Bytes × Replay σ :=
  match b.store.seek (b.position - b.base) with
  | (.error e, s) => (.error e, { b with store := s })
  | (.ok (), s) =>
    let (data, s) := s.get (min n (b.sourcePosition - b.position))
    (.ok data, { b with store := s, position := b.position + data.length })

def accept (b : Replay σ) (data : Bytes) : Replay σ :=
  { b with
    position := b.position + data.length
    sourcePosition := b.sourcePosition + data.length }

/-- Takes over bytes that came from the source: they are kept first, if they have to be, and counted
only if that worked. -/
def keep (b : Replay σ) (data : Bytes) : Except Fault Bytes × Replay σ :=
  if b.caching && !data.isEmpty then
    match b.store.put data with
    | (.error e, s) => (.error e, { b with store := s })
    | (.ok (), s) => (.ok data, { b with store := s }.accept data)
  else (.ok data, b.accept data)

variable [ByteSource σ]

def readSource (b : Replay σ) (n : Nat) : Except Fault Bytes × Replay σ :=
  match ByteSource.read b.source n with
  | (.error e, s) => (.error e, { b with source := s })
  | (.ok data, s) => { b with source := s }.keep data

def read (b : Replay σ) (n : Nat) : Except Fault Bytes × Replay σ :=
  if b.closed then (.error (.closed "replay"), b)
  else if n = 0 then (.ok [], b)
  else
    match if b.position < b.sourcePosition then b.readStore n else b.readSource n with
    | (.error e, b) => (.error e, b)
    | (.ok data, b) => (.ok data, b.afterRead)

/-- Marks the position. Where nothing before it can be replayed any more, what the store holds is
dropped first, and the mark is not set if that fails. -/
def setMark (b : Replay σ) (limit : MarkLimit) : Except Fault Unit × Replay σ :=
  if b.closed then (.error (.closed "replay"), b)
  else
    match limit with
    | .invalidate | .bytes 0 => { b with mark := .invalidated }.discardUnreachable
    | _ =>
      if !b.retainHistory && b.position == b.sourcePosition then
        match { b with mark := .unset }.discardUnreachable with
        | (.error e, b) => (.error e, b)
        | (.ok (), b) => (.ok (), { b with mark := .active b.position limit })
      else (.ok (), { b with mark := .active b.position limit })

def reset (b : Replay σ) : Except Fault Unit × Replay σ :=
  if b.closed then (.error (.closed "replay"), b)
  else
    match b.mark with
    | .unset => (.error (.misuse .resetWithoutMark), b)
    | .invalidated => (.error (.misuse .markInvalidated), b)
    | .exceeded limit consumed => (.error (.misuse (.markLimitExceeded limit consumed)), b)
    | .active p _ =>
      if p < b.sourcePosition then
        match b.store.seek (p - b.base) with
        | (.error e, s) => (.error e, { b with store := s })
        | (.ok (), s) => (.ok (), { b with store := s, position := p })
      else (.ok (), { b with position := p })

/-- Reads on until the position is `target`, the data ends or a read fails. Each read that gets
something moves the position, so `fuel` need not exceed the distance. -/
def skipTo (target : Nat) : Nat → Replay σ → Except Fault Nat × Replay σ
  | 0, b => (.ok b.position, b)
  | fuel + 1, b =>
    if target ≤ b.position then (.ok b.position, b)
    else
      match b.read (min b.readChunk (target - b.position)) with
      | (.error e, b) => (.error e, b)
      | (.ok [], b) => (.ok b.position, b)
      | (.ok _, b) => skipTo target fuel b

/-- Moves to `target` and answers with the position reached. Forward it reads, and stops early at
the end of the data; backward it stays within what the store holds. -/
def seek (b : Replay σ) (target : Nat) : Except Fault Nat × Replay σ :=
  if b.closed then (.error (.closed "replay"), b)
  else if b.position ≤ target then b.skipTo target (target - b.position)
  else if target < b.base then (.error (.misuse (.seekBeforeCache target b.base)), b)
  else
    let b := { b with position := target }
    match b.store.seek (target - b.base) with
    | (.error e, s) => (.error e, { b with store := s })
    | (.ok (), s) => (.ok target, { b with store := s })

/-- Closes the source and empties the store, whatever fails; the failure of the source is reported
before that of the store. -/
def close (b : Replay σ) : Except Fault Unit × Replay σ :=
  if b.closed then (.ok (), b)
  else
    let (closing, source) := ByteSource.close b.source
    let (releasing, store) := b.store.release
    let b := { b with closed := true, mark := .unset, source, store }
    match closing with
    | .error e => (.error e, b)
    | .ok () => (releasing, b)

instance : ByteSource (Replay σ) where
  name _ := "replay"
  read := read
  canMark _ := true
  mark := setMark
  reset := reset
  close := close
  left b := (b.sourcePosition - b.position) + ByteSource.left b.source

end Replay

end StreamLayers
