import StreamLayers.Sink

/-!
The tee writes every byte that passes through it to its sinks, each byte once: what is read again
after a reset lies below the high-water mark and is not forwarded again.
-/

namespace StreamLayers

structure Outlet (κ : Type) where
  sink : κ
  /-- Whether the sink gets what is read now. -/
  enabled : Bool := true
  deriving Repr

namespace Tee

structure Settings where
  /-- Whether closing the tee closes its sinks; otherwise they are flushed. -/
  closeSinks : Bool := true
  /-- Whether closing the tee first forwards what is still unread. -/
  drainOnClose : Bool := true
  drainChunk : Nat := defaultChunk
  deriving DecidableEq, Repr

def Settings.validate (c : Settings) : Except Fault Unit :=
  if c.drainOnClose && c.drainChunk == 0 then
    .error (.invalidParameter "drain_chunk" "must be greater than zero")
  else .ok ()

end Tee

/-- A source that copies what passes through it to sinks. -/
structure Tee (κ σ : Type) where
  source : σ
  outlets : List (Outlet κ)
  /-- Position of the next byte that the caller gets. -/
  sourcePosition : Nat := 0
  /-- How many bytes the sinks were offered: the furthest that `sourcePosition` has been. -/
  destinationPosition : Nat := 0
  markPosition : Option Nat := none
  settings : Tee.Settings := {}
  closed : Bool := false

namespace Tee

variable {κ σ : Type}

/-- A tee from `source` into `sinks`, of which there must be one. -/
def ofSettings (source : σ) (sinks : List κ) (c : Settings) : Except Fault (Tee κ σ) :=
  match c.validate with
  | .error e => .error e
  | .ok () =>
    if sinks.isEmpty then
      .error (.invalidParameter "sinks" "at least one sink is required")
    else .ok { source, outlets := sinks.map ({ sink := · }), settings := c }

def setSource (t : Tee κ σ) (source : σ) : Tee κ σ := { t with source }

/-- Attaches a sink, which gets what lies past the high-water mark; answers with its index. -/
def addSink (t : Tee κ σ) (k : κ) : Nat × Tee κ σ :=
  (t.outlets.length, { t with outlets := t.outlets ++ [{ sink := k }] })

def setEnabled (t : Tee κ σ) (index : Nat) (enabled : Bool) : Except Fault Unit × Tee κ σ :=
  if index < t.outlets.length then
    (.ok (), { t with outlets := t.outlets.modify index ({ · with enabled }) })
  else (.error (.misuse (.unknownSink index t.outlets.length)), t)

def isEnabled (t : Tee κ σ) (index : Nat) : Except Fault Bool :=
  match t.outlets[index]? with
  | some o => .ok o.enabled
  | none => .error (.misuse (.unknownSink index t.outlets.length))

variable [ByteSource σ] [ByteSink κ]

/-- Offers `data` to every enabled outlet, whichever of the others fail; reports the first failure.
The first outlet of the list has number `index`. -/
def forward (data : Bytes) : Nat → List (Outlet κ) → Option Fault × List (Outlet κ)
  | _, [] => (none, [])
  | index, o :: rest =>
    let (later, rest) := forward data (index + 1) rest
    if o.enabled then
      match ByteSink.writeAll o.sink data with
      | (.ok (), k) => (later, { o with sink := k } :: rest)
      | (.error e, k) => (some (.sink index e), { o with sink := k } :: rest)
    else (later, o :: rest)

/-- Closes every outlet, or flushes it where sinks are not to be closed; reports the first
failure. -/
def closeOutlets (closeSinks : Bool) : Nat → List (Outlet κ) → Option Fault × List (Outlet κ)
  | _, [] => (none, [])
  | index, o :: rest =>
    let (later, rest) := closeOutlets closeSinks (index + 1) rest
    match if closeSinks then ByteSink.close o.sink else ByteSink.flush o.sink with
    | (.ok (), k) => (later, { o with sink := k } :: rest)
    | (.error e, k) => (some (.sinkLeft index e), { o with sink := k } :: rest)

/-- Moves both positions past `data` and offers the sinks what they have not seen of it. -/
def pass (t : Tee κ σ) (data : Bytes) : Option Fault × Tee κ σ :=
  let finish := t.sourcePosition + data.length
  let moved := { t with
    sourcePosition := finish, destinationPosition := max t.destinationPosition finish }
  if t.destinationPosition < finish then
    let fresh := data.drop (t.destinationPosition - t.sourcePosition)
    let (failure, outlets) := forward fresh 0 t.outlets
    (failure, { moved with outlets })
  else (none, moved)

/-- A read from the source with the bytes forwarded. The failure of a sink comes beside the bytes,
because the positions have moved all the same. -/
def passThrough (t : Tee κ σ) (n : Nat) : Except Fault (Bytes × Option Fault) × Tee κ σ :=
  match ByteSource.read t.source n with
  | (.error e, s) => (.error e, { t with source := s })
  | (.ok [], s) => (.ok ([], none), { t with source := s })
  | (.ok (b :: d), s) =>
    let (failure, t) := { t with source := s }.pass (b :: d)
    (.ok (b :: d, failure), t)

def read (t : Tee κ σ) (n : Nat) : Except Fault Bytes × Tee κ σ :=
  if t.closed then (.error (.closed "tee"), t)
  else
    match t.passThrough n with
    | (.error e, t) => (.error e, t)
    | (.ok (_, some e), t) => (.error e, t)
    | (.ok (data, none), t) => (.ok data, t)

/-- Forwards what is left of the source. Only the source stops it early, and then its failure alone
is reported; `first` is the first failure of a sink so far. -/
def drainFrom : Nat → Tee κ σ → Option Fault → Option Fault × Tee κ σ
  | fuel, t, first =>
    match t.passThrough t.settings.drainChunk with
    | (.error e, t) => (some e, t)
    | (.ok ([], failure), t) => (first.or failure, t)
    | (.ok (_ :: _, failure), t) =>
      match fuel with
      | 0 => (first.or failure, t)
      | fuel + 1 => drainFrom fuel t (first.or failure)

def drain (t : Tee κ σ) : Option Fault × Tee κ σ :=
  if t.settings.drainOnClose then drainFrom (ByteSource.left t.source) t none else (none, t)

def setMark (t : Tee κ σ) (limit : MarkLimit) : Except Fault Unit × Tee κ σ :=
  match ByteSource.mark t.source limit with
  | (.error e, s) => (.error e, { t with source := s })
  | (.ok (), s) => (.ok (), { t with source := s, markPosition := some t.sourcePosition })

/-- Goes back to the tee's own mark; without one the source is not asked. -/
def reset (t : Tee κ σ) : Except Fault Unit × Tee κ σ :=
  match t.markPosition with
  | none => (.error (.misuse .resetWithoutMark), t)
  | some p =>
    match ByteSource.reset t.source with
    | (.error e, s) => (.error e, { t with source := s })
    | (.ok (), s) => (.ok (), { t with source := s, sourcePosition := p })

/-- Drains, closes the source, then closes the sinks. Every step is tried. -/
def close (t : Tee κ σ) : Except Fault Unit × Tee κ σ :=
  if t.closed then (.ok (), t)
  else
    let (draining, t) := { t with closed := true }.drain
    let (closing, source) := ByteSource.close t.source
    let closing := match closing with
      | .error e => some e
      | .ok () => none
    let (releasing, outlets) := closeOutlets t.settings.closeSinks 0 t.outlets
    let t := { t with source, outlets }
    match (draining.or closing).or releasing with
    | some e => (.error e, t)
    | none => (.ok (), t)

instance : ByteSource (Tee κ σ) where
  name _ := "tee"
  read := read
  canMark t := ByteSource.canMark t.source
  mark := setMark
  reset := reset
  close := close
  left t := ByteSource.left t.source

end Tee

end StreamLayers
