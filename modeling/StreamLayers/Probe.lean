import StreamLayers.Source

/-!
Probes count what passes through them. Every probe keeps totals of its own and adds to those of the
place that created it, which a registry keeps.
-/

namespace StreamLayers

/-- A place in a program that creates probes. -/
structure CallSite where
  file : String
  line : Nat
  column : Nat
  deriving DecidableEq, Repr

namespace CallSite

instance : ToString CallSite where
  toString s := s!"{s.file}:{s.line}:{s.column}"

def le (a b : CallSite) : Bool :=
  a.file < b.file ||
    (a.file == b.file && (a.line < b.line || (a.line == b.line && a.column ≤ b.column)))

end CallSite

/-- Totals of one site. They are 64-bit counters and wrap around. -/
structure Tally where
  /-- Probes created. -/
  instances : UInt64 := 0
  /-- Bytes read, those read again left out. -/
  bytes : UInt64 := 0
  reads : UInt64 := 0
  /-- Time spent in reads. -/
  nanos : UInt64 := 0
  deriving DecidableEq, Repr

instance : Add Tally where
  add a b := ⟨a.instances + b.instances, a.bytes + b.bytes, a.reads + b.reads, a.nanos + b.nanos⟩

def bytesPerSecond (bytes secs nanos : UInt64) : Float :=
  let elapsed := secs.toFloat + nanos.toFloat / 1e9
  if elapsed > 0.0 then bytes.toFloat / elapsed else 0.0

namespace Tally

def elapsed (t : Tally) : UInt64 × UInt64 := (t.nanos / 1000000000, t.nanos % 1000000000)

def throughput (t : Tally) : Float := bytesPerSecond t.bytes t.elapsed.1 t.elapsed.2

end Tally

/-- Tallies by site. A site's tally is reached through its number, which never changes. -/
structure Registry where
  index : List (CallSite × Nat) := []
  cells : List Tally := []
  deriving Repr

namespace Registry

def find? (r : Registry) (site : CallSite) : Option Nat := r.index.lookup site

/-- The number of a site's tally, which is created at first use. -/
def counters (r : Registry) (site : CallSite) : Nat × Registry :=
  match r.find? site with
  | some i => (i, r)
  | none =>
    (r.cells.length, { index := r.index ++ [(site, r.cells.length)], cells := r.cells ++ [{}] })

def record (r : Registry) (i : Nat) (t : Tally) : Registry :=
  { r with cells := r.cells.modify i (· + t) }

def site? (r : Registry) (site : CallSite) : Option Tally :=
  (r.find? site).bind (r.cells[·]?)

def sites (r : Registry) : List (CallSite × Tally) :=
  (r.index.filterMap fun (site, i) => (r.cells[i]?).map (site, ·)).mergeSort fun a b => a.1.le b.1

end Registry

/-- A source that counts what passes through it. -/
structure Probe (σ : Type) where
  source : σ
  site : CallSite
  /-- Bytes read so far; rolled back by a reset. -/
  bytes : Nat := 0
  /-- The most that `bytes` has been. -/
  highWater : Nat := 0
  markBytes : Option Nat := none
  reads : Nat := 0
  /-- What was counted and not yet added to the site's tally. -/
  due : Tally := {}
  closed : Bool := false

namespace Probe

variable {σ : Type}

/-- A new probe over `source`; it counts as one instance of its site. -/
def attach (source : σ) (site : CallSite) : Probe σ :=
  { source, site, due := { instances := 1 } }

def setSource (p : Probe σ) (source : σ) : Probe σ := { p with source }

/-- Counts a read of `n` bytes. Only what lies past the high-water mark is new to the site. -/
def count (p : Probe σ) (n : Nat) : Probe σ :=
  let bytes := p.bytes + n
  { p with
    bytes
    reads := p.reads + 1
    highWater := max p.highWater bytes
    due := p.due + { bytes := UInt64.ofNat (bytes - p.highWater), reads := 1 } }

/-- Adds what is due to the site's tally. -/
def settle (p : Probe σ) (r : Registry) : Probe σ × Registry :=
  let (i, r) := r.counters p.site
  ({ p with due := {} }, r.record i p.due)

def averageReadSize (bytes reads : UInt64) : Float :=
  if reads > 0 then bytes.toFloat / reads.toFloat else 0.0

variable [ByteSource σ]

def read (p : Probe σ) (n : Nat) : Except Fault Bytes × Probe σ :=
  if p.closed then (.error (.closed "stats"), p)
  else
    match ByteSource.read p.source n with
    | (.error e, s) => (.error e, { p with source := s })
    | (.ok data, s) => (.ok data, { p with source := s }.count data.length)

def setMark (p : Probe σ) (limit : MarkLimit) : Except Fault Unit × Probe σ :=
  match ByteSource.mark p.source limit with
  | (.error e, s) => (.error e, { p with source := s })
  | (.ok (), s) => (.ok (), { p with source := s, markBytes := some p.bytes })

/-- Resets the source; the count goes back only if the probe saw the mark being set. -/
def reset (p : Probe σ) : Except Fault Unit × Probe σ :=
  match ByteSource.reset p.source with
  | (.error e, s) => (.error e, { p with source := s })
  | (.ok (), s) => (.ok (), { p with source := s, bytes := p.markBytes.getD p.bytes })

def close (p : Probe σ) : Except Fault Unit × Probe σ :=
  if p.closed then (.ok (), p)
  else
    let (r, s) := ByteSource.close p.source
    (r, { p with source := s, closed := true })

instance : ByteSource (Probe σ) where
  name _ := "stats"
  read := read
  canMark p := ByteSource.canMark p.source
  mark := setMark
  reset := reset
  close := close
  left p := ByteSource.left p.source

end Probe

end StreamLayers
