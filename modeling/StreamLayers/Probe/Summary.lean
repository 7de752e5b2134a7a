import StreamLayers.Decimal
import StreamLayers.Probe
import StreamLayers.Value

/-!
What probes and registries report: snapshots, data for other programs, and a summary in words.
-/

namespace StreamLayers

def spanValue (secs nanos : UInt64) : Value :=
  .table [("secs", .nat secs.toNat), ("nanos", .nat nanos.toNat)]

def spanSeconds (secs nanos : UInt64) : Float := secs.toFloat + nanos.toFloat / 1e9

def mebibytes (x : Float) : Float := x / (1024.0 * 1024.0)

namespace CallSite

def toValue (s : CallSite) : Value :=
  .table [("file", .text s.file), ("line", .nat s.line), ("column", .nat s.column)]

end CallSite

structure Snapshot where
  site : CallSite
  bytes : UInt64
  reads : UInt64
  /-- Time spent in reads: whole seconds, and the nanoseconds besides. -/
  secs : UInt64
  nanos : UInt64
  deriving DecidableEq, Repr

namespace Snapshot

def throughput (s : Snapshot) : Float := bytesPerSecond s.bytes s.secs s.nanos

def averageReadSize (s : Snapshot) : Float := Probe.averageReadSize s.bytes s.reads

def toValue (s : Snapshot) : Value :=
  .table [("site", s.site.toValue), ("bytes", .nat s.bytes.toNat), ("reads", .nat s.reads.toNat),
    ("elapsed", spanValue s.secs s.nanos)]

end Snapshot

namespace Tally

def toValue (t : Tally) (site : CallSite) : Value :=
  .table [("site", site.toValue), ("instances", .nat t.instances.toNat),
    ("bytes", .nat t.bytes.toNat), ("reads", .nat t.reads.toNat),
    ("elapsed", spanValue t.elapsed.1 t.elapsed.2)]

def summaryLine (t : Tally) (site : CallSite) : String :=
  let seconds := Decimal.fixed 3 (spanSeconds t.elapsed.1 t.elapsed.2)
  let speed := Decimal.fixed 2 (mebibytes t.throughput)
  s!"{site}: {t.bytes} bytes in {t.reads} reads over {seconds}s "
    ++ s!"({speed} MB/s, {t.instances} instances)\n"

end Tally

def Registry.summary (r : Registry) : String :=
  match r.sites with
  | [] => "No probes recorded\n"
  | sites => String.join (sites.map fun (site, t) => t.summaryLine site)

end StreamLayers
