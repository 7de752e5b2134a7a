import StreamLayers.Command.Measure
import StreamLayers.Json.Printer
import StreamLayers.Probe.Summary
import StreamLayers.Style
import StreamLayers.Toml.Printer

/-!
The report of the probe command, in words or as data.
-/

namespace StreamLayers

inductive OutputFormat where
  | text
  | json
  | toml
  deriving DecidableEq, Repr

def OutputFormat.ofName? : String → Option OutputFormat
  | "text" => some .text
  | "json" => some .json
  | "toml" => some .toml
  | _ => none

/-- A measurement of an input, with the time it took. -/
structure Report where
  input : String
  bytes : Nat
  reads : Nat
  passes : Nat
  elapsedMs : Float
  /-- Bytes per second. -/
  throughput : Float
  spilled : Bool
  deriving Repr

namespace Report

/-- The report on a measurement during which reads took `nanos` nanoseconds. -/
def ofMeasurement (input : String) (m : Command.Measurement) (nanos : UInt64) : Report :=
  let t : Tally := { bytes := .ofNat m.bytes, nanos }
  { input, bytes := m.bytes, reads := m.reads, passes := m.passes, spilled := m.spilled
    elapsedMs := spanSeconds t.elapsed.1 t.elapsed.2 * 1000.0, throughput := t.throughput }

def toValue (r : Report) : Value :=
  .table [("input", .text r.input), ("bytes", .nat r.bytes), ("reads", .nat r.reads),
    ("passes", .nat r.passes), ("elapsed_ms", .float r.elapsedMs),
    ("throughput_bytes_per_sec", .float r.throughput), ("spilled", .bool r.spilled)]

def words (r : Report) (styled : Bool) : String :=
  let label := Style.bold.paint styled
  let passes := if r.passes = 1 then "1 pass" else s!"{r.passes} passes"
  label "Input:" ++ " " ++ r.input ++ "\n"
    ++ label "Size:" ++ s!" {r.bytes} bytes in {r.reads} reads ({passes})\n"
    ++ label "Time:" ++ " " ++ Decimal.fixed 3 r.elapsedMs ++ " ms\n"
    ++ label "Throughput:" ++ " " ++ Decimal.fixed 2 (mebibytes r.throughput) ++ " MB/s"
    ++ (if r.spilled then "\n" ++ Style.yellow.paint styled "Replay cache spilled to disk" else "")

def render (r : Report) (styled : Bool) : OutputFormat → String
  | .text => r.words styled
  | .json => Json.pretty r.toValue
  | .toml => Toml.document r.toValue

end Report

end StreamLayers
