import StreamLayers.Marker
import StreamLayers.Pipe
import StreamLayers.Replay
import StreamLayers.Tee
import StreamLayers.Value

/-!
The settings of all layers together, as data and from data.
-/

namespace StreamLayers

structure Settings where
  replay : Replay.Settings := {}
  pipe : Pipe.Settings := {}
  tee : Tee.Settings := {}
  marker : Marker.Settings := {}
  deriving DecidableEq, Repr

/-- Finds the first section that makes no sense. -/
def Settings.validate (c : Settings) : Except Fault Unit := do
  c.replay.validate
  c.pipe.validate
  c.tee.validate
  c.marker.validate

/-! As data -/

def Store.Settings.toValue (c : Store.Settings) : Value :=
  .table [("threshold", .ofOption .nat c.threshold), ("spill_dir", .ofOption .text c.spillDir)]

def Replay.Settings.toValue (c : Replay.Settings) : Value :=
  .table [("threshold", .ofOption .nat c.threshold), ("spill_dir", .ofOption .text c.spillDir),
    ("retain_history", .bool c.retainHistory), ("read_chunk", .nat c.readChunk)]

def Pipe.Strategy.word : Pipe.Strategy → String
  | .dedicated => "dedicated"
  | .pool => "pool"

def Pipe.Settings.toValue (c : Pipe.Settings) : Value :=
  .table [("buffer_size", .nat c.bufferSize), ("chunk_size", .nat c.chunkSize),
    ("strategy", .text c.strategy.word), ("join_on_close", .bool c.joinOnClose)]

def Tee.Settings.toValue (c : Tee.Settings) : Value :=
  .table [("close_sinks", .bool c.closeSinks), ("drain_on_close", .bool c.drainOnClose),
    ("drain_chunk", .nat c.drainChunk)]

def Marker.Settings.toValue (c : Marker.Settings) : Value :=
  .table [("start", .text c.start), ("stop", .text c.stop), ("single_pair", .bool c.singlePair)]

def Settings.toValue (c : Settings) : Value :=
  .table [("replay", c.replay.toValue), ("pipe", c.pipe.toValue), ("tee", c.tee.toValue),
    ("marker", c.marker.toValue)]

def MarkLimit.toValue : MarkLimit → Value
  | .unlimited => .text "Unlimited"
  | .invalidate => .text "Invalidate"
  | .bytes n => .table [("Bytes", .nat n)]

/-! From data -/

namespace Value

def toNat? : Value → Option Nat
  | .int n => if 0 ≤ n ∧ n < wordLimit then some n.toNat else none
  | _ => none

def toBool? : Value → Option Bool
  | .bool b => some b
  | _ => none

def toText? : Value → Option String
  | .text s => some s
  | _ => none

def toOption? (f : Value → Option α) : Value → Option (Option α)
  | .null => some none
  | v => (f v).map some

/-- The name of a choice, and what comes with it. A choice with nothing is its name alone, or the
name with null. -/
def toChoice? : Value → Option (String × Value)
  | .text s => some (s, .null)
  | .table [(s, v)] => some (s, v)
  | _ => none

/-- The fields of a record, in the order of `names`: of a table by name, where others are ignored and
none may be there twice; of a list by place. -/
def fields? (names : List String) (exact : Bool) : Value → Option (List (Option Value))
  | .table entries =>
    names.mapM fun name =>
      match entries.filter (·.1 = name) with
      | [] => some none
      | [(_, v)] => some (some v)
      | _ => none
  | .list items =>
    if exact && names.length < items.length then none
    else some ((List.range names.length).map (items[·]?))
  | _ => none

def orDefault (dflt : α) (f : Value → Option α) : Option Value → Option α
  | none => some dflt
  | some v => f v

end Value

def Pipe.Strategy.ofValue? (v : Value) : Option Pipe.Strategy :=
  match v.toChoice? with
  | some ("dedicated", .null) => some .dedicated
  | some ("pool", .null) => some .pool
  | _ => none

def MarkLimit.ofValue? (v : Value) : Option MarkLimit :=
  match v.toChoice? with
  | some ("Unlimited", .null) => some .unlimited
  | some ("Invalidate", .null) => some .invalidate
  | some ("Bytes", n) => n.toNat?.map .bytes
  | _ => none

/-- Store settings have no defaults: a list needs both fields, and in a table what is not there is
null. -/
def Store.Settings.ofValue? (v : Value) : Option Store.Settings := do
  match v, ← v.fields? ["threshold", "spill_dir"] true with
  | .list _, [some threshold, some spillDir] =>
    return ⟨← threshold.toOption? Value.toNat?, ← spillDir.toOption? Value.toText?⟩
  | .table _, [threshold, spillDir] =>
    return ⟨← Value.orDefault none (Value.toOption? Value.toNat?) threshold,
      ← Value.orDefault none (Value.toOption? Value.toText?) spillDir⟩
  | _, _ => none

def Replay.Settings.ofValue? (exact : Bool) (v : Value) : Option Replay.Settings := do
  match ← v.fields? ["threshold", "spill_dir", "retain_history", "read_chunk"] exact with
  | [threshold, spillDir, retainHistory, readChunk] =>
    let d : Replay.Settings := {}
    return ⟨← Value.orDefault d.threshold (Value.toOption? Value.toNat?) threshold,
      ← Value.orDefault d.spillDir (Value.toOption? Value.toText?) spillDir,
      ← Value.orDefault d.retainHistory Value.toBool? retainHistory,
      ← Value.orDefault d.readChunk Value.toNat? readChunk⟩
  | _ => none

def Pipe.Settings.ofValue? (exact : Bool) (v : Value) : Option Pipe.Settings := do
  match ← v.fields? ["buffer_size", "chunk_size", "strategy", "join_on_close"] exact with
  | [bufferSize, chunkSize, strategy, joinOnClose] =>
    let d : Pipe.Settings := {}
    return ⟨← Value.orDefault d.bufferSize Value.toNat? bufferSize,
      ← Value.orDefault d.chunkSize Value.toNat? chunkSize,
      ← Value.orDefault d.strategy Pipe.Strategy.ofValue? strategy,
      ← Value.orDefault d.joinOnClose Value.toBool? joinOnClose⟩
  | _ => none

def Tee.Settings.ofValue? (exact : Bool) (v : Value) : Option Tee.Settings := do
  match ← v.fields? ["close_sinks", "drain_on_close", "drain_chunk"] exact with
  | [closeSinks, drainOnClose, drainChunk] =>
    let d : Tee.Settings := {}
    return ⟨← Value.orDefault d.closeSinks Value.toBool? closeSinks,
      ← Value.orDefault d.drainOnClose Value.toBool? drainOnClose,
      ← Value.orDefault d.drainChunk Value.toNat? drainChunk⟩
  | _ => none

def Marker.Settings.ofValue? (exact : Bool) (v : Value) : Option Marker.Settings := do
  match ← v.fields? ["start", "stop", "single_pair"] exact with
  | [start, stop, singlePair] =>
    let d : Marker.Settings := {}
    return ⟨← Value.orDefault d.start Value.toText? start,
      ← Value.orDefault d.stop Value.toText? stop,
      ← Value.orDefault d.singlePair Value.toBool? singlePair⟩
  | _ => none

/-- Reads settings. Fields that are not there have their defaults; with `exact` a record written as a
list may have no further items. -/
def Settings.ofValue? (exact : Bool) (v : Value) : Option Settings := do
  match ← v.fields? ["replay", "pipe", "tee", "marker"] exact with
  | [replay, pipe, tee, marker] =>
    return ⟨← Value.orDefault {} (Replay.Settings.ofValue? exact) replay,
      ← Value.orDefault {} (Pipe.Settings.ofValue? exact) pipe,
      ← Value.orDefault {} (Tee.Settings.ofValue? exact) tee,
      ← Value.orDefault {} (Marker.Settings.ofValue? exact) marker⟩
  | _ => none

end StreamLayers
