import StreamLayers.Scenario.Base
import StreamLayers.Scenario.Directories
import StreamLayers.Scenario.Sink
import StreamLayers.Stack

/-!
Scenarios on a stack of layers: how it is built, a script of operations on any of its layers and on
free sinks, and what each operation answers.
-/

namespace StreamLayers

structure Layers where
  kinds : List LayerKind
  stack : Stack NumberedSink BaseSource kinds

/-- Everything that a scenario's operations can reach. -/
structure StackScenario where
  /-- The stack, if the scenario has one. -/
  layers : Option Layers := none
  /-- Sinks outside of the stack. -/
  free : List NumberedSink := []
  /-- How many sinks were created. -/
  sinkCount : Nat := 0
  directories : Directories := .initial
  /-- What the probes have counted: those of the scenario's own registry and, under call sites of
  their own, those of the registry that all programs share. -/
  registry : Registry := {}

namespace StackScenario

inductive Plan where
  | replay (c : Replay.Settings)
  /-- A replay buffer on a store of the settings' making; the other settings do not matter. -/
  | replayOnStore (c : Store.Settings)
  | tee (c : Tee.Settings) (sinks : List NumberedSink.Plan)
  | marker (start stop : Bytes) (singlePair : Bool)
  | markerOf (c : Marker.Settings)
  | probe (shared : Bool) (site : Nat)
  | once
  | shield

def site (shared : Bool) (n : Nat) : CallSite := ⟨if shared then "shared" else "scenario", n, 0⟩

inductive BuildFailure where
  | start (e : Pipe.StartFailure) (index : Nat)
  | layer (e : Fault) (index : Nat)

def newSinks (s : StackScenario) (plans : List NumberedSink.Plan) :
    List NumberedSink × StackScenario :=
  (plans.mapIdx fun i p => .ofPlan (s.sinkCount + i) p,
    { s with sinkCount := s.sinkCount + plans.length })

def addLayer (l : Layers) (s : StackScenario) : Plan → Except Fault (Layers × StackScenario)
  | .replay c =>
    (Replay.ofSettings l.stack c (s.directories.admits c.spillDir)).map fun b =>
      (⟨.replay :: l.kinds, b⟩, s)
  | .replayOnStore c =>
    let b := Replay.withStore l.stack (c.build (s.directories.admits c.spillDir))
    .ok (⟨.replay :: l.kinds, b⟩, s)
  | .tee c plans =>
    let (sinks, s) := s.newSinks plans
    (Tee.ofSettings l.stack sinks c).map fun t => (⟨.tee :: l.kinds, t⟩, s)
  | .marker start stop singlePair =>
    .ok (⟨.marker :: l.kinds, Marker.ofMarkers l.stack start stop singlePair⟩, s)
  | .markerOf c => (Marker.ofSettings l.stack c).map fun m => (⟨.marker :: l.kinds, m⟩, s)
  | .probe shared n => .ok (⟨.probe :: l.kinds, Probe.attach l.stack (site shared n)⟩, s)
  | .once => .ok (⟨.once :: l.kinds, Once.mk l.stack false⟩, s)
  | .shield => .ok (⟨.shield :: l.kinds, Shield.mk l.stack⟩, s)

private def addLayers (l : Layers) (s : StackScenario) :
    Nat → List Plan → Except BuildFailure StackScenario
  | _, [] => .ok { s with layers := some l }
  | index, p :: ps =>
    match addLayer l s p with
    | .error e => .error (.layer e index)
    | .ok (l, s) => addLayers l s (index + 1) ps

/-- Adds what the probes have counted to the registry. -/
def settle (s : StackScenario) : StackScenario :=
  match s.layers with
  | none => s
  | some ⟨kinds, stack⟩ =>
    let (stack, registry) := Stack.settle kinds stack s.registry
    { s with layers := some ⟨kinds, stack⟩, registry }

/-- Builds a stack from the base source outwards. -/
def build (base : Option BaseSource.Plan) (plans : List Plan) : Except BuildFailure StackScenario :=
  match base with
  | none => .ok {}
  | some p =>
    match p.start with
    | .error e => .error (.start e 0)
    | .ok b => (addLayers ⟨[], b⟩ {} 1 plans).map settle

inductive LayerStep where
  | read (n : Nat)
  | readFull (n : Nat)
  | readToEnd
  /-- Reads blocks up to the end. -/
  | readBlocks (n : Nat)
  /-- A read in the system's terms. -/
  | readOs (n : Nat)
  | mark (limit : MarkLimit)
  | reset
  | close
  | describe
  | describeInner
  | seek (target : Nat)
  | setEnabled (index : Nat) (enabled : Bool)
  | isEnabled (index : Nat)
  | addSink (p : NumberedSink.Plan)
  /-- The outcome of a pipe's producer. -/
  | outcome
  /-- Waits for the outcome of a pipe's producer. -/
  | await
  /-- Removes the outermost layer. -/
  | unwrap
  /-- Pumps into a free sink. -/
  | pump (chunk sink : Nat)

inductive SinkStep where
  | write (data : Bytes)
  | flush
  | close
  | isClosed
  | flushInner
  | unwrap

inductive Step where
  /-- On the layer with this index, the base source having index 0; on the outermost without one. -/
  | layer (index : Option Nat) (step : LayerStep)
  | newSink (p : NumberedSink.Plan)
  | sink (index : Nat) (step : SinkStep)
  | makeDirectory (name : String)
  | removeDirectory (name : String)

inductive Reply where
  | done
  | failed (e : Fault)
  | failedOs (e : OsError)
  | got (data : Bytes)
  /-- All that was read, with the total unless a read failed. -/
  | gotAll (total : Except Fault Nat) (data : Bytes)
  | gotBlocks (blocks : List Bytes) (failure : Option Fault)
  /-- What a system read got, from which layer, and whether that can be marked. -/
  | gotOs (data : Bytes) (name : String) (canMark : Bool)
  | layer (name : String) (canMark : Bool)
  /-- What a layer of some kind wraps; a probe without bytes adds its throughput. -/
  | wraps (kind : LayerKind) (name : String) (throughput : Option Float)
  | position (n : Nat)
  | enabled (b : Bool)
  | index (n : Nat)
  | outcome (o : BaseSource.Outcome)
  | finished
  | unwrapped (name : String)
  | pumped (n : Nat)
  | closed (b : Bool)
  /-- Whether a sink that was taken apart still had its writer. -/
  | released (b : Bool)
  | directory (worked : Bool)
  /-- The layer or sink has no such operation. -/
  | unsupported

private def ofUnit : Except Fault Unit → Reply
  | .ok () => .done
  | .error e => .failed e

private def ofBytes : Except Fault Bytes → Reply
  | .ok d => .got d
  | .error e => .failed e

/-- The operations that a layer has because of its kind. -/
def ownStep (fresh : NumberedSink) : LayerStep → (ks : List LayerKind) →
    Stack NumberedSink BaseSource ks → Reply × Stack NumberedSink BaseSource ks
  | .seek target, .replay :: _, s =>
    let (r, b) := Replay.seek s target
    (match r with
      | .ok n => .position n
      | .error e => .failed e, b)
  | .setEnabled index on, .tee :: _, s =>
    let (r, t) := Tee.setEnabled s index on
    (ofUnit r, t)
  | .isEnabled index, .tee :: _, s =>
    (match Tee.isEnabled s index with
      | .ok b => .enabled b
      | .error e => .failed e, s)
  | .addSink _, .tee :: _, s =>
    let (index, t) := Tee.addSink s fresh
    (.index index, t)
  | .describeInner, .probe :: ks, s =>
    let p : Probe (Stack NumberedSink BaseSource ks) := s
    (.wraps .probe (ByteSource.name p.source)
      (if p.bytes = 0 then some (bytesPerSecond 0 0 0) else none), s)
  | .describeInner, k :: _, s => (.wraps k (ByteSource.name (k.inner s)) none, s)
  | .outcome, [], s =>
    match BaseSource.outcome? s with
    | some (.ok o, s) => (.outcome o, s)
    | some (.error e, s) => (.failed e, s)
    | none => (.unsupported, s)
  | .await, [], s => (.finished, BaseSource.awaitOutcome s)
  | _, _, s => (.unsupported, s)

def layerStep (fresh : NumberedSink) (step : LayerStep) (ks : List LayerKind)
    (s : Stack NumberedSink BaseSource ks) : Reply × Stack NumberedSink BaseSource ks :=
  match step with
  | .read n => let (r, s) := ByteSource.read s n; (ofBytes r, s)
  | .readFull n => let (r, s) := ByteSource.readFull s n; (ofBytes r, s)
  | .readToEnd => let r := ByteSource.readToEnd s; (.gotAll r.total r.data, r.state)
  | .readBlocks n => let r := ByteSource.readBlocks s n; (.gotBlocks r.blocks r.failure, r.state)
  | .readOs n =>
    match ByteSource.readOs s n with
    | (.ok d, s) => (.gotOs d (ByteSource.name s) (ByteSource.canMark s), s)
    | (.error e, s) => (.failedOs e, s)
  | .mark limit => let (r, s) := ByteSource.mark s limit; (ofUnit r, s)
  | .reset => let (r, s) := ByteSource.reset s; (ofUnit r, s)
  | .close => let (r, s) := ByteSource.close s; (ofUnit r, s)
  | .describe => (.layer (ByteSource.name s) (ByteSource.canMark s), s)
  | step => ownStep fresh step ks s

/-- Removes the outermost layer, if it gives back what it wraps. -/
def unwrap : Layers → Option Layers
  | ⟨.once :: ks, s⟩ => some ⟨ks, Once.inner s⟩
  | ⟨.shield :: ks, s⟩ => some ⟨ks, Shield.inner s⟩
  | ⟨.probe :: ks, s⟩ => some ⟨ks, Probe.source s⟩
  | _ => none

def sinkStep (k : NumberedSink) : SinkStep → Reply × NumberedSink
  | .write data => let (r, k) := ByteSink.writeAll k data; (ofUnit r, k)
  | .flush => let (r, k) := ByteSink.flush k; (ofUnit r, k)
  | .close => let (r, k) := ByteSink.close k; (ofUnit r, k)
  | .isClosed =>
    match k.isClosed? with
    | some b => (.closed b, k)
    | none => (.unsupported, k)
  | .flushInner =>
    match k.flushInner? with
    | some (r, k) => (ofUnit r, k)
    | none => (.unsupported, k)
  | .unwrap =>
    match k.unguard? with
    | some k => (.done, k)
    | none =>
      match k.bare.release with
      | some (b, bare) => (.released b, .ofPlan k.number ⟨bare, []⟩)
      | none => (.unsupported, k)

def mapStores (f : Store → Store) (s : StackScenario) : StackScenario :=
  { s with layers := s.layers.map fun l => ⟨l.kinds, Stack.mapStores f l.kinds l.stack⟩ }

/-- How many layers lie above the one with an index. -/
private def depthOf (kinds : List LayerKind) : Option Nat → Nat
  | some index => kinds.length - index
  | none => 0

private def actOn (s : StackScenario) (index : Option Nat) (step : LayerStep) :
    Reply × StackScenario :=
  match s.layers, step with
  | none, _ => (.unsupported, s)
  | some l, .unwrap =>
    match unwrap l with
    | some l => (.unwrapped (ByteSource.name l.stack), { s with layers := some l })
    | none => (.unsupported, s)
  | some ⟨kinds, stack⟩, .pump chunk sink =>
    match s.free[sink]? with
    | none => (.unsupported, s)
    | some k =>
      let ((r, k), stack) := Stack.act (fun _ t =>
        let p := StreamLayers.pump t k chunk
        ((p.result, p.sink), p.source)) kinds (depthOf kinds index) stack
      (match r with
        | .ok n => .pumped n
        | .error e => .failed e,
        { s with layers := some ⟨kinds, stack⟩, free := s.free.set sink k })
  | some ⟨kinds, stack⟩, .addSink p =>
    let (r, stack) := Stack.act (layerStep (.ofPlan s.sinkCount p) step) kinds
      (depthOf kinds index) stack
    (r, { s with layers := some ⟨kinds, stack⟩, sinkCount := s.sinkCount + 1 })
  | some ⟨kinds, stack⟩, step =>
    let (r, stack) := Stack.act (layerStep (.ofPlan 0 ⟨.plain {}, []⟩) step) kinds
      (depthOf kinds index) stack
    (r, { s with layers := some ⟨kinds, stack⟩ })

def step (s : StackScenario) : Step → Reply × StackScenario
  | .layer index step => let (r, s) := s.actOn index step; (r, s.settle)
  | .newSink p =>
    (.index s.free.length, { s with
      free := s.free ++ [.ofPlan s.sinkCount p], sinkCount := s.sinkCount + 1 })
  | .sink index step =>
    match s.free[index]? with
    | none => (.unsupported, s)
    | some k => let (r, k) := sinkStep k step; (r, { s with free := s.free.set index k })
  | .makeDirectory name =>
    let (worked, directories) := s.directories.make name
    (.directory worked,
      { if worked then s.mapStores (.directoryMade name) else s with directories })
  | .removeDirectory name =>
    let (worked, directories) := s.directories.remove name
    (.directory worked,
      { if worked then s.mapStores (.directoryRemoved name) else s with directories })

/-- What shows of a layer from outside. -/
inductive LayerView where
  | mock (pulled reads closes : Nat)
  | replay (position sourcePosition buffered : Nat) (spilled canReset : Bool)
  | tee (source destination sinks : Nat)
  | marker (regions : Nat) (done : Bool)
  | probe (size reads : Nat) (average : Float)
  | once (closed : Bool)
  /-- A layer of which nothing shows. -/
  | plain

private def viewBase : BaseSource → LayerView
  | .mock s => .mock s.pulled s.reads s.closes
  | .reader _ | .plain _ | .pipe _ | .copy _ => .plain

private def viewLayer {σ : Type} : (k : LayerKind) → k.State NumberedSink σ → LayerView
  | .replay, s =>
    let b : Replay σ := s
    .replay b.position b.sourcePosition b.buffered b.store.isSpilled b.mark.isActive
  | .tee, s =>
    let t : Tee NumberedSink σ := s
    .tee t.sourcePosition t.destinationPosition t.outlets.length
  | .marker, s =>
    let m : Marker σ := s
    .marker m.scanner.regions m.isDone
  | .probe, s =>
    let p : Probe σ := s
    .probe p.bytes p.reads (Probe.averageReadSize (.ofNat p.bytes) (.ofNat p.reads))
  | .once, s => .once (Once.closed s)
  | .shield, _ => .plain

private def viewStack : (ks : List LayerKind) → Stack NumberedSink BaseSource ks → List LayerView
  | [], s => [viewBase s]
  | k :: ks, s => viewStack ks (k.inner s) ++ [viewLayer k s]

/-- What shows of the layers, the base source first. -/
def views (s : StackScenario) : List LayerView :=
  match s.layers with
  | some l => viewStack l.kinds l.stack
  | none => []

def sinks (s : StackScenario) : List NumberedSink :=
  let owned := match s.layers with
    | some l => Stack.sinks l.kinds l.stack
    | none => []
  (owned ++ s.free).mergeSort fun a b => a.number ≤ b.number

def files (s : StackScenario) (name : String) : Option Nat :=
  if s.directories.has name then
    let stores := match s.layers with
      | some l => Stack.stores l.kinds l.stack
      | none => []
    some (stores.foldr (fun s n => s.filesIn name + n) 0)
  else none

def dropStores (s : StackScenario) : StackScenario :=
  s.mapStores fun store => store.release.2

/-- The tallies of the scenario's own registry by number of the call site. -/
def ownTallies (s : StackScenario) : List (Nat × Tally) :=
  s.registry.sites.filterMap fun (c, t) => if c = site false c.line then some (c.line, t) else none

/-- What was added to the shared registry. -/
def sharedTally (s : StackScenario) : Tally :=
  (s.registry.sites.filter fun (c, _) => c = site true c.line).foldl (fun t e => t + e.2) {}

end StackScenario

end StreamLayers
