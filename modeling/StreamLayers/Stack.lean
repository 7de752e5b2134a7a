import StreamLayers.Marker
import StreamLayers.Probe
import StreamLayers.Replay
import StreamLayers.Tee

/-!
Stacks of layers over a base source. A stack is a source again, whatever its layers, and every
layer can be reached by its depth.
-/

namespace StreamLayers

inductive LayerKind where
  | replay
  | tee
  | marker
  | probe
  | once
  | shield
  deriving DecidableEq, Repr

namespace LayerKind

def State (κ : Type) : LayerKind → Type → Type
  | .replay, σ => Replay σ
  | .tee, σ => Tee κ σ
  | .marker, σ => Marker σ
  | .probe, σ => Probe σ
  | .once, σ => Once σ
  | .shield, σ => Shield σ

variable {κ σ : Type}

def inner : (k : LayerKind) → k.State κ σ → σ
  | .replay, s => (Replay.source s).inner
  | .tee, s => Tee.source s
  | .marker, s => Marker.source s
  | .probe, s => Probe.source s
  | .once, s => Once.inner s
  | .shield, s => Shield.inner s

def setInner : (k : LayerKind) → k.State κ σ → σ → k.State κ σ
  | .replay, s, i => Replay.setSource s i
  | .tee, s, i => Tee.setSource s i
  | .marker, s, i => Marker.setSource s i
  | .probe, s, i => Probe.setSource s i
  | .once, s, i => Once.setInner s i
  | .shield, _, i => Shield.mk i

instance source [ByteSource σ] [ByteSink κ] : (k : LayerKind) → ByteSource (k.State κ σ)
  | .replay => inferInstanceAs (ByteSource (Replay σ))
  | .tee => inferInstanceAs (ByteSource (Tee κ σ))
  | .marker => inferInstanceAs (ByteSource (Marker σ))
  | .probe => inferInstanceAs (ByteSource (Probe σ))
  | .once => inferInstanceAs (ByteSource (Once σ))
  | .shield => inferInstanceAs (ByteSource (Shield σ))

def store? : (k : LayerKind) → k.State κ σ → Option Store
  | .replay, s => some (Replay.store s)
  | .tee, _ | .marker, _ | .probe, _ | .once, _ | .shield, _ => none

def mapStore (f : Store → Store) : (k : LayerKind) → k.State κ σ → k.State κ σ
  | .replay, s => Replay.mapStore f s
  | .tee, s | .marker, s | .probe, s | .once, s | .shield, s => s

def sinks : (k : LayerKind) → k.State κ σ → List κ
  | .tee, s => (Tee.outlets s).map Outlet.sink
  | .replay, _ | .marker, _ | .probe, _ | .once, _ | .shield, _ => []

/-- Adds what a layer has counted to a registry. -/
def settle : (k : LayerKind) → k.State κ σ → Registry → k.State κ σ × Registry
  | .probe, s, r => Probe.settle s r
  | .replay, s, r | .tee, s, r | .marker, s, r | .once, s, r | .shield, s, r => (s, r)

end LayerKind

/-- Layers of the given kinds, the outermost first, over a base source. -/
def Stack (κ β : Type) : List LayerKind → Type
  | [] => β
  | k :: ks => k.State κ (Stack κ β ks)

namespace Stack

variable {κ β α : Type}

instance source [ByteSource β] [ByteSink κ] : (ks : List LayerKind) → ByteSource (Stack κ β ks)
  | [] => inferInstanceAs (ByteSource β)
  | k :: ks =>
    letI := source ks
    inferInstanceAs (ByteSource (k.State κ (Stack κ β ks)))

def base : (ks : List LayerKind) → Stack κ β ks → β
  | [], s => s
  | k :: ks, s => base ks (k.inner s)

/-- Acts on the stack that is left below the `depth` outermost layers. The layers above it do not
notice. -/
def act (f : (ks : List LayerKind) → Stack κ β ks → α × Stack κ β ks) :
    (ks : List LayerKind) → (depth : Nat) → Stack κ β ks → α × Stack κ β ks
  | ks, 0, s => f ks s
  | [], _ + 1, s => f [] s
  | k :: ks, depth + 1, s =>
    let (a, i) := act f ks depth (k.inner s)
    (a, k.setInner s i)

def stores : (ks : List LayerKind) → Stack κ β ks → List Store
  | [], _ => []
  | k :: ks, s => (k.store? s).toList ++ stores ks (k.inner s)

def mapStores (f : Store → Store) : (ks : List LayerKind) → Stack κ β ks → Stack κ β ks
  | [], s => s
  | k :: ks, s => k.mapStore f (k.setInner s (mapStores f ks (k.inner s)))

def sinks : (ks : List LayerKind) → Stack κ β ks → List κ
  | [], _ => []
  | k :: ks, s => k.sinks s ++ sinks ks (k.inner s)

def settle : (ks : List LayerKind) → Stack κ β ks → Registry → Stack κ β ks × Registry
  | [], s, r => (s, r)
  | k :: ks, s, r =>
    let (i, r) := settle ks (k.inner s) r
    k.settle (k.setInner s i) r

end Stack

end StreamLayers
