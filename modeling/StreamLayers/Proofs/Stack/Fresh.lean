import Mathlib.Logic.Basic
import StreamLayers.Proofs.Replay.Cursor
import StreamLayers.Stack

/-!
Stacks of new layers, as they are built one over the other.
-/

namespace StreamLayers

theorem Tee.ofSettings_start {κ σ : Type} {source : σ} {sinks : List κ} {c : Settings} {t : Tee κ σ}
    (made : Tee.ofSettings source sinks c = .ok t) :
    t = { source, outlets := sinks.map ({ sink := · }), settings := c } := by
  unfold Tee.ofSettings at made
  split at made
  · cases made
  · split at made
    · cases made
    · exact (Except.ok.inj made).symm

theorem Marker.ofSettings_start {σ : Type} {source : σ} {c : Settings} {m : Marker σ}
    (made : Marker.ofSettings source c = .ok m) :
    m = ofMarkers source (.ofText c.start) (.ofText c.stop) c.singlePair := by
  unfold Marker.ofSettings at made
  split at made
  · cases made
  · exact (Except.ok.inj made).symm

namespace Stack

variable {κ β : Type}

/-- A stack of new layers over `base`. -/
inductive Fresh (base : β) : (ks : List LayerKind) → Stack κ β ks → Prop where
  | base : Fresh base [] base
  | replay {ks : List LayerKind} {s : Stack κ β ks} {b : Replay (Stack κ β ks)}
      (below : Fresh base ks s) (made : Replay.New s b) : Fresh base (.replay :: ks) b
  | tee {ks : List LayerKind} {s : Stack κ β ks} {sinks : List κ} {c : Tee.Settings}
      {t : Tee κ (Stack κ β ks)} (below : Fresh base ks s)
      (made : Tee.ofSettings s sinks c = .ok t) : Fresh base (.tee :: ks) t
  | marker {ks : List LayerKind} {s : Stack κ β ks} (below : Fresh base ks s)
      (start stop : Bytes) (singlePair : Bool) :
      Fresh base (.marker :: ks) (Marker.ofMarkers s start stop singlePair)
  | markerOf {ks : List LayerKind} {s : Stack κ β ks} {c : Marker.Settings}
      {m : Marker (Stack κ β ks)} (below : Fresh base ks s) (made : Marker.ofSettings s c = .ok m) :
      Fresh base (.marker :: ks) m
  | probe {ks : List LayerKind} {s : Stack κ β ks} (below : Fresh base ks s) (site : CallSite) :
      Fresh base (.probe :: ks) (Probe.attach s site)
  | once {ks : List LayerKind} {s : Stack κ β ks} (below : Fresh base ks s) :
      Fresh base (.once :: ks) (Once.mk s false)
  | shield {ks : List LayerKind} {s : Stack κ β ks} (below : Fresh base ks s) :
      Fresh base (.shield :: ks) (Shield.mk s)

theorem Fresh.base_eq {base : β} {ks : List LayerKind} {s : Stack κ β ks} (h : Fresh base ks s) :
    Stack.base ks s = base := by
  induction h with
  | base => rfl
  | replay below made ih => exact (congrArg (Stack.base _) made.inner_eq).trans ih
  | tee below made ih =>
    obtain rfl := Tee.ofSettings_start made
    exact ih
  | marker below start stop singlePair ih => exact ih
  | markerOf below made ih =>
    obtain rfl := Marker.ofSettings_start made
    exact ih
  | probe below site ih => exact ih
  | once below ih => exact ih
  | shield below ih => exact ih

end Stack

end StreamLayers
