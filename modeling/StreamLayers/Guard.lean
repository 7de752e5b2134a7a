import StreamLayers.Sink

/-!
Guards on `close`: `Once` passes on the first close alone, `Shield` passes on none.
-/

namespace StreamLayers

/-- Passes on the first `close`; later ones do nothing. -/
structure Once (τ : Type) where
  inner : τ
  /-- Whether the close was passed on. -/
  closed : Bool := false
  deriving Repr

/-- Never passes on a `close`. -/
structure Shield (τ : Type) where
  inner : τ
  deriving Repr

variable {σ κ : Type}

namespace Once

def setInner (g : Once σ) (inner : σ) : Once σ := { g with inner }

/-- The guard is set before the inner close is tried, so a failing close is not repeated. -/
instance [ByteSource σ] : ByteSource (Once σ) where
  name g := ByteSource.name g.inner
  read g n :=
    let (r, s) := ByteSource.read g.inner n
    (r, { g with inner := s })
  canMark g := ByteSource.canMark g.inner
  mark g limit :=
    let (r, s) := ByteSource.mark g.inner limit
    (r, { g with inner := s })
  reset g :=
    let (r, s) := ByteSource.reset g.inner
    (r, { g with inner := s })
  close g :=
    if g.closed then (.ok (), g)
    else
      let (r, s) := ByteSource.close g.inner
      (r, ⟨s, true⟩)
  left g := ByteSource.left g.inner

instance [ByteSink κ] : ByteSink (Once κ) where
  writeAll g d :=
    let (r, k) := ByteSink.writeAll g.inner d
    (r, { g with inner := k })
  flush g :=
    let (r, k) := ByteSink.flush g.inner
    (r, { g with inner := k })
  close g :=
    if g.closed then (.ok (), g)
    else
      let (r, k) := ByteSink.close g.inner
      (r, ⟨k, true⟩)

end Once

namespace Shield

instance [ByteSource σ] : ByteSource (Shield σ) where
  name g := ByteSource.name g.inner
  read g n :=
    let (r, s) := ByteSource.read g.inner n
    (r, ⟨s⟩)
  canMark g := ByteSource.canMark g.inner
  mark g limit :=
    let (r, s) := ByteSource.mark g.inner limit
    (r, ⟨s⟩)
  reset g :=
    let (r, s) := ByteSource.reset g.inner
    (r, ⟨s⟩)
  close g := (.ok (), g)
  left g := ByteSource.left g.inner

/-- A sink behind a shield is flushed instead of closed, so what was written still arrives. -/
instance [ByteSink κ] : ByteSink (Shield κ) where
  writeAll g d :=
    let (r, k) := ByteSink.writeAll g.inner d
    (r, ⟨k⟩)
  flush g :=
    let (r, k) := ByteSink.flush g.inner
    (r, ⟨k⟩)
  close g :=
    let (r, k) := ByteSink.flush g.inner
    (r, ⟨k⟩)

end Shield

inductive GuardKind where
  | once
  | shield
  deriving DecidableEq, Repr

namespace GuardKind

def State : GuardKind → Type → Type
  | .once, τ => Once τ
  | .shield, τ => Shield τ

variable {τ : Type}

def wrap : (g : GuardKind) → τ → g.State τ
  | .once, t => Once.mk t false
  | .shield, t => Shield.mk t

def inner : (g : GuardKind) → g.State τ → τ
  | .once, s => Once.inner s
  | .shield, s => Shield.inner s

def setInner : (g : GuardKind) → g.State τ → τ → g.State τ
  | .once, s, t => Once.setInner s t
  | .shield, _, t => Shield.mk t

instance sink [ByteSink τ] : (g : GuardKind) → ByteSink (g.State τ)
  | .once => inferInstanceAs (ByteSink (Once τ))
  | .shield => inferInstanceAs (ByteSink (Shield τ))

end GuardKind

/-- Something behind a nest of guards, the outermost first. -/
def Guarded (κ : Type) : List GuardKind → Type
  | [] => κ
  | g :: gs => g.State (Guarded κ gs)

namespace Guarded

def wrap (k : κ) : (gs : List GuardKind) → Guarded κ gs
  | [] => k
  | g :: gs => g.wrap (wrap k gs)

def core : (gs : List GuardKind) → Guarded κ gs → κ
  | [], k => k
  | g :: gs, s => core gs (g.inner s)

def setCore : (gs : List GuardKind) → Guarded κ gs → κ → Guarded κ gs
  | [], _, k => k
  | g :: gs, s, k => g.setInner s (setCore gs (g.inner s) k)

instance sink [ByteSink κ] : (gs : List GuardKind) → ByteSink (Guarded κ gs)
  | [] => inferInstanceAs (ByteSink κ)
  | g :: gs =>
    letI := sink gs
    inferInstanceAs (ByteSink (g.State (Guarded κ gs)))

end Guarded

end StreamLayers
