import StreamLayers.Proofs.Marker.Reads
import StreamLayers.Proofs.Stack.Fresh
import StreamLayers.Proofs.Tee

/-!
Closing what lies behind layers and guards. However often the outermost layer is closed, and
whatever fails on the way, the base is closed once, or never if a shield stands before it.
-/

namespace StreamLayers

variable {κ β σ τ ω : Type}

/-- Something that can be closed, and how often it was. -/
structure Counted (τ : Type) where
  inner : τ
  closes : Nat := 0
  deriving Repr

namespace Counted

def of (inner : τ) : Counted τ := { inner }

instance [ByteSource τ] : ByteSource (Counted τ) where
  name c := ByteSource.name c.inner
  read c n :=
    let (r, inner) := ByteSource.read c.inner n
    (r, { c with inner })
  canMark c := ByteSource.canMark c.inner
  mark c limit :=
    let (r, inner) := ByteSource.mark c.inner limit
    (r, { c with inner })
  reset c :=
    let (r, inner) := ByteSource.reset c.inner
    (r, { c with inner })
  close c :=
    let (r, inner) := ByteSource.close c.inner
    (r, { inner, closes := c.closes + 1 })
  left c := ByteSource.left c.inner

instance [ByteSink τ] : ByteSink (Counted τ) where
  writeAll c data :=
    let (r, inner) := ByteSink.writeAll c.inner data
    (r, { c with inner })
  flush c :=
    let (r, inner) := ByteSink.flush c.inner
    (r, { c with inner })
  close c :=
    let (r, inner) := ByteSink.close c.inner
    (r, { inner, closes := c.closes + 1 })

end Counted

section Runs

variable (apply : τ → ω → τ) (close : ω)

/-- Where a close counts until no further one does, and nothing else counts, of any number of closes
one does. -/
theorem gate_foldl [DecidableEq ω] (gate : τ → Nat × Bool)
    (hother : ∀ s op, op ≠ close → gate (apply s op) = gate s)
    (hclose : ∀ s, gate (apply s close) = ((gate s).1 + (if (gate s).2 then 0 else 1), true))
    (s : τ) (ops : List ω) :
    (gate (ops.foldl apply s)).1 =
      (gate s).1 + if (gate s).2 then 0 else min 1 (ops.count close) := by
  induction ops generalizing s with
  | nil => simp
  | cons op rest ih =>
    rw [List.foldl_cons, ih]
    by_cases hop : op = close
    · subst hop
      rw [hclose s, List.count_cons_self]
      split <;> simp
    · rw [hother s op hop, List.count_cons_of_ne hop]

/-- A flag that a close sets and that nothing takes back is set once something was closed. -/
theorem flag_foldl (flag : τ → Bool) (hkeep : ∀ s op, flag s = true → flag (apply s op) = true)
    (hclose : ∀ s, flag (apply s close) = true) {ops : List ω} (hmem : close ∈ ops) (s : τ) :
    flag (ops.foldl apply s) = true := by
  have hstay (ops : List ω) {s : τ} (h : flag s = true) : flag (ops.foldl apply s) = true := by
    induction ops generalizing s with
    | nil => exact h
    | cons op rest ih => exact ih (hkeep s op h)
  induction ops generalizing s with
  | nil => cases hmem
  | cons op rest ih =>
    rcases List.mem_cons.1 hmem with rfl | hrest
    · exact hstay rest (hclose s)
    · exact ih hrest (apply s op)

end Runs

/-- `gate` tells how often something behind a source was closed, and whether no further close of the
source gets there. -/
structure Gated [ByteSource σ] (gate : σ → Nat × Bool) : Prop where
  read : ∀ s n, gate (ByteSource.read s n).2 = gate s
  mark : ∀ s limit, gate (ByteSource.mark s limit).2 = gate s
  reset : ∀ s, gate (ByteSource.reset s).2 = gate s
  close : ∀ s, (gate (ByteSource.close s).2).1 = (gate s).1 + if (gate s).2 then 0 else 1

theorem Counted.gated [ByteSource σ] :
    Gated fun c : Counted σ => (c.closes, false) where
  read _ _ := rfl
  mark _ _ := rfl
  reset _ := rfl
  close _ := rfl

namespace LayerKind

/-- Whether a close of a layer does nothing and succeeds. -/
def ended : (k : LayerKind) → k.State κ σ → Bool
  | .replay, b => Replay.closed b
  | .tee, t => Tee.closed t
  | .marker, m => Marker.closed m
  | .probe, p => Probe.closed p
  | .once, o => Once.closed o
  | .shield, _ => true

/-- Whether a layer closes what it wraps no more. -/
def shut : (k : LayerKind) → k.State κ σ → Bool
  | .replay, b => Replay.closed b || (Replay.source b).closed
  | .tee, t => Tee.closed t
  | .marker, m => Marker.closed m
  | .probe, p => Probe.closed p
  | .once, o => Once.closed o
  | .shield, _ => true

theorem shut_of_ended {k : LayerKind} {s : k.State κ σ} (h : k.ended s = true) :
    k.shut s = true := by
  cases k with
  | replay => exact Bool.or_eq_true_iff.2 (.inl h)
  | tee => exact h
  | marker => exact h
  | probe => exact h
  | once => exact h
  | shield => rfl

theorem mapStore_closing (k : LayerKind) (f : Store → Store) (s : k.State κ σ) (i : σ) :
    k.inner (k.mapStore f (k.setInner s i)) = i ∧
      k.shut (k.mapStore f (k.setInner s i)) = k.shut s ∧
      k.ended (k.mapStore f (k.setInner s i)) = k.ended s := by
  cases k <;> exact ⟨rfl, rfl, rfl⟩

end LayerKind

/-- Two states of a layer between which nothing was closed. -/
structure Level (gate : σ → Nat × Bool) (k : LayerKind) (s t : k.State κ σ) : Prop where
  inner_eq : gate (k.inner t) = gate (k.inner s)
  shut_eq : k.shut t = k.shut s
  ended_eq : k.ended t = k.ended s

section Layers

variable [ByteSource σ] {gate : σ → Nat × Bool} (h : Gated gate)

include h

theorem Gated.marker_fetch (n fuel : Nat) (m : Marker σ) :
    gate (m.fetch n fuel).2.source = gate m.source ∧ (m.fetch n fuel).2.closed = m.closed := by
  induction fuel generalizing m with
  | zero => exact ⟨rfl, rfl⟩
  | succ fuel ih =>
    have hread := h.read m.source defaultChunk
    unfold Marker.fetch
    rcases hr : ByteSource.read m.source defaultChunk with ⟨e | _ | ⟨b, d⟩, s⟩ <;> rw [hr] at hread
    · exact ⟨hread, rfl⟩
    · exact ⟨hread, rfl⟩
    · have hframe := ({ m with source := s, input := b :: d } : Marker σ).answer_frame n
      obtain ⟨hsource, hclosed⟩ := hframe
      rcases ha : Marker.answer { m with source := s, input := b :: d } n with ⟨_ | out, c⟩ <;>
        rw [ha] at hsource hclosed <;> simp only [ha]
      · obtain ⟨hgate, hflag⟩ := ih c
        exact ⟨hgate.trans ((congrArg gate hsource).trans hread), hflag.trans hclosed⟩
      · exact ⟨(congrArg gate hsource).trans hread, hclosed⟩

theorem Gated.marker_read (m : Marker σ) (n : Nat) :
    gate (m.read n).2.source = gate m.source ∧ (m.read n).2.closed = m.closed := by
  obtain ⟨hsource, hclosed⟩ := m.answer_frame n
  unfold Marker.read
  split
  · exact ⟨rfl, rfl⟩
  · rcases ha : m.answer n with ⟨_ | out, a⟩ <;> rw [ha] at hsource hclosed
    · obtain ⟨hgate, hflag⟩ := h.marker_fetch n Marker.patience a
      rcases hf : a.fetch n Marker.patience with ⟨_ | r, c⟩ <;> rw [hf] at hgate hflag <;>
        simp only [hf]
      · obtain ⟨hgate', hflag'⟩ := h.marker_fetch n (ByteSource.left c.source + 1) c
        exact ⟨hgate'.trans (hgate.trans (congrArg gate hsource)),
          hflag'.trans (hflag.trans hclosed)⟩
      · exact ⟨hgate.trans (congrArg gate hsource), hflag.trans hclosed⟩
    · exact ⟨congrArg gate hsource, hclosed⟩

variable [ByteSink κ]

theorem Gated.tee_pass (t : Tee κ σ) (n : Nat) :
    gate (t.passThrough n).2.source = gate t.source := by
  have hread := h.read t.source n
  rw [Tee.passThrough_eq]
  rcases hr : ByteSource.read t.source n with ⟨e | _ | ⟨b, d⟩, s⟩ <;> rw [hr] at hread
  · exact hread
  · exact hread
  · rw [Tee.pass_source]
    exact hread

theorem Gated.tee_passes (k : Nat) (t : Tee κ σ) :
    gate (Tee.passChunks k t).source = gate t.source := by
  induction k generalizing t with
  | zero => rfl
  | succ k ih => exact (ih t.passChunk).trans (h.tee_pass t _)

theorem Gated.tee_read (t : Tee κ σ) (n : Nat) :
    gate (t.read n).2.source = gate t.source ∧ (t.read n).2.closed = t.closed := by
  rw [Tee.read_snd]
  split
  · exact ⟨rfl, rfl⟩
  · exact ⟨h.tee_pass t n, Tee.passThrough_closed t n⟩

/-- A tee drains its source before it closes it, and closes its sinks after that. -/
theorem Gated.tee_close (t : Tee κ σ) :
    (gate t.close.2.source).1 =
        (gate t.source).1 + (if t.closed || (gate t.source).2 then 0 else 1) ∧
      t.close.2.closed = true ∧ (t.closed = true → t.close.1 = .ok ()) := by
  rcases hc : t.closed with _ | _
  · have hdrained := h.tee_passes t.shut.closePasses t.shut
    have hclosed : (Tee.passChunks t.shut.closePasses t.shut).closed = true :=
      Tee.passChunks_closed _ _
    have hclose := h.close (Tee.passChunks t.shut.closePasses t.shut).source
    rw [hdrained] at hclose
    rw [Tee.close_eq t hc]
    exact ⟨hclose, hclosed, nofun⟩
  · simp [Tee.close, hc]

omit [ByteSink κ]

theorem Gated.once_close (o : Once σ) :
    (gate (ByteSource.close o).2.inner).1 =
        (gate o.inner).1 + (if o.closed || (gate o.inner).2 then 0 else 1) ∧
      (ByteSource.close o).2.closed = true ∧
      (o.closed = true → (ByteSource.close o).1 = .ok ()) := by
  obtain ⟨inner, _ | _⟩ := o
  · exact ⟨h.close inner, rfl, nofun⟩
  · exact ⟨rfl, rfl, fun _ => rfl⟩

theorem Gated.replay_close (b : Replay σ) :
    (gate b.close.2.source.inner).1 = (gate b.source.inner).1 +
        (if b.closed || b.source.closed || (gate b.source.inner).2 then 0 else 1) ∧
      b.close.2.closed = true ∧ (b.closed = true → b.close.1 = .ok ()) := by
  rcases hc : b.closed with _ | _
  · obtain ⟨hclose, -⟩ := h.once_close b.source
    have hopen : ¬ b.closed = true := by simp [hc]
    unfold Replay.close
    rw [if_neg hopen]
    rcases hs : ByteSource.close b.source with ⟨e | u, source⟩ <;> rw [hs] at hclose <;>
      exact ⟨hclose, rfl, nofun⟩
  · simp [Replay.close, hc]

theorem Gated.marker_close (m : Marker σ) :
    (gate m.close.2.source).1 =
        (gate m.source).1 + (if m.closed || (gate m.source).2 then 0 else 1) ∧
      m.close.2.closed = true ∧ (m.closed = true → m.close.1 = .ok ()) := by
  rcases hc : m.closed with _ | _
  · have hopen : ¬ m.closed = true := by simp [hc]
    unfold Marker.close
    rw [if_neg hopen]
    exact ⟨h.close m.source, rfl, nofun⟩
  · simp [Marker.close, hc]

theorem Gated.probe_close (p : Probe σ) :
    (gate p.close.2.source).1 =
        (gate p.source).1 + (if p.closed || (gate p.source).2 then 0 else 1) ∧
      p.close.2.closed = true ∧ (p.closed = true → p.close.1 = .ok ()) := by
  rcases hc : p.closed with _ | _
  · have hopen : ¬ p.closed = true := by simp [hc]
    unfold Probe.close
    rw [if_neg hopen]
    exact ⟨h.close p.source, rfl, nofun⟩
  · simp [Probe.close, hc]

variable [ByteSink κ]

theorem Gated.layer_read (k : LayerKind) (s : k.State κ σ) (n : Nat) :
    Level gate k s (ByteSource.read s n).2 := by
  cases k with
  | replay =>
    obtain ⟨-, -, hclosed, hsource⟩ := Replay.read_moved s n
    have hshut : (Replay.read s n).2.source.closed = (Replay.source s).closed := by
      rcases hsource with hs | hs <;> rw [hs]
      rfl
    refine ⟨?_, congrArg₂ or hclosed hshut, hclosed⟩
    show gate (Replay.read s n).2.source.inner = gate (Replay.source s).inner
    rcases hsource with hs | hs <;> rw [hs]
    exact h.read (Replay.source s).inner n
  | tee =>
    obtain ⟨hgate, hclosed⟩ := h.tee_read s n
    exact ⟨hgate, hclosed, hclosed⟩
  | marker =>
    obtain ⟨hgate, hclosed⟩ := h.marker_read s n
    exact ⟨hgate, hclosed, hclosed⟩
  | probe =>
    have hread := h.read (Probe.source s) n
    show Level gate .probe s (Probe.read s n).2
    unfold Probe.read
    split
    · exact ⟨rfl, rfl, rfl⟩
    · rcases hr : ByteSource.read (Probe.source s) n with ⟨e | d, i⟩ <;> rw [hr] at hread <;>
        exact ⟨hread, rfl, rfl⟩
  | once => exact ⟨h.read (Once.inner s) n, rfl, rfl⟩
  | shield => exact ⟨h.read (Shield.inner s) n, rfl, rfl⟩

theorem Gated.layer_mark (k : LayerKind) (s : k.State κ σ) (limit : MarkLimit) :
    Level gate k s (ByteSource.mark s limit).2 := by
  cases k with
  | replay =>
    obtain ⟨⟨-, hsource, hclosed⟩, -⟩ := Replay.setMark_moved s limit
    refine ⟨congrArg (gate ∘ Once.inner) hsource, ?_, hclosed⟩
    exact congrArg₂ or hclosed (congrArg Once.closed hsource)
  | tee =>
    have hmark := h.mark (Tee.source s) limit
    show Level gate .tee s (Tee.setMark s limit).2
    unfold Tee.setMark
    rcases hr : ByteSource.mark (Tee.source s) limit with ⟨e | u, i⟩ <;> rw [hr] at hmark <;>
      exact ⟨hmark, rfl, rfl⟩
  | marker => exact ⟨rfl, rfl, rfl⟩
  | probe =>
    have hmark := h.mark (Probe.source s) limit
    show Level gate .probe s (Probe.setMark s limit).2
    unfold Probe.setMark
    rcases hr : ByteSource.mark (Probe.source s) limit with ⟨e | u, i⟩ <;> rw [hr] at hmark <;>
      exact ⟨hmark, rfl, rfl⟩
  | once => exact ⟨h.mark (Once.inner s) limit, rfl, rfl⟩
  | shield => exact ⟨h.mark (Shield.inner s) limit, rfl, rfl⟩

theorem Gated.layer_reset (k : LayerKind) (s : k.State κ σ) :
    Level gate k s (ByteSource.reset s).2 := by
  cases k with
  | replay =>
    obtain ⟨hsource, hclosed⟩ := Replay.reset_kept s
    refine ⟨congrArg (gate ∘ Once.inner) hsource, ?_, hclosed⟩
    exact congrArg₂ or hclosed (congrArg Once.closed hsource)
  | tee =>
    have hreset := h.reset (Tee.source s)
    show Level gate .tee s (Tee.reset s).2
    unfold Tee.reset
    rcases Tee.markPosition s with _ | p
    · exact ⟨rfl, rfl, rfl⟩
    · rcases hr : ByteSource.reset (Tee.source s) with ⟨e | u, i⟩ <;> rw [hr] at hreset <;>
        exact ⟨hreset, rfl, rfl⟩
  | marker => exact ⟨rfl, rfl, rfl⟩
  | probe =>
    have hreset := h.reset (Probe.source s)
    show Level gate .probe s (Probe.reset s).2
    unfold Probe.reset
    rcases hr : ByteSource.reset (Probe.source s) with ⟨e | u, i⟩ <;> rw [hr] at hreset <;>
      exact ⟨hreset, rfl, rfl⟩
  | once => exact ⟨h.reset (Once.inner s), rfl, rfl⟩
  | shield => exact ⟨h.reset (Shield.inner s), rfl, rfl⟩

/-- Whatever fails, a layer closes what it wraps once, and is ended then. -/
theorem Gated.layer_close (k : LayerKind) (s : k.State κ σ) :
    (gate (k.inner (ByteSource.close s).2)).1 =
        (gate (k.inner s)).1 + (if k.shut s || (gate (k.inner s)).2 then 0 else 1) ∧
      k.ended (ByteSource.close s).2 = true ∧
      (k.ended s = true → (ByteSource.close s).1 = .ok ()) := by
  cases k with
  | replay => exact h.replay_close s
  | tee => exact h.tee_close s
  | marker => exact h.marker_close s
  | probe => exact h.probe_close s
  | once => exact h.once_close s
  | shield => exact ⟨rfl, rfl, fun _ => rfl⟩

end Layers

namespace Stack

/-- How often the base of a stack was closed, if `base` tells that of the base source, and whether
no further close of the outermost layer gets there. -/
def gate (base : β → Nat × Bool) : (ks : List LayerKind) → Stack κ β ks → Nat × Bool
  | [], s => base s
  | k :: ks, s => ((gate base ks (k.inner s)).1, k.shut s || (gate base ks (k.inner s)).2)

/-- Whether a close of the outermost layer does nothing and succeeds. -/
def ended : (ks : List LayerKind) → Stack κ β ks → Bool
  | [], _ => false
  | k :: _, s => k.ended s

theorem gate_counted (ks : List LayerKind) (s : Stack κ (Counted β) ks) :
    (gate (fun c => (c.closes, false)) ks s).1 = (base ks s).closes := by
  induction ks with
  | nil => rfl
  | cons k ks ih => exact ih (k.inner s)

/-- Of new layers, only a shield keeps a close from the base. -/
theorem Fresh.gate_eq {bottom : β} {ks : List LayerKind} {s : Stack κ β ks} (h : Fresh bottom ks s)
    {inmost : β → Nat × Bool} (hopen : (inmost bottom).2 = false) :
    gate inmost ks s = ((inmost bottom).1, decide (.shield ∈ ks)) := by
  have above {k : LayerKind} {ks : List LayerKind} {s : k.State κ (Stack κ β ks)}
      {i : Stack κ β ks} (hi : k.inner s = i)
      (ih : gate inmost ks i = ((inmost bottom).1, decide (.shield ∈ ks)))
      (hshut : k.shut s = decide (.shield = k)) :
      gate inmost (k :: ks) s = ((inmost bottom).1, decide (.shield ∈ k :: ks)) := by
    subst hi
    show ((gate inmost ks (k.inner s)).1, k.shut s || (gate inmost ks (k.inner s)).2) = _
    rw [ih, hshut]
    simp [List.mem_cons, Bool.decide_or]
  induction h with
  | base => exact Prod.ext rfl hopen
  | replay below made ih =>
    obtain ⟨hsource, -, -, -, hclosed⟩ := made.start
    exact above made.inner_eq ih (congrArg₂ or hclosed (congrArg Once.closed hsource))
  | tee below made ih =>
    obtain rfl := Tee.ofSettings_start made
    exact above rfl ih rfl
  | marker below start stop singlePair ih => exact above rfl ih rfl
  | markerOf below made ih =>
    obtain rfl := Marker.ofSettings_start made
    exact above rfl ih rfl
  | probe below site ih => exact above rfl ih rfl
  | once below ih => exact above rfl ih rfl
  | shield below ih => exact above rfl ih rfl

/-- What can be asked of a stack, or happen to the directories of its stores. -/
inductive Call where
  | read (n : Nat)
  | mark (limit : MarkLimit)
  | reset
  | close
  | directoryMade (name : String)
  | directoryRemoved (name : String)
  deriving DecidableEq, Repr

variable [ByteSource β] [ByteSink κ]

def Call.apply (ks : List LayerKind) (s : Stack κ β ks) : Call → Stack κ β ks
  | read n => (ByteSource.read s n).2
  | mark limit => (ByteSource.mark s limit).2
  | reset => (ByteSource.reset s).2
  | close => (ByteSource.close s).2
  | directoryMade name => mapStores (Store.directoryMade name) ks s
  | directoryRemoved name => mapStores (Store.directoryRemoved name) ks s

def afterCalls (ks : List LayerKind) (s : Stack κ β ks) (calls : List Call) : Stack κ β ks :=
  calls.foldl (Call.apply ks) s

omit [ByteSource β] [ByteSink κ] in
theorem mapStores_closing (inmost : β → Nat × Bool) (f : Store → Store) (ks : List LayerKind)
    (s : Stack κ β ks) :
    gate inmost ks (mapStores f ks s) = gate inmost ks s ∧
      ended ks (mapStores f ks s) = ended ks s := by
  induction ks with
  | nil => exact ⟨rfl, rfl⟩
  | cons k ks ih =>
    obtain ⟨hi, hshut, hended⟩ := k.mapStore_closing f s (mapStores f ks (k.inner s))
    have hgate := (congrArg (gate inmost ks) hi).trans (ih (k.inner s)).1
    have hcount := congrArg Prod.fst hgate
    have hsealed := congrArg₂ or hshut (congrArg Prod.snd hgate)
    exact ⟨Prod.ext hcount hsealed, hended⟩

theorem gated {inmost : β → Nat × Bool} (h : Gated inmost) (ks : List LayerKind) :
    Gated (gate (κ := κ) inmost ks) := by
  induction ks with
  | nil => exact h
  | cons k ks ih =>
    have level {s t : k.State κ (Stack κ β ks)} (hl : Level (gate inmost ks) k s t) :
        gate inmost (k :: ks) t = gate inmost (k :: ks) s := by
      have hcount := congrArg Prod.fst hl.inner_eq
      have hsealed := congrArg₂ or hl.shut_eq (congrArg Prod.snd hl.inner_eq)
      exact Prod.ext hcount hsealed
    exact {
      read := fun s n => level (ih.layer_read k s n)
      mark := fun s limit => level (ih.layer_mark k s limit)
      reset := fun s => level (ih.layer_reset k s)
      close := fun s => (ih.layer_close k s).1 }

section Calls

variable {inmost : β → Nat × Bool} (h : Gated inmost)

include h

/-- A close of the outermost layer gets to the base unless one did before. -/
theorem gate_close {ks : List LayerKind} (hks : ks ≠ []) (s : Stack κ β ks) :
    gate inmost ks (ByteSource.close s).2 =
        ((gate inmost ks s).1 + (if (gate inmost ks s).2 then 0 else 1), true) ∧
      ended ks (ByteSource.close s).2 = true ∧
      (ended ks s = true → (ByteSource.close s).1 = .ok ()) := by
  cases ks with
  | nil => exact absurd rfl hks
  | cons k ks =>
    obtain ⟨hcount, hended, hok⟩ := (gated h ks).layer_close k s
    have hsealed : (gate inmost (k :: ks) (ByteSource.close s).2).2 = true :=
      Bool.or_eq_true_iff.2 (.inl (LayerKind.shut_of_ended hended))
    exact ⟨Prod.ext hcount hsealed, hended, hok⟩

theorem gate_apply {ks : List LayerKind} (s : Stack κ β ks) {call : Call} (hc : call ≠ .close) :
    gate inmost ks (call.apply ks s) = gate inmost ks s := by
  cases call with
  | read n => exact (gated h ks).read s n
  | mark limit => exact (gated h ks).mark s limit
  | reset => exact (gated h ks).reset s
  | close => exact absurd rfl hc
  | directoryMade name => exact (mapStores_closing inmost _ ks s).1
  | directoryRemoved name => exact (mapStores_closing inmost _ ks s).1

theorem ended_apply {ks : List LayerKind} (s : Stack κ β ks) (call : Call)
    (he : ended ks s = true) : ended ks (call.apply ks s) = true := by
  cases ks with
  | nil => cases he
  | cons k ks =>
    have level {t : k.State κ (Stack κ β ks)} (hl : Level (gate inmost ks) k s t) :
        ended (k :: ks) t = true := hl.ended_eq.trans he
    have hrest : Gated (gate (κ := κ) inmost ks) := gated h ks
    cases call with
    | read n => exact level (hrest.layer_read k s n)
    | mark limit => exact level (hrest.layer_mark k s limit)
    | reset => exact level (hrest.layer_reset k s)
    | close => exact (hrest.layer_close k s).2.1
    | directoryMade name => exact (mapStores_closing inmost _ (k :: ks) s).2.trans he
    | directoryRemoved name => exact (mapStores_closing inmost _ (k :: ks) s).2.trans he

end Calls

/-- However a stack is used, of the closes of its outermost layer one gets to the base, or none if a
shield is in between; all but the first succeed. -/
theorem closes_afterCalls {source : β} {ks : List LayerKind} {s : Stack κ (Counted β) ks}
    (hs : Fresh (Counted.of source) ks s) (hks : ks ≠ []) (calls : List Call) :
    (base ks (afterCalls ks s calls)).closes =
        (if .shield ∈ ks then 0 else min 1 (calls.count .close)) ∧
      (.close ∈ calls → (ByteSource.close (afterCalls ks s calls)).1 = .ok ()) := by
  have hcounted : Gated fun c : Counted β => (c.closes, false) := Counted.gated
  constructor
  · have hrun := gate_foldl (Call.apply ks) .close (gate (fun c => (c.closes, false)) ks)
      (fun s _ hc => gate_apply hcounted s hc) (fun s => (gate_close hcounted hks s).1) s calls
    rw [hs.gate_eq rfl, gate_counted] at hrun
    refine hrun.trans ?_
    simp [Counted.of]
  · intro hmem
    refine (gate_close hcounted hks _).2.2 ?_
    exact flag_foldl (Call.apply ks) .close (ended ks) (fun s call => ended_apply hcounted s call)
      (fun s => (gate_close hcounted hks s).2.1) hmem s

end Stack

/-- `gate` tells how often something behind a sink was closed, and whether no further close of the
sink gets there. -/
structure SinkGated [ByteSink κ] (gate : κ → Nat × Bool) : Prop where
  writeAll : ∀ k data, gate (ByteSink.writeAll k data).2 = gate k
  flush : ∀ k, gate (ByteSink.flush k).2 = gate k
  close : ∀ k, (gate (ByteSink.close k).2).1 = (gate k).1 + if (gate k).2 then 0 else 1

theorem Counted.sinkGated [ByteSink κ] : SinkGated fun c : Counted κ => (c.closes, false) where
  writeAll _ _ := rfl
  flush _ := rfl
  close _ := rfl

theorem Once.sink_close [ByteSink κ] (o : Once κ) :
    (ByteSink.close o).2.closed = true ∧ (o.closed = true → (ByteSink.close o).1 = .ok ()) := by
  obtain ⟨inner, _ | _⟩ := o
  · exact ⟨rfl, nofun⟩
  · exact ⟨rfl, fun _ => rfl⟩

/-- Whether a guard closes what it guards no more. -/
def GuardKind.shut : (g : GuardKind) → g.State τ → Bool
  | .once, o => Once.closed o
  | .shield, _ => true

namespace Guarded

/-- How often what is behind all of the guards was closed, if `core` tells that of it, and whether
no further close gets there. -/
def gate (inmost : κ → Nat × Bool) : (gs : List GuardKind) → Guarded κ gs → Nat × Bool
  | [], k => inmost k
  | g :: gs, s => ((gate inmost gs (g.inner s)).1, g.shut s || (gate inmost gs (g.inner s)).2)

theorem gate_counted (gs : List GuardKind) (s : Guarded (Counted κ) gs) :
    (gate (fun c => (c.closes, false)) gs s).1 = (core gs s).closes := by
  induction gs with
  | nil => rfl
  | cons g gs ih => exact ih (g.inner s)

theorem gate_wrap (inmost : κ → Nat × Bool) (k : κ) (hopen : (inmost k).2 = false)
    (gs : List GuardKind) :
    gate inmost gs (wrap k gs) = ((inmost k).1, decide (.shield ∈ gs)) := by
  induction gs with
  | nil => exact Prod.ext rfl hopen
  | cons g gs ih =>
    have hinner : g.inner (wrap k (g :: gs)) = wrap k gs := by cases g <;> rfl
    have hshut : g.shut (wrap k (g :: gs)) = decide (.shield = g) := by cases g <;> rfl
    show ((gate inmost gs (g.inner (wrap k (g :: gs)))).1,
      g.shut (wrap k (g :: gs)) || (gate inmost gs (g.inner (wrap k (g :: gs)))).2) = _
    rw [hinner, hshut, ih]
    simp [List.mem_cons, Bool.decide_or]

/-- What can be asked of a sink. -/
inductive Call where
  | writeAll (data : Bytes)
  | flush
  | close
  deriving DecidableEq, Repr

variable [ByteSink κ]

def Call.apply (gs : List GuardKind) (s : Guarded κ gs) : Call → Guarded κ gs
  | writeAll data => (ByteSink.writeAll s data).2
  | flush => (ByteSink.flush s).2
  | close => (ByteSink.close s).2

def afterCalls (gs : List GuardKind) (s : Guarded κ gs) (calls : List Call) : Guarded κ gs :=
  calls.foldl (Call.apply gs) s

section Calls

variable {inmost : κ → Nat × Bool} (h : SinkGated inmost)

include h

theorem gated (gs : List GuardKind) : SinkGated (gate inmost gs) := by
  induction gs with
  | nil => exact h
  | cons g gs ih =>
    have level {s t : g.State (Guarded κ gs)}
        (hi : gate inmost gs (g.inner t) = gate inmost gs (g.inner s)) (hs : g.shut t = g.shut s) :
        gate inmost (g :: gs) t = gate inmost (g :: gs) s := by
      have hcount := congrArg Prod.fst hi
      have hsealed := congrArg₂ or hs (congrArg Prod.snd hi)
      exact Prod.ext hcount hsealed
    cases g with
    | once =>
      exact {
        writeAll := fun o data => level (ih.writeAll (Once.inner o) data) rfl
        flush := fun o => level (ih.flush (Once.inner o)) rfl
        close := fun o => by
          obtain ⟨inner, _ | _⟩ := o
          · exact ih.close inner
          · rfl }
    | shield =>
      exact {
        writeAll := fun o data => level (ih.writeAll (Shield.inner o) data) rfl
        flush := fun o => level (ih.flush (Shield.inner o)) rfl
        close := fun o => by
          have hcount := congrArg Prod.fst (ih.flush (Shield.inner o))
          exact hcount }

theorem gate_close {gs : List GuardKind} (hgs : gs ≠ []) (s : Guarded κ gs) :
    gate inmost gs (ByteSink.close s).2 =
      ((gate inmost gs s).1 + (if (gate inmost gs s).2 then 0 else 1), true) := by
  have hcount := (gated h gs).close s
  cases gs with
  | nil => exact absurd rfl hgs
  | cons g gs =>
    refine Prod.ext hcount ?_
    cases g with
    | once =>
      obtain ⟨inner, _ | _⟩ := s
      · rfl
      · rfl
    | shield => rfl

theorem gate_apply {gs : List GuardKind} (s : Guarded κ gs) {call : Call} (hc : call ≠ .close) :
    gate inmost gs (call.apply gs s) = gate inmost gs s := by
  cases call with
  | writeAll data => exact (gated h gs).writeAll s data
  | flush => exact (gated h gs).flush s
  | close => exact absurd rfl hc

end Calls

/-- However a nest of guards is used, of its closes one gets to the sink, or none if a shield is in
between; if the outermost guard passes on only one, all the others succeed. -/
theorem closes_afterCalls (sink : κ) {gs : List GuardKind} (hgs : gs ≠ []) (calls : List Call) :
    (core gs (afterCalls gs (wrap (Counted.of sink) gs) calls)).closes =
        (if .shield ∈ gs then 0 else min 1 (calls.count .close)) ∧
      (gs.head? = some .once → .close ∈ calls →
        (ByteSink.close (afterCalls gs (wrap (Counted.of sink) gs) calls)).1 = .ok ()) := by
  have hcounted : SinkGated fun c : Counted κ => (c.closes, false) := Counted.sinkGated
  constructor
  · have hrun := gate_foldl (Call.apply gs) .close (gate (fun c => (c.closes, false)) gs)
      (fun s _ hc => gate_apply hcounted s hc) (fun s => gate_close hcounted hgs s)
      (wrap (Counted.of sink) gs) calls
    rw [gate_wrap _ _ rfl, gate_counted] at hrun
    refine hrun.trans ?_
    simp [Counted.of]
  · intro hhead hmem
    cases gs with
    | nil => cases hhead
    | cons g gs =>
      obtain rfl := Option.some.inj hhead
      have hflag : Once.closed
          (afterCalls (.once :: gs) (wrap (Counted.of sink) (.once :: gs)) calls) = true := by
        refine flag_foldl (Call.apply (.once :: gs)) .close Once.closed (fun o call ho => ?_)
          (fun o => (Once.sink_close o).1) hmem _
        cases call with
        | writeAll data => exact ho
        | flush => exact ho
        | close => exact (Once.sink_close o).1
      exact (Once.sink_close _).2 hflag

end Guarded

/-- However a stack of layers and a nest of guards around a sink are used, and whatever fails on the
way, of all closes of the outermost layer one gets to the bottom, or none if a shield is in between.
After the first, a close of a layer succeeds. -/
theorem closed_once [ByteSource σ] [ByteSink κ] [ByteSink τ] {source : σ} {ks : List LayerKind}
    {s : Stack κ (Counted σ) ks} (hs : Stack.Fresh (Counted.of source) ks s) (hks : ks ≠ [])
    (calls : List Stack.Call) (sink : τ) {gs : List GuardKind} (hgs : gs ≠ [])
    (uses : List Guarded.Call) :
    ((Stack.base ks (Stack.afterCalls ks s calls)).closes =
          (if .shield ∈ ks then 0 else min 1 (calls.count .close)) ∧
        (.close ∈ calls → (ByteSource.close (Stack.afterCalls ks s calls)).1 = .ok ())) ∧
      (Guarded.core gs (Guarded.afterCalls gs (Guarded.wrap (Counted.of sink) gs) uses)).closes =
          (if .shield ∈ gs then 0 else min 1 (uses.count .close)) ∧
        (gs.head? = some .once → .close ∈ uses →
          (ByteSink.close (Guarded.afterCalls gs (Guarded.wrap (Counted.of sink) gs) uses)).1 =
            .ok ()) :=
  ⟨Stack.closes_afterCalls hs hks calls, Guarded.closes_afterCalls sink hgs uses⟩

/-- A tee whose drain fails over a buffer that cannot delete its file, over a source whose close
fails as well; and a sink behind a guard and a shield. -/
theorem closed_once_failing :
    let source : MockSource :=
      { rest := [1, 2, 3, 4, 5, 6, 7, 8], failAt := some 6, failClose := true }
    let b : Replay (Counted MockSource) :=
      Replay.withStore (Counted.of source) (Store.Settings.build ⟨some 2, some "dir"⟩ true)
    let t : Tee PlainSink (Stack PlainSink (Counted MockSource) [.replay]) :=
      { source := b, outlets := [{ sink := {} }] }
    let ks : List LayerKind := [.tee, .replay]
    let s : Stack PlainSink (Counted MockSource) ks := t
    let calls : List Stack.Call := [.mark .unlimited, .read 4, .directoryRemoved "dir"]
    let uses : List Guarded.Call := [.writeAll [1], .close, .close]
    Stack.Fresh (Counted.of source) ks s ∧
      (ByteSource.close (Stack.afterCalls ks s calls)).1.isOk = false ∧
      (Stack.base ks (Stack.afterCalls ks s (calls ++ [.close, .reset, .close]))).closes = 1 ∧
      (ByteSource.close (Stack.afterCalls ks s (calls ++ [.close, .reset, .close]))).1 = .ok () ∧
      (Guarded.core [.once, .shield] (Guarded.afterCalls [.once, .shield]
        (Guarded.wrap (Counted.of ({} : PlainSink)) [.once, .shield]) uses)).closes = 0 := by
  intro source b t ks s calls uses
  have hb : Replay.New (Counted.of source) b := .withStore _
  have ht : Tee.ofSettings (show Stack PlainSink (Counted MockSource) [.replay] from b)
      [({} : PlainSink)] {} = .ok t := rfl
  have hs : Stack.Fresh (Counted.of source) ks s := .tee (.replay .base hb) ht
  have hks : ks ≠ [] := nofun
  have hgs : [GuardKind.once, .shield] ≠ [] := nofun
  obtain ⟨⟨hone, hok⟩, hnone, -⟩ :=
    closed_once hs hks (calls ++ [.close, .reset, .close]) ({} : PlainSink) hgs uses
  exact ⟨hs, by decide +kernel, hone, hok (by decide), hnone⟩

end StreamLayers
