import StreamLayers.Proofs.Sink
import StreamLayers.Tee

/-!
What the operations of a tee do to it, apart from the answers: draining is a run of passes, and no
operation looks behind the sinks.
-/

namespace StreamLayers

variable {κ κ' σ : Type}

namespace Outlet

def mapSink (f : κ → κ') (o : Outlet κ) : Outlet κ' := ⟨f o.sink, o.enabled⟩

/-- An outlet after it was offered `data`. -/
def offered [ByteSink κ] (data : Bytes) (o : Outlet κ) : Outlet κ :=
  if o.enabled then { o with sink := (ByteSink.writeAll o.sink data).2 } else o

/-- An outlet after it was closed or flushed. -/
def ended [ByteSink κ] (closeSinks : Bool) (o : Outlet κ) : Outlet κ :=
  { o with sink := (if closeSinks then ByteSink.close o.sink else ByteSink.flush o.sink).2 }

variable [ByteSink κ] [ByteSink κ'] {f : κ → κ'}

end Outlet

namespace Tee

/-- The tee with every sink replaced. -/
def mapSinks (f : κ → κ') (t : Tee κ σ) : Tee κ' σ :=
  { t with outlets := t.outlets.map (Outlet.mapSink f) }

/-- Which outlets are enabled. -/
def flags (t : Tee κ σ) : List Bool := t.outlets.map Outlet.enabled

section Sinks

variable [ByteSink κ] [ByteSink κ'] {f : κ → κ'}

/-- All of the enabled outlets are offered the bytes, whichever of them fail. -/
theorem forward_outlets (data : Bytes) (index : Nat) (outlets : List (Outlet κ)) :
    (forward data index outlets).2 = outlets.map (Outlet.offered data) := by
  induction outlets generalizing index with
  | nil => rfl
  | cons o rest ih =>
    have hrest := ih (index + 1)
    rcases hr : forward data (index + 1) rest with ⟨later, rest'⟩
    rw [hr] at hrest
    obtain rfl : rest' = rest.map (Outlet.offered data) := hrest
    by_cases ho : o.enabled = true
    · rcases hw : ByteSink.writeAll o.sink data with ⟨e | u, k⟩ <;>
        simp [forward, hr, ho, hw, Outlet.offered]
    · simp [forward, hr, ho, Outlet.offered]

theorem closeOutlets_outlets (closeSinks : Bool) (index : Nat) (outlets : List (Outlet κ)) :
    (closeOutlets closeSinks index outlets).2 = outlets.map (Outlet.ended closeSinks) := by
  induction outlets generalizing index with
  | nil => rfl
  | cons o rest ih =>
    have hrest := ih (index + 1)
    rcases hr : closeOutlets closeSinks (index + 1) rest with ⟨later, rest'⟩
    rw [hr] at hrest
    obtain rfl : rest' = rest.map (Outlet.ended closeSinks) := hrest
    rcases hw : (if closeSinks then ByteSink.close o.sink else ByteSink.flush o.sink) with
      ⟨e | u, k⟩ <;> simp [closeOutlets, hr, hw, Outlet.ended]

/-- What of `data` the sinks have not seen. -/
def fresh (t : Tee κ σ) (data : Bytes) : Bytes :=
  data.drop (t.destinationPosition - t.sourcePosition)

theorem pass_eq (t : Tee κ σ) (data : Bytes) :
    (t.pass data).2 =
      { t with
        sourcePosition := t.sourcePosition + data.length
        destinationPosition := max t.destinationPosition (t.sourcePosition + data.length)
        outlets :=
          if t.destinationPosition < t.sourcePosition + data.length then
            t.outlets.map (Outlet.offered (t.fresh data))
          else t.outlets } := by
  unfold pass
  by_cases hd : t.destinationPosition < t.sourcePosition + data.length
  · have hf := forward_outlets (t.fresh data) 0 t.outlets
    unfold fresh at hf ⊢
    simp only [hd, if_true, ← hf]
  · simp only [hd, if_false]

@[simp] theorem pass_source (t : Tee κ σ) (data : Bytes) : (t.pass data).2.source = t.source := by
  rw [pass_eq]

@[simp] theorem pass_sourcePosition (t : Tee κ σ) (data : Bytes) :
    (t.pass data).2.sourcePosition = t.sourcePosition + data.length := by
  rw [pass_eq]

@[simp] theorem pass_destinationPosition (t : Tee κ σ) (data : Bytes) :
    (t.pass data).2.destinationPosition =
      max t.destinationPosition (t.sourcePosition + data.length) := by
  rw [pass_eq]

@[simp] theorem pass_settings (t : Tee κ σ) (data : Bytes) :
    (t.pass data).2.settings = t.settings := by
  rw [pass_eq]

@[simp] theorem pass_markPosition (t : Tee κ σ) (data : Bytes) :
    (t.pass data).2.markPosition = t.markPosition := by
  rw [pass_eq]

@[simp] theorem pass_closed (t : Tee κ σ) (data : Bytes) : (t.pass data).2.closed = t.closed := by
  rw [pass_eq]

@[simp] theorem flags_pass (t : Tee κ σ) (data : Bytes) : (t.pass data).2.flags = t.flags := by
  have hoffered : Outlet.enabled ∘ Outlet.offered (κ := κ) (t.fresh data) = Outlet.enabled := by
    funext o
    simp only [Function.comp, Outlet.offered]
    split <;> rfl
  rw [pass_eq]
  unfold flags
  split
  · rw [List.map_map, hoffered]
  · rfl

end Sinks

variable [ByteSource σ]

section Draining

variable [ByteSink κ]

theorem passThrough_eq (t : Tee κ σ) (n : Nat) :
    (t.passThrough n).2 =
      match ByteSource.read t.source n with
      | (.ok (b :: d), s) => ({ t with source := s }.pass (b :: d)).2
      | (_, s) => { t with source := s } := by
  unfold passThrough
  rcases ByteSource.read t.source n with ⟨e | d, s⟩
  · rfl
  · cases d with
    | nil => rfl
    | cons b d => rfl

@[simp] theorem flags_passThrough (t : Tee κ σ) (n : Nat) :
    (t.passThrough n).2.flags = t.flags := by
  rw [passThrough_eq]
  split
  · rw [flags_pass]
    rfl
  · rfl

@[simp] theorem passThrough_closed (t : Tee κ σ) (n : Nat) :
    (t.passThrough n).2.closed = t.closed := by
  rw [passThrough_eq]
  split
  · rw [pass_closed]
  · rfl

@[simp] theorem passThrough_markPosition (t : Tee κ σ) (n : Nat) :
    (t.passThrough n).2.markPosition = t.markPosition := by
  rw [passThrough_eq]
  split
  · rw [pass_markPosition]
  · rfl

@[simp] theorem passThrough_settings (t : Tee κ σ) (n : Nat) :
    (t.passThrough n).2.settings = t.settings := by
  rw [passThrough_eq]
  split
  · rw [pass_settings]
  · rfl

@[simp] theorem passThrough_source (t : Tee κ σ) (n : Nat) :
    (t.passThrough n).2.source = (ByteSource.read t.source n).2 := by
  rw [passThrough_eq]
  split <;> rename_i hr
  · rw [pass_source, hr]
  · rw [hr]

/-- How a read of an open tee can go. -/
inductive Relayed (t : Tee κ σ) (n : Nat) : Except Fault Bytes × Tee κ σ → Prop where
  | failed {e : Fault} {s : σ} (source : ByteSource.read t.source n = (.error e, s)) :
      Relayed t n (.error e, { t with source := s })
  | ended {s : σ} (source : ByteSource.read t.source n = (.ok [], s)) :
      Relayed t n (.ok [], { t with source := s })
  /-- The bytes moved the positions and were offered to the sinks. -/
  | passed {b : UInt8} {d : Bytes} {s : σ} {u : Tee κ σ}
      (source : ByteSource.read t.source n = (.ok (b :: d), s))
      (pass : ({ t with source := s } : Tee κ σ).pass (b :: d) = (none, u)) :
      Relayed t n (.ok (b :: d), u)
  /-- So they did, and a sink failed. -/
  | refused {b : UInt8} {d : Bytes} {s : σ} {e : Fault} {u : Tee κ σ}
      (source : ByteSource.read t.source n = (.ok (b :: d), s))
      (pass : ({ t with source := s } : Tee κ σ).pass (b :: d) = (some e, u)) :
      Relayed t n (.error e, u)

theorem relayed_read {t : Tee κ σ} (hopen : t.closed = false) (n : Nat) :
    Relayed t n (t.read n) := by
  unfold Tee.read passThrough
  rw [if_neg (by simp [hopen])]
  rcases hr : ByteSource.read t.source n with ⟨e | _ | ⟨b, d⟩, s⟩
  · exact .failed hr
  · exact .ended hr
  · dsimp only
    rcases hp : ({ t with source := s } : Tee κ σ).pass (b :: d) with ⟨_ | e, u⟩
    · exact .passed hr hp
    · exact .refused hr hp

def passChunk (t : Tee κ σ) : Tee κ σ := (t.passThrough t.settings.drainChunk).2

/-- How many passes a drain takes. -/
def drainPasses : Nat → Tee κ σ → Nat
  | fuel, t =>
    match ByteSource.read t.source t.settings.drainChunk with
    | (.ok (_ :: _), _) =>
      match fuel with
      | 0 => 1
      | fuel + 1 => drainPasses fuel t.passChunk + 1
    | _ => 1

def passChunks : Nat → Tee κ σ → Tee κ σ
  | 0, t => t
  | k + 1, t => passChunks k t.passChunk

theorem passChunks_closed (k : Nat) (t : Tee κ σ) : (passChunks k t).closed = t.closed := by
  induction k generalizing t with
  | zero => rfl
  | succ k ih => rw [passChunks, ih, passChunk, passThrough_closed]

theorem passChunks_settings (k : Nat) (t : Tee κ σ) : (passChunks k t).settings = t.settings := by
  induction k generalizing t with
  | zero => rfl
  | succ k ih => rw [passChunks, ih, passChunk, passThrough_settings]

theorem passChunks_flags (k : Nat) (t : Tee κ σ) : (passChunks k t).flags = t.flags := by
  induction k generalizing t with
  | zero => rfl
  | succ k ih => rw [passChunks, ih, passChunk, flags_passThrough]

theorem drainFrom_eq_passes (fuel : Nat) (t : Tee κ σ) (first : Option Fault) :
    (drainFrom fuel t first).2 = passChunks (drainPasses fuel t) t := by
  induction fuel generalizing t first with
  | zero =>
    unfold drainFrom drainPasses
    rcases hr : ByteSource.read t.source t.settings.drainChunk with ⟨e | d, s⟩
    · simp [passThrough, passChunk, passChunks, hr]
    · cases d with
      | nil => simp [passThrough, passChunk, passChunks, hr]
      | cons b d => simp [passThrough, passChunk, passChunks, hr]
  | succ fuel ih =>
    unfold drainFrom drainPasses
    rcases hr : ByteSource.read t.source t.settings.drainChunk with ⟨e | d, s⟩
    · simp [passThrough, passChunk, passChunks, hr]
    · cases d with
      | nil => simp [passThrough, passChunk, passChunks, hr]
      | cons b d => simp [passThrough, passChunk, passChunks, hr, ih]

def closePasses (t : Tee κ σ) : Nat :=
  if t.settings.drainOnClose then drainPasses (ByteSource.left t.source) t else 0

theorem drain_eq_passes (t : Tee κ σ) : t.drain.2 = passChunks t.closePasses t := by
  unfold drain closePasses
  split
  · exact drainFrom_eq_passes _ t none
  · rfl

/-- The tee as it is closed with its sinks and its source still open. -/
def shut (t : Tee κ σ) : Tee κ σ := { t with closed := true }

theorem close_eq (t : Tee κ σ) (ht : t.closed = false) :
    t.close.2 =
      let u := passChunks t.shut.closePasses t.shut
      { u with
        source := (ByteSource.close u.source).2
        outlets := u.outlets.map (Outlet.ended u.settings.closeSinks) } := by
  have hd := drain_eq_passes t.shut
  unfold close
  simp only [ht, Bool.false_eq_true, if_false]
  have hshut : ({ t with closed := true } : Tee κ σ) = t.shut := rfl
  rw [hshut]
  rcases hdrain : t.shut.drain with ⟨draining, u⟩
  rw [hdrain] at hd
  rcases hc : ByteSource.close u.source with ⟨closing, s⟩
  have ho := closeOutlets_outlets u.settings.closeSinks 0 u.outlets
  rcases hr : closeOutlets u.settings.closeSinks 0 u.outlets with ⟨releasing, outlets⟩
  rw [hr] at ho
  simp only at hd ho
  subst hd ho
  simp only [hc]
  split <;> rfl

theorem read_snd (t : Tee κ σ) (n : Nat) :
    (t.read n).2 = if t.closed then t else (t.passThrough n).2 := by
  unfold read
  split
  · rfl
  · rcases t.passThrough n with ⟨e | ⟨d, _ | e⟩, u⟩ <;> rfl

theorem read_snd_of_open {t : Tee κ σ} (hopen : t.closed = false) (n : Nat) :
    (t.read n).2 = (t.passThrough n).2 := by
  rw [read_snd, hopen]
  rfl

end Draining

section Sinks

variable [ByteSink κ] [ByteSink κ'] {f : κ → κ'}

end Sinks

end Tee

end StreamLayers
