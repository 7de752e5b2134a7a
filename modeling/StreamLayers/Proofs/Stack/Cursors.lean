import StreamLayers.Mock
import StreamLayers.Proofs.Replay.Cursor
import StreamLayers.Proofs.Stack.Fresh
import StreamLayers.Proofs.Tee

/-!
Positions across a stack. Tees and probes over a replay buffer each keep a copy of its position and
of the position of its mark, and go back on their own. Through reads, marks and resets, whichever of
them fail, every copy of the position stays what the buffer says.
-/

namespace StreamLayers

variable {κ σ : Type}

/-- No write to any of these sinks has failed. -/
def Unrefused (sinks : List (Observed κ)) : Prop := ∀ k ∈ sinks, k.refused = false

theorem unrefused_cons {k : Observed κ} {rest : List (Observed κ)} :
    Unrefused (k :: rest) ↔ k.refused = false ∧ Unrefused rest := List.forall_mem_cons

theorem unrefused_append {a b : List (Observed κ)} :
    Unrefused (a ++ b) ↔ Unrefused a ∧ Unrefused b := List.forall_mem_append

theorem Observed.ok_of_unrefused [ByteSink κ] {k : Observed κ} {data : Bytes}
    (h : (ByteSink.writeAll k data).2.refused = false) :
    (ByteSink.writeAll k data).1 = .ok () ∧ k.refused = false := by
  refine ⟨?_, (Observed.accepted_writeAll k data h).1⟩
  revert h
  simp only [ByteSink.writeAll]
  rcases ByteSink.writeAll k.inner data with ⟨e | u, i⟩
  · exact nofun
  · exact fun _ => rfl

namespace Tee

variable [ByteSink κ]

/-- A tee reports no failure as long as no sink has refused anything. -/
theorem unrefused_forward {data : Bytes} {index : Nat} {outlets : List (Outlet (Observed κ))}
    (h : Unrefused ((forward data index outlets).2.map Outlet.sink)) :
    (forward data index outlets).1 = none ∧ Unrefused (outlets.map Outlet.sink) := by
  induction outlets generalizing index with
  | nil => exact ⟨rfl, h⟩
  | cons o rest ih =>
    have hrest := @ih (index + 1)
    rcases hf : forward data (index + 1) rest with ⟨later, rest'⟩
    rw [hf] at hrest
    simp only [forward, hf] at h ⊢
    split at h
    · rename_i ho
      rw [if_pos ho]
      rcases hw : ByteSink.writeAll o.sink data with ⟨e | u, k⟩ <;> simp only [hw] at h ⊢ <;>
        obtain ⟨hk, hlater⟩ := unrefused_cons.1 h <;>
        have hok : (ByteSink.writeAll o.sink data).1 = .ok () ∧ o.sink.refused = false :=
          Observed.ok_of_unrefused (by rw [hw]; exact hk)
      · rw [hw] at hok
        cases hok.1
      · obtain ⟨hnone, hold⟩ := hrest hlater
        exact ⟨hnone, unrefused_cons.2 ⟨hok.2, hold⟩⟩
    · rename_i ho
      rw [if_neg ho]
      obtain ⟨hk, hlater⟩ := unrefused_cons.1 h
      obtain ⟨hnone, hold⟩ := hrest hlater
      exact ⟨hnone, unrefused_cons.2 ⟨hk, hold⟩⟩

theorem unrefused_pass {t : Tee (Observed κ) σ} {data : Bytes}
    (h : Unrefused ((t.pass data).2.outlets.map Outlet.sink)) :
    (t.pass data).1 = none ∧ Unrefused (t.outlets.map Outlet.sink) := by
  unfold pass at h ⊢
  by_cases hd : t.destinationPosition < t.sourcePosition + data.length
  · simp only [hd, if_true] at h ⊢
    exact unrefused_forward h
  · simp only [hd, if_false] at h ⊢
    exact ⟨trivial, h⟩

variable [ByteSource σ]

/-- What a read of a tee hands over is what its source did, and it moves the tee so far. -/
theorem read_moved {t : Tee (Observed κ) σ} {n : Nat}
    (h : Unrefused ((t.read n).2.outlets.map Outlet.sink)) :
    Unrefused (t.outlets.map Outlet.sink) ∧
      ((t.read n).2.source = (ByteSource.read t.source n).2 ∧
          handedOver (t.read n).1 = handedOver (ByteSource.read t.source n).1 ∨
        (t.read n).2.source = t.source ∧ handedOver (t.read n).1 = []) ∧
      (t.read n).2.sourcePosition = t.sourcePosition + (handedOver (t.read n).1).length ∧
      (t.read n).2.markPosition = t.markPosition := by
  revert h
  unfold read
  split
  · exact fun h => ⟨h, .inr ⟨rfl, rfl⟩, rfl, rfl⟩
  · unfold passThrough
    rcases ByteSource.read t.source n with ⟨e | d, s⟩
    · exact fun h => ⟨h, .inl ⟨rfl, rfl⟩, rfl, rfl⟩
    · cases d with
      | nil => exact fun h => ⟨h, .inl ⟨rfl, rfl⟩, rfl, rfl⟩
      | cons b d =>
        intro h
        have hpos := pass_sourcePosition { t with source := s } (b :: d)
        have hnote := pass_markPosition { t with source := s } (b :: d)
        have hsource := pass_source { t with source := s } (b :: d)
        rcases hp : ({ t with source := s } : Tee (Observed κ) σ).pass (b :: d) with ⟨_ | e, c⟩ <;>
          simp only [hp] at h hpos hnote hsource ⊢ <;>
          obtain ⟨hnone, hold⟩ := unrefused_pass (by rw [hp]; exact h)
        · exact ⟨hold, .inl ⟨hsource, trivial⟩, hpos, hnote⟩
        · rw [hp] at hnone
          cases hnone

omit [ByteSink κ] in
theorem setMark_moved (t : Tee κ σ) (limit : MarkLimit) :
    (t.setMark limit).1 = (ByteSource.mark t.source limit).1 ∧
      (t.setMark limit).2.source = (ByteSource.mark t.source limit).2 ∧
      (t.setMark limit).2.outlets = t.outlets ∧
      (t.setMark limit).2.sourcePosition = t.sourcePosition ∧
      (t.setMark limit).2.markPosition =
        if (ByteSource.mark t.source limit).1.isOk then some t.sourcePosition
        else t.markPosition := by
  unfold setMark
  rcases ByteSource.mark t.source limit with ⟨e | u, s⟩ <;> exact ⟨rfl, rfl, rfl, rfl, rfl⟩

omit [ByteSink κ] in
theorem reset_moved (t : Tee κ σ) :
    (t.reset.2.source = (ByteSource.reset t.source).2 ∧ t.reset.1 = (ByteSource.reset t.source).1 ∨
        t.reset.2 = t ∧ t.reset.1.isOk = false) ∧
      t.reset.2.outlets = t.outlets ∧ t.reset.2.markPosition = t.markPosition ∧
      if t.reset.1.isOk then t.markPosition = some t.reset.2.sourcePosition
      else t.reset.2.sourcePosition = t.sourcePosition := by
  unfold reset
  rcases hn : t.markPosition with _ | p
  · exact ⟨.inr ⟨rfl, rfl⟩, rfl, hn, rfl⟩
  · rcases ByteSource.reset t.source with ⟨e | u, s⟩ <;> exact ⟨.inl ⟨rfl, rfl⟩, rfl, rfl, rfl⟩

end Tee

namespace Probe

variable [ByteSource σ]

theorem read_moved (p : Probe σ) (n : Nat) :
    ((p.read n).2.source = (ByteSource.read p.source n).2 ∧
          handedOver (p.read n).1 = handedOver (ByteSource.read p.source n).1 ∨
        (p.read n).2.source = p.source ∧ handedOver (p.read n).1 = []) ∧
      (p.read n).2.bytes = p.bytes + (handedOver (p.read n).1).length ∧
      (p.read n).2.markBytes = p.markBytes := by
  unfold read
  split
  · exact ⟨.inr ⟨rfl, rfl⟩, rfl, rfl⟩
  · rcases ByteSource.read p.source n with ⟨e | d, s⟩
    · exact ⟨.inl ⟨rfl, rfl⟩, rfl, rfl⟩
    · exact ⟨.inl ⟨rfl, rfl⟩, rfl, rfl⟩

theorem setMark_moved (p : Probe σ) (limit : MarkLimit) :
    (p.setMark limit).1 = (ByteSource.mark p.source limit).1 ∧
      (p.setMark limit).2.source = (ByteSource.mark p.source limit).2 ∧
      (p.setMark limit).2.bytes = p.bytes ∧
      (p.setMark limit).2.markBytes =
        if (ByteSource.mark p.source limit).1.isOk then some p.bytes else p.markBytes := by
  unfold setMark
  rcases ByteSource.mark p.source limit with ⟨e | u, s⟩ <;> exact ⟨rfl, rfl, rfl, rfl⟩

theorem reset_moved (p : Probe σ) :
    p.reset.2.source = (ByteSource.reset p.source).2 ∧ p.reset.1 = (ByteSource.reset p.source).1 ∧
      p.reset.2.markBytes = p.markBytes ∧
      if p.reset.1.isOk then p.reset.2.bytes = p.markBytes.getD p.bytes
      else p.reset.2.bytes = p.bytes := by
  unfold reset
  rcases ByteSource.reset p.source with ⟨e | u, s⟩ <;> exact ⟨rfl, rfl, rfl, rfl⟩

end Probe

namespace LayerKind

/-- The copy that a layer keeps of the position. -/
def cursor? : (k : LayerKind) → k.State κ σ → Option Nat
  | .tee, t => some (Tee.sourcePosition t)
  | .probe, p => some (Probe.bytes p)
  | .replay, _ | .marker, _ | .once, _ | .shield, _ => none

/-- The copy that a layer keeps of the marked position. -/
def note? : (k : LayerKind) → k.State κ σ → Option (Option Nat)
  | .tee, t => some (Tee.markPosition t)
  | .probe, p => some (Probe.markBytes p)
  | .replay, _ | .marker, _ | .once, _ | .shield, _ => none

/-- Whether a layer hands on each call as it is. -/
def handsOn : LayerKind → Bool
  | .tee | .probe | .once | .shield => true
  | .replay | .marker => false

theorem setInner_frame (k : LayerKind) (s : k.State κ σ) (i : σ) :
    k.inner (k.setInner s i) = i ∧ k.sinks (k.setInner s i) = k.sinks s ∧
      k.cursor? (k.setInner s i) = k.cursor? s ∧ k.note? (k.setInner s i) = k.note? s := by
  cases k <;> exact ⟨rfl, rfl, rfl, rfl⟩

variable [ByteSink κ] [ByteSource σ] {k : LayerKind} (hk : k.handsOn = true)

include hk

/-- As long as its sinks refuse nothing, a layer hands over what the layer below does, and its copy
of the position moves so far. -/
theorem read_handsOn {s : k.State (Observed κ) σ} {n : Nat}
    (h : Unrefused (k.sinks (ByteSource.read s n).2)) :
    Unrefused (k.sinks s) ∧
      (k.inner (ByteSource.read s n).2 = (ByteSource.read (k.inner s) n).2 ∧
          handedOver (ByteSource.read s n).1 = handedOver (ByteSource.read (k.inner s) n).1 ∨
        k.inner (ByteSource.read s n).2 = k.inner s ∧ handedOver (ByteSource.read s n).1 = []) ∧
      k.cursor? (ByteSource.read s n).2 =
        (k.cursor? s).map (· + (handedOver (ByteSource.read s n).1).length) ∧
      k.note? (ByteSource.read s n).2 = k.note? s := by
  cases k with
  | replay => cases hk
  | marker => cases hk
  | tee =>
    obtain ⟨hold, hinner, hpos, hnote⟩ := Tee.read_moved h
    exact ⟨hold, hinner, congrArg some hpos, congrArg some hnote⟩
  | probe =>
    obtain ⟨hinner, hpos, hnote⟩ := Probe.read_moved s n
    exact ⟨h, hinner, congrArg some hpos, congrArg some hnote⟩
  | once => exact ⟨h, .inl ⟨rfl, rfl⟩, rfl, rfl⟩
  | shield => exact ⟨h, .inl ⟨rfl, rfl⟩, rfl, rfl⟩

/-- A mark that is set is noted at the copy of the position. -/
theorem mark_handsOn (s : k.State κ σ) (limit : MarkLimit) :
    (ByteSource.mark s limit).1 = (ByteSource.mark (k.inner s) limit).1 ∧
      k.inner (ByteSource.mark s limit).2 = (ByteSource.mark (k.inner s) limit).2 ∧
      k.sinks (ByteSource.mark s limit).2 = k.sinks s ∧
      k.cursor? (ByteSource.mark s limit).2 = k.cursor? s ∧
      k.note? (ByteSource.mark s limit).2 =
        if (ByteSource.mark (k.inner s) limit).1.isOk then (k.cursor? s).map some
        else k.note? s := by
  cases k with
  | replay => cases hk
  | marker => cases hk
  | tee =>
    obtain ⟨hr, hinner, hsinks, hpos, hnote⟩ := Tee.setMark_moved s limit
    refine ⟨hr, hinner, congrArg (List.map Outlet.sink) hsinks, congrArg some hpos, ?_⟩
    exact (congrArg some hnote).trans (apply_ite some _ _ _)
  | probe =>
    obtain ⟨hr, hinner, hpos, hnote⟩ := Probe.setMark_moved s limit
    refine ⟨hr, hinner, rfl, congrArg some hpos, ?_⟩
    exact (congrArg some hnote).trans (apply_ite some _ _ _)
  | once => exact ⟨rfl, rfl, rfl, rfl, (ite_self _).symm⟩
  | shield => exact ⟨rfl, rfl, rfl, rfl, (ite_self _).symm⟩

/-- A layer that has noted the position that a reset goes to goes there, too. Without a note it may
fail and do nothing. -/
theorem reset_handsOn (s : k.State κ σ) :
    (k.inner (ByteSource.reset s).2 = (ByteSource.reset (k.inner s)).2 ∧
          (ByteSource.reset s).1 = (ByteSource.reset (k.inner s)).1 ∨
        (ByteSource.reset s).2 = s ∧ (ByteSource.reset s).1.isOk = false) ∧
      k.sinks (ByteSource.reset s).2 = k.sinks s ∧
      k.note? (ByteSource.reset s).2 = k.note? s ∧
      if (ByteSource.reset s).1.isOk then
        ∀ p, (∀ q ∈ k.note? s, q = some p) → ∀ q ∈ k.cursor? (ByteSource.reset s).2, q = p
      else k.cursor? (ByteSource.reset s).2 = k.cursor? s := by
  cases k with
  | replay => cases hk
  | marker => cases hk
  | tee =>
    obtain ⟨hinner, hsinks, hnote, hpos⟩ := Tee.reset_moved s
    refine ⟨hinner, congrArg (List.map Outlet.sink) hsinks, congrArg some hnote, ?_⟩
    split at hpos
    · rename_i hok
      refine (if_pos hok).mpr fun p hp q hq => ?_
      have hp : Tee.markPosition s = some p := hp _ rfl
      rw [hp] at hpos
      exact (Option.some.inj hq).symm.trans (Option.some.inj hpos).symm
    · rename_i hfail
      exact (if_neg hfail).mpr (congrArg some hpos)
  | probe =>
    obtain ⟨hinner, hr, hnote, hpos⟩ := Probe.reset_moved s
    refine ⟨.inl ⟨hinner, hr⟩, rfl, congrArg some hnote, ?_⟩
    split at hpos
    · rename_i hok
      refine (if_pos hok).mpr fun p hp q hq => ?_
      have hp : Probe.markBytes s = some p := hp _ rfl
      rw [hp] at hpos
      exact (Option.some.inj hq).symm.trans hpos
    · rename_i hfail
      exact (if_neg hfail).mpr (congrArg some hpos)
  | once =>
    refine ⟨.inl ⟨rfl, rfl⟩, rfl, rfl, ?_⟩
    split
    · exact fun _ _ _ => nofun
    · rfl
  | shield =>
    refine ⟨.inl ⟨rfl, rfl⟩, rfl, rfl, ?_⟩
    split
    · exact fun _ _ _ => nofun
    · rfl

end LayerKind

namespace Stack

variable {β : Type}

/-- Every copy of the position in a stack, the outermost first. -/
def cursors : (ks : List LayerKind) → Stack κ β ks → List Nat
  | [], _ => []
  | k :: ks, s => (k.cursor? s).toList ++ cursors ks (k.inner s)

/-- Every copy of the marked position in a stack. -/
def notes : (ks : List LayerKind) → Stack κ β ks → List (Option Nat)
  | [], _ => []
  | k :: ks, s => (k.note? s).toList ++ notes ks (k.inner s)

/-- Changes the base source. -/
def mapBase (f : β → β) : (ks : List LayerKind) → Stack κ β ks → Stack κ β ks
  | [], s => f s
  | k :: ks, s => k.setInner s (mapBase f ks (k.inner s))

/-- The layers do not notice what happens to the base source. -/
theorem mapBase_frame (f : β → β) (ks : List LayerKind) (s : Stack κ β ks) :
    base ks (mapBase f ks s) = f (base ks s) ∧ sinks ks (mapBase f ks s) = sinks ks s ∧
      cursors ks (mapBase f ks s) = cursors ks s ∧ notes ks (mapBase f ks s) = notes ks s := by
  induction ks with
  | nil => exact ⟨rfl, rfl, rfl, rfl⟩
  | cons k ks ih =>
    obtain ⟨hbase, hsinks, hcursors, hnotes⟩ := ih (k.inner s)
    obtain ⟨hi, hsinks', hcursor, hnote⟩ := k.setInner_frame s (mapBase f ks (k.inner s))
    rw [← hi] at hbase hsinks hcursors hnotes
    exact ⟨hbase, congrArg₂ (· ++ ·) hsinks' hsinks,
      congrArg₂ (· ++ ·) (congrArg Option.toList hcursor) hcursors,
      congrArg₂ (· ++ ·) (congrArg Option.toList hnote) hnotes⟩

section Layers

variable [ByteSink κ] [ByteSource β]

theorem read_handsOn {ks : List LayerKind} (hks : ∀ k ∈ ks, k.handsOn = true)
    {s : Stack (Observed κ) β ks} {n : Nat} (h : Unrefused (sinks ks (ByteSource.read s n).2)) :
    Unrefused (sinks ks s) ∧
      (base ks (ByteSource.read s n).2 = (ByteSource.read (base ks s) n).2 ∧
          handedOver (ByteSource.read s n).1 = handedOver (ByteSource.read (base ks s) n).1 ∨
        base ks (ByteSource.read s n).2 = base ks s ∧ handedOver (ByteSource.read s n).1 = []) ∧
      cursors ks (ByteSource.read s n).2 =
        (cursors ks s).map (· + (handedOver (ByteSource.read s n).1).length) ∧
      notes ks (ByteSource.read s n).2 = notes ks s := by
  induction ks with
  | nil => exact ⟨h, .inl ⟨rfl, rfl⟩, rfl, rfl⟩
  | cons k ks ih =>
    obtain ⟨hk, hrest⟩ := List.forall_mem_cons.1 hks
    obtain ⟨htop, hbelow⟩ := unrefused_append.1 h
    obtain ⟨hsinks, hinner, hcursor, hnote⟩ := LayerKind.read_handsOn hk htop
    have hcursor := (congrArg Option.toList hcursor).trans Option.toList_map
    rcases hinner with ⟨hi, hd⟩ | ⟨hi, hd⟩
    · have hbelow := (congrArg (Unrefused ∘ sinks ks) hi).mp hbelow
      obtain ⟨hsinks', hbase, hcursors, hnotes⟩ := ih hrest hbelow
      rw [← hi, ← hd] at hbase hcursors
      rw [← hi] at hnotes
      refine ⟨unrefused_append.2 ⟨hsinks, hsinks'⟩, hbase, ?_, ?_⟩
      · exact (congrArg₂ (· ++ ·) hcursor hcursors).trans List.map_append.symm
      · exact congrArg₂ (· ++ ·) (congrArg Option.toList hnote) hnotes
    · have hd : handedOver (ByteSource.read s n).1 = [] := hd
      have hbelow := (congrArg (Unrefused ∘ sinks ks) hi).mp hbelow
      refine ⟨unrefused_append.2 ⟨hsinks, hbelow⟩, .inr ⟨congrArg (base ks) hi, hd⟩, ?_, ?_⟩
      · have hsame : cursors ks (k.inner s) =
            (cursors ks (k.inner s)).map (· + (handedOver (ByteSource.read s n).1).length) := by
          rw [hd]
          exact (List.map_id _).symm
        have hcursors := (congrArg (cursors ks) hi).trans hsame
        exact (congrArg₂ (· ++ ·) hcursor hcursors).trans List.map_append.symm
      · exact congrArg₂ (· ++ ·) (congrArg Option.toList hnote) (congrArg (notes ks) hi)

theorem mark_handsOn {ks : List LayerKind} (hks : ∀ k ∈ ks, k.handsOn = true) (s : Stack κ β ks)
    (limit : MarkLimit) :
    (ByteSource.mark s limit).1 = (ByteSource.mark (base ks s) limit).1 ∧
      base ks (ByteSource.mark s limit).2 = (ByteSource.mark (base ks s) limit).2 ∧
      sinks ks (ByteSource.mark s limit).2 = sinks ks s ∧
      cursors ks (ByteSource.mark s limit).2 = cursors ks s ∧
      notes ks (ByteSource.mark s limit).2 =
        if (ByteSource.mark (base ks s) limit).1.isOk then (cursors ks s).map some
        else notes ks s := by
  induction ks with
  | nil => exact ⟨rfl, rfl, rfl, rfl, (ite_self _).symm⟩
  | cons k ks ih =>
    obtain ⟨hk, hrest⟩ := List.forall_mem_cons.1 hks
    obtain ⟨hr, hi, hsinks, hcursor, hnote⟩ := LayerKind.mark_handsOn hk s limit
    obtain ⟨hr', hbase, hsinks', hcursors, hnotes⟩ := ih hrest (k.inner s)
    rw [← hi] at hbase hsinks' hcursors hnotes
    rw [hr'] at hnote
    refine ⟨hr.trans hr', hbase, congrArg₂ (· ++ ·) hsinks hsinks',
      congrArg₂ (· ++ ·) (congrArg Option.toList hcursor) hcursors, ?_⟩
    refine (congrArg₂ (· ++ ·) (congrArg Option.toList hnote) hnotes).trans ?_
    show _ = if (ByteSource.mark (base ks (k.inner s)) limit).1.isOk then
      ((k.cursor? s).toList ++ cursors ks (k.inner s)).map some
      else (k.note? s).toList ++ notes ks (k.inner s)
    split
    · rw [Option.toList_map, List.map_append]
    · rfl

theorem reset_handsOn {ks : List LayerKind} (hks : ∀ k ∈ ks, k.handsOn = true) (s : Stack κ β ks) :
    (base ks (ByteSource.reset s).2 = (ByteSource.reset (base ks s)).2 ∧
          (ByteSource.reset s).1 = (ByteSource.reset (base ks s)).1 ∨
        base ks (ByteSource.reset s).2 = base ks s ∧ (ByteSource.reset s).1.isOk = false) ∧
      sinks ks (ByteSource.reset s).2 = sinks ks s ∧
      notes ks (ByteSource.reset s).2 = notes ks s ∧
      if (ByteSource.reset s).1.isOk then
        ∀ p, (∀ q ∈ notes ks s, q = some p) → ∀ q ∈ cursors ks (ByteSource.reset s).2, q = p
      else cursors ks (ByteSource.reset s).2 = cursors ks s := by
  induction ks with
  | nil =>
    refine ⟨.inl ⟨rfl, rfl⟩, rfl, rfl, ?_⟩
    split
    · exact fun _ _ _ => nofun
    · rfl
  | cons k ks ih =>
    obtain ⟨hk, hrest⟩ := List.forall_mem_cons.1 hks
    obtain ⟨hinner, hsinks, hnote, hcursor⟩ := LayerKind.reset_handsOn hk s
    obtain ⟨hbase, hsinks', hnotes, hcursors⟩ := ih hrest (k.inner s)
    rcases hinner with ⟨hi, hr⟩ | ⟨hi, hr⟩
    · rw [← hi, ← hr] at hbase hcursors
      rw [← hi] at hsinks' hnotes
      refine ⟨hbase, congrArg₂ (· ++ ·) hsinks hsinks',
        congrArg₂ (· ++ ·) (congrArg Option.toList hnote) hnotes, ?_⟩
      split at hcursor
      · rename_i hok
        refine (if_pos hok).mpr fun p hp q hq => ?_
        rw [if_pos hok] at hcursors
        rcases List.mem_append.1 hq with hq | hq
        · refine hcursor p (fun r hr => ?_) q (Option.mem_toList.1 hq)
          exact hp r (List.mem_append_left _ (Option.mem_toList.2 hr))
        · exact hcursors p (fun r hr => hp r (List.mem_append_right _ hr)) q hq
      · rename_i hfail
        rw [if_neg hfail] at hcursors
        exact (if_neg hfail).mpr (congrArg₂ (· ++ ·) (congrArg Option.toList hcursor) hcursors)
    · have hfail : ¬ (ByteSource.reset s).1.isOk = true := Bool.eq_false_iff.1 hr
      exact ⟨.inr ⟨congrArg (base (k :: ks)) hi, hr⟩, congrArg (sinks (k :: ks)) hi,
        congrArg (notes (k :: ks)) hi, (if_neg hfail).mpr (congrArg (cursors (k :: ks)) hi)⟩

end Layers

/-- What can be asked of a stack over a replay buffer, or happen to the directory of its store. -/
inductive Move where
  | read (n : Nat)
  | mark (limit : MarkLimit)
  | reset
  | directoryMade (name : String)
  | directoryRemoved (name : String)
  deriving Repr

variable [ByteSink κ] [ByteSource σ]

def Move.apply (ks : List LayerKind) (s : Stack κ (Replay σ) ks) : Move → Stack κ (Replay σ) ks
  | read n => (ByteSource.read s n).2
  | mark limit => (ByteSource.mark s limit).2
  | reset => (ByteSource.reset s).2
  | directoryMade name => mapBase (Replay.mapStore (Store.directoryMade name)) ks s
  | directoryRemoved name => mapBase (Replay.mapStore (Store.directoryRemoved name)) ks s

def after (ks : List LayerKind) (s : Stack κ (Replay σ) ks) (moves : List Move) :
    Stack κ (Replay σ) ks := moves.foldl (Move.apply ks) s

/-- Every copy of the position is the position, and an active mark is noted where it is. -/
structure Agrees (ks : List LayerKind) (s : Stack κ (Replay σ) ks) : Prop where
  cursor_eq : ∀ q ∈ cursors ks s, q = (base ks s).position
  note_eq : ∀ p limit, (base ks s).mark = .active p limit → ∀ q ∈ notes ks s, q = some p

variable {ks : List LayerKind} {s : Stack (Observed κ) (Replay σ) ks}

omit [ByteSink κ] [ByteSource σ] in
/-- What happens to the store of the buffer moves nothing. -/
theorem Agrees.mapStore (h : Agrees ks s) (f : Store → Store) :
    Agrees ks (mapBase (Replay.mapStore f) ks s) := by
  obtain ⟨hbase, -, hcursors, hnotes⟩ := mapBase_frame (Replay.mapStore f) ks s
  constructor <;> rw [hbase]
  · rw [hcursors]
    exact h.cursor_eq
  · rw [hnotes]
    exact h.note_eq

section Steps

variable (hks : ∀ k ∈ ks, k.handsOn = true)

include hks

theorem Agrees.read (h : Agrees ks s) {n : Nat}
    (hsound : Unrefused (sinks ks (ByteSource.read s n).2)) :
    Agrees ks (ByteSource.read s n).2 := by
  obtain ⟨-, hbase, hcursors, hnotes⟩ := read_handsOn hks hsound
  obtain ⟨hpos, hmark, -⟩ := Replay.read_moved (base ks s) n
  have hmoved : (base ks (ByteSource.read s n).2).position =
        (base ks s).position + (handedOver (ByteSource.read s n).1).length ∧
      (base ks s).mark.Since (base ks (ByteSource.read s n).2).mark := by
    rcases hbase with ⟨hb, hd⟩ | ⟨hb, hd⟩ <;> rw [hb, hd]
    · exact ⟨hpos, hmark⟩
    · exact ⟨rfl, .inl rfl⟩
  refine ⟨fun q hq => ?_, fun p limit hm => ?_⟩
  · rw [hcursors] at hq
    obtain ⟨r, hr, rfl⟩ := List.mem_map.1 hq
    rw [hmoved.1, h.cursor_eq r hr]
  · rw [hnotes]
    exact h.note_eq p limit (hmoved.2.active hm)

theorem Agrees.mark (h : Agrees ks s) (limit : MarkLimit) :
    Agrees ks (ByteSource.mark s limit).2 := by
  obtain ⟨-, hbase, -, hcursors, hnotes⟩ := mark_handsOn hks s limit
  obtain ⟨⟨hpos, -⟩, hmark⟩ := Replay.setMark_moved (base ks s) limit
  refine ⟨fun q hq => ?_, fun p limit' hm q hq => ?_⟩
  · rw [hcursors] at hq
    rw [hbase]
    exact (h.cursor_eq q hq).trans hpos.symm
  · rw [hbase] at hm
    have hmark := hmark p limit' hm
    rw [hnotes] at hq
    split at hq
    · rename_i hok
      have hmark : p = (base ks s).position := (if_pos hok).mp hmark
      obtain ⟨r, hr, rfl⟩ := List.mem_map.1 hq
      rw [h.cursor_eq r hr, hmark]
    · rename_i hfail
      exact h.note_eq p limit' ((if_neg hfail).mp hmark) q hq

theorem Agrees.reset (h : Agrees ks s) : Agrees ks (ByteSource.reset s).2 := by
  obtain ⟨hbase, -, hnotes, hcursors⟩ := reset_handsOn hks s
  obtain ⟨hmark, hok, hfail⟩ := (base ks s).reset_moved
  have hkept : (base ks (ByteSource.reset s).2).mark = (base ks s).mark := by
    rcases hbase with ⟨hb, -⟩ | ⟨hb, -⟩ <;> rw [hb]
    exact hmark
  refine ⟨fun q hq => ?_, fun p limit hm => ?_⟩
  · split at hcursors
    · rename_i hdone
      rcases hbase with ⟨hb, hr⟩ | ⟨-, hr⟩
      · rw [hr] at hdone
        obtain ⟨limit, hm⟩ := hok (eq_ok_of_isOk hdone)
        rw [hb]
        exact hcursors _ (h.note_eq _ limit hm) q hq
      · rw [hr] at hdone
        cases hdone
    · rename_i hfailed
      rw [hcursors] at hq
      rw [h.cursor_eq q hq]
      rcases hbase with ⟨hb, hr⟩ | ⟨hb, -⟩ <;> rw [hb]
      rw [hr] at hfailed
      exact (hfail (Bool.eq_false_iff.2 hfailed)).symm
  · rw [hkept] at hm
    rw [hnotes]
    exact h.note_eq p limit hm

theorem Agrees.apply (h : Agrees ks s) {move : Move}
    (hsound : Unrefused (sinks ks (move.apply ks s))) : Agrees ks (move.apply ks s) := by
  cases move with
  | read n => exact h.read hks hsound
  | mark limit => exact h.mark hks limit
  | reset => exact h.reset hks
  | directoryMade name => exact h.mapStore _
  | directoryRemoved name => exact h.mapStore _

theorem unrefused_of_apply {move : Move} (h : Unrefused (sinks ks (move.apply ks s))) :
    Unrefused (sinks ks s) := by
  cases move with
  | read n => exact (read_handsOn hks h).1
  | mark limit =>
    obtain ⟨-, -, hsinks, -⟩ := mark_handsOn hks s limit
    exact hsinks ▸ h
  | reset =>
    obtain ⟨-, hsinks, -⟩ := reset_handsOn hks s
    exact hsinks ▸ h
  | directoryMade name =>
    obtain ⟨-, hsinks, -⟩ := mapBase_frame (Replay.mapStore (Store.directoryMade name)) ks s
    exact hsinks ▸ h
  | directoryRemoved name =>
    obtain ⟨-, hsinks, -⟩ := mapBase_frame (Replay.mapStore (Store.directoryRemoved name)) ks s
    exact hsinks ▸ h

theorem unrefused_of_after {moves : List Move} (h : Unrefused (sinks ks (after ks s moves))) :
    Unrefused (sinks ks s) := by
  induction moves generalizing s with
  | nil => exact h
  | cons move rest ih => exact unrefused_of_apply hks (ih h)

theorem Agrees.after (h : Agrees ks s) {moves : List Move}
    (hsound : Unrefused (sinks ks (after ks s moves))) : Agrees ks (after ks s moves) := by
  induction moves generalizing s with
  | nil => exact h
  | cons move rest ih => exact ih (h.apply hks (unrefused_of_after hks hsound)) hsound

end Steps

omit [ByteSink κ] [ByteSource σ] in
/-- In a stack of new layers no copy has moved, and no position is noted. -/
theorem Agrees.start {source : σ} {b : Replay σ} {ks : List LayerKind} {s : Stack κ (Replay σ) ks}
    (hb : Replay.New source b) (hs : Fresh b ks s) : Agrees ks s := by
  have hzero : ∀ q ∈ cursors ks s, q = 0 := by
    induction hs with
    | base => exact nofun
    | @replay ks s b below made ih =>
      show ∀ q ∈ cursors ks b.source.inner, q = 0
      rw [made.inner_eq]
      exact ih
    | tee below made ih =>
      obtain rfl := Tee.ofSettings_start made
      exact List.forall_mem_cons.2 ⟨rfl, ih⟩
    | marker below start stop singlePair ih => exact ih
    | markerOf below made ih =>
      obtain rfl := Marker.ofSettings_start made
      exact ih
    | probe below site ih => exact List.forall_mem_cons.2 ⟨rfl, ih⟩
    | once below ih => exact ih
    | shield below ih => exact ih
  obtain ⟨-, hposition, -, hmark, -⟩ := hb.start
  have hbase : base ks s = b := hs.base_eq
  constructor <;> rw [hbase]
  · exact fun q hq => (hzero q hq).trans hposition.symm
  · intro p limit hm
    rw [hmark] at hm
    cases hm

/-- As long as no sink of a tee has refused anything, every copy of the position that tees and
probes keep is the position of the replay buffer at the bottom, whichever calls have failed. -/
theorem cursors_agree {source : σ} {b : Replay σ} (hb : Replay.New source b) (hs : Fresh b ks s)
    (hks : ∀ k ∈ ks, k.handsOn = true) {moves : List Move}
    (hsound : Unrefused (sinks ks (after ks s moves))) :
    ∀ q ∈ cursors ks (after ks s moves), q = (base ks (after ks s moves)).position :=
  ((Agrees.start hb hs).after hks hsound).cursor_eq

/-- A mark cannot be set because the file of the one before it cannot be deleted, and so the reset
after it fails, too; the last read fails in the source. -/
theorem cursors_agree_rollback :
    let source : MockSource := { rest := [1, 2, 3, 4, 5, 6, 7, 8], failAt := some 7 }
    let b : Replay MockSource :=
      Replay.withStore source (Store.Settings.build ⟨some 2, some "dir"⟩ true)
    let p : Stack (Observed SharedSink) (Replay MockSource) [.probe] := Probe.attach b ⟨"a", 1, 1⟩
    let t : Tee (Observed SharedSink) (Stack (Observed SharedSink) (Replay MockSource) [.probe]) :=
      { source := p, outlets := [{ sink := Observed.of {} }] }
    let o : Stack (Observed SharedSink) (Replay MockSource) [.once, .tee, .probe] := Once.mk t false
    let ks : List LayerKind := [.probe, .once, .tee, .probe]
    let s : Stack (Observed SharedSink) (Replay MockSource) ks := Probe.attach o ⟨"a", 2, 1⟩
    let early : List Move :=
      [.mark .unlimited, .read 4, .directoryRemoved "dir", .reset, .read 2, .read 2]
    let late : List Move :=
      [.mark (.bytes 2), .reset, .read 2, .mark (.bytes 1), .read 4, .reset, .read 1]
    let stuck := after ks s early
    let last := after ks s (early ++ late)
    Replay.New source b ∧ Fresh b ks s ∧ (∀ k ∈ ks, k.handsOn = true) ∧
      (ByteSource.mark stuck (.bytes 2)).1.isOk = false ∧ (ByteSource.read last 1).1.isOk = false ∧
      Unrefused (sinks ks last) ∧ (base ks last).position = 7 ∧ ∀ q ∈ cursors ks last, q = 7 := by
  intro source b p t o ks s early late stuck last
  have hb : Replay.New source b := .withStore _
  have ht : Tee.ofSettings p [Observed.of ({} : SharedSink)] {} = .ok t := rfl
  have hs : Fresh b ks s := .probe (.once (.tee (.probe .base _) ht)) _
  have hks : ∀ k ∈ ks, k.handsOn = true := by decide
  have hsound : Unrefused (sinks ks last) := by
    have hrefused : (sinks ks last).map Observed.refused = [false] := by decide +kernel
    intro k hk
    have := List.mem_map_of_mem (f := Observed.refused) hk
    rw [hrefused] at this
    exact List.mem_singleton.1 this
  have hposition : (base ks last).position = 7 := by decide +kernel
  have hall := cursors_agree hb hs hks hsound
  refine ⟨hb, hs, hks, by decide +kernel, by decide +kernel, hsound, hposition, fun q hq => ?_⟩
  exact (hall q hq).trans hposition

end Stack

end StreamLayers
