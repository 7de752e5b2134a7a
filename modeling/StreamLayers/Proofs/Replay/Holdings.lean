import StreamLayers.Proofs.Replay.Cursor

/-!
What a replay buffer holds. A buffer that keeps bytes for its mark alone holds none of them, and no
spill file, once nothing can replay them: when it is closed, and when it is level with its source
and no mark is active. This does not depend on what succeeds: the source, the creation of a spill
file and its deletion may fail at any point.
-/

namespace StreamLayers

namespace Store

variable {s t : Store} {data : Bytes}

/-- How many bytes a store holds, and whether it has a file. -/
def holding (s : Store) : Nat × Bool := (s.writePosition, s.isSpilled)

theorem holding_seek (s : Store) (target : Nat) : (s.seek target).2.holding = s.holding := by
  cases s with
  | memory s =>
    simp only [seek, MemoryStore.seek]
    split <;> rfl
  | threshold s =>
    simp only [seek, ThresholdStore.seek]
    split <;> rfl

theorem holding_get (s : Store) (n : Nat) : (s.get n).2.holding = s.holding := by
  cases s with
  | memory s => rfl
  | threshold s =>
    obtain ⟨-, -, -, hs⟩ := ThresholdStore.get_spec s n
    simp only [get, hs]
    rfl

theorem holding_release (s : Store) : s.release.2.holding = (0, false) := by
  cases s with
  | memory s => rfl
  | threshold s =>
    obtain ⟨hs, -⟩ := ThresholdStore.release_spec s
    simp only [release, hs]
    rfl

theorem holding_directoryMade (name : String) (s : Store) :
    (s.directoryMade name).holding = s.holding := by
  cases s with
  | memory s => rfl
  | threshold s =>
    simp only [directoryMade, ThresholdStore.directoryMade]
    split <;> rfl

theorem holding_directoryRemoved (name : String) (s : Store) :
    (s.directoryRemoved name).holding = s.holding := by
  cases s with
  | memory s => rfl
  | threshold s =>
    simp only [directoryRemoved, ThresholdStore.directoryRemoved]
    split
    · cases hf : s.file <;>
        simp [holding, writePosition, isSpilled, ThresholdStore.writePosition,
          ThresholdStore.spillPosition, ThresholdStore.spilled, hf]
    · rfl

theorem holding_build (c : Settings) (present : Bool) : (c.build present).holding = (0, false) := by
  unfold Settings.build
  split <;> rfl

end Store

/-- An append that fails leaves no file, since it failed to create one. -/
theorem ThresholdStore.file_of_put_error {s t : ThresholdStore} {data : Bytes} {e : Fault}
    (h : s.put data = (.error e, t)) : t.file = none := by
  unfold put at h
  split at h
  · rcases hm : s.spillMemory with ⟨e' | _, u⟩ <;> simp only [hm] at h
    · obtain ⟨-, rfl⟩ := Prod.mk.inj h
      unfold spillMemory at hm
      split at hm
      · simp at hm
      · obtain ⟨hfile, rfl, -⟩ := appendToFile_error hm
        exact hfile
    · split at h
      · obtain ⟨hfile, rfl, -⟩ := appendToFile_error h
        exact hfile
      · simp at h
  · simp at h

namespace Store

variable {s t : Store} {data : Bytes}

theorem holding_put_error {e : Fault} (h : s.put data = (.error e, t)) :
    t.holding = (0, false) := by
  obtain ⟨hlog, -⟩ := put_error h
  have hw : t.writePosition = 0 := by rw [← length_log, hlog, List.length_nil]
  cases s with
  | memory s => simp [put] at h
  | threshold s =>
    rcases hp : s.put data with ⟨r, u⟩
    simp only [put, hp, Prod.mk.injEq] at h
    obtain ⟨rfl, rfl⟩ := h
    have hfile := ThresholdStore.file_of_put_error hp
    exact Prod.ext hw (by simp [holding, isSpilled, hfile])

/-- A store that has a file has something in it. -/
def Packed (s : Store) : Prop := s.isSpilled = true → 0 < s.writePosition

theorem Packed.of_holding (h : s.Packed) (ht : t.holding = s.holding) : t.Packed := by
  obtain ⟨hw, hs⟩ := Prod.mk.inj ht
  unfold Packed
  rw [hw, hs]
  exact h

theorem packed_of_empty (h : s.holding = (0, false)) : s.Packed := by
  intro hs
  rw [(Prod.mk.inj h).2] at hs
  cases hs

theorem Packed.holding_eq (h : s.Packed) (hw : s.writePosition = 0) : s.holding = (0, false) := by
  have hs : s.isSpilled = false := Bool.eq_false_iff.2 fun hs => Nat.ne_of_gt (h hs) hw
  exact Prod.ext hw hs

/-- Whether or not it works, an append of something leaves no empty file. -/
theorem packed_put (hne : data ≠ []) : (s.put data).2.Packed := by
  rcases hp : s.put data with ⟨e | u, t⟩
  · exact packed_of_empty (holding_put_error hp)
  · intro _
    obtain ⟨hlog, -⟩ := put_spec hp
    rw [← length_log, hlog, List.length_append]
    have := List.length_pos_iff.2 hne
    omega

end Store

namespace Replay

variable {σ : Type} {b c : Replay σ}

/-- A buffer that holds nothing: no byte and no file. -/
def Vacant (b : Replay σ) : Prop := b.buffered = 0 ∧ b.store.isSpilled = false

theorem vacant_of_holding (h : b.store.holding = (0, false)) : Vacant b := Prod.mk.inj h

/-- Nothing can be replayed any more. -/
def Idle (b : Replay σ) : Prop :=
  b.closed = true ∨ b.mark.isActive = false ∧ b.position = b.sourcePosition

/-- The positions of a buffer that keeps bytes for its mark alone are in order. -/
structure Sorted (b : Replay σ) : Prop where
  forgets : b.retainHistory = false
  position_le : b.position ≤ b.sourcePosition
  mark_le : ∀ p limit, b.mark = .active p limit → p ≤ b.sourcePosition
  packed : b.store.Packed

/-- A buffer that holds nothing when it is idle. -/
structure Spare (b : Replay σ) : Prop extends Sorted b where
  vacant : Idle b → Vacant b

theorem New.spare {source : σ} (h : New source b) (hforgets : b.retainHistory = false)
    (hempty : b.store.holding = (0, false)) : Spare b := by
  obtain ⟨-, hposition, -, hmark, -⟩ := h.start
  exact {
    forgets := hforgets
    position_le := hposition ▸ Nat.zero_le _
    mark_le := fun p limit ha => by rw [hmark] at ha; cases ha
    packed := Store.packed_of_empty hempty
    vacant := fun _ => vacant_of_holding hempty }

theorem Sorted.caching_eq (h : Sorted b) : b.caching = b.mark.isActive := by
  simp [caching, h.forgets]

/-- The store of a spare buffer may be replaced by one that holds as much. -/
theorem Spare.withStore (h : Spare b) (source : Once σ) {store : Store}
    (hs : store.holding = b.store.holding) : Spare { b with source, store } := by
  refine { h with packed := h.packed.of_holding hs, vacant := fun hi => ?_ }
  obtain ⟨hw, hf⟩ := h.vacant hi
  obtain ⟨hw', hf'⟩ := Prod.mk.inj hs
  exact ⟨hw'.trans hw, hf'.trans hf⟩

/-- It may be replaced by an empty one, too. -/
theorem Sorted.withEmpty (h : Sorted b) (source : Once σ) {store : Store}
    (hs : store.holding = (0, false)) : Spare { b with source, store } :=
  { h with
    packed := Store.packed_of_empty hs
    vacant := fun _ => vacant_of_holding hs }

theorem Sorted.withMark (h : Sorted b) {m : MarkState}
    (hm : ∀ p limit, m = .active p limit → p ≤ b.sourcePosition) :
    Sorted ({ b with mark := m } : Replay σ) :=
  { h with mark_le := hm }

/-- A buffer with an active mark is not idle, whatever it holds. -/
theorem Sorted.spare_of_active (h : Sorted b) (hopen : b.closed = false)
    (ha : b.mark.isActive = true) : Spare b := by
  refine { h with vacant := fun hi => ?_ }
  rcases hi with hc | ⟨hm, -⟩
  · rw [hopen] at hc
    cases hc
  · rw [ha] at hm
    cases hm

theorem Sorted.enforceLimit (h : Sorted b) : Sorted b.enforceLimit := by
  obtain ⟨m, hb, hm⟩ := b.enforceLimit_frame
  rw [hb]
  refine h.withMark fun p limit ha => ?_
  rcases hm with rfl | ⟨q, l, -, rfl⟩
  · exact h.mark_le p limit ha
  · cases ha

/-- Dropping what nothing can replay leaves nothing in an idle buffer, even if it fails. -/
theorem Sorted.discardUnreachable (h : Sorted b) (hopen : b.closed = false) :
    Spare b.discardUnreachable.2 := by
  have hclosed : ¬ b.closed = true := by simp [hopen]
  unfold Replay.discardUnreachable
  by_cases hkeep : (b.caching || decide (b.position < b.sourcePosition)) = true
  · rw [if_pos hkeep]
    refine { h with vacant := fun hi => ?_ }
    rcases hi with hc | ⟨hm, hp⟩
    · exact absurd hc hclosed
    · have hm : b.mark.isActive = false := hm
      have hp : b.position = b.sourcePosition := hp
      simp [h.caching_eq, hm, hp] at hkeep
  · rw [if_neg hkeep]
    by_cases hstale : 0 < b.store.writePosition ∨ b.base ≠ b.sourcePosition
    · rw [if_pos hstale]
      have hempty := Store.holding_release b.store
      rcases hr : b.store.release with ⟨e | u, s⟩ <;> rw [hr] at hempty
      · exact h.withEmpty b.source hempty
      · exact { h.withEmpty b.source hempty with }
    · rw [if_neg hstale]
      have hw : b.store.writePosition = 0 := by omega
      exact h.withEmpty b.source (h.packed.holding_eq hw)

theorem Spare.mapStore (h : Spare b) {f : Store → Store} (hf : ∀ s, (f s).holding = s.holding) :
    Spare (b.mapStore f) :=
  h.withStore b.source (hf b.store)

theorem Sorted.readStore (h : Sorted b) (hp : b.position < b.sourcePosition) (n : Nat) :
    Sorted (b.readStore n).2 := by
  have hseek := Store.holding_seek b.store (b.position - b.base)
  unfold Replay.readStore
  rcases hs : b.store.seek (b.position - b.base) with ⟨e | u, s⟩ <;> rw [hs] at hseek
  · exact { h with packed := h.packed.of_holding hseek }
  · have hget := Store.holding_get s (min n (b.sourcePosition - b.position))
    obtain ⟨-, hle, -⟩ := s.get_spec (min n (b.sourcePosition - b.position))
    refine { h with packed := h.packed.of_holding (hget.trans hseek), position_le := ?_ }
    show b.position + _ ≤ b.sourcePosition
    omega

theorem Sorted.keep (h : Sorted b) (data : Bytes) : Sorted (b.keep data).2 := by
  have accepted {s : Store} (hs : s.Packed) :
      Sorted (({ b with store := s } : Replay σ).accept data) :=
    { h with
      position_le := Nat.add_le_add_right h.position_le _
      mark_le := fun p limit hm => Nat.le_trans (h.mark_le p limit hm) (Nat.le_add_right _ _)
      packed := hs }
  unfold Replay.keep
  by_cases hk : (b.caching && !data.isEmpty) = true
  · rw [if_pos hk]
    have hne : data ≠ [] := by simpa using (Bool.and_eq_true_iff.1 hk).2
    have hput := Store.packed_put (s := b.store) hne
    rcases hp : b.store.put data with ⟨e | u, s⟩ <;> rw [hp] at hput
    · exact { h with packed := hput }
    · exact accepted hput
  · rw [if_neg hk]
    exact accepted h.packed

variable [ByteSource σ] {n : Nat}

theorem Sorted.readSource (h : Sorted b) (n : Nat) : Sorted (b.readSource n).2 := by
  unfold Replay.readSource
  rcases ByteSource.read b.source n with ⟨e | data, s⟩
  · exact { h with }
  · have hs : Sorted ({ b with source := s } : Replay σ) := { h with }
    exact hs.keep data

theorem Sorted.fetch (h : Sorted b) (n : Nat) : Sorted (b.fetch n).2 := by
  unfold Replay.fetch
  split
  · exact h.readStore ‹_› n
  · exact h.readSource n

/-- A read drops what it was the last to need; if it fails, it adds nothing to what is held. -/
theorem Spare.read (h : Spare b) (n : Nat) : Spare (b.read n).2 := by
  rcases hr : b.read n with ⟨e | got, c⟩
  · cases failedRead_of_read hr with
    | closed isClosed => exact h
    | seek behind failed =>
      have hs := Store.holding_seek b.store (b.position - b.base)
      rw [failed] at hs
      exact h.withStore b.source hs
    | source level failed => exact h.withStore _ rfl
    | put level pulled nonempty failed =>
      exact h.toSorted.withEmpty _ (Store.holding_put_error failed)
  · rcases read_ok hr with ⟨-, rfl⟩ | ⟨hopen, a, hf, rfl⟩
    · exact h
    · have ha := h.toSorted.fetch n
      obtain ⟨-, -, hclosed, -⟩ := fetch_moved hf
      obtain ⟨m, hm, -⟩ := a.enforceLimit_frame
      rw [hf] at ha
      exact ha.enforceLimit.discardUnreachable (by rw [hm]; exact hclosed.trans hopen)

theorem Spare.afterReads (h : Spare b) (sizes : List Nat) :
    Spare (ByteSource.afterReads b sizes) := by
  induction sizes generalizing b with
  | nil => exact h
  | cons n rest ih => exact ih (h.read n)

omit [ByteSource σ] in
theorem Spare.remark (h : Spare b) (hopen : b.closed = false) (limit : MarkLimit) :
    Spare (b.remark limit).2 := by
  have here {a : Replay σ} (ha : Sorted a) (hopen : a.closed = false) :
      Spare { a with mark := .active a.position limit } := by
    refine (ha.withMark fun p l hm => ?_).spare_of_active hopen rfl
    obtain ⟨rfl, -⟩ := MarkState.active.inj hm
    exact ha.position_le
  unfold Replay.remark
  split
  · have hunset : Spare ({ b with mark := .unset } : Replay σ).discardUnreachable.2 :=
      (h.toSorted.withMark (by rintro _ _ ⟨⟩)).discardUnreachable hopen
    obtain ⟨store, base, hfr⟩ := ({ b with mark := .unset } : Replay σ).discardUnreachable_frame
    rcases hd : ({ b with mark := .unset } : Replay σ).discardUnreachable with ⟨e | u, a⟩ <;>
      rw [hd] at hunset hfr
    · exact hunset
    · obtain rfl : a = _ := hfr
      exact here hunset.toSorted hopen
  · exact here h.toSorted hopen

omit [ByteSource σ] in
theorem Spare.setMark (h : Spare b) (limit : MarkLimit) : Spare (b.setMark limit).2 := by
  rcases hc : b.closed with _ | _
  · rcases setMark_open hc limit with hs | hs <;> rw [hs]
    · exact (h.toSorted.withMark (by rintro _ _ ⟨⟩)).discardUnreachable hc
    · exact h.remark hc limit
  · simp only [Replay.setMark, hc, if_true]
    exact h

omit [ByteSource σ] in
theorem Spare.reset (h : Spare b) : Spare b.reset.2 := by
  rcases hc : b.closed with _ | _
  · rcases ha : b.mark.isActive with _ | _
    · rw [(reset_inactive ha).2]
      exact h
    · obtain ⟨p, limit, hm⟩ := MarkState.isActive_iff.1 ha
      have moved {s : Store} (hs : s.Packed) :
          Spare ({ b with store := s, position := p } : Replay σ) :=
        Sorted.spare_of_active
          { h.toSorted with position_le := h.mark_le p limit hm, packed := hs } hc ha
      rw [Replay.reset_active hc hm]
      split
      · have hs := Store.holding_seek b.store (p - b.base)
        rcases hseek : b.store.seek (p - b.base) with ⟨e | u, s⟩ <;> rw [hseek] at hs
        · exact h.withStore b.source hs
        · exact moved (h.packed.of_holding hs)
      · exact moved h.packed
  · simp only [Replay.reset, hc, if_true]
    exact h

theorem Spare.seek (h : Spare b) (target : Nat) : Spare (b.seek target).2 := by
  rcases hc : b.closed with _ | _
  · by_cases ht : b.position ≤ target
    · rw [seek_forward hc ht]
      exact h.afterReads _
    · have hopen : ¬ b.closed = true := by simp [hc]
      have hle := h.position_le
      -- Back from where it was, the buffer is behind its source.
      have moved {s : Store} (hs : s.holding = b.store.holding) :
          Spare ({ b with store := s, position := target } : Replay σ) := by
        refine { h with
          position_le := show target ≤ b.sourcePosition by omega
          packed := h.packed.of_holding hs
          vacant := fun hi => ?_ }
        rcases hi with hi | ⟨-, hi⟩
        · exact absurd hi hopen
        · have hi : target = b.sourcePosition := hi
          omega
      rw [Replay.seek, if_neg hopen, if_neg ht]
      by_cases hb : target < b.base
      · rw [if_pos hb]
        exact h
      · rw [if_neg hb]
        have hs := Store.holding_seek b.store (target - b.base)
        dsimp only
        rcases hseek : b.store.seek (target - b.base) with ⟨e | u, s⟩ <;> rw [hseek] at hs <;>
          exact moved hs
  · simp only [Replay.seek, hc, if_true]
    exact h

theorem Spare.close (h : Spare b) : Spare b.close.2 := by
  unfold Replay.close
  split
  · exact h
  · have hempty := Store.holding_release b.store
    rcases hr : b.store.release with ⟨releasing, s⟩
    rw [hr] at hempty
    have hend (source : Once σ) :
        Spare ({ b with closed := true, mark := .unset, source, store := s } : Replay σ) :=
      { h with
        mark_le := nofun
        packed := Store.packed_of_empty hempty
        vacant := fun _ => vacant_of_holding hempty }
    rcases ByteSource.close b.source with ⟨e | u, source⟩ <;> exact hend source

/-- What can happen to a buffer: an operation, or its end. -/
inductive Event where
  | op (op : Op)
  | close
  deriving Repr

def Event.apply (b : Replay σ) : Event → Replay σ
  | op o => o.apply b
  | close => b.close.2

/-- A buffer after everything that happened to it, the last event last. -/
def afterEvents (b : Replay σ) (events : List Event) : Replay σ := events.foldl Event.apply b

theorem Spare.apply (h : Spare b) (event : Event) : Spare (event.apply b) := by
  cases event with
  | close => exact h.close
  | op op =>
    cases op with
    | read n => exact h.read n
    | mark limit => exact h.setMark limit
    | reset => exact h.reset
    | seek target => exact h.seek target
    | directoryMade name => exact h.mapStore (Store.holding_directoryMade name)
    | directoryRemoved name => exact h.mapStore (Store.holding_directoryRemoved name)

theorem Spare.afterEvents (h : Spare b) (events : List Event) : Spare (b.afterEvents events) := by
  induction events generalizing b with
  | nil => exact h
  | cons event rest ih => exact ih (h.apply event)

/-- A buffer that keeps bytes for its mark alone holds no byte and no file when it is idle, whatever
happened to it. What a replay still needed when its mark was lost is gone with the read that catches
up. -/
theorem vacant_of_idle {source : σ} (hb : New source b) (hforgets : b.retainHistory = false)
    (hempty : b.store.holding = (0, false)) (events : List Event) :
    (Idle (b.afterEvents events) → Vacant (b.afterEvents events)) ∧
      ((b.afterEvents events).mark.isActive = false → ∀ sizes,
        (ByteSource.afterReads (b.afterEvents events) sizes).position =
          (ByteSource.afterReads (b.afterEvents events) sizes).sourcePosition →
        Vacant (ByteSource.afterReads (b.afterEvents events) sizes)) := by
  have hspare := (hb.spare hforgets hempty).afterEvents events
  refine ⟨hspare.vacant, fun hlost sizes hlevel => ?_⟩
  exact (hspare.afterReads sizes).vacant (.inr ⟨isActive_afterReads hlost sizes, hlevel⟩)

/-- A mark is given up in the middle of a replay out of a file, and the file can no longer be
deleted when the replay is done. -/
theorem vacant_of_idle_spilled :
    let source : MockSource := { rest := [1, 2, 3, 4, 5, 6, 7, 8] }
    let c : Settings := { threshold := some 2, spillDir := some "dir" }
    let b : Replay MockSource := withStore source (c.store.build true)
    let events : List Event :=
      [.op (.mark (.bytes 6)), .op (.read 4), .op .reset, .op (.read 2), .op (.mark .invalidate),
        .op (.directoryRemoved "dir")]
    let d := b.afterEvents events
    let caught := ByteSource.afterReads d [2]
    let closed := b.afterEvents (events ++ [.close])
    New source b ∧ b.retainHistory = false ∧ b.store.holding = (0, false) ∧ d.mark.isActive = false ∧
      (d.position, d.sourcePosition) = (2, 4) ∧ d.store.holding = (4, true) ∧
      caught.position = 4 ∧ Vacant caught ∧ closed.closed = true ∧ Vacant closed := by
  intro source c b events d caught closed
  have made : Replay.ofSettings source c true = .ok b := rfl
  have hb : New source b := .ofSettings made
  have hempty : b.store.holding = (0, false) := Store.holding_build c.store true
  have hlost : d.mark.isActive = false := by decide +kernel
  have hlevel : caught.position = caught.sourcePosition := by decide +kernel
  have hclosed : closed.closed = true := by decide +kernel
  have hidle : Idle closed := .inl hclosed
  obtain ⟨-, hcaught⟩ := vacant_of_idle hb rfl hempty events
  obtain ⟨hend, -⟩ := vacant_of_idle hb rfl hempty (events ++ [.close])
  have hcaught := hcaught hlost [2] hlevel
  have hend := hend hidle
  exact ⟨hb, rfl, hempty, hlost, by decide +kernel, by decide +kernel, by decide +kernel, hcaught,
    hclosed, hend⟩

end Replay

end StreamLayers
