import StreamLayers.Proofs.Replay

/-!
Sources of which reads get a bounded number of bytes, whichever of the reads fail.
-/

namespace StreamLayers

namespace ByteSource

variable {σ : Type} [ByteSource σ]

/-- No reads of `s` get more than `bound` bytes in all. -/
def ReadsAtMost (bound : Nat) (s : σ) : Prop := ∀ sizes, (reads s sizes).length ≤ bound

theorem ReadsAtMost.step {bound : Nat} {s : σ} (h : ReadsAtMost bound s) (n : Nat) :
    (handedOver (read s n).1).length ≤ bound ∧
      ReadsAtMost (bound - (handedOver (read s n).1).length) (read s n).2 := by
  have hmore (sizes : List Nat) :
      (handedOver (read s n).1).length + (reads (read s n).2 sizes).length ≤ bound := by
    rw [← List.length_append]
    exact h (n :: sizes)
  refine ⟨Nat.le_trans (Nat.le_add_right _ _) (hmore []), fun sizes => ?_⟩
  have hle := hmore sizes
  omega

theorem readsAtMost_rest [SerialSource σ] (s : σ) :
    ReadsAtMost (SerialSource.rest s).length s := by
  intro sizes
  have hall := reads_append_rest s sizes
  simp [← hall]

/-- What a source holds is what it says is left, or less. -/
theorem readsAtMost_left [SerialSource σ] [BoundedSource σ] (s : σ) : ReadsAtMost (left s) s :=
  fun sizes => Nat.le_trans (readsAtMost_rest s sizes) (BoundedSource.length_rest_le s)

end ByteSource

/-- Reads of `n` bytes from `s` get `blocks`, and then nothing more or a failure. -/
inductive Drains {σ : Type} [ByteSource σ] (n : Nat) : σ → List Bytes → Option Fault → Prop where
  | ended {s : σ} : (ByteSource.read s n).1 = .ok [] → Drains n s [] none
  | failed {s : σ} {e : Fault} : (ByteSource.read s n).1 = .error e → Drains n s [] (some e)
  | more {s : σ} {data : Bytes} {blocks : List Bytes} {failure : Option Fault} :
      (ByteSource.read s n).1 = .ok data → data ≠ [] →
      Drains n (ByteSource.read s n).2 blocks failure → Drains n s (data :: blocks) failure

/-- What a source gives until it ends is fixed. -/
theorem Drains.unique {σ : Type} [ByteSource σ] {n : Nat} {s : σ} {blocks blocks' : List Bytes}
    {failure failure' : Option Fault} (h : Drains n s blocks failure)
    (h' : Drains n s blocks' failure') : blocks = blocks' ∧ failure = failure' := by
  induction h generalizing blocks' failure' with
  | ended hr =>
    cases h' with
    | ended _ => exact ⟨rfl, rfl⟩
    | failed hr' => cases hr.symm.trans hr'
    | more hr' hdata _ => exact absurd (Except.ok.inj (hr.symm.trans hr')).symm hdata
  | failed hr =>
    cases h' with
    | ended hr' => cases hr.symm.trans hr'
    | failed hr' => exact ⟨rfl, congrArg some (Except.error.inj (hr.symm.trans hr'))⟩
    | more hr' _ _ => cases hr.symm.trans hr'
  | more hr hdata _ ih =>
    cases h' with
    | ended hr' => exact absurd (Except.ok.inj (hr.symm.trans hr')) hdata
    | failed hr' => cases hr.symm.trans hr'
    | more hr' _ hrest =>
      obtain ⟨rfl, rfl⟩ := ih hrest
      exact ⟨congrArg (· :: _) (Except.ok.inj (hr.symm.trans hr')), rfl⟩

/-- A source that bounds its reads is drained by reading all of it. -/
theorem drains_readBlocksFrom {σ : Type} [ByteSource σ] {n fuel : Nat} {s : σ}
    (h : ByteSource.ReadsAtMost fuel s) (before : List Bytes) :
    ∃ blocks, (ByteSource.readBlocksFrom n fuel s before).blocks = before.reverse ++ blocks ∧
      Drains n s blocks (ByteSource.readBlocksFrom n fuel s before).failure := by
  induction fuel generalizing s before with
  | zero =>
    have hnone := (h.step n).1
    unfold ByteSource.readBlocksFrom
    rcases hr : ByteSource.read s n with ⟨e | d, s'⟩
    · exact ⟨[], by simp, .failed (by rw [hr])⟩
    · rw [hr] at hnone
      obtain rfl : d = [] := List.eq_nil_of_length_eq_zero (Nat.le_zero.1 hnone)
      exact ⟨[], by simp, .ended (by rw [hr])⟩
  | succ fuel ih =>
    obtain ⟨-, hlater⟩ := h.step n
    unfold ByteSource.readBlocksFrom
    rcases hr : ByteSource.read s n with ⟨e | _ | ⟨b, d⟩, s'⟩
    · exact ⟨[], by simp, .failed (by rw [hr])⟩
    · exact ⟨[], by simp, .ended (by rw [hr])⟩
    · rw [hr] at hlater
      have hleft : ByteSource.ReadsAtMost fuel s' :=
        fun sizes => Nat.le_trans (hlater sizes) (by simp [handedOver])
      obtain ⟨blocks, hblocks, hdrains⟩ := ih hleft ((b :: d) :: before)
      refine ⟨(b :: d) :: blocks, by simp [hblocks], .more (by rw [hr]) (List.cons_ne_nil b d) ?_⟩
      rw [hr]
      exact hdrains

theorem drains_readBlocks {σ : Type} [ByteSource σ] {s : σ}
    (h : ByteSource.ReadsAtMost (ByteSource.left s) s) (n : Nat) :
    Drains n s (ByteSource.readBlocks s n).blocks (ByteSource.readBlocks s n).failure := by
  obtain ⟨blocks, hblocks, hdrains⟩ := drains_readBlocksFrom h []
  rw [ByteSource.readBlocks, hblocks]
  exact hdrains

namespace Replay

open ByteSource

variable {σ : Type} {bound : Nat}

/-- What reads of `b` can still get, if those of its source get at most `bound` bytes. -/
def remaining (b : Replay σ) (bound : Nat) : Nat := (b.sourcePosition - b.position) + bound

theorem readStore_counted (b : Replay σ) (bound n : Nat) :
    (b.readStore n).2.source = b.source ∧
      (handedOver (b.readStore n).1).length + (b.readStore n).2.remaining bound ≤
        b.remaining bound := by
  unfold Replay.readStore
  rcases b.store.seek (b.position - b.base) with ⟨e | u, s⟩
  · exact ⟨rfl, Nat.le_of_eq (Nat.zero_add _)⟩
  · obtain ⟨-, hle, -⟩ := s.get_spec (min n (b.sourcePosition - b.position))
    refine ⟨rfl, ?_⟩
    simp only [handedOver, remaining]
    omega

variable [ByteSource σ]

theorem readSource_counted {b : Replay σ} (h : ReadsAtMost bound b.source)
    (hlevel : b.sourcePosition ≤ b.position) (n : Nat) :
    ∃ later, ReadsAtMost later (b.readSource n).2.source ∧
      (handedOver (b.readSource n).1).length + (b.readSource n).2.remaining later ≤
        b.remaining bound := by
  obtain ⟨hle, hlater⟩ := h.step n
  unfold Replay.readSource Replay.keep
  rcases hr : ByteSource.read b.source n with ⟨e | got, s⟩ <;> rw [hr] at hle hlater
  · exact ⟨bound, hlater, Nat.le_of_eq (Nat.zero_add _)⟩
  · refine ⟨bound - got.length, ?_⟩
    simp only [handedOver] at hle hlater
    -- Bytes that the store refuses are gone, and count as well.
    have hpassed : got.length + ((b.sourcePosition + got.length - (b.position + got.length)) +
        (bound - got.length)) ≤ b.sourcePosition - b.position + bound := by omega
    have hlost : 0 + (b.sourcePosition - b.position + (bound - got.length)) ≤
        b.sourcePosition - b.position + bound := by omega
    dsimp only
    split
    · rcases b.store.put got with ⟨e | u, store⟩
      · exact ⟨hlater, hlost⟩
      · exact ⟨hlater, hpassed⟩
    · exact ⟨hlater, hpassed⟩

theorem read_counted {b : Replay σ} (h : ReadsAtMost bound b.source) (n : Nat) :
    ∃ later, ReadsAtMost later (b.read n).2.source ∧
      (handedOver (b.read n).1).length + (b.read n).2.remaining later ≤ b.remaining bound := by
  by_cases hopen : b.closed = true
  · have hread : b.read n = (.error (.closed "replay"), b) := by simp [Replay.read, hopen]
    rw [hread]
    exact ⟨bound, h, Nat.le_of_eq (Nat.zero_add _)⟩
  rw [Bool.not_eq_true] at hopen
  rcases Nat.eq_zero_or_pos n with rfl | hn
  · rw [read_zero hopen]
    exact ⟨bound, h, Nat.le_of_eq (Nat.zero_add _)⟩
  have hfetch : ∃ later, ReadsAtMost later (b.fetch n).2.source ∧
      (handedOver (b.fetch n).1).length + (b.fetch n).2.remaining later ≤ b.remaining bound := by
    unfold Replay.fetch
    split
    · obtain ⟨hsource, hle⟩ := b.readStore_counted bound n
      exact ⟨bound, hsource ▸ h, hle⟩
    · exact readSource_counted h (Nat.le_of_not_lt ‹_›) n
  rw [read_eq_fetch hopen hn]
  rcases hd : b.fetch n with ⟨e | got, c⟩ <;> rw [hd] at hfetch
  · exact hfetch
  · obtain ⟨m, hm, -⟩ := c.enforceLimit_frame
    obtain ⟨store, base, hfr⟩ := c.enforceLimit.discardUnreachable_frame
    have hafter : c.afterRead = { c with mark := m, store, base } := by
      rw [afterRead, hfr, hm]
    simp only [hafter]
    exact hfetch

/-- A buffer gives out what it holds for a replay and what its source still has. -/
theorem readsAtMost {b : Replay σ} (h : ReadsAtMost bound b.source) :
    ReadsAtMost (b.remaining bound) b := by
  intro sizes
  induction sizes generalizing b bound with
  | nil => exact Nat.zero_le _
  | cons n rest ih =>
    obtain ⟨later, hlater, hle⟩ := read_counted h n
    have hreads : reads b (n :: rest) = handedOver (b.read n).1 ++ reads (b.read n).2 rest := rfl
    rw [hreads, List.length_append]
    exact Nat.le_trans (Nat.add_le_add_left (ih hlater) _) hle

end Replay

end StreamLayers
