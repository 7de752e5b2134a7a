import StreamLayers.Proofs.Replay.Cursor

/-!
What the calls of a replay buffer leave as it was made, and which of them leave its base where it
was.
-/

namespace StreamLayers

namespace Replay

section Calls

variable {σ : Type}

/-- Buffers of one making: what no call but a closing one changes. -/
structure Akin (b c : Replay σ) : Prop where
  retain_eq : c.retainHistory = b.retainHistory
  chunk_eq : c.readChunk = b.readChunk
  closed_eq : c.closed = b.closed

theorem Akin.refl (b : Replay σ) : Akin b b := ⟨rfl, rfl, rfl⟩

theorem Akin.trans {b c d : Replay σ} (h : Akin b c) (h' : Akin c d) : Akin b d where
  retain_eq := h'.retain_eq.trans h.retain_eq
  chunk_eq := h'.chunk_eq.trans h.chunk_eq
  closed_eq := h'.closed_eq.trans h.closed_eq

theorem New.readChunk_pos {source : σ} {b : Replay σ} (h : New source b) : 0 < b.readChunk := by
  obtain ⟨store, retainHistory, readChunk, rfl, hpos⟩ := h.shape
  exact hpos

theorem New.base_eq {source : σ} {b : Replay σ} (h : New source b) : b.base = 0 := by
  obtain ⟨store, retainHistory, readChunk, rfl, -⟩ := h.shape
  rfl

theorem caching_of_retain {b : Replay σ} (h : b.retainHistory = true) : b.caching = true := by
  rw [caching, h, Bool.true_or]

/-- A buffer that keeps bytes after a read kept them before, and drops nothing. -/
theorem afterRead_kept (b : Replay σ) :
    Akin b b.afterRead ∧
      (b.afterRead.caching = true → b.afterRead.base = b.base ∧ b.caching = true) := by
  obtain ⟨m, hm, -⟩ := b.enforceLimit_frame
  obtain ⟨store, base, hfr⟩ := b.enforceLimit.discardUnreachable_frame
  have hafter : b.afterRead = { b.enforceLimit with store, base } := hfr
  refine ⟨by rw [hafter, hm]; exact ⟨rfl, rfl, rfl⟩, fun hc => ?_⟩
  have hkept : b.enforceLimit.caching = true := by
    rw [hafter] at hc
    exact hc
  refine ⟨?_, caching_of_enforceLimit hkept⟩
  rw [afterRead, discardUnreachable_needed (.inl hkept), hm]

theorem setMark_kept (b : Replay σ) (limit : MarkLimit) :
    Akin b (b.setMark limit).2 ∧
      (b.retainHistory = true → (b.setMark limit).2.base = b.base) := by
  by_cases hclosed : b.closed = true
  · unfold setMark
    rw [if_pos hclosed]
    exact ⟨.refl b, fun _ => rfl⟩
  · rcases setMark_open (Bool.eq_false_iff.2 hclosed) limit with hs | hs <;> rw [hs]
    · obtain ⟨store, base, hfr⟩ :=
        ({ b with mark := .invalidated } : Replay σ).discardUnreachable_frame
      refine ⟨by rw [hfr]; exact ⟨rfl, rfl, rfl⟩, fun hretain => ?_⟩
      have hkeeps : ({ b with mark := .invalidated } : Replay σ).caching = true :=
        caching_of_retain hretain
      rw [discardUnreachable_needed (.inl hkeeps)]
    · unfold remark
      split
      · rename_i hidle
        obtain ⟨store, base, hfr⟩ :=
          ({ b with mark := .unset } : Replay σ).discardUnreachable_frame
        refine ⟨?_, fun hretain => ?_⟩
        · rcases hd : ({ b with mark := .unset } : Replay σ).discardUnreachable with ⟨e | u, c⟩ <;>
            rw [hd] at hfr <;> obtain rfl : c = _ := hfr <;> exact ⟨rfl, rfl, rfl⟩
        · rw [hretain] at hidle
          cases hidle
      · exact ⟨⟨rfl, rfl, rfl⟩, fun _ => rfl⟩

end Calls

section Reads

variable {σ : Type} [ByteSource σ] {b c : Replay σ} {n : Nat}

theorem fetch_kept {got : Bytes} (h : b.fetch n = (.ok got, c)) :
    Akin b c ∧ c.base = b.base ∧ c.mark = b.mark := by
  obtain ⟨store, rfl⟩ | ⟨store, rfl⟩ := fetch_frame h <;> exact ⟨⟨rfl, rfl, rfl⟩, rfl, rfl⟩

theorem read_kept (b : Replay σ) (n : Nat) :
    Akin b (b.read n).2 ∧
      ((b.read n).2.caching = true → (b.read n).2.base = b.base ∧ b.caching = true) := by
  rcases hr : b.read n with ⟨e | got, c⟩
  · cases failedRead_of_read hr <;> exact ⟨⟨rfl, rfl, rfl⟩, fun hc => ⟨rfl, hc⟩⟩
  · rcases read_ok hr with ⟨-, rfl⟩ | ⟨-, a, hf, rfl⟩
    · exact ⟨.refl c, fun hc => ⟨rfl, hc⟩⟩
    · obtain ⟨hakin, hbase, hmark⟩ := fetch_kept hf
      obtain ⟨hsame, hkept⟩ := a.afterRead_kept
      refine ⟨hakin.trans hsame, fun hc => ?_⟩
      obtain ⟨hbase', hcaching⟩ := hkept hc
      refine ⟨hbase'.trans hbase, ?_⟩
      rw [caching, hmark, hakin.retain_eq] at hcaching
      exact hcaching

theorem afterReads_kept (b : Replay σ) (sizes : List Nat) :
    Akin b (ByteSource.afterReads b sizes) ∧
      ((ByteSource.afterReads b sizes).caching = true →
        (ByteSource.afterReads b sizes).base = b.base ∧ b.caching = true) := by
  induction sizes generalizing b with
  | nil => exact ⟨.refl b, fun hc => ⟨rfl, hc⟩⟩
  | cons n rest ih =>
    obtain ⟨hakin, hkept⟩ := b.read_kept n
    obtain ⟨hakin', hkept'⟩ := ih (b.read n).2
    refine ⟨hakin.trans hakin', fun hc => ?_⟩
    obtain ⟨hbase, hcaching⟩ := hkept' hc
    obtain ⟨hbase', hcaching'⟩ := hkept hcaching
    exact ⟨hbase.trans hbase', hcaching'⟩

/-- A move that does not read leaves all but the store alone, and does not move ahead. -/
theorem seek_back (hopen : b.closed = false) {target : Nat} (ht : target < b.position) :
    ∃ store position, position ≤ b.position ∧ (b.seek target).2 = { b with store, position } := by
  by_cases hbase : target < b.base
  · rw [seek_before_base hopen ht hbase]
    exact ⟨b.store, b.position, Nat.le_refl _, rfl⟩
  · have hclosed : ¬ b.closed = true := by simp [hopen]
    rw [seek, if_neg hclosed, if_neg (Nat.not_le.2 ht), if_neg hbase]
    dsimp only
    rcases b.store.seek (target - b.base) with ⟨e | u, s⟩ <;>
      exact ⟨s, target, Nat.le_of_lt ht, rfl⟩

/-- A move is a run of reads, or it leaves all but the position and the store alone. -/
theorem seek_moved (b : Replay σ) (target : Nat) :
    (∃ sizes, (b.seek target).2 = ByteSource.afterReads b sizes) ∨
      ∃ store position, (b.seek target).2 = { b with store, position } := by
  by_cases hclosed : b.closed = true
  · refine .inl ⟨[], ?_⟩
    rw [seek, if_pos hclosed]
    rfl
  · have hopen : b.closed = false := Bool.eq_false_iff.2 hclosed
    by_cases ht : b.position ≤ target
    · exact .inl ⟨_, seek_forward hopen ht⟩
    · obtain ⟨store, position, -, hs⟩ := seek_back hopen (Nat.lt_of_not_le ht)
      exact .inr ⟨store, position, hs⟩

/-- A buffer keeps its settings through everything, and its base with them if it keeps its
history. -/
theorem Op.akin_apply (op : Op) (b : Replay σ) :
    Akin b (op.apply b) ∧ (b.retainHistory = true → (op.apply b).base = b.base) := by
  have reads (sizes : List Nat) : Akin b (ByteSource.afterReads b sizes) ∧
      (b.retainHistory = true → (ByteSource.afterReads b sizes).base = b.base) := by
    obtain ⟨hakin, hkept⟩ := b.afterReads_kept sizes
    exact ⟨hakin, fun hretain =>
      (hkept (caching_of_retain (hakin.retain_eq.trans hretain))).1⟩
  cases op with
  | read n => exact reads [n]
  | mark limit => exact b.setMark_kept limit
  | reset =>
    show Akin b b.reset.2 ∧ (_ → b.reset.2.base = b.base)
    obtain ⟨store, position, hs⟩ := b.reset_frame
    rw [hs]
    exact ⟨⟨rfl, rfl, rfl⟩, fun _ => rfl⟩
  | seek target =>
    show Akin b (b.seek target).2 ∧ (_ → (b.seek target).2.base = b.base)
    obtain ⟨sizes, hs⟩ | ⟨store, position, hs⟩ := b.seek_moved target <;> rw [hs]
    · exact reads sizes
    · exact ⟨⟨rfl, rfl, rfl⟩, fun _ => rfl⟩
  | directoryMade name => exact ⟨⟨rfl, rfl, rfl⟩, fun _ => rfl⟩
  | directoryRemoved name => exact ⟨⟨rfl, rfl, rfl⟩, fun _ => rfl⟩

theorem akin_after (b : Replay σ) (ops : List Op) :
    Akin b (b.after ops) ∧ (b.retainHistory = true → (b.after ops).base = b.base) := by
  induction ops generalizing b with
  | nil => exact ⟨.refl b, fun _ => rfl⟩
  | cons op rest ih =>
    obtain ⟨hakin, hbase⟩ := op.akin_apply b
    obtain ⟨hakin', hbase'⟩ := ih (op.apply b)
    refine ⟨hakin.trans hakin', fun hretain => ?_⟩
    exact (hbase' (hakin.retain_eq.trans hretain)).trans (hbase hretain)

end Reads

end Replay

end StreamLayers
