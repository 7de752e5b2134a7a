import StreamLayers.Proofs.Replay.Kept
import StreamLayers.Proofs.Replay.Rewind
import StreamLayers.Proofs.Replay.Twins

/-!
Random access in a replay buffer. A move forward ends at its target or at the end of the data; a move
back ends at its target if that lies within what is held, and else changes nothing.
-/

namespace StreamLayers

/-- A source whose reads never fail, and get something as long as there are bytes to come. -/
def Willing {σ : Type} [ByteSource σ] [SerialSource σ] (s : σ) : Prop :=
  ∀ sizes n, (∀ m ∈ sizes, 0 < m) → 0 < n →
    ∃ got, (ByteSource.read (ByteSource.afterReads s sizes) n).1 = .ok got ∧
      (got = [] → SerialSource.rest (ByteSource.afterReads s sizes) = [])

namespace Willing

variable {σ : Type} [ByteSource σ] [SerialSource σ] {s : σ} {n : Nat}

theorem answers (h : Willing s) (hn : 0 < n) :
    ∃ got, (ByteSource.read s n).1 = .ok got ∧ (got = [] → SerialSource.rest s = []) :=
  h [] n (by simp) hn

theorem read (h : Willing s) (hn : 0 < n) : Willing (ByteSource.read s n).2 :=
  fun sizes k hsizes hk => h (n :: sizes) k (List.forall_mem_cons.2 ⟨hn, hsizes⟩) hk

theorem once (h : Willing s) (closed : Bool) : Willing (⟨s, closed⟩ : Once σ) := by
  intro sizes
  induction sizes generalizing s with
  | nil => exact h []
  | cons m rest ih =>
    intro k hsizes
    obtain ⟨hm, hrest⟩ := List.forall_mem_cons.1 hsizes
    exact ih (h.read hm) k hrest

end Willing

/-- Memory does not fail, and gives something as long as there is something left. -/
theorem willing_mock {s : MockSource} (hfail : s.failAt = none) (hcap : s.maxRead ≠ some 0) :
    Willing s := by
  have answer {t : MockSource} (hnone : t.failAt = none) (n : Nat) :
      ByteSource.read t n =
        (.ok (t.rest.take (capped t.maxRead n)),
          { t with
            reads := t.reads + 1
            rest := t.rest.drop (capped t.maxRead n)
            pulled := t.pulled + (t.rest.take (capped t.maxRead n)).length }) := by
    have ha : ({ t with reads := t.reads + 1 } : MockSource).allowance n =
        some (capped t.maxRead n) := by
      unfold MockSource.allowance
      rw [hnone]
    simp only [ByteSource.read, ha]
  intro sizes
  induction sizes generalizing s with
  | nil =>
    intro n _ hn
    refine ⟨_, congrArg Prod.fst (answer hfail n), fun hempty => ?_⟩
    exact (List.take_eq_nil_iff.1 hempty).resolve_left (Nat.pos_iff_ne_zero.1 (capped_pos hcap hn))
  | cons m rest ih =>
    intro n hsizes
    have hafter : ByteSource.afterReads s (m :: rest) =
        ByteSource.afterReads (ByteSource.read s m).2 rest := rfl
    rw [hafter, answer hfail m]
    refine ih ?_ ?_ n (List.forall_mem_cons.1 hsizes).2
    · exact hfail
    · exact hcap

namespace Replay

section Source

variable {σ : Type} [ByteSource σ] [SerialSource σ] {b : Replay σ}

theorem willing_read (hw : Willing b.source) (n : Nat) : Willing (b.read n).2.source := by
  rcases Nat.eq_zero_or_pos n with rfl | hn
  · rcases hc : b.closed with _ | _
    · rw [read_zero hc]
      exact hw
    · simp only [read, hc, if_true]
      exact hw
  · obtain ⟨-, -, -, hs | hs⟩ := b.read_moved n <;> rw [hs]
    · exact hw
    · exact hw.read hn

theorem willing_afterReads (hw : Willing b.source) (sizes : List Nat) :
    Willing (ByteSource.afterReads b sizes).source := by
  induction sizes generalizing b with
  | nil => exact hw
  | cons n rest ih => exact ih (willing_read hw n)

theorem Op.willing_apply (hw : Willing b.source) (op : Op) : Willing (op.apply b).source := by
  cases op with
  | read n => exact willing_read hw n
  | mark limit => exact (b.setMark_moved limit).1.2.1.symm ▸ hw
  | reset => exact b.reset_kept.1.symm ▸ hw
  | seek target =>
    show Willing (b.seek target).2.source
    obtain ⟨sizes, hs⟩ | ⟨store, position, hs⟩ := b.seek_moved target <;> rw [hs]
    · exact willing_afterReads hw sizes
    · exact hw
  | directoryMade name => exact hw
  | directoryRemoved name => exact hw

theorem willing_after (hw : Willing b.source) (ops : List Op) : Willing (b.after ops).source := by
  induction ops generalizing b with
  | nil => exact hw
  | cons op rest ih => exact ih (op.willing_apply hw)

end Source

section Forward

variable {σ : Type} [ByteSource σ]

/-- Reads that move forward by what they get need no more steps than there are bytes to skip. -/
theorem skipTo_fuel (target : Nat) {fuel fuel' : Nat} (b : Replay σ)
    (hf : target - b.position ≤ fuel) (hf' : target - b.position ≤ fuel') :
    b.skipTo target fuel = b.skipTo target fuel' := by
  induction fuel generalizing b fuel' with
  | zero => rw [skipTo_of_le (by omega), skipTo_of_le (by omega)]
  | succ fuel ih =>
    by_cases ht : target ≤ b.position
    · rw [skipTo_of_le ht, skipTo_of_le ht]
    · have hlt := Nat.lt_of_not_le ht
      obtain ⟨more, rfl⟩ : ∃ more, fuel' = more + 1 := ⟨fuel' - 1, by omega⟩
      rw [skipTo_of_lt hlt, skipTo_of_lt hlt]
      have hmoved := (b.read_moved (min b.readChunk (target - b.position))).1
      rcases hr : b.read (min b.readChunk (target - b.position)) with ⟨e | _ | ⟨x, d⟩, c⟩
      · rfl
      · rfl
      · rw [hr] at hmoved
        -- The target has come closer, so what is left of both budgets suffices.
        have hpos : c.position = b.position + (d.length + 1) := hmoved
        exact ih c (by omega) (by omega)

variable [SerialSource σ] {data : Bytes} {b : Replay σ}

/-- Over a source that never fails, a read that the store serves succeeds, and is empty only at the
end of the data. -/
theorem InStep.read_willing (h : InStep data b) (hw : Willing b.source) {n : Nat} (hn : 0 < n)
    (hs : b.readServed n = true) :
    ∃ got c, b.read n = (.ok got, c) ∧ Got data b c n got ∧
      (got = [] → b.position = data.length) := by
  obtain ⟨got, hanswer, hend⟩ := hw.answers hn
  rcases hr : b.read n with ⟨e | got', c⟩
  · have hfetch := h.fetch hn
    rw [readServed_open h.isOpen hn] at hs
    rw [read_eq_fetch h.isOpen hn] at hr
    rcases hf : b.fetch n with ⟨e' | d, a⟩ <;> rw [hf] at hr hs hfetch
    · -- Only the source may have failed here, and it has not.
      simp [hfetch.1, hanswer, Except.isOk, Except.toBool] at hs
    · cases (Prod.mk.inj hr).1
  · have hgot := h.read_got hr
    refine ⟨got', c, rfl, hgot, fun hempty => ?_⟩
    obtain ⟨hlevel, hnothing⟩ := hgot.empty hn hempty
    rw [hanswer] at hnothing
    have hrest := hend (Except.ok.inj hnothing)
    rw [h.rest_eq, List.drop_eq_nil_iff] at hrest
    exact hlevel.trans (Nat.le_antisymm h.pulled_le hrest)

theorem InStep.skipTo (h : InStep data b) (hw : Willing b.source) (hchunk : 0 < b.readChunk)
    {target fuel : Nat} (ht : b.position ≤ target) (hf : target - b.position ≤ fuel)
    (hs : b.readsServed (skipSizes target fuel b) = true) :
    (b.skipTo target fuel).1 = .ok (min target data.length) ∧
      (b.skipTo target fuel).2.position = min target data.length := by
  have stops {c : Replay σ} (hc : c.position = min target data.length) :
      (Except.ok c.position : Except Fault Nat) = .ok (min target data.length) ∧
        c.position = min target data.length := ⟨congrArg Except.ok hc, hc⟩
  induction fuel generalizing b with
  | zero =>
    have hdata := Nat.le_trans h.position_le h.pulled_le
    rw [skipTo_of_le (by omega)]
    exact stops (by omega)
  | succ fuel ih =>
    have hdata := Nat.le_trans h.position_le h.pulled_le
    rcases Nat.eq_or_lt_of_le ht with rfl | hlt
    · rw [skipTo_of_le (Nat.le_refl _)]
      exact stops (by omega)
    · have hn : 0 < min b.readChunk (target - b.position) := by omega
      obtain ⟨hone, hmore⟩ := readsServed_skip (Nat.not_le.2 hlt) hs
      obtain ⟨got, c, hr, hgot, hend⟩ := h.read_willing hw hn hone
      have hin := (h.read hone).1
      have hwilling := willing_read hw (min b.readChunk (target - b.position))
      have hakin := (b.read_kept (min b.readChunk (target - b.position))).1
      have hpos := hgot.position_eq
      have hlen := hgot.length_le
      rw [skipTo_of_lt hlt]
      rw [hr] at hin hwilling hakin ⊢
      cases got with
      | nil =>
        -- The data ends here, before the target.
        have hfull := hend rfl
        have hsame : c.position = b.position := hpos
        exact stops (by omega)
      | cons x d =>
        simp only [List.length_cons] at hpos hlen
        have hchunk' : 0 < c.readChunk := hakin.chunk_eq.symm ▸ hchunk
        exact ih hin hwilling hchunk' (by omega) (by omega) (hmore x d c hr)

end Forward

/-- The first position from which on every byte that was pulled is held. -/
def earliest {σ : Type} (b : Replay σ) : Nat := b.sourcePosition - b.buffered

section Access

variable {σ : Type} [ByteSource σ] [SerialSource σ] {data : Bytes} {b : Replay σ} {target : Nat}

theorem InStep.earliest_eq (h : InStep data b) : b.earliest = b.base := by
  rw [earliest, buffered, h.writePosition_eq]
  exact Nat.sub_sub_self h.base_le_pulled

/-- A buffer that keeps its history asks nothing of its files when it replays. -/
theorem InStep.served_retained (h : InStep data b) (hretain : b.retainHistory = true)
    (hp : b.position < b.sourcePosition) {n : Nat} (hn : 0 < n) :
    b.readServed n = true ∧ (b.read n).2.sourcePosition = b.sourcePosition := by
  obtain ⟨m, store, -, -, -, hread⟩ := readStore_stored h.length_log h.base_le hp hn
  have hfetch : b.fetch n = b.readStore n := if_pos hp
  rw [readServed_open h.isOpen hn, read_eq_fetch h.isOpen hn, hfetch, hread]
  dsimp only
  obtain ⟨mark, hm, -⟩ :=
    enforceLimit_frame ({ b with store, position := b.position + m } : Replay σ)
  have hkeeps : ({ b with store, position := b.position + m } : Replay σ).enforceLimit.caching =
      true := by
    rw [hm]
    exact caching_of_retain hretain
  rw [afterRead, discardUnreachable_needed (.inl hkeeps), hm]
  exact ⟨rfl, rfl⟩

theorem InStep.skip_retained (h : InStep data b) (hretain : b.retainHistory = true)
    (hchunk : 0 < b.readChunk) (ht : target ≤ b.sourcePosition) (fuel : Nat) :
    b.readsServed (skipSizes target fuel b) = true := by
  induction fuel generalizing b with
  | zero => rfl
  | succ fuel ih =>
    rw [skipSizes]
    split
    · rfl
    · rename_i hshort
      have hp : b.position < b.sourcePosition := by omega
      have hn : 0 < min b.readChunk (target - b.position) := by omega
      obtain ⟨hone, hsame⟩ := h.served_retained hretain hp hn
      have hin := (h.read hone).1
      have hakin := (b.read_kept (min b.readChunk (target - b.position))).1
      dsimp only
      split
      · rename_i x d c hr
        rw [hr] at hin hakin hsame
        have hretain' : c.retainHistory = true := hakin.retain_eq.trans hretain
        have hchunk' : 0 < c.readChunk := hakin.chunk_eq.symm ▸ hchunk
        have hpulled : c.sourcePosition = b.sourcePosition := hsame
        rw [readsServed, hone, hr, Bool.true_and]
        exact ih hin hretain' hchunk' (hpulled.symm ▸ ht)
      · rw [readsServed, hone]
        rfl

/-- What a move to `target` owes the caller of a buffer over `data`. -/
structure Moves (data : Bytes) (b : Replay σ) (target : Nat) : Prop where
  /-- Forward, the target is reached or the end of the data. -/
  reaches : b.position ≤ target →
    (b.seek target).1 = .ok (min target data.length) ∧
      (b.seek target).2.position = min target data.length
  /-- No more reads are needed for it than there are bytes to skip. -/
  ends : b.position ≤ target →
    ∀ fuel, target - b.position ≤ fuel → b.skipTo target fuel = b.seek target
  /-- What was skipped is held, if anything is to be held at the end. -/
  skipped : b.position ≤ target → (b.seek target).2.caching = true →
    (b.seek target).2.earliest ≤ b.position ∧
      ((b.seek target).2.store.log.drop (b.position - (b.seek target).2.earliest)).take
          ((b.seek target).2.position - b.position) =
        (data.drop b.position).take ((b.seek target).2.position - b.position)
  /-- Back, the target is reached or nothing is done, by where it lies. -/
  back : target < b.position → b.earliest ≤ target →
    (b.seek target).1 = .ok target ∧ (b.seek target).2.position = target ∧
      Delivers data (b.seek target).2
  refused : target < b.position → target < b.earliest →
    b.seek target = (.error (.misuse (.seekBeforeCache target b.earliest)), b)

/-- What a buffer over `data` holds for moves back. -/
structure Keeps (data : Bytes) (b : Replay σ) : Prop where
  held : b.store.log = (data.take b.sourcePosition).drop b.earliest
  /-- With its history, a buffer can be moved to every position that its source has been at. -/
  history : b.retainHistory = true →
    b.earliest = 0 ∧
      ∀ p, p ≤ b.sourcePosition → (b.seek p).1 = .ok p ∧ (b.seek p).2.position = p
  marked : ∀ p limit, b.mark = .active p limit → b.earliest ≤ p

theorem InStep.reaches (h : InStep data b) (hw : Willing b.source) (hchunk : 0 < b.readChunk)
    (ht : b.position ≤ target) (hs : (Op.seek target).served b = true) :
    (b.seek target).1 = .ok (min target data.length) ∧
      (b.seek target).2.position = min target data.length := by
  have hopen : ¬ b.closed = true := by simp [h.isOpen]
  have hreads : b.readsServed (skipSizes target (target - b.position) b) = true := by
    simpa [Op.served, Nat.not_lt.2 ht] using hs
  rw [Replay.seek, if_neg hopen, if_pos ht]
  exact h.skipTo hw hchunk ht (Nat.le_refl _) hreads

/-- Bytes between two positions that a buffer holds are those of the data. -/
theorem InStep.held_between (h : InStep data b) {p : Nat} (hp : b.base ≤ p) :
    (b.store.log.drop (p - b.base)).take (b.position - p) =
      (data.drop p).take (b.position - p) := by
  have hle := h.position_le
  rw [h.held, List.drop_drop, Nat.add_sub_cancel' hp, List.drop_take, List.take_take,
    Nat.min_eq_left (Nat.sub_le_sub_right hle p)]

theorem InStep.moves (h : InStep data b) (hw : Willing b.source) (hchunk : 0 < b.readChunk)
    (hs : (Op.seek target).served b = true) : Moves data b target where
  reaches ht := h.reaches hw hchunk ht hs
  ends ht fuel hfuel := by
    have hopen : ¬ b.closed = true := by simp [h.isOpen]
    rw [Replay.seek, if_neg hopen, if_pos ht]
    exact skipTo_fuel target b hfuel (Nat.le_refl _)
  skipped ht hcaching := by
    have hin := (h.seek hs).1
    have hbase : (b.seek target).2.base ≤ b.position := by
      rw [seek_forward h.isOpen ht] at hcaching ⊢
      rw [((b.afterReads_kept _).2 hcaching).1]
      exact h.base_le
    rw [hin.earliest_eq]
    exact ⟨hbase, hin.held_between hbase⟩
  back ht hwithin := by
    obtain ⟨hin, -, hmoved⟩ := h.seek_backward ht
    rw [h.earliest_eq] at hwithin
    rw [if_neg (Nat.not_lt.2 hwithin)] at hmoved
    exact ⟨hmoved.1, hmoved.2, hin.sure.delivers⟩
  refused ht hbefore := by
    rw [h.earliest_eq] at hbefore ⊢
    exact seek_before_base h.isOpen ht hbefore

theorem InStep.keeps (h : InStep data b) (hw : Willing b.source) (hchunk : 0 < b.readChunk)
    (hbase : b.retainHistory = true → b.base = 0) : Keeps data b where
  held := h.earliest_eq.symm ▸ h.held
  history hretain := by
    have hzero := h.earliest_eq.trans (hbase hretain)
    refine ⟨hzero, fun p hp => ?_⟩
    have hserved : (Op.seek p).served b = true := by
      rw [Op.served, h.skip_retained hretain hchunk hp, Bool.or_true]
    have hmoves := h.moves hw hchunk hserved
    by_cases hback : p < b.position
    · have hmoved := hmoves.back hback (hzero.symm ▸ Nat.zero_le p)
      exact ⟨hmoved.1, hmoved.2.1⟩
    · have hmoved := hmoves.reaches (Nat.le_of_not_lt hback)
      rw [Nat.min_eq_left (Nat.le_trans hp h.pulled_le)] at hmoved
      exact hmoved
  marked p limit hm := h.earliest_eq.symm ▸ (h.mark_mem p limit hm).1

/-- Over a source that does not fail, and as long as its store does not, a buffer moves to every
position ahead that the data has, and back to every position from the earliest that it holds. -/
theorem random_access {source : σ} (hw : Willing source) (hb : New source b)
    (hempty : b.store.log = []) {ops : List Op} (hs : b.served ops = true)
    (ht : (Op.seek target).served (b.after ops) = true) :
    Moves (SerialSource.rest source) (b.after ops) target ∧
      Keeps (SerialSource.rest source) (b.after ops) := by
  obtain ⟨hsource, -, -, hunset, -⟩ := hb.start
  have hin := ((hb.inStep hempty).after hs (.inl hunset)).1
  obtain ⟨hakin, hbase⟩ := b.akin_after ops
  have hwilling : Willing (b.after ops).source := willing_after (hsource.symm ▸ hw.once false) ops
  have hchunk : 0 < (b.after ops).readChunk :=
    hakin.chunk_eq.symm ▸ hb.readChunk_pos
  have hzero (hretain : (b.after ops).retainHistory = true) : (b.after ops).base = 0 :=
    (hbase (hakin.retain_eq.symm.trans hretain)).trans hb.base_eq
  exact ⟨hin.moves hwilling hchunk ht, hin.keeps hwilling hchunk hzero⟩

/-- A buffer in the middle of a replay of spilled bytes, under a mark that is set there with a limit:
far ahead lies the end of the data, the mark before gave up the first byte, and all from the second
byte on can be gone back to. -/
theorem random_access_spilled :
    let source : MockSource := { rest := [1, 2, 3, 4, 5, 6, 7, 8], maxRead := some 3 }
    let c : Settings := { threshold := some 2, readChunk := 2 }
    let b : Replay MockSource := { withStore source (c.store.build true) with readChunk := 2 }
    let ops : List Op :=
      [.read 1, .mark .unlimited, .seek 6, .reset, .read 2, .mark (.bytes 4)]
    let a := b.after ops
    Willing source ∧ New source b ∧ b.store.log = [] ∧ b.served ops = true ∧
      (Op.seek 20).served a = true ∧ a.position = 3 ∧ a.sourcePosition = 6 ∧
      (a.seek 20).1 = .ok 8 ∧ (a.seek 1).1 = .ok 1 ∧
      a.seek 0 = (.error (.misuse (.seekBeforeCache 0 1)), a) := by
  intro source c b ops a
  have hw : Willing source := willing_mock rfl (by decide)
  have hmade : Replay.ofSettings source c true = .ok b := rfl
  have hb : New source b := .ofSettings hmade
  have hempty : b.store.log = [] := Store.log_build c.store true
  have hs : b.served ops = true := by decide +kernel
  have hahead : (Op.seek 20).served a = true := by decide +kernel
  have hposition : a.position = 3 := by decide +kernel
  have hpulled : a.sourcePosition = 6 := by decide +kernel
  have hearliest : a.earliest = 1 := by decide +kernel
  have moves (target : Nat) (ht : (Op.seek target).served a = true) : Moves source.rest a target :=
    (random_access hw hb hempty hs ht).1
  have hend : min 20 source.rest.length = 8 := by decide
  obtain ⟨hfar, -⟩ := (moves 20 hahead).reaches (by rw [hposition]; decide)
  have hnear := (moves 1 (by decide +kernel)).back (by rw [hposition]; decide)
    (Nat.le_of_eq hearliest)
  have hearly := (moves 0 (by decide +kernel)).refused (by rw [hposition]; decide)
    (by rw [hearliest]; decide)
  rw [hend] at hfar
  rw [hearliest] at hearly
  exact ⟨hw, hb, hempty, hs, hahead, hposition, hpulled, hfar, hnear.1, hearly⟩

end Access

end Replay

end StreamLayers
