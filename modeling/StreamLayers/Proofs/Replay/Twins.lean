import StreamLayers.Proofs.Reads
import StreamLayers.Proofs.Replay.Run

/-!
Two replay buffers that differ in their stores alone. Where the log lies decides how many reads it
takes to get it back, so the two may part within a call; they meet again once the reader has caught
up with the source, and from there on every read asks the source for the same.
-/

namespace StreamLayers

namespace MarkState

/-- What a caller can tell of a mark: not how far the read got that broke its limit. -/
def uncounted : MarkState → MarkState
  | .exceeded limit _ => .exceeded limit 0
  | m => m

theorem uncounted_eq_active {m : MarkState} {p : Nat} {limit : MarkLimit} :
    m.uncounted = .active p limit ↔ m = .active p limit := by
  cases m <;> simp [uncounted]

theorem isActive_of_uncounted {m m' : MarkState} (h : m.uncounted = m'.uncounted) :
    m.isActive = m'.isActive := by
  cases m <;> cases m' <;> first | rfl | cases h

end MarkState

namespace Replay

variable {σ : Type}

/-- Buffers that a caller cannot tell apart by what they hold. -/
structure Twins (b c : Replay σ) : Prop where
  source_eq : b.source = c.source
  log_eq : b.store.log = c.store.log
  base_eq : b.base = c.base
  position_eq : b.position = c.position
  sourcePosition_eq : b.sourcePosition = c.sourcePosition
  mark_eq : b.mark.uncounted = c.mark.uncounted
  retain_eq : b.retainHistory = c.retainHistory
  chunk_eq : b.readChunk = c.readChunk
  closed_eq : b.closed = c.closed

namespace Twins

variable {b c d : Replay σ}

theorem refl (b : Replay σ) : Twins b b := ⟨rfl, rfl, rfl, rfl, rfl, rfl, rfl, rfl, rfl⟩

theorem symm (h : Twins b c) : Twins c b where
  source_eq := h.source_eq.symm
  log_eq := h.log_eq.symm
  base_eq := h.base_eq.symm
  position_eq := h.position_eq.symm
  sourcePosition_eq := h.sourcePosition_eq.symm
  mark_eq := h.mark_eq.symm
  retain_eq := h.retain_eq.symm
  chunk_eq := h.chunk_eq.symm
  closed_eq := h.closed_eq.symm

theorem trans (h : Twins b c) (h' : Twins c d) : Twins b d where
  source_eq := h.source_eq.trans h'.source_eq
  log_eq := h.log_eq.trans h'.log_eq
  base_eq := h.base_eq.trans h'.base_eq
  position_eq := h.position_eq.trans h'.position_eq
  sourcePosition_eq := h.sourcePosition_eq.trans h'.sourcePosition_eq
  mark_eq := h.mark_eq.trans h'.mark_eq
  retain_eq := h.retain_eq.trans h'.retain_eq
  chunk_eq := h.chunk_eq.trans h'.chunk_eq
  closed_eq := h.closed_eq.trans h'.closed_eq

theorem caching_eq (h : Twins b c) : b.caching = c.caching := by
  unfold caching
  rw [h.retain_eq, MarkState.isActive_of_uncounted h.mark_eq]

theorem mark_active (h : Twins b c) {p : Nat} {limit : MarkLimit} :
    b.mark = .active p limit ↔ c.mark = .active p limit := by
  rw [← MarkState.uncounted_eq_active (m := b.mark), h.mark_eq, MarkState.uncounted_eq_active]

theorem enforceLimit (h : Twins b c) : Twins b.enforceLimit c.enforceLimit := by
  by_cases hb : ∃ p limit, b.mark = .active p (.bytes limit)
  · obtain ⟨p, limit, hb⟩ := hb
    have hc := h.mark_active.1 hb
    simp only [Replay.enforceLimit, hb, hc, h.position_eq]
    split
    · exact { h with mark_eq := rfl, position_eq := rfl }
    · exact h
  · have hc : ¬ ∃ p limit, c.mark = .active p (.bytes limit) := by
      rintro ⟨p, limit, hc⟩
      exact hb ⟨p, limit, h.mark_active.2 hc⟩
    rw [enforceLimit_of_unlimited hb, enforceLimit_of_unlimited hc]
    exact h

end Twins

/-- The buffer once what nothing can replay is dropped. -/
def dropped (b : Replay σ) : Replay σ :=
  if b.caching || b.position < b.sourcePosition then b
  else { b with store := .memory {}, base := b.sourcePosition }

/-- The buffer after a read that brought it here. -/
def settled (b : Replay σ) : Replay σ := b.enforceLimit.dropped

theorem Twins.dropped {b c : Replay σ} (h : Twins b c) : Twins b.dropped c.dropped := by
  unfold Replay.dropped
  rw [h.caching_eq, h.position_eq, h.sourcePosition_eq]
  split
  · exact h
  · exact { h with log_eq := rfl, base_eq := rfl, position_eq := rfl, sourcePosition_eq := rfl }

theorem Twins.settled {b c : Replay σ} (h : Twins b c) : Twins b.settled c.settled :=
  h.enforceLimit.dropped

theorem twins_discardUnreachable {b : Replay σ} (hok : b.discardUnreachable.1.isOk = true) :
    Twins b.discardUnreachable.2 b.dropped := by
  unfold discardUnreachable at hok ⊢
  unfold dropped
  split
  · rename_i hkeep
    exact .refl b
  · rename_i hidle
    rw [if_neg hidle] at hok
    split
    · rename_i hstale
      rw [if_pos hstale] at hok
      have hlog := (Store.release_spec b.store).1
      rcases hr : b.store.release with ⟨e | u, s⟩ <;> rw [hr] at hok hlog
      · cases hok
      · exact ⟨rfl, hlog, rfl, rfl, rfl, rfl, rfl, rfl, rfl⟩
    · rename_i hstale
      obtain ⟨hw, hbase⟩ : b.store.writePosition = 0 ∧ b.base = b.sourcePosition := by
        simpa using hstale
      have hnil : b.store.log = [] :=
        List.eq_nil_of_length_eq_zero (by rw [Store.length_log, hw])
      exact ⟨rfl, hnil, hbase, rfl, rfl, rfl, rfl, rfl, rfl⟩

/-- An ordered buffer that holds every byte between its base and what was pulled. -/
structure Tight (b : Replay σ) : Prop extends Ordered b where
  chunk_pos : 0 < b.readChunk
  length_eq : b.store.log.length = b.sourcePosition - b.base

theorem Tight.of_twins {b c : Replay σ} (h : Tight b) (t : Twins b c) : Tight c where
  isOpen := t.closed_eq.symm.trans h.isOpen
  chunk_pos := t.chunk_eq ▸ h.chunk_pos
  base_le := by
    rw [← t.base_eq, ← t.position_eq]
    exact h.base_le
  position_le := by
    rw [← t.position_eq, ← t.sourcePosition_eq]
    exact h.position_le
  mark_mem p limit hm := by
    rw [← t.base_eq, ← t.sourcePosition_eq]
    exact h.mark_mem p limit (t.mark_active.2 hm)
  length_eq := by
    rw [← t.log_eq, ← t.base_eq, ← t.sourcePosition_eq]
    exact h.length_eq

theorem Ordered.dropped {b : Replay σ} (h : Ordered b) (hchunk : 0 < b.readChunk)
    (hlen : b.caching = true ∨ b.position < b.sourcePosition →
      b.store.log.length = b.sourcePosition - b.base) : Tight b.dropped := by
  unfold Replay.dropped
  split
  · rename_i hkeep
    exact ⟨h, hchunk, hlen (by simpa using hkeep)⟩
  · rename_i hidle
    obtain ⟨hcaching, hcaught⟩ : b.caching = false ∧ b.sourcePosition ≤ b.position := by
      simpa using hidle
    refine ⟨⟨h.isOpen, hcaught, h.position_le, ?_⟩, hchunk, ?_⟩
    · intro p limit hm
      have hm : b.mark = .active p limit := hm
      simp [caching, hm, MarkState.isActive] at hcaching
    · show ([] : Bytes).length = b.sourcePosition - b.sourcePosition
      rw [Nat.sub_self, List.length_nil]

theorem Ordered.settled {b : Replay σ} (h : Ordered b) (hchunk : 0 < b.readChunk)
    (hlen : b.caching = true ∨ b.position < b.sourcePosition →
      b.store.log.length = b.sourcePosition - b.base) : Tight b.settled := by
  have hordered := h.enforceLimit
  have hcaching := caching_of_enforceLimit (b := b)
  obtain ⟨m, hb, -⟩ := b.enforceLimit_frame
  unfold Replay.settled
  rw [hb] at hordered hcaching ⊢
  exact hordered.dropped hchunk fun hkeep => hlen (hkeep.imp_left hcaching)

/-- The buffer after reads of its store that got `m` bytes in all. -/
def forth (m : Nat) (b : Replay σ) : Replay σ :=
  if m = 0 then b else { b with position := b.position + m }.settled

theorem forth_zero (b : Replay σ) : b.forth 0 = b := rfl

theorem forth_pos {m : Nat} (hm : 0 < m) (b : Replay σ) :
    b.forth m = { b with position := b.position + m }.settled := by
  rw [forth, if_neg (Nat.pos_iff_ne_zero.1 hm)]

theorem Twins.forth {b c : Replay σ} (h : Twins b c) (m : Nat) : Twins (b.forth m) (c.forth m) := by
  unfold Replay.forth
  split
  · exact h
  · refine Twins.settled { h with position_eq := ?_ }
    show b.position + m = c.position + m
    rw [h.position_eq]

theorem Tight.forth {b : Replay σ} (h : Tight b) {m : Nat}
    (hm : b.position + m ≤ b.sourcePosition) : Tight (b.forth m) := by
  unfold Replay.forth
  split
  · exact h
  · have hbase := Nat.le_trans h.base_le (Nat.le_add_right b.position m)
    exact (h.toOrdered.moveTo hbase hm b.store).settled h.chunk_pos fun _ => h.length_eq

/-- Where the reader has not caught up, a read drops nothing. -/
theorem settled_behind {b : Replay σ} (h : b.position < b.sourcePosition) :
    b.settled = b.enforceLimit := by
  obtain ⟨m, hb, -⟩ := b.enforceLimit_frame
  unfold settled dropped
  rw [hb]
  have hbehind : (Replay.caching { b with mark := m } || decide (b.position < b.sourcePosition)) =
      true := by simp [h]
  exact if_pos hbehind

/-- It does not matter in how many reads the bytes were got back. -/
theorem forth_forth (b : Replay σ) {m n : Nat} (h : b.position + (m + n) ≤ b.sourcePosition) :
    Twins ((b.forth m).forth n) (b.forth (m + n)) := by
  rcases Nat.eq_zero_or_pos m with rfl | hm
  · rw [forth_zero, Nat.zero_add]
    exact .refl _
  · rcases Nat.eq_zero_or_pos n with rfl | hn
    · rw [forth_zero, Nat.add_zero]
      exact .refl _
    · have hbehind : b.position + m < b.sourcePosition := by omega
      have hfirst : b.forth m = ({ b with position := b.position + m } : Replay σ).enforceLimit := by
        rw [forth_pos hm]
        exact settled_behind hbehind
      rw [forth_pos (Nat.add_pos_left hm n), forth_pos hn, hfirst]
      refine Twins.dropped ?_
      rcases hb : b.mark with _ | ⟨p, _ | _ | limit⟩ | _ | ⟨limit, consumed⟩
      case active.bytes =>
        by_cases hover : limit < b.position + m - p
        · have hmore : limit < b.position + (m + n) - p := by omega
          simp only [enforceLimit, hover, hmore, if_true]
          exact ⟨rfl, rfl, rfl, Nat.add_assoc _ _ _, rfl, rfl, rfl, rfl, rfl⟩
        · simp only [enforceLimit, hover, if_false, Nat.add_assoc]
          exact .refl _
      all_goals
        simp only [enforceLimit, Nat.add_assoc]
        exact .refl _

variable {b c : Replay σ} {n : Nat}

theorem settled_frame (b : Replay σ) :
    b.settled.position = b.position ∧ b.settled.sourcePosition = b.sourcePosition := by
  obtain ⟨mark, hmark, -⟩ := b.enforceLimit_frame
  unfold settled dropped
  rw [hmark]
  split <;> exact ⟨rfl, rfl⟩

theorem forth_frame (b : Replay σ) (m : Nat) :
    (b.forth m).position = b.position + m ∧ (b.forth m).sourcePosition = b.sourcePosition := by
  unfold forth
  split
  · rename_i hm
    rw [hm]
    exact ⟨rfl, rfl⟩
  · exact settled_frame { b with position := b.position + m }

/-- The bytes from the position on that the store holds. -/
def behind (b : Replay σ) : Bytes := b.store.log.drop (b.position - b.base)

theorem Tight.length_behind (h : Tight b) :
    b.behind.length = b.sourcePosition - b.position := by
  have hbase := h.base_le
  have hlen := h.length_eq
  unfold behind
  rw [List.length_drop]
  omega

/-- What is left to get back after some of it, if that was not all. -/
theorem behind_forth {m : Nat} (h : b.base ≤ b.position)
    (hp : b.position + m < b.sourcePosition) : (b.forth m).behind = b.behind.drop m := by
  rcases Nat.eq_zero_or_pos m with rfl | hm
  · rw [forth_zero, List.drop_zero]
  · have hlimit : b.forth m = ({ b with position := b.position + m } : Replay σ).enforceLimit := by
      rw [forth_pos hm]
      exact settled_behind hp
    obtain ⟨mark, hmark, -⟩ := enforceLimit_frame ({ b with position := b.position + m } : Replay σ)
    rw [hlimit, hmark]
    show b.store.log.drop (b.position + m - b.base) = (b.store.log.drop (b.position - b.base)).drop m
    rw [List.drop_drop]
    congr 1
    omega

theorem Twins.behind_eq (t : Twins b c) : b.behind = c.behind := by
  unfold behind
  rw [t.log_eq, t.position_eq, t.base_eq]

/-- Reading on after `m` bytes that were got back, and after `k` more. -/
theorem Tight.behind_take (h : Tight b) {m k : Nat}
    (hp : b.position + (m + k) ≤ b.sourcePosition) (t : Twins c (b.forth m)) :
    b.behind.take m ++ c.behind.take k = b.behind.take (m + k) := by
  rcases Nat.eq_zero_or_pos k with rfl | hk
  · rw [List.take_zero, List.append_nil, Nat.add_zero]
  · rw [t.behind_eq, behind_forth h.base_le (by omega), List.take_add]

variable [ByteSource σ]

theorem readServed_open (hopen : b.closed = false) (hn : 0 < n) :
    b.readServed n =
      match b.fetch n with
      | (.ok _, c) => c.enforceLimit.discardUnreachable.1.isOk
      | (.error _, _) =>
        decide (b.position < b.sourcePosition) || !(ByteSource.read b.source n).1.isOk := by
  have hz : (n == 0) = false := beq_eq_false_iff_ne.2 (Nat.pos_iff_ne_zero.1 hn)
  have hguard : (b.closed || n == 0) = false := Bool.or_eq_false_iff.2 ⟨hopen, hz⟩
  rw [readServed, hguard]
  exact Bool.false_or _

/-- A read from the store gets a front part of what is there, of whatever length. -/
theorem Tight.replay_read (h : Tight b) (hp : b.position < b.sourcePosition) (hn : 0 < n)
    (hs : b.readServed n = true) :
    ∃ m, 0 < m ∧ m ≤ min n (b.sourcePosition - b.position) ∧
      (b.read n).1 = .ok (b.behind.take m) ∧ Twins (b.read n).2 (b.forth m) := by
  obtain ⟨m, store, hm, hle, hlog, hread⟩ := readStore_stored h.length_eq h.base_le hp hn
  have hfetch : b.fetch n = b.readStore n := by rw [Replay.fetch, if_pos hp]
  rw [readServed_open h.isOpen hn, hfetch, hread] at hs
  rw [read_eq_fetch h.isOpen hn, hfetch, hread]
  have hmoved : Twins ({ b with store, position := b.position + m } : Replay σ)
      { b with position := b.position + m } :=
    ⟨rfl, hlog, rfl, rfl, rfl, rfl, rfl, rfl, rfl⟩
  refine ⟨m, hm, hle, rfl, ?_⟩
  rw [forth_pos hm]
  exact (twins_discardUnreachable hs).trans hmoved.settled

/-- A read from the store, as far as reading on is concerned. -/
theorem Tight.replay_step (h : Tight b) (hp : b.position < b.sourcePosition) (hn : 0 < n)
    (hs : b.readServed n = true) :
    ∃ x d c, b.read n = (.ok (x :: d), c) ∧ x :: d = b.behind.take (d.length + 1) ∧
      b.position + (d.length + 1) ≤ b.sourcePosition ∧ d.length + 1 ≤ n ∧
      Twins c (b.forth (d.length + 1)) ∧ Tight c := by
  obtain ⟨m, hm, hle, hread, ht⟩ := h.replay_read hp hn hs
  rcases hr : b.read n with ⟨e | got, c⟩ <;> rw [hr] at hread ht
  · cases hread
  · have hgot : got = b.behind.take m := Except.ok.inj hread
    have hlen : got.length = m := by
      rw [hgot, List.length_take, h.length_behind]
      omega
    cases got with
    | nil =>
      rw [← hlen] at hm
      cases hm
    | cons x d =>
      rw [List.length_cons] at hlen
      subst hlen
      have hwithin : b.position + (d.length + 1) ≤ b.sourcePosition := by omega
      have htight : Tight c := (h.forth hwithin).of_twins ht.symm
      exact ⟨x, d, c, rfl, hgot, hwithin, by omega, ht, htight⟩

theorem readsServed_full (hn : 0 < n) (hs : b.readsServed (ByteSource.fullSizes b n) = true) :
    b.readServed n = true ∧ ∀ x d c, b.read n = (.ok (x :: d), c) →
      c.readsServed (ByteSource.fullSizes c (n - (d.length + 1))) = true := by
  rw [ByteSource.fullSizes_pos b hn] at hs
  constructor
  · split at hs <;> simp only [readsServed, Bool.and_eq_true] at hs <;> exact hs.1
  · intro x d c hr
    have hr' : ByteSource.read b n = (.ok (x :: d), c) := hr
    simp only [hr', readsServed, hr, Bool.and_eq_true] at hs
    exact hs.2

theorem readsServed_skip {target fuel : Nat} (ht : ¬ target ≤ b.position)
    (hs : b.readsServed (skipSizes target (fuel + 1) b) = true) :
    b.readServed (min b.readChunk (target - b.position)) = true ∧
      ∀ x d c, b.read (min b.readChunk (target - b.position)) = (.ok (x :: d), c) →
        c.readsServed (skipSizes target fuel c) = true := by
  rw [skipSizes, if_neg ht] at hs
  dsimp only at hs
  constructor
  · split at hs <;> simp only [readsServed, Bool.and_eq_true] at hs <;> exact hs.1
  · intro x d c hr
    simp only [hr, readsServed, Bool.and_eq_true] at hs
    exact hs.2

/-- Reading a full buffer first gets back what the store has for it. -/
theorem Tight.replay_full (h : Tight b)
    (hs : b.readsServed (ByteSource.fullSizes b n) = true) :
    ∃ c, Twins c (b.forth (min n (b.sourcePosition - b.position))) ∧
      ByteSource.readFull b n =
        ByteSource.prepend (b.behind.take (min n (b.sourcePosition - b.position)))
          (ByteSource.readFull c (n - min n (b.sourcePosition - b.position))) ∧
      c.readsServed
        (ByteSource.fullSizes c (n - min n (b.sourcePosition - b.position))) = true := by
  induction n using Nat.strongRecOn generalizing b with
  | ind n ih =>
    by_cases hstart : 0 < n ∧ b.position < b.sourcePosition
    · obtain ⟨hn, hp⟩ := hstart
      obtain ⟨hone, hmore⟩ := readsServed_full hn hs
      obtain ⟨x, d, b', hread, hgot, hwithin, hle, ht, htight⟩ := h.replay_step hp hn hone
      have hread' : ByteSource.read b n = (.ok (x :: d), b') := hread
      have hfull := ByteSource.readFull_pos b hn
      obtain ⟨hpos, hpulled⟩ := b.forth_frame (d.length + 1)
      rw [hread'] at hfull
      obtain ⟨c, hc, hrest, hserved⟩ :=
        ih (n - (d.length + 1)) (by omega) htight (hmore x d b' hread)
      have hleft : b'.sourcePosition - b'.position =
          b.sourcePosition - b.position - (d.length + 1) := by
        rw [ht.sourcePosition_eq, ht.position_eq, hpos, hpulled]
        omega
      rw [hleft] at hc hrest hserved
      generalize hk : min (n - (d.length + 1)) (b.sourcePosition - b.position - (d.length + 1)) = k
        at hc hrest hserved
      have hall : min n (b.sourcePosition - b.position) = d.length + 1 + k := by omega
      have hstep : n - (d.length + 1) - k = n - (d.length + 1 + k) := by omega
      have hin : b.position + (d.length + 1 + k) ≤ b.sourcePosition := by omega
      rw [hall]
      rw [hstep] at hrest hserved
      refine ⟨c, hc.trans ((ht.forth k).trans (b.forth_forth hin)), ?_, hserved⟩
      rw [hfull]
      dsimp only
      rw [hrest, ByteSource.prepend_prepend, hgot, h.behind_take hin ht]
    · have hnone : min n (b.sourcePosition - b.position) = 0 := by omega
      rw [hnone, List.take_zero, Nat.sub_zero]
      exact ⟨b, .refl b, (ByteSource.prepend_nil _).symm, hs⟩

theorem skipTo_of_le {target : Nat} (ht : target ≤ b.position) (fuel : Nat) :
    b.skipTo target fuel = (.ok b.position, b) := by
  cases fuel with
  | zero => rfl
  | succ fuel => rw [skipTo, if_pos ht]

/-- A move ahead takes one read, and goes on where that got something. -/
theorem skipTo_of_lt {target : Nat} (ht : b.position < target) (fuel : Nat) :
    b.skipTo target (fuel + 1) =
      match b.read (min b.readChunk (target - b.position)) with
      | (.error e, c) => (.error e, c)
      | (.ok [], c) => (.ok c.position, c)
      | (.ok _, c) => c.skipTo target fuel := by
  rw [skipTo]
  exact if_neg (Nat.not_le.2 ht)

/-- So does a move forward. -/
theorem Tight.replay_skip (h : Tight b) {target fuel : Nat} (hfuel : target - b.position ≤ fuel)
    (hs : b.readsServed (skipSizes target fuel b) = true) :
    ∃ c fuel', Twins c (b.forth (min (target - b.position) (b.sourcePosition - b.position))) ∧
      target - c.position ≤ fuel' ∧ b.skipTo target fuel = c.skipTo target fuel' ∧
      c.readsServed (skipSizes target fuel' c) = true := by
  induction fuel generalizing b with
  | zero =>
    have hnone : min (target - b.position) (b.sourcePosition - b.position) = 0 := by omega
    rw [hnone]
    exact ⟨b, 0, .refl b, hfuel, rfl, hs⟩
  | succ fuel ih =>
    by_cases hstart : b.position < target ∧ b.position < b.sourcePosition
    · obtain ⟨hmore, hp⟩ := hstart
      have hahead : ¬ target ≤ b.position := Nat.not_le.2 hmore
      have hchunk := h.chunk_pos
      have hn : 0 < min b.readChunk (target - b.position) := by omega
      have hskip := skipTo_of_lt hmore fuel
      obtain ⟨hone, hlater⟩ := readsServed_skip hahead hs
      obtain ⟨x, d, b', hread, -, hwithin, hle, ht, htight⟩ := h.replay_step hp hn hone
      obtain ⟨hpos, hpulled⟩ := b.forth_frame (d.length + 1)
      have hpos' : b'.position = b.position + (d.length + 1) := ht.position_eq.trans hpos
      have hpulled' : b'.sourcePosition = b.sourcePosition := ht.sourcePosition_eq.trans hpulled
      simp only [hread] at hskip
      obtain ⟨c, fuel', hc, hfuel', hrest, hserved⟩ :=
        ih htight (by omega) (hlater x d b' hread)
      rw [hpos', hpulled'] at hc
      generalize hk : min (target - (b.position + (d.length + 1)))
        (b.sourcePosition - (b.position + (d.length + 1))) = k at hc
      have hall : min (target - b.position) (b.sourcePosition - b.position) =
          d.length + 1 + k := by omega
      have hin : b.position + (d.length + 1 + k) ≤ b.sourcePosition := by omega
      rw [hall]
      exact ⟨c, fuel', hc.trans ((ht.forth k).trans (b.forth_forth hin)), hfuel',
        hskip.trans hrest, hserved⟩
    · have hnone : min (target - b.position) (b.sourcePosition - b.position) = 0 := by omega
      rw [hnone]
      exact ⟨b, fuel + 1, .refl b, hfuel, rfl, hs⟩

/-- A read from the source, if the store does its part. -/
theorem read_pulled (hopen : b.closed = false) (hp : ¬ b.position < b.sourcePosition)
    (hn : 0 < n) (hs : b.readServed n = true) :
    match ByteSource.read b.source n with
    | (.error e, s) => b.read n = (.error e, { b with source := s })
    | (.ok d, s) => ∃ store,
        store.log = (if b.caching then b.store.log ++ d else b.store.log) ∧
        (b.read n).1 = .ok d ∧
        Twins (b.read n).2 (({ b with source := s, store } : Replay σ).accept d).settled := by
  have hfetch : b.fetch n = b.readSource n := by rw [Replay.fetch, if_neg hp]
  rw [readServed_open hopen hn, hfetch] at hs
  rw [read_eq_fetch hopen hn, hfetch]
  unfold readSource at hs ⊢
  rcases hr : ByteSource.read b.source n with ⟨e | d, s⟩
  · rfl
  · rw [hr] at hs
    dsimp only at hs ⊢
    by_cases hkeep : (({ b with source := s } : Replay σ).caching && !d.isEmpty) = true
    · simp only [keep, hkeep, if_true] at hs ⊢
      rcases hput : b.store.put d with ⟨e | u, t⟩ <;> simp only [hput] at hs ⊢
      · simp [hp, Except.isOk, Except.toBool] at hs
      · refine ⟨t, ?_, trivial, twins_discardUnreachable hs⟩
        have hcaching : b.caching = true := (Bool.and_eq_true_iff.1 hkeep).1
        rw [if_pos hcaching]
        exact (Store.put_spec hput).1
    · simp only [keep, hkeep, if_false, Bool.false_eq_true] at hs ⊢
      refine ⟨b.store, ?_, trivial, twins_discardUnreachable hs⟩
      split
      · rename_i hcaching
        have hcaching : ({ b with source := s } : Replay σ).caching = true := hcaching
        have hempty : d = [] := by simpa [hcaching] using hkeep
        rw [hempty, List.append_nil]
      · rfl

/-- Twins that both have to ask the source next. -/
structure Abreast (b c : Replay σ) : Prop where
  twins : Twins b c
  tight : Tight b
  caught : b.position = b.sourcePosition

theorem Abreast.read (h : Abreast b c) (hn : 0 < n) (hb : b.readServed n = true)
    (hc : c.readServed n = true) :
    (b.read n).1 = (c.read n).1 ∧ Abreast (b.read n).2 (c.read n).2 ∧
      (b.read n).2.position = b.position + (handedOver (b.read n).1).length := by
  have hbehind : ¬ b.position < b.sourcePosition := by
    rw [h.caught]
    exact Nat.lt_irrefl _
  have hopen : c.closed = false := h.twins.closed_eq.symm.trans h.tight.isOpen
  have hbehind' : ¬ c.position < c.sourcePosition := by
    rw [← h.twins.position_eq, ← h.twins.sourcePosition_eq]
    exact hbehind
  have hfirst := read_pulled h.tight.isOpen hbehind hn hb
  have hsecond := read_pulled hopen hbehind' hn hc
  rw [← h.twins.source_eq] at hsecond
  rcases hr : ByteSource.read b.source n with ⟨e | d, s⟩ <;> rw [hr] at hfirst hsecond <;>
    dsimp only at hfirst hsecond
  · have hb' : Twins ({ b with source := s } : Replay σ) { c with source := s } :=
      { h.twins with source_eq := rfl }
    have ht : Tight ({ b with source := s } : Replay σ) := { h.tight with }
    rw [hfirst, hsecond]
    exact ⟨rfl, ⟨hb', ht, h.caught⟩, rfl⟩
  · obtain ⟨t, hlog, hanswer, htwins⟩ := hfirst
    obtain ⟨t', hlog', hanswer', htwins'⟩ := hsecond
    have hsame : Twins (({ b with source := s, store := t } : Replay σ).accept d)
        (({ c with source := s, store := t' } : Replay σ).accept d) :=
      { h.twins with
        source_eq := rfl
        log_eq := by
          show t.log = t'.log
          rw [hlog, hlog', h.twins.caching_eq, h.twins.log_eq]
        position_eq := congrArg (· + d.length) h.twins.position_eq
        sourcePosition_eq := congrArg (· + d.length) h.twins.sourcePosition_eq }
    have htight : Tight (({ b with source := s, store := t } : Replay σ).accept d).settled := by
      have hbase := h.tight.base_le_pulled
      have hlen := h.tight.length_eq
      have hcaught := h.caught
      refine (h.tight.toOrdered.accept s t d).settled h.tight.chunk_pos ?_
      rintro (hcaching | hless)
      · have hcaching : b.caching = true := hcaching
        show t.log.length = b.sourcePosition + d.length - b.base
        rw [hlog, if_pos hcaching, List.length_append]
        omega
      · have hless : b.position + d.length < b.sourcePosition + d.length := hless
        omega
    obtain ⟨hpos, hpulled⟩ :=
      settled_frame (({ b with source := s, store := t } : Replay σ).accept d)
    refine ⟨hanswer.trans hanswer'.symm, ⟨?_, htight.of_twins htwins.symm, ?_⟩, ?_⟩
    · exact htwins.trans (hsame.settled.trans htwins'.symm)
    · rw [htwins.position_eq, htwins.sourcePosition_eq, hpos, hpulled]
      exact congrArg (· + d.length) h.caught
    · rw [htwins.position_eq, hpos, hanswer]
      rfl

theorem Abreast.full (h : Abreast b c) (hb : b.readsServed (ByteSource.fullSizes b n) = true)
    (hc : c.readsServed (ByteSource.fullSizes c n) = true) :
    (ByteSource.readFull b n).1 = (ByteSource.readFull c n).1 ∧
      Abreast (ByteSource.readFull b n).2 (ByteSource.readFull c n).2 := by
  induction n using Nat.strongRecOn generalizing b c with
  | ind n ih =>
    rcases Nat.eq_zero_or_pos n with rfl | hn
    · exact ⟨rfl, h⟩
    · obtain ⟨hone, hmore⟩ := readsServed_full hn hb
      obtain ⟨hone', hmore'⟩ := readsServed_full hn hc
      obtain ⟨hanswer, hnext, -⟩ := h.read hn hone hone'
      rw [ByteSource.readFull_pos b hn, ByteSource.readFull_pos c hn]
      change (ByteSource.read b n).1 = (ByteSource.read c n).1 at hanswer
      change Abreast (ByteSource.read b n).2 (ByteSource.read c n).2 at hnext
      rcases hr : ByteSource.read b n with ⟨r, b'⟩
      rcases hr' : ByteSource.read c n with ⟨r', c'⟩
      rw [hr, hr'] at hanswer hnext
      obtain rfl : r = r' := hanswer
      rcases r with e | _ | ⟨x, d⟩
      · exact ⟨rfl, hnext⟩
      · exact ⟨rfl, hnext⟩
      · obtain ⟨hrest, hend⟩ := ih (n - (d.length + 1)) (by omega) hnext
          (hmore x d b' hr) (hmore' x d c' hr')
        exact ⟨congrArg (Except.map _) hrest, hend⟩

theorem Abreast.skip (h : Abreast b c) {target fuel fuel' : Nat}
    (hfuel : target - b.position ≤ fuel) (hfuel' : target - c.position ≤ fuel')
    (hb : b.readsServed (skipSizes target fuel b) = true)
    (hc : c.readsServed (skipSizes target fuel' c) = true) :
    (b.skipTo target fuel).1 = (c.skipTo target fuel').1 ∧
      Twins (b.skipTo target fuel).2 (c.skipTo target fuel').2 ∧
      Tight (b.skipTo target fuel).2 := by
  induction fuel generalizing b c fuel' with
  | zero =>
    have hreached : target ≤ b.position := by omega
    have hreached' : target ≤ c.position := h.twins.position_eq ▸ hreached
    rw [skipTo_of_le hreached, skipTo_of_le hreached']
    exact ⟨congrArg Except.ok h.twins.position_eq, h.twins, h.tight⟩
  | succ fuel ih =>
    by_cases hreached : target ≤ b.position
    · have hreached' : target ≤ c.position := h.twins.position_eq ▸ hreached
      rw [skipTo_of_le hreached, skipTo_of_le hreached']
      exact ⟨congrArg Except.ok h.twins.position_eq, h.twins, h.tight⟩
    · have hreached' : ¬ target ≤ c.position := h.twins.position_eq ▸ hreached
      obtain ⟨fuel', rfl⟩ : ∃ k, fuel' = k + 1 := Nat.exists_eq_add_one.2 (by omega)
      obtain ⟨hone, hmore⟩ := readsServed_skip hreached hb
      obtain ⟨hone', hmore'⟩ := readsServed_skip hreached' hc
      rw [← h.twins.chunk_eq, ← h.twins.position_eq] at hone' hmore'
      rw [skipTo, skipTo, if_neg hreached, if_neg hreached', ← h.twins.chunk_eq,
        ← h.twins.position_eq]
      have hchunk := h.tight.chunk_pos
      have hn : 0 < min b.readChunk (target - b.position) := by omega
      generalize min b.readChunk (target - b.position) = n at *
      obtain ⟨hanswer, hnext, hmoved⟩ := h.read hn hone hone'
      rcases hr : b.read n with ⟨r, b'⟩
      rcases hr' : c.read n with ⟨r', c'⟩
      rw [hr, hr'] at hanswer hnext
      rw [hr] at hmoved
      obtain rfl : r = r' := hanswer
      rcases r with e | _ | ⟨x, d⟩
      · exact ⟨rfl, hnext.twins, hnext.tight⟩
      · exact ⟨congrArg Except.ok hnext.twins.position_eq, hnext.twins, hnext.tight⟩
      · have hmoved : b'.position = b.position + (d.length + 1) := hmoved
        have hpos' : c'.position = b'.position := hnext.twins.position_eq.symm
        have hpos : c.position = b.position := h.twins.position_eq.symm
        have hleft : target - b'.position ≤ fuel := by omega
        have hleft' : target - c'.position ≤ fuel' := by omega
        exact ih hnext hleft hleft' (hmore x d b' hr) (hmore' x d c' hr')

/-- Twins answer a read of a full buffer alike, however many reads it takes them. -/
theorem Twins.full (t : Twins b c) (h : Tight b)
    (hb : b.readsServed (ByteSource.fullSizes b n) = true)
    (hc : c.readsServed (ByteSource.fullSizes c n) = true) :
    (ByteSource.readFull b n).1 = (ByteSource.readFull c n).1 ∧
      Twins (ByteSource.readFull b n).2 (ByteSource.readFull c n).2 ∧
      Tight (ByteSource.readFull b n).2 := by
  obtain ⟨b', hb', hfull, hserved⟩ := h.replay_full hb
  obtain ⟨c', hc', hfull', hserved'⟩ := (h.of_twins t).replay_full hc
  rw [← t.position_eq, ← t.sourcePosition_eq] at hc' hfull' hserved'
  rw [← t.behind_eq] at hfull'
  obtain ⟨hpos, hpulled⟩ := b.forth_frame (min n (b.sourcePosition - b.position))
  have hin := h.position_le
  have htight : Tight b' := (h.forth (by omega)).of_twins hb'.symm
  have hmeet : Twins b' c' := hb'.trans ((t.forth _).trans hc'.symm)
  rw [hfull, hfull']
  by_cases hdone : n - min n (b.sourcePosition - b.position) = 0
  · rw [hdone]
    exact ⟨rfl, hmeet, htight⟩
  · have hcaught : b'.position = b'.sourcePosition := by
      rw [hb'.position_eq, hb'.sourcePosition_eq, hpos, hpulled]
      omega
    obtain ⟨hanswer, hend⟩ := Abreast.full ⟨hmeet, htight, hcaught⟩ hserved hserved'
    exact ⟨congrArg (Except.map _) hanswer, hend.twins, hend.tight⟩

theorem Twins.skip (t : Twins b c) (h : Tight b) {target fuel fuel' : Nat}
    (hfuel : target - b.position ≤ fuel) (hfuel' : target - c.position ≤ fuel')
    (hb : b.readsServed (skipSizes target fuel b) = true)
    (hc : c.readsServed (skipSizes target fuel' c) = true) :
    (b.skipTo target fuel).1 = (c.skipTo target fuel').1 ∧
      Twins (b.skipTo target fuel).2 (c.skipTo target fuel').2 ∧
      Tight (b.skipTo target fuel).2 := by
  obtain ⟨b', left, hb', hleft, hskip, hserved⟩ := h.replay_skip hfuel hb
  obtain ⟨c', left', hc', hleft', hskip', hserved'⟩ := (h.of_twins t).replay_skip hfuel' hc
  rw [← t.position_eq, ← t.sourcePosition_eq] at hc'
  obtain ⟨hpos, hpulled⟩ := b.forth_frame (min (target - b.position) (b.sourcePosition - b.position))
  have hin := h.position_le
  have htight : Tight b' := (h.forth (by omega)).of_twins hb'.symm
  have hmeet : Twins b' c' := hb'.trans ((t.forth _).trans hc'.symm)
  have hpos' : b'.position =
      b.position + min (target - b.position) (b.sourcePosition - b.position) :=
    hb'.position_eq.trans hpos
  have hpulled' : b'.sourcePosition = b.sourcePosition := hb'.sourcePosition_eq.trans hpulled
  rw [hskip, hskip']
  by_cases hdone : target ≤ b'.position
  · have hdone' : target ≤ c'.position := hmeet.position_eq ▸ hdone
    rw [skipTo_of_le hdone, skipTo_of_le hdone']
    exact ⟨congrArg Except.ok hmeet.position_eq, hmeet, htight⟩
  · have hcaught : b'.position = b'.sourcePosition := by omega
    exact Abreast.skip ⟨hmeet, htight, hcaught⟩ hleft hleft' hserved hserved'

end Replay

end StreamLayers
