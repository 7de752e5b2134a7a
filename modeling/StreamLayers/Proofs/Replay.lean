import StreamLayers.Proofs.Source
import StreamLayers.Proofs.Store
import StreamLayers.Replay

/-!
A replay buffer in step with its source: the positions are in order, and the store holds exactly the
bytes between its base and what was pulled. Every operation keeps the buffer in step as long as the
store can make and delete the files that it needs.
-/

namespace StreamLayers

theorem eq_ok_of_isOk {ε : Type} {r : Except ε Unit} (h : r.isOk = true) : r = .ok () := by
  cases r with
  | error e => cases h
  | ok u => rfl

namespace Replay

variable {σ : Type}

theorem enforceLimit_frame (b : Replay σ) : ∃ m, b.enforceLimit = { b with mark := m } ∧
    (m = b.mark ∨ ∃ p limit, b.mark = .active p (.bytes limit) ∧
      m = .exceeded limit (b.position - p)) := by
  unfold enforceLimit
  split
  · rename_i p limit hm
    split
    · exact ⟨_, rfl, .inr ⟨p, limit, hm, rfl⟩⟩
    · exact ⟨b.mark, rfl, .inl rfl⟩
  · exact ⟨b.mark, rfl, .inl rfl⟩

theorem enforceLimit_of_unlimited {b : Replay σ}
    (h : ¬ ∃ p limit, b.mark = .active p (.bytes limit)) : b.enforceLimit = b := by
  unfold enforceLimit
  split
  · exact absurd ⟨_, _, ‹_›⟩ h
  · rfl

/-- A mark that was given up was active before, so the store still holds what it must. -/
theorem caching_of_enforceLimit {b : Replay σ} (h : b.enforceLimit.caching = true) :
    b.caching = true := by
  obtain ⟨m, hm, hgive⟩ := b.enforceLimit_frame
  rw [hm] at h
  rcases hgive with rfl | ⟨p, limit, ha, rfl⟩
  · exact h
  · simp [caching, ha, MarkState.isActive]

theorem discardUnreachable_frame (b : Replay σ) :
    ∃ store base, b.discardUnreachable.2 = { b with store, base } := by
  unfold discardUnreachable
  split
  · exact ⟨b.store, b.base, rfl⟩
  · split
    · rcases b.store.release with ⟨_ | _, s⟩
      · exact ⟨s, b.base, rfl⟩
      · exact ⟨s, b.sourcePosition, rfl⟩
    · exact ⟨b.store, b.base, rfl⟩

/-- What may still be asked for is not dropped. -/
theorem discardUnreachable_needed {b : Replay σ}
    (h : b.caching = true ∨ b.position < b.sourcePosition) : b.discardUnreachable = (.ok (), b) := by
  have hkeep : (b.caching || decide (b.position < b.sourcePosition)) = true := by simpa using h
  rw [discardUnreachable, if_pos hkeep]

/-- An open buffer whose positions are in order, and whose mark can be gone back to. -/
structure Ordered (b : Replay σ) : Prop where
  isOpen : b.closed = false
  base_le : b.base ≤ b.position
  position_le : b.position ≤ b.sourcePosition
  mark_mem : ∀ p limit, b.mark = .active p limit → b.base ≤ p ∧ p ≤ b.sourcePosition

namespace Ordered

variable {b : Replay σ}

theorem base_le_pulled (h : Ordered b) : b.base ≤ b.sourcePosition :=
  Nat.le_trans h.base_le h.position_le

theorem enforceLimit (h : Ordered b) : Ordered b.enforceLimit := by
  obtain ⟨m, hb, hm⟩ := b.enforceLimit_frame
  rw [hb]
  refine { h with mark_mem := ?_ }
  intro p limit ha
  rcases hm with rfl | ⟨q, l, -, rfl⟩
  · exact h.mark_mem p limit ha
  · cases ha

theorem withMark (h : Ordered b) {m : MarkState}
    (hm : ∀ p limit, m = .active p limit → p = b.position) :
    Ordered ({ b with mark := m } : Replay σ) := by
  refine { h with mark_mem := ?_ }
  intro p limit ha
  obtain rfl := hm p limit ha
  exact ⟨h.base_le, h.position_le⟩

theorem moveTo (h : Ordered b) {p : Nat} (hb : b.base ≤ p) (hp : p ≤ b.sourcePosition) (s : Store) :
    Ordered ({ b with store := s, position := p } : Replay σ) :=
  { h with base_le := hb, position_le := hp }

/-- Bytes that come from the source move both positions. -/
theorem accept (h : Ordered b) (source : Once σ) (store : Store) (got : Bytes) :
    Ordered (({ b with source, store } : Replay σ).accept got) where
  isOpen := h.isOpen
  base_le := Nat.le_trans h.base_le (Nat.le_add_right _ _)
  position_le := Nat.add_le_add_right h.position_le _
  mark_mem p limit hm := by
    obtain ⟨hfrom, hto⟩ := h.mark_mem p limit hm
    exact ⟨hfrom, Nat.le_trans hto (Nat.le_add_right _ _)⟩

end Ordered

section Stored

variable {b : Replay σ} (hlen : b.store.log.length = b.sourcePosition - b.base)

include hlen

/-- A store that holds every byte from the base on can be positioned anywhere in between. -/
theorem seek_stored {p : Nat} (hp : p ≤ b.sourcePosition) :
    ∃ s, b.store.seek (p - b.base) = (.ok (), s) ∧ s.log = b.store.log ∧
      s.readPosition = p - b.base := by
  rw [Store.length_log] at hlen
  exact Store.seek_of_le (by omega)

/-- A read from such a store gets a front part of what is there, of whatever length. -/
theorem readStore_stored (hbase : b.base ≤ b.position) (hp : b.position < b.sourcePosition)
    {n : Nat} (hn : 0 < n) :
    ∃ m store, 0 < m ∧ m ≤ min n (b.sourcePosition - b.position) ∧ store.log = b.store.log ∧
      b.readStore n = (.ok ((b.store.log.drop (b.position - b.base)).take m),
        { b with store, position := b.position + m }) := by
  obtain ⟨s, hseek, hlog, hcur⟩ := seek_stored hlen (Nat.le_of_lt hp)
  rw [← hlog, Store.length_log] at hlen
  obtain ⟨hfront, hle, hnil, hlog', -⟩ := s.get_spec (min n (b.sourcePosition - b.position))
  rw [hcur] at hfront
  have hread : b.readStore n =
      (.ok (s.get (min n (b.sourcePosition - b.position))).1,
        { b with
          store := (s.get (min n (b.sourcePosition - b.position))).2
          position := b.position +
            (s.get (min n (b.sourcePosition - b.position))).1.length }) := by
    simp only [Replay.readStore, hseek]
  rw [hread]
  generalize s.get (min n (b.sourcePosition - b.position)) = g at *
  obtain ⟨got, t⟩ := g
  dsimp only at hfront hle hnil hlog' ⊢
  have hpos : 0 < got.length := by
    apply List.length_pos_iff.2
    intro hempty
    rcases hnil.1 hempty with hz | hend <;> omega
  have hgot : got = (b.store.log.drop (b.position - b.base)).take got.length := by
    rw [← hlog]
    exact List.prefix_iff_eq_take.1 hfront
  exact ⟨got.length, t, hpos, hle, hlog'.trans hlog, by rw [← hgot]⟩

end Stored

variable [ByteSource σ]

/-- The part of a read before anything is dropped: from the store or from the source. -/
def fetch (b : Replay σ) (n : Nat) : Except Fault Bytes × Replay σ :=
  if b.position < b.sourcePosition then b.readStore n else b.readSource n

/-- Whether the store did what a read asked of it: it kept the bytes that it was given, and could be
emptied where nothing can replay it any more. -/
def readServed (b : Replay σ) (n : Nat) : Bool :=
  b.closed || n == 0 ||
    match b.fetch n with
    | (.ok _, c) => c.enforceLimit.discardUnreachable.1.isOk
    | (.error _, _) =>
      decide (b.position < b.sourcePosition) || !(ByteSource.read b.source n).1.isOk

/-- The positions of a buffer over `data` are in order, and those of its source. -/
structure Aligned [SerialSource σ] (data : Bytes) (b : Replay σ) : Prop extends Ordered b where
  rest_eq : SerialSource.rest b.source = data.drop b.sourcePosition
  pulled_le : b.sourcePosition ≤ data.length

/-- The bytes that the store of a buffer over `data` has to hold. -/
def Holds (data : Bytes) (b : Replay σ) : Prop :=
  b.store.log = (data.take b.sourcePosition).drop b.base

/-- A buffer over `data` from which every byte from the base on can be read. -/
structure InStep [SerialSource σ] (data : Bytes) (b : Replay σ) : Prop extends Aligned data b where
  held : Holds data b

theorem read_zero {b : Replay σ} (h : b.closed = false) : b.read 0 = (.ok [], b) := by
  simp [read, h]

theorem read_eq_fetch {b : Replay σ} (h : b.closed = false) {n : Nat} (hn : 0 < n) :
    b.read n =
      match b.fetch n with
      | (.error e, c) => (.error e, c)
      | (.ok data, c) => (.ok data, c.afterRead) := by
  have hz : ¬ n = 0 := Nat.pos_iff_ne_zero.1 hn
  simp only [read, h, hz, if_false, Bool.false_eq_true]
  rfl

variable [SerialSource σ] {data : Bytes} {b c : Replay σ} {n : Nat}

theorem InStep.writePosition_eq (h : InStep data b) :
    b.store.writePosition = b.sourcePosition - b.base := by
  rw [← Store.length_log, h.held, List.length_drop, List.length_take,
    Nat.min_eq_left h.pulled_le]

theorem InStep.length_log (h : InStep data b) :
    b.store.log.length = b.sourcePosition - b.base := by
  rw [Store.length_log, h.writePosition_eq]

theorem Aligned.enforceLimit (h : Aligned data b) : Aligned data b.enforceLimit := by
  have hordered := h.toOrdered.enforceLimit
  obtain ⟨m, hb, -⟩ := b.enforceLimit_frame
  rw [hb] at hordered ⊢
  exact ⟨hordered, h.rest_eq, h.pulled_le⟩

/-- Dropping what nothing can replay puts a buffer in step whose store may be stale there. -/
theorem Aligned.discardUnreachable (h : Aligned data b)
    (hheld : b.caching = true ∨ b.position < b.sourcePosition → Holds data b)
    (hok : b.discardUnreachable.1 = .ok ()) : InStep data b.discardUnreachable.2 := by
  unfold Replay.discardUnreachable at hok ⊢
  by_cases hkeep : (b.caching || decide (b.position < b.sourcePosition)) = true
  · simp only [hkeep, if_true]
    have hk : b.caching = true ∨ b.position < b.sourcePosition := by simpa using hkeep
    exact ⟨h, hheld hk⟩
  · have hidle : b.caching = false ∧ b.sourcePosition ≤ b.position := by simpa using hkeep
    have hp : b.position = b.sourcePosition := Nat.le_antisymm h.position_le hidle.2
    simp only [hkeep, if_false, Bool.false_eq_true] at hok ⊢
    by_cases hstale : 0 < b.store.writePosition ∨ b.base ≠ b.sourcePosition
    · simp only [hstale, if_true] at hok ⊢
      obtain ⟨hlog, -, -⟩ := Store.release_spec b.store
      rcases hr : b.store.release with ⟨e | u, s⟩ <;> simp only [hr] at hok hlog ⊢
      · cases hok
      · have hmark : ∀ p limit, b.mark ≠ .active p limit := by
          intro p limit hm
          simp [caching, hm, MarkState.isActive] at hidle
        refine ⟨⟨⟨h.isOpen, ?_, h.position_le, ?_⟩, h.rest_eq, h.pulled_le⟩, ?_⟩
        · exact Nat.le_of_eq hp.symm
        · exact fun p limit hm => absurd hm (hmark p limit)
        · simp [Holds, hlog]
    · simp only [hstale, if_false]
      obtain ⟨hw, hbase⟩ : b.store.writePosition = 0 ∧ b.base = b.sourcePosition := by
        simpa using hstale
      refine ⟨h, ?_⟩
      have hnil : b.store.log = [] :=
        List.eq_nil_of_length_eq_zero (by rw [Store.length_log, hw])
      simp [Holds, hnil, hbase]

/-- What a read of at most `n` bytes that turned `b` into `c` got from `data`. -/
structure Got (data : Bytes) (b c : Replay σ) (n : Nat) (got : Bytes) : Prop where
  length_le : got.length ≤ n
  from_position : got <+: data.drop b.position
  position_eq : c.position = b.position + got.length
  /-- Only the source can have nothing to give. -/
  empty : 0 < n → got = [] →
    b.position = b.sourcePosition ∧ (ByteSource.read b.source n).1 = .ok []

theorem InStep.readStore (h : InStep data b) (hp : b.position < b.sourcePosition) (hn : 0 < n) :
    ∃ got, (b.readStore n).1 = .ok got ∧ InStep data (b.readStore n).2 ∧
      Got data b (b.readStore n).2 n got ∧ (b.readStore n).2.mark = b.mark := by
  have hlen := h.length_log
  have hbase := h.base_le
  obtain ⟨m, store, hm, hle, hlog, hread⟩ := readStore_stored hlen hbase hp hn
  have hstored : b.store.log.drop (b.position - b.base) =
      (data.take b.sourcePosition).drop b.position := by
    rw [h.held, List.drop_drop, Nat.add_sub_cancel' hbase]
  have hgot : ((b.store.log.drop (b.position - b.base)).take m).length = m := by
    rw [List.length_take, List.length_drop]
    omega
  have hfront : (b.store.log.drop (b.position - b.base)).take m <+: data.drop b.position := by
    rw [hstored, List.drop_take]
    exact (List.take_prefix _ _).trans (List.take_prefix _ _)
  rw [hread]
  generalize (b.store.log.drop (b.position - b.base)).take m = got at hgot hfront
  have hto : b.position + m ≤ b.sourcePosition := by omega
  refine ⟨got, rfl, ⟨⟨?_, h.rest_eq, h.pulled_le⟩, hlog.trans h.held⟩, ?_, rfl⟩
  · exact h.toOrdered.moveTo (Nat.le_trans hbase (Nat.le_add_right _ _)) hto store
  · refine ⟨by omega, hfront, congrArg (b.position + ·) hgot.symm, fun _ hempty => ?_⟩
    rw [hempty] at hgot
    exact absurd hgot (Nat.ne_of_lt hm)

theorem Aligned.pull (h : Aligned data b) {got : Bytes} {s : Once σ}
    (hr : ByteSource.read b.source n = (.ok got, s)) :
    got.length ≤ n ∧ data.take (b.sourcePosition + got.length) = data.take b.sourcePosition ++ got ∧
      got <+: data.drop b.sourcePosition ∧ b.sourcePosition + got.length ≤ data.length ∧
      SerialSource.rest s = data.drop (b.sourcePosition + got.length) := by
  have hh := SerialSource.handed b.source n
  rw [hr] at hh
  obtain ⟨hn, hrest⟩ := hh
  rw [h.rest_eq] at hrest
  have hlen := congrArg List.length hrest
  simp only [List.length_drop, List.length_append] at hlen
  refine ⟨hn, ?_, ⟨_, hrest.symm⟩, ?_, ?_⟩
  · rw [List.take_add, hrest, List.take_left]
  · have := h.pulled_le
    omega
  · rw [← List.drop_drop, hrest, List.drop_left]

/-- A read from the source. The store may be stale afterwards, but only where nothing can replay
it; if the read fails, either the source failed or the store. -/
theorem InStep.readSource (h : InStep data b) (hp : b.position = b.sourcePosition) :
    match b.readSource n with
    | (.ok got, c) => Aligned data c ∧
        (c.caching = true ∨ c.position < c.sourcePosition → Holds data c) ∧ Got data b c n got ∧
        c.mark = b.mark
    | (.error _, c) => (ByteSource.read b.source n).1.isOk = false →
        InStep data c ∧ c.position = b.position ∧ c.mark = b.mark := by
  unfold Replay.readSource
  have hh := SerialSource.handed b.source n
  rcases hr : ByteSource.read b.source n with ⟨e | got, s⟩ <;> rw [hr] at hh
  · intro _
    exact ⟨⟨{ h.toAligned with rest_eq := hh.trans h.rest_eq }, h.held⟩, rfl, rfl⟩
  · obtain ⟨hn, htake, hfront, hle, hrest⟩ := h.toAligned.pull hr
    have hgot (c : Replay σ) (hc : c.position = b.position + got.length) : Got data b c n got :=
      ⟨hn, hp ▸ hfront, hc, fun _ he => ⟨hp, by rw [hr, he]⟩⟩
    have haligned (store : Store) :
        Aligned data ({ b with source := s, store }.accept got) :=
      ⟨h.toOrdered.accept s store got, hrest, hle⟩
    -- Bytes that are not kept leave the store behind, but then nothing can replay them.
    by_cases hk : (({ b with source := s } : Replay σ).caching && !got.isEmpty) = true
    · simp only [keep, hk, if_true]
      rcases hput : b.store.put got with ⟨e | u, t⟩
      · intro hf
        cases hf
      · refine ⟨haligned t, fun _ => ?_, hgot _ rfl, rfl⟩
        obtain ⟨hlog, -⟩ := Store.put_spec hput
        have hbase : b.base ≤ (data.take b.sourcePosition).length := by
          rw [List.length_take, Nat.min_eq_left h.pulled_le]
          exact h.base_le_pulled
        show t.log = (data.take (b.sourcePosition + got.length)).drop b.base
        rw [hlog, h.held, htake, List.drop_append_of_le_length hbase]
    · simp only [keep, hk, if_false, Bool.false_eq_true]
      refine ⟨haligned b.store, fun hc => ?_, hgot _ rfl, rfl⟩
      have hempty : got = [] := by
        rcases hc with hc | hc
        · have hc' : ({ b with source := s } : Replay σ).caching = true := hc
          simpa [hc'] using hk
        · have hc' : b.position + got.length < b.sourcePosition + got.length := hc
          omega
      subst hempty
      exact h.held

theorem InStep.fetch (h : InStep data b) (hn : 0 < n) :
    match b.fetch n with
    | (.ok got, c) => Aligned data c ∧
        (c.caching = true ∨ c.position < c.sourcePosition → Holds data c) ∧ Got data b c n got ∧
        c.mark = b.mark
    | (.error _, c) => ¬ b.position < b.sourcePosition ∧
        ((ByteSource.read b.source n).1.isOk = false →
          InStep data c ∧ c.position = b.position ∧ c.mark = b.mark) := by
  unfold Replay.fetch
  by_cases hp : b.position < b.sourcePosition
  · obtain ⟨got, hok, hin, hgot, hm⟩ := h.readStore hp hn
    rcases hr : b.readStore n with ⟨r, c⟩
    rw [hr] at hok hin hgot hm
    obtain rfl : r = .ok got := hok
    simp only [hp, if_true]
    exact ⟨hin.toAligned, fun _ => hin.held, hgot, hm⟩
  · have hs := h.readSource (n := n) (Nat.le_antisymm h.position_le (Nat.le_of_not_lt hp))
    simp only [hp, if_false]
    rcases hr : b.readSource n with ⟨e | got, c⟩ <;> rw [hr] at hs
    · exact ⟨not_false, hs⟩
    · exact hs

omit [SerialSource σ] in
/-- What a read gets is what it fetched. -/
theorem Got.of_read (hopen : b.closed = false) {got : Bytes}
    (hfetch : 0 < n → ∀ a, b.fetch n = (.ok got, a) → Got data b a n got)
    (hr : b.read n = (.ok got, c)) : Got data b c n got := by
  rcases Nat.eq_zero_or_pos n with rfl | hn
  · rw [read_zero hopen] at hr
    obtain ⟨hg, rfl⟩ := Prod.mk.inj hr
    obtain rfl : [] = got := Except.ok.inj hg
    exact ⟨Nat.le_refl 0, List.nil_prefix, rfl, fun h0 => absurd h0 (Nat.lt_irrefl 0)⟩
  · rw [read_eq_fetch hopen hn] at hr
    rcases hd : b.fetch n with ⟨e | d, a⟩ <;> rw [hd] at hr
    · cases hr
    · obtain ⟨hg, rfl⟩ := Prod.mk.inj hr
      obtain rfl : d = got := Except.ok.inj hg
      have hgot := hfetch hn a hd
      refine ⟨hgot.length_le, hgot.from_position, ?_, hgot.empty⟩
      obtain ⟨m, hm, -⟩ := a.enforceLimit_frame
      obtain ⟨store, base, hfr⟩ := a.enforceLimit.discardUnreachable_frame
      rw [afterRead, hfr, hm]
      exact hgot.position_eq

/-- Every read that succeeds gets the data from its position on, whatever became of the store. -/
theorem InStep.read_got (h : InStep data b) {got : Bytes} (hr : b.read n = (.ok got, c)) :
    Got data b c n got := by
  refine .of_read h.isOpen (fun hn a hd => ?_) hr
  have hf := h.fetch hn
  rw [hd] at hf
  exact hf.2.2.1

/-- A read keeps a buffer in step, unless the store fails. It may give up the mark. -/
theorem InStep.read (h : InStep data b) (hs : b.readServed n = true) :
    InStep data (b.read n).2 ∧
      ((b.read n).2.mark = b.mark ∨ ∃ p limit consumed, b.mark = .active p (.bytes limit) ∧
        (b.read n).2.mark = .exceeded limit consumed) ∧
      ((b.read n).1.isOk = false → (b.read n).2.position = b.position) := by
  rcases Nat.eq_zero_or_pos n with rfl | hn
  · rw [read_zero h.isOpen]
    exact ⟨h, .inl rfl, fun _ => rfl⟩
  · have hz : (n == 0) = false := beq_eq_false_iff_ne.2 (Nat.pos_iff_ne_zero.1 hn)
    have hf := h.fetch hn
    rw [read_eq_fetch h.isOpen hn]
    simp only [readServed, h.isOpen, hz, Bool.false_or] at hs
    rcases hd : b.fetch n with ⟨e | d, a⟩ <;> rw [hd] at hf hs
    · have hfail : (ByteSource.read b.source n).1.isOk = false := by simpa [hf.1] using hs
      obtain ⟨hin, hpos, hm⟩ := hf.2 hfail
      exact ⟨hin, .inl hm, fun _ => hpos⟩
    · obtain ⟨ha, hheld, -, hmark⟩ := hf
      obtain ⟨m, hm, hgive⟩ := a.enforceLimit_frame
      obtain ⟨store, base, hfr⟩ := a.enforceLimit.discardUnreachable_frame
      refine ⟨?_, ?_, fun hf => by cases hf⟩
      · refine ha.enforceLimit.discardUnreachable ?_ ?_
        · have hcaching := caching_of_enforceLimit (b := a)
          rw [hm] at hcaching ⊢
          exact fun hc => hheld (hc.imp_left hcaching)
        · exact eq_ok_of_isOk hs
      · have hafter : a.afterRead.mark = m := by rw [afterRead, hfr, hm]
        rcases hgive with rfl | ⟨p, l, ha, rfl⟩
        · exact .inl (hafter.trans hmark)
        · exact .inr ⟨p, l, _, hmark ▸ ha, hafter⟩

theorem InStep.moveTo (h : InStep data b) {p : Nat} {s : Store} (hb : b.base ≤ p)
    (hp : p ≤ b.sourcePosition) (hlog : s.log = b.store.log) :
    InStep data { b with store := s, position := p } :=
  ⟨⟨h.toOrdered.moveTo hb hp s, h.rest_eq, h.pulled_le⟩, hlog.trans h.held⟩

theorem InStep.withMark (h : InStep data b) {m : MarkState}
    (hm : ∀ p limit, m = .active p limit → p = b.position) : InStep data { b with mark := m } :=
  ⟨⟨h.toOrdered.withMark hm, h.rest_eq, h.pulled_le⟩, h.held⟩

theorem InStep.discardUnreachable (h : InStep data b)
    (hok : b.discardUnreachable.1.isOk = true) :
    InStep data b.discardUnreachable.2 ∧ b.discardUnreachable.2.mark = b.mark ∧
      b.discardUnreachable.2.position = b.position := by
  obtain ⟨store, base, hfr⟩ := b.discardUnreachable_frame
  refine ⟨?_, by rw [hfr], by rw [hfr]⟩
  exact h.toAligned.discardUnreachable (fun _ => h.held) (eq_ok_of_isOk hok)

end Replay

end StreamLayers
