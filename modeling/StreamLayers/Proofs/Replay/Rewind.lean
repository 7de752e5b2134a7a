import StreamLayers.Proofs.Replay.Cursor

/-!
Moves back in a replay buffer whose spill file could not be deleted. The store is then empty, but the
base stays where it was. Reads are not harmed by that, for nothing behind the source was needed any
more; a move back that trusts the base strands the buffer.
-/

namespace StreamLayers

/-- A seek moves the cursor alone. -/
theorem Store.log_seek (s : Store) (target : Nat) : (s.seek target).2.log = s.log := by
  by_cases h : target ≤ s.writePosition
  · obtain ⟨t, ht, hlog, -⟩ := seek_of_le h
    rw [ht]
    exact hlog
  · rw [seek_of_lt (Nat.lt_of_not_le h)]

namespace Replay

section Store

variable {σ : Type} {b : Replay σ}

/-- Bytes that nothing can replay may fail to be dropped: the store is released and the base stays. -/
theorem discardUnreachable_error {c : Replay σ} {e : Fault}
    (h : b.discardUnreachable = (.error e, c)) :
    b.caching = false ∧ b.sourcePosition ≤ b.position ∧
      ∃ s, b.store.release = (.error e, s) ∧ c = { b with store := s } := by
  unfold discardUnreachable at h
  split at h
  · cases (Prod.mk.inj h).1
  · rename_i hkeep
    have hidle : b.caching = false ∧ b.sourcePosition ≤ b.position := by simpa using hkeep
    split at h
    · rcases hr : b.store.release with ⟨e' | u, s⟩ <;> rw [hr] at h
      · obtain ⟨he, rfl⟩ := Prod.mk.inj h
        obtain rfl := Except.error.inj he
        exact ⟨hidle.1, hidle.2, s, rfl, rfl⟩
      · cases (Prod.mk.inj h).1
    · cases (Prod.mk.inj h).1

/-- An empty store has nothing for a read. -/
theorem readStore_of_empty (h : b.store.log = []) (n : Nat) :
    handedOver (b.readStore n).1 = [] ∧
      ∃ s : Store, s.log = [] ∧ (b.readStore n).2 = { b with store := s } := by
  have hlog := (Store.log_seek b.store (b.position - b.base)).trans h
  unfold readStore
  rcases hseek : b.store.seek (b.position - b.base) with ⟨e | u, s⟩ <;> rw [hseek] at hlog
  · exact ⟨rfl, s, hlog, rfl⟩
  · have hlog : s.log = [] := hlog
    obtain ⟨hfront, -, -, hkept, -⟩ := s.get_spec (min n (b.sourcePosition - b.position))
    rw [hlog, List.drop_nil, List.prefix_nil] at hfront
    refine ⟨hfront, _, hkept.trans hlog, ?_⟩
    simp only [hfront, List.length_nil, Nat.add_zero]

/-- A buffer whose store was emptied while the base stayed behind. An active mark and the position
are then both behind the source, where nothing is left to get. -/
structure Emptied (b : Replay σ) : Prop where
  nothing : b.store.log = []
  base_lt : b.base < b.sourcePosition
  forgets : b.retainHistory = false
  behind : ∀ p limit, b.mark = .active p limit →
    p < b.sourcePosition ∧ b.position < b.sourcePosition

theorem Emptied.withStore (h : Emptied b) {s : Store} (hs : s.log = []) :
    Emptied ({ b with store := s } : Replay σ) :=
  { h with nothing := hs }

theorem Emptied.withMark (h : Emptied b) {m : MarkState}
    (hm : ∀ p limit, m = .active p limit → p < b.sourcePosition ∧ b.position < b.sourcePosition) :
    Emptied ({ b with mark := m } : Replay σ) :=
  { h with behind := hm }

theorem Emptied.enforceLimit (h : Emptied b) : Emptied b.enforceLimit := by
  obtain ⟨m, hb, hm⟩ := b.enforceLimit_frame
  rw [hb]
  refine h.withMark fun p limit ha => ?_
  rcases hm with rfl | ⟨q, l, -, rfl⟩
  · exact h.behind p limit ha
  · cases ha

/-- Behind the source, the store may be left with any cursor and the position with any place. -/
theorem Emptied.moveTo (h : Emptied b) {p : Nat} (hp : p < b.sourcePosition) {s : Store}
    (hs : s.log = []) : Emptied ({ b with store := s, position := p } : Replay σ) :=
  { h with
    nothing := hs
    behind := fun q limit hm => ⟨(h.behind q limit hm).1, hp⟩ }

/-- Level with its source, an emptied buffer keeps nothing. -/
theorem Emptied.not_caching (h : Emptied b) (hlevel : b.sourcePosition ≤ b.position) :
    b.caching = false := by
  rcases hm : b.mark.isActive with _ | _
  · simp [caching, h.forgets, hm]
  · obtain ⟨p, limit, ha⟩ := MarkState.isActive_iff.1 hm
    exact absurd (h.behind p limit ha).2 (Nat.not_lt.2 hlevel)

end Store

variable {σ : Type} [ByteSource σ]

/-- Whether the store took over what a read pulled from the source. Its files may stay. -/
def readKept (b : Replay σ) (n : Nat) : Bool :=
  (b.read n).1.isOk || b.closed || decide (b.position < b.sourcePosition) ||
    !(ByteSource.read b.source n).1.isOk

def readsKept (b : Replay σ) : List Nat → Bool
  | [] => true
  | n :: rest => b.readKept n && (b.read n).2.readsKept rest

def Op.kept (b : Replay σ) : Op → Bool
  | read n => b.readKept n
  | seek target =>
    target < b.position || b.readsKept (skipSizes target (target - b.position) b)
  | _ => true

/-- Whether no append to the store failed in a run. Deletions and reads of the source may have. -/
def kept (b : Replay σ) : List Op → Bool
  | [] => true
  | op :: ops => op.kept b && (op.apply b).kept ops

variable [SerialSource σ] {data : Bytes} {b c : Replay σ} {n : Nat}

/-- A buffer over `data` whose store holds what reads may still need. -/
structure Sure (data : Bytes) (b : Replay σ) : Prop extends Aligned data b where
  needed : b.caching = true ∨ b.position < b.sourcePosition → Holds data b

/-- A buffer over `data` whose store holds everything from the base on, or nothing. -/
structure AllOrNothing (data : Bytes) (b : Replay σ) : Prop extends Aligned data b where
  held_or : Holds data b ∨ Emptied b

theorem InStep.sure (h : InStep data b) : Sure data b := ⟨h.toAligned, fun _ => h.held⟩

theorem InStep.allOrNothing (h : InStep data b) : AllOrNothing data b := ⟨h.toAligned, .inl h.held⟩

theorem AllOrNothing.sure (h : AllOrNothing data b) (hlevel : b.sourcePosition ≤ b.position) :
    Sure data b := by
  refine ⟨h.toAligned, fun hneeded => ?_⟩
  rcases h.held_or with hheld | hempty
  · exact hheld
  · rw [hempty.not_caching hlevel] at hneeded
    exact absurd hneeded (by simp [hlevel])

section Reads

theorem Sure.enforceLimit (h : Sure data b) : Sure data b.enforceLimit := by
  refine ⟨h.toAligned.enforceLimit, ?_⟩
  have hcaching := caching_of_enforceLimit (b := b)
  obtain ⟨m, hb, -⟩ := b.enforceLimit_frame
  rw [hb] at hcaching ⊢
  exact fun hneeded => h.needed (hneeded.imp_left hcaching)

/-- If dropping what nothing can replay fails, the store is empty and the base stays behind. -/
theorem Sure.discardUnreachable (h : Sure data b) :
    AllOrNothing data b.discardUnreachable.2 ∧ Sure data b.discardUnreachable.2 := by
  rcases hd : b.discardUnreachable with ⟨e | u, c⟩
  · obtain ⟨hidle, hlevel, s, hr, rfl⟩ := discardUnreachable_error hd
    obtain ⟨hlog, -⟩ := Store.release_spec b.store
    rw [hr] at hlog
    have ha : Aligned data ({ b with store := s } : Replay σ) := { h.toAligned with }
    have hall : AllOrNothing data ({ b with store := s } : Replay σ) := by
      refine ⟨ha, ?_⟩
      rcases Nat.lt_or_ge b.base b.sourcePosition with hlt | hge
      · refine .inr ⟨hlog, hlt, (Bool.or_eq_false_iff.1 hidle).1, fun p limit hm => ?_⟩
        have hm : b.mark = .active p limit := hm
        simp [caching, hm, MarkState.isActive] at hidle
      · have hnil : (data.take b.sourcePosition).drop b.base = [] :=
          List.drop_eq_nil_of_le (Nat.le_trans (List.length_take_le _ _) hge)
        exact .inl (hlog.trans hnil.symm)
    exact ⟨hall, hall.sure hlevel⟩
  · have hin := h.toAligned.discardUnreachable h.needed (by rw [hd])
    rw [hd] at hin
    exact ⟨hin.allOrNothing, hin.sure⟩

/-- What is fetched is what comes next, and nothing else is disturbed. -/
theorem Sure.fetch (h : Sure data b) (hn : 0 < n) {got : Bytes} (hf : b.fetch n = (.ok got, c)) :
    Sure data c ∧ Got data b c n got := by
  by_cases hneeded : b.caching = true ∨ b.position < b.sourcePosition
  · have hin : InStep data b := ⟨h.toAligned, h.needed hneeded⟩
    have hfetch := hin.fetch (n := n) hn
    rw [hf] at hfetch
    obtain ⟨ha, hheld, hgot, -⟩ := hfetch
    exact ⟨⟨ha, hheld⟩, hgot⟩
  · obtain ⟨hcaching, hlevel⟩ : b.caching = false ∧ b.sourcePosition ≤ b.position := by
      simpa using hneeded
    have hp : b.position = b.sourcePosition := Nat.le_antisymm h.position_le hlevel
    rw [Replay.fetch, if_neg (Nat.not_lt.2 hlevel), Replay.readSource] at hf
    rcases hr : ByteSource.read b.source n with ⟨e | data', s⟩ <;> simp only [hr] at hf
    · cases (Prod.mk.inj hf).1
    · obtain ⟨hle, -, hfront, hpulled, hrest⟩ := h.toAligned.pull hr
      have hkeep : ¬ (({ b with source := s } : Replay σ).caching && !data'.isEmpty) = true := by
        have hc : ({ b with source := s } : Replay σ).caching = false := hcaching
        simp [hc]
      rw [keep, if_neg hkeep] at hf
      obtain ⟨hg, rfl⟩ := Prod.mk.inj hf
      obtain rfl := Except.ok.inj hg
      refine ⟨⟨⟨h.toOrdered.accept s b.store data', hrest, hpulled⟩, fun hc => ?_⟩, ?_⟩
      · rcases hc with hc | hc
        · have hc : b.caching = true := hc
          rw [hcaching] at hc
          cases hc
        · have hc : b.position + data'.length < b.sourcePosition + data'.length := hc
          omega
      · exact ⟨hle, hp ▸ hfront, rfl, fun _ he => ⟨hp, by rw [hr, he]⟩⟩

/-- A read that succeeds gets the data from the position on. -/
theorem Sure.read_got (h : Sure data b) {got : Bytes} (hr : b.read n = (.ok got, c)) :
    Got data b c n got :=
  .of_read h.isOpen (fun hn _ hf => (h.fetch hn hf).2) hr

theorem Aligned.withSource (h : Aligned data b) {s : Once σ}
    (hs : SerialSource.rest s = SerialSource.rest b.source) :
    Aligned data { b with source := s } :=
  { h with rest_eq := hs.trans h.rest_eq }

/-- What a read leaves whose bytes the store has kept: the buffer over a source that has failed, or
what follows a fetch. -/
theorem Sure.read_cases (h : Sure data b) (hk : b.readKept n = true) :
    (∃ s : Once σ, SerialSource.rest s = SerialSource.rest b.source ∧
        (b.read n).2 = { b with source := s }) ∨
      ∃ a, Sure data a ∧ (b.read n).2 = a.afterRead := by
  rcases hr : b.read n with ⟨e | got, c⟩
  · cases failedRead_of_read hr with
    | closed isClosed =>
      rw [h.isOpen] at isClosed
      cases isClosed
    | seek behind failed =>
      have hin : InStep data b := ⟨h.toAligned, h.needed (.inr behind)⟩
      obtain ⟨s, hs, -⟩ := seek_stored hin.length_log h.position_le
      rw [hs] at failed
      cases (Prod.mk.inj failed).1
    | @source s level failed =>
      have hhanded := SerialSource.handed b.source n
      rw [failed] at hhanded
      exact .inl ⟨s, hhanded, rfl⟩
    | put level pulled nonempty failed =>
      have hbehind : ¬ b.position < b.sourcePosition := Nat.not_lt.2 level
      simp [readKept, hr, h.isOpen, hbehind, pulled, Except.isOk, Except.toBool] at hk
  · rcases read_ok hr with ⟨-, rfl⟩ | ⟨-, a, hf, rfl⟩
    · exact .inl ⟨c.source, rfl, rfl⟩
    · rcases Nat.eq_zero_or_pos n with rfl | hn
      · rw [read_zero h.isOpen] at hr
        exact .inl ⟨b.source, rfl, (Prod.mk.inj hr).2.symm⟩
      · exact .inr ⟨a, (h.fetch hn hf).1, rfl⟩

theorem Sure.read (h : Sure data b) (hk : b.readKept n = true) : Sure data (b.read n).2 := by
  rcases h.read_cases hk with ⟨s, hs, heq⟩ | ⟨a, ha, heq⟩ <;> rw [heq]
  · exact ⟨h.toAligned.withSource hs, h.needed⟩
  · exact ha.enforceLimit.discardUnreachable.2

/-- What the reads of a buffer over `data` owe their caller, as long as the store keeps what they
pull: the data from the position on, something of it wherever the source was read before, and an
empty answer only where the source has one. -/
structure Delivers (data : Bytes) (b : Replay σ) : Prop where
  reads : ∀ sizes, b.readsKept sizes = true → ByteSource.reads b sizes <+: data.drop b.position
  replays : ∀ sizes n, b.readsKept sizes = true → 0 < n →
    (ByteSource.afterReads b sizes).position < (ByteSource.afterReads b sizes).sourcePosition →
      ∃ got, ((ByteSource.afterReads b sizes).read n).1 = .ok got ∧ got ≠ []
  ends : ∀ sizes n, b.readsKept sizes = true → 0 < n →
    ((ByteSource.afterReads b sizes).read n).1 = .ok [] →
      (ByteSource.afterReads b sizes).position = (ByteSource.afterReads b sizes).sourcePosition ∧
        (ByteSource.read (ByteSource.afterReads b sizes).source n).1 = .ok []

theorem Sure.reads_prefix (h : Sure data b) {sizes : List Nat} (hk : b.readsKept sizes = true) :
    ByteSource.reads b sizes <+: data.drop b.position ∧
      Sure data (ByteSource.afterReads b sizes) := by
  induction sizes generalizing b with
  | nil => exact ⟨List.nil_prefix, h⟩
  | cons n rest ih =>
    simp only [readsKept, Bool.and_eq_true] at hk
    obtain ⟨hrest, hsure⟩ := ih (h.read hk.1) hk.2
    refine ⟨?_, hsure⟩
    obtain ⟨hpos, -⟩ := read_moved b n
    show handedOver (b.read n).1 ++ ByteSource.reads (b.read n).2 rest <+: _
    rw [hpos] at hrest
    rcases hr : b.read n with ⟨e | got, c⟩ <;> rw [hr] at hrest
    · exact hrest
    · obtain ⟨later, hlater⟩ := (h.read_got hr).from_position
      rw [← List.drop_drop, ← hlater] at hrest
      rw [← hlater]
      exact (List.prefix_append_right_inj got).2 (by simpa [handedOver] using hrest)

theorem Sure.delivers (h : Sure data b) : Delivers data b where
  reads _ hk := (h.reads_prefix hk).1
  replays sizes n hk hn hbehind := by
    have hsure := (h.reads_prefix hk).2
    have hin : InStep data (ByteSource.afterReads b sizes) :=
      ⟨hsure.toAligned, hsure.needed (.inr hbehind)⟩
    obtain ⟨got, c, hr, hne⟩ := hin.replays hbehind hn
    exact ⟨got, by rw [hr], hne⟩
  ends sizes n hk hn hempty := by
    rcases hr : (ByteSource.afterReads b sizes).read n with ⟨r, c⟩
    rw [hr] at hempty
    obtain rfl : r = .ok [] := hempty
    exact ((h.reads_prefix hk).2.read_got hr).empty hn rfl

end Reads

section Stranding

/-- A buffer that is behind its source with nothing to get there. -/
structure Stranded (data : Bytes) (b : Replay σ) : Prop extends Aligned data b, Emptied b where
  short : b.position < b.sourcePosition

theorem AllOrNothing.cases (h : AllOrNothing data b) : Sure data b ∨ Stranded data b := by
  rcases h.held_or with hheld | hempty
  · exact .inl ⟨h.toAligned, fun _ => hheld⟩
  · rcases Nat.lt_or_ge b.position b.sourcePosition with hshort | hlevel
    · exact .inr ⟨h.toAligned, hempty, hshort⟩
    · exact .inl (h.sure hlevel)

theorem Stranded.allOrNothing (h : Stranded data b) : AllOrNothing data b :=
  ⟨h.toAligned, .inr h.toEmptied⟩

/-- No read of a stranded buffer gets anything or moves it. -/
theorem Stranded.read (h : Stranded data b) (n : Nat) :
    handedOver (b.read n).1 = [] ∧ Stranded data (b.read n).2 := by
  rcases Nat.eq_zero_or_pos n with rfl | hn
  · rw [read_zero h.isOpen]
    exact ⟨rfl, h⟩
  · have hfetch : b.fetch n = b.readStore n := if_pos h.short
    obtain ⟨hnone, s, hs, heq⟩ := readStore_of_empty h.nothing n
    have hstore : Stranded data ({ b with store := s } : Replay σ) :=
      { toAligned := { h.toAligned with }, toEmptied := h.toEmptied.withStore hs, short := h.short }
    rw [read_eq_fetch h.isOpen hn, hfetch]
    rcases hr : b.readStore n with ⟨e | got, a⟩ <;> rw [hr] at hnone heq <;>
      obtain rfl : a = { b with store := s } := heq
    · exact ⟨rfl, hstore⟩
    · refine ⟨hnone, ?_⟩
      obtain ⟨m, hm, -⟩ := ({ b with store := s } : Replay σ).enforceLimit_frame
      have hshort : ({ b with store := s } : Replay σ).enforceLimit.position <
          ({ b with store := s } : Replay σ).enforceLimit.sourcePosition := by
        rw [hm]
        exact h.short
      show Stranded data ({ b with store := s } : Replay σ).afterRead
      rw [afterRead, discardUnreachable_needed (.inr hshort)]
      exact ⟨hstore.toAligned.enforceLimit, hstore.toEmptied.enforceLimit, hshort⟩

theorem Stranded.afterReads (h : Stranded data b) (sizes : List Nat) :
    ByteSource.reads b sizes = [] ∧ Stranded data (ByteSource.afterReads b sizes) := by
  induction sizes generalizing b with
  | nil => exact ⟨rfl, h⟩
  | cons n rest ih =>
    obtain ⟨hnone, hstranded⟩ := h.read n
    obtain ⟨hrest, hend⟩ := ih hstranded
    refine ⟨?_, hend⟩
    show handedOver (b.read n).1 ++ ByteSource.reads (b.read n).2 rest = []
    rw [hnone, hrest, List.append_nil]

end Stranding

namespace AllOrNothing

theorem read (h : AllOrNothing data b) (hk : b.readKept n = true) :
    AllOrNothing data (b.read n).2 := by
  rcases h.cases with hsure | hstranded
  · rcases hsure.read_cases hk with ⟨s, hs, heq⟩ | ⟨a, ha, heq⟩ <;> rw [heq]
    · exact ⟨h.toAligned.withSource hs, h.held_or.imp_right fun he => { he with }⟩
    · exact ha.enforceLimit.discardUnreachable.1
  · exact (hstranded.read n).2.allOrNothing

theorem afterReads (h : AllOrNothing data b) {sizes : List Nat} (hk : b.readsKept sizes = true) :
    AllOrNothing data (ByteSource.afterReads b sizes) := by
  induction sizes generalizing b with
  | nil => exact h
  | cons n rest ih =>
    simp only [readsKept, Bool.and_eq_true] at hk
    exact ih (h.read hk.1) hk.2

theorem withoutMark (h : AllOrNothing data b) {m : MarkState} (hm : m.isActive = false) :
    AllOrNothing data ({ b with mark := m } : Replay σ) := by
  have hnone (p : Nat) (limit : MarkLimit) : m ≠ .active p limit := by
    rintro rfl
    cases hm
  refine ⟨⟨h.toOrdered.withMark fun p limit ha => absurd ha (hnone p limit), h.rest_eq,
    h.pulled_le⟩, h.held_or.imp_right fun he => he.withMark fun p limit ha => ?_⟩
  exact absurd ha (hnone p limit)

theorem discardUnreachable (h : AllOrNothing data b) :
    AllOrNothing data b.discardUnreachable.2 := by
  rcases h.cases with hsure | hstranded
  · exact hsure.discardUnreachable.1
  · rw [discardUnreachable_needed (.inr hstranded.short)]
    exact h

theorem remark (h : AllOrNothing data b) (limit : MarkLimit) :
    AllOrNothing data (b.remark limit).2 := by
  have here {p : Nat} {limit' : MarkLimit}
      (ha : MarkState.active b.position limit = .active p limit') : p = b.position :=
    (MarkState.active.inj ha).1.symm
  unfold Replay.remark
  split
  · rename_i hidle
    have hlevel : b.position = b.sourcePosition := by
      simpa using (Bool.and_eq_true_iff.1 hidle).2
    have hunset := h.withoutMark (m := .unset) rfl
    have hsure := hunset.sure (Nat.le_of_eq hlevel.symm)
    rcases hd : ({ b with mark := .unset } : Replay σ).discardUnreachable with ⟨e | u, c⟩
    · have hall := hunset.discardUnreachable
      rw [hd] at hall
      exact hall
    · have hin := hsure.toAligned.discardUnreachable hsure.needed (by rw [hd])
      rw [hd] at hin
      exact (hin.withMark fun p limit hm => (MarkState.active.inj hm).1.symm).allOrNothing
  · rename_i hbusy
    refine ⟨⟨h.toOrdered.withMark fun p limit' ha => here ha, h.rest_eq, h.pulled_le⟩,
      h.held_or.imp_right fun he => he.withMark fun p limit' ha => ?_⟩
    -- An emptied buffer that is level would have been dealt with above.
    obtain rfl := here ha
    have hne : b.position ≠ b.sourcePosition := by simpa [he.forgets] using hbusy
    have hshort := Nat.lt_of_le_of_ne h.position_le hne
    exact ⟨hshort, hshort⟩

theorem setMark (h : AllOrNothing data b) (limit : MarkLimit) :
    AllOrNothing data (b.setMark limit).2 := by
  rcases setMark_open h.isOpen limit with hs | hs <;> rw [hs]
  · exact (h.withoutMark (m := .invalidated) rfl).discardUnreachable
  · exact h.remark limit

theorem reset (h : AllOrNothing data b) : AllOrNothing data b.reset.2 := by
  rcases h.held_or with hheld | hempty
  · exact (InStep.reset ⟨h.toAligned, hheld⟩).1.allOrNothing
  · rcases ha : b.mark.isActive with _ | _
    · rw [(reset_inactive ha).2]
      exact h
    · obtain ⟨p, limit, hm⟩ := MarkState.isActive_iff.1 ha
      obtain ⟨hp, -⟩ := hempty.behind p limit hm
      have hlog := (Store.log_seek b.store (p - b.base)).trans hempty.nothing
      rw [reset_active h.isOpen hm, if_pos hp]
      rcases hs : b.store.seek (p - b.base) with ⟨e | u, s⟩ <;> rw [hs] at hlog
      · exact ⟨{ h.toAligned with }, .inr (hempty.withStore hlog)⟩
      · obtain ⟨hbase, hto⟩ := h.mark_mem p limit hm
        exact ⟨⟨h.toOrdered.moveTo hbase hto s, h.rest_eq, h.pulled_le⟩,
          .inr (hempty.moveTo hp hlog)⟩

end AllOrNothing

omit [SerialSource σ] in
/-- The position is moved before the store is asked, and stays moved when the store refuses. -/
theorem seek_beyond_written (hopen : b.closed = false) {target : Nat} (ht : target < b.position)
    (hbase : b.base ≤ target) (hbeyond : b.store.writePosition < target - b.base) :
    b.seek target =
      (.error (.misuse (.seekBeyondWritten (target - b.base) b.store.writePosition)),
        { b with position := target }) := by
  have hclosed : ¬ b.closed = true := by simp [hopen]
  rw [seek, if_neg hclosed, if_neg (Nat.not_le.2 ht), if_neg (Nat.not_lt.2 hbase)]
  dsimp only
  rw [Store.seek_of_lt hbeyond]

/-- A move back within what the base promises puts an emptied buffer where nothing is. -/
theorem AllOrNothing.strands (h : AllOrNothing data b) (hempty : Emptied b) {target : Nat}
    (ht : target < b.position) (hbase : b.base ≤ target) :
    Stranded data (b.seek target).2 ∧ (b.seek target).2.position = target := by
  have hopen : ¬ b.closed = true := by simp [h.isOpen]
  have hto := Nat.lt_of_lt_of_le ht h.position_le
  have hlog := (Store.log_seek b.store (target - b.base)).trans hempty.nothing
  have moved {s : Store} (hs : s.log = []) :
      Stranded data ({ b with store := s, position := target } : Replay σ) :=
    { toAligned := ⟨h.toOrdered.moveTo hbase (Nat.le_of_lt hto) s, h.rest_eq, h.pulled_le⟩
      toEmptied := hempty.moveTo hto hs
      short := hto }
  rw [Replay.seek, if_neg hopen, if_neg (Nat.not_le.2 ht), if_neg (Nat.not_lt.2 hbase)]
  dsimp only
  rcases hs : b.store.seek (target - b.base) with ⟨e | u, s⟩ <;> rw [hs] at hlog <;>
    exact ⟨moved hlog, rfl⟩

theorem AllOrNothing.seek (h : AllOrNothing data b) {target : Nat}
    (hk : (Op.seek target).kept b = true) : AllOrNothing data (b.seek target).2 := by
  simp only [Op.kept, Bool.or_eq_true, decide_eq_true_eq] at hk
  by_cases ht : target < b.position
  · rcases h.held_or with hheld | hempty
    · exact (InStep.seek_backward ⟨h.toAligned, hheld⟩ ht).1.allOrNothing
    · by_cases hbase : target < b.base
      · rw [seek_before_base h.isOpen ht hbase]
        exact h
      · exact (h.strands hempty ht (Nat.not_lt.1 hbase)).1.allOrNothing
  · rw [seek_forward h.isOpen (Nat.le_of_not_lt ht)]
    exact h.afterReads (hk.resolve_left ht)

theorem AllOrNothing.mapStore (h : AllOrNothing data b) {f : Store → Store}
    (hf : ∀ s, (f s).log = s.log) : AllOrNothing data (b.mapStore f) :=
  ⟨{ h.toAligned with }, h.held_or.imp (fun hheld => (hf b.store).trans hheld)
    fun he => he.withStore ((hf b.store).trans he.nothing)⟩

theorem AllOrNothing.apply (h : AllOrNothing data b) {op : Op} (hk : op.kept b = true) :
    AllOrNothing data (op.apply b) := by
  cases op with
  | read n => exact h.read hk
  | mark limit => exact h.setMark limit
  | reset => exact h.reset
  | seek target => exact h.seek hk
  | directoryMade name => exact h.mapStore fun s => (Store.log_directoryMade name s).1
  | directoryRemoved name => exact h.mapStore fun s => (Store.log_directoryRemoved name s).1

theorem AllOrNothing.after (h : AllOrNothing data b) {ops : List Op} (hk : b.kept ops = true) :
    AllOrNothing data (b.after ops) := by
  induction ops generalizing b with
  | nil => exact h
  | cons op rest ih =>
    simp only [Replay.kept, Bool.and_eq_true] at hk
    exact ih (h.apply hk.1) hk.2

/-- What a move back owes its caller: the data from the target on, or an untouched buffer and the
position from which on the data can be had. -/
def Rewinds (data : Bytes) (b : Replay σ) (target : Nat) : Prop :=
  (b.seek target).1 = .ok target ∧ (b.seek target).2.position = target ∧
      Delivers data (b.seek target).2 ∨
    b.seek target = (.error (.misuse (.seekBeforeCache target b.base)), b)

theorem InStep.rewinds (h : InStep data b) {target : Nat} (ht : target < b.position) :
    Rewinds data b target := by
  obtain ⟨hin, -, hmoved⟩ := h.seek_backward ht
  split at hmoved
  · exact .inr hmoved
  · exact .inl ⟨hmoved.1, hmoved.2, hin.sure.delivers⟩

theorem Stranded.not_delivers (h : Stranded data b) : ¬ Delivers data b := by
  intro hd
  obtain ⟨got, hgot, hne⟩ := hd.replays [] 1 rfl Nat.one_pos h.short
  have hnone := (h.read 1).1
  have hgot : (b.read 1).1 = .ok got := hgot
  rw [hgot] at hnone
  exact hne hnone

/-- As long as the store keeps what reads pull, and whatever else fails, a move back is sound exactly
if it is refused or everything from the base on is held. If it is not, the buffer is stranded at the
target, and no read gets anything again. Where every file could be deleted, each move back is
sound. -/
theorem rewinds_iff {source : σ} (hb : New source b) (hempty : b.store.log = []) {ops : List Op}
    (hk : b.kept ops = true) {target : Nat} (ht : target < (b.after ops).position) :
    (Rewinds (SerialSource.rest source) (b.after ops) target ↔
        target < (b.after ops).base ∨
          (b.after ops).buffered = (b.after ops).sourcePosition - (b.after ops).base) ∧
      (¬ Rewinds (SerialSource.rest source) (b.after ops) target →
        ((b.after ops).seek target).2.position = target ∧
          ∀ sizes, ByteSource.reads ((b.after ops).seek target).2 sizes = []) ∧
      (b.served ops = true → Rewinds (SerialSource.rest source) (b.after ops) target) := by
  have hall := (hb.inStep hempty).allOrNothing.after hk
  have hserved (hs : b.served ops = true) : InStep (SerialSource.rest source) (b.after ops) :=
    ((hb.inStep hempty).after hs (.inl hb.start.2.2.2.1)).1
  generalize b.after ops = a at hall hserved ht ⊢
  rw [← and_assoc]
  refine ⟨?_, fun hs => (hserved hs).rewinds ht⟩
  rcases hall.held_or with hheld | hempty
  · have hin : InStep (SerialSource.rest source) a := ⟨hall.toAligned, hheld⟩
    have hsound := hin.rewinds ht
    exact ⟨iff_of_true hsound (.inr hin.writePosition_eq), absurd hsound⟩
  · have hnothing : a.buffered = 0 := by
      rw [buffered, ← Store.length_log, hempty.nothing, List.length_nil]
    have hlt := hempty.base_lt
    by_cases hbase : target < a.base
    · have hsound : Rewinds (SerialSource.rest source) a target :=
        .inr (seek_before_base hall.isOpen ht hbase)
      exact ⟨iff_of_true hsound (.inl hbase), absurd hsound⟩
    · obtain ⟨hstranded, hpos⟩ := hall.strands hempty ht (Nat.not_lt.1 hbase)
      have hnot : ¬ Rewinds (SerialSource.rest source) a target := by
        rintro (⟨-, -, hd⟩ | hrefused)
        · exact hstranded.not_delivers hd
        · rw [hrefused] at hpos
          exact Nat.ne_of_gt ht hpos
      refine ⟨iff_of_false hnot ?_, fun _ => ⟨hpos, fun sizes => (hstranded.afterReads sizes).1⟩⟩
      rintro (hbefore | hfull)
      · exact hbase hbefore
      · omega

/-- A mark is given up in the middle of a replay, its file can no longer be deleted when a read
catches up, and that read succeeds all the same. -/
theorem rewinds_iff_removed :
    let source : MockSource := { rest := [1, 2, 3, 4, 5, 6, 7, 8] }
    let c : Settings := { threshold := some 2, spillDir := some "dir" }
    let b : Replay MockSource := withStore source (c.store.build true)
    let ops : List Op := [.read 1, .mark .unlimited, .read 4, .reset, .mark .invalidate,
      .directoryRemoved "dir", .read 4]
    let a := b.after ops
    New source b ∧ b.store.log = [] ∧ b.kept ops = true ∧ a.position = 5 ∧ a.base = 1 ∧
      a.buffered = 0 ∧ Rewinds source.rest a 0 ∧ ¬ Rewinds source.rest a 1 ∧
      ¬ Rewinds source.rest a 3 ∧ ∀ sizes, ByteSource.reads (a.seek 1).2 sizes = [] := by
  intro source c b ops a
  have hb : New source b := .withStore _
  have hempty : b.store.log = [] := Store.log_build c.store true
  have hk : b.kept ops = true := by decide +kernel
  have hposition : a.position = 5 := by decide +kernel
  have hbase : a.base = 1 := by decide +kernel
  have hnothing : a.buffered = 0 := by decide +kernel
  have hsource : a.sourcePosition = 5 := by decide +kernel
  have hiff (target : Nat) (ht : target < 5) :
      (Rewinds source.rest a target ↔ target < 1) ∧
        (¬ Rewinds source.rest a target →
          ∀ sizes, ByteSource.reads (a.seek target).2 sizes = []) := by
    obtain ⟨hsound, hlost, -⟩ := rewinds_iff hb hempty hk (hposition.symm ▸ ht)
    rw [show b.after ops = a from rfl, hbase, hnothing, hsource] at hsound
    exact ⟨hsound.trans (by simp), fun hnot => (hlost hnot).2⟩
  have hnot : ¬ Rewinds source.rest a 1 := by simp [(hiff 1 (by decide)).1]
  have hnot' : ¬ Rewinds source.rest a 3 := by simp [(hiff 3 (by decide)).1]
  exact ⟨hb, hempty, hk, hposition, hbase, hnothing, (hiff 0 (by decide)).1.2 (by decide), hnot,
    hnot', (hiff 1 (by decide)).2 hnot⟩

/-- Four bytes were replayed to the end when their file could not be deleted. A move back to the
second of them is refused by the empty store, but it moves the position, and from then on every read
fails, although half of the data is still to come. -/
theorem seek_strands :
    let source : ReaderSource := ⟨some [.bytes [1, 2, 3, 4, 5, 6, 7, 8]]⟩
    let c : Settings := { threshold := some 2, spillDir := some "dir" }
    let b : Replay ReaderSource := withStore source (c.store.build true)
    let a := b.after [.mark .unlimited, .read 4, .reset, .mark .invalidate, .directoryRemoved "dir",
      .read 4]
    Replay.ofSettings source c true = .ok b ∧ a.position = 4 ∧ a.sourcePosition = 4 ∧
      (a.seek 1).1 = .error (.misuse (.seekBeyondWritten 1 0)) ∧ (a.seek 1).2.position = 1 ∧
      ((a.seek 1).2.read 4).1.isOk = false ∧ ¬ Rewinds [1, 2, 3, 4, 5, 6, 7, 8] a 1 := by
  intro source c b a
  have hposition : a.position = 4 := by decide +kernel
  have hbase : a.base = 0 := by decide +kernel
  have hnothing : a.store.writePosition = 0 := by decide +kernel
  have hopen : a.closed = false := by decide +kernel
  have ht : 1 < a.position := by rw [hposition]; decide
  have hseek := seek_beyond_written hopen ht (by rw [hbase]; decide)
    (by rw [hbase, hnothing]; decide)
  rw [hbase, hnothing] at hseek
  have hrefused := congrArg Prod.fst hseek
  refine ⟨rfl, hposition, by decide +kernel, hrefused, congrArg (·.2.position) hseek,
    by decide +kernel, ?_⟩
  rintro (⟨hok, -⟩ | hearly)
  · rw [hrefused] at hok
    cases hok
  · rw [hearly] at hrefused
    cases hrefused

end Replay

end StreamLayers
