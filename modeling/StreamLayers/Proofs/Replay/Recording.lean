import StreamLayers.Proofs.Replay.Holdings
import StreamLayers.Proofs.Serving
import StreamLayers.Proofs.Store.Boundary

/-!
A replay buffer with a mark without a limit at the front of its source, and a store whose files can
be made and deleted. It serves all that its source does, from the mark and again after each reset,
and uses a file just where what it has pulled does not fit into memory.
-/

namespace StreamLayers

namespace ThresholdStore

variable {s : ThresholdStore}

/-- Files can be made, and the one that is there can be deleted. -/
structure Sheltered (s : ThresholdStore) : Prop where
  creatable : s.directoryExists = true
  deletable : ∀ f ∈ s.file, f.linked = true

namespace Sheltered

theorem appendToFile (h : Sheltered s) (data : Bytes) :
    (s.appendToFile data).1 = .ok () ∧ Sheltered (s.appendToFile data).2 := by
  unfold ThresholdStore.appendToFile
  rcases hf : s.file with _ | f
  · rw [if_pos h.creatable]
    exact ⟨rfl, h.creatable, by simp⟩
  · exact ⟨rfl, h.creatable, by simpa using h.deletable f hf⟩

theorem spillMemory (h : Sheltered s) : s.spillMemory.1 = .ok () ∧ Sheltered s.spillMemory.2 := by
  unfold ThresholdStore.spillMemory
  split
  · exact ⟨rfl, h⟩
  · have hempty : Sheltered { s with memory := {} } := ⟨h.creatable, h.deletable⟩
    exact hempty.appendToFile _

theorem put (h : Sheltered s) (data : Bytes) :
    (s.put data).1 = .ok () ∧ Sheltered (s.put data).2 := by
  obtain ⟨hok, hspilled⟩ := h.spillMemory
  unfold ThresholdStore.put
  split
  · rcases hs : s.spillMemory with ⟨e | u, t⟩ <;> rw [hs] at hok hspilled
    · cases hok
    · dsimp only at hspilled ⊢
      split
      · exact hspilled.appendToFile data
      · exact ⟨rfl, hspilled.creatable, hspilled.deletable⟩
  · exact ⟨rfl, h.creatable, h.deletable⟩

theorem release (h : Sheltered s) : s.release.1 = .ok () := by
  unfold ThresholdStore.release
  rcases hf : s.file with _ | f
  · rfl
  · simp [h.deletable f hf]

end Sheltered

end ThresholdStore

namespace Store

/-- A store that keeps so many bytes in memory, or any number, and whose files can be made and
deleted. -/
inductive Steady : Option Nat → Store → Prop where
  | memory (s : MemoryStore) : Steady none (.memory s)
  | threshold {s : ThresholdStore} (layered : s.Layered) (sheltered : s.Sheltered) :
      Steady (some s.threshold) (.threshold s)

namespace Steady

variable {threshold : Option Nat} {s : Store}

theorem build (c : Settings) : Steady c.threshold (c.build true) := by
  obtain ⟨threshold, directory⟩ := c
  cases threshold with
  | none => exact .memory {}
  | some t =>
    have hempty : ThresholdStore.Layered { threshold := t, directory } :=
      ⟨Nat.zero_le _, nofun⟩
    exact .threshold hempty ⟨rfl, nofun⟩

theorem put (h : Steady threshold s) (data : Bytes) :
    ∃ t, s.put data = (.ok (), t) ∧ Steady threshold t := by
  cases h with
  | memory s => exact ⟨_, rfl, .memory _⟩
  | @threshold s layered sheltered =>
    obtain ⟨hok, hnext⟩ := sheltered.put data
    have hlayered := layered.put data
    have hthreshold := (s.put_settings data).1
    refine ⟨.threshold (s.put data).2, ?_, ?_⟩
    · rw [← hok]
      rfl
    · rw [← hthreshold]
      exact .threshold hlayered hnext

theorem moveTo {s : ThresholdStore} (h : Steady threshold (.threshold s)) (cursor : Nat) :
    Steady threshold (.threshold { s with cursor }) := by
  cases h with
  | threshold layered sheltered =>
    exact .threshold (s := { s with cursor }) ⟨layered.memory_le, layered.exceeds⟩
      ⟨sheltered.creatable, sheltered.deletable⟩

theorem get (h : Steady threshold s) (n : Nat) : Steady threshold (s.get n).2 := by
  cases s with
  | memory s =>
    cases h with
    | memory => exact .memory _
  | threshold s =>
    obtain ⟨-, -, -, hs⟩ := s.get_spec n
    simp only [Store.get, hs]
    exact h.moveTo _

theorem seek (h : Steady threshold s) (target : Nat) : Steady threshold (s.seek target).2 := by
  cases s with
  | memory s =>
    cases h with
    | memory => exact .memory _
  | threshold s =>
    simp only [Store.seek, ThresholdStore.seek]
    split
    · exact h
    · exact h.moveTo _

theorem release (h : Steady threshold s) : s.release.1 = .ok () := by
  cases h with
  | memory s => rfl
  | threshold layered sheltered => exact sheltered.release

theorem isSpilled_eq (h : Steady threshold s) :
    s.isSpilled = threshold.any (· < s.writePosition) := by
  cases h with
  | memory s => rfl
  | threshold layered sheltered =>
    rw [Bool.eq_iff_iff, isSpilled, layered.isSome_iff]
    exact decide_eq_true_iff.symm

end Steady

end Store

namespace Replay

variable {σ : Type}

/-- A buffer over a source with `all` to hand out that still has `rest` to hand out itself, and can
go back to the front. `R` says of the source what is left there. -/
structure Recording (R : σ → Bytes → Prop) (threshold : Option Nat) (all : Bytes) (b : Replay σ)
    (rest : Bytes) : Prop where
  isOpen : b.closed = false
  mark_eq : b.mark = .active 0 .unlimited
  base_eq : b.base = 0
  position_le : b.position ≤ b.sourcePosition
  pulled_le : b.sourcePosition ≤ all.length
  held : b.store.log = all.take b.sourcePosition
  steady : b.store.Steady threshold
  unclosed : b.source.closed = false
  source : R b.source.inner (all.drop b.sourcePosition)
  rest_eq : rest = all.drop b.position

variable {R : σ → Bytes → Prop} {threshold : Option Nat} {all rest : Bytes} {b c : Replay σ} {n : Nat}

namespace Recording

theorem caching_eq (h : Recording R threshold all b rest) : b.caching = true := by
  simp [caching, h.mark_eq, MarkState.isActive]

theorem length_log (h : Recording R threshold all b rest) :
    b.store.log.length = b.sourcePosition - b.base := by
  rw [h.held, h.base_eq, List.length_take, Nat.min_eq_left h.pulled_le, Nat.sub_zero]

/-- Nothing of what it holds is given up. -/
theorem afterRead_eq (h : Recording R threshold all b rest) : b.afterRead = b := by
  have hunlimited : ¬ ∃ p limit, b.mark = .active p (.bytes limit) := by
    simp [h.mark_eq]
  rw [afterRead, enforceLimit_of_unlimited hunlimited,
    discardUnreachable_needed (.inl h.caching_eq)]

/-- A buffer that has handed out everything has pulled everything. -/
theorem pulled_eq (h : Recording R threshold all b []) :
    b.position = b.sourcePosition ∧ b.sourcePosition = all.length := by
  have hle := h.position_le
  have hpulled := h.pulled_le
  have hend := List.drop_eq_nil_iff.1 h.rest_eq.symm
  omega

theorem isSpilled_eq (h : Recording R threshold all b []) :
    b.store.isSpilled = threshold.any (· < all.length) := by
  rw [h.steady.isSpilled_eq, ← Store.length_log, h.length_log, h.base_eq, Nat.sub_zero, h.pulled_eq.2]

theorem steady_readStore (h : b.store.Steady threshold) (n : Nat) :
    (b.readStore n).2.store.Steady threshold := by
  have hseek := h.seek (b.position - b.base)
  unfold Replay.readStore
  rcases hs : b.store.seek (b.position - b.base) with ⟨e | u, s⟩ <;> rw [hs] at hseek
  · exact hseek
  · exact hseek.get _

theorem readStore (h : Recording R threshold all b rest) (hp : b.position < b.sourcePosition)
    (hn : 0 < n) : Serving (Recording R threshold all) none rest n (b.readStore n) := by
  have hbase := h.base_eq
  have hsteady := steady_readStore h.steady n
  obtain ⟨m, store, hm, hle, hlog, hread⟩ :=
    readStore_stored h.length_log (hbase ▸ Nat.zero_le _) hp hn
  have hstored : (b.store.log.drop (b.position - b.base)).take m = rest.take m := by
    rw [h.held, hbase, Nat.sub_zero, h.rest_eq, List.drop_take, List.take_take]
    congr 1
    omega
  have hlen : b.sourcePosition - b.position ≤ rest.length := by
    have := h.pulled_le
    rw [h.rest_eq, List.length_drop]
    omega
  rw [hread, hstored]
  rw [hread] at hsteady
  refine .more (List.take_append_drop m rest).symm ?_ ?_ ?_
  · apply List.ne_nil_of_length_pos
    rw [List.length_take]
    omega
  · rw [List.length_take]
    omega
  · exact { h with
      position_le := by
        show b.position + m ≤ b.sourcePosition
        omega
      held := hlog.trans h.held
      steady := hsteady
      rest_eq := by rw [h.rest_eq, List.drop_drop] }

/-- What was pulled is kept at the end of the store, and handed out. -/
theorem accept (h : Recording R threshold all b rest) (hp : b.position = b.sourcePosition)
    {got later : Bytes} (eq : all.drop b.sourcePosition = got ++ later) {source : σ}
    (hsource : R source later) {store : Store} (hlog : store.log = b.store.log ++ got)
    (hsteady : store.Steady threshold) :
    Recording R threshold all
      (({ b with source := { b.source with inner := source }, store } : Replay σ).accept got)
      later := by
  have hdrop : all.drop (b.sourcePosition + got.length) = later := by
    rw [← List.drop_drop, eq, List.drop_left]
  have hlen : b.sourcePosition + got.length ≤ all.length := by
    have hlength := congrArg List.length eq
    have hpulled := h.pulled_le
    simp only [List.length_drop, List.length_append] at hlength
    omega
  have hheld : store.log = all.take (b.sourcePosition + got.length) := by
    rw [hlog, h.held, List.take_add, eq, List.take_left]
  exact { h with
    position_le := Nat.add_le_add_right h.position_le _
    pulled_le := hlen
    held := hheld
    steady := hsteady
    source := hdrop.symm ▸ hsource
    rest_eq := by
      show later = all.drop (b.position + got.length)
      rw [hp, hdrop] }

variable [ByteSource σ]

theorem readSource (hserves : Serves R none) (h : Recording R threshold all b rest)
    (hp : b.position = b.sourcePosition) (hn : 0 < n) :
    Serving (Recording R threshold all) none rest n (b.readSource n) := by
  have hread := hserves.read b.source.inner _ n h.source hn
  have hrest : rest = all.drop b.sourcePosition := hp ▸ h.rest_eq
  unfold Replay.readSource
  have honce : ByteSource.read b.source n = ((ByteSource.read b.source.inner n).1,
      { b.source with inner := (ByteSource.read b.source.inner n).2 }) := rfl
  rw [honce]
  generalize ByteSource.read b.source.inner n = q at hread ⊢
  cases hread with
  | failed used broken next => cases broken
  | ended used sound next =>
    have hkeep (source : Once σ) :
        ({ b with source } : Replay σ).keep [] = (.ok [], { b with source }) := by
      simp [keep, Replay.accept]
    dsimp only
    rw [hkeep, hrest, used]
    refine .ended rfl rfl { h with source := ?_, rest_eq := ?_ }
    · rw [used]
      exact next
    · rw [hp, used]
  | @more got later s eq some fits next =>
    obtain ⟨store, hput, hsteady⟩ := h.steady.put got
    obtain ⟨hlog, -⟩ := Store.put_spec hput
    have hkeep : ({ b with source := { b.source with inner := s } } : Replay σ).keep got =
        (.ok got, ({ b with source := { b.source with inner := s }, store } : Replay σ).accept got) := by
      have hcaching : ({ b with source := { b.source with inner := s } } : Replay σ).caching = true :=
        h.caching_eq
      simp [keep, hcaching, some, hput]
    dsimp only
    rw [hkeep, hrest]
    exact .more eq some fits (h.accept hp eq next hlog hsteady)

theorem read (hserves : Serves R none) (h : Recording R threshold all b rest) (hn : 0 < n) :
    Serving (Recording R threshold all) none rest n (b.read n) := by
  have hfetch : Serving (Recording R threshold all) none rest n (b.fetch n) := by
    unfold fetch
    split
    · rename_i hp
      exact h.readStore hp hn
    · rename_i hp
      exact h.readSource hserves (Nat.le_antisymm h.position_le (Nat.le_of_not_lt hp)) hn
  rw [read_eq_fetch h.isOpen hn]
  generalize b.fetch n = q at hfetch ⊢
  cases hfetch with
  | failed used broken next => cases broken
  | more eq some fits next =>
    dsimp only
    rw [next.afterRead_eq]
    exact .more eq some fits next
  | ended used sound next =>
    dsimp only
    rw [next.afterRead_eq]
    exact .ended used sound next

end Recording

variable [ByteSource σ]

/-- A buffer serves what its source does, whether it has it or has to pull it. -/
theorem serves_recording (hserves : Serves R none) (threshold : Option Nat) (all : Bytes) :
    Serves (Recording R threshold all) none where
  read _ _ _ h hn := h.read hserves hn
  left b data h := by
    have hleft := hserves.left b.source.inner _ h.source
    have hposition := h.position_le
    show data.length ≤ (b.sourcePosition - b.position) + ByteSource.left b.source.inner
    rw [h.rest_eq]
    simp only [List.length_drop] at hleft ⊢
    omega

/-- Whoever is told of the end by a read from the source was told by the source. -/
theorem source_read_of_readSource (h : b.readSource n = (.ok [], c)) :
    ByteSource.read b.source n = (.ok [], c.source) := by
  unfold Replay.readSource at h
  rcases hq : ByteSource.read b.source n with ⟨e | got, s⟩ <;> rw [hq] at h
  · cases h
  · dsimp only [keep] at h
    split at h
    · rcases hput : b.store.put got with ⟨e | u, t⟩ <;> rw [hput] at h
      · cases h
      · obtain ⟨hgot, rfl⟩ := Prod.mk.inj h
        obtain rfl := Except.ok.inj hgot
        rfl
    · obtain ⟨hgot, rfl⟩ := Prod.mk.inj h
      obtain rfl := Except.ok.inj hgot
      rfl

theorem Recording.source_read_of_told (hserves : Serves R none)
    (h : Recording R threshold all b []) (hn : 0 < n) (hr : b.read n = (.ok [], c)) :
    ByteSource.read b.source.inner n = (.ok [], c.source.inner) := by
  have hlevel : b.position = b.sourcePosition := h.pulled_eq.1
  have hserving := h.readSource hserves hlevel hn
  rw [read_eq_fetch h.isOpen hn, fetch, if_neg (Nat.not_lt.2 (Nat.le_of_eq hlevel.symm))] at hr
  rcases hq : b.readSource n with ⟨e | got, d⟩ <;> rw [hq] at hr hserving
  · cases hr
  · obtain ⟨hgot, rfl⟩ := Prod.mk.inj hr
    obtain rfl := Except.ok.inj hgot
    have htold := source_read_of_readSource hq
    have hafter : d.afterRead = d := by
      cases hserving with
      | ended used sound next => exact next.afterRead_eq
      | more eq some fits next => exact absurd rfl some
    rw [hafter]
    obtain ⟨hanswer, hstate⟩ := Prod.mk.inj htold
    exact Prod.ext hanswer (congrArg Once.inner hstate)

omit [ByteSource σ] in
/-- A new buffer can be marked at the front of its source. -/
theorem recording_of_start {source : σ} {c : Settings} (hvalid : c.validate = .ok ())
    (h : R source all) :
    ∃ b marked, ofSettings source c true = .ok b ∧ b.setMark .unlimited = (.ok (), marked) ∧
      Recording R c.threshold all marked all := by
  have hsteady := Store.Steady.build c.store
  have hempty : (c.store.build true).log = [] := Store.log_build c.store true
  have hwritten : (c.store.build true).writePosition = 0 := by
    rw [← Store.length_log, hempty, List.length_nil]
  let b : Replay σ := { withStore source (c.store.build true) with
    retainHistory := c.retainHistory, readChunk := c.readChunk }
  have hnew : ofSettings source c true = .ok b := by rw [ofSettings, hvalid]
  refine ⟨b, { b with mark := .active 0 .unlimited }, hnew, ?_, ?_⟩
  · -- Nothing is in the store yet that would have to be dropped first.
    have hdiscard : ({ b with mark := .unset } : Replay σ).discardUnreachable = (.ok (), b) := by
      unfold discardUnreachable
      split
      · rfl
      · rw [if_neg]
        · rfl
        · simp [b, withStore, hwritten]
    unfold setMark
    rw [if_neg (by simp [b, withStore])]
    dsimp only
    split
    · rw [hdiscard]
      rfl
    · rfl
  · exact {
      isOpen := rfl
      mark_eq := rfl
      base_eq := rfl
      position_le := Nat.le_refl 0
      pulled_le := Nat.zero_le _
      held := hempty
      steady := hsteady
      unclosed := rfl
      source := h
      rest_eq := rfl }

omit [ByteSource σ] in
/-- However far it was read, a reset goes back to the front. -/
theorem Recording.reset (h : Recording R threshold all b rest) :
    ∃ c, b.reset = (.ok (), c) ∧ Recording R threshold all c all := by
  have hopen : ¬ b.closed = true := by simp [h.isOpen]
  have hfront (store : Store) (hlog : store.log = b.store.log) (hsteady : store.Steady threshold) :
      Recording R threshold all { b with store, position := 0, mark := .active 0 .unlimited } all :=
    { h with
      mark_eq := rfl
      position_le := Nat.zero_le _
      held := hlog.trans h.held
      steady := hsteady
      rest_eq := rfl }
  unfold Replay.reset
  rw [if_neg hopen, h.mark_eq]
  dsimp only
  split
  · have hsteady := h.steady.seek (0 - b.base)
    obtain ⟨store, hseek, hlog, -⟩ := seek_stored h.length_log (Nat.zero_le _)
    rw [hseek] at hsteady ⊢
    exact ⟨_, rfl, hfront store hlog hsteady⟩
  · exact ⟨_, rfl, hfront b.store rfl h.steady⟩

/-- Closing it closes the source and leaves nothing of what it held, nor of a file. -/
theorem Recording.close (h : Recording R threshold all b rest)
    (hclose : (ByteSource.close b.source.inner).1 = .ok ()) :
    ∃ c, b.close = (.ok (), c) ∧ c.source.inner = (ByteSource.close b.source.inner).2 ∧
      c.store.holding = (0, false) := by
  have hopen : ¬ b.closed = true := by simp [h.isOpen]
  have hunclosed : ¬ b.source.closed = true := by simp [h.unclosed]
  have hsource : ByteSource.close b.source = (.ok (), ⟨(ByteSource.close b.source.inner).2, true⟩) := by
    rw [← hclose]
    exact if_neg hunclosed
  unfold Replay.close
  rw [if_neg hopen, hsource]
  refine ⟨_, Prod.ext h.steady.release rfl, rfl, Store.holding_release b.store⟩

end Replay

end StreamLayers
