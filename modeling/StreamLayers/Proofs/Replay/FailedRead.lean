import StreamLayers.Proofs.Replay.Run

/-!
Reads of a replay buffer that fail. Where the source failed, nothing has happened. Where the store
could not take over what was pulled, those bytes are gone, and so is all that the store held.
-/

namespace StreamLayers

namespace Replay

variable {σ : Type} [ByteSource σ] {b c : Replay σ} {n : Nat} {e : Fault}

/-- How a read can fail, and what it leaves of the buffer. -/
inductive FailedRead (b : Replay σ) (n : Nat) (e : Fault) : Replay σ → Prop where
  | closed (isClosed : b.closed = true) : FailedRead b n e b
  | seek {s : Store} (behind : b.position < b.sourcePosition)
      (failed : b.store.seek (b.position - b.base) = (.error e, s)) :
      FailedRead b n e { b with store := s }
  | source {s : Once σ} (level : b.sourcePosition ≤ b.position)
      (failed : ByteSource.read b.source n = (.error e, s)) :
      FailedRead b n e { b with source := s }
  | put {s : Once σ} {got : Bytes} {t : Store} (level : b.sourcePosition ≤ b.position)
      (pulled : ByteSource.read b.source n = (.ok got, s)) (nonempty : got ≠ [])
      (failed : b.store.put got = (.error e, t)) :
      FailedRead b n e { b with source := s, store := t }

theorem failedRead_of_fetch (h : b.fetch n = (.error e, c)) : FailedRead b n e c := by
  unfold fetch at h
  split at h
  · rename_i hbehind
    unfold readStore at h
    rcases hs : b.store.seek (b.position - b.base) with ⟨e' | u, s⟩ <;> simp only [hs] at h
    · obtain ⟨he, rfl⟩ := Prod.mk.inj h
      obtain rfl := Except.error.inj he
      exact .seek hbehind hs
    · cases (Prod.mk.inj h).1
  · rename_i hlevel
    unfold readSource at h
    rcases hs : ByteSource.read b.source n with ⟨e' | got, s⟩ <;> simp only [hs] at h
    · obtain ⟨he, rfl⟩ := Prod.mk.inj h
      obtain rfl := Except.error.inj he
      exact .source (Nat.le_of_not_lt hlevel) hs
    · unfold keep at h
      split at h
      · rename_i hkeep
        have hne : got ≠ [] := by simpa using (Bool.and_eq_true_iff.1 hkeep).2
        rcases hp : b.store.put got with ⟨e' | u, t⟩ <;> simp only [hp] at h
        · obtain ⟨he, rfl⟩ := Prod.mk.inj h
          obtain rfl := Except.error.inj he
          exact .put (Nat.le_of_not_lt hlevel) hs hne hp
        · cases (Prod.mk.inj h).1
      · cases (Prod.mk.inj h).1

theorem failedRead_of_read (h : b.read n = (.error e, c)) : FailedRead b n e c := by
  rcases hc : b.closed with _ | _
  · rcases Nat.eq_zero_or_pos n with rfl | hn
    · rw [read_zero hc] at h
      cases (Prod.mk.inj h).1
    · rw [read_eq_fetch hc hn] at h
      rcases hf : b.fetch n with ⟨e' | got, d⟩ <;> rw [hf] at h
      · obtain ⟨he, rfl⟩ := Prod.mk.inj h
        obtain rfl := Except.error.inj he
        exact failedRead_of_fetch hf
      · cases (Prod.mk.inj h).1
  · simp only [read, hc, if_true] at h
    obtain ⟨-, rfl⟩ := Prod.mk.inj h
    exact .closed hc

/-- A read that fails moves nothing, whatever state the buffer is in. -/
theorem FailedRead.frame (h : FailedRead b n e c) :
    c.position = b.position ∧ c.sourcePosition = b.sourcePosition ∧ c.base = b.base ∧
      c.mark = b.mark ∧ c.closed = b.closed := by
  cases h <;> exact ⟨rfl, rfl, rfl, rfl, rfl⟩

theorem read_of_readSource {got : Bytes} (h : b.readSource n = (.ok got, c)) :
    ∃ s, ByteSource.read b.source n = (.ok got, s) := by
  unfold readSource at h
  rcases hs : ByteSource.read b.source n with ⟨e' | data, s⟩ <;> simp only [hs] at h
  · cases (Prod.mk.inj h).1
  · unfold keep at h
    split at h
    · rcases hp : b.store.put data with ⟨e' | u, t⟩ <;> simp only [hp] at h
      · cases (Prod.mk.inj h).1
      · exact ⟨s, congrArg (·, s) (Prod.mk.inj h).1⟩
    · exact ⟨s, congrArg (·, s) (Prod.mk.inj h).1⟩

variable [SerialSource σ] {data : Bytes}

/-- A buffer level with its source reads on where the source is. -/
theorem read_prefix_rest (hopen : b.closed = false) (hlevel : b.sourcePosition ≤ b.position)
    {got : Bytes} (h : b.read n = (.ok got, c)) : got <+: SerialSource.rest b.source := by
  rcases Nat.eq_zero_or_pos n with rfl | hn
  · rw [read_zero hopen] at h
    obtain rfl := Except.ok.inj (Prod.mk.inj h).1
    exact List.nil_prefix
  · have hfetch : b.fetch n = b.readSource n := if_neg (Nat.not_lt.2 hlevel)
    rw [read_eq_fetch hopen hn, hfetch] at h
    rcases hf : b.readSource n with ⟨e' | d, a⟩ <;> rw [hf] at h
    · cases (Prod.mk.inj h).1
    · obtain rfl := Except.ok.inj (Prod.mk.inj h).1
      obtain ⟨s, hs⟩ := read_of_readSource hf
      have hhanded := SerialSource.handed b.source n
      rw [hs] at hhanded
      exact ⟨_, hhanded.2.symm⟩

/-- What a read of `b` leaves that pulled the bytes `lost` from the source and then failed: they are
neither handed out nor kept. -/
structure Skips (data : Bytes) (b c : Replay σ) (lost : Bytes) : Prop where
  nonempty : lost ≠ []
  next : lost <+: data.drop b.position
  pulled : SerialSource.rest c.source = data.drop (b.sourcePosition + lost.length)
  /-- Nothing can be replayed any more, even if a mark is active. -/
  emptied : c.store.log = []
  resumes : ∀ k got d, c.read k = (.ok got, d) → got <+: data.drop (b.position + lost.length)

theorem InStep.spared (h : InStep data b) {s : Once σ}
    (hr : ByteSource.read b.source n = (.error e, s)) : InStep data { b with source := s } := by
  have hhanded := SerialSource.handed b.source n
  rw [hr] at hhanded
  exact ⟨{ h.toAligned with rest_eq := hhanded.trans h.rest_eq }, h.held⟩

theorem InStep.skips (h : InStep data b) {s : Once σ} {lost : Bytes} {t : Store}
    (hlevel : b.sourcePosition ≤ b.position) (hr : ByteSource.read b.source n = (.ok lost, s))
    (hne : lost ≠ []) (hp : b.store.put lost = (.error e, t)) :
    Skips data b { b with source := s, store := t } lost := by
  obtain ⟨-, -, hnext, -, hrest⟩ := h.toAligned.pull hr
  have hposition : b.position = b.sourcePosition := Nat.le_antisymm h.position_le hlevel
  refine ⟨hne, hposition ▸ hnext, hrest, (Store.put_error hp).1, ?_⟩
  intro k got d hread
  have := read_prefix_rest (b := { b with source := s, store := t }) h.isOpen hlevel hread
  rw [hposition, ← hrest]
  exact this

theorem Skips.not_faithful {lost : Bytes} (h : Skips data b c lost)
    (hposition : b.position = b.sourcePosition) (hsame : c.sourcePosition = b.sourcePosition) :
    ¬ Faithful data c := by
  intro hf
  have hlen := congrArg List.length (h.pulled.symm.trans hf.pulled.1)
  have hpos := List.length_pos_iff.2 h.nonempty
  have hle := h.next.length_le
  rw [hposition] at hle
  rw [hsame] at hlen
  simp only [List.length_drop] at hlen hle
  omega

/-- A read that fails keeps a buffer faithful exactly if it was the source that failed. If it was the
store, the buffer skips what the read had pulled. -/
theorem faithful_failed_read_iff {source : σ} {settings : Settings} {present : Bool} {b : Replay σ}
    (hb : Replay.ofSettings source settings present = .ok b) {ops : List Op}
    (hs : b.served ops = true) {n : Nat} {e : Fault} {c : Replay σ}
    (hr : (b.after ops).read n = (.error e, c)) :
    (c.position = (b.after ops).position ∧ c.sourcePosition = (b.after ops).sourcePosition ∧
        c.mark = (b.after ops).mark) ∧
      (Faithful (SerialSource.rest source) c ↔
        (ByteSource.read (b.after ops).source n).1.isOk = false) ∧
      if (ByteSource.read (b.after ops).source n).1.isOk then
        ∃ lost, Skips (SerialSource.rest source) (b.after ops) c lost
      else
        c.store = (b.after ops).store ∧
          ∀ more, c.served more = true → Faithful (SerialSource.rest source) (c.after more) := by
  have hunset : MarkState.Since .unset b.mark := .inl (ofSettings_fresh hb).2
  obtain ⟨hin, -⟩ := (InStep.ofSettings hb).after hs hunset
  have hfailed := failedRead_of_read hr
  obtain ⟨hposition, hsource, -, hmark, -⟩ := hfailed.frame
  refine ⟨⟨hposition, hsource, hmark⟩, ?_⟩
  generalize b.after ops = a at *
  cases hfailed with
  | closed isClosed =>
    rw [hin.isOpen] at isClosed
    cases isClosed
  | seek behind failed =>
    obtain ⟨s, hseek, -⟩ := seek_stored hin.length_log hin.position_le
    rw [hseek] at failed
    cases (Prod.mk.inj failed).1
  | source level failed =>
    have hspared := hin.spared failed
    rw [failed]
    refine ⟨⟨fun _ => rfl, fun _ => hspared.faithful⟩, rfl, ?_⟩
    intro more hmore
    exact (hspared.after hmore (.inl rfl)).1.faithful
  | put level pulled nonempty failed =>
    have hskips := hin.skips level pulled nonempty failed
    have hlost := hskips.not_faithful (Nat.le_antisymm hin.position_le level) rfl
    rw [pulled]
    exact ⟨⟨fun hf => absurd hf hlost, fun hf => by cases hf⟩, _, hskips⟩

/-- Two bytes are kept in memory for a mark when the next read has to spill them and cannot: the
bytes that it pulled and those of the mark are lost together. -/
theorem faithful_failed_read_iff_spill :
    let source : MockSource := { rest := [1, 2, 3, 4, 5, 6, 7, 8] }
    let c : Settings := { threshold := some 2, spillDir := some "missing" }
    let b : Replay MockSource := withStore source (c.store.build false)
    let ops : List Op := [.mark .unlimited, .read 2]
    let q := ((b.after ops).read 2).2
    Replay.ofSettings source c false = .ok b ∧ b.served ops = true ∧
      ((b.after ops).read 2).1 = .error (.io (.spillFailed (some "missing") noSuchFile)) ∧
      q.mark = .active 0 .unlimited ∧ (b.after ops).store.log = [1, 2] ∧
      ∃ lost, Skips [1, 2, 3, 4, 5, 6, 7, 8] (b.after ops) q lost := by
  intro source c b ops q
  have hb : Replay.ofSettings source c false = .ok b := rfl
  have hs : b.served ops = true := by decide +kernel
  have hfail : ((b.after ops).read 2).1 =
      .error (.io (.spillFailed (some "missing") noSuchFile)) := rfl
  have hr : (b.after ops).read 2 =
      (.error (.io (.spillFailed (some "missing") noSuchFile)), q) := by
    rw [← hfail]
  have hmark : (b.after ops).mark = .active 0 .unlimited := by decide +kernel
  have hlog : (b.after ops).store.log = [1, 2] := by decide +kernel
  have hpulled : (ByteSource.read (b.after ops).source 2).1.isOk = true := by decide +kernel
  obtain ⟨⟨-, -, hkept⟩, -, hskips⟩ := faithful_failed_read_iff hb hs hr
  rw [if_pos hpulled] at hskips
  exact ⟨hb, hs, hfail, hkept.trans hmark, hlog, hskips⟩

/-- After a failed spill, and with nothing in the way of the next one, a read succeeds at position 0
and gets the second half of the data. -/
theorem failed_read_skips :
    let data : Bytes := [1, 2, 3, 4, 5, 6, 7, 8]
    let source : ReaderSource := ⟨some [.bytes data]⟩
    let c : Settings := { threshold := some 2, spillDir := some "missing" }
    let b : Replay ReaderSource := withStore source (c.store.build false)
    let failed := (b.after [.mark .unlimited]).read 4
    let later := failed.2.after [.directoryMade "missing"]
    Replay.ofSettings source c false = .ok b ∧ failed.1.isOk = false ∧ later.position = 0 ∧
      (later.read 4).1 = .ok [5, 6, 7, 8] ∧ ¬ [5, 6, 7, 8] <+: data.drop later.position := by
  intro data source c b failed later
  exact ⟨rfl, by decide +kernel, by decide +kernel, rfl, by decide +kernel⟩

end Replay

end StreamLayers
