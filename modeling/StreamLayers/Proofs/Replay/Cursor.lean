import StreamLayers.Proofs.Replay.FailedRead

/-!
What the calls of a replay buffer do to its position, its mark and its source, whatever state it is
in and whichever of them fail.
-/

namespace StreamLayers

/-- A mark that is still active is as it was set. -/
theorem MarkState.Since.active {before now : MarkState} (h : Since before now) {p : Nat}
    {limit : MarkLimit} (hm : now = .active p limit) : before = .active p limit := by
  have ha : now.isActive = true := by rw [hm]; rfl
  rw [← h.eq_of_isActive ha, hm]

namespace Replay

section Calls

variable {σ : Type}

/-- A new replay buffer over `source`, as its settings ask for or over a store that is handed in. -/
inductive New (source : σ) : Replay σ → Prop where
  | ofSettings {c : Settings} {present : Bool} {b : Replay σ}
      (made : ofSettings source c present = .ok b) : New source b
  | withStore (store : Store) : New source (withStore source store)

/-- What a new buffer is told when it is made is all that may differ. -/
theorem New.shape {source : σ} {b : Replay σ} (h : New source b) :
    ∃ (store : Store) (retainHistory : Bool) (readChunk : Nat),
      b = { Replay.withStore source store with retainHistory, readChunk } ∧ 0 < readChunk := by
  cases h with
  | @ofSettings c present b made =>
    unfold Replay.ofSettings at made
    split at made
    · cases made
    · rename_i hvalid
      obtain rfl := Except.ok.inj made
      refine ⟨_, _, _, rfl, ?_⟩
      unfold Settings.validate at hvalid
      split at hvalid
      · cases hvalid
      · exact Nat.pos_of_ne_zero ‹_›
  | withStore store => exact ⟨store, _, _, rfl, Nat.succ_pos _⟩

theorem New.start {source : σ} {b : Replay σ} (h : New source b) :
    b.source = ⟨source, false⟩ ∧ b.position = 0 ∧ b.sourcePosition = 0 ∧ b.mark = .unset ∧
      b.closed = false := by
  obtain ⟨store, retainHistory, readChunk, rfl, -⟩ := h.shape
  exact ⟨rfl, rfl, rfl, rfl, rfl⟩

theorem New.inner_eq {source : σ} {b : Replay σ} (h : New source b) :
    b.source.inner = source := congrArg Once.inner h.start.1

/-- A mark on an open buffer either gives up the bytes that are held or remembers the position. -/
theorem setMark_open {b : Replay σ} (hopen : b.closed = false) (limit : MarkLimit) :
    b.setMark limit = ({ b with mark := .invalidated } : Replay σ).discardUnreachable ∨
      b.setMark limit = b.remark limit := by
  have hclosed : ¬ b.closed = true := by simp [hopen]
  unfold setMark
  rw [if_neg hclosed]
  cases limit with
  | unlimited => exact .inr rfl
  | invalidate => exact .inl rfl
  | bytes n =>
    cases n with
    | zero => exact .inl rfl
    | succ n => exact .inr rfl

theorem remark_moved (b : Replay σ) (limit : MarkLimit) :
    ((b.remark limit).2.position = b.position ∧ (b.remark limit).2.source = b.source ∧
        (b.remark limit).2.closed = b.closed) ∧
      ((b.remark limit).1 = .ok () ∧ (b.remark limit).2.mark = .active b.position limit ∨
        (b.remark limit).1.isOk = false ∧ (b.remark limit).2.mark = .unset) := by
  unfold remark
  split
  · obtain ⟨store, base, hfr⟩ := ({ b with mark := .unset } : Replay σ).discardUnreachable_frame
    rcases hd : ({ b with mark := .unset } : Replay σ).discardUnreachable with ⟨e | u, c⟩ <;>
      rw [hd] at hfr <;> obtain rfl : c = _ := hfr
    · exact ⟨⟨rfl, rfl, rfl⟩, .inr ⟨rfl, rfl⟩⟩
    · exact ⟨⟨rfl, rfl, rfl⟩, .inl ⟨rfl, rfl⟩⟩
  · exact ⟨⟨rfl, rfl, rfl⟩, .inl ⟨rfl, rfl⟩⟩

variable (b : Replay σ)

/-- A mark that is set is set at the position; if it cannot be set, no new one is active. -/
theorem setMark_moved (limit : MarkLimit) :
    ((b.setMark limit).2.position = b.position ∧ (b.setMark limit).2.source = b.source ∧
        (b.setMark limit).2.closed = b.closed) ∧
      ∀ p limit', (b.setMark limit).2.mark = .active p limit' →
        if (b.setMark limit).1.isOk then p = b.position else b.mark = .active p limit' := by
  rcases hc : b.closed with _ | _
  · rcases setMark_open hc limit with hs | hs <;> rw [hs]
    · obtain ⟨store, base, hfr⟩ :=
        ({ b with mark := .invalidated } : Replay σ).discardUnreachable_frame
      rw [hfr]
      exact ⟨⟨rfl, rfl, hc⟩, nofun⟩
    · obtain ⟨⟨hpos, hsource, hclosed⟩, ⟨hok, hm⟩ | ⟨-, hm⟩⟩ := b.remark_moved limit <;>
        refine ⟨⟨hpos, hsource, hclosed.trans hc⟩, fun p limit' ha => ?_⟩ <;>
        rw [hm] at ha <;> cases ha
      rw [hok]
      rfl
  · simp only [setMark, hc, if_true]
    exact ⟨⟨trivial, trivial, trivial⟩, fun _ _ hm => hm⟩

theorem reset_frame : ∃ store position, b.reset.2 = { b with store, position } := by
  by_cases hclosed : b.closed = true
  · rw [reset, if_pos hclosed]
    exact ⟨b.store, b.position, rfl⟩
  · rcases ha : b.mark.isActive with _ | _
    · rw [(reset_inactive ha).2]
      exact ⟨b.store, b.position, rfl⟩
    · obtain ⟨p, limit, hm⟩ := MarkState.isActive_iff.1 ha
      rw [reset_active (Bool.eq_false_iff.2 hclosed) hm]
      split
      · rcases b.store.seek (p - b.base) with ⟨e | u, s⟩
        · exact ⟨s, b.position, rfl⟩
        · exact ⟨s, p, rfl⟩
      · exact ⟨b.store, p, rfl⟩

theorem reset_kept : b.reset.2.source = b.source ∧ b.reset.2.closed = b.closed := by
  obtain ⟨store, position, hs⟩ := b.reset_frame
  rw [hs]
  exact ⟨rfl, rfl⟩

/-- A reset keeps the mark. It goes back to it, or fails and stays where it is. -/
theorem reset_moved :
    b.reset.2.mark = b.mark ∧
      (b.reset.1 = .ok () → ∃ limit, b.mark = .active b.reset.2.position limit) ∧
      (b.reset.1.isOk = false → b.reset.2.position = b.position) := by
  rcases hc : b.closed with _ | _
  · rcases ha : b.mark.isActive with _ | _
    · obtain ⟨hfail, hsame⟩ := reset_inactive ha
      rw [hsame]
      refine ⟨rfl, fun hok => ?_, fun _ => rfl⟩
      rw [hok] at hfail
      cases hfail
    · obtain ⟨p, limit, hm⟩ := MarkState.isActive_iff.1 ha
      rw [reset_active hc hm]
      split
      · rcases b.store.seek (p - b.base) with ⟨e | u, s⟩
        · exact ⟨rfl, nofun, fun _ => rfl⟩
        · exact ⟨rfl, fun _ => ⟨limit, hm⟩, fun hf => by cases hf⟩
      · exact ⟨rfl, fun _ => ⟨limit, hm⟩, fun hf => by cases hf⟩
  · simp only [reset, hc, if_true]
    exact ⟨trivial, nofun, fun _ => trivial⟩

end Calls

theorem readStore_frame {σ : Type} {b c : Replay σ} {n : Nat} {got : Bytes}
    (h : b.readStore n = (.ok got, c)) :
    ∃ store, c = { b with store, position := b.position + got.length } := by
  unfold readStore at h
  rcases hs : b.store.seek (b.position - b.base) with ⟨e | u, s⟩ <;> simp only [hs] at h
  · cases (Prod.mk.inj h).1
  · obtain ⟨hg, rfl⟩ := Prod.mk.inj h
    obtain rfl := Except.ok.inj hg
    exact ⟨_, rfl⟩

variable {σ : Type} [ByteSource σ] {b c : Replay σ} {n : Nat} {got : Bytes}

theorem readSource_frame (h : b.readSource n = (.ok got, c)) :
    ∃ store, c =
      ({ b with source := (ByteSource.read b.source n).2, store } : Replay σ).accept got := by
  unfold readSource at h
  rcases hs : ByteSource.read b.source n with ⟨e | data, s⟩ <;> simp only [hs] at h
  · cases (Prod.mk.inj h).1
  · unfold keep at h
    split at h
    · rcases hp : b.store.put data with ⟨e | u, t⟩ <;> simp only [hp] at h
      · cases (Prod.mk.inj h).1
      · obtain ⟨hg, rfl⟩ := Prod.mk.inj h
        obtain rfl := Except.ok.inj hg
        exact ⟨t, rfl⟩
    · obtain ⟨hg, rfl⟩ := Prod.mk.inj h
      obtain rfl := Except.ok.inj hg
      exact ⟨b.store, rfl⟩

/-- What is fetched moves the position, and the source with it if it comes from there. -/
theorem fetch_frame (h : b.fetch n = (.ok got, c)) :
    (∃ store, c = { b with store, position := b.position + got.length }) ∨
      ∃ store, c =
        ({ b with source := (ByteSource.read b.source n).2, store } : Replay σ).accept got := by
  unfold fetch at h
  split at h
  · exact .inl (readStore_frame h)
  · exact .inr (readSource_frame h)

theorem fetch_moved (h : b.fetch n = (.ok got, c)) :
    c.position = b.position + got.length ∧ c.mark = b.mark ∧ c.closed = b.closed ∧
      (c.source = b.source ∨ c.source = (ByteSource.read b.source n).2) := by
  obtain ⟨store, rfl⟩ | ⟨store, rfl⟩ := fetch_frame h
  · exact ⟨rfl, rfl, rfl, .inl rfl⟩
  · exact ⟨rfl, rfl, rfl, .inr rfl⟩

/-- A read that succeeds got nothing, or what was fetched. -/
theorem read_ok (h : b.read n = (.ok got, c)) :
    got = [] ∧ c = b ∨ b.closed = false ∧ ∃ a, b.fetch n = (.ok got, a) ∧ c = a.afterRead := by
  rcases hc : b.closed with _ | _
  · rcases Nat.eq_zero_or_pos n with rfl | hn
    · rw [read_zero hc] at h
      obtain ⟨hg, rfl⟩ := Prod.mk.inj h
      exact .inl ⟨(Except.ok.inj hg).symm, rfl⟩
    · rw [read_eq_fetch hc hn] at h
      rcases hf : b.fetch n with ⟨e | d, a⟩ <;> rw [hf] at h
      · cases (Prod.mk.inj h).1
      · obtain ⟨hd, rfl⟩ := Prod.mk.inj h
        obtain rfl := Except.ok.inj hd
        exact .inr ⟨rfl, a, rfl, rfl⟩
  · simp only [read, hc, if_true] at h
    cases (Prod.mk.inj h).1

/-- A read moves the position past what it hands over and sets no mark; it reads the source once or
not at all. -/
theorem read_moved (b : Replay σ) (n : Nat) :
    (b.read n).2.position = b.position + (handedOver (b.read n).1).length ∧
      b.mark.Since (b.read n).2.mark ∧ (b.read n).2.closed = b.closed ∧
      ((b.read n).2.source = b.source ∨
        (b.read n).2.source = (ByteSource.read b.source n).2) := by
  rcases hr : b.read n with ⟨e | got, c⟩
  · have hfailed := failedRead_of_read hr
    obtain ⟨hpos, -, -, hmark, hclosed⟩ := hfailed.frame
    refine ⟨hpos, .inl hmark, hclosed, ?_⟩
    cases hfailed with
    | closed isClosed => exact .inl rfl
    | seek behind failed => exact .inl rfl
    | source level failed => exact .inr (by rw [failed])
    | put level pulled nonempty failed => exact .inr (by rw [pulled])
  · rcases read_ok hr with ⟨rfl, rfl⟩ | ⟨-, a, hf, rfl⟩
    · exact ⟨rfl, .inl rfl, rfl, .inl rfl⟩
    · obtain ⟨hpos, hmark, hclosed, hsource⟩ := fetch_moved hf
      obtain ⟨m, hm, hgive⟩ := a.enforceLimit_frame
      obtain ⟨store, base, hfr⟩ := a.enforceLimit.discardUnreachable_frame
      have hafter : a.afterRead = { a with store, base, mark := m } := by rw [afterRead, hfr, hm]
      rw [hafter]
      refine ⟨hpos, ?_, hclosed, hsource⟩
      rcases hgive with rfl | ⟨p, limit, ha, rfl⟩
      · exact .inl hmark
      · exact .inr ⟨p, limit, _, hmark ▸ ha, rfl⟩

/-- Reads set no mark. -/
theorem isActive_afterReads {b : Replay σ} (h : b.mark.isActive = false) (sizes : List Nat) :
    (ByteSource.afterReads b sizes).mark.isActive = false := by
  induction sizes generalizing b with
  | nil => exact h
  | cons n rest ih =>
    refine ih (Bool.eq_false_iff.2 fun ha => ?_)
    have ha : (b.read n).2.mark.isActive = true := ha
    rw [(read_moved b n).2.1.eq_of_isActive ha, h] at ha
    cases ha

theorem seek_before_base (hopen : b.closed = false) {target : Nat} (ht : target < b.position)
    (hbase : target < b.base) :
    b.seek target = (.error (.misuse (.seekBeforeCache target b.base)), b) := by
  have hclosed : ¬ b.closed = true := by simp [hopen]
  rw [seek, if_neg hclosed, if_neg (Nat.not_le.2 ht), if_pos hbase]

/-- A new buffer over an empty store is in step with its source. -/
theorem New.inStep [SerialSource σ] {source : σ} {b : Replay σ} (h : New source b)
    (hempty : b.store.log = []) : InStep (SerialSource.rest source) b := by
  cases h with
  | ofSettings made => exact .ofSettings made
  | withStore store =>
    exact ⟨⟨⟨rfl, Nat.le_refl 0, Nat.le_refl 0, nofun⟩, rfl, Nat.zero_le _⟩, hempty⟩

end Replay

end StreamLayers
