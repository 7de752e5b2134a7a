import StreamLayers.Proofs.Replay.Spilling

/-!
A replay buffer cannot tell whether its source notes the reads that it is asked for.
-/

namespace StreamLayers

namespace Replay

variable {σ τ : Type}

/-- The buffer over what a function makes of its source. -/
def mapSource (f : σ → τ) (b : Replay σ) : Replay τ :=
  { b with source := ⟨f b.source.inner, b.source.closed⟩ }

section Store

variable (f : σ → τ) (b : Replay σ)

theorem enforceLimit_mapSource : (b.mapSource f).enforceLimit = b.enforceLimit.mapSource f := by
  obtain ⟨_, _, _, position, _, mark, _, _, _⟩ := b
  rcases mark with _ | ⟨p, _ | _ | limit⟩ | _ | ⟨limit, consumed⟩
  case active.bytes =>
    by_cases hover : limit < position - p
    · simp only [enforceLimit, mapSource, hover, if_true]
    · simp only [enforceLimit, mapSource, hover, if_false]
  all_goals rfl

theorem discardUnreachable_mapSource :
    (b.mapSource f).discardUnreachable =
      (b.discardUnreachable.1, b.discardUnreachable.2.mapSource f) := by
  unfold discardUnreachable
  show (if (b.caching || decide (b.position < b.sourcePosition)) = true then _ else _) = _
  split
  · rfl
  · show (if 0 < b.store.writePosition ∨ b.base ≠ b.sourcePosition then _ else _) = _
    split
    · have hrelease : (b.mapSource f).store.release = b.store.release := rfl
      rw [hrelease]
      rcases b.store.release with ⟨e | u, s⟩ <;> rfl
    · rfl

theorem afterRead_mapSource : (b.mapSource f).afterRead = b.afterRead.mapSource f := by
  rw [afterRead, enforceLimit_mapSource, discardUnreachable_mapSource]
  rfl

theorem readStore_mapSource (n : Nat) :
    (b.mapSource f).readStore n = ((b.readStore n).1, (b.readStore n).2.mapSource f) := by
  unfold readStore
  have hseek : (b.mapSource f).store.seek ((b.mapSource f).position - (b.mapSource f).base) =
      b.store.seek (b.position - b.base) := rfl
  rw [hseek]
  rcases b.store.seek (b.position - b.base) with ⟨e | u, s⟩ <;> rfl

theorem keep_mapSource (data : Bytes) :
    (b.mapSource f).keep data = ((b.keep data).1, (b.keep data).2.mapSource f) := by
  unfold keep
  show (if (b.caching && !data.isEmpty) = true then _ else _) = _
  split
  · have hput : (b.mapSource f).store.put data = b.store.put data := rfl
    rw [hput]
    rcases b.store.put data with ⟨e | u, s⟩ <;> rfl
  · rfl

theorem remark_mapSource (limit : MarkLimit) :
    (b.mapSource f).remark limit = ((b.remark limit).1, (b.remark limit).2.mapSource f) := by
  have hunset : Replay.mapSource f { b with mark := .unset } =
      { b.mapSource f with mark := .unset } := rfl
  unfold remark
  rw [← hunset, discardUnreachable_mapSource]
  show (if (!b.retainHistory && b.position == b.sourcePosition) = true then _ else _) = _
  split
  · rcases ({ b with mark := .unset } : Replay σ).discardUnreachable with ⟨e | u, c⟩ <;> rfl
  · rfl

theorem setMark_mapSource (limit : MarkLimit) :
    (b.mapSource f).setMark limit = ((b.setMark limit).1, (b.setMark limit).2.mapSource f) := by
  have hinvalid := discardUnreachable_mapSource f { b with mark := .invalidated }
  unfold setMark
  show (if b.closed = true then _ else _) = _
  split
  · rfl
  · cases limit with
    | unlimited => exact remark_mapSource f b .unlimited
    | invalidate => exact hinvalid
    | bytes n =>
      cases n with
      | zero => exact hinvalid
      | succ n => exact remark_mapSource f b (.bytes (n + 1))

theorem reset_mapSource : (b.mapSource f).reset = (b.reset.1, b.reset.2.mapSource f) := by
  rcases hc : b.closed with _ | _
  · rcases hm : b.mark with _ | ⟨p, limit⟩ | _ | ⟨limit, consumed⟩
    case active =>
      have hactive := reset_active (b := b) hc hm
      have hactive' := reset_active (b := b.mapSource f) hc hm
      rw [hactive, hactive']
      show (if p < b.sourcePosition then _ else _) = _
      split
      · have hseek : (b.mapSource f).store.seek (p - (b.mapSource f).base) =
            b.store.seek (p - b.base) := rfl
        rw [hseek]
        rcases b.store.seek (p - b.base) with ⟨e | u, s⟩ <;> rfl
      · rfl
    all_goals simp [reset, mapSource, hc, hm]
  · simp [reset, mapSource, hc]

end Store

section Source

variable [ByteSource σ] [ByteSource τ] {f : σ → τ}

theorem readSource_mapSource (hf : SourceMap f) (b : Replay σ) (n : Nat) :
    (b.mapSource f).readSource n = ((b.readSource n).1, (b.readSource n).2.mapSource f) := by
  have hread : ByteSource.read (b.mapSource f).source n =
      ((ByteSource.read b.source n).1,
        ⟨f (ByteSource.read b.source n).2.inner, (ByteSource.read b.source n).2.closed⟩) := by
    have hinner := hf.read b.source.inner n
    show ((ByteSource.read (f b.source.inner) n).1,
      (⟨(ByteSource.read (f b.source.inner) n).2, b.source.closed⟩ : Once τ)) = _
    rw [hinner]
    rfl
  unfold readSource
  rw [hread]
  rcases ByteSource.read b.source n with ⟨e | data, s⟩
  · rfl
  · exact keep_mapSource f { b with source := s } data

theorem fetch_mapSource (hf : SourceMap f) (b : Replay σ) (n : Nat) :
    (b.mapSource f).fetch n = ((b.fetch n).1, (b.fetch n).2.mapSource f) := by
  unfold fetch
  show (if b.position < b.sourcePosition then _ else _) = _
  split
  · exact readStore_mapSource f b n
  · exact readSource_mapSource hf b n

theorem read_mapSource (hf : SourceMap f) (b : Replay σ) (n : Nat) :
    (b.mapSource f).read n = ((b.read n).1, (b.read n).2.mapSource f) := by
  rcases hc : b.closed with _ | _
  · rcases Nat.eq_zero_or_pos n with rfl | hn
    · rw [read_zero hc, read_zero (b := b.mapSource f) hc]
    · rw [read_eq_fetch hc hn, read_eq_fetch (b := b.mapSource f) hc hn, fetch_mapSource hf]
      rcases b.fetch n with ⟨e | data, c⟩
      · rfl
      · dsimp only
        rw [afterRead_mapSource]
  · simp [Replay.read, mapSource, hc]

theorem skipTo_mapSource (hf : SourceMap f) (target fuel : Nat) (b : Replay σ) :
    (b.mapSource f).skipTo target fuel =
      ((b.skipTo target fuel).1, (b.skipTo target fuel).2.mapSource f) := by
  induction fuel generalizing b with
  | zero => rfl
  | succ fuel ih =>
    have hread := read_mapSource hf b (min b.readChunk (target - b.position))
    unfold skipTo
    by_cases ht : target ≤ b.position
    · have ht' : target ≤ (b.mapSource f).position := ht
      rw [if_pos ht, if_pos ht']
      rfl
    · have ht' : ¬ target ≤ (b.mapSource f).position := ht
      rw [if_neg ht, if_neg ht']
      change (b.mapSource f).read (min (b.mapSource f).readChunk
        (target - (b.mapSource f).position)) = _ at hread
      rw [hread]
      rcases b.read (min b.readChunk (target - b.position)) with ⟨e | _ | ⟨x, d⟩, c⟩
      · rfl
      · rfl
      · exact ih c

theorem skipSizes_mapSource (hf : SourceMap f) (target fuel : Nat) (b : Replay σ) :
    skipSizes target fuel (b.mapSource f) = skipSizes target fuel b := by
  induction fuel generalizing b with
  | zero => rfl
  | succ fuel ih =>
    have hread := read_mapSource hf b (min b.readChunk (target - b.position))
    unfold skipSizes
    by_cases ht : target ≤ b.position
    · have ht' : target ≤ (b.mapSource f).position := ht
      rw [if_pos ht, if_pos ht']
    · have ht' : ¬ target ≤ (b.mapSource f).position := ht
      rw [if_neg ht, if_neg ht']
      change (b.mapSource f).read (min (b.mapSource f).readChunk
        (target - (b.mapSource f).position)) = _ at hread
      dsimp only
      rw [hread]
      rcases b.read (min b.readChunk (target - b.position)) with ⟨e | _ | ⟨x, d⟩, c⟩
      · rfl
      · rfl
      · exact congrArg (_ :: ·) (ih c)

theorem seek_mapSource (hf : SourceMap f) (b : Replay σ) (target : Nat) :
    (b.mapSource f).seek target = ((b.seek target).1, (b.seek target).2.mapSource f) := by
  have hskip := skipTo_mapSource hf target (target - b.position) b
  obtain ⟨source, store, base, position, sourcePosition, mark, retain, chunk, closed⟩ := b
  unfold Replay.seek
  dsimp only [mapSource] at hskip ⊢
  cases closed with
  | true => rfl
  | false =>
    by_cases hforward : position ≤ target
    · simp only [hforward, if_true]
      exact hskip
    · by_cases hearly : target < base
      · simp only [hforward, hearly, if_true, if_false]
        rfl
      · simp only [hforward, hearly, if_false]
        rcases store.seek (target - base) with ⟨e | u, s⟩ <;> rfl

theorem close_mapSource (hf : SourceMap f) (b : Replay σ) :
    (b.mapSource f).close = (b.close.1, b.close.2.mapSource f) := by
  have hclose := hf.close b.source.inner
  obtain ⟨⟨inner, passed⟩, store, base, position, sourcePosition, mark, retain, chunk, closed⟩ := b
  unfold Replay.close
  dsimp only [mapSource] at hclose ⊢
  cases closed with
  | true => rfl
  | false =>
    cases passed with
    | true => rcases store.release with ⟨e | u, s⟩ <;> rfl
    | false =>
      dsimp only [ByteSource.close]
      rw [hclose]
      rcases ByteSource.close inner with ⟨e | u, s⟩ <;> rfl

theorem readServed_mapSource (hf : SourceMap f) (b : Replay σ) (n : Nat) :
    (b.mapSource f).readServed n = b.readServed n := by
  have hread : (ByteSource.read (b.mapSource f).source n).1 = (ByteSource.read b.source n).1 :=
    congrArg Prod.fst (hf.read b.source.inner n)
  have hcond : ((b.mapSource f).closed || n == 0) = (b.closed || n == 0) := rfl
  unfold readServed
  rw [hcond, fetch_mapSource hf, hread]
  rcases b.fetch n with ⟨e | data, c⟩
  · rfl
  · dsimp only
    rw [enforceLimit_mapSource, discardUnreachable_mapSource]

theorem readsServed_mapSource (hf : SourceMap f) (b : Replay σ) (sizes : List Nat) :
    (b.mapSource f).readsServed sizes = b.readsServed sizes := by
  induction sizes generalizing b with
  | nil => rfl
  | cons n rest ih => rw [readsServed, readsServed, readServed_mapSource hf, read_mapSource hf, ih]

namespace Call

theorem apply_mapSource (hf : SourceMap f) (b : Replay σ) (call : Call) :
    call.apply (b.mapSource f) = (call.apply b).mapSource f := by
  cases call with
  | readFull n => exact congrArg Prod.snd (ByteSource.readFull_map (read_mapSource hf) b n)
  | mark limit => exact congrArg Prod.snd (setMark_mapSource f b limit)
  | reset => exact congrArg Prod.snd (reset_mapSource f b)
  | seek target => exact congrArg Prod.snd (seek_mapSource hf b target)
  | close => exact congrArg Prod.snd (close_mapSource hf b)

theorem served_mapSource (hf : SourceMap f) (b : Replay σ) (call : Call) :
    call.served (b.mapSource f) = call.served b := by
  cases call with
  | readFull n =>
    show (b.mapSource f).readsServed (ByteSource.fullSizes (b.mapSource f) n) = _
    rw [ByteSource.fullSizes_map (read_mapSource hf), readsServed_mapSource hf]
    rfl
  | mark limit =>
    show (b.closed || ((b.mapSource f).setMark limit).1.isOk) = _
    rw [setMark_mapSource]
    rfl
  | reset => rfl
  | seek target =>
    show (decide (target < b.position) ||
      (b.mapSource f).readsServed (skipSizes target (target - b.position) (b.mapSource f))) = _
    rw [skipSizes_mapSource hf, readsServed_mapSource hf]
    rfl
  | close => rfl

end Call

theorem afterCalls_mapSource (hf : SourceMap f) (b : Replay σ) (calls : List Call) :
    (b.mapSource f).afterCalls calls = (b.afterCalls calls).mapSource f := by
  induction calls generalizing b with
  | nil => rfl
  | cons call rest ih =>
    show (call.apply (b.mapSource f)).afterCalls rest = ((call.apply b).afterCalls rest).mapSource f
    rw [Call.apply_mapSource hf, ih]

theorem callsServed_mapSource (hf : SourceMap f) (b : Replay σ) (calls : List Call) :
    (b.mapSource f).callsServed calls = b.callsServed calls := by
  induction calls generalizing b with
  | nil => rfl
  | cons call rest ih =>
    rw [callsServed, callsServed, Call.served_mapSource hf, Call.apply_mapSource hf, ih]

end Source

/-- The buffer over a source that notes the reads it is asked for. -/
def traced (b : Replay σ) : Replay (Traced σ) :=
  { b with source := ⟨⟨b.source.inner, []⟩, b.source.closed⟩ }

theorem Twins.traced {b c : Replay σ} (t : Twins b c) : Twins b.traced c.traced := by
  have hsource : b.traced.source = c.traced.source := by
    show (⟨⟨b.source.inner, []⟩, b.source.closed⟩ : Once (Traced σ)) = _
    rw [t.source_eq]
    rfl
  exact { t with source_eq := hsource }

theorem Tight.traced {b : Replay σ} (h : Tight b) : Tight b.traced := { h with }

variable [ByteSource σ]

theorem callsServed_traced (b : Replay σ) (calls : List Call) :
    b.traced.callsServed calls = b.callsServed calls :=
  (callsServed_mapSource sourceMap_inner b.traced calls).symm

/-- The source that notes its reads goes along with the one that does not. -/
theorem afterCalls_traced (b : Replay σ) (calls : List Call) :
    (b.traced.afterCalls calls).mapSource Traced.inner = b.afterCalls calls :=
  (afterCalls_mapSource sourceMap_inner b.traced calls).symm

/-- The sizes of the reads that the calls ask the source for. -/
def sourceReads (b : Replay σ) (calls : List Call) : List Nat :=
  (b.traced.afterCalls calls).source.inner.sizes

omit [ByteSource σ] in
theorem Paired.traced {b c : Replay σ} (h : Paired b c) : Paired b.traced c.traced :=
  ⟨h.twins.traced, fun hopen => (h.tight hopen).traced⟩

theorem Paired.sourceReads {b c : Replay σ} (h : Paired b c) {calls : List Call}
    (hb : b.callsServed calls = true) (hc : c.callsServed calls = true) :
    b.sourceReads calls = c.sourceReads calls := by
  have hb' := (callsServed_traced b calls).trans hb
  have hc' := (callsServed_traced c calls).trans hc
  obtain ⟨-, hend⟩ := h.traced.calls hb' hc'
  exact congrArg (fun s : Once (Traced σ) => s.inner.sizes) hend.twins.source_eq

/-- Spilling is unobservable: two buffers over one source whose settings differ in the store alone
answer every sequence of calls alike, show the same of themselves after each, and ask the source
for the same reads, as long as no operation of a store fails. -/
theorem spilling_unobservable {source : σ} {c₁ c₂ : Settings} {present₁ present₂ : Bool}
    {b₁ b₂ : Replay σ} {calls : List Call} (hretain : c₁.retainHistory = c₂.retainHistory)
    (hchunk : c₁.readChunk = c₂.readChunk) (h₁ : ofSettings source c₁ present₁ = .ok b₁)
    (h₂ : ofSettings source c₂ present₂ = .ok b₂) (hs₁ : b₁.callsServed calls = true)
    (hs₂ : b₂.callsServed calls = true) :
    b₁.transcript calls = b₂.transcript calls ∧ b₁.sourceReads calls = b₂.sourceReads calls := by
  have hpaired := Paired.ofSettings hretain hchunk h₁ h₂
  exact ⟨(hpaired.calls hs₁ hs₂).1, hpaired.sourceReads hs₁ hs₂⟩

/-- In memory a replayed read gets five bytes where the spilling store stops at the end of its file,
and yet the full reads, the limit that is broken on the way and the reads of the source agree. -/
theorem spilling_unobservable_boundary :
    let source : MockSource :=
      { rest := [1, 2, 3, 4, 5, 6, 7, 8, 9], maxRead := some 4, failAt := some 8 }
    let c₁ : Settings := { threshold := none, readChunk := 3 }
    let c₂ : Settings := { threshold := some 2, readChunk := 3 }
    let b₁ : Replay MockSource := { withStore source (c₁.store.build true) with readChunk := 3 }
    let b₂ : Replay MockSource := { withStore source (c₂.store.build true) with readChunk := 3 }
    let calls : List Call :=
      [.mark .unlimited, .readFull 4, .readFull 1, .reset, .seek 0, .mark (.bytes 3), .readFull 5,
        .reset, .seek 7, .seek 2, .readFull 2, .close, .seek 0]
    Replay.ofSettings source c₁ true = .ok b₁ ∧ Replay.ofSettings source c₂ true = .ok b₂ ∧
      b₁.callsServed calls = true ∧ b₂.callsServed calls = true ∧
      ByteSource.reads (b₁.afterCalls (calls.take 4)) [5] = [1, 2, 3, 4, 5] ∧
      ByteSource.reads (b₂.afterCalls (calls.take 4)) [5] = [1, 2, 3, 4] ∧
      b₁.transcript calls = b₂.transcript calls ∧ b₁.sourceReads calls = [4, 1, 2, 2, 1] ∧
      b₂.sourceReads calls = [4, 1, 2, 2, 1] := by
  intro source c₁ c₂ b₁ b₂ calls
  have h₁ : Replay.ofSettings source c₁ true = .ok b₁ := rfl
  have h₂ : Replay.ofSettings source c₂ true = .ok b₂ := rfl
  have hs₁ : b₁.callsServed calls = true := by decide +kernel
  have hs₂ : b₂.callsServed calls = true := by decide +kernel
  have hwhole : ByteSource.reads (b₁.afterCalls (calls.take 4)) [5] = [1, 2, 3, 4, 5] := by
    decide +kernel
  have hshort : ByteSource.reads (b₂.afterCalls (calls.take 4)) [5] = [1, 2, 3, 4] := by
    decide +kernel
  have hread : b₁.sourceReads calls = [4, 1, 2, 2, 1] := by decide +kernel
  have hretain : c₁.retainHistory = c₂.retainHistory := rfl
  have hchunk : c₁.readChunk = c₂.readChunk := rfl
  obtain ⟨hsame, hreads⟩ := spilling_unobservable hretain hchunk h₁ h₂ hs₁ hs₂
  exact ⟨h₁, h₂, hs₁, hs₂, hwhole, hshort, hsame, hread, hreads.symm.trans hread⟩

end Replay

end StreamLayers
