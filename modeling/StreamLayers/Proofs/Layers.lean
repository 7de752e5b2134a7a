import StreamLayers.Proofs.Marker.Serving
import StreamLayers.Proofs.Replay
import StreamLayers.Proofs.Tee
import StreamLayers.Stack

/-!
What every layer makes of a source that yields data: a marker source yields what is extracted from
it, the others the data itself.
-/

namespace StreamLayers

variable {κ σ : Type} [ByteSource σ] {data : Bytes}

namespace ThresholdStore

theorem appendToFile_of_exists {s : ThresholdStore} (h : s.directoryExists = true) (d : Bytes) :
    (s.appendToFile d).1 = .ok () ∧ (s.appendToFile d).2.directoryExists = true := by
  unfold appendToFile
  split
  · exact ⟨rfl, h⟩
  · rw [if_pos h]
    exact ⟨rfl, h⟩

theorem put_of_exists {s : ThresholdStore} (h : s.directoryExists = true) (d : Bytes) :
    (s.put d).1 = .ok () ∧ (s.put d).2.directoryExists = true := by
  have hspill : s.spillMemory.1 = .ok () ∧ s.spillMemory.2.directoryExists = true := by
    unfold spillMemory
    split
    · exact ⟨rfl, h⟩
    · exact appendToFile_of_exists (s := { s with memory := {} }) h s.memory.toList
  unfold put
  split
  · rcases hm : s.spillMemory with ⟨e | u, t⟩ <;> rw [hm] at hspill
    · cases hspill.1
    · dsimp only
      split
      · exact appendToFile_of_exists hspill.2 d
      · exact ⟨rfl, hspill.2⟩
  · exact ⟨rfl, h⟩

end ThresholdStore

/-- A store that can make its files takes everything, whatever its settings. -/
theorem Store.takes_build (c : Store.Settings) (data : Bytes) : Takes Store.put (c.build true) data := by
  unfold Store.Settings.build
  split
  · apply Takes.of_invariant (Q := fun s : Store =>
      ∃ t : ThresholdStore, s = .threshold t ∧ t.directoryExists = true)
    · rintro _ d ⟨t, rfl, ht⟩
      obtain ⟨hok, hnext⟩ := ThresholdStore.put_of_exists ht d
      exact ⟨hok, _, rfl, hnext⟩
    · exact ⟨_, rfl, rfl⟩
  · apply Takes.of_invariant (Q := fun s : Store => ∃ t : MemoryStore, s = .memory t)
    · rintro _ d ⟨t, rfl⟩
      exact ⟨rfl, _, rfl⟩
    · exact ⟨_, rfl⟩

theorem PlainSink.absorbs (k : PlainSink) (h : k.fault = none) (data : Bytes) : Absorbs k data := by
  refine ⟨Takes.of_invariant (Q := fun k : PlainSink => k.fault = none) ?_ h data, fun _ _ _ => rfl⟩
  intro k d h
  have hwrite : ByteSink.writeAll k d = (.ok (), { k with accepted := k.accepted.append d }) := by
    simp only [ByteSink.writeAll, h]
  rw [hwrite]
  exact ⟨rfl, h⟩

theorem Once.yields {g : Once σ} (h : Yields g.inner data) : Yields g data :=
  h.of_map (fun _ _ => rfl) fun _ => rfl

theorem Shield.yields {g : Shield σ} (h : Yields g.inner data) : Yields g data :=
  h.of_map (fun _ _ => rfl) fun _ => rfl

theorem Probe.yields {p : Probe σ} (hopen : p.closed = false) (h : Yields p.source data) :
    Yields p data := by
  apply Yields.of_invariant (R := fun (p : Probe σ) d => p.closed = false ∧ Yields p.source d)
  · rintro p d n ⟨hopen, h⟩ hn
    have hread := h.read hn
    have hclosed : ¬ p.closed = true := by simp [hopen]
    show Handing _ d n (p.read n)
    rw [Probe.read, if_neg hclosed]
    generalize ByteSource.read p.source n = q at hread ⊢
    cases hread with
    | ok eq fits ends next => exact .ok eq fits ends ⟨hopen, next⟩
  · exact fun p d h => h.2.length_le
  · exact ⟨hopen, h⟩

namespace Tee

variable [ByteSink κ]

/-- A tee whose sinks are where it is itself, and take what is still to come. -/
structure Open (t : Tee κ σ) (data : Bytes) : Prop where
  isOpen : t.closed = false
  level : t.destinationPosition = t.sourcePosition
  yields : Yields t.source data
  takes : ∀ o ∈ t.outlets, o.enabled = true → Takes ByteSink.writeAll o.sink data

theorem forward_of_takes {outlets : List (Outlet κ)} {got rest : Bytes} (hgot : got ≠ [])
    (h : ∀ o ∈ outlets, o.enabled = true → Takes ByteSink.writeAll o.sink (got ++ rest))
    (index : Nat) :
    (forward got index outlets).1 = none ∧
      ∀ o ∈ (forward got index outlets).2, o.enabled = true →
        Takes ByteSink.writeAll o.sink rest := by
  induction outlets generalizing index with
  | nil => exact ⟨rfl, nofun⟩
  | cons o outlets ih =>
    obtain ⟨hfirst, hmore⟩ := List.forall_mem_cons.1 h
    obtain ⟨hnone, hrest⟩ := ih hmore (index + 1)
    unfold forward
    rcases hf : forward got (index + 1) outlets with ⟨later, outlets'⟩
    rw [hf] at hnone hrest
    cases ho : o.enabled with
    | false =>
      refine ⟨hnone, List.forall_mem_cons.2 ⟨fun hon => ?_, hrest⟩⟩
      rw [ho] at hon
      cases hon
    | true =>
      obtain ⟨hok, htakes⟩ := (hfirst ho).step hgot
      rcases hw : ByteSink.writeAll o.sink got with ⟨e | u, k⟩
      · rw [hw] at hok
        cases hok
      · rw [hw] at htakes
        exact ⟨hnone, List.forall_mem_cons.2 ⟨fun _ => htakes, hrest⟩⟩

omit [ByteSource σ] in
/-- A tee whose sinks are where it is itself offers them all of what it passes, and what they take
does not make it fail. -/
theorem pass_of_takes {t : Tee κ σ} {got rest : Bytes} (hgot : got ≠ [])
    (hlevel : t.destinationPosition = t.sourcePosition)
    (h : ∀ o ∈ t.outlets, o.enabled = true → Takes ByteSink.writeAll o.sink (got ++ rest)) :
    t.pass got = (none, { t with
        sourcePosition := t.sourcePosition + got.length
        destinationPosition := t.sourcePosition + got.length
        outlets := t.outlets.map (Outlet.offered got) }) ∧
      ∀ o ∈ t.outlets.map (Outlet.offered got), o.enabled = true →
        Takes ByteSink.writeAll o.sink rest := by
  obtain ⟨hnone, htakes⟩ := forward_of_takes hgot h 0
  rw [forward_outlets] at htakes
  have hforward : forward got 0 t.outlets = (none, t.outlets.map (Outlet.offered got)) :=
    Prod.ext hnone (forward_outlets got 0 t.outlets)
  have hpos := List.length_pos_iff.2 hgot
  have hnew : t.sourcePosition < t.sourcePosition + got.length := by omega
  constructor
  · simp [pass, hlevel, hnew, hforward]
  · exact htakes

theorem Open.handing {t : Tee κ σ} {d : Bytes} (h : Open t d) {n : Nat} (hn : 0 < n) :
    Handing Open d n (t.read n) := by
  have hread := h.yields.read hn
  have hrelayed := relayed_read h.isOpen n
  generalize t.read n = r at hrelayed ⊢
  cases hrelayed with
  | failed source =>
    rw [source] at hread
    cases hread
  | ended source =>
    rw [source] at hread
    cases hread with
    | ok eq fits ends next =>
      obtain rfl := ends rfl
      obtain rfl := List.append_eq_nil_iff.1 eq.symm |>.2
      exact .ok rfl fits ends { h with yields := next }
  | @passed b bytes s u source pass =>
    rw [source] at hread
    cases hread with
    | ok eq fits ends next =>
      subst eq
      obtain ⟨hpass, htakes⟩ :=
        pass_of_takes (t := { t with source := s }) (List.cons_ne_nil b bytes) h.level h.takes
      rw [pass] at hpass
      cases hpass
      exact .ok rfl fits ends ⟨h.isOpen, rfl, next, htakes⟩
  | @refused b bytes s e u source pass =>
    rw [source] at hread
    cases hread with
    | ok eq fits ends next =>
      subst eq
      -- No sink fails at what it takes.
      obtain ⟨hpass, -⟩ :=
        pass_of_takes (t := { t with source := s }) (List.cons_ne_nil b bytes) h.level h.takes
      rw [pass] at hpass
      cases hpass

theorem yields {t : Tee κ σ} (h : Open t data) : Yields t data :=
  .of_invariant (fun _ _ _ h hn => h.handing hn) (fun _ _ h => h.yields.length_le) h

end Tee

namespace Replay

/-- A buffer with nothing to replay, whose store takes what it has to keep. -/
structure Direct (b : Replay σ) (data : Bytes) : Prop where
  isOpen : b.closed = false
  level : b.position = b.sourcePosition
  yields : Yields b.source data
  takes : b.caching = true → Takes Store.put b.store data

omit [ByteSource σ] in
theorem afterRead_frame (b : Replay σ) :
    b.afterRead.source = b.source ∧ b.afterRead.closed = b.closed ∧
      b.afterRead.position = b.position ∧ b.afterRead.sourcePosition = b.sourcePosition ∧
      (b.afterRead.caching = true → b.caching = true ∧ b.afterRead.store = b.store) := by
  obtain ⟨m, hlimit, hm⟩ := b.enforceLimit_frame
  obtain ⟨store, base, hdiscard⟩ := b.enforceLimit.discardUnreachable_frame
  have hafter : b.afterRead = { b with mark := m, store, base } := by
    rw [afterRead, hdiscard, hlimit]
  refine ⟨by rw [hafter], by rw [hafter], by rw [hafter], by rw [hafter], fun hc => ?_⟩
  have hc' : b.enforceLimit.caching = true := by
    rw [hafter] at hc
    rw [hlimit]
    exact hc
  have hkept : b.afterRead = b.enforceLimit := by
    rw [afterRead, discardUnreachable, hc']
    rfl
  refine ⟨?_, by rw [hkept, hlimit]⟩
  rw [hlimit] at hc'
  rcases hm with rfl | ⟨p, limit, hactive, rfl⟩
  · exact hc'
  · simp [caching, hactive, MarkState.isActive]

/-- What is kept or not is the same to the reader. -/
theorem Direct.keep {b : Replay σ} {got rest : Bytes} {s : Once σ} (h : Direct b (got ++ rest))
    (next : Yields s rest) :
    ∃ c, ({ b with source := s } : Replay σ).keep got = (.ok got, c) ∧ Direct c rest := by
  have hlevel := congrArg (· + got.length) h.level
  unfold Replay.keep
  by_cases hk : (b.caching && !got.isEmpty) = true
  · have hk' : (({ b with source := s } : Replay σ).caching && !got.isEmpty) = true := hk
    obtain ⟨hc, hgot⟩ : b.caching = true ∧ got ≠ [] := by simpa using hk
    obtain ⟨hok, htakes⟩ := (h.takes hc).step hgot
    rw [if_pos hk']
    dsimp only
    rcases hp : b.store.put got with ⟨e | u, store⟩ <;> rw [hp] at hok htakes
    · cases hok
    · exact ⟨_, rfl, h.isOpen, hlevel, next, fun _ => htakes⟩
  · have hk' : ¬ (({ b with source := s } : Replay σ).caching && !got.isEmpty) = true := hk
    rw [if_neg hk']
    refine ⟨_, rfl, h.isOpen, hlevel, next, fun hc => ?_⟩
    have hc : b.caching = true := hc
    obtain rfl : got = [] := by simpa [hc] using hk
    exact h.takes hc

theorem Direct.handing {b : Replay σ} {d : Bytes} (h : Direct b d) {n : Nat} (hn : 0 < n) :
    Handing Direct d n (b.read n) := by
  have hsource : ¬ b.position < b.sourcePosition := by
    rw [h.level]
    exact Nat.lt_irrefl _
  have hread := h.yields.read hn
  rw [read_eq_fetch h.isOpen hn, fetch, if_neg hsource, readSource]
  generalize ByteSource.read b.source n = q at hread ⊢
  cases hread with
  | @ok got rest s eq fits ends next =>
    obtain ⟨c, hc, hdirect⟩ := Direct.keep (eq ▸ h) next
    obtain ⟨hsource, hclosed, hpos, hpulled, hstore⟩ := c.afterRead_frame
    simp only [hc]
    refine .ok eq fits ends ⟨hclosed.trans hdirect.isOpen, ?_, hsource ▸ hdirect.yields, ?_⟩
    · rw [hpos, hpulled, hdirect.level]
    · intro hcaching
      obtain ⟨hbefore, hsame⟩ := hstore hcaching
      rw [hsame]
      exact hdirect.takes hbefore

theorem yields {b : Replay σ} (h : Direct b data) : Yields b data := by
  refine .of_invariant (fun _ _ _ h hn => h.handing hn) (fun b d h => ?_) h
  have hlen := h.yields.length_le
  have hleft : ByteSource.left b = (b.sourcePosition - b.position) + ByteSource.left b.source := rfl
  omega

end Replay

namespace Marker

/-- An open marker source: what it still hands out depends on what its source still yields. -/
structure Owes (m : Marker σ) (rest data : Bytes) : Prop where
  isOpen : m.closed = false
  yields : Yields m.source rest
  pending : data = m.scanner.output (m.input ++ rest)

variable {m : Marker σ} {rest : Bytes}

theorem Owes.relays (h : Owes m rest data) : Relays Yields none none m rest data where
  isOpen := h.isOpen
  source := h.yields
  passes := h.pending.trans (Scanner.passes_sound (ite_self none)).symm
  ends := ite_self none

theorem yields (h : Owes m rest data) : Yields m data :=
  (serves_relaying serves_yields none).yields ⟨rest, h.relays⟩

end Marker

end StreamLayers
