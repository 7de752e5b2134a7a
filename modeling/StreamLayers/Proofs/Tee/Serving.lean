import StreamLayers.Proofs.Layers

/-!
A tee over a source that may fail behind its data. As long as its sinks take what they are offered
it serves what its source does, and each of them has got what it has handed out; behind the end of
the data it can be closed.
-/

namespace StreamLayers.Tee

open ByteSource

variable {κ σ : Type} [ByteSink κ]

/-- What lets go of a sink. -/
def release (closeSinks : Bool) (k : κ) : Except Fault Unit × κ :=
  if closeSinks then ByteSink.close k else ByteSink.flush k

theorem ended_eq (closeSinks : Bool) (o : Outlet κ) :
    o.ended closeSinks = { o with sink := (release closeSinks o.sink).2 } := rfl

theorem closeOutlets_of_ok {closeSinks : Bool} {outlets : List (Outlet κ)}
    (h : ∀ o ∈ outlets, (release closeSinks o.sink).1 = .ok ()) (index : Nat) :
    (closeOutlets closeSinks index outlets).1 = none := by
  induction outlets generalizing index with
  | nil => rfl
  | cons o rest ih =>
    obtain ⟨hfirst, hrest⟩ := List.forall_mem_cons.1 h
    have hlater := ih hrest (index + 1)
    unfold closeOutlets
    rcases hr : closeOutlets closeSinks (index + 1) rest with ⟨later, rest'⟩
    rw [hr] at hlater
    unfold release at hfirst
    rcases hk : (if closeSinks then ByteSink.close o.sink else ByteSink.flush o.sink) with
      ⟨e | u, k⟩ <;> rw [hk] at hfirst
    · cases hfirst
    · exact hlater

/-- A tee at the front of its source. -/
def ofSinks (source : σ) (sinks : List κ) (c : Settings) : Tee κ σ :=
  { source, outlets := sinks.map ({ sink := · }), settings := c }

omit [ByteSink κ] in
theorem ofSettings_of_valid {c : Settings} (hvalid : c.validate = .ok ()) (source : σ)
    {sinks : List κ} (hsome : sinks ≠ []) :
    ofSettings source sinks c = .ok (ofSinks source sinks c) := by
  have hne : ¬ sinks.isEmpty = true := by simpa using hsome
  rw [ofSettings, hvalid]
  exact if_neg hne

/-- A tee with `data` still to hand out, which has written what it has handed out of `all` to every
one of its sinks. `R` says of its source what is left there. -/
structure Forwards (R : σ → Bytes → Prop) (sinks : List κ) (c : Settings) (all : Bytes)
    (t : Tee κ σ) (data : Bytes) : Prop where
  isOpen : t.closed = false
  settings_eq : t.settings = c
  level : t.destinationPosition = t.sourcePosition
  source : R t.source data
  written : ∃ blocks, [] ∉ blocks ∧ all = blocks.flatten ++ data ∧
    t.outlets = sinks.map fun k => { sink := afterWrites ByteSink.writeAll k blocks }
  takes : ∀ o ∈ t.outlets, o.enabled = true → Takes ByteSink.writeAll o.sink data

section Reading

variable {R : σ → Bytes → Prop} {sinks : List κ} {c : Settings} {all got rest data : Bytes}
  {t : Tee κ σ} {failure : Option Fault}

theorem Forwards.pass (h : Forwards R sinks c all t (got ++ rest)) (hgot : got ≠ []) {s : σ}
    (next : R s rest) : (({ t with source := s } : Tee κ σ).pass got).1 = none ∧
      Forwards R sinks c all (({ t with source := s } : Tee κ σ).pass got).2 rest := by
  obtain ⟨hpass, htakes⟩ := pass_of_takes (t := { t with source := s }) hgot h.level h.takes
  obtain ⟨blocks, hsome, hall, houtlets⟩ := h.written
  have hwritten : t.outlets.map (Outlet.offered got) =
      sinks.map fun k => { sink := afterWrites ByteSink.writeAll k (blocks ++ [got]) } := by
    rw [houtlets]
    simp [Function.comp_def, Outlet.offered, afterWrites]
  rw [hpass]
  constructor
  · rfl
  · exact { h with
      level := rfl
      source := next
      written := ⟨blocks ++ [got], by simp [hsome, hgot.symm], by simp [hall], hwritten⟩
      takes := htakes }

variable [ByteSource σ]

theorem Forwards.read (hserves : Serves R failure) (h : Forwards R sinks c all t data) {n : Nat}
    (hn : 0 < n) : Serving (Forwards R sinks c all) failure data n (t.read n) := by
  have hread := hserves.read t.source data n h.source hn
  have hrelayed := relayed_read h.isOpen n
  generalize t.read n = r at hrelayed ⊢
  cases hrelayed with
  | failed source =>
    rw [source] at hread
    cases hread with
    | failed used broken next =>
      subst used
      exact .failed rfl broken { h with source := next }
  | ended source =>
    rw [source] at hread
    cases hread with
    | ended used sound next =>
      subst used
      exact .ended rfl sound { h with source := next }
    | more eq some fits next => exact absurd rfl some
  | passed source pass =>
    rw [source] at hread
    cases hread with
    | more eq some fits next =>
      subst eq
      have hnext := (h.pass some next).2
      rw [pass] at hnext
      exact .more rfl some fits hnext
  | refused source pass =>
    rw [source] at hread
    cases hread with
    | more eq some fits next =>
      subst eq
      -- No sink fails at what it takes.
      have hnone := (h.pass some next).1
      rw [pass] at hnone
      cases hnone

/-- A tee serves what its source does, and forwards it. -/
theorem serves_forwards (hserves : Serves R failure) (sinks : List κ) (c : Settings) (all : Bytes) :
    Serves (Forwards R sinks c all) failure where
  read _ _ _ h hn := h.read hserves hn
  left t data h := hserves.left t.source data h.source

omit [ByteSource σ] in
theorem forwards_ofSinks {source : σ} (h : R source all)
    (htakes : ∀ k ∈ sinks, Takes ByteSink.writeAll k all) :
    Forwards R sinks c all (ofSinks source sinks c) all where
  isOpen := rfl
  settings_eq := rfl
  level := rfl
  source := h
  written := ⟨[], by simp, rfl, rfl⟩
  takes o ho _ := by
    obtain ⟨k, hk, rfl⟩ := List.mem_map.1 ho
    exact htakes k hk

/-- Whatever its sinks do, a tee over a source that fails in the end does not tell of an end. -/
theorem going_of_broken {e : Fault} (hserves : Serves R (some e)) (hopen : t.closed = false)
    (hsource : R t.source data) {n : Nat} (hn : 0 < n) :
    Going (fun (t : Tee κ σ) d => t.closed = false ∧ R t.source d) data (t.read n) := by
  have hread := hserves.read t.source data n hsource hn
  have hrelayed := relayed_read hopen n
  generalize t.read n = r at hrelayed ⊢
  cases hrelayed with
  | failed source => exact .failed
  | refused source pass => exact .failed
  | ended source =>
    rw [source] at hread
    cases hread with
    | ended used sound next => cases sound
    | more eq some fits next => exact absurd rfl some
  | @passed b d s u source pass =>
    rw [source] at hread
    cases hread with
    | more eq some fits next =>
      have hstays := pass_closed ({ t with source := s } : Tee κ σ) (b :: d)
      have hkept := pass_source ({ t with source := s } : Tee κ σ) (b :: d)
      rw [pass] at hstays hkept
      refine .more eq some ⟨hstays.trans hopen, ?_⟩
      rw [show u.source = s from hkept]
      exact next

/-- Whoever is told of the end by an open tee was told by its source. -/
theorem source_read_of_told {u : Tee κ σ} {n : Nat} (hopen : t.closed = false)
    (h : t.read n = (.ok [], u)) : ByteSource.read t.source n = (.ok [], u.source) := by
  have hrelayed := relayed_read hopen n
  rw [h] at hrelayed
  cases hrelayed with
  | ended source => exact source

end Reading

section Closing

variable [ByteSource σ] {t : Tee κ σ} {Q : σ → Prop}

/-- Draining a source that has ended gets nothing. -/
theorem drain_of_dry
    (hdry : ∀ s n, Q s → 0 < n → ∃ s', ByteSource.read s n = (.ok [], s') ∧ Q s')
    (hvalid : t.settings.validate = .ok ()) (hq : Q t.source) :
    ∃ s, Q s ∧ t.drain = (none, { t with source := s }) := by
  unfold drain
  split
  · rename_i hdrains
    have hpos : 0 < t.settings.drainChunk := by
      rcases Nat.eq_zero_or_pos t.settings.drainChunk with hz | hpos
      · simp [Settings.validate, hdrains, hz] at hvalid
      · exact hpos
    obtain ⟨s, hread, hs⟩ := hdry t.source _ hq hpos
    refine ⟨s, hs, ?_⟩
    unfold drainFrom passThrough
    rw [hread]
    rfl
  · exact ⟨t.source, hq, rfl⟩

/-- Behind the end of the data, a tee lets go of its source and of its sinks, and nothing else. -/
theorem close_of_dry
    (hdry : ∀ s n, Q s → 0 < n → ∃ s', ByteSource.read s n = (.ok [], s') ∧ Q s')
    (hclose : ∀ s, Q s → (ByteSource.close s).1 = .ok ())
    (hopen : t.closed = false) (hvalid : t.settings.validate = .ok ()) (hq : Q t.source)
    (hrelease : ∀ o ∈ t.outlets, (release t.settings.closeSinks o.sink).1 = .ok ()) :
    ∃ s, Q s ∧ t.close = (.ok (), { t with
      closed := true
      source := (ByteSource.close s).2
      outlets := t.outlets.map (Outlet.ended t.settings.closeSinks) }) := by
  obtain ⟨s, hs, hdrain⟩ := drain_of_dry (t := { t with closed := true }) hdry hvalid hq
  refine ⟨s, hs, ?_⟩
  have hclosed : ¬ t.closed = true := by simp [hopen]
  have hsource : ByteSource.close s = (.ok (), (ByteSource.close s).2) := Prod.ext (hclose s hs) rfl
  have houtlets : closeOutlets t.settings.closeSinks 0 t.outlets =
      (none, t.outlets.map (Outlet.ended t.settings.closeSinks)) :=
    Prod.ext (closeOutlets_of_ok hrelease 0) (closeOutlets_outlets _ 0 _)
  unfold Tee.close
  rw [if_neg hclosed, hdrain]
  dsimp only
  rw [hsource, houtlets]
  rfl

end Closing

end StreamLayers.Tee
