import StreamLayers.Proofs.Replay.Run
import StreamLayers.Proofs.Tee
import StreamLayers.Proofs.Tee.Ledger

/-!
What passes through a tee is entered in its books and forwarded alike, wherever the positions are
below the furthest one reached.
-/

namespace StreamLayers

namespace Tee

variable {κ σ τ : Type}

/-- Whether the store under a tee did what passes of the size of a drain asked of it. -/
def passChunksServed [ByteSource τ] [ByteSink κ] : Nat → Tee κ (Replay τ) → Bool
  | 0, _ => true
  | k + 1, t => t.source.readServed t.settings.drainChunk && passChunksServed k t.passChunk

/-- A tee whose buffer is in step, and which agrees with the buffer about where it is. -/
structure Synced [ByteSource τ] [SerialSource τ] (data : Bytes) (t : Tee κ (Replay τ)) : Prop where
  inStep : Replay.InStep data t.source
  position_eq : t.sourcePosition = t.source.position
  mark_eq : ∀ p limit, t.source.mark = .active p limit → t.markPosition = some p

/-- A tee over `data` whose sinks hold what the books say. -/
structure Settled (data : Bytes) (t : Tee (Observed κ) σ) (l : Ledger) : Prop where
  destination_eq : t.destinationPosition = l.top
  position_le : t.sourcePosition ≤ l.top
  mark_le : ∀ p, t.markPosition = some p → p ≤ l.top
  top_le : l.top ≤ data.length
  length_listening : l.listening.length = l.top
  length_joined : l.joined.length = t.outlets.length
  joined_le : ∀ a ∈ l.joined, a ≤ l.top
  held : ∀ (k : Nat) o a, t.outlets[k]? = some o → l.joined[k]? = some a →
    o.sink.refused = false → o.sink.accepted = l.heard data k a

/-- Where a tee is below the top, there is nothing to enter. -/
theorem Settled.note_eq {data : Bytes} {t : Tee (Observed κ) σ} {l : Ledger} (h : Settled data t l)
    (flags : List Bool) : l.note flags t.sourcePosition = l :=
  Ledger.note_of_le h.position_le

/-- The books do not depend on the source, nor on where a tee is below the top. -/
theorem Settled.move {data : Bytes} {t : Tee (Observed κ) σ} {l : Ledger} (h : Settled data t l)
    {σ' : Type} {u : Tee (Observed κ) σ'} (ho : u.outlets = t.outlets)
    (hd : u.destinationPosition = t.destinationPosition) (hp : u.sourcePosition ≤ l.top)
    (hm : ∀ p, u.markPosition = some p → p ≤ l.top) : Settled data u l where
  destination_eq := hd.trans h.destination_eq
  position_le := hp
  mark_le := hm
  top_le := h.top_le
  length_listening := h.length_listening
  length_joined := ho ▸ h.length_joined
  joined_le := h.joined_le
  held := ho ▸ h.held

/-- The books do not depend on anything about an outlet but what its writes came to. -/
theorem Settled.withOutlets {data : Bytes} {t : Tee (Observed κ) σ} {l : Ledger}
    (h : Settled data t l) {outlets : List (Outlet (Observed κ))}
    (hlen : outlets.length = t.outlets.length)
    (ho : ∀ (k : Nat) o, outlets[k]? = some o → ∃ old, t.outlets[k]? = some old ∧
      o.sink.accepted = old.sink.accepted ∧ o.sink.refused = old.sink.refused) :
    Settled data { t with outlets } l where
  destination_eq := h.destination_eq
  position_le := h.position_le
  mark_le := h.mark_le
  top_le := h.top_le
  length_listening := h.length_listening
  length_joined := h.length_joined.trans hlen.symm
  joined_le := h.joined_le
  held k o a hk ha hr := by
    obtain ⟨old, hold, haccepted, hrefused⟩ := ho k o hk
    rw [haccepted]
    exact h.held k old a hold ha (hrefused ▸ hr)

theorem fresh_eq {data : Bytes} {t : Tee (Observed κ) σ} {l : Ledger} (h : Settled data t l)
    {got : Bytes} (hgot : got <+: data.drop t.sourcePosition) :
    t.fresh got = (data.take (t.sourcePosition + got.length)).drop l.top := by
  have hcut : got = (data.take (t.sourcePosition + got.length)).drop t.sourcePosition := by
    rw [List.drop_take, Nat.add_sub_cancel_left]
    exact List.prefix_iff_eq_take.1 hgot
  have hsum : t.sourcePosition + (l.top - t.sourcePosition) = l.top :=
    Nat.add_sub_cancel' h.position_le
  -- The cut would be at the wrong byte if the position could be past the top.
  rw [fresh, h.destination_eq]
  conv =>
    lhs
    rw [hcut]
  rw [List.drop_drop, hsum]

section Passes

variable [ByteSink κ] [ByteSource τ] [SerialSource τ] {data : Bytes}

theorem held_offered {t : Tee (Observed κ) σ} {l : Ledger} (h : Settled data t l) {k a : Nat}
    {o : Outlet (Observed κ)} (ho : t.outlets[k]? = some o) (ha : l.joined[k]? = some a)
    {position : Nat}
    (hr : (o.offered ((data.take position).drop l.top)).sink.refused = false) :
    (o.offered ((data.take position).drop l.top)).sink.accepted =
      (l.note t.flags position).heard data k a := by
  have hflag : t.flags[k]? = some o.enabled := by
    rw [flags, List.getElem?_map, ho]
    rfl
  have hjoined := h.joined_le a (List.mem_of_getElem? ha)
  rw [Ledger.heard_note h.length_listening h.top_le hjoined, hflag]
  unfold Outlet.offered at hr ⊢
  by_cases hon : o.enabled = true
  · rw [if_pos hon] at hr ⊢
    obtain ⟨hclean, haccepted⟩ := Observed.accepted_writeAll _ _ hr
    rw [haccepted, h.held k o a ho ha hclean, if_pos (congrArg some hon)]
  · rw [if_neg hon] at hr ⊢
    have hoff : ¬ some o.enabled = some true := fun he => hon (Option.some.inj he)
    rw [h.held k o a ho ha hr, if_neg hoff, List.append_nil]

/-- Bytes that pass through a tee are entered in the books and in the sinks alike. -/
theorem Settled.pass {t : Tee (Observed κ) σ} {l : Ledger} (h : Settled data t l) {got : Bytes}
    (hgot : got <+: data.drop t.sourcePosition) :
    Settled data (t.pass got).2 (l.note t.flags (t.pass got).2.sourcePosition) := by
  have hlen : t.sourcePosition + got.length ≤ max l.top data.length := by
    have hle := hgot.length_le
    rw [List.length_drop] at hle
    have := h.position_le
    have := h.top_le
    omega
  have htop := h.top_le
  rw [pass_eq]
  -- Below the top everything was forwarded before, and neither side changes.
  by_cases hnew : t.destinationPosition < t.sourcePosition + got.length
  · have hnew' : l.top < t.sourcePosition + got.length := h.destination_eq ▸ hnew
    refine ⟨?_, ?_, ?_, ?_, ?_, ?_, ?_, ?_⟩
    · simp only [Ledger.note, h.destination_eq]
    · exact Nat.le_max_right _ _
    · intro p hp
      exact Nat.le_trans (h.mark_le p hp) (Nat.le_max_left _ _)
    · simp only [Ledger.note]
      omega
    · exact Ledger.length_note h.length_listening
    · simpa [Ledger.note, hnew] using h.length_joined
    · intro a ha
      exact Nat.le_trans (h.joined_le a ha) (Nat.le_max_left _ _)
    · intro k o a ho ha hr
      simp only [hnew, if_true, List.getElem?_map, Option.map_eq_some_iff] at ho
      obtain ⟨old, hold, rfl⟩ := ho
      rw [fresh_eq h hgot] at hr ⊢
      exact held_offered h hold ha hr
  · have hle : t.sourcePosition + got.length ≤ l.top := by
      have := h.destination_eq
      omega
    have hmax : max t.destinationPosition (t.sourcePosition + got.length) = l.top := by
      have := h.destination_eq
      omega
    simp only [hnew, if_false, hmax, Ledger.note_of_le hle]
    exact ⟨rfl, hle, h.mark_le, h.top_le, h.length_listening, h.length_joined, h.joined_le,
      h.held⟩

/-- A pass enters what it gets in the books, and keeps the tee and its buffer together. -/
theorem Settled.passThrough {t : Tee (Observed κ) (Replay τ)} {l : Ledger} {n : Nat}
    (hsync : Synced data t) (h : Settled data t l) (hs : t.source.readServed n = true) :
    Synced data (t.passThrough n).2 ∧
      Settled data (t.passThrough n).2 (l.note t.flags (t.passThrough n).2.sourcePosition) ∧
      t.sourcePosition ≤ (t.passThrough n).2.sourcePosition := by
  obtain ⟨hin, hmark, hfail⟩ := hsync.inStep.read hs
  have hkeep : ∀ p limit, (t.source.read n).2.mark = .active p limit →
      t.markPosition = some p := by
    intro p limit ha
    have hact : (t.source.read n).2.mark.isActive = true := MarkState.isActive_iff.2 ⟨p, limit, ha⟩
    exact hsync.mark_eq p limit ((MarkState.Since.eq_of_isActive hmark hact).symm.trans ha)
  have hread : ByteSource.read t.source n = t.source.read n := rfl
  have hsource (s : Replay τ) : Settled data { t with source := s } l :=
    h.move rfl rfl h.position_le h.mark_le
  have hstay := h.note_eq t.flags
  rw [passThrough_eq, hread]
  rcases hr : t.source.read n with ⟨e | got, c⟩
  · rw [hr] at hin hkeep hfail
    exact ⟨⟨hin, hsync.position_eq.trans (hfail rfl).symm, hkeep⟩, hstay.symm ▸ hsource c,
      Nat.le_refl _⟩
  · rw [hr] at hin hkeep
    have hg := hsync.inStep.read_got hr
    cases got with
    | nil =>
      have hpos : c.position = t.source.position := hg.position_eq
      exact ⟨⟨hin, hsync.position_eq.trans hpos.symm, hkeep⟩, hstay.symm ▸ hsource c,
        Nat.le_refl _⟩
    | cons b d =>
      have hfrom : b :: d <+: data.drop t.sourcePosition := hsync.position_eq ▸ hg.from_position
      refine ⟨⟨?_, ?_, ?_⟩, (hsource c).pass hfrom, ?_⟩
      · rw [pass_source]
        exact hin
      · rw [pass_source, pass_sourcePosition, hsync.position_eq]
        exact hg.position_eq.symm
      · rw [pass_source, pass_markPosition]
        exact hkeep
      · rw [pass_sourcePosition]
        exact Nat.le_add_right _ _

theorem Settled.passChunks {k : Nat} {t : Tee (Observed κ) (Replay τ)} {l : Ledger}
    (hsync : Synced data t) (h : Settled data t l) (hs : passChunksServed k t = true) :
    Settled data (passChunks k t) (l.note t.flags (passChunks k t).sourcePosition) ∧
      t.sourcePosition ≤ (passChunks k t).sourcePosition := by
  induction k generalizing t l with
  | zero =>
    refine ⟨?_, Nat.le_refl _⟩
    rw [Tee.passChunks, h.note_eq]
    exact h
  | succ k ih =>
    simp only [passChunksServed, Bool.and_eq_true] at hs
    obtain ⟨hnext, hbooks, hle⟩ := h.passThrough hsync hs.1
    obtain ⟨hrest, hmore⟩ := ih hnext hbooks hs.2
    rw [flags_passThrough, Ledger.note_note hmore] at hrest
    exact ⟨hrest, Nat.le_trans hle hmore⟩

end Passes

end Tee

end StreamLayers
