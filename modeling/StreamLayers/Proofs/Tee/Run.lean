import StreamLayers.Proofs.Tee.Settled

/-!
Runs of a tee over a replay buffer. Each byte is forwarded when it is read for the first time, to
the sinks that are enabled then, and never again.
-/

namespace StreamLayers

namespace Tee

variable {κ κ' σ τ : Type}

/-- A call of a tee. -/
inductive Op (κ : Type) where
  | read (n : Nat)
  | mark (limit : MarkLimit)
  | reset
  | setEnabled (index : Nat) (enabled : Bool)
  | addSink (sink : κ)
  | close
  deriving Repr

def Op.map (f : κ → κ') : Op κ → Op κ'
  | read n => read n
  | mark limit => mark limit
  | reset => reset
  | setEnabled index enabled => setEnabled index enabled
  | addSink sink => addSink (f sink)
  | close => close

section Operations

variable [ByteSource σ] [ByteSink κ] [ByteSink κ'] {f : κ → κ'}

def Op.apply (t : Tee κ σ) : Op κ → Tee κ σ
  | read n => (t.read n).2
  | mark limit => (t.setMark limit).2
  | reset => t.reset.2
  | setEnabled index enabled => (t.setEnabled index enabled).2
  | addSink sink => (t.addSink sink).2
  | close => t.close.2

def after (t : Tee κ σ) (ops : List (Op κ)) : Tee κ σ := ops.foldl Op.apply t

/-- The books after an operation. -/
def Op.enter (t : Tee κ σ) (l : Ledger) : Op κ → Ledger
  | addSink _ => l.join t.destinationPosition
  | op => l.note t.flags (op.apply t).sourcePosition

/-- The books after a run of operations. -/
def ledger (t : Tee κ σ) (l : Ledger) : List (Op κ) → Ledger
  | [] => l
  | op :: ops => (op.apply t).ledger (op.enter t l) ops

end Operations

/-- Whether the store under a tee did what an operation asked of it. -/
def Op.served [ByteSource τ] [ByteSink κ] (t : Tee κ (Replay τ)) : Op κ → Bool
  | read n => t.closed || t.source.readServed n
  | mark limit => t.source.markServed limit
  | close => t.closed || passChunksServed t.shut.closePasses t.shut
  | _ => true

/-- Whether no operation of the store under a tee failed in a run. -/
def served [ByteSource τ] [ByteSink κ] (t : Tee κ (Replay τ)) : List (Op κ) → Bool
  | [] => true
  | op :: ops => op.served t && (op.apply t).served ops

/-- A tee over `data` that is as the books say, and together with its buffer while it is open. -/
structure Kept [ByteSource τ] [SerialSource τ] (data : Bytes) (t : Tee (Observed κ) (Replay τ))
    (l : Ledger) : Prop extends Settled data t l where
  synced : t.closed = false → Synced data t

section Run

variable [ByteSource τ] [SerialSource τ] {data : Bytes}
  {t : Tee (Observed κ) (Replay τ)} {l : Ledger}

theorem Kept.setMark (h : Kept data t l) {limit : MarkLimit}
    (hs : t.source.markServed limit = true) :
    Kept data (t.setMark limit).2 (l.note t.flags (t.setMark limit).2.sourcePosition) := by
  have hsync (hopen : t.closed = false) := (h.synced hopen).inStep.setMark hs
  unfold Tee.setMark
  have hmark : ByteSource.mark t.source limit = t.source.setMark limit := rfl
  rw [hmark]
  rcases hr : t.source.setMark limit with ⟨e | u, c⟩ <;> rw [hr] at hsync
  · simp only [h.note_eq]
    refine ⟨h.move rfl rfl h.position_le h.mark_le, fun hopen => ?_⟩
    cases (hsync hopen).1
  · simp only [h.note_eq]
    refine ⟨h.move rfl rfl h.position_le ?_, fun hopen => ?_⟩
    · intro p hp
      obtain rfl := Option.some.inj hp
      exact h.position_le
    · obtain ⟨-, hin, hset, hpos⟩ := hsync hopen
      have hat := (h.synced hopen).position_eq
      refine ⟨hin, hat.trans hpos.symm, ?_⟩
      intro p limit' ha
      obtain rfl := MarkState.eq_of_set (hset.symm.trans ha)
      exact congrArg some hat

theorem Kept.reset (h : Kept data t l) :
    Kept data t.reset.2 (l.note t.flags t.reset.2.sourcePosition) := by
  have hsync (hopen : t.closed = false) := (h.synced hopen).inStep.reset
  unfold Tee.reset
  have hreset : ByteSource.reset t.source = t.source.reset := rfl
  rw [hreset]
  rcases hm : t.markPosition with _ | p
  · rw [h.note_eq]
    exact h
  · have hp : p ≤ l.top := h.mark_le p hm
    have hmark_le : ∀ q, t.markPosition = some q → q ≤ l.top := h.mark_le
    rcases hr : t.source.reset with ⟨e | u, c⟩ <;> rw [hr] at hsync
    · simp only [h.note_eq]
      refine ⟨h.move rfl rfl h.position_le (hm ▸ hmark_le), fun hopen => ?_⟩
      obtain ⟨-, -, ⟨hok, -⟩ | ⟨-, hsame⟩⟩ := hsync hopen
      · cases hok
      · have hc : c = t.source := hsame
        subst hc
        obtain ⟨hin, hpos, hact⟩ := h.synced hopen
        exact ⟨hin, hpos, hm ▸ hact⟩
    · have hstay : l.note t.flags p = l := Ledger.note_of_le hp
      simp only [hstay]
      refine ⟨h.move rfl rfl hp (hm ▸ hmark_le), fun hopen => ?_⟩
      obtain ⟨hin, hkeep, ⟨-, limit, hactive⟩ | ⟨hfail, -⟩⟩ := hsync hopen
      · -- The buffer went back to its own mark, which is where the tee remembers its mark.
        have hq := (h.synced hopen).mark_eq _ _ hactive
        rw [hm] at hq
        refine ⟨hin, Option.some.inj hq, ?_⟩
        intro q limit' ha
        rw [← hm]
        exact (h.synced hopen).mark_eq q limit' (hkeep.symm.trans ha)
      · cases hfail

theorem Kept.setEnabled (h : Kept data t l) (index : Nat) (enabled : Bool) :
    Kept data (t.setEnabled index enabled).2
      (l.note t.flags (t.setEnabled index enabled).2.sourcePosition) := by
  unfold Tee.setEnabled
  split
  · simp only [h.note_eq]
    refine ⟨h.withOutlets (List.length_modify _ _ _) ?_, fun hopen => ?_⟩
    · intro k o hk
      by_cases hi : index = k
      · subst hi
        rw [List.getElem?_modify_eq, Option.map_eq_map, Option.map_eq_some_iff] at hk
        obtain ⟨old, hold, rfl⟩ := hk
        exact ⟨old, hold, rfl, rfl⟩
      · rw [List.getElem?_modify_ne _ _ hi] at hk
        exact ⟨o, hk, rfl, rfl⟩
    · obtain ⟨hin, hpos, hmark⟩ := h.synced hopen
      exact ⟨hin, hpos, hmark⟩
  · simp only [h.note_eq]
    exact h

theorem Kept.addSink (h : Kept data t l) (k : κ) :
    Kept data (t.addSink (.of k)).2 (l.join t.destinationPosition) := by
  have hd := h.destination_eq
  refine ⟨⟨h.destination_eq, h.position_le, h.mark_le, h.top_le, h.length_listening, ?_, ?_, ?_⟩,
    fun hopen => ?_⟩
  · simp [Ledger.join, Tee.addSink, h.length_joined]
  · intro a ha
    rcases List.mem_append.1 ha with ha | ha
    · exact h.joined_le a ha
    · obtain rfl := List.mem_singleton.1 ha
      exact Nat.le_of_eq hd
  · intro i o a ho ha hr
    simp only [Tee.addSink, Ledger.join] at ho ha
    by_cases hi : i < t.outlets.length
    · rw [List.getElem?_append_left hi] at ho
      rw [List.getElem?_append_left (h.length_joined.symm ▸ hi)] at ha
      exact h.held i o a ho ha hr
    · have hi' : t.outlets.length ≤ i := Nat.le_of_not_lt hi
      rw [List.getElem?_append_right hi'] at ho
      rw [List.getElem?_append_right (h.length_joined.symm ▸ hi'), h.length_joined] at ha
      rcases hz : i - t.outlets.length with _ | j
      · rw [hz] at ho ha
        obtain rfl := Option.some.inj ho
        obtain rfl := Option.some.inj ha
        have hnone : l.heard data i l.top = [] := Ledger.heard_top h.length_listening
        rw [hd]
        exact hnone.symm
      · simp [hz] at ho
  · obtain ⟨hin, hpos, hmark⟩ := h.synced hopen
    exact ⟨hin, hpos, hmark⟩

variable [ByteSink κ]

theorem Kept.read (h : Kept data t l) {n : Nat}
    (hs : (Op.read n : Op (Observed κ)).served t = true) :
    Kept data (t.read n).2 (l.note t.flags (t.read n).2.sourcePosition) := by
  rw [read_snd]
  by_cases hc : t.closed = true
  · rw [if_pos hc, h.note_eq]
    exact h
  · have hopen : t.closed = false := by simpa using hc
    have hserved : t.source.readServed n = true := by simpa [Op.served, hopen] using hs
    obtain ⟨hsync, hbooks, -⟩ := h.toSettled.passThrough (h.synced hopen) hserved
    rw [if_neg hc]
    exact ⟨hbooks, fun _ => hsync⟩

theorem Kept.close (h : Kept data t l)
    (hs : (Op.close : Op (Observed κ)).served t = true) :
    Kept data t.close.2 (l.note t.flags t.close.2.sourcePosition) := by
  by_cases hc : t.closed = true
  · simp only [Tee.close, hc, if_true, h.note_eq]
    exact h
  · have hopen : t.closed = false := by simpa using hc
    have hsync : Synced data t.shut := by
      obtain ⟨hin, hpos, hmark⟩ := h.synced hopen
      exact ⟨hin, hpos, hmark⟩
    have hbooks : Settled data t.shut l :=
      h.move rfl rfl h.position_le h.mark_le
    have hserved : passChunksServed t.shut.closePasses t.shut = true := by
      simpa [Op.served, hopen] using hs
    obtain ⟨hdrained, -⟩ := hbooks.passChunks hsync hserved
    have hshut := passChunks_closed t.shut.closePasses t.shut
    rw [close_eq t hopen]
    generalize passChunks t.shut.closePasses t.shut = u at hdrained hshut
    have hclosed : Settled data { u with source := (ByteSource.close u.source).2 }
        (l.note t.flags u.sourcePosition) :=
      hdrained.move rfl rfl hdrained.position_le hdrained.mark_le
    refine ⟨hclosed.withOutlets (List.length_map _) ?_, fun hopen => ?_⟩
    · intro k o hk
      simp only [List.getElem?_map, Option.map_eq_some_iff] at hk
      obtain ⟨old, hold, rfl⟩ := hk
      refine ⟨old, hold, ?_⟩
      unfold Outlet.ended
      split <;> exact ⟨rfl, rfl⟩
    · rw [show u.closed = true from hshut] at hopen
      cases hopen

theorem Kept.apply (h : Kept data t l) {op : Op κ} (hs : (op.map Observed.of).served t = true) :
    Kept data ((op.map Observed.of).apply t) ((op.map Observed.of).enter t l) := by
  cases op with
  | read n => exact h.read hs
  | mark limit => exact h.setMark hs
  | reset => exact h.reset
  | setEnabled index enabled => exact h.setEnabled index enabled
  | addSink sink => exact h.addSink sink
  | close => exact h.close hs

theorem Kept.after (h : Kept data t l) {ops : List (Op κ)}
    (hs : t.served (ops.map (Op.map Observed.of)) = true) :
    Kept data (t.after (ops.map (Op.map Observed.of)))
      (t.ledger l (ops.map (Op.map Observed.of))) := by
  induction ops generalizing t l with
  | nil => exact h
  | cons op rest ih =>
    simp only [List.map_cons, Tee.served, Bool.and_eq_true] at hs
    exact ih (h.apply hs.1) hs.2

omit [ByteSink κ] in
theorem Kept.ofSettings {source : τ} {rc : Replay.Settings} {present : Bool} {b : Replay τ}
    (hb : Replay.ofSettings source rc present = .ok b) {sinks : List κ} {c : Settings}
    {t : Tee κ (Replay τ)} (ht : Tee.ofSettings b sinks c = .ok t) :
    Kept (SerialSource.rest source) (t.mapSinks Observed.of) (.start sinks.length) := by
  have hin := Replay.InStep.ofSettings hb
  have hfresh := Replay.ofSettings_fresh hb
  unfold Tee.ofSettings at ht
  split at ht
  · cases ht
  · split at ht
    · cases ht
    · obtain rfl := Except.ok.inj ht
      refine ⟨⟨rfl, Nat.le_refl 0, ?_, Nat.zero_le _, rfl, ?_, ?_, ?_⟩, fun _ => ?_⟩
      · intro p hp
        cases hp
      · simp [Ledger.start, mapSinks]
      · intro a ha
        exact Nat.le_of_eq (List.eq_of_mem_replicate ha)
      · intro k o a ho ha _
        simp only [mapSinks, List.getElem?_map, Option.map_map, Option.map_eq_some_iff] at ho
        obtain ⟨sink, -, rfl⟩ := ho
        simp [Ledger.heard, Ledger.start, Outlet.mapSink, Observed.of]
      · refine ⟨hin, hfresh.1.symm, ?_⟩
        intro p limit hm
        rw [show (b.mark = .active p limit) from hm] at hfresh
        cases hfresh.2

end Run

section Served

variable [ByteSink κ] [ByteSink κ'] [ByteSource τ] {f : κ → κ'}

end Served

end Tee

end StreamLayers
