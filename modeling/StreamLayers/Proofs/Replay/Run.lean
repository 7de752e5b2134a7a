import StreamLayers.Proofs.Replay

/-!
Runs of a replay buffer. As long as its store fails at nothing, a buffer stays in step with its
source through reads, marks, resets and seeks in any order, and so it never hands out a wrong byte.
-/

namespace StreamLayers

namespace MarkState

/-- What a successful `mark` at `position` sets. -/
def set (position : Nat) : MarkLimit → MarkState
  | .invalidate | .bytes 0 => .invalidated
  | limit => .active position limit

theorem eq_of_set {p q : Nat} {limit limit' : MarkLimit} (h : set p limit = .active q limit') :
    q = p := by
  unfold set at h
  split at h
  · cases h
  · cases h
  · cases h
    rfl

/-- A mark and what has become of it: it is as it was set, unless its limit was exceeded. -/
def Since (before now : MarkState) : Prop :=
  now = before ∨
    ∃ p limit consumed, before = .active p (.bytes limit) ∧ now = .exceeded limit consumed

theorem Since.trans {m₁ m₂ m₃ : MarkState} (h : Since m₁ m₂) (h' : Since m₂ m₃) : Since m₁ m₃ := by
  rcases h' with rfl | ⟨p, limit, consumed, rfl, rfl⟩
  · exact h
  · rcases h with h | ⟨_, _, _, _, hn⟩
    · exact .inr ⟨p, limit, consumed, h.symm, rfl⟩
    · cases hn

theorem isActive_iff {m : MarkState} : m.isActive = true ↔ ∃ p limit, m = .active p limit := by
  cases m with
  | active p limit => exact ⟨fun _ => ⟨p, limit, rfl⟩, fun _ => rfl⟩
  | unset => simp [isActive]
  | invalidated => simp [isActive]
  | exceeded limit consumed => simp [isActive]

theorem Since.eq_of_isActive {before now : MarkState} (h : Since before now)
    (ha : now.isActive = true) : now = before := by
  rcases h with h | ⟨_, _, _, _, rfl⟩
  · exact h
  · cases ha

end MarkState

namespace Replay

variable {σ : Type}

theorem reset_active {b : Replay σ} (hopen : b.closed = false) {p : Nat} {limit : MarkLimit}
    (hm : b.mark = .active p limit) :
    b.reset =
      if p < b.sourcePosition then
        match b.store.seek (p - b.base) with
        | (.error e, s) => (.error e, { b with store := s })
        | (.ok (), s) => (.ok (), { b with store := s, position := p })
      else (.ok (), { b with position := p }) := by
  have hclosed : ¬ b.closed = true := by simp [hopen]
  unfold reset
  rw [if_neg hclosed]
  split <;> rename_i hmark <;> rw [hm] at hmark <;> cases hmark
  rfl

theorem reset_inactive {b : Replay σ} (ha : b.mark.isActive = false) :
    b.reset.1.isOk = false ∧ b.reset.2 = b := by
  unfold reset
  split
  · exact ⟨rfl, rfl⟩
  · rcases hm : b.mark with _ | ⟨p, l⟩ | _ | ⟨l, k⟩
    · exact ⟨rfl, rfl⟩
    · simp [hm, MarkState.isActive] at ha
    · exact ⟨rfl, rfl⟩
    · exact ⟨rfl, rfl⟩

theorem ofSettings_fresh {source : σ} {c : Settings} {present : Bool} {b : Replay σ}
    (hb : ofSettings source c present = .ok b) : b.position = 0 ∧ b.mark = .unset := by
  unfold ofSettings at hb
  split at hb
  · cases hb
  · obtain rfl := Except.ok.inj hb
    exact ⟨rfl, rfl⟩

/-- Whether the store did what a mark asked of it. -/
def markServed (b : Replay σ) (limit : MarkLimit) : Bool := b.closed || (b.setMark limit).1.isOk

variable [ByteSource σ]

def readsServed (b : Replay σ) : List Nat → Bool
  | [] => true
  | n :: rest => b.readServed n && (b.read n).2.readsServed rest

/-- The sizes of the reads that a move forward comes down to. -/
def skipSizes (target : Nat) : Nat → Replay σ → List Nat
  | 0, _ => []
  | fuel + 1, b =>
    if target ≤ b.position then []
    else
      let n := min b.readChunk (target - b.position)
      match b.read n with
      | (.ok (_ :: _), c) => n :: skipSizes target fuel c
      | _ => [n]

theorem skipTo_eq_reads (target fuel : Nat) (b : Replay σ) :
    (b.skipTo target fuel).2 = ByteSource.afterReads b (skipSizes target fuel b) := by
  induction fuel generalizing b with
  | zero => rfl
  | succ fuel ih =>
    unfold skipTo skipSizes
    by_cases ht : target ≤ b.position
    · simp only [ht, if_true]
      rfl
    · simp only [ht, if_false]
      rcases hr : b.read (min b.readChunk (target - b.position)) with ⟨e | d, c⟩
      · simp [ByteSource.afterReads, ByteSource.read, hr]
      · cases d with
        | nil => simp [ByteSource.afterReads, ByteSource.read, hr]
        | cons x d => simp only [ByteSource.afterReads, ByteSource.read, hr, ih]

/-- A move forward is a run of reads. -/
theorem seek_forward {b : Replay σ} (hopen : b.closed = false) {target : Nat}
    (ht : b.position ≤ target) :
    (b.seek target).2 = ByteSource.afterReads b (skipSizes target (target - b.position) b) := by
  have hclosed : ¬ b.closed = true := by simp [hopen]
  rw [seek, if_neg hclosed, if_pos ht]
  exact skipTo_eq_reads target (target - b.position) b

/-- A call of the buffer, or the directory of its store coming or going. -/
inductive Op where
  | read (n : Nat)
  | mark (limit : MarkLimit)
  | reset
  | seek (target : Nat)
  | directoryMade (name : String)
  | directoryRemoved (name : String)
  deriving Repr

namespace Op

def apply (b : Replay σ) : Op → Replay σ
  | read n => (b.read n).2
  | mark limit => (b.setMark limit).2
  | reset => b.reset.2
  | seek target => (b.seek target).2
  | directoryMade name => b.mapStore (Store.directoryMade name)
  | directoryRemoved name => b.mapStore (Store.directoryRemoved name)

/-- Whether the store did what an operation asked of it. -/
def served (b : Replay σ) : Op → Bool
  | read n => b.readServed n
  | mark limit => b.markServed limit
  | seek target =>
    target < b.position || b.readsServed (skipSizes target (target - b.position) b)
  | _ => true

/-- The mark last set, after an operation. -/
def marks (b : Replay σ) (last : MarkState) : Op → MarkState
  | mark limit => .set b.position limit
  | _ => last

end Op

def after (b : Replay σ) (ops : List Op) : Replay σ := ops.foldl Op.apply b

/-- Whether no operation of the store failed in a run. -/
def served (b : Replay σ) : List Op → Bool
  | [] => true
  | op :: ops => op.served b && (op.apply b).served ops

/-- The mark last set in a run. -/
def lastMark (b : Replay σ) (last : MarkState) : List Op → MarkState
  | [] => last
  | op :: ops => (op.apply b).lastMark (op.marks b last) ops

variable [SerialSource σ] {data : Bytes} {b : Replay σ}

theorem InStep.ofSettings {source : σ} {c : Settings} {present : Bool}
    (hb : Replay.ofSettings source c present = .ok b) : InStep (SerialSource.rest source) b := by
  unfold Replay.ofSettings at hb
  split at hb
  · cases hb
  · obtain rfl := Except.ok.inj hb
    exact ⟨⟨⟨rfl, Nat.le_refl 0, Nat.le_refl 0, nofun⟩, rfl, Nat.zero_le _⟩,
      Store.log_build c.store present⟩

theorem InStep.mapStore (h : InStep data b) {f : Store → Store}
    (hf : ∀ s, (f s).log = s.log) : InStep data (b.mapStore f) :=
  ⟨{ h.toAligned with }, (hf b.store).trans h.held⟩

/-- Sets a mark with a limit that does not invalidate. -/
def remark (b : Replay σ) (limit : MarkLimit) : Except Fault Unit × Replay σ :=
  if !b.retainHistory && b.position == b.sourcePosition then
    match { b with mark := .unset }.discardUnreachable with
    | (.error e, c) => (.error e, c)
    | (.ok (), c) => (.ok (), { c with mark := .active c.position limit })
  else (.ok (), { b with mark := .active b.position limit })

theorem InStep.remark (h : InStep data b) {limit : MarkLimit}
    (hok : (b.remark limit).1.isOk = true) :
    InStep data (b.remark limit).2 ∧ (b.remark limit).2.mark = .active b.position limit ∧
      (b.remark limit).2.position = b.position := by
  have here {c : Replay σ} (hc : InStep data c) :
      InStep data { c with mark := .active c.position limit } :=
    hc.withMark fun _ _ hm => (MarkState.active.inj hm).1.symm
  unfold Replay.remark at hok ⊢
  split at hok
  · rename_i hidle
    rw [if_pos hidle]
    have hin : InStep data { b with mark := .unset } := h.withMark nofun
    rcases hd : ({ b with mark := .unset } : Replay σ).discardUnreachable with ⟨e | u, c⟩
    · rw [hd] at hok
      cases hok
    · have hc := hin.discardUnreachable (by rw [hd]; rfl)
      rw [hd] at hc
      obtain ⟨hc, -, hpos⟩ := hc
      have hpos : c.position = b.position := hpos
      refine ⟨here hc, ?_, hpos⟩
      rw [← hpos]
  · rename_i hbusy
    rw [if_neg hbusy]
    exact ⟨here h, rfl, rfl⟩

theorem InStep.setMark (h : InStep data b) {limit : MarkLimit} (hs : b.markServed limit = true) :
    (b.setMark limit).1.isOk = true ∧ InStep data (b.setMark limit).2 ∧
      (b.setMark limit).2.mark = .set b.position limit ∧
      (b.setMark limit).2.position = b.position := by
  have hok : (b.setMark limit).1.isOk = true := by simpa [markServed, h.isOpen] using hs
  refine ⟨hok, ?_⟩
  have hopen : ¬ b.closed = true := by simp [h.isOpen]
  have hin : InStep data { b with mark := .invalidated } := h.withMark nofun
  unfold Replay.setMark at hok ⊢
  rw [if_neg hopen] at hok ⊢
  cases limit with
  | unlimited => exact h.remark hok
  | invalidate => exact hin.discardUnreachable hok
  | bytes n =>
    cases n with
    | zero => exact hin.discardUnreachable hok
    | succ n => exact h.remark hok

theorem InStep.reset_active (h : InStep data b) {p : Nat} {limit : MarkLimit}
    (hm : b.mark = .active p limit) :
    b.reset.1 = .ok () ∧ InStep data b.reset.2 ∧ b.reset.2.position = p ∧
      b.reset.2.mark = b.mark := by
  obtain ⟨hbase, hp⟩ := h.mark_mem p limit hm
  rw [Replay.reset_active h.isOpen hm]
  by_cases hlt : p < b.sourcePosition
  · obtain ⟨s, hs, hlog, -⟩ := seek_stored h.length_log hp
    simp only [hlt, if_true, hs]
    exact ⟨trivial, h.moveTo hbase hp hlog, trivial, trivial⟩
  · simp only [hlt, if_false]
    exact ⟨trivial, h.moveTo hbase hp rfl, trivial, trivial⟩

/-- A reset goes back to an active mark, or fails and changes nothing. -/
theorem InStep.reset (h : InStep data b) :
    InStep data b.reset.2 ∧ b.reset.2.mark = b.mark ∧
      ((b.reset.1 = .ok () ∧ ∃ limit, b.mark = .active b.reset.2.position limit) ∨
        b.reset.1.isOk = false ∧ b.reset.2 = b) := by
  rcases hm : b.mark.isActive with _ | _
  · obtain ⟨hfail, hsame⟩ := reset_inactive hm
    rw [hsame]
    exact ⟨h, rfl, .inr ⟨hfail, rfl⟩⟩
  · obtain ⟨p, limit, ha⟩ := MarkState.isActive_iff.1 hm
    obtain ⟨hok, hin, hpos, hkeep⟩ := h.reset_active ha
    exact ⟨hin, hkeep, .inl ⟨hok, limit, hpos ▸ ha⟩⟩

theorem InStep.afterReads (h : InStep data b) {sizes : List Nat}
    (hs : b.readsServed sizes = true) :
    InStep data (ByteSource.afterReads b sizes) ∧
      b.mark.Since (ByteSource.afterReads b sizes).mark := by
  induction sizes generalizing b with
  | nil => exact ⟨h, .inl rfl⟩
  | cons n rest ih =>
    simp only [readsServed, Bool.and_eq_true] at hs
    obtain ⟨hin, hmark, -⟩ := h.read hs.1
    obtain ⟨hrest, hsince⟩ := ih hin hs.2
    exact ⟨hrest, MarkState.Since.trans hmark hsince⟩

theorem InStep.reads_prefix (h : InStep data b) {sizes : List Nat}
    (hs : b.readsServed sizes = true) : ByteSource.reads b sizes <+: data.drop b.position := by
  induction sizes generalizing b with
  | nil => exact List.nil_prefix
  | cons n rest ih =>
    simp only [readsServed, Bool.and_eq_true] at hs
    obtain ⟨hin, -, hfail⟩ := h.read hs.1
    have hrest := ih hin hs.2
    have hreads : ByteSource.reads b (n :: rest) =
        handedOver (b.read n).1 ++ ByteSource.reads (b.read n).2 rest := rfl
    rw [hreads]
    rcases hr : b.read n with ⟨e | got, c⟩ <;> rw [hr] at hrest hfail
    · rw [hfail rfl] at hrest
      exact hrest
    · have hgot := h.read_got hr
      obtain ⟨later, hlater⟩ := hgot.from_position
      have hpos : c.position = b.position + got.length := hgot.position_eq
      show got ++ ByteSource.reads c rest <+: _
      rw [← hlater, List.prefix_append_right_inj]
      rw [hpos, ← List.drop_drop, ← hlater, List.drop_left] at hrest
      exact hrest

/-- A move back goes where it is told, or nowhere if the store does not reach back so far. -/
theorem InStep.seek_backward (h : InStep data b) {target : Nat} (ht : target < b.position) :
    InStep data (b.seek target).2 ∧ (b.seek target).2.mark = b.mark ∧
      if target < b.base then
        b.seek target = (.error (.misuse (.seekBeforeCache target b.base)), b)
      else (b.seek target).1 = .ok target ∧ (b.seek target).2.position = target := by
  have hclosed : ¬ b.closed = true := by simp [h.isOpen]
  rw [Replay.seek, if_neg hclosed, if_neg (Nat.not_le_of_lt ht)]
  by_cases hb : target < b.base
  · rw [if_pos hb, if_pos hb]
    exact ⟨h, rfl, rfl⟩
  · have hp : target ≤ b.sourcePosition := Nat.le_trans (Nat.le_of_lt ht) h.position_le
    obtain ⟨s, hs, hlog, -⟩ := seek_stored h.length_log hp
    rw [if_neg hb, if_neg hb]
    simp only [hs]
    exact ⟨h.moveTo (Nat.le_of_not_lt hb) hp hlog, trivial, trivial, trivial⟩

theorem InStep.seek (h : InStep data b) {target : Nat}
    (hs : (Op.seek target).served b = true) :
    InStep data (b.seek target).2 ∧ b.mark.Since (b.seek target).2.mark := by
  simp only [Op.served, Bool.or_eq_true, decide_eq_true_eq] at hs
  by_cases ht : target < b.position
  · obtain ⟨hin, hm, -⟩ := h.seek_backward ht
    exact ⟨hin, .inl hm⟩
  · rw [seek_forward h.isOpen (Nat.le_of_not_lt ht)]
    exact h.afterReads (hs.resolve_left ht)

theorem InStep.apply (h : InStep data b) {op : Op} {last : MarkState} (hs : op.served b = true)
    (hm : last.Since b.mark) :
    InStep data (op.apply b) ∧ (op.marks b last).Since (op.apply b).mark := by
  cases op with
  | read n =>
    obtain ⟨hin, hmark, -⟩ := h.read hs
    exact ⟨hin, hm.trans hmark⟩
  | mark limit =>
    obtain ⟨-, hin, hmark, -⟩ := h.setMark hs
    exact ⟨hin, .inl hmark⟩
  | reset =>
    obtain ⟨hin, hmark, -⟩ := h.reset
    exact ⟨hin, hm.trans (.inl hmark)⟩
  | seek target =>
    obtain ⟨hin, hmark⟩ := h.seek hs
    exact ⟨hin, hm.trans hmark⟩
  | directoryMade name =>
    exact ⟨h.mapStore (fun s => (Store.log_directoryMade name s).1), hm⟩
  | directoryRemoved name =>
    exact ⟨h.mapStore (fun s => (Store.log_directoryRemoved name s).1), hm⟩

theorem InStep.after (h : InStep data b) {ops : List Op} {last : MarkState}
    (hs : b.served ops = true) (hm : last.Since b.mark) :
    InStep data (b.after ops) ∧ (b.lastMark last ops).Since (b.after ops).mark := by
  induction ops generalizing b last with
  | nil => exact ⟨h, hm⟩
  | cons op rest ih =>
    simp only [Replay.served, Bool.and_eq_true] at hs
    obtain ⟨hin, hmark⟩ := h.apply hs.1 hm
    exact ih hin hs.2 hmark

/-- What a buffer over `data` owes its caller. -/
structure Faithful (data : Bytes) (b : Replay σ) : Prop where
  /-- What was pulled from the source and what it still has make up the data. -/
  pulled : SerialSource.rest b.source = data.drop b.sourcePosition ∧
    b.sourcePosition ≤ data.length
  ordered : b.base ≤ b.position ∧ b.position ≤ b.sourcePosition
  reads : ∀ n got c, b.read n = (.ok got, c) → Got data b c n got
  /-- Behind the source there is always something to get. -/
  replays : b.position < b.sourcePosition → ∀ n, 0 < n →
    ∃ got c, b.read n = (.ok got, c) ∧ got ≠ []
  resets : ∀ p limit, b.mark = .active p limit →
    (b.base ≤ p ∧ p ≤ b.sourcePosition) ∧ b.reset.1 = .ok () ∧ b.reset.2.position = p ∧
      ∀ sizes, b.reset.2.readsServed sizes = true → ByteSource.reads b.reset.2 sizes <+: data.drop p
  /-- What holds after every run of reads also holds in the middle of a move forward. -/
  skips : ∀ target, b.position ≤ target → ∃ sizes, (b.seek target).2 = ByteSource.afterReads b sizes
  rewinds : ∀ target, target < b.position →
    if target < b.base then b.seek target = (.error (.misuse (.seekBeforeCache target b.base)), b)
    else (b.seek target).1 = .ok target ∧ (b.seek target).2.position = target

theorem InStep.replays (h : InStep data b) (hp : b.position < b.sourcePosition) {n : Nat}
    (hn : 0 < n) : ∃ got c, b.read n = (.ok got, c) ∧ got ≠ [] := by
  obtain ⟨got, hok, -, hgot, -⟩ := h.readStore hp hn
  have hf : b.fetch n = (.ok got, (b.readStore n).2) := by
    rw [Replay.fetch, if_pos hp]
    exact Prod.ext hok rfl
  refine ⟨got, (b.readStore n).2.afterRead, ?_, ?_⟩
  · rw [read_eq_fetch h.isOpen hn, hf]
  · intro he
    have := (hgot.empty hn he).1
    omega

theorem InStep.faithful (h : InStep data b) : Faithful data b where
  pulled := ⟨h.rest_eq, h.pulled_le⟩
  ordered := ⟨h.base_le, h.position_le⟩
  reads _ _ _ hr := h.read_got hr
  replays hp _ hn := h.replays hp hn
  resets p limit hm := by
    obtain ⟨hok, hin, hpos, -⟩ := h.reset_active hm
    refine ⟨h.mark_mem p limit hm, hok, hpos, ?_⟩
    intro sizes hs
    rw [← hpos]
    exact hin.reads_prefix hs
  skips _ ht := ⟨_, seek_forward h.isOpen ht⟩
  rewinds _ ht := (h.seek_backward ht).2.2

/-- Whatever is asked of a buffer, as long as its store fails at nothing, it hands out the data of
its source, and goes back to the mark last set unless the limit was exceeded. -/
theorem faithful_after {source : σ} {c : Settings} {present : Bool} {b : Replay σ}
    (hb : Replay.ofSettings source c present = .ok b) {ops : List Op} (hs : b.served ops = true) :
    Faithful (SerialSource.rest source) (b.after ops) ∧
      (b.lastMark .unset ops).Since (b.after ops).mark := by
  have hstart := InStep.ofSettings hb
  have hunset : MarkState.Since .unset b.mark := .inl (ofSettings_fresh hb).2
  obtain ⟨hin, hsince⟩ := hstart.after hs hunset
  exact ⟨hin.faithful, hsince⟩

/-- A buffer over short reads whose store spills: the mark set anew within a replay is the one that
a reset goes back to. -/
theorem faithful_after_spilled :
    let source : MockSource := { rest := [1, 2, 3, 4, 5, 6, 7, 8], maxRead := some 3 }
    let c : Settings := { threshold := some 2, readChunk := 2 }
    let b : Replay MockSource := { withStore source (c.store.build true) with readChunk := 2 }
    let ops : List Op :=
      [.read 1, .mark .unlimited, .seek 6, .reset, .read 2, .mark (.bytes 4), .read 9, .reset]
    Replay.ofSettings source c true = .ok b ∧ b.served ops = true ∧
      (b.after ops).mark = .active 3 (.bytes 4) ∧ (b.after ops).sourcePosition = 6 ∧
      (b.after ops).reset.2.position = 3 := by
  intro source c b ops
  have hb : Replay.ofSettings source c true = .ok b := rfl
  have hs : b.served ops = true := by decide +kernel
  have hm : (b.after ops).mark = .active 3 (.bytes 4) := by decide +kernel
  have hp : (b.after ops).sourcePosition = 6 := by decide +kernel
  obtain ⟨hf, -⟩ := faithful_after hb hs
  obtain ⟨-, -, hreset, -⟩ := hf.resets 3 (.bytes 4) hm
  exact ⟨hb, hs, hm, hp, hreset⟩

end Replay

end StreamLayers
