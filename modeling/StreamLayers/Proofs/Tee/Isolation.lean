import StreamLayers.Proofs.Reads
import StreamLayers.Proofs.Replay.Cursor
import StreamLayers.Proofs.Tee.Closing

/-!
A tee over a replay buffer some of whose sinks fail. A failure concerns no other sink and moves the
tee like a success, so what the caller did not get can be read again after a reset, without the
sinks noticing.
-/

namespace StreamLayers

namespace Replay

variable {σ : Type}

theorem sourcePosition_setMark (b : Replay σ) (limit : MarkLimit) :
    (b.setMark limit).2.sourcePosition = b.sourcePosition := by
  have hdiscard (m : MarkState) :
      ({ b with mark := m } : Replay σ).discardUnreachable.2.sourcePosition = b.sourcePosition := by
    obtain ⟨store, base, hfr⟩ := ({ b with mark := m } : Replay σ).discardUnreachable_frame
    rw [hfr]
  by_cases hopen : b.closed = false
  · rcases setMark_open hopen limit with hs | hs <;> rw [hs]
    · exact hdiscard .invalidated
    · have hunset := hdiscard .unset
      unfold remark
      split
      · rcases hd : ({ b with mark := .unset } : Replay σ).discardUnreachable with ⟨e | u, c⟩ <;>
          rw [hd] at hunset <;> exact hunset
      · rfl
  · have hclosed : b.closed = true := by simpa using hopen
    simp only [setMark, hclosed, if_true]

variable [ByteSource σ]

theorem sourcePosition_le_read (b : Replay σ) (n : Nat) :
    b.sourcePosition ≤ (b.read n).2.sourcePosition := by
  rcases hr : b.read n with ⟨e | got, c⟩
  · exact Nat.le_of_eq (failedRead_of_read hr).frame.2.1.symm
  · rcases read_ok hr with ⟨-, rfl⟩ | ⟨-, a, hf, rfl⟩
    · exact Nat.le_refl _
    · obtain ⟨m, hm, -⟩ := a.enforceLimit_frame
      obtain ⟨store, base, hfr⟩ := a.enforceLimit.discardUnreachable_frame
      have hafter : a.afterRead.sourcePosition = a.sourcePosition := by rw [afterRead, hfr, hm]
      show b.sourcePosition ≤ a.afterRead.sourcePosition
      rw [hafter]
      obtain ⟨_, rfl⟩ | ⟨_, rfl⟩ := fetch_frame hf
      · exact Nat.le_refl _
      · exact Nat.le_add_right _ _

/-- A replay under a mark without a limit leaves nothing to drop. -/
theorem InStep.readServed_replay [SerialSource σ] {data : Bytes} {b : Replay σ}
    (h : InStep data b) (hbehind : b.position < b.sourcePosition) {p : Nat}
    (hm : b.mark = .active p .unlimited) (n : Nat) : b.readServed n = true := by
  rcases Nat.eq_zero_or_pos n with rfl | hn
  · simp [readServed]
  · obtain ⟨got, hok, -, -, hmark⟩ := h.readStore hbehind hn
    have hfetch : b.fetch n = b.readStore n := if_pos hbehind
    rw [readServed, hfetch]
    rcases hr : b.readStore n with ⟨r, c⟩
    rw [hr] at hok hmark
    obtain rfl : r = .ok got := hok
    have hactive : c.mark = .active p .unlimited := hmark.trans hm
    have hkept : c.enforceLimit = c := by
      refine enforceLimit_of_unlimited ?_
      rw [hactive]
      rintro ⟨_, _, h⟩
      cases h
    have hcaching : c.caching = true := by
      rw [caching, hactive]
      exact Bool.or_true _
    simp [hkept, discardUnreachable_needed (.inl hcaching), Except.isOk, Except.toBool]

end Replay

namespace Tee

open ByteSource

variable {κ σ τ : Type}

section Reading

theorem fresh_eq_nil_iff {t : Tee κ σ} (hle : t.sourcePosition ≤ t.destinationPosition)
    (data : Bytes) :
    t.fresh data = [] ↔ t.sourcePosition + data.length ≤ t.destinationPosition := by
  rw [fresh, List.drop_eq_nil_iff]
  omega

variable [ByteSink κ]

/-- The enabled outlet at `index` has something to take of `data`, and fails to. -/
def Rejects (outlets : List (Outlet κ)) (data : Bytes) (index : Nat) (cause : Fault) : Prop :=
  data ≠ [] ∧ ∃ o, outlets[index]? = some o ∧ o.enabled = true ∧
    (ByteSink.writeAll o.sink data).1 = .error cause

/-- What one outlet makes of `data`. -/
def refusal (o : Outlet κ) (data : Bytes) : Option Fault :=
  if o.enabled then failureOf (ByteSink.writeAll o.sink data).1 else none

theorem forward_cons (data : Bytes) (index : Nat) (o : Outlet κ) (rest : List (Outlet κ)) :
    (forward data index (o :: rest)).1 =
      ((refusal o data).map (.sink index)).or (forward data (index + 1) rest).1 := by
  unfold refusal
  rw [forward]
  by_cases ho : o.enabled = true
  · rcases hw : ByteSink.writeAll o.sink data with ⟨e | u, k⟩ <;> simp [ho, failureOf]
  · simp [ho]

theorem rejects_iff {outlets : List (Outlet κ)} {data : Bytes} {index : Nat} {cause : Fault} :
    Rejects outlets data index cause ↔
      data ≠ [] ∧ ∃ o, outlets[index]? = some o ∧ refusal o data = some cause := by
  have hrefusal (o : Outlet κ) : refusal o data = some cause ↔
      o.enabled = true ∧ (ByteSink.writeAll o.sink data).1 = .error cause := by
    unfold refusal
    rcases (ByteSink.writeAll o.sink data).1 with e | u <;> simp [failureOf]
  simp only [Rejects, hrefusal]

theorem rejects_zero {data : Bytes} (hdata : data ≠ []) {o : Outlet κ} {rest : List (Outlet κ)}
    {cause : Fault} : Rejects (o :: rest) data 0 cause ↔ refusal o data = some cause := by
  simp [rejects_iff, hdata]

/-- What forwarding reports is the failure of the first outlet that rejects the bytes. -/
theorem forward_eq_some_iff {data : Bytes} (hdata : data ≠ []) {outlets : List (Outlet κ)}
    {index : Nat} {e : Fault} :
    (forward data index outlets).1 = some e ↔
      ∃ i cause, e = .sink (index + i) cause ∧ Rejects outlets data i cause ∧
        ∀ j < i, ∀ cause', ¬ Rejects outlets data j cause' := by
  induction outlets generalizing index with
  | nil => simp [forward, Rejects]
  | cons o rest ih =>
    rw [forward_cons]
    rcases ho : refusal o data with _ | c
    · have hfree (cause : Fault) : ¬ Rejects (o :: rest) data 0 cause := by
        simp [rejects_zero hdata, ho]
      simp only [Option.map_none, Option.none_or, ih]
      constructor
      · rintro ⟨i, cause, rfl, hi, hfirst⟩
        refine ⟨i + 1, cause, congrArg (Fault.sink · cause) (by omega), hi, fun j hj => ?_⟩
        cases j with
        | zero => exact hfree
        | succ j => exact hfirst j (Nat.lt_of_succ_lt_succ hj)
      · rintro ⟨i, cause, rfl, hi, hfirst⟩
        cases i with
        | zero => exact absurd hi (hfree cause)
        | succ i =>
          exact ⟨i, cause, congrArg (Fault.sink · cause) (by omega), hi,
            fun j hj => hfirst (j + 1) (Nat.succ_lt_succ hj)⟩
    · have hc : Rejects (o :: rest) data 0 c := (rejects_zero hdata).2 ho
      simp only [Option.map_some, Option.some_or, Option.some.injEq]
      constructor
      · rintro rfl
        exact ⟨0, c, rfl, hc, fun j hj => absurd hj (Nat.not_lt_zero j)⟩
      · rintro ⟨i, cause, rfl, hi, hfirst⟩
        cases i with
        | zero =>
          obtain rfl := Option.some.inj (ho.symm.trans ((rejects_zero hdata).1 hi))
          rfl
        | succ i => exact absurd hc (hfirst 0 (Nat.succ_pos i) c)

theorem forward_eq_none_iff {data : Bytes} (hdata : data ≠ []) {outlets : List (Outlet κ)}
    {index : Nat} :
    (forward data index outlets).1 = none ↔ ∀ i cause, ¬ Rejects outlets data i cause := by
  induction outlets generalizing index with
  | nil => simp [forward, Rejects]
  | cons o rest ih =>
    rw [forward_cons, Option.or_eq_none_iff, ih, Option.map_eq_none_iff]
    constructor
    · rintro ⟨ho, hrest⟩ i cause
      cases i with
      | zero => simp [rejects_zero hdata, ho]
      | succ i => exact hrest i cause
    · intro h
      refine ⟨Option.eq_none_iff_forall_ne_some.2 fun cause ho => ?_, fun i => h (i + 1)⟩
      exact h 0 cause ((rejects_zero hdata).2 ho)

theorem pass_of_fresh {t : Tee κ σ} (hle : t.sourcePosition ≤ t.destinationPosition)
    (data : Bytes) :
    (t.pass data).1 =
      if t.fresh data = [] then none else (forward (t.fresh data) 0 t.outlets).1 := by
  have hnew := fresh_eq_nil_iff hle data
  unfold pass
  by_cases hd : t.destinationPosition < t.sourcePosition + data.length
  · have hsome : ¬ t.fresh data = [] := fun h => Nat.not_le.2 hd (hnew.1 h)
    rw [if_neg hsome, if_pos hd]
    rfl
  · rw [if_pos (hnew.2 (Nat.not_lt.1 hd)), if_neg hd]

variable [ByteSource σ]

/-- What a read of a tee does that gets `got` from the source: it moves the tee and offers every
enabled sink what is new, and only its answer depends on what the sinks do. -/
structure Isolated (t : Tee κ σ) (n : Nat) (got : Bytes) (s : σ) : Prop where
  moved : (t.read n).2 = { t with
    source := s
    sourcePosition := t.sourcePosition + got.length
    destinationPosition := max t.destinationPosition (t.sourcePosition + got.length)
    outlets :=
      if t.fresh got = [] then t.outlets else t.outlets.map (Outlet.offered (t.fresh got)) }
  ok_iff : (t.read n).1 = .ok got ↔ ∀ i cause, ¬ Rejects t.outlets (t.fresh got) i cause
  error_iff : ∀ e, (t.read n).1 = .error e ↔
    ∃ i cause, e = .sink i cause ∧ Rejects t.outlets (t.fresh got) i cause ∧
      ∀ j < i, ∀ cause', ¬ Rejects t.outlets (t.fresh got) j cause'

theorem read_of_pass {t : Tee κ σ} (hopen : t.closed = false)
    (hle : t.sourcePosition ≤ t.destinationPosition) {n : Nat} {got : Bytes} {s : σ}
    (hr : ByteSource.read t.source n = (.ok got, s)) :
    failureOf (t.read n).1 = ((t.setSource s).pass got).1 ∧
      (failureOf (t.read n).1 = none → (t.read n).1 = .ok got) ∧
      (t.read n).2 = ((t.setSource s).pass got).2 := by
  have hclosed : ¬ t.closed = true := by simp [hopen]
  rw [read, if_neg hclosed, passThrough, hr]
  cases got with
  | nil =>
    have hstay : ¬ t.destinationPosition < t.sourcePosition := Nat.not_lt.2 hle
    have hmax := Nat.max_eq_left hle
    have hpass : (t.setSource s).pass [] = (none, t.setSource s) := by
      simp only [pass, setSource, List.length_nil, Nat.add_zero, hstay, if_false, hmax]
    rw [hpass]
    exact ⟨rfl, fun _ => rfl, rfl⟩
  | cons b d =>
    have hpass : ({ t with source := s } : Tee κ σ).pass (b :: d) = (t.setSource s).pass (b :: d) :=
      rfl
    simp only [hpass]
    rcases (t.setSource s).pass (b :: d) with ⟨_ | e, u⟩
    · exact ⟨rfl, fun _ => rfl, rfl⟩
    · exact ⟨rfl, (fun h => by cases h), rfl⟩

theorem isolated_of_read {t : Tee κ σ} (hopen : t.closed = false)
    (hle : t.sourcePosition ≤ t.destinationPosition) {n : Nat} {got : Bytes} {s : σ}
    (hr : ByteSource.read t.source n = (.ok got, s)) : t.Isolated n got s := by
  obtain ⟨hanswer, hgot, hstate⟩ := read_of_pass hopen hle hr
  have hpassed : ((t.setSource s).pass got).1 =
      if t.fresh got = [] then none else (forward (t.fresh got) 0 t.outlets).1 :=
    pass_of_fresh (t := t.setSource s) hle got
  rw [hpassed] at hanswer
  have hnew := fresh_eq_nil_iff hle got
  refine ⟨?_, ?_, fun e => ?_⟩
  · rw [hstate, pass_eq]
    by_cases hf : t.fresh got = []
    · have hd := Nat.not_lt.2 (hnew.1 hf)
      simp only [setSource, hf, hd, if_true, if_false]
    · have hd : t.destinationPosition < t.sourcePosition + got.length := by
        rw [hnew] at hf
        omega
      simp only [setSource, hf, hd, if_true, if_false]
      rfl
  · have hok : (t.read n).1 = .ok got ↔ failureOf (t.read n).1 = none :=
      ⟨fun h => by rw [h]; rfl, hgot⟩
    rw [hok, hanswer]
    split
    · simp [Rejects, *]
    · exact forward_eq_none_iff ‹_›
  · have herror : (t.read n).1 = .error e ↔ failureOf (t.read n).1 = some e := by
      rcases (t.read n).1 with e' | d <;> simp [failureOf]
    rw [herror, hanswer]
    split
    · simp [Rejects, *]
    · simp only [forward_eq_some_iff ‹_›, Nat.zero_add]

end Reading

/-- A tee that was put on a buffer over `data` at position `start`, and agrees with it about where
they are. -/
structure Tracks [ByteSource τ] [SerialSource τ] (data : Bytes) (start : Nat)
    (t : Tee κ (Replay τ)) : Prop where
  inStep : Replay.InStep data t.source
  position_eq : t.source.position = start + t.sourcePosition
  mark_eq : ∀ p limit q, t.source.mark = .active p limit → t.markPosition = some q → p = start + q
  position_le : t.sourcePosition ≤ t.destinationPosition
  mark_le : ∀ q, t.markPosition = some q → q ≤ t.destinationPosition
  reached_le : start + t.destinationPosition ≤ t.source.sourcePosition

/-- Whether an operation leaves a tee open and its mark as it is. -/
def Op.isQuiet : Op κ → Bool
  | mark _ | close => false
  | _ => true

section Runs

variable [ByteSource τ] [SerialSource τ] {data : Bytes} {start : Nat} {t : Tee κ (Replay τ)}

theorem Tracks.ofSettings {b : Replay τ} (hb : Replay.InStep data b) {sinks : List κ}
    {c : Settings} (ht : Tee.ofSettings b sinks c = .ok t) :
    Tracks data b.position t ∧ t.closed = false := by
  unfold Tee.ofSettings at ht
  split at ht
  · cases ht
  · split at ht
    · cases ht
    · obtain rfl := Except.ok.inj ht
      exact ⟨⟨hb, rfl, nofun, Nat.le_refl 0, nofun, hb.position_le⟩, rfl⟩

theorem Tracks.setMark (h : Tracks data start t) {limit : MarkLimit}
    (hs : t.source.markServed limit = true) :
    Tracks data start (t.setMark limit).2 ∧
      (t.setMark limit).2.source.mark = .set t.source.position limit ∧
      (t.setMark limit).2.markPosition = some t.sourcePosition := by
  obtain ⟨hok, hin, hmark, hpos⟩ := h.inStep.setMark hs
  have hpulled := t.source.sourcePosition_setMark limit
  have hset : ByteSource.mark t.source limit = t.source.setMark limit := rfl
  unfold Tee.setMark
  rw [hset]
  rcases hr : t.source.setMark limit with ⟨e | u, c⟩ <;> rw [hr] at hok hin hmark hpos hpulled
  · cases hok
  · refine ⟨⟨hin, hpos.trans h.position_eq, ?_, h.position_le, ?_, ?_⟩, hmark, rfl⟩
    · intro p limit' q ha hq
      obtain rfl := Option.some.inj hq
      exact (MarkState.eq_of_set (hmark.symm.trans ha)).trans h.position_eq
    · intro q hq
      obtain rfl := Option.some.inj hq
      exact h.position_le
    · exact Nat.le_trans h.reached_le (Nat.le_of_eq hpulled.symm)

theorem Tracks.reset (h : Tracks data start t) : Tracks data start t.reset.2 := by
  obtain ⟨hin, hkeep, hmoved⟩ := h.inStep.reset
  obtain ⟨store, position, hframe⟩ := t.source.reset_frame
  have hpulled : t.source.reset.2.sourcePosition = t.source.sourcePosition := by rw [hframe]
  have hreset : ByteSource.reset t.source = t.source.reset := rfl
  unfold Tee.reset
  rw [hreset]
  rcases hm : t.markPosition with _ | q
  · exact h
  · rcases hr : t.source.reset with ⟨e | u, c⟩ <;> rw [hr] at hin hkeep hmoved hpulled
    · obtain ⟨hok, -⟩ | ⟨-, hsame⟩ := hmoved
      · cases hok
      · obtain rfl : c = t.source := hsame
        exact ⟨hin, h.position_eq, fun p limit q' ha hq' => h.mark_eq p limit q' ha (hm.trans hq'),
          h.position_le, fun q' hq' => h.mark_le q' (hm.trans hq'), h.reached_le⟩
    · obtain ⟨-, limit, ha⟩ | ⟨hfail, -⟩ := hmoved
      · refine ⟨hin, h.mark_eq _ _ q ha hm, ?_, h.mark_le q hm, ?_, ?_⟩
        · intro p limit' q' hp hq'
          exact h.mark_eq p limit' q' (hkeep.symm.trans hp) (hm.trans hq')
        · exact fun q' hq' => h.mark_le q' (hm.trans hq')
        · exact Nat.le_trans h.reached_le (Nat.le_of_eq hpulled.symm)
      · cases hfail

/-- A reset to an active mark succeeds. -/
theorem Tracks.reset_active (h : Tracks data start t) {p q : Nat} {limit : MarkLimit}
    (hm : t.source.mark = .active p limit) (hq : t.markPosition = some q) :
    t.reset = (.ok (), { t with source := t.source.reset.2, sourcePosition := q }) := by
  obtain ⟨hok, -⟩ := h.inStep.reset_active hm
  have hreset : ByteSource.reset t.source = (.ok (), t.source.reset.2) := Prod.ext hok rfl
  simp only [Tee.reset, hq, hreset]

variable [ByteSink κ]

theorem Tracks.read (h : Tracks data start t) (hopen : t.closed = false) {n : Nat}
    (hs : t.source.readServed n = true) : Tracks data start (t.read n).2 := by
  obtain ⟨hin, hsince, hfail⟩ := h.inStep.read hs
  have hpulled := t.source.sourcePosition_le_read n
  have hread : ByteSource.read t.source n = t.source.read n := rfl
  have hmarked : ∀ p limit q, (t.source.read n).2.mark = .active p limit →
      t.markPosition = some q → p = start + q :=
    fun p limit q ha => h.mark_eq p limit q (MarkState.Since.active hsince ha)
  rcases hr : t.source.read n with ⟨e | got, c⟩ <;> rw [hr] at hin hmarked hfail hpulled
  · have hstate : (t.read n).2 = { t with source := c } := by
      rw [read_snd_of_open hopen, passThrough_eq, hread, hr]
    rw [hstate]
    exact ⟨hin, (hfail rfl).trans h.position_eq, hmarked, h.position_le, h.mark_le,
      Nat.le_trans h.reached_le hpulled⟩
  · have hgot := h.inStep.read_got hr
    have hpos : c.position = start + (t.sourcePosition + got.length) := by
      rw [hgot.position_eq, h.position_eq, Nat.add_assoc]
    have hle : start + (t.sourcePosition + got.length) ≤ c.sourcePosition :=
      hpos ▸ hin.position_le
    rw [(isolated_of_read hopen h.position_le (hread.trans hr)).moved]
    refine ⟨hin, hpos, hmarked, Nat.le_max_right _ _, ?_, ?_⟩
    · exact fun q hq => Nat.le_trans (h.mark_le q hq) (Nat.le_max_left _ _)
    · have hreached : start + t.destinationPosition ≤ c.sourcePosition :=
        Nat.le_trans h.reached_le hpulled
      show start + max t.destinationPosition (t.sourcePosition + got.length) ≤ c.sourcePosition
      omega

theorem Tracks.apply (h : Tracks data start t) (hopen : t.closed = false) {op : Op κ}
    (hs : op.served t = true) (hstays : (op.apply t).closed = false) :
    Tracks data start (op.apply t) := by
  have hserved (served : Bool) (h : (t.closed || served) = true) : served = true := by
    simpa [hopen] using h
  cases op with
  | read n => exact h.read hopen (hserved _ hs)
  | mark limit => exact (h.setMark hs).1
  | reset => exact h.reset
  | setEnabled index enabled =>
    obtain ⟨outlets, hframe⟩ := t.setEnabled_frame index enabled
    rw [Op.apply, hframe]
    exact { h with }
  | addSink sink => exact { h with }
  | close => cases t.close_closed.symm.trans hstays

theorem Tracks.after (h : Tracks data start t) {ops : List (Op κ)} (hs : t.served ops = true)
    (hstays : (t.after ops).closed = false) : Tracks data start (t.after ops) := by
  have hopen (t : Tee κ (Replay τ)) (ops : List (Op κ)) (hstays : (t.after ops).closed = false) :
      t.closed = false := by
    rcases hc : t.closed with _ | _
    · rfl
    · cases (after_closed hc ops).symm.trans hstays
  induction ops generalizing t with
  | nil => exact h
  | cons op rest ih =>
    simp only [served, Bool.and_eq_true] at hs
    have hnext : (op.apply t).closed = false := hopen _ rest hstays
    exact ih (h.apply (hopen t (op :: rest) hstays) hs.1 hnext) hs.2 hstays

omit [SerialSource τ] in
theorem served_append {ops more : List (Op κ)} :
    t.served (ops ++ more) = true ↔ t.served ops = true ∧ (t.after ops).served more = true := by
  induction ops generalizing t with
  | nil => simp [served, after]
  | cons op rest ih =>
    simp only [List.cons_append, served, Bool.and_eq_true, ih, and_assoc]
    rfl

omit [SerialSource τ] in
/-- A quiet operation leaves a mark without a limit as it is, and the tee open. -/
theorem Op.apply_quiet {op : Op κ} (hquiet : op.isQuiet = true) (hopen : t.closed = false) {p : Nat}
    (hm : t.source.mark = .active p .unlimited) :
    (op.apply t).closed = false ∧ (op.apply t).markPosition = t.markPosition ∧
      (op.apply t).source.mark = .active p .unlimited := by
  cases op with
  | read n =>
    have hsince := (t.source.read_moved n).2.1
    have hkept : (ByteSource.read t.source n).2.mark = .active p .unlimited := by
      rcases hsince with h | ⟨_, _, _, h, -⟩
      · exact h.trans hm
      · cases hm.symm.trans h
    rw [Op.apply, read_snd_of_open hopen, passThrough_closed, passThrough_markPosition,
      passThrough_source]
    exact ⟨hopen, rfl, hkept⟩
  | mark limit => cases hquiet
  | reset =>
    have hkept : (ByteSource.reset t.source).2.mark = .active p .unlimited :=
      t.source.reset_moved.1.trans hm
    simp only [Op.apply, Tee.reset]
    cases hq : t.markPosition with
    | none => exact ⟨hopen, hq, hm⟩
    | some q =>
      rcases hr : ByteSource.reset t.source with ⟨e | u, c⟩ <;> rw [hr] at hkept <;>
        exact ⟨hopen, rfl, hkept⟩
  | setEnabled index enabled =>
    obtain ⟨outlets, hframe⟩ := t.setEnabled_frame index enabled
    rw [Op.apply, hframe]
    exact ⟨hopen, rfl, hm⟩
  | addSink sink => exact ⟨hopen, rfl, hm⟩
  | close => cases hquiet

omit [SerialSource τ] in
theorem after_quiet {ops : List (Op κ)} (hquiet : ∀ op ∈ ops, op.isQuiet = true)
    (hopen : t.closed = false) {p : Nat} (hm : t.source.mark = .active p .unlimited) :
    (t.after ops).closed = false ∧ (t.after ops).markPosition = t.markPosition ∧
      (t.after ops).source.mark = .active p .unlimited := by
  induction ops generalizing t with
  | nil => exact ⟨hopen, rfl, hm⟩
  | cons op rest ih =>
    obtain ⟨hop, hrest⟩ := List.forall_mem_cons.1 hquiet
    obtain ⟨hnext, hmark, hkept⟩ := Op.apply_quiet hop hopen hm
    obtain ⟨hend, hmark', hkept'⟩ := ih hrest hnext hkept
    exact ⟨hend, hmark'.trans hmark, hkept'⟩

/-- What lies below the high-water mark is read again without any sink taking part. -/
theorem Tracks.replay (h : Tracks data start t) (hopen : t.closed = false) {p : Nat}
    (hm : t.source.mark = .active p .unlimited) {m : Nat}
    (hle : t.sourcePosition + m ≤ t.destinationPosition) :
    ∃ u, readFull t m = (.ok ((data.drop (start + t.sourcePosition)).take m), u) ∧
      u.outlets = t.outlets ∧ u.sourcePosition = t.sourcePosition + m ∧
      u.destinationPosition = t.destinationPosition := by
  induction m using Nat.strongRecOn generalizing t with
  | ind m ih =>
    rcases Nat.eq_zero_or_pos m with rfl | hpos
    · exact ⟨t, by rw [List.take_zero]; rfl, rfl, rfl, rfl⟩
    · have hbehind : t.source.position < t.source.sourcePosition := by
        have := h.reached_le
        rw [h.position_eq]
        omega
      obtain ⟨got, c, hr, hsome⟩ := h.inStep.replays hbehind hpos
      have hgot := h.inStep.read_got hr
      have hlen : got.length ≤ m := hgot.length_le
      have hpositive : 0 < got.length := List.length_pos_iff.2 hsome
      have hiso := isolated_of_read hopen h.position_le (show ByteSource.read t.source m = _ from hr)
      have hold : t.fresh got = [] := (fresh_eq_nil_iff h.position_le got).2 (by omega)
      have hok : (t.read m).1 = .ok got := hiso.ok_iff.2 fun i cause hi => hi.1 hold
      have hmoved := hiso.moved
      have hmax : max t.destinationPosition (t.sourcePosition + got.length) =
          t.destinationPosition := by omega
      rw [if_pos hold, hmax] at hmoved
      have hquiet : (Op.read m : Op κ).isQuiet = true := rfl
      have hnext := h.read hopen (h.inStep.readServed_replay hbehind hm m)
      obtain ⟨hopen', -, hm'⟩ := Op.apply_quiet hquiet hopen hm
      have hstep : ByteSource.read t m = (.ok got, (t.read m).2) := Prod.ext hok rfl
      have hposition : (t.read m).2.sourcePosition = t.sourcePosition + got.length := by rw [hmoved]
      have hdestination : (t.read m).2.destinationPosition = t.destinationPosition := by rw [hmoved]
      have houtlets : (t.read m).2.outlets = t.outlets := by rw [hmoved]
      obtain ⟨u, hrest, huo, hup, hud⟩ := ih (m - got.length) (by omega) hnext hopen' hm'
        (by rw [hposition, hdestination]; omega)
      refine ⟨u, ?_, huo.trans houtlets, by omega, hud.trans hdestination⟩
      have hfront : (data.drop (start + t.sourcePosition)).take got.length = got := by
        rw [← h.position_eq]
        exact (List.prefix_iff_eq_take.1 hgot.from_position).symm
      have hback : (data.drop (start + t.sourcePosition)).take m =
          got ++ (data.drop (start + (t.read m).2.sourcePosition)).take (m - got.length) := by
        conv =>
          lhs
          rw [← Nat.add_sub_cancel' hlen, List.take_add, hfront, List.drop_drop]
        rw [hposition, Nat.add_assoc]
      obtain ⟨b, d, rfl⟩ := List.exists_cons_of_ne_nil hsome
      rw [hback, readFull_pos t hpos, hstep]
      show prepend (b :: d) (readFull (t.read m).2 (m - (b :: d).length)) = _
      rw [hrest]
      rfl

end Runs

/-- However often sinks of a tee over a replay buffer fail whose store does not: a read that gets
bytes moves the tee and serves every sink on its own, and with a mark without a limit what was read
since can be read again after a reset, without the sinks seeing any of it a second time. -/
theorem sink_failures_isolated [ByteSource τ] [SerialSource τ] [ByteSink κ] {source : τ}
    {b : Replay τ} (hb : Replay.New source b) (hempty : b.store.log = [])
    {calls : List Replay.Op} (hcalls : b.served calls = true) {sinks : List κ} {c : Settings}
    {t : Tee κ (Replay τ)} (ht : Tee.ofSettings (b.after calls) sinks c = .ok t) :
    let data := (SerialSource.rest source).drop (b.after calls).position
    (∀ ops, t.served ops = true → (t.after ops).closed = false →
      ∀ n got s, ByteSource.read (t.after ops).source n = (.ok got, s) →
        got <+: data.drop (t.after ops).sourcePosition ∧ (t.after ops).Isolated n got s) ∧
    ∀ before during, t.served (before ++ .mark .unlimited :: during) = true →
      (t.after before).closed = false → (∀ op ∈ during, op.isQuiet = true) →
      let q := (t.after before).sourcePosition
      let u := t.after (before ++ .mark .unlimited :: during)
      u.reset.1 = .ok () ∧ u.reset.2.sourcePosition = q ∧
        u.reset.2.destinationPosition = u.destinationPosition ∧ u.reset.2.outlets = u.outlets ∧
        q ≤ u.destinationPosition ∧ u.destinationPosition ≤ data.length ∧
        ∀ m, q + m ≤ u.destinationPosition →
          ∃ v, readFull u.reset.2 m = (.ok ((data.drop q).take m), v) ∧ v.outlets = u.outlets ∧
            v.sourcePosition = q + m ∧ v.destinationPosition = u.destinationPosition := by
  intro data
  have hbuffer := ((hb.inStep hempty).after hcalls (.inl rfl)).1
  obtain ⟨hstart, hopen⟩ := Tracks.ofSettings hbuffer ht
  refine ⟨fun ops hs hstays n got s hr => ?_, fun before during hs hstays hquiet => ?_⟩
  · have h := hstart.after hs hstays
    have hgot := (h.inStep.read_got hr).from_position
    rw [h.position_eq, ← List.drop_drop] at hgot
    exact ⟨hgot, isolated_of_read hstays h.position_le hr⟩
  · have hsplit : t.after (before ++ .mark .unlimited :: during) =
        ((t.after before).setMark .unlimited).2.after during := List.foldl_append
    obtain ⟨hbefore, hrest⟩ := served_append.1 hs
    have hmarkable : (t.after before).source.markServed .unlimited = true :=
      (Bool.and_eq_true_iff.1 hrest).1
    obtain ⟨-, hset, hq⟩ := (hstart.after hbefore hstays).setMark hmarkable
    have hmarked : ((t.after before).setMark .unlimited).2.closed = false :=
      (setMark_closed _ _).trans hstays
    obtain ⟨hclosed, hposition, hactive⟩ := after_quiet hquiet hmarked hset
    rw [← hsplit] at hclosed hposition hactive
    have h := hstart.after hs hclosed
    have hmark := hposition.trans hq
    have hreset := h.reset_active hactive hmark
    have hback := h.reset
    rw [hreset] at hback
    refine ⟨by rw [hreset], by rw [hreset], by rw [hreset], by rw [hreset], h.mark_le _ hmark, ?_,
      fun m hle => ?_⟩
    · have hreached := h.reached_le
      have hpulled := h.inStep.pulled_le
      rw [List.length_drop]
      omega
    · have hkept : (t.after (before ++ .mark .unlimited :: during)).source.reset.2.mark =
          .active (t.after before).source.position .unlimited :=
        (Replay.reset_moved _).1.trans hactive
      obtain ⟨v, hread, hvo, hvp, hvd⟩ := hback.replay hclosed hkept hle
      rw [hreset]
      refine ⟨v, ?_, hvo, hvp, hvd⟩
      rw [hread, List.drop_drop]

/-- A tee on a buffer that was read before: its second sink rejects what follows the mark. The read
that fails moves the tee, and what it got is read again after a second reset. -/
theorem sink_failures_isolated_rejecting :
    let source : MockSource := { rest := [1, 2, 3, 4, 5, 6, 7, 8], maxRead := some 3 }
    let b : Replay MockSource := Replay.withStore source (Store.Settings.build ⟨some 2, none⟩ true)
    let sinks : List MockSink := [{}, { failAfter := some 3 }]
    let t : Tee MockSink (Replay MockSource) :=
      { source := b.after [.read 1], outlets := sinks.map ({ sink := · }) }
    let during : List (Op MockSink) := [.read 3, .reset, .setEnabled 0 false, .read 2, .read 4]
    let w := t.after [.read 1, .mark .unlimited]
    let u := t.after ([.read 1] ++ .mark .unlimited :: during)
    Replay.New source b ∧ b.store.log = [] ∧ b.served [.read 1] = true ∧
      Tee.ofSettings (b.after [.read 1]) sinks {} = .ok t ∧
      t.served ([.read 1] ++ .mark .unlimited :: during) = true ∧
      (w.read 3).1.isOk = false ∧ (w.read 3).2.sourcePosition = 4 ∧
      ∃ v, readFull u.reset.2 3 = (.ok [3, 4, 5], v) ∧ v.outlets = u.outlets := by
  intro source b sinks t during w u
  have hb : Replay.New source b := .withStore _
  have hempty : b.store.log = [] := by decide +kernel
  have hcalls : b.served [.read 1] = true := by decide +kernel
  have ht : Tee.ofSettings (b.after [.read 1]) sinks {} = .ok t := rfl
  have hs : t.served ([.read 1] ++ .mark .unlimited :: during) = true := by decide +kernel
  obtain ⟨hreads, hresets⟩ := sink_failures_isolated hb hempty hcalls ht
  have hgot : (ByteSource.read w.source 3).1.isOk = true ∧
      handedOver (ByteSource.read w.source 3).1 = [3, 4, 5] := by decide +kernel
  have hr : ByteSource.read w.source 3 = (.ok [3, 4, 5], (ByteSource.read w.source 3).2) := by
    rcases hread : ByteSource.read w.source 3 with ⟨e | got, s⟩ <;> rw [hread] at hgot
    · cases hgot.1
    · rw [← hgot.2]
      rfl
  obtain ⟨-, hiso⟩ := hreads [.read 1, .mark .unlimited] (by decide +kernel) (by decide +kernel) 3
    [3, 4, 5] _ hr
  obtain ⟨-, -, -, -, -, -, hagain⟩ :=
    hresets [.read 1] during hs (by decide +kernel) (by decide +kernel)
  obtain ⟨v, hv, hvo, -⟩ := hagain 3 (by decide +kernel)
  refine ⟨hb, hempty, hcalls, ht, hs, by decide +kernel, ?_, v, ?_, hvo⟩
  · rw [hiso.moved]
    decide +kernel
  · rw [hv]
    exact Prod.ext (congrArg Except.ok (by decide +kernel)) rfl

end Tee

end StreamLayers
