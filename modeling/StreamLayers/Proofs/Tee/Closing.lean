import StreamLayers.Proofs.Exhaustion
import StreamLayers.Proofs.Tee.Calls
import StreamLayers.Proofs.Tee.Run

/-!
Closing a tee. Whatever fails, it makes the same calls: it reads its source to the end, closes it
and lets go of every sink. It reports the first failure, unless a read fails while it drains: that
one takes the place of what the sinks refused before.
-/

namespace StreamLayers

namespace Tee

open ByteSource

variable {κ σ : Type}

/-- The parts of `blocks` past their first `skip` bytes. -/
def unseen : Nat → List Bytes → List Bytes
  | _, [] => []
  | skip, d :: rest =>
    if skip < d.length then d.drop skip :: unseen (skip - d.length) rest
    else unseen (skip - d.length) rest

/-- The calls of a drain that gets `blocks`: after each read, what is new is offered. -/
def drainCalls (n : Nat) (targets : List Nat) : Nat → List Bytes → List Call
  | _, [] => [.read n]
  | skip, d :: rest =>
    .read n :: (offer targets skip d ++ drainCalls n targets (skip - d.length) rest)

/-- The calls of a drain of `t` that gets `blocks`. -/
def drainingCalls (t : Tee κ σ) (blocks : List Bytes) : List Call :=
  drainCalls t.settings.drainChunk (listening 0 t.flags)
    (t.destinationPosition - t.sourcePosition) blocks

/-- The calls of a close that gets `blocks` before: it drains, if it is to, closes the source and
lets go of the sinks. -/
def closingCalls (t : Tee κ σ) (blocks : List Bytes) : List Call :=
  (if t.settings.drainOnClose then t.drainingCalls blocks else []) ++
    .closeSource :: releases t.settings.closeSinks 0 t.outlets.length

theorem flatten_unseen (skip : Nat) (blocks : List Bytes) :
    (unseen skip blocks).flatten = blocks.flatten.drop skip := by
  induction blocks generalizing skip with
  | nil => simp [unseen]
  | cons d rest ih =>
    rw [List.flatten_cons, List.drop_append, ← ih]
    by_cases hskip : skip < d.length
    · simp [unseen, hskip]
    · have hnone : d.drop skip = [] := List.drop_eq_nil_of_le (Nat.le_of_not_lt hskip)
      simp [unseen, hskip, hnone]

theorem nil_not_mem_unseen (skip : Nat) (blocks : List Bytes) : [] ∉ unseen skip blocks := by
  induction blocks generalizing skip with
  | nil => exact List.not_mem_nil
  | cons d rest ih =>
    by_cases hskip : skip < d.length
    · have hsome : d.drop skip ≠ [] := by
        rw [Ne, List.drop_eq_nil_iff]
        exact Nat.not_le_of_gt hskip
      simp [unseen, hskip, ih]
    · simp [unseen, hskip, ih]

section Sinks

variable {n : Nat} {targets : List Nat}

theorem filter_drainCalls_source (skip : Nat) (blocks : List Bytes) :
    (drainCalls n targets skip blocks).filter (·.sink? = none) =
      List.replicate (blocks.length + 1) (.read n) := by
  induction blocks generalizing skip with
  | nil => rfl
  | cons d rest ih =>
    have hoffer : (offer targets skip d).filter (·.sink? = none) = [] := by
      rw [List.filter_eq_nil_iff]
      intro c hc
      unfold offer at hc
      split at hc
      · obtain ⟨i, -, rfl⟩ := List.mem_map.1 hc
        simp
      · cases hc
    simp [drainCalls, hoffer, ih, List.replicate_succ]

/-- What a drain asks of one sink. -/
theorem filter_drainCalls (hnodup : targets.Nodup) (skip : Nat) (blocks : List Bytes) (k : Nat) :
    (drainCalls n targets skip blocks).filter (·.sink? = some k) =
      (if k ∈ targets then unseen skip blocks else []).map (.write k) := by
  induction blocks generalizing skip with
  | nil => simp [drainCalls, unseen]
  | cons d rest ih =>
    simp only [drainCalls, List.filter_append, filter_offer hnodup, ih, List.filter_cons,
      Call.sink?_read, reduceCtorEq, decide_false, Bool.false_eq_true, if_false]
    by_cases hk : k ∈ targets <;> by_cases hskip : skip < d.length <;> simp [unseen, hk, hskip]

theorem filter_releases (closeSinks : Bool) (count k : Nat) :
    (releases closeSinks 0 count).filter (·.sink? = some k) =
      if k < count then [.release closeSinks k] else [] := by
  have hcall : (fun c : Call => decide (c.sink? = some k)) ∘ Call.release closeSinks = (· == k) := by
    funext i
    simp [Bool.beq_eq_decide_eq]
  rw [releases, List.filter_map, hcall, List.filter_beq]
  by_cases hk : k < count
  · rw [if_pos hk, List.Nodup.count List.nodup_range', if_pos (by simpa using hk)]
    rfl
  · rw [if_neg hk, List.count_eq_zero_of_not_mem (by simpa using hk)]
    rfl

theorem filter_releases_source (closeSinks : Bool) (index count : Nat) :
    (releases closeSinks index count).filter (·.sink? = none) = [] := by
  rw [List.filter_eq_nil_iff]
  intro c hc
  obtain ⟨i, -, rfl⟩ := List.mem_map.1 hc
  simp

/-- What a close asks of the source. -/
theorem filter_closingCalls_source (t : Tee κ σ) (blocks : List Bytes) :
    (t.closingCalls blocks).filter (·.sink? = none) =
      (if t.settings.drainOnClose then
        List.replicate (blocks.length + 1) (.read t.settings.drainChunk) else []) ++
          [.closeSource] := by
  rw [closingCalls, List.filter_append, List.filter_cons, filter_releases_source]
  split
  · rw [drainingCalls, filter_drainCalls_source]
    rfl
  · rfl

/-- What a close asks of the sink of outlet `k` that offers `data`: to take each block of it, if the
outlet is enabled, and then to be let go of. -/
def sinkCalls (t : Tee κ σ) (data : List Bytes) (k : Nat) : List Call :=
  match t.outlets[k]? with
  | none => []
  | some o =>
    (if o.enabled then data else []).map (.write k) ++ [.release t.settings.closeSinks k]

theorem filter_closingCalls (t : Tee κ σ) {blocks : List Bytes}
    (hblocks : t.settings.drainOnClose = false → blocks = []) (k : Nat) :
    (t.closingCalls blocks).filter (·.sink? = some k) =
      t.sinkCalls (unseen (t.destinationPosition - t.sourcePosition) blocks) k := by
  have hdraining : (if t.settings.drainOnClose then t.drainingCalls blocks else []).filter
      (·.sink? = some k) = (if k ∈ listening 0 t.flags then
        unseen (t.destinationPosition - t.sourcePosition) blocks else []).map (.write k) := by
    by_cases hd : t.settings.drainOnClose = true
    · rw [if_pos hd, drainingCalls, filter_drainCalls (nodup_listening 0 t.flags)]
    · rw [if_neg hd, hblocks (by simpa using hd)]
      simp [unseen]
  rw [closingCalls, List.filter_append, List.filter_cons, filter_releases, hdraining, sinkCalls]
  rcases ho : t.outlets[k]? with _ | o
  · have hlen : ¬ k < t.outlets.length := Nat.not_lt.2 (List.getElem?_eq_none_iff.1 ho)
    have hoff : k ∉ listening 0 t.flags := by simp [mem_listening, flags, ho]
    rw [if_neg hlen, if_neg hoff]
    rfl
  · have hlen : k < t.outlets.length := (List.getElem?_eq_some_iff.1 ho).1
    have hon : k ∈ listening 0 t.flags ↔ o.enabled = true := by simp [mem_listening, flags, ho]
    simp [hlen, hon]

end Sinks

variable [ByteSource σ]

/-- What a close of `t` reads: all of the source, if it is to drain. -/
structure Drained (t : Tee κ σ) (blocks : List Bytes) (failure : Option Fault) : Prop where
  drains : t.settings.drainOnClose = true → Drains t.settings.drainChunk t.source blocks failure
  idle : t.settings.drainOnClose = false → blocks = [] ∧ failure = none

theorem Drained.eq_readBlocks {t : Tee κ σ} {blocks : List Bytes} {failure : Option Fault}
    (h : t.Drained blocks failure) (hd : t.settings.drainOnClose = true)
    (hleft : ReadsAtMost (left t.source) t.source) :
    blocks = (readBlocks t.source t.settings.drainChunk).blocks ∧
      failure = (readBlocks t.source t.settings.drainChunk).failure :=
  (h.drains hd).unique (drains_readBlocks hleft _)

variable [ByteSink κ]

/-- What a drain comes to that gets `blocks` and ends with `failure`, if its writes fail as in
`refused`. Only a failed read takes the place of what failed before it. -/
structure DrainedBy (t : Tee κ σ) (fuel : Nat) (first : Option Fault) (blocks : List Bytes)
    (failure : Option Fault) (refused : List Fault) : Prop where
  drains : Drains t.settings.drainChunk t.source blocks failure
  failures : (t.ends.make (t.drainingCalls blocks)).1 = refused ++ failure.toList
  refusals : ∀ e ∈ refused, ∃ index cause, e = .sink index cause
  ends_eq : (drainFrom fuel t first).2.ends = (t.ends.make (t.drainingCalls blocks)).2
  reported : (drainFrom fuel t first).1 = failure.or (first.or refused.head?)

theorem drainedBy_nil {t : Tee κ σ}
    (h : handedOver (ByteSource.read t.source t.settings.drainChunk).1 = []) (fuel : Nat)
    (first : Option Fault) :
    t.DrainedBy fuel first [] (failureOf (ByteSource.read t.source t.settings.drainChunk).1) [] := by
  rcases hr : ByteSource.read t.source t.settings.drainChunk with ⟨e | d, s⟩
  · have hdrain : drainFrom fuel t first = (some e, { t with source := s }) := by
      unfold drainFrom
      simp only [passThrough, hr]
    refine ⟨.failed (by rw [hr]), ?_, fun _ h => absurd h List.not_mem_nil, ?_, ?_⟩ <;>
      simp [drainingCalls, drainCalls, Ends.make, Call.make, ends, failureOf, hr, hdrain]
  · rw [hr] at h
    obtain rfl : d = [] := h
    have hdrain : drainFrom fuel t first = (first, { t with source := s }) := by
      unfold drainFrom
      simp only [passThrough, hr, Option.or_none]
    refine ⟨.ended (by rw [hr]), ?_, fun _ h => absurd h List.not_mem_nil, ?_, ?_⟩ <;>
      simp [drainingCalls, drainCalls, Ends.make, Call.make, ends, failureOf, hr, hdrain]

omit [ByteSource σ] in
theorem drainingCalls_cons (t : Tee κ σ) (s : σ) (data : Bytes) (blocks : List Bytes) :
    t.drainingCalls (data :: blocks) =
      .read t.settings.drainChunk ::
        ((t.setSource s).offers data ++ ((t.setSource s).pass data).2.drainingCalls blocks) := by
  have hskip : max t.destinationPosition (t.sourcePosition + data.length) -
      (t.sourcePosition + data.length) =
      t.destinationPosition - t.sourcePosition - data.length := by omega
  simp only [drainingCalls, drainCalls, offers, setSource, flags_pass, pass_settings,
    pass_sourcePosition, pass_destinationPosition, hskip]
  rfl

theorem DrainedBy.cons {t : Tee κ σ} {fuel : Nat} {first : Option Fault} {data : Bytes} {s : σ}
    (hr : ByteSource.read t.source t.settings.drainChunk = (.ok data, s)) (hdata : data ≠ [])
    {blocks : List Bytes} {failure : Option Fault} {refused : List Fault}
    (h : ((t.setSource s).pass data).2.DrainedBy fuel (first.or ((t.setSource s).pass data).1)
      blocks failure refused) :
    ∃ refused', t.DrainedBy (fuel + 1) first (data :: blocks) failure refused' := by
  obtain ⟨hoffered, hpassed⟩ := make_offers (t.setSource s) hdata
  have hread : Call.make t.ends (.read t.settings.drainChunk) = (none, (t.setSource s).ends) := by
    simp only [Call.make, ends, hr, failureOf, setSource]
  have hdrain : drainFrom (fuel + 1) t first = drainFrom fuel ((t.setSource s).pass data).2
      (first.or ((t.setSource s).pass data).1) := by
    obtain ⟨b, d, rfl⟩ := List.exists_cons_of_ne_nil hdata
    rw [drainFrom]
    simp only [passThrough, hr, setSource]
  have hmade : t.ends.make (t.drainingCalls (data :: blocks)) =
      (((t.setSource s).ends.make ((t.setSource s).offers data)).1 ++ refused ++ failure.toList,
        (((t.setSource s).pass data).2.ends.make
          (((t.setSource s).pass data).2.drainingCalls blocks)).2) := by
    rw [t.drainingCalls_cons s, Ends.make_cons, hread, Ends.make_append, hpassed, h.failures]
    simp
  refine ⟨_, .more (by rw [hr]) hdata ?_, by rw [hmade], ?_, ?_, ?_⟩
  · have hdrains := h.drains
    rw [pass_source, pass_settings] at hdrains
    rw [hr]
    exact hdrains
  · intro e he
    rcases List.mem_append.1 he with he | he
    · exact refusal_of_mem_offer he
    · exact h.refusals e he
  · rw [hdrain, hmade]
    exact h.ends_eq
  · rw [hdrain, h.reported, List.head?_append, hoffered, Option.or_assoc]

/-- A drain makes its calls whatever the sinks refuse. -/
theorem exists_drainedBy {fuel : Nat} {t : Tee κ σ} (h : ReadsAtMost fuel t.source)
    (first : Option Fault) :
    ∃ blocks failure refused, t.DrainedBy fuel first blocks failure refused := by
  induction fuel generalizing t first with
  | zero =>
    have hnone := (h.step t.settings.drainChunk).1
    exact ⟨_, _, _, drainedBy_nil (List.eq_nil_of_length_eq_zero (Nat.le_zero.1 hnone)) 0 first⟩
  | succ fuel ih =>
    by_cases hnone : handedOver (ByteSource.read t.source t.settings.drainChunk).1 = []
    · exact ⟨_, _, _, drainedBy_nil hnone (fuel + 1) first⟩
    · have hlater := (h.step t.settings.drainChunk).2
      rcases hr : ByteSource.read t.source t.settings.drainChunk with ⟨e | data, s⟩ <;>
        rw [hr] at hnone hlater
      · exact absurd rfl hnone
      · have hpos : 0 < data.length := List.length_pos_iff.2 hnone
        have hleft : ReadsAtMost fuel ((t.setSource s).pass data).2.source := by
          rw [pass_source]
          exact fun sizes => Nat.le_trans (hlater sizes) (by simp only [handedOver]; omega)
        obtain ⟨blocks, failure, refused, htail⟩ :=
          ih hleft (first.or ((t.setSource s).pass data).1)
        obtain ⟨refused', hall⟩ := htail.cons hr hnone
        exact ⟨_, _, _, hall⟩

/-- A drain as part of a close. -/
theorem drain_calls {t : Tee κ σ} (h : ReadsAtMost (left t.source) t.source) :
    ∃ blocks failure refused, t.Drained blocks failure ∧
      let draining := if t.settings.drainOnClose then t.drainingCalls blocks else []
      (t.ends.make draining).1 = refused ++ failure.toList ∧
        (∀ e ∈ refused, ∃ index cause, e = .sink index cause) ∧
        t.drain.2.ends = (t.ends.make draining).2 ∧ t.drain.1 = failure.or refused.head? := by
  unfold drain
  by_cases hd : t.settings.drainOnClose = true
  · obtain ⟨blocks, failure, refused, hby⟩ := exists_drainedBy h none
    have hdrained : t.Drained blocks failure := ⟨fun _ => hby.drains, fun hoff => by simp [hd] at hoff⟩
    simp only [hd, if_true]
    exact ⟨blocks, failure, refused, hdrained, hby.failures, hby.refusals, hby.ends_eq,
      hby.reported⟩
  · have hidle : t.Drained [] none := ⟨fun hon => absurd hon hd, fun _ => ⟨rfl, rfl⟩⟩
    simp only [hd, if_false, Bool.false_eq_true]
    exact ⟨[], none, [], hidle, rfl, nofun, rfl, rfl⟩

theorem failureOf_close {t : Tee κ σ} (hopen : t.closed = false) :
    let u := t.shut.drain.2
    failureOf t.close.1 = (t.shut.drain.1.or (failureOf (ByteSource.close u.source).1)).or
      (closeOutlets u.settings.closeSinks 0 u.outlets).1 := by
  unfold close
  simp only [hopen, Bool.false_eq_true, if_false]
  rw [show ({ t with closed := true } : Tee κ σ) = t.shut from rfl]
  rcases t.shut.drain with ⟨draining, u⟩
  rcases ByteSource.close u.source with ⟨closing, s⟩
  rcases closeOutlets u.settings.closeSinks 0 u.outlets with ⟨releasing, outlets⟩
  cases closing with
  | error e =>
    simp only [failureOf]
    cases (draining.or (some e)).or releasing <;> rfl
  | ok _ =>
    simp only [failureOf]
    cases (draining.or none).or releasing <;> rfl

/-- A close makes its calls whatever fails. Only a read that fails while it drains takes the place
of what failed before. -/
theorem close_calls {t : Tee κ σ} (hopen : t.closed = false)
    (h : ReadsAtMost (left t.source) t.source) :
    ∃ blocks failure refused later, t.Drained blocks failure ∧
      (t.ends.make (t.closingCalls blocks)).1 = refused ++ failure.toList ++ later ∧
      (∀ e ∈ refused, ∃ index cause, e = .sink index cause) ∧
      t.close.2.ends = (t.ends.make (t.closingCalls blocks)).2 ∧
      failureOf t.close.1 = failure.or (refused ++ failure.toList ++ later).head? := by
  obtain ⟨blocks, failure, refused, hdrained, hfailures, hrefused, hends, hreported⟩ :=
    drain_calls (t := t.shut) h
  have hanswer := failureOf_close hopen
  have hstate := close_eq t hopen
  have hsettings : t.shut.drain.2.settings = t.settings := by
    rw [drain_eq_passes, passChunks_settings]
    rfl
  have hcount : t.shut.drain.2.outlets.length = t.outlets.length := by
    have hflags : t.shut.drain.2.flags = t.flags := by
      rw [drain_eq_passes, passChunks_flags]
      rfl
    simpa [flags] using congrArg List.length hflags
  rw [← drain_eq_passes] at hstate
  generalize t.shut.drain.2 = u at hends hanswer hstate hsettings hcount
  obtain ⟨hreleased, hleft⟩ :=
    make_releases (ByteSource.close u.source).2 u.settings.closeSinks [] u.outlets
  have hdraining : t.ends.make (if t.settings.drainOnClose then t.drainingCalls blocks else []) =
      (refused ++ failure.toList, u.ends) := Prod.ext hfailures hends.symm
  have hmade : t.ends.make (t.closingCalls blocks) =
      (refused ++ failure.toList ++ ((failureOf (ByteSource.close u.source).1).toList ++
        ((⟨(ByteSource.close u.source).2, u.outlets⟩ : Ends κ σ).make
          (releases u.settings.closeSinks 0 u.outlets.length)).1),
        ⟨(ByteSource.close u.source).2, u.outlets.map (Outlet.ended u.settings.closeSinks)⟩) := by
    rw [closingCalls, Ends.make_append, hdraining, ← hsettings, ← hcount, Ends.make_cons]
    exact Prod.ext rfl hleft
  refine ⟨blocks, failure, refused, _, ⟨hdrained.drains, hdrained.idle⟩, congrArg Prod.fst hmade,
    hrefused, ?_, ?_⟩
  · rw [hmade, hstate]
    rfl
  · have hfirst := hreleased.symm
    simp only [List.length_nil, List.nil_append] at hfirst
    rw [hanswer, hreported, hfirst, List.head?_append, List.head?_append, List.head?_append]
    cases failure <;> simp [Option.or_assoc]

theorem close_of_closed {t : Tee κ σ} (h : t.closed = true) : t.close = (.ok (), t) := by
  simp only [close, h, if_true]

theorem read_of_closed {t : Tee κ σ} (h : t.closed = true) (n : Nat) :
    t.read n = (.error (.closed "tee"), t) := by
  simp only [read, h, if_true]

theorem close_closed (t : Tee κ σ) : t.close.2.closed = true := by
  by_cases hopen : t.closed = false
  · rw [close_eq t hopen]
    exact passChunks_closed _ _
  · have hclosed : t.closed = true := by simpa using hopen
    rw [close_of_closed hclosed]
    exact hclosed

omit [ByteSink κ] in
theorem setMark_closed (t : Tee κ σ) (limit : MarkLimit) :
    (t.setMark limit).2.closed = t.closed := by
  unfold setMark
  rcases ByteSource.mark t.source limit with ⟨e | u, s⟩ <;> rfl

omit [ByteSink κ] in
theorem reset_closed (t : Tee κ σ) : t.reset.2.closed = t.closed := by
  unfold Tee.reset
  cases t.markPosition with
  | none => rfl
  | some p => rcases ByteSource.reset t.source with ⟨e | u, s⟩ <;> rfl

omit [ByteSource σ] [ByteSink κ] in
theorem setEnabled_frame (t : Tee κ σ) (index : Nat) (enabled : Bool) :
    ∃ outlets, (t.setEnabled index enabled).2 = { t with outlets } := by
  unfold setEnabled
  split
  · exact ⟨_, rfl⟩
  · exact ⟨t.outlets, rfl⟩

theorem Op.apply_closed {t : Tee κ σ} (h : t.closed = true) (op : Op κ) :
    (op.apply t).closed = true := by
  cases op with
  | read n =>
    rw [Op.apply, read_of_closed h]
    exact h
  | mark limit => exact (t.setMark_closed limit).trans h
  | reset => exact t.reset_closed.trans h
  | setEnabled index enabled =>
    obtain ⟨outlets, hframe⟩ := t.setEnabled_frame index enabled
    rw [Op.apply, hframe]
    exact h
  | addSink sink => exact h
  | close => exact t.close_closed

theorem after_closed {t : Tee κ σ} (h : t.closed = true) (ops : List (Op κ)) :
    (t.after ops).closed = true := by
  induction ops generalizing t with
  | nil => exact h
  | cons op rest ih => exact ih (op.apply_closed h)

/-- Closing an open tee makes every call of a close, whichever of them fail: it reads the source to
its end or its first failure and offers what the sinks have not seen, closes the source, and lets go
of every sink. It succeeds only if all of that does, and afterwards the tee does nothing more. -/
theorem close_attempts_all {t : Tee κ σ} (hopen : t.closed = false)
    (h : ReadsAtMost (left t.source) t.source) :
    ∃ blocks failure, t.Drained blocks failure ∧
      let calls := t.closingCalls blocks
      let data := unseen (t.destinationPosition - t.sourcePosition) blocks
      t.close.2.ends = (t.ends.make calls).2 ∧
        (t.close.1 = .ok () ↔ (t.ends.make calls).1 = []) ∧
        calls.filter (·.sink? = none) =
          (if t.settings.drainOnClose then
            List.replicate (blocks.length + 1) (.read t.settings.drainChunk) else []) ++
              [.closeSource] ∧
        (∀ k, calls.filter (·.sink? = some k) = t.sinkCalls data k) ∧
        [] ∉ data ∧
        data.flatten = blocks.flatten.drop (t.destinationPosition - t.sourcePosition) ∧
        ∀ ops, (t.close.2.after ops).close = (.ok (), t.close.2.after ops) ∧
          ∀ n, (t.close.2.after ops).read n = (.error (.closed "tee"), t.close.2.after ops) := by
  obtain ⟨blocks, failure, refused, later, hdrained, hfailures, -, hends, hreported⟩ :=
    close_calls hopen h
  have hblocks : t.settings.drainOnClose = false → blocks = [] := fun hd => (hdrained.idle hd).1
  refine ⟨blocks, failure, hdrained, hends, ?_, filter_closingCalls_source t blocks,
    filter_closingCalls t hblocks, nil_not_mem_unseen _ _, flatten_unseen _ _, fun ops => ?_⟩
  · have hok : t.close.1 = .ok () ↔ failureOf t.close.1 = none := by
      rcases t.close.1 with e | u <;> simp [failureOf]
    rw [hok, hreported, hfailures]
    cases failure <;> simp
  · have hclosed := after_closed t.close_closed ops
    exact ⟨close_of_closed hclosed, read_of_closed hclosed⟩

/-- A tee that was reset closes over two sinks, one of them disabled and the other full, and over a
source that cannot be closed. What is drained below the high-water mark is not offered again. -/
theorem close_attempts_all_failing :
    let source : MockSource :=
      { rest := [1, 2, 3, 4, 5, 6, 7, 8], maxRead := some 3, failClose := true }
    let b : Replay MockSource := Replay.withStore source (Store.Settings.build ⟨some 2, none⟩ true)
    let sinks : List MockSink := [{}, { failAfter := some 3 }]
    let t : Tee MockSink (Replay MockSource) :=
      { source := b, outlets := sinks.map ({ sink := · }), settings := { drainChunk := 4 } }
    let u := t.after [.mark .unlimited, .read 2, .read 2, .reset, .setEnabled 0 false]
    let calls := u.closingCalls [[1, 2], [3, 4], [5, 6, 7], [8]]
    u.closed = false ∧ ReadsAtMost (left u.source) u.source ∧
      u.close.2.ends = (u.ends.make calls).2 ∧ (u.ends.make calls).1 ≠ [] ∧
      calls.filter (·.sink? = some 0) = [.closeSink 0] ∧
      calls.filter (·.sink? = some 1) = [.write 1 [5, 6, 7], .write 1 [8], .closeSink 1] ∧
      u.close.2.close = (.ok (), u.close.2) := by
  intro source b sinks t u calls
  have hopen : u.closed = false := by decide +kernel
  have hleft : ReadsAtMost (left u.source) u.source := Replay.readsAtMost (readsAtMost_left _)
  have hread : (readBlocks u.source u.settings.drainChunk).blocks =
      [[1, 2], [3, 4], [5, 6, 7], [8]] := by decide +kernel
  obtain ⟨blocks, failure, hdrained, hends, hok, -, hsinks, -, -, hlater⟩ :=
    close_attempts_all hopen hleft
  obtain ⟨hblocks, -⟩ := hdrained.eq_readBlocks (by decide +kernel) hleft
  obtain rfl := hblocks.trans hread
  have hfails : u.close.1 ≠ .ok () := by
    intro h
    have hanswer : u.close.1.isOk = false := by decide +kernel
    rw [h] at hanswer
    cases hanswer
  refine ⟨hopen, hleft, hends, mt hok.2 hfails, ?_, ?_, (hlater []).1⟩
  · rw [hsinks 0]
    decide +kernel
  · rw [hsinks 1]
    decide +kernel

/-- The first failure of a close is what it reports, unless a read fails while it drains: that one
is reported although a sink may have refused a block before. -/
theorem close_reports_first_iff {t : Tee κ σ} (hopen : t.closed = false)
    (h : ReadsAtMost (left t.source) t.source) :
    ∃ blocks failure refused later, t.Drained blocks failure ∧
      (t.ends.make (t.closingCalls blocks)).1 = refused ++ failure.toList ++ later ∧
      (∀ e ∈ refused, ∃ index cause, e = .sink index cause) ∧
      failureOf t.close.1 = failure.or (t.ends.make (t.closingCalls blocks)).1.head? ∧
      (failureOf t.close.1 = (t.ends.make (t.closingCalls blocks)).1.head? ↔
        failure = none ∨ refused = [] ∨ failure = refused.head?) := by
  obtain ⟨blocks, failure, refused, later, hdrained, hfailures, hrefused, -, hreported⟩ :=
    close_calls hopen h
  refine ⟨blocks, failure, refused, later, hdrained, hfailures, hrefused, ?_, ?_⟩
  · rw [hreported, hfailures]
  · rw [hreported, hfailures]
    cases failure with
    | none => simp
    | some e => cases refused <;> simp

/-- A refused block is reported before the source that cannot be closed. -/
theorem close_reports_first_iff_refused :
    let source : MockSource := { rest := [1, 2, 3, 4, 5, 6], failClose := true }
    let sinks : List MockSink := [{ failAfter := some 1 }]
    let t : Tee MockSink MockSource :=
      { source, outlets := sinks.map ({ sink := · }), settings := { drainChunk := 4 } }
    t.closed = false ∧ ReadsAtMost (left t.source) t.source ∧
      (failureOf t.close.1).isSome = true ∧
      failureOf t.close.1 = (t.ends.make (t.closingCalls [[1, 2, 3, 4], [5, 6]])).1.head? := by
  intro source sinks t
  have hopen : t.closed = false := rfl
  have hleft : ReadsAtMost (left t.source) t.source := readsAtMost_left source
  have hread : (readBlocks t.source t.settings.drainChunk).blocks = [[1, 2, 3, 4], [5, 6]] ∧
      (readBlocks t.source t.settings.drainChunk).failure = none := by decide +kernel
  obtain ⟨blocks, failure, refused, later, hdrained, -, -, -, hfirst⟩ :=
    close_reports_first_iff hopen hleft
  obtain ⟨hblocks, hfailure⟩ := hdrained.eq_readBlocks rfl hleft
  obtain rfl := hblocks.trans hread.1
  exact ⟨hopen, hleft, by decide +kernel, hfirst.2 (.inl (hfailure.trans hread.2))⟩

/-- The sink refuses the first block of a drain and a later read fails: the sink failed first, but
the close reports the read. -/
theorem close_hides_refusal :
    let source : MockSource := { rest := [97, 98, 99, 100, 101, 102], failAt := some 4 }
    let sinks : List MockSink := [{ failAfter := some 1 }]
    let t : Tee MockSink MockSource :=
      { source, outlets := sinks.map ({ sink := · }), settings := { drainChunk := 2 } }
    let full : Fault := .io (.writeFailed "mock" (MockSource.injected "injected write failure"))
    let broken : Fault := .io (.readFailed "mock" (MockSource.injected "injected read failure"))
    Tee.ofSettings source sinks { drainChunk := 2 } = .ok t ∧
      t.Drained [[97, 98], [99, 100]] (some broken) ∧
      (t.ends.make (t.closingCalls [[97, 98], [99, 100]])).1 =
        [.sink 0 full, .sink 0 full, broken] ∧
      failureOf t.close.1 = some broken := by
  intro source sinks t full broken
  have hread : (readBlocks source 2).blocks = [[97, 98], [99, 100]] ∧
      (readBlocks source 2).failure = some broken := by decide +kernel
  refine ⟨rfl, ⟨fun _ => ?_, nofun⟩, by decide +kernel, by decide +kernel⟩
  have hdrains := drains_readBlocks (readsAtMost_left source) 2
  rw [hread.1, hread.2] at hdrains
  exact hdrains

end Tee

end StreamLayers
