import StreamLayers.Proofs.Pipe.Calls

/-!
What the reader of a pipe is told of the producer's result, over all that both ends may do. The
outcome may reach the reader by any of three ways and at any time; the answers depend only on the
outcome and on whether the reader had closed the pipe and had been answered before.
-/

namespace StreamLayers

namespace Pipe

variable {π α : Type} [Producer π α]

/-- How the reader stands to the result after its calls so far. -/
inductive Standing where
  | open
  | closed
  /-- Closed, and the result was asked for since. -/
  | asked
  deriving DecidableEq, Repr

def Standing.after : Standing → Entry α → Standing
  | .open, .close _ => .closed
  | .closed, .result _ => .asked
  | st, _ => st

def standing (log : List (Entry α)) : Standing := log.foldl Standing.after .open

omit [Producer π α] in
@[simp] theorem standing_append (log : List (Entry α)) (e : Entry α) :
    standing (log ++ [e]) = (standing log).after e := by
  simp [standing]

omit [Producer π α] in
@[simp] theorem Standing.after_read (st : Standing) (n : Nat) (answer : Except Fault Bytes) :
    st.after (.read n answer : Entry α) = st := by
  cases st <;> rfl

omit [Producer π α] in
@[simp] theorem Standing.after_isFinished (st : Standing) (answer : Bool) :
    st.after (.isFinished answer : Entry α) = st := by
  cases st <;> rfl

/-- What the reader is owed when it asks for the result. A value is handed out once, a failure is
repeated. -/
def Slot.answer? : Slot α → Standing → Option (Except Fault α)
  | _, .open => some (.error (.misuse .resultBeforeClose))
  | .waiting, _ => none
  | .reported (.ok v), .closed => some (.ok v)
  | .reported (.ok _), .asked => some (.error (.misuse .resultTaken))
  | .reported (.error e), _ => some (.error (.producerFailed e))
  | .dropped, _ => some (.error .producerVanished)

omit [Producer π α] in
@[simp] theorem Slot.answer?_open (slot : Slot α) :
    slot.answer? .open = some (.error (.misuse .resultBeforeClose)) := by
  rcases slot with _ | (e | v) | _ <;> rfl

/-- Whether a call may be answered like that, given the outcome and how the reader stands. -/
def Entry.Fits (slot : Slot α) (st : Standing) : Entry α → Prop
  | .read _ (.ok _) => st = .open
  | .read _ (.error e) =>
    (st = .open → slot.verdict = some (.failed e)) ∧ (st ≠ .open → e = .closed "pipe")
  | .isFinished answer => answer = true → slot ≠ .waiting
  | .close answer => answer = .ok ()
  | .result answer => slot.answer? st = some answer

/-- Every call was answered as it had to be. -/
inductive Told (slot : Slot α) : List (Entry α) → Prop where
  | nil : Told slot []
  | snoc {log : List (Entry α)} {e : Entry α} (before : Told slot log)
      (fits : e.Fits slot (standing log)) : Told slot (log ++ [e])

omit [Producer π α] in
theorem Told.last {slot : Slot α} {log : List (Entry α)} {e : Entry α} (h : Told slot (log ++ [e])) :
    e.Fits slot (standing log) := by
  generalize hl : log ++ [e] = l at h
  cases h with
  | nil => simp at hl
  | snoc before fits =>
    obtain ⟨rfl, he⟩ := List.append_inj' hl rfl
    obtain rfl := List.singleton_inj.1 he
    exact fits

omit [Producer π α] in
theorem Told.of_mem {slot : Slot α} {log front later : List (Entry α)} {e : Entry α}
    (h : Told slot log) (hlog : log = front ++ e :: later) : e.Fits slot (standing front) := by
  induction h generalizing later with
  | nil => simp at hlog
  | @snoc before last told fits ih =>
    rcases List.eq_nil_or_concat later with rfl | ⟨later, l, rfl⟩
    · obtain ⟨rfl, he⟩ := List.append_inj' hlog rfl
      obtain rfl := List.singleton_inj.1 he
      exact fits
    · rw [List.concat_eq_append, ← List.cons_append, ← List.append_assoc] at hlog
      exact ih (List.append_inj' hlog rfl).1

omit [Producer π α] in
/-- What was said before the outcome was posted agrees with every outcome. -/
theorem Entry.Fits.posted {st : Standing} {e : Entry α} (h : e.Fits .waiting st) (slot : Slot α) :
    e.Fits slot st := by
  rcases e with ⟨n, e | data⟩ | answer | answer | answer
  · refine ⟨?_, h.2⟩
    intro hst
    cases h.1 hst
  · exact h
  · intro ha
    exact absurd rfl (h ha)
  · exact h
  · cases st with
    | «open» =>
      show slot.answer? .open = some answer
      rw [slot.answer?_open]
      exact h
    | closed => cases h
    | asked => cases h

omit [Producer π α] in
theorem Told.posted {log : List (Entry α)} (h : Told .waiting log) (slot : Slot α) :
    Told slot log := by
  induction h with
  | nil => exact .nil
  | snoc before fits ih => exact .snoc ih (fits.posted slot)

/-- What the reader makes of the outcome in its standing: a value that was handed out is taken. -/
def Slot.known : Slot α → Standing → Option (Verdict α)
  | .reported (.ok _), .asked => some .taken
  | slot, _ => slot.verdict

omit [Producer π α] in
theorem Slot.known_of_ne {st : Standing} (h : st ≠ .asked) (slot : Slot α) :
    slot.known st = slot.verdict := by
  rcases slot with _ | (e | v) | _ <;> cases st <;> first | rfl | exact absurd rfl h

omit [Producer π α] in
theorem Slot.known_isSome {slot : Slot α} {st : Standing} :
    (slot.known st).isSome = true ↔ slot ≠ .waiting := by
  rcases slot with _ | (e | v) | _ <;> cases st <;> simp [Slot.known, Slot.verdict]

omit [Producer π α] in
theorem Slot.answer?_known {slot : Slot α} {st : Standing} (hp : slot ≠ .waiting)
    (hst : st ≠ .open) : slot.answer? st = some (resultOf (slot.known st)) := by
  rcases slot with _ | (e | v) | _ <;> cases st <;>
    first | rfl | exact absurd rfl hp | exact absurd rfl hst

omit [Producer π α] in
theorem Slot.handOut_known {slot : Slot α} {st : Standing} (hp : slot ≠ .waiting) :
    handOut (slot.known st) = slot.known .asked := by
  rcases slot with _ | (e | v) | _ <;> cases st <;> first | rfl | exact absurd rfl hp

/-- The reader has noted nothing or the outcome, and the outcome if it was answered about it. -/
def Knows (st : Standing) (p : Pipe π α) : Prop :=
  p.verdict = none ∧ st ≠ .asked ∨ p.verdict = p.slot.known st ∧ p.slot ≠ .waiting

section Knows

omit [Producer π α]

variable {st : Standing} {p : Pipe π α}

theorem Knows.poll_verdict (h : Knows st p) : p.poll.verdict = p.slot.known st := by
  rw [poll_eq]
  show p.verdict.or p.slot.verdict = _
  rcases h with ⟨hv, hst⟩ | ⟨hv, hposted⟩
  · rw [hv, Option.none_or, Slot.known_of_ne hst]
  · obtain ⟨v, hk⟩ := Option.isSome_iff_exists.1 (Slot.known_isSome.2 hposted)
    rw [hv, hk, Option.some_or]

theorem Knows.heard_iff (h : Knows st p) : p.heard = true ↔ p.slot ≠ .waiting := by
  rw [heard_eq, h.poll_verdict]
  exact Slot.known_isSome

theorem Knows.poll (h : Knows st p) : Knows st p.poll := by
  have hv := h.poll_verdict
  rw [poll_eq] at hv ⊢
  by_cases hposted : p.slot = .waiting
  · rcases h with ⟨hnone, hst⟩ | ⟨-, hne⟩
    · refine .inl ⟨?_, hst⟩
      rw [hv, hposted, Slot.known_of_ne hst]
      rfl
    · exact absurd hposted hne
  · exact .inr ⟨hv, hposted⟩

/-- Closing the pipe changes nothing of what is known of the outcome. -/
theorem Knows.move (h : Knows st p) {st' : Standing} (hst : st ≠ .asked) (hst' : st' ≠ .asked) :
    Knows st' p := by
  rcases h with ⟨hv, -⟩ | ⟨hv, hposted⟩
  · exact .inl ⟨hv, hst'⟩
  · refine .inr ⟨?_, hposted⟩
    rw [hv, Slot.known_of_ne hst, Slot.known_of_ne hst']

end Knows

namespace Session

/-- How the reader stands, given what it is about and whether the pipe is closed. -/
def Stands (stage : Stage) (closed : Bool) (st : Standing) : Prop :=
  match stage with
  | .closing | .joining => st = .open
  | _ => st = .open ↔ closed = false

/-- A session whose reader was told the truth. -/
structure Truthful (producer : π) (s : Session π α) : Prop where
  orderly : Orderly producer s
  stands : Stands s.stage s.pipe.closed (standing s.log)
  knows : Knows (standing s.log) s.pipe
  told : Told s.pipe.slot s.log

namespace Truthful

variable {c : Settings} {producer : π} {s t : Session π α}

theorem start (c : Settings) (producer : π) : Truthful producer (.start c producer : Session π α) where
  orderly := .start c producer
  stands := by
    constructor
    · intro _
      rfl
    · intro _
      rfl
  knows := .inl ⟨rfl, nofun⟩
  told := .nil

theorem work (h : Truthful producer s) {q : Pipe π α} (hq : s.pipe.advance? = some q) :
    Truthful producer { s with pipe := q, turns := s.turns + 1 } := by
  have hturn := turn_of_advance? hq
  have hapart := hturn.apart
  refine ⟨h.orderly.step (.work hq), ?_, ?_, ?_⟩
  · show Stands s.stage q.closed (standing s.log)
    rw [hapart.closed_eq]
    exact h.stands
  · rcases h.knows with ⟨hv, hst⟩ | ⟨hv, hposted⟩
    · exact .inl ⟨hapart.verdict_eq.trans hv, hst⟩
    · have hslot := h.orderly.sound.slot_turn hturn hposted
      refine .inr ⟨?_, ?_⟩
      · rw [hapart.verdict_eq, hv, hslot]
      · rw [hslot]
        exact hposted
  · show Told q.slot s.log
    by_cases hposted : s.pipe.slot = .waiting
    · have htold := h.told
      rw [hposted] at htold
      exact htold.posted q.slot
    · rw [h.orderly.sound.slot_turn hturn hposted]
      exact h.told

/-- A call that returns without anything being learned. -/
theorem returns (h : Truthful producer s) {e : Entry α} {p : Pipe π α}
    (hs : Orderly producer (s.returns e p)) (hslot : p.slot = s.pipe.slot)
    (hstands : (standing s.log).after e = .open ↔ p.closed = false)
    (hknows : Knows ((standing s.log).after e) p) (hfits : e.Fits s.pipe.slot (standing s.log)) :
    Truthful producer (s.returns e p) where
  orderly := hs
  stands := by
    show Stands .idle p.closed (standing (s.log ++ [e]))
    rw [standing_append]
    exact hstands
  knows := by
    show Knows (standing (s.log ++ [e])) p
    rw [standing_append]
    exact hknows
  told := by
    show Told p.slot (s.log ++ [e])
    rw [hslot]
    exact .snoc h.told hfits

theorem standing_eq_open (h : Truthful producer s) (hidle : s.stage = .idle) :
    standing s.log = .open ↔ s.pipe.closed = false := by
  have hstands := h.stands
  rw [hidle] at hstands
  exact hstands

theorem begin (h : Truthful producer s) (hidle : s.stage = .idle) (c : Call) :
    Truthful producer (s.begin c) := by
  have hbegun := h.orderly.begin c
  have hstands := h.standing_eq_open hidle
  cases c with
  | read n =>
    change Orderly producer (s.beginRead n) at hbegun
    show Truthful producer (s.beginRead n)
    unfold beginRead at hbegun ⊢
    split at hbegun
    · rename_i hclosed
      rw [if_pos hclosed]
      have hst : standing s.log ≠ .open := by
        intro ho
        rw [hstands.1 ho] at hclosed
        cases hclosed
      refine h.returns hbegun rfl ?_ ?_ ⟨fun ho => absurd ho hst, fun _ => rfl⟩
      · rw [Standing.after_read]
        exact hstands
      · rw [Standing.after_read]
        exact h.knows
    · rename_i hopen
      have hst := hstands.2 (Bool.eq_false_iff.2 hopen)
      rw [if_neg hopen]
      split at hbegun
      · rename_i hn
        rw [if_pos hn]
        refine h.returns hbegun rfl ?_ ?_ hst
        · rw [Standing.after_read]
          exact hstands
        · rw [Standing.after_read]
          exact h.knows
      · rename_i hn
        rw [if_neg hn]
        exact ⟨hbegun, hstands, h.knows, h.told⟩
  | isFinished =>
    have hclosed : s.pipe.poll.closed = s.pipe.closed := by rw [poll_eq]
    have hslot : s.pipe.poll.slot = s.pipe.slot := by rw [poll_eq]
    refine h.returns hbegun hslot ?_ ?_ ?_
    · rw [Standing.after_isFinished, hclosed]
      exact hstands
    · rw [Standing.after_isFinished]
      exact h.knows.poll
    · intro hknown
      rw [h.knows.poll_verdict] at hknown
      exact Slot.known_isSome.1 hknown
  | close =>
    change Orderly producer s.beginClose at hbegun
    show Truthful producer s.beginClose
    unfold beginClose at hbegun ⊢
    split at hbegun
    · rename_i hclosed
      rw [if_pos hclosed]
      have hsame : (standing s.log).after (.close (.ok ()) : Entry α) = standing s.log := by
        rcases hst : standing s.log with _ | _ | _
        · rw [hstands.1 hst] at hclosed
          cases hclosed
        · rfl
        · rfl
      refine h.returns hbegun rfl ?_ ?_ rfl
      · rw [hsame]
        exact hstands
      · rw [hsame]
        exact h.knows
    · rename_i hopen
      rw [if_neg hopen]
      have hst := hstands.2 (Bool.eq_false_iff.2 hopen)
      split at hbegun
      · rename_i hjoins
        rw [if_pos hjoins]
        exact ⟨hbegun, hst, h.knows, h.told⟩
      · rename_i hleaves
        rw [if_neg hleaves]
        have hknows := h.knows
        rw [hst] at hknows
        refine h.returns hbegun rfl ?_ ?_ rfl
        · rw [hst]
          exact ⟨nofun, nofun⟩
        · rw [hst]
          exact hknows.move nofun nofun
  | result =>
    change Orderly producer s.beginResult at hbegun
    show Truthful producer s.beginResult
    unfold beginResult at hbegun ⊢
    split at hbegun
    · rename_i hclosed
      rw [if_pos hclosed]
      exact ⟨hbegun, hstands, h.knows, h.told⟩
    · rename_i hopen
      rw [if_neg hopen]
      have hst := hstands.2 (Bool.eq_false_iff.2 hopen)
      have hknows := h.knows
      rw [hst] at hknows
      refine h.returns hbegun rfl ?_ ?_ ?_
      · rw [hst]
        exact ⟨fun _ => Bool.eq_false_iff.2 hopen, fun _ => rfl⟩
      · rw [hst]
        exact hknows
      · rw [hst]
        exact s.pipe.slot.answer?_open

theorem resume (h : Truthful producer s) (hr : Resumes s t) : Truthful producer t := by
  have hresumed := h.orderly.resume hr
  have hstands := h.stands
  have hbusy := h.orderly.busy
  have hknows := h.knows
  have hclosed : s.pipe.poll.closed = s.pipe.closed := by rw [poll_eq]
  have hslot : s.pipe.poll.slot = s.pipe.slot := by rw [poll_eq]
  cases hr with
  | hand stage more =>
    rw [stage] at hstands hbusy
    refine h.returns hresumed rfl ?_ ?_ (hstands.2 hbusy)
    · rw [Standing.after_read]
      exact hstands
    · rw [Standing.after_read]
      exact hknows
  | tell stage used ended =>
    rw [stage] at hstands hbusy
    have hst := hstands.2 hbusy
    refine h.returns hresumed hslot ?_ ?_ ?_
    · rw [Standing.after_read, hclosed]
      exact hstands
    · rw [Standing.after_read]
      exact hknows.poll
    · have hunasked : Standing.open ≠ .asked := nofun
      rw [hknows.poll_verdict, hst, Slot.known_of_ne hunasked]
      rcases hv : s.pipe.slot.verdict with _ | v | e | _
      · exact rfl
      · exact rfl
      · exact ⟨fun _ => hv, fun ho => absurd rfl ho⟩
      · exact rfl
  | take stage used going front =>
    exact ⟨hresumed, hstands, hknows, h.told⟩
  | finish stage used going empty gone =>
    exact ⟨hresumed, hstands, hknows, h.told⟩
  | hear stage heard =>
    rw [stage] at hstands
    refine ⟨hresumed, hstands, hknows.poll, ?_⟩
    show Told s.pipe.poll.slot s.log
    rw [hslot]
    exact h.told
  | join stage gone =>
    rw [stage] at hstands hbusy
    have hst : standing s.log = .open := hstands
    rw [hst] at hknows
    refine h.returns hresumed rfl ?_ ?_ rfl
    · rw [hst, show s.pipe.closed = true from hbusy]
      exact ⟨nofun, nofun⟩
    · rw [hst]
      exact hknows.move nofun nofun
  | answer stage heard =>
    rw [stage] at hstands hbusy
    have hposted := hknows.heard_iff.1 heard
    have hst : standing s.log ≠ .open := by
      intro ho
      have hopen := hstands.1 ho
      rw [show s.pipe.closed = true from hbusy] at hopen
      cases hopen
    have hasked : (standing s.log).after
        (.result (resultOf s.pipe.poll.verdict) : Entry α) = .asked := by
      rcases hs : standing s.log with _ | _ | _
      · exact absurd hs hst
      · rfl
      · rfl
    refine h.returns hresumed hslot ?_ ?_ ?_
    · rw [hasked]
      show _ ↔ s.pipe.poll.closed = false
      rw [hclosed, show s.pipe.closed = true from hbusy]
      exact ⟨nofun, nofun⟩
    · rw [hasked]
      refine .inr ⟨?_, ?_⟩
      · show handOut s.pipe.poll.verdict = s.pipe.poll.slot.known .asked
        rw [hknows.poll_verdict, hslot, Slot.handOut_known hposted]
      · show s.pipe.poll.slot ≠ .waiting
        rw [hslot]
        exact hposted
    · show s.pipe.slot.answer? (standing s.log) = some (resultOf s.pipe.poll.verdict)
      rw [hknows.poll_verdict]
      exact Slot.answer?_known hposted hst

theorem step (h : Truthful producer s) (hs : Step s t) : Truthful producer t := by
  cases hs with
  | work moved => exact h.work moved
  | call idle c => exact h.begin idle c
  | resume resumed => exact h.resume resumed
  | schedule steps => exact ⟨h.orderly.step (.schedule steps), h.stands, h.knows, h.told⟩

theorem reach (h : Truthful producer s) (hr : Reach s t) : Truthful producer t := by
  induction hr with
  | refl => exact h
  | tail _ hs ih => exact ih.step hs

end Truthful

/-- What the reader of a pipe can rely on about the producer's result. -/
structure Contract (producer : π) (s : Session π α) : Prop where
  /-- Every call up to now was answered as it had to be. -/
  told : Told s.pipe.slot s.log
  stands : s.stage = .idle → (standing s.log = .open ↔ s.pipe.closed = false)
  /-- What is posted is how the producer ended, and it stays posted. -/
  posted : s.pipe.slot ≠ .waiting →
    Concludes producer s.pipe.slot ∧ ∀ t, Reach s t → t.pipe.slot = s.pipe.slot
  /-- What the reader has noted is what was posted, but for a value that it was handed. -/
  known : s.pipe.verdict = none ∧ standing s.log ≠ .asked ∨
    s.pipe.verdict = s.pipe.slot.known (standing s.log) ∧ s.pipe.slot ≠ .waiting
  early : s.pipe.closed = false →
    s.pipe.result = (.error (.misuse .resultBeforeClose), s.pipe)
  late : s.stage = .idle → s.pipe.closed = true →
    s.pipe.result.2.slot ≠ .waiting ∧
      s.pipe.result.2.slot.answer? (standing s.log) = some s.pipe.result.1
  /-- The next call may be any, and can return. -/
  returns : s.stage = .idle → ∀ c : Call,
    ∃ turns, Reach s ⟨c.after s.pipe, .idle, s.log ++ [c.entry s.pipe], turns⟩

/-- In whatever order the two ends act and whatever the reader calls, the result is refused before
the pipe is closed; afterwards a value is handed out once and a failure each time. -/
theorem contract_of_reach {c : Settings} {producer : π} {s : Session π α}
    (hs : Reach (start c producer) s) : Contract producer s := by
  have h := (Truthful.start c producer).reach hs
  refine ⟨h.told, fun hidle => h.standing_eq_open hidle, ?_, h.knows, ?_, ?_, ?_⟩
  · intro hposted
    exact ⟨h.orderly.sound.concludes hposted, fun t ht => h.orderly.slot_reach hposted ht⟩
  · intro hopen
    simp [Pipe.result, hopen]
  · intro hidle hclosed
    obtain ⟨turns, hcall⟩ := reach_result h.orderly hidle
    have hnext := h.reach hcall
    have hfits : s.pipe.result.2.slot.answer? (standing s.log) = some s.pipe.result.1 :=
      hnext.told.last
    refine ⟨?_, hfits⟩
    intro hwaiting
    have hst : standing s.log ≠ .open := by
      intro ho
      rw [(h.standing_eq_open hidle).1 ho] at hclosed
      cases hclosed
    rw [hwaiting] at hfits
    rcases hl : standing s.log with _ | _ | _
    · exact hst hl
    · rw [hl] at hfits
      cases hfits
    · rw [hl] at hfits
      cases hfits
  · intro hidle c
    exact reach_call h.orderly hidle c

/-- A producer that the queue holds up until its reader closes the pipe: its notes are handed out
once. -/
theorem contract_of_reach_cancelled :
    let c : Settings := { bufferSize := 4, chunkSize := 2 }
    let script := Script.ofTasks [.tryWrite [1, 2, 3, 4, 5]]
    let s : Session Script (List Script.Note) := .start c script
    let calls : List Call := [.result, .isFinished, .close, .result, .close, .result]
    ∃ t, Reach s t ∧ t.pipe = s.pipe.afterCalls calls ∧ Contract script t ∧
      t.log = [.result (.error (.misuse .resultBeforeClose)), .isFinished false, .close (.ok ()),
        .result (.ok [.fault (.io (.brokenPipe "pipe"))]), .close (.ok ()),
        .result (.error (.misuse .resultTaken))] := by
  intro c script s calls
  obtain ⟨turns, hreach⟩ := reach_calls (Orderly.start c script) rfl calls
  refine ⟨_, hreach, rfl, contract_of_reach hreach, ?_⟩
  show s.pipe.transcript calls = _
  -- Nothing happens up to the closing; the next call waits for the outcome.
  let q : Pipe Script (List Script.Note) := { s.pipe with closed := true, receiverGone := true }
  have hfirst : s.pipe.transcript calls = .result (.error (.misuse .resultBeforeClose)) ::
      .isFinished false :: .close (.ok ()) :: q.transcript [.result, .close, .result] := rfl
  have hverdict : q.awaitOutcome.verdict = some (.value [.fault (.io (.brokenPipe "pipe"))]) := by
    dsimp only [q, s, c, script]
    cbv
  have hshut : q.awaitOutcome.closed = true := by
    dsimp only [q, s, c, script]
    cbv
  obtain ⟨r, hvalue, hclosed, htaken⟩ : ∃ r, q.result =
      (.ok [.fault (.io (.brokenPipe "pipe"))], r) ∧ r.closed = true ∧ r.verdict = some .taken := by
    refine ⟨{ q.awaitOutcome with verdict := some .taken }, ?_, hshut, rfl⟩
    rw [result_eq rfl, hverdict]
    rfl
  have hclose : r.close = (.ok (), r) := by rw [Pipe.close, if_pos hclosed]
  have hagain : r.result.1 = .error (.misuse .resultTaken) := by
    have hkept : r.awaitOutcome = r := by rw [awaitOutcome, htaken]; rfl
    rw [result_eq hclosed, hkept, htaken]
    rfl
  rw [hfirst]
  simp only [transcript, Call.entry, Call.after, hvalue, hclose, hagain]

end Session

end Pipe

end StreamLayers
