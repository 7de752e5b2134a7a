import Mathlib.Data.List.Induction
import StreamLayers.Proofs.Pipe.Cancellation

/-!
Reads of a pipe up to their end. In whatever order the two ends act, what an open session hands to its
reader is what a flow delivers, and a reader that keeps reading comes to the end.
-/

namespace StreamLayers

/-- What reads got up to the first one that got nothing or failed, and how that one ended them. -/
structure Reading where
  data : Bytes := []
  ending : Option (Except Fault Unit) := none

namespace Reading

/-- What is read behind the end is of no account. -/
def after (r : Reading) (answer : Except Fault Bytes) : Reading :=
  match r.ending, answer with
  | some _, _ => r
  | none, .ok [] => { r with ending := some (.ok ()) }
  | none, .ok (b :: d) => { r with data := r.data ++ b :: d }
  | none, .error e => { r with ending := some (.error e) }

def ofAnswers (answers : List (Except Fault Bytes)) : Reading := answers.foldl after {}

@[simp] theorem ofAnswers_append (answers : List (Except Fault Bytes))
    (answer : Except Fault Bytes) :
    ofAnswers (answers ++ [answer]) = (ofAnswers answers).after answer := by
  simp [ofAnswers]

theorem after_of_ended {r : Reading} {e : Except Fault Unit} (h : r.ending = some e)
    (answer : Except Fault Bytes) : r.after answer = r := by
  simp [after, h]

theorem foldl_of_ended {r : Reading} {e : Except Fault Unit} (h : r.ending = some e)
    (answers : List (Except Fault Bytes)) : answers.foldl after r = r := by
  induction answers with
  | nil => rfl
  | cons answer rest ih => rw [List.foldl_cons, after_of_ended h, ih]

theorem after_more {r : Reading} (h : r.ending = none) (b : UInt8) (d : Bytes) :
    r.after (.ok (b :: d)) = { r with data := r.data ++ b :: d } := by
  simp [after, h]

/-- A read that is not the end got at least a byte. -/
theorem length_lt_of_going {r : Reading} {answer : Except Fault Bytes}
    (h : (r.after answer).ending = none) :
    r.ending = none ∧ r.data.length < (r.after answer).data.length := by
  rcases he : r.ending with _ | e
  · rcases answer with e | _ | ⟨b, d⟩ <;> simp [after, he] at h ⊢
  · rw [after_of_ended he, he] at h
    cases h

theorem length_le_of_going (answers : List (Except Fault Bytes)) :
    (ofAnswers answers).ending = none → answers.length ≤ (ofAnswers answers).data.length := by
  induction answers using List.reverseRecOn with
  | nil =>
    intro _
    exact Nat.le_refl 0
  | append_singleton answers answer ih =>
    rw [ofAnswers_append]
    intro hgoing
    obtain ⟨hbefore, hlt⟩ := length_lt_of_going hgoing
    have hle := ih hbefore
    simp only [List.length_append, List.length_singleton]
    omega

/-- The reads got a front of `data`; if they have come to the end, it was all and ended like this. -/
structure Tends (data : Bytes) (ending : Except Fault Unit) (r : Reading) : Prop where
  front : r.data <+: data
  ended : ∀ e, r.ending = some e → r.data = data ∧ e = ending

/-- More reads than there are bytes come to the end. -/
theorem Tends.ending_eq {data : Bytes} {ending : Except Fault Unit}
    {answers : List (Except Fault Bytes)} (h : (ofAnswers answers).Tends data ending)
    (hmore : data.length < answers.length) : ofAnswers answers = ⟨data, some ending⟩ := by
  rcases he : (ofAnswers answers).ending with _ | e
  · have hle := length_le_of_going answers he
    have hfront := h.front.length_le
    omega
  · obtain ⟨hall, rfl⟩ := h.ended e he
    rw [← hall, ← he]

end Reading

namespace Pipe

variable {π α : Type} [Producer π α]

/-- The answer to a read that asked for something. -/
def Entry.drawn? : Entry α → Option (Except Fault Bytes)
  | .read n answer => if n = 0 then none else some answer
  | _ => none

def answers (log : List (Entry α)) : List (Except Fault Bytes) := log.filterMap Entry.drawn?

/-- What the reads of a session got, up to the first one that got nothing or failed. -/
def readingOf (log : List (Entry α)) : Reading := .ofAnswers (answers log)

omit [Producer π α] in
theorem answers_append_read (log : List (Entry α)) {n : Nat} (hn : 0 < n)
    (answer : Except Fault Bytes) :
    answers (log ++ [.read n answer]) = answers log ++ [answer] := by
  have hne : n ≠ 0 := Nat.pos_iff_ne_zero.1 hn
  simp [answers, Entry.drawn?, hne]

/-- Past the end of the data, an open pipe has handed out all that the producer wrote. -/
theorem Flow.Accounted.ended {c : Settings} {producer : π} {f : Flow π α}
    (h : Accounted producer f) (hkept : Conserved c producer f) (hused : f.pipe.current = [])
    (hended : f.pipe.endOfData = true) : Ended producer f.delivered f.pipe.slot := by
  have hworking := h.working
  rw [h.gone (hkept.ended hended).1] at hworking
  rw [(hkept.ended_eq hended hused).1]
  exact hworking

/-- What an act of an open session adds to the answers that its reader has. -/
inductive Adds (f g : Flow π α) (before : List (Except Fault Bytes)) :
    List (Except Fault Bytes) → Prop where
  | nothing (same : g.delivered = f.delivered) : Adds f g before before
  | more {b : UInt8} {d : Bytes} (got : g.delivered = f.delivered ++ b :: d) :
      Adds f g before (before ++ [.ok (b :: d)])
  | told (same : g.delivered = f.delivered) (used : f.pipe.current = [])
      (ended : f.pipe.endOfData = true) :
      Adds f g before (before ++ [answerOf (f.pipe.verdict.or f.pipe.slot.verdict)])

namespace Session

/-- Only an open pipe is open after a step. -/
theorem isOpen_of_step {s t : Session π α} (hs : Step s t) (hopen : t.pipe.closed = false) :
    s.pipe.closed = false := by
  rcases hc : s.pipe.closed with _ | _
  · rfl
  · cases hopen.symm.trans (closed_of_step hs hc)

variable {producer : π} {s t : Session π α}

omit [Producer π α] in
theorem beginRead_of_open (hopen : s.pipe.closed = false) (n : Nat) :
    s.beginRead n =
      if n = 0 then s.returns (.read n (.ok [])) s.pipe else { s with stage := .reading n } := by
  simp [beginRead, hopen]

/-- The reader is in no read that asks for nothing. -/
def Asks (s : Session π α) : Prop := ∀ n, s.stage = .reading n → 0 < n

omit [Producer π α] in
theorem Asks.begin (c : Call) : Asks (s.begin c) := by
  cases c with
  | read m =>
    show Asks (s.beginRead m)
    unfold beginRead
    split
    · exact nofun
    · split
      · exact nofun
      · rename_i hpos
        intro n hn
        obtain rfl := Stage.reading.inj hn
        exact Nat.pos_of_ne_zero hpos
  | isFinished => exact nofun
  | close =>
    show Asks s.beginClose
    unfold beginClose
    split
    · exact nofun
    · split <;> exact nofun
  | result =>
    show Asks s.beginResult
    unfold beginResult
    split <;> exact nofun

theorem Asks.step (h : Asks s) (hs : Step s t) : Asks t := by
  cases hs with
  | work moved => exact h
  | call idle c => exact .begin c
  | resume resumed =>
    cases resumed with
    | take stage used going front => exact h
    | finish stage used going empty gone => exact h
    | _ => exact nofun
  | schedule steps => exact h

theorem asks_of_reach {c : Settings} (hs : Reach (start c producer) s) : Asks s := by
  induction hs with
  | refl => exact nofun
  | tail _ hstep ih => exact ih.step hstep

omit [Producer π α] in
/-- A call that leaves the pipe open adds no answer at once. -/
theorem begin_of_open (hwas : s.pipe.closed = false) (c : Call)
    (hopen : (s.begin c).pipe.closed = false) :
    answers (s.begin c).log = answers s.log ∧
      ((s.begin c).pipe = s.pipe ∨ (s.begin c).pipe = s.pipe.poll) := by
  cases c with
  | read n =>
    show answers (s.beginRead n).log = _ ∧ ((s.beginRead n).pipe = _ ∨ _)
    rw [beginRead_of_open hwas]
    split
    · rename_i hzero
      subst hzero
      exact ⟨by simp [returns, answers, Entry.drawn?], .inl rfl⟩
    · exact ⟨rfl, .inl rfl⟩
  | isFinished => exact ⟨by simp [begin, returns, answers, Entry.drawn?], .inr rfl⟩
  | close =>
    have hshut : s.beginClose.pipe.closed = true := by
      unfold beginClose
      split
      · assumption
      · split <;> rfl
    cases hopen.symm.trans hshut
  | result =>
    show answers s.beginResult.log = _ ∧ (s.beginResult.pipe = _ ∨ _)
    simp [beginResult, hwas, returns, answers, Entry.drawn?]

/-- What a reader does in a call of an open pipe is what happens in a flow. -/
theorem flow_of_resume (h : Orderly producer s) (hasks : Asks s) (hwas : s.pipe.closed = false)
    (hr : Resumes s t) {f : Flow π α} (hf : f.pipe = s.pipe) :
    ∃ g, Flow.Reach f g ∧ g.pipe = t.pipe ∧ Adds f g (answers s.log) (answers t.log) := by
  have hbusy := h.busy
  obtain ⟨p, offered, delivered⟩ := f
  obtain rfl : p = s.pipe := hf
  cases hr with
  | @hand n stage more =>
    refine ⟨_, .single (.hand _ n), rfl, ?_⟩
    obtain ⟨b, d, hcur⟩ := List.exists_cons_of_ne_nil more
    obtain ⟨m, rfl⟩ := Nat.exists_eq_add_one.2 (hasks n stage)
    simp only [returns, answers_append_read s.log (hasks _ stage), hcur, List.take_succ_cons]
    exact .more rfl
  | @tell n stage used ended =>
    refine ⟨_, .single (.poll _), rfl, ?_⟩
    simp only [returns, answers_append_read s.log (hasks n stage), poll_eq]
    exact .told rfl used ended
  | take stage used going front => exact ⟨_, .single (.take used front), rfl, .nothing rfl⟩
  | finish stage used going empty gone =>
    exact ⟨_, .single (.finish used empty gone), rfl, .nothing rfl⟩
  | hear stage heard =>
    rw [stage] at hbusy
    cases hwas.symm.trans hbusy
  | join stage gone =>
    rw [stage] at hbusy
    cases hwas.symm.trans hbusy
  | answer stage heard =>
    rw [stage] at hbusy
    cases hwas.symm.trans hbusy

/-- As long as its pipe is open, what happens in a session is what happens in a flow. -/
theorem flow_of_step (h : Orderly producer s) (hasks : Asks s) (hs : Step s t)
    (hopen : t.pipe.closed = false) {f : Flow π α} (hf : f.pipe = s.pipe) :
    ∃ g, Flow.Reach f g ∧ g.pipe = t.pipe ∧ Adds f g (answers s.log) (answers t.log) := by
  have hwas := isOpen_of_step hs hopen
  cases hs with
  | work moved => exact ⟨_, .single (.work (hf ▸ moved)), rfl, .nothing rfl⟩
  | call idle c =>
    obtain ⟨hlog, hp | hp⟩ := begin_of_open hwas c hopen <;> rw [hlog, hp]
    · exact ⟨f, .refl, hf, .nothing rfl⟩
    · exact ⟨_, .single (.poll f), congrArg poll hf, .nothing rfl⟩
  | resume resumed => exact flow_of_resume h hasks hwas resumed hf
  | schedule steps =>
    exact ⟨_, .single (.schedule f steps), congrArg (fun p => { p with schedule := steps }) hf,
      .nothing rfl⟩

/-- An act of a session whose reader does nothing but read, and always asks for something. -/
inductive Reads (s : Session π α) : Session π α → Prop where
  | work {q : Pipe π α} (moved : s.pipe.advance? = some q) :
      Reads s { s with pipe := q, turns := s.turns + 1 }
  | read (idle : s.stage = .idle) {n : Nat} (hn : 0 < n) : Reads s (s.beginRead n)
  | resume {n : Nat} (stage : s.stage = .reading n) {t : Session π α} (resumed : Resumes s t) :
      Reads s t

theorem Reads.step (h : Reads s t) : Step s t := by
  cases h with
  | work moved => exact .work moved
  | @read idle n hn => exact .call idle (.read n)
  | resume stage resumed => exact .resume resumed

/-- Reading does not close the pipe. -/
theorem Reads.isOpen (h : Reads s t) (hopen : s.pipe.closed = false) : t.pipe.closed = false := by
  cases h with
  | work moved => exact (turn_of_advance? moved).apart.closed_eq.trans hopen
  | read idle hn =>
    unfold beginRead
    split
    · exact hopen
    · split <;> exact hopen
  | resume stage resumed =>
    cases resumed with
    | tell stage' used ended =>
      show s.pipe.poll.closed = false
      rw [poll_eq]
      exact hopen
    | hear stage' heard => cases stage.symm.trans stage'
    | answer stage' heard => cases stage.symm.trans stage'
    | _ => exact hopen

/-- A reader that keeps reading is never held up. -/
theorem Orderly.exists_reads (h : Orderly producer s) (hopen : s.pipe.closed = false) :
    ∃ t, Reads s t := by
  have hbusy := h.busy
  rw [hopen] at hbusy
  rcases hs : s.stage with _ | n | _ | _ | _
  · exact ⟨_, .read hs Nat.zero_lt_one⟩
  · by_cases hr : ∃ t, Resumes s t
    · obtain ⟨t, hr⟩ := hr
      exact ⟨t, .resume hs hr⟩
    · have hin : s.stage ≠ .idle := by simp [hs]
      obtain ⟨q, hq⟩ := Option.ne_none_iff_exists'.1
        (h.advances_of_waits ⟨hin, fun t ht => hr ⟨t, ht⟩⟩).2
      exact ⟨_, .work hq⟩
  all_goals
    rw [hs] at hbusy
    cases hbusy

/-- A bound on what the reader still reads and begins, if there are no more bytes than that. -/
def toRead (bound : Nat) (s : Session π α) : Nat :=
  2 * (bound - (readingOf s.log).data.length) + if s.stage = .idle then 1 else 0

omit [Producer π α] in
theorem toRead_returns {n : Nat} (hn : 0 < n) (stage : s.stage = .reading n)
    (answer : Except Fault Bytes) (p : Pipe π α) {bound : Nat}
    (hgoing : (readingOf (s.returns (.read n answer) p).log).ending = none)
    (hbound : (readingOf (s.returns (.read n answer) p).log).data.length ≤ bound) :
    (s.returns (.read n answer) p).toRead bound < s.toRead bound := by
  have hlog : readingOf (s.returns (.read n answer) p).log = (readingOf s.log).after answer := by
    rw [returns, readingOf, answers_append_read s.log hn, Reading.ofAnswers_append]
    rfl
  rw [hlog] at hgoing hbound
  obtain ⟨-, hlonger⟩ := Reading.length_lt_of_going hgoing
  have hidle : (s.returns (.read n answer) p).stage = .idle := rfl
  have hbusy : s.stage ≠ .idle := by simp [stage]
  rw [toRead, toRead, hlog, if_pos hidle, if_neg hbusy]
  omega

/-- Every act brings a reader that keeps reading closer to the end. -/
theorem Reads.lt (h : Orderly producer s) (hopen : s.pipe.closed = false) (hasks : Asks s)
    (hr : Reads s t) (hgoing : (readingOf t.log).ending = none) {bound : Nat}
    (hbound : (readingOf t.log).data.length ≤ bound) :
    Prod.Lex (· < ·) (Prod.Lex (· < ·) (Prod.Lex (· < ·) (· < ·)))
      (t.toRead bound, t.ahead, t.pipe.room, t.pipe.worker.weight)
      (s.toRead bound, s.ahead, s.pipe.room, s.pipe.worker.weight) := by
  cases hr with
  | @work q moved =>
    have hapart := (turn_of_advance? moved).apart
    have hsame : ahead { s with pipe := q, turns := s.turns + 1 } = s.ahead := by
      unfold ahead
      rw [hapart.current_eq, hapart.endOfData_eq]
    rw [hsame]
    exact .right _ (.right _ (advance?_lt moved))
  | @read idle n hn =>
    rw [beginRead_of_open hopen, if_neg (Nat.pos_iff_ne_zero.1 hn)]
    refine .left _ _ ?_
    simp [toRead, idle]
  | @resume _ stage t resumed =>
    have hahead := resumed.ahead_lt h
    cases resumed with
    | @hand n reading more =>
      exact .left _ _ (toRead_returns (hasks n reading) reading _ _ hgoing hbound)
    | @tell n reading used ended =>
      exact .left _ _ (toRead_returns (hasks n reading) reading _ _ hgoing hbound)
    | take reading used going front => exact .right _ (.left _ _ hahead)
    | finish reading used going empty gone => exact .right _ (.left _ _ hahead)
    | hear closing heard => cases stage.symm.trans closing
    | join joining gone => cases stage.symm.trans joining
    | answer asking heard => cases stage.symm.trans asking

end Session

end Pipe

end StreamLayers
