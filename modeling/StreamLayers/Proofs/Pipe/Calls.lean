import StreamLayers.Proofs.Pipe.Session

/-!
The calls of a pipe are runs of a session in which the worker acts as the schedule says and then as
long as the reader waits. So every call that is begun can return, whatever the two ends did before.
-/

namespace StreamLayers

namespace Pipe

variable {π α : Type} [Producer π α]

/-- A worker that runs until something holds has got there, or can do nothing. -/
theorem runUntil_stops (done : Pipe π α → Bool) (p : Pipe π α) :
    done (p.runUntil done) = true ∨ (p.runUntil done).advance? = none := by
  fun_induction runUntil done p with
  | case1 p hd => exact .inl hd
  | case2 p hd hnone => exact .inr hnone
  | case3 p hd q hq _ ih => exact ih

theorem apart_runUntil (done : Pipe π α → Bool) (p : Pipe π α) : Apart p (p.runUntil done) := by
  fun_induction runUntil done p with
  | case1 p hd => exact .refl p
  | case2 p hd hnone => exact .refl p
  | case3 p hd q hq _ ih => exact (turn_of_advance? hq).apart.trans ih

theorem apart_run (n : Nat) (p : Pipe π α) : Apart p (p.run n) := by
  induction n generalizing p with
  | zero => exact .refl p
  | succ n ih =>
    unfold run
    rcases hq : p.advance? with _ | q
    · exact .refl p
    · exact (turn_of_advance? hq).apart.trans (ih q)

theorem apart_yield (p : Pipe π α) : Apart p p.yield := by
  unfold yield
  split
  · exact .refl p
  · rename_i n rest _
    have hscheduled : Apart p { p with schedule := rest } := ⟨rfl, rfl, rfl, rfl, rfl⟩
    exact hscheduled.trans (apart_run n _)

def Worker.isGone : Worker π → Bool
  | .gone => true
  | _ => false

omit [Producer π α] in
theorem Worker.isGone_iff {w : Worker π} : w.isGone = true ↔ w = .gone := by
  cases w <;> simp [isGone]

theorem awaitWorker_eq (p : Pipe π α) : p.awaitWorker = p.yield.runUntil (·.worker.isGone) := rfl

theorem result_eq {p : Pipe π α} (hc : p.closed = true) :
    p.result = (resultOf p.awaitOutcome.verdict,
      { p.awaitOutcome with verdict := handOut p.awaitOutcome.verdict }) := by
  have hclosed : ¬ (!p.closed) = true := by simp [hc]
  unfold result
  rw [if_neg hclosed]
  generalize p.awaitOutcome = q
  obtain ⟨_, _, _, _, _, _, _, _, _, _, _, verdict, _, _⟩ := q
  rcases verdict with _ | v | e | _ <;> rfl

/-- The pipe after the calls. -/
def afterCalls (p : Pipe π α) (calls : List Call) : Pipe π α := calls.foldl Call.after p

/-- The calls with their answers. -/
def transcript (p : Pipe π α) : List Call → List (Entry α)
  | [] => []
  | c :: rest => c.entry p :: transcript (c.after p) rest

namespace Session

variable {producer : π} {s t : Session π α}

theorem reach_runUntil (done : Pipe π α → Bool) (s : Session π α) :
    ∃ turns, Reach s { s with pipe := s.pipe.runUntil done, turns } := by
  obtain ⟨p, stage, log, turns⟩ := s
  show ∃ turns', Reach ⟨p, stage, log, turns⟩ ⟨p.runUntil done, stage, log, turns'⟩
  fun_induction runUntil done p generalizing turns with
  | case1 p hd => exact ⟨turns, .refl⟩
  | case2 p hd hnone => exact ⟨turns, .refl⟩
  | case3 p hd q hq _ ih =>
    obtain ⟨turns', hreach⟩ := ih (turns + 1)
    exact ⟨turns', .head (.work hq) hreach⟩

theorem reach_run (n : Nat) (s : Session π α) :
    ∃ turns, Reach s { s with pipe := s.pipe.run n, turns } := by
  induction n generalizing s with
  | zero => exact ⟨s.turns, .refl⟩
  | succ n ih =>
    unfold run
    rcases hq : s.pipe.advance? with _ | q
    · exact ⟨s.turns, .refl⟩
    · obtain ⟨turns, hreach⟩ := ih { s with pipe := q, turns := s.turns + 1 }
      exact ⟨turns, .head (.work hq) hreach⟩

theorem reach_yield (s : Session π α) :
    ∃ turns, Reach s { s with pipe := s.pipe.yield, turns } := by
  unfold yield
  split
  · exact ⟨s.turns, .refl⟩
  · rename_i n rest _
    obtain ⟨turns, hreach⟩ := reach_run n { s with pipe := { s.pipe with schedule := rest } }
    exact ⟨turns, .head (.schedule rest) hreach⟩

theorem reach_yield_runUntil (done : Pipe π α → Bool) (s : Session π α) :
    ∃ turns, Reach s { s with pipe := s.pipe.yield.runUntil done, turns } := by
  obtain ⟨turns, hyield⟩ := reach_yield s
  obtain ⟨turns', hrun⟩ := reach_runUntil done { s with pipe := s.pipe.yield, turns }
  exact ⟨turns', hyield.trans hrun⟩

/-- A reader that is handed the data at hand, or told of the end. -/
theorem reach_serve {n : Nat} (hs : s.stage = .reading n)
    (hready : s.pipe.current ≠ [] ∨ s.pipe.endOfData = true) :
    ∃ turns, Reach s
      ⟨(s.pipe.serve n).2, .idle, s.log ++ [.read n (s.pipe.serve n).1], turns⟩ := by
  rcases hcur : s.pipe.current with _ | ⟨b, bs⟩
  · have hserve : s.pipe.serve n =
        (answerOf s.pipe.yield.poll.verdict, s.pipe.yield.poll) := by
      rw [← readEnd_eq]
      simp only [serve, hcur]
    obtain ⟨turns, hyield⟩ := reach_yield s
    have hapart := s.pipe.apart_yield
    have hused : s.pipe.yield.current = [] := hapart.current_eq.trans hcur
    have hended : s.pipe.yield.endOfData = true :=
      hapart.endOfData_eq.trans (hready.resolve_left fun hne => hne hcur)
    rw [hserve]
    exact ⟨turns, hyield.tail (.resume (.tell hs hused hended))⟩
  · have hserve : s.pipe.serve n =
        (.ok (s.pipe.current.take n), { s.pipe with current := s.pipe.current.drop n }) := by
      simp only [serve, hcur]
    have hmore : s.pipe.current ≠ [] := by
      rw [hcur]
      exact List.cons_ne_nil b bs
    rw [hserve]
    exact ⟨s.turns, .single (.resume (.hand hs hmore))⟩

/-- A reader without data at hand gets the next chunk, or learns that there is none. -/
theorem reach_receive (h : Orderly producer s) {n : Nat} (hs : s.stage = .reading n)
    (hcur : s.pipe.current = []) (hgoing : s.pipe.endOfData = false) :
    ∃ turns, Reach s { s with pipe := s.pipe.receive, turns } ∧
      (s.pipe.receive.current ≠ [] ∨ s.pipe.receive.endOfData = true) := by
  obtain ⟨turns, hreach⟩ := reach_yield_runUntil (fun p => !p.queue.isEmpty || p.senderGone) s
  have hsound := (h.reach hreach).sound
  have hstops := runUntil_stops (fun p => !p.queue.isEmpty || p.senderGone) s.pipe.yield
  have hapart := s.pipe.apart_yield.trans
    (s.pipe.yield.apart_runUntil fun p => !p.queue.isEmpty || p.senderGone)
  unfold receive
  generalize (s.pipe.yield.runUntil fun p => !p.queue.isEmpty || p.senderGone) = p at *
  have hused := hapart.current_eq.trans hcur
  have hgoing := hapart.endOfData_eq.trans hgoing
  obtain ⟨_, _, _, _, _, queue, senderGone, _, _, _, _, _, _, _⟩ := p
  rcases queue with _ | ⟨chunk, rest⟩
  · -- A worker that sends nothing though the queue is empty is gone.
    have hgone : senderGone = true := by
      rcases hstops with hd | hstuck
      · exact hd
      · rcases (advance?_eq_none_iff _).1 hstuck with hw | hblocked
        · exact (hsound.posted_of_gone hw).2
        · exact absurd hblocked (hsound.not_sendBlocks_of_empty rfl)
    exact ⟨turns, hreach.tail (.resume (.finish hs hused hgoing rfl hgone)), .inr rfl⟩
  · have hne := hsound.chunks chunk List.mem_cons_self
    exact ⟨turns, hreach.tail (.resume (.take hs hused hgoing rfl)), .inl hne⟩

/-- Once the pipe is closed, whoever waits for the outcome gets to hear it. -/
theorem reach_awaitOutcome (h : Orderly producer s) (hc : s.pipe.closed = true) :
    ∃ p turns, Reach s { s with pipe := p, turns } ∧ p.heard = true ∧
      p.poll = s.pipe.awaitOutcome := by
  unfold awaitOutcome
  split
  · rename_i hv
    refine ⟨s.pipe, s.turns, .refl, ?_, poll_of_isSome hv⟩
    rw [heard_eq, poll_of_isSome hv]
    exact hv
  · obtain ⟨turns, hreach⟩ := reach_yield_runUntil (fun p => !p.slot.isWaiting) s
    have hsound := (h.reach hreach).sound
    have hclosed := closed_of_reach hreach hc
    refine ⟨_, turns, hreach, ?_, rfl⟩
    have hposted : (s.pipe.yield.runUntil fun p => !p.slot.isWaiting).slot.isWaiting = false := by
      rcases runUntil_stops (fun p => !p.slot.isWaiting) s.pipe.yield with hd | hstuck
      · simpa using hd
      · rcases (advance?_eq_none_iff _).1 hstuck with hw | hblocked
        · have hne := (hsound.posted_of_gone hw).1
          rcases hslot : (s.pipe.yield.runUntil fun p => !p.slot.isWaiting).slot with _ | _ | _
          · exact absurd hslot hne
          · rfl
          · rfl
        · exact absurd hblocked (hsound.not_sendBlocks_of_closed hclosed)
    simp [heard, hposted]

/-- Closing a pipe ends once the worker is gone, if it waits for that. -/
theorem reach_close_joined (h : Orderly producer s) (hs : s.stage = .closing) :
    ∃ turns, Reach s
      ⟨s.pipe.awaitOutcome.awaitWorker, .idle, s.log ++ [.close (.ok ())], turns⟩ := by
  have hclosed : s.pipe.closed = true := by
    have hbusy := h.busy
    rw [hs] at hbusy
    exact hbusy
  obtain ⟨p, turns₁, hawait, hheard, hpoll⟩ := reach_awaitOutcome h hclosed
  have hhear : Resumes { s with pipe := p, turns := turns₁ } _ := .hear hs hheard
  have hheld := hawait.tail (.resume hhear)
  rw [hpoll] at hheld
  rw [awaitWorker_eq]
  obtain ⟨turns₂, hrun⟩ := reach_yield_runUntil (·.worker.isGone)
    { s with pipe := s.pipe.awaitOutcome, stage := .joining, turns := turns₁ }
  have hreach := hheld.trans hrun
  have hsound := (h.reach hreach).sound
  have hshut := closed_of_reach hreach hclosed
  have hstops := runUntil_stops (·.worker.isGone) s.pipe.awaitOutcome.yield
  dsimp only at hreach hsound hshut hstops
  generalize s.pipe.awaitOutcome.yield.runUntil (·.worker.isGone) = q at *
  have hgone : q.worker = .gone := by
    rcases hstops with hd | hstuck
    · exact Worker.isGone_iff.1 hd
    · rcases (advance?_eq_none_iff q).1 hstuck with hw | hblocked
      · exact hw
      · exact absurd hblocked (hsound.not_sendBlocks_of_closed hshut)
  have hjoin : Resumes { s with pipe := q, stage := .joining, turns := turns₂ } _ := .join rfl hgone
  exact ⟨turns₂, hreach.tail (.resume hjoin)⟩

theorem reach_read (h : Orderly producer s) (hidle : s.stage = .idle) (n : Nat) :
    ∃ turns, Reach s
      ⟨(s.pipe.read n).2, .idle, s.log ++ [.read n (s.pipe.read n).1], turns⟩ := by
  have hcall : Step s (s.beginRead n) := .call hidle (.read n)
  have hbegun := h.begin (.read n)
  change Orderly producer (s.beginRead n) at hbegun
  unfold beginRead at hcall hbegun
  unfold Pipe.read
  split at hcall
  · rename_i hclosed
    simp only [if_pos hclosed]
    exact ⟨s.turns, .single hcall⟩
  · rename_i hopen
    simp only [if_neg hopen] at hbegun ⊢
    split at hcall
    · rename_i hn
      simp only [if_pos hn]
      exact ⟨s.turns, .single hcall⟩
    · rename_i hn
      simp only [if_neg hn] at hbegun ⊢
      split
      · rename_i hneeds
        simp only [Bool.and_eq_true, List.isEmpty_iff, Bool.not_eq_true'] at hneeds
        obtain ⟨turns₁, hreceive, hready⟩ := reach_receive hbegun rfl hneeds.1 hneeds.2
        obtain ⟨turns₂, hserve⟩ := reach_serve
          (s := ⟨s.pipe.receive, .reading n, s.log, turns₁⟩) rfl hready
        exact ⟨turns₂, .head hcall (hreceive.trans hserve)⟩
      · rename_i hneeds
        have hready : s.pipe.current ≠ [] ∨ s.pipe.endOfData = true := by
          rcases hcur : s.pipe.current with _ | ⟨b, bs⟩
          · right
            simpa [hcur] using hneeds
          · left
            exact List.cons_ne_nil b bs
        obtain ⟨turns, hserve⟩ := reach_serve (s := { s with stage := .reading n }) rfl hready
        exact ⟨turns, .head hcall hserve⟩

theorem reach_close (h : Orderly producer s) (hidle : s.stage = .idle) :
    ∃ turns, Reach s ⟨s.pipe.close.2, .idle, s.log ++ [.close s.pipe.close.1], turns⟩ := by
  unfold Pipe.close
  split
  · rename_i hclosed
    have hcall : Step s s.beginClose := .call hidle .close
    rw [beginClose, if_pos hclosed] at hcall
    exact ⟨s.turns, .single hcall⟩
  · rename_i hopen
    obtain ⟨turns₁, hyield⟩ := reach_yield s
    have hyielded := h.reach hyield
    have hapart := s.pipe.apart_yield
    have hstill : ¬ s.pipe.yield.closed = true := by
      rw [hapart.closed_eq]
      exact hopen
    have hcall : Step _ (beginClose _) :=
      Step.call (s := ⟨s.pipe.yield, s.stage, s.log, turns₁⟩) hidle .close
    have hbegun : Orderly producer (beginClose ⟨s.pipe.yield, s.stage, s.log, turns₁⟩) :=
      hyielded.begin .close
    rw [beginClose, if_neg hstill] at hcall hbegun
    dsimp only
    split
    · rename_i hjoins
      have hjoins : s.pipe.yield.joinOnClose = true := hjoins
      rw [if_pos hjoins] at hcall hbegun
      obtain ⟨turns, hclose⟩ := reach_close_joined hbegun rfl
      exact ⟨turns, (hyield.tail hcall).trans hclose⟩
    · rename_i hleaves
      have hleaves : ¬ s.pipe.yield.joinOnClose = true := hleaves
      rw [if_neg hleaves] at hcall
      exact ⟨turns₁, hyield.tail hcall⟩

theorem reach_result (h : Orderly producer s) (hidle : s.stage = .idle) :
    ∃ turns, Reach s ⟨s.pipe.result.2, .idle, s.log ++ [.result s.pipe.result.1], turns⟩ := by
  have hcall : Step s s.beginResult := .call hidle .result
  have hbegun : Orderly producer s.beginResult := h.begin .result
  rcases hc : s.pipe.closed with _ | _
  · have hresult : s.pipe.result = (.error (.misuse .resultBeforeClose), s.pipe) := by
      simp [Pipe.result, hc]
    rw [beginResult, if_neg (Bool.eq_false_iff.1 hc)] at hcall
    rw [hresult]
    exact ⟨s.turns, .single hcall⟩
  · rw [beginResult, if_pos hc] at hcall hbegun
    obtain ⟨p, turns, hawait, hheard, hpoll⟩ := reach_awaitOutcome hbegun hc
    have hanswer := hawait.tail (.resume (.answer rfl hheard))
    have hresult : s.pipe.result = (resultOf s.pipe.awaitOutcome.verdict,
        { s.pipe.awaitOutcome with verdict := handOut s.pipe.awaitOutcome.verdict }) :=
      result_eq hc
    rw [hresult, ← hpoll]
    exact ⟨turns, .head hcall hanswer⟩

/-- From between two calls, any call can be made and returns what the pipe's own function gives. -/
theorem reach_call (h : Orderly producer s) (hidle : s.stage = .idle) (c : Call) :
    ∃ turns, Reach s ⟨c.after s.pipe, .idle, s.log ++ [c.entry s.pipe], turns⟩ := by
  cases c with
  | read n => exact reach_read h hidle n
  | isFinished =>
    obtain ⟨turns, hyield⟩ := reach_yield s
    have hcall := Step.call (s := ⟨s.pipe.yield, s.stage, s.log, turns⟩) hidle .isFinished
    exact ⟨turns, hyield.tail hcall⟩
  | close => exact reach_close h hidle
  | result => exact reach_result h hidle

theorem reach_calls (h : Orderly producer s) (hidle : s.stage = .idle) (calls : List Call) :
    ∃ turns, Reach s
      ⟨s.pipe.afterCalls calls, .idle, s.log ++ s.pipe.transcript calls, turns⟩ := by
  induction calls generalizing s with
  | nil =>
    obtain ⟨p, stage, log, turns⟩ := s
    obtain rfl : stage = .idle := hidle
    refine ⟨turns, ?_⟩
    rw [transcript, List.append_nil]
    exact .refl
  | cons c rest ih =>
    obtain ⟨turns₁, hcall⟩ := reach_call h hidle c
    obtain ⟨turns, hrest⟩ := ih (h.reach hcall) rfl
    refine ⟨turns, ?_⟩
    rw [transcript, List.append_cons]
    exact hcall.trans hrest

end Session

end Pipe

end StreamLayers
