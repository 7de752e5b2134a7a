import StreamLayers.Proofs.Pipe.Calls

/-!
A pipe never holds up both of its ends. While the reader waits the worker can act, and not for ever;
once the reader has closed the pipe, what the producer writes is refused without waiting.
-/

namespace StreamLayers

namespace Pipe

variable {π α : Type} [Producer π α]

/-- The worker is to send at least one byte in a write that answers with `resume`, and in a closed
pipe it takes that many acts to find that it cannot. -/
inductive Writing (p : Pipe π α) (resume : Except Fault Unit → π) : Nat → Prop where
  | begun {chunk : Bytes} {rest : List Bytes} (worker : p.worker = .sending (chunk :: rest) resume) :
      Writing p resume 1
  | next {t : π} {data : Bytes} (worker : p.worker = .ready t)
      (next : Producer.next t = .write data resume) (some : data ≠ []) (active : p.senderGone = false) :
      Writing p resume 2

namespace Writing

variable {p q : Pipe π α} {resume : Except Fault Unit → π} {k : Nat}

theorem of_spared (h : Writing p resume k) (hs : Spared p q) : Writing q resume k := by
  cases h with
  | begun worker => exact .begun (hs.worker_eq.trans worker)
  | next worker next some active =>
    exact .next (hs.worker_eq.trans worker) next some (hs.senderGone_eq.trans active)

theorem advances (h : Writing p resume k) (hgone : p.receiverGone = true) : p.advance? ≠ none := by
  intro hstuck
  rcases (advance?_eq_none_iff p).1 hstuck with hw | hblocked
  · cases h with
    | begun worker => cases hw.symm.trans worker
    | next worker next some active => cases hw.symm.trans worker
  · exact not_sendBlocks_of_receiverGone hgone hblocked

/-- In a closed pipe a write is cut into chunks, and then the first of them is refused. -/
theorem advance (h : Writing p resume k) (hgone : p.receiverGone = true)
    (hq : p.advance? = some q) :
    k = 2 ∧ Writing q resume 1 ∨
      k = 1 ∧ q.worker = .ready (resume (.error (.io (.brokenPipe "pipe")))) := by
  cases h with
  | begun worker =>
    right
    simp only [advance?, worker, hgone, if_true, Option.some.injEq] at hq
    subst hq
    exact ⟨rfl, rfl⟩
  | @next t data worker next some active =>
    left
    obtain ⟨b, bs, rfl⟩ := List.exists_cons_of_ne_nil some
    simp only [advance?, worker, next, active, Bool.false_eq_true, if_false, Option.some.injEq,
      Bytes.blocks_cons] at hq
    subst hq
    exact ⟨rfl, .begun rfl⟩

end Writing

theorem Turn.written_eq {p q : Pipe π α} (h : Turn p q) (hgone : p.receiverGone = true) :
    q.written = p.written := by
  cases h with
  | send worker active room =>
    rw [hgone] at active
    cases active
  | _ => rfl

namespace Session

variable {c : Settings} {producer : π} {s t u : Session π α}

/-- A step is an act of the worker, or leaves the worker as it is. -/
theorem Step.turned_or_spared (h : Step s t) :
    (∃ q, s.pipe.advance? = some q ∧ t = { s with pipe := q, turns := s.turns + 1 }) ∨
      Spared s.pipe t.pipe ∧ t.turns = s.turns := by
  cases h with
  | work moved => exact .inl ⟨_, moved, rfl⟩
  | call idle c => exact .inr ⟨spared_begin s c, turns_begin s c⟩
  | resume resumed => exact .inr resumed.spared
  | schedule steps => exact .inr ⟨⟨rfl, rfl, rfl, rfl, rfl⟩, rfl⟩

namespace Orderly

/-- A reader waits only for a worker that can act. -/
theorem advances_of_waits (h : Orderly producer s) (hw : s.Waits) :
    ¬ s.pipe.SendBlocks ∧ s.pipe.advance? ≠ none := by
  obtain ⟨hbusy, hnone⟩ := hw
  have hfits := h.busy
  have hgone (hfree : ¬ s.pipe.SendBlocks) (hstuck : s.pipe.advance? = none) :
      s.pipe.worker = .gone :=
    ((advance?_eq_none_iff s.pipe).1 hstuck).resolve_right hfree
  have hheard (hstuck : s.pipe.worker = .gone) : s.pipe.heard = true :=
    heard_of_posted (h.sound.posted_of_gone hstuck).1
  rcases hs : s.stage with _ | n | _ | _ | _
  · exact absurd hs hbusy
  · have hcur : s.pipe.current = [] := by
      rcases hc : s.pipe.current with _ | ⟨b, bs⟩
      · rfl
      · have hmore : s.pipe.current ≠ [] := by simp [hc]
        exact absurd (.hand hs hmore) (hnone _)
    have hgoing : s.pipe.endOfData = false := by
      rcases he : s.pipe.endOfData with _ | _
      · rfl
      · exact absurd (.tell hs hcur he) (hnone _)
    have hempty : s.pipe.queue = [] := by
      rcases hq : s.pipe.queue with _ | ⟨chunk, rest⟩
      · rfl
      · exact absurd (.take hs hcur hgoing hq) (hnone _)
    have hfree := h.sound.not_sendBlocks_of_empty hempty
    refine ⟨hfree, ?_⟩
    intro hstuck
    have hsender := (h.sound.posted_of_gone (hgone hfree hstuck)).2
    exact hnone _ (.finish hs hcur hgoing hempty hsender)
  all_goals
    rw [hs] at hfits
    have hfree := h.sound.not_sendBlocks_of_closed hfits
    refine ⟨hfree, ?_⟩
    intro hstuck
  · exact hnone _ (.hear hs (hheard (hgone hfree hstuck)))
  · exact hnone _ (.join hs (hgone hfree hstuck))
  · exact hnone _ (.answer hs (hheard (hgone hfree hstuck)))

/-- Nothing is sent into a closed pipe. -/
theorem written_reach (h : Orderly producer s) (hclosed : s.pipe.closed = true) (hr : Reach s t) :
    t.pipe.written = s.pipe.written := by
  induction hr with
  | refl => rfl
  | @tail t u hr hs ih =>
    have hkept := h.reach hr
    have hshut := hkept.sound.refuses.trans (closed_of_reach hr hclosed)
    rw [← ih]
    rcases hs.turned_or_spared with ⟨q, moved, rfl⟩ | ⟨hspared, -⟩
    · exact (turn_of_advance? moved).written_eq hshut
    · exact hspared.written_eq

/-- However the reader acts meanwhile, a write into a closed pipe comes to its refusal. -/
theorem refused_reach (h : Orderly producer s) (hclosed : s.pipe.closed = true)
    {resume : Except Fault Unit → π} {k : Nat} (hwriting : Writing s.pipe resume k)
    (hr : Reach s t) :
    (t.turns < s.turns + k → Writing t.pipe resume (s.turns + k - t.turns)) ∧
      (t.turns = s.turns + k →
        t.pipe.worker = .ready (resume (.error (.io (.brokenPipe "pipe"))))) := by
  induction hr with
  | refl =>
    constructor
    · intro _
      rw [Nat.add_sub_cancel_left]
      exact hwriting
    · intro hturns
      cases hwriting with
      | begun worker => omega
      | next worker next some active => omega
  | @tail t u hr hs ih =>
    obtain ⟨hstill, hdone⟩ := ih
    have hshut := (h.reach hr).sound.refuses.trans (closed_of_reach hr hclosed)
    rcases hs.turned_or_spared with ⟨q, moved, rfl⟩ | ⟨hspared, hturns⟩
    · dsimp only
      constructor
      · intro hlt
        rcases (hstill (by omega)).advance hshut moved with ⟨htwo, hnext⟩ | ⟨hone, -⟩
        · have hleft : s.turns + k - (t.turns + 1) = 1 := by omega
          rw [hleft]
          exact hnext
        · omega
      · intro heq
        rcases (hstill (by omega)).advance hshut moved with ⟨htwo, -⟩ | ⟨-, hrefused⟩
        · omega
        · exact hrefused
    · rw [hturns, hspared.worker_eq]
      exact ⟨fun hlt => (hstill hlt).of_spared hspared, hdone⟩

end Orderly

/-- An act of either end within a call. -/
inductive Presses (s : Session π α) : Session π α → Prop where
  | work (busy : s.stage ≠ .idle) {q : Pipe π α} (moved : s.pipe.advance? = some q) :
      Presses s { s with pipe := q, turns := s.turns + 1 }
  | resume (busy : s.stage ≠ .idle) {t : Session π α} (resumed : Resumes s t) : Presses s t

/-- A bound on the acts that the reader still needs in its call. -/
def ahead (s : Session π α) : Nat :=
  match s.stage with
  | .idle => 0
  | .reading _ => if s.pipe.current = [] ∧ s.pipe.endOfData = false then 2 else 1
  | .closing => 2
  | .joining | .asking => 1

omit [Producer π α] in
theorem ahead_pos (h : s.stage ≠ .idle) : 0 < s.ahead := by
  unfold ahead
  rcases hs : s.stage with _ | n | _ | _ | _
  · exact absurd hs h
  · dsimp only
    split <;> omega
  · exact Nat.zero_lt_two
  · exact Nat.zero_lt_one
  · exact Nat.zero_lt_one

theorem Resumes.ahead_lt (h : Orderly producer s) (hr : Resumes s t) : t.ahead < s.ahead := by
  have hbusy : s.stage ≠ .idle := by
    intro hidle
    cases hr with
    | _ stage => cases hidle.symm.trans stage
  cases hr with
  | hand stage more => exact ahead_pos hbusy
  | tell stage used ended => exact ahead_pos hbusy
  | @take n chunk rest stage used going front =>
    have hne : chunk ≠ [] := by
      apply h.sound.chunks chunk
      rw [front]
      exact List.mem_cons_self
    simp [ahead, stage, used, going, hne]
  | finish stage used going empty gone => simp [ahead, stage, used, going]
  | hear stage heard => simp [ahead, stage]
  | join stage gone => exact ahead_pos hbusy
  | answer stage heard => exact ahead_pos hbusy

/-- Every act of either end brings the call closer to its return. -/
theorem Presses.lt (h : Orderly producer s) (hp : Presses s t) :
    Prod.Lex (· < ·) (Prod.Lex (· < ·) (· < ·)) (t.ahead, t.pipe.room, t.pipe.worker.weight)
      (s.ahead, s.pipe.room, s.pipe.worker.weight) := by
  cases hp with
  | @work busy q moved =>
    have hapart := (turn_of_advance? moved).apart
    have hsame : ahead { s with pipe := q, turns := s.turns + 1 } = s.ahead := by
      unfold ahead
      rw [hapart.current_eq, hapart.endOfData_eq]
    rw [hsame]
    exact .right _ (advance?_lt moved)
  | resume busy resumed => exact .left _ _ (resumed.ahead_lt h)

theorem Orderly.press (h : Orderly producer s) (hp : Presses s t) : Orderly producer t := by
  cases hp with
  | work busy moved => exact h.step (.work moved)
  | resume busy resumed => exact h.resume resumed

/-- No call goes on for ever, whatever the order in which the two ends act. -/
theorem Orderly.ends {producer : π} {s : Session π α} (h : Orderly producer s) : Acc (fun u t => Presses t u) s :=
  .intro s fun _ hp => (h.press hp).ends
termination_by (s.ahead, s.pipe.room, s.pipe.worker.weight)
decreasing_by exact hp.lt h

/-- What keeps the two ends of a pipe from holding each other up. -/
structure Live (s : Session π α) : Prop where
  /-- While the reader waits, the worker does not wait for room, and can act. -/
  unblocked : s.Waits → ¬ s.pipe.SendBlocks ∧ s.pipe.advance? ≠ none
  /-- Within a call something can happen, but not for ever: so every call returns. -/
  presses : s.stage ≠ .idle → ∃ t, Presses s t
  ends : Acc (fun u t => Presses t u) s
  /-- Once the pipe is closed, no send waits and none succeeds. -/
  cancelled : s.pipe.closed = true → ∀ t, Reach s t →
    t.pipe.closed = true ∧ ¬ t.pipe.SendBlocks ∧ t.pipe.written = s.pipe.written
  /-- A write into a closed pipe fails after that many acts of the worker, which nothing holds up. -/
  refused : s.pipe.closed = true → ∀ resume k, Writing s.pipe resume k →
    ∃ e : Fault, e.isBrokenPipe = true ∧ e.toOs.kind = .brokenPipe ∧ ∀ t, Reach s t →
      (t.turns < s.turns + k → t.pipe.advance? ≠ none) ∧
        (t.turns = s.turns + k → t.pipe.worker = .ready (resume (.error e)))

/-- In whatever order the two ends act and whatever the reader calls, the producer is never held up
in a send while the reader waits, and closing the pipe cancels what it still writes. -/
theorem live_of_reach {c : Settings} {producer : π} {s : Session π α}
    (hs : Reach (start c producer) s) : Live s := by
  have h := (Orderly.start c producer).reach hs
  refine ⟨h.advances_of_waits, ?_, h.ends, ?_, ?_⟩
  · intro hbusy
    by_cases hr : ∃ t, Resumes s t
    · obtain ⟨t, hr⟩ := hr
      exact ⟨t, .resume hbusy hr⟩
    · have hwaits : s.Waits := ⟨hbusy, fun t ht => hr ⟨t, ht⟩⟩
      obtain ⟨q, hq⟩ := Option.ne_none_iff_exists'.1 (h.advances_of_waits hwaits).2
      exact ⟨_, .work hbusy hq⟩
  · intro hclosed t ht
    have hshut := closed_of_reach ht hclosed
    exact ⟨hshut, (h.reach ht).sound.not_sendBlocks_of_closed hshut, h.written_reach hclosed ht⟩
  · intro hclosed resume k hwriting
    refine ⟨.io (.brokenPipe "pipe"), rfl, rfl, ?_⟩
    intro t ht
    obtain ⟨hstill, hrefused⟩ := h.refused_reach hclosed hwriting ht
    have hshut := (h.reach ht).sound.refuses.trans (closed_of_reach ht hclosed)
    exact ⟨fun hlt => (hstill hlt).advances hshut, hrefused⟩

/-- A producer that the queue holds up in the middle of a write when its reader closes the pipe: the
next act of the worker ends the write, and nothing more is sent. -/
theorem live_of_reach_cancelled :
    let c : Settings := { bufferSize := 4, chunkSize := 2, joinOnClose := true }
    let script := Script.ofTasks [.tryWrite [1, 2, 3, 4, 5]]
    let s : Session Script (List Script.Note) := .start c script
    ∃ t e, Reach s t ∧ t.stage = .closing ∧ t.pipe.written = 4 ∧ Live t ∧
      Fault.isBrokenPipe e = true ∧ ∀ u, Reach t u → u.pipe.written = 4 ∧
        (u.turns = t.turns + 1 → u.pipe.worker = .ready (.running [] [.fault e])) := by
  intro c script s
  obtain ⟨turns, hrun⟩ := reach_run 3 s
  have hreach := hrun.tail (Step.call (s := ⟨s.pipe.run 3, .idle, [], turns⟩) rfl .close)
  have hlive := live_of_reach hreach
  generalize ht : begin ⟨s.pipe.run 3, .idle, [], turns⟩ .close = t at hreach hlive
  have hwritten : t.pipe.written = 4 := by
    rw [← ht]
    dsimp only [s, c, script]
    cbv
  obtain ⟨resume, hworker, hresume⟩ : ∃ resume, t.pipe.worker = .sending [[5]] resume ∧
      ∀ e, resume (.error e) = .running [] [.fault e] := by
    generalize hw : t.pipe.worker = w
    rw [← ht] at hw
    dsimp only [s, c, script] at hw
    cbv at hw
    subst hw
    exact ⟨_, rfl, fun _ => rfl⟩
  have hstage : t.stage = .closing := by
    rw [← ht]
    dsimp only [s, c, script]
    cbv
  have hclosed : t.pipe.closed = true := by
    rw [← ht]
    dsimp only [s, c, script]
    cbv
  obtain ⟨e, hbroken, -, hrefused⟩ := hlive.refused hclosed _ _ (.begun hworker)
  refine ⟨t, e, hreach, hstage, hwritten, hlive, hbroken, ?_⟩
  intro u hu
  rw [hresume e] at hrefused
  exact ⟨(hlive.cancelled hclosed u hu).2.2.trans hwritten, (hrefused u hu).2⟩

end Session

end Pipe

end StreamLayers
