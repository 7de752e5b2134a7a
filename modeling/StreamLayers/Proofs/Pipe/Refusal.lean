import StreamLayers.Proofs.Pipe.Cancellation
import StreamLayers.Proofs.Pipe.Contract

/-!
What a producer may end with whose pipe is closed on it. As long as it leaves the sending end open,
its writes succeed or are refused for want of a reader; nothing else decides about its outcome.
-/

namespace StreamLayers

/-- Whether a move closes nothing, leads on only to states in which `P` holds, if no write fails but
for want of a reader, and ends only with outcomes in which `Q` holds. -/
def Move.Abides {π α : Type} (P : π → Prop) (Q : Pipe.Slot α → Prop) : Move π α → Prop
  | .write _ resume => P (resume (.ok ())) ∧ P (resume (.error (.io (.brokenPipe "pipe"))))
  | .close _ => False
  | .look resume => ∀ written gone, P (resume written gone)
  | .finish result => Q (.reported result)
  | .crash => Q .dropped

namespace Pipe

variable {π α : Type} [Producer π α] {P : π → Prop} {Q : Slot α → Prop} {p q : Pipe π α}

/-- A pipe whose worker has come to no other states and no other outcome. -/
structure Abiding (P : π → Prop) (Q : Slot α → Prop) (p : Pipe π α) : Prop where
  working : match p.worker with
    | .ready t => P t
    | .sending _ resume => P (resume (.ok ())) ∧ P (resume (.error (.io (.brokenPipe "pipe"))))
    | .leaving | .gone => Q p.slot
  held : p.senderGone = true → p.worker = .gone

omit [Producer π α] in
theorem Abiding.of_spared (h : Abiding P Q p) (hs : Spared p q) : Abiding P Q q where
  working := by
    rw [hs.worker_eq, hs.slot_eq]
    exact h.working
  held := by
    rw [hs.senderGone_eq, hs.worker_eq]
    exact h.held

theorem Abiding.turn (hP : ∀ t, P t → (Producer.next t).Abides P Q) (h : Abiding P Q p)
    (ht : Turn p q) : Abiding P Q q := by
  have hworking := h.working
  have hheld := h.held
  cases ht with
  | begin worker next active =>
    rw [worker] at hworking
    have hnext := hP _ hworking
    rw [next] at hnext
    exact ⟨hnext, fun hs => by cases active.symm.trans hs⟩
  | deny worker next gone => cases worker.symm.trans (hheld gone)
  | close worker next =>
    rw [worker] at hworking
    have hnext := hP _ hworking
    rw [next] at hnext
    exact hnext.elim
  | look worker next =>
    rw [worker] at hworking hheld
    have hnext := hP _ hworking
    rw [next] at hnext
    exact ⟨hnext _ _, fun hs => by cases hheld hs⟩
  | finish worker next =>
    rw [worker] at hworking hheld
    have hnext := hP _ hworking
    rw [next] at hnext
    exact ⟨hnext, fun hs => by cases hheld hs⟩
  | crash worker next =>
    rw [worker] at hworking hheld
    have hnext := hP _ hworking
    rw [next] at hnext
    exact ⟨hnext, fun hs => by cases hheld hs⟩
  | sent worker =>
    rw [worker] at hworking hheld
    exact ⟨hworking.1, fun hs => by cases hheld hs⟩
  | refuse worker gone =>
    rw [worker] at hworking hheld
    exact ⟨hworking.2, fun hs => by cases hheld hs⟩
  | send worker active room =>
    rw [worker] at hworking hheld
    exact ⟨hworking, fun hs => by cases hheld hs⟩
  | leave worker =>
    rw [worker] at hworking
    exact ⟨hworking, fun _ => rfl⟩

namespace Session

variable {c : Settings} {producer : π} {s t : Session π α}

theorem abiding_of_reach (hP : ∀ t, P t → (Producer.next t).Abides P Q) (hstart : P producer)
    (hr : Reach (start c producer) s) : Abiding P Q s.pipe := by
  induction hr with
  | refl => exact ⟨hstart, nofun⟩
  | tail _ hs ih =>
    rcases hs.turned_or_spared with ⟨q, moved, rfl⟩ | ⟨hspared, -⟩
    · exact ih.turn hP (turn_of_advance? moved)
    · exact ih.of_spared hspared

/-- In whatever order the two ends act, the producer ends as its moves allow. -/
theorem outcome_of_reach (hP : ∀ t, P t → (Producer.next t).Abides P Q) (hstart : P producer)
    (hr : Reach (start c producer) s) (hposted : s.pipe.slot ≠ .waiting) : Q s.pipe.slot := by
  have hworking := (abiding_of_reach hP hstart hr).working
  have hsound := ((Orderly.start c producer).reach hr).sound.working
  unfold Working at hsound
  rcases hw : s.pipe.worker with t | ⟨chunks, resume⟩ | _ | _ <;>
    simp only [hw] at hworking hsound
  case ready => exact absurd hsound.2 hposted
  case sending => exact absurd hsound.2 hposted
  case leaving => exact hworking
  case gone => exact hworking

/-- Between two calls, a reader that closes its pipe and asks for the result is told how the
producer ended. -/
theorem result_of_close (hr : Reach (start c producer) s) (hidle : s.stage = .idle)
    (hopen : s.pipe.closed = false) :
    ∃ t, Reach s t ∧ t.pipe = s.pipe.close.2.result.2 ∧ t.pipe.slot ≠ .waiting ∧
      t.pipe.slot.answer? .closed = some s.pipe.close.2.result.1 := by
  have h := (Truthful.start c producer).reach hr
  obtain ⟨turns, hclose⟩ := reach_close h.orderly hidle
  have hclosed := h.reach hclose
  have hstanding : standing (s.log ++ [.close s.pipe.close.1]) = .closed := by
    rw [standing_append, (h.standing_eq_open hidle).2 hopen]
    rfl
  obtain ⟨turns', hresult⟩ := reach_result hclosed.orderly rfl
  have htold := (hclosed.reach hresult).told.last
  rw [hstanding] at htold
  have hanswer : s.pipe.close.2.result.2.slot.answer? .closed = some s.pipe.close.2.result.1 := htold
  refine ⟨_, hclose.trans hresult, rfl, fun hwaiting => ?_, hanswer⟩
  have hwaiting : s.pipe.close.2.result.2.slot = .waiting := hwaiting
  rw [hwaiting] at hanswer
  cases hanswer

end Session

end Pipe

end StreamLayers
