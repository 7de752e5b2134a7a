import StreamLayers.Proofs.Pipe.Outcome

/-!
A reader that calls a pipe in any order while its worker acts. A call is taken up at once and may
then have to wait; what it waits for is seen act by act, so that every interleaving of the two ends
is a run of `Session.Step`.
-/

namespace StreamLayers

namespace Pipe

variable {π α : Type} [Producer π α]

/-- A producer that was in state `s` may get to `t`, whatever it is answered. -/
inductive Leads : π → π → Prop where
  | start (s : π) : Leads s s
  | write {s t : π} {data : Bytes} {resume : Except Fault Unit → π} (before : Leads s t)
      (next : Producer.next t = .write data resume) (answer : Except Fault Unit) :
      Leads s (resume answer)
  | close {s t r : π} (before : Leads s t) (next : Producer.next t = .close r) : Leads s r
  | look {s t : π} {resume : Nat → Bool → π} (before : Leads s t)
      (next : Producer.next t = .look resume) (written : Nat) (gone : Bool) :
      Leads s (resume written gone)

/-- A producer that was in state `s` may end with this outcome. -/
inductive Concludes : π → Slot α → Prop where
  | finish {s t : π} {result : Except Fault α} (before : Leads s t)
      (next : Producer.next t = .finish result) : Concludes s (.reported result)
  | crash {s t : π} (before : Leads s t) (next : Producer.next t = .crash) : Concludes s .dropped

theorem Concludes.posted {s : π} {slot : Slot α} (h : Concludes s slot) : slot ≠ .waiting := by
  cases h with
  | finish before next => exact nofun
  | crash before next => exact nofun

/-- What one act of the worker does. -/
inductive Turn (p : Pipe π α) : Pipe π α → Prop where
  | begin {t : π} {data : Bytes} {resume : Except Fault Unit → π} (worker : p.worker = .ready t)
      (next : Producer.next t = .write data resume) (active : p.senderGone = false) :
      Turn p { p with worker := .sending (data.blocks p.chunkSize) resume }
  /-- The producer writes after it gave up the sending end. -/
  | deny {t : π} {data : Bytes} {resume : Except Fault Unit → π} (worker : p.worker = .ready t)
      (next : Producer.next t = .write data resume) (gone : p.senderGone = true) :
      Turn p { p with worker := .ready (resume (.error (.closed "pipe writer"))) }
  | close {t r : π} (worker : p.worker = .ready t) (next : Producer.next t = .close r) :
      Turn p { p with worker := .ready r, senderGone := true }
  | look {t : π} {resume : Nat → Bool → π} (worker : p.worker = .ready t)
      (next : Producer.next t = .look resume) :
      Turn p { p with worker := .ready (resume p.written (p.senderGone || p.receiverGone)) }
  | finish {t : π} {result : Except Fault α} (worker : p.worker = .ready t)
      (next : Producer.next t = .finish result) :
      Turn p { p with worker := .leaving, slot := .reported result }
  | crash {t : π} (worker : p.worker = .ready t) (next : Producer.next t = .crash) :
      Turn p { p with worker := .leaving, slot := .dropped }
  | sent {resume : Except Fault Unit → π} (worker : p.worker = .sending [] resume) :
      Turn p { p with worker := .ready (resume (.ok ())) }
  | refuse {chunk : Bytes} {rest : List Bytes} {resume : Except Fault Unit → π}
      (worker : p.worker = .sending (chunk :: rest) resume) (gone : p.receiverGone = true) :
      Turn p { p with worker := .ready (resume (.error (.io (.brokenPipe "pipe")))) }
  | send {chunk : Bytes} {rest : List Bytes} {resume : Except Fault Unit → π}
      (worker : p.worker = .sending (chunk :: rest) resume) (active : p.receiverGone = false)
      (room : p.queue.length < p.capacity) :
      Turn p { p with
        worker := .sending rest resume
        queue := p.queue ++ [chunk]
        written := p.written + chunk.length }
  | leave (worker : p.worker = .leaving) : Turn p { p with worker := .gone, senderGone := true }

/-- The reader's side of the pipe is as it was. -/
structure Apart (p q : Pipe π α) : Prop where
  closed_eq : q.closed = p.closed
  joinOnClose_eq : q.joinOnClose = p.joinOnClose
  verdict_eq : q.verdict = p.verdict
  current_eq : q.current = p.current
  endOfData_eq : q.endOfData = p.endOfData

omit [Producer π α] in
theorem Apart.refl (p : Pipe π α) : Apart p p := ⟨rfl, rfl, rfl, rfl, rfl⟩

omit [Producer π α] in
theorem Apart.trans {p q r : Pipe π α} (hp : Apart p q) (hq : Apart q r) : Apart p r where
  closed_eq := hq.closed_eq.trans hp.closed_eq
  joinOnClose_eq := hq.joinOnClose_eq.trans hp.joinOnClose_eq
  verdict_eq := hq.verdict_eq.trans hp.verdict_eq
  current_eq := hq.current_eq.trans hp.current_eq
  endOfData_eq := hq.endOfData_eq.trans hp.endOfData_eq

theorem Turn.apart {p q : Pipe π α} (h : Turn p q) : Apart p q := by
  cases h <;> exact ⟨rfl, rfl, rfl, rfl, rfl⟩

/-- The worker's side of the pipe is as it was, but for what is taken from the queue. -/
structure Spared (p q : Pipe π α) : Prop where
  worker_eq : q.worker = p.worker
  written_eq : q.written = p.written
  senderGone_eq : q.senderGone = p.senderGone
  slot_eq : q.slot = p.slot
  chunkSize_eq : q.chunkSize = p.chunkSize

omit [Producer π α] in
theorem Spared.refl (p : Pipe π α) : Spared p p := ⟨rfl, rfl, rfl, rfl, rfl⟩

omit [Producer π α] in
theorem spared_poll (p : Pipe π α) : Spared p p.poll := by
  obtain ⟨verdict, hp⟩ := p.poll_frame
  rw [hp]
  exact ⟨rfl, rfl, rfl, rfl, rfl⟩

theorem turn_of_advance? {p q : Pipe π α} (h : p.advance? = some q) : Turn p q := by
  unfold advance? at h
  rcases hw : p.worker with t | ⟨chunks, resume⟩ | _ | _ <;> simp only [hw] at h
  case ready =>
    rcases hm : Producer.next t with ⟨data, resume⟩ | r | resume | result | _ <;> simp only [hm] at h
    case write =>
      split at h
      · rename_i hgone
        obtain rfl := Option.some.inj h
        exact .deny hw hm hgone
      · rename_i hactive
        obtain rfl := Option.some.inj h
        exact .begin hw hm (Bool.eq_false_iff.2 hactive)
    all_goals obtain rfl := Option.some.inj h
    case close => exact .close hw hm
    case look => exact .look hw hm
    case finish => exact .finish hw hm
    case crash => exact .crash hw hm
  case sending =>
    rcases chunks with _ | ⟨chunk, rest⟩ <;> dsimp only at h
    · obtain rfl := Option.some.inj h
      exact .sent hw
    · split at h
      · rename_i hgone
        obtain rfl := Option.some.inj h
        exact .refuse hw hgone
      · rename_i hactive
        split at h
        · rename_i hroom
          obtain rfl := Option.some.inj h
          exact .send hw (Bool.eq_false_iff.2 hactive) hroom
        · cases h
  case leaving =>
    obtain rfl := Option.some.inj h
    exact .leave hw
  case gone => cases h

/-- The worker is in the middle of a write whose next chunk has to wait for room in the queue. -/
def SendBlocks (p : Pipe π α) : Prop :=
  ∃ chunk rest resume, p.worker = .sending (chunk :: rest) resume ∧ p.receiverGone = false ∧
    p.capacity ≤ p.queue.length

/-- A worker rests only where it is gone or waits for room. -/
theorem advance?_eq_none_iff (p : Pipe π α) :
    p.advance? = none ↔ p.worker = .gone ∨ p.SendBlocks := by
  constructor
  · intro h
    unfold advance? at h
    rcases hw : p.worker with t | ⟨chunks, resume⟩ | _ | _ <;> simp only [hw] at h
    case ready =>
      rcases hm : Producer.next t with ⟨data, resume⟩ | r | resume | result | _ <;>
        simp only [hm] at h
      case write => split at h <;> cases h
      all_goals cases h
    case sending =>
      rcases chunks with _ | ⟨chunk, rest⟩ <;> dsimp only at h
      · cases h
      · split at h
        · cases h
        · rename_i hactive
          split at h
          · cases h
          · rename_i hfull
            exact .inr ⟨chunk, rest, resume, hw, Bool.eq_false_iff.2 hactive, Nat.not_lt.1 hfull⟩
    case leaving => cases h
    case gone => exact .inl rfl
  · rintro (hw | ⟨chunk, rest, resume, hw, hactive, hfull⟩) <;> unfold advance? <;>
      simp only [hw]
    have hroom : ¬ p.queue.length < p.capacity := Nat.not_lt.2 hfull
    rw [if_neg (Bool.eq_false_iff.1 hactive), if_neg hroom]

omit [Producer π α] in
theorem not_sendBlocks_of_receiverGone {p : Pipe π α} (h : p.receiverGone = true) :
    ¬ p.SendBlocks := by
  rintro ⟨chunk, rest, resume, -, hactive, -⟩
  rw [h] at hactive
  cases hactive

/-- Gives up the receiving end, with what is queued in it. -/
def shut (p : Pipe π α) : Pipe π α :=
  { p with closed := true, current := [], queue := [], receiverGone := true }

/-- What the worker has come to is what its producer does. -/
def Working (producer : π) (p : Pipe π α) : Prop :=
  match p.worker with
  | .ready t => Leads producer t ∧ p.slot = .waiting
  | .sending _ resume => (∀ answer, Leads producer (resume answer)) ∧ p.slot = .waiting
  | .leaving => Concludes producer p.slot
  | .gone => Concludes producer p.slot ∧ p.senderGone = true

/-- A pipe whose two ends have done nothing but their own acts. -/
structure Sound (producer : π) (p : Pipe π α) : Prop where
  room : 0 < p.capacity
  working : Working producer p
  chunks : ∀ chunk ∈ p.queue ++ p.worker.pending, chunk ≠ []
  refuses : p.receiverGone = p.closed

namespace Sound

variable {producer : π} {p q : Pipe π α}

theorem start (c : Settings) (producer : π) : Sound producer (.start c producer : Pipe π α) where
  room := Nat.lt_of_lt_of_le Nat.zero_lt_one (Nat.le_max_right _ 1)
  working := ⟨.start producer, rfl⟩
  chunks := by
    intro chunk hc
    cases hc
  refuses := rfl

theorem posted_of_gone (h : Sound producer p) (hw : p.worker = .gone) :
    p.slot ≠ .waiting ∧ p.senderGone = true := by
  have hworking := h.working
  simp only [Working, hw] at hworking
  exact ⟨hworking.1.posted, hworking.2⟩

/-- The outcome is what the producer ended with. -/
theorem concludes (h : Sound producer p) (hposted : p.slot ≠ .waiting) :
    Concludes producer p.slot := by
  have hworking := h.working
  unfold Working at hworking
  rcases hw : p.worker with t | ⟨chunks, resume⟩ | _ | _ <;> simp only [hw] at hworking
  case ready => exact absurd hworking.2 hposted
  case sending => exact absurd hworking.2 hposted
  case leaving => exact hworking
  case gone => exact hworking.1

/-- Nothing waits for room in an empty queue. -/
theorem not_sendBlocks_of_empty (h : Sound producer p) (hq : p.queue = []) : ¬ p.SendBlocks := by
  rintro ⟨chunk, rest, resume, -, -, hfull⟩
  rw [hq] at hfull
  have := h.room
  simp only [List.length_nil] at hfull
  omega

theorem not_sendBlocks_of_closed (h : Sound producer p) (hc : p.closed = true) :
    ¬ p.SendBlocks :=
  not_sendBlocks_of_receiverGone (h.refuses.trans hc)

theorem turn (h : Sound producer p) (ht : Turn p q) : Sound producer q := by
  have hworking := h.working
  have hchunks := h.chunks
  unfold Working at hworking
  have hqueue : ∀ chunk ∈ p.queue ++ [], chunk ≠ [] := by
    intro chunk hc
    rw [List.append_nil] at hc
    exact hchunks chunk (List.mem_append_left _ hc)
  cases ht with
  | begin worker next active =>
    rename_i t data resume
    simp only [worker] at hworking
    refine { h with working := ⟨hworking.1.write next, hworking.2⟩, chunks := ?_ }
    intro chunk hc
    rcases List.mem_append.1 hc with hc | hc
    · exact hchunks chunk (List.mem_append_left _ hc)
    · exact Bytes.ne_nil_of_mem_blocks hc
  | deny worker next gone =>
    simp only [worker] at hworking
    exact { h with working := ⟨hworking.1.write next _, hworking.2⟩, chunks := hqueue }
  | close worker next =>
    simp only [worker] at hworking
    exact { h with working := ⟨hworking.1.close next, hworking.2⟩, chunks := hqueue }
  | look worker next =>
    simp only [worker] at hworking
    exact { h with working := ⟨hworking.1.look next _ _, hworking.2⟩, chunks := hqueue }
  | finish worker next =>
    simp only [worker] at hworking
    exact { h with working := .finish hworking.1 next, chunks := hqueue }
  | crash worker next =>
    simp only [worker] at hworking
    exact { h with working := .crash hworking.1 next, chunks := hqueue }
  | sent worker =>
    simp only [worker] at hworking
    exact { h with working := ⟨hworking.1 _, hworking.2⟩, chunks := hqueue }
  | refuse worker gone =>
    simp only [worker] at hworking
    exact { h with working := ⟨hworking.1 _, hworking.2⟩, chunks := hqueue }
  | send worker active room =>
    rename_i chunk rest resume
    simp only [worker] at hworking
    refine { h with working := ⟨hworking.1, hworking.2⟩, chunks := ?_ }
    intro x hx
    apply hchunks x
    rw [worker]
    simpa only [Worker.pending, List.append_assoc, List.singleton_append] using hx
  | leave worker =>
    simp only [worker] at hworking
    exact { h with working := ⟨hworking, rfl⟩, chunks := hqueue }

theorem poll (h : Sound producer p) : Sound producer p.poll := by
  obtain ⟨verdict, hp⟩ := p.poll_frame
  rw [hp]
  exact { h with }

theorem shutDown (h : Sound producer p) : Sound producer p.shut :=
  { h with
    chunks := fun chunk hc => h.chunks chunk (List.mem_append_right _ hc)
    refuses := rfl }

/-- An outcome that is posted is neither lost nor replaced by the worker. -/
theorem slot_turn (h : Sound producer p) (ht : Turn p q) (hposted : p.slot ≠ .waiting) :
    q.slot = p.slot := by
  have hworking := h.working
  unfold Working at hworking
  cases ht with
  | finish worker next =>
    simp only [worker] at hworking
    exact absurd hworking.2 hposted
  | crash worker next =>
    simp only [worker] at hworking
    exact absurd hworking.2 hposted
  | _ => rfl

end Sound

/-- What the reader of a pipe asks of it. -/
inductive Call where
  | read (n : Nat)
  | isFinished
  | close
  | result
  deriving DecidableEq, Repr

/-- A call with its answer. -/
inductive Entry (α : Type) where
  | read (n : Nat) (answer : Except Fault Bytes)
  | isFinished (answer : Bool)
  | close (answer : Except Fault Unit)
  | result (answer : Except Fault α)

/-- The answer to a call, where the worker acts as the pipe's schedule says and then as long as the
reader waits for it. -/
def Call.entry (p : Pipe π α) : Call → Entry α
  | .read n => .read n (p.read n).1
  | .isFinished => .isFinished p.isFinished.1
  | .close => .close p.close.1
  | .result => .result p.result.1

/-- The pipe after the call. -/
def Call.after (p : Pipe π α) : Call → Pipe π α
  | .read n => (p.read n).2
  | .isFinished => p.isFinished.2
  | .close => p.close.2
  | .result => p.result.2

/-- What the reader is about. -/
inductive Stage where
  | idle
  | reading (n : Nat)
  /-- Closing the pipe, and waiting for the outcome. -/
  | closing
  /-- Closing the pipe, and waiting for the worker to be gone. -/
  | joining
  | asking
  deriving DecidableEq, Repr

/-- Whether the reader may be about this if it has closed the pipe or not. -/
def Stage.Fits (closed : Bool) : Stage → Prop
  | .idle => True
  | .reading _ => closed = false
  | .closing | .joining | .asking => closed = true

/-- Whether the reader need not wait for the outcome. -/
def heard (p : Pipe π α) : Bool := p.verdict.isSome || !p.slot.isWaiting

/-- The answer to a reader that asks for the result and knows this much of the outcome. -/
def resultOf : Option (Verdict α) → Except Fault α
  | some (.value v) => .ok v
  | some (.failed e) => .error e
  | some .taken | none => .error (.misuse .resultTaken)

/-- What the reader knows of the outcome once it was answered. -/
def handOut : Option (Verdict α) → Option (Verdict α)
  | some (.failed e) => some (.failed e)
  | _ => some .taken

omit [Producer π α] in
theorem heard_eq (p : Pipe π α) : p.heard = p.poll.verdict.isSome := by
  rw [poll_eq]
  rcases hv : p.verdict with _ | v
  · rcases hs : p.slot with _ | (_ | _) | _ <;> simp [heard, hv, hs, Slot.isWaiting, Slot.verdict]
  · simp [heard, hv]

omit [Producer π α] in
theorem heard_of_posted {p : Pipe π α} (h : p.slot ≠ .waiting) : p.heard = true := by
  rcases hs : p.slot with _ | _ | _
  · exact absurd hs h
  · simp [heard, hs, Slot.isWaiting]
  · simp [heard, hs, Slot.isWaiting]

omit [Producer π α] in
theorem poll_of_isSome {p : Pipe π α} (h : p.verdict.isSome = true) : p.poll = p := by
  obtain ⟨v, hv⟩ := Option.isSome_iff_exists.1 h
  rw [poll_eq, hv, Option.some_or, ← hv]

/-- A pipe with its reader in the middle of a call or between calls. -/
structure Session (π α : Type) where
  pipe : Pipe π α
  stage : Stage := .idle
  /-- The calls that have returned, with their answers. -/
  log : List (Entry α) := []
  /-- How many acts of the worker there were. -/
  turns : Nat := 0

namespace Session

def start (c : Settings) (producer : π) : Session π α := { pipe := .start c producer }

/-- The call that the reader is in, or that it has just begun, returns. -/
def returns (s : Session π α) (e : Entry α) (p : Pipe π α) : Session π α :=
  { s with pipe := p, stage := .idle, log := s.log ++ [e] }

def beginRead (s : Session π α) (n : Nat) : Session π α :=
  if s.pipe.closed then s.returns (.read n (.error (.closed "pipe"))) s.pipe
  else if n = 0 then s.returns (.read n (.ok [])) s.pipe
  else { s with stage := .reading n }

def beginClose (s : Session π α) : Session π α :=
  if s.pipe.closed then s.returns (.close (.ok ())) s.pipe
  else if s.pipe.joinOnClose then { s with pipe := s.pipe.shut, stage := .closing }
  else s.returns (.close (.ok ())) s.pipe.shut

def beginResult (s : Session π α) : Session π α :=
  if s.pipe.closed then { s with stage := .asking }
  else s.returns (.result (.error (.misuse .resultBeforeClose))) s.pipe

/-- What a call does at once. -/
def begin (s : Session π α) : Call → Session π α
  | .read n => s.beginRead n
  | .isFinished => s.returns (.isFinished s.pipe.poll.verdict.isSome) s.pipe.poll
  | .close => s.beginClose
  | .result => s.beginResult

/-- What a reader does next in the middle of a call. Where it does nothing, it waits. -/
inductive Resumes (s : Session π α) : Session π α → Prop where
  | hand {n : Nat} (stage : s.stage = .reading n) (more : s.pipe.current ≠ []) :
      Resumes s (s.returns (.read n (.ok (s.pipe.current.take n)))
        { s.pipe with current := s.pipe.current.drop n })
  | tell {n : Nat} (stage : s.stage = .reading n) (used : s.pipe.current = [])
      (ended : s.pipe.endOfData = true) :
      Resumes s (s.returns (.read n (answerOf s.pipe.poll.verdict)) s.pipe.poll)
  | take {n : Nat} {chunk : Bytes} {rest : List Bytes} (stage : s.stage = .reading n)
      (used : s.pipe.current = []) (going : s.pipe.endOfData = false)
      (front : s.pipe.queue = chunk :: rest) :
      Resumes s { s with pipe := { s.pipe with current := chunk, queue := rest } }
  | finish {n : Nat} (stage : s.stage = .reading n) (used : s.pipe.current = [])
      (going : s.pipe.endOfData = false) (empty : s.pipe.queue = [])
      (gone : s.pipe.senderGone = true) :
      Resumes s { s with pipe := { s.pipe with endOfData := true } }
  | hear (stage : s.stage = .closing) (heard : s.pipe.heard = true) :
      Resumes s { s with pipe := s.pipe.poll, stage := .joining }
  | join (stage : s.stage = .joining) (gone : s.pipe.worker = .gone) :
      Resumes s (s.returns (.close (.ok ())) s.pipe)
  | answer (stage : s.stage = .asking) (heard : s.pipe.heard = true) :
      Resumes s (s.returns (.result (resultOf s.pipe.poll.verdict))
        { s.pipe.poll with verdict := handOut s.pipe.poll.verdict })

/-- One act of the worker or of the reader. -/
inductive Step (s : Session π α) : Session π α → Prop where
  | work {q : Pipe π α} (moved : s.pipe.advance? = some q) :
      Step s { s with pipe := q, turns := s.turns + 1 }
  | call (idle : s.stage = .idle) (c : Call) : Step s (s.begin c)
  | resume {t : Session π α} (resumed : Resumes s t) : Step s t
  | schedule (steps : List Nat) : Step s { s with pipe := { s.pipe with schedule := steps } }

/-- What can come of a session, in whatever order its two ends act. -/
def Reach : Session π α → Session π α → Prop := Relation.ReflTransGen Step

omit [Producer π α] in
theorem spared_begin (s : Session π α) (c : Call) : Spared s.pipe (s.begin c).pipe := by
  cases c with
  | read n =>
    show Spared s.pipe (s.beginRead n).pipe
    unfold beginRead
    split
    · exact .refl s.pipe
    · split <;> exact .refl s.pipe
  | isFinished => exact s.pipe.spared_poll
  | close =>
    show Spared s.pipe s.beginClose.pipe
    unfold beginClose
    split
    · exact .refl s.pipe
    · split <;> exact ⟨rfl, rfl, rfl, rfl, rfl⟩
  | result =>
    show Spared s.pipe s.beginResult.pipe
    unfold beginResult
    split <;> exact .refl s.pipe

omit [Producer π α] in
theorem turns_begin (s : Session π α) (c : Call) : (s.begin c).turns = s.turns := by
  cases c with
  | read n =>
    show (s.beginRead n).turns = s.turns
    unfold beginRead
    split
    · rfl
    · split <;> rfl
  | isFinished => rfl
  | close =>
    show s.beginClose.turns = s.turns
    unfold beginClose
    split
    · rfl
    · split <;> rfl
  | result =>
    show s.beginResult.turns = s.turns
    unfold beginResult
    split <;> rfl

omit [Producer π α] in
theorem Resumes.spared {s t : Session π α} (h : Resumes s t) :
    Spared s.pipe t.pipe ∧ t.turns = s.turns := by
  cases h with
  | tell stage used ended => exact ⟨s.pipe.spared_poll, rfl⟩
  | hear stage heard => exact ⟨s.pipe.spared_poll, rfl⟩
  | answer stage heard =>
    have hpoll := s.pipe.spared_poll
    exact ⟨{ hpoll with }, rfl⟩
  | _ => exact ⟨⟨rfl, rfl, rfl, rfl, rfl⟩, rfl⟩

theorem closed_of_step {s t : Session π α} (hs : Step s t) (hc : s.pipe.closed = true) :
    t.pipe.closed = true := by
  cases hs with
  | work moved => exact (turn_of_advance? moved).apart.closed_eq.trans hc
  | call idle c =>
    cases c with
    | read n =>
      show (s.beginRead n).pipe.closed = true
      rw [beginRead, if_pos hc]
      exact hc
    | isFinished =>
      show s.pipe.poll.closed = true
      rw [poll_eq]
      exact hc
    | close =>
      show s.beginClose.pipe.closed = true
      rw [beginClose, if_pos hc]
      exact hc
    | result =>
      show s.beginResult.pipe.closed = true
      rw [beginResult, if_pos hc]
      exact hc
  | resume resumed =>
    have hpoll : s.pipe.poll.closed = true := by
      rw [poll_eq]
      exact hc
    cases resumed with
    | tell stage used ended => exact hpoll
    | hear stage heard => exact hpoll
    | answer stage heard => exact hpoll
    | _ => exact hc
  | schedule steps => exact hc

/-- A pipe that was closed stays closed. -/
theorem closed_of_reach {s t : Session π α} (hr : Reach s t) (hc : s.pipe.closed = true) :
    t.pipe.closed = true := by
  induction hr with
  | refl => exact hc
  | tail _ hs ih => exact closed_of_step hs ih

/-- The reader is in the middle of a call and can only wait. -/
def Waits (s : Session π α) : Prop := s.stage ≠ .idle ∧ ∀ t, ¬ Resumes s t

/-- A session whose reader is about nothing that it could not have begun. -/
structure Orderly (producer : π) (s : Session π α) : Prop where
  sound : Sound producer s.pipe
  busy : s.stage.Fits s.pipe.closed

namespace Orderly

variable {c : Settings} {producer : π} {s t : Session π α}

theorem start (c : Settings) (producer : π) :
    Orderly producer (.start c producer : Session π α) :=
  ⟨Sound.start c producer, trivial⟩

theorem returns {p : Pipe π α} (hp : Sound producer p) (e : Entry α) :
    Orderly producer (s.returns e p) :=
  ⟨hp, trivial⟩

theorem begin (h : Orderly producer s) (c : Call) : Orderly producer (s.begin c) := by
  cases c with
  | read n =>
    show Orderly producer (s.beginRead n)
    unfold beginRead
    split
    · exact returns h.sound _
    · rename_i hopen
      split
      · exact returns h.sound _
      · exact ⟨h.sound, Bool.eq_false_iff.2 hopen⟩
  | isFinished => exact returns h.sound.poll _
  | close =>
    show Orderly producer s.beginClose
    unfold beginClose
    split
    · exact returns h.sound _
    · split
      · exact ⟨h.sound.shutDown, rfl⟩
      · exact returns h.sound.shutDown _
  | result =>
    show Orderly producer s.beginResult
    unfold beginResult
    split
    · rename_i hclosed
      exact ⟨h.sound, hclosed⟩
    · exact returns h.sound _

theorem resume (h : Orderly producer s) (hr : Resumes s t) : Orderly producer t := by
  have hsound := h.sound
  cases hr with
  | hand stage more => exact ⟨{ hsound with }, trivial⟩
  | tell stage used ended => exact returns hsound.poll _
  | take stage used going front =>
    refine ⟨{ hsound with chunks := ?_ }, h.busy⟩
    intro chunk hc
    apply hsound.chunks chunk
    rw [front]
    exact List.mem_cons_of_mem _ hc
  | finish stage used going empty gone => exact ⟨{ hsound with }, h.busy⟩
  | hear stage heard =>
    have hclosed : s.pipe.closed = true := by
      have hbusy := h.busy
      rw [stage] at hbusy
      exact hbusy
    refine ⟨hsound.poll, ?_⟩
    rw [poll_eq]
    exact hclosed
  | join stage gone => exact returns hsound _
  | answer stage heard =>
    have hpoll := hsound.poll
    exact ⟨{ hpoll with }, trivial⟩

theorem step (h : Orderly producer s) (hs : Step s t) : Orderly producer t := by
  cases hs with
  | work moved =>
    have hturn := turn_of_advance? moved
    refine ⟨h.sound.turn hturn, ?_⟩
    rw [hturn.apart.closed_eq]
    exact h.busy
  | call idle c => exact h.begin c
  | resume resumed => exact h.resume resumed
  | schedule steps => exact ⟨{ h.sound with }, h.busy⟩

theorem reach (h : Orderly producer s) (hr : Reach s t) : Orderly producer t := by
  induction hr with
  | refl => exact h
  | tail _ hs ih => exact ih.step hs

/-- The outcome, once posted, stays. -/
theorem slot_reach (h : Orderly producer s) (hposted : s.pipe.slot ≠ .waiting) (hr : Reach s t) :
    t.pipe.slot = s.pipe.slot := by
  induction hr with
  | refl => rfl
  | @tail t u hr hs ih =>
    have hkept := h.reach hr
    rw [← ih] at hposted ⊢
    cases hs with
    | work moved => exact hkept.sound.slot_turn (turn_of_advance? moved) hposted
    | call idle c => exact (spared_begin t c).slot_eq
    | resume resumed => exact resumed.spared.1.slot_eq
    | schedule steps => rfl

end Orderly

end Session

end Pipe

end StreamLayers
