import StreamLayers.Source

/-!
Pipes: a producer writes on a worker of its own, and the owner of the pipe reads the same bytes in
order. The two meet at a bounded queue of chunks, so a producer that is too fast has to wait.
-/

namespace StreamLayers

/-- What a producer in state `π` does next. Its writes answer with how they went. -/
inductive Move (π α : Type) where
  | write (data : Bytes) (resume : Except Fault Unit → π)
  /-- Signals the end of the data early. -/
  | close (next : π)
  /-- Asks how many bytes were sent and whether nobody reads them any more. -/
  | look (resume : Nat → Bool → π)
  | finish (result : Except Fault α)
  /-- Breaks down without reporting anything. -/
  | crash

/-- Whether everything that may follow the move without a chunk being sent has a rank below
`bound`. -/
def Move.Quiet {π α : Type} (rank : π → Nat) (bound : Nat) : Move π α → Prop
  | .write data resume =>
    (data = [] → rank (resume (.ok ())) < bound) ∧ ∀ e, rank (resume (.error e)) < bound
  | .close next => rank next < bound
  | .look resume => ∀ written gone, rank (resume written gone) < bound
  | .finish _ | .crash => True

/-- A program that writes into a pipe, with states `π` and a result in `α`. The rank bounds how long
it goes on without sending anything, so a producer whose chunks are not taken comes to rest. -/
class Producer (π : Type) (α : outParam Type) where
  next : π → Move π α
  rank : π → Nat
  quiet : ∀ p, (next p).Quiet rank (rank p)
  /-- A bound on the bytes that it still writes. -/
  left : π → Nat

namespace Pipe

inductive Strategy where
  /-- On a thread of their own. -/
  | dedicated
  /-- On a shared pool, which has to be there. -/
  | pool
  deriving DecidableEq, Repr

structure Settings where
  /-- Bytes that may be on their way before the producer has to wait. -/
  bufferSize : Nat := 1024 * 1024
  /-- Size of the largest chunk. -/
  chunkSize : Nat := defaultChunk
  strategy : Strategy := .dedicated
  /-- Whether closing the pipe waits for the producer. -/
  joinOnClose : Bool := false
  deriving DecidableEq, Repr

namespace Settings

def validate (c : Settings) : Except Fault Unit :=
  if c.chunkSize = 0 then .error (.invalidParameter "chunk_size" "must be greater than zero")
  else if c.bufferSize = 0 then
    .error (.invalidParameter "buffer_size" "must be greater than zero")
  else .ok ()

def capacity (c : Settings) : Nat := max (c.bufferSize / max c.chunkSize 1) 1

/-- The worker that the settings ask for, given whether there is a pool. -/
def resolve (c : Settings) (hasPool : Bool) : Except Fault Strategy :=
  match c.strategy with
  | .dedicated => .ok .dedicated
  | .pool =>
    if hasPool then .ok .pool
    else .error (.invalidSettings "pool strategy requires a tokio runtime context")

end Settings

/-- The most chunks that a queue can be made for. -/
def maxCapacity : Nat := 0x1FFFFFFFFFFFFFFF

inductive Worker (π : Type) where
  | ready (p : π)
  /-- In the middle of a write, with the chunks still to be sent. -/
  | sending (chunks : List Bytes) (resume : Except Fault Unit → π)
  /-- The outcome is posted; the sending end goes next. -/
  | leaving
  | gone

/-- Where the producer posts its outcome. -/
inductive Slot (α : Type) where
  | waiting
  | reported (result : Except Fault α)
  /-- Nothing will ever be posted. -/
  | dropped

/-- What the reader knows of the outcome. -/
inductive Verdict (α : Type) where
  | value (v : α)
  | failed (e : Fault)
  /-- The value was handed out. -/
  | taken

end Pipe

structure Pipe (π α : Type) where
  chunkSize : Nat
  capacity : Nat
  joinOnClose : Bool
  worker : Pipe.Worker π
  /-- How many bytes were sent. -/
  written : Nat := 0
  queue : List Bytes := []
  /-- Whether the sending end was given up. -/
  senderGone : Bool := false
  /-- Whether the receiving end was given up; the queue goes with it. -/
  receiverGone : Bool := false
  slot : Pipe.Slot α := .waiting
  /-- The unread part of the chunk that the reader took last. -/
  current : Bytes := []
  endOfData : Bool := false
  verdict : Option (Pipe.Verdict α) := none
  closed : Bool := false
  /-- How many steps the worker takes on its own before each act of the reader; afterwards, and
  where the list ends, it moves when the reader waits for it. -/
  schedule : List Nat := []

namespace Pipe

variable {π α : Type} [Producer π α]

/-- How much the worker can do without sending a chunk. -/
def Worker.weight : Worker π → Nat
  | .ready p => 2 * Producer.rank p + 2
  | .sending [] resume => 2 * Producer.rank (resume (.ok ())) + 3
  | .sending (_ :: _) resume => 2 * Producer.rank (resume (.error (.io (.brokenPipe "pipe")))) + 3
  | .leaving => 1
  | .gone => 0

def room (p : Pipe π α) : Nat := p.capacity - p.queue.length

/-- One step of the worker; none if it waits for room in the queue or is gone. -/
def advance? (p : Pipe π α) : Option (Pipe π α) :=
  match p.worker with
  | .gone => none
  | .leaving => some { p with worker := .gone, senderGone := true }
  | .sending [] resume => some { p with worker := .ready (resume (.ok ())) }
  | .sending (chunk :: rest) resume =>
    if p.receiverGone then
      some { p with worker := .ready (resume (.error (.io (.brokenPipe "pipe")))) }
    else if p.queue.length < p.capacity then
      some { p with
        worker := .sending rest resume
        queue := p.queue ++ [chunk]
        written := p.written + chunk.length }
    else none
  | .ready s =>
    match Producer.next s with
    | .write data resume =>
      if p.senderGone then
        some { p with worker := .ready (resume (.error (.closed "pipe writer"))) }
      else some { p with worker := .sending (data.blocks p.chunkSize) resume }
    | .close next => some { p with worker := .ready next, senderGone := true }
    | .look resume =>
      some { p with worker := .ready (resume p.written (p.senderGone || p.receiverGone)) }
    | .finish result => some { p with worker := .leaving, slot := .reported result }
    | .crash => some { p with worker := .leaving, slot := .dropped }

/-- Every step of the worker uses up room in the queue or what it can do without it. -/
theorem advance?_lt {p q : Pipe π α} (h : p.advance? = some q) :
    Prod.Lex (· < ·) (· < ·) (q.room, q.worker.weight) (p.room, p.worker.weight) := by
  have same {q : Pipe π α} (hc : q.capacity = p.capacity) (hq : q.queue = p.queue)
      (hw : q.worker.weight < p.worker.weight) :
      Prod.Lex (· < ·) (· < ·) (q.room, q.worker.weight) (p.room, p.worker.weight) := by
    have : q.room = p.room := by simp [room, hc, hq]
    rw [this]
    exact .right _ hw
  unfold advance? at h
  split at h
  · simp at h
  · rename_i hw
    obtain rfl := Option.some.inj h
    exact same rfl rfl (by simp [hw, Worker.weight])
  · rename_i hw
    obtain rfl := Option.some.inj h
    exact same rfl rfl (by simp [hw, Worker.weight])
  · rename_i hw
    split at h
    · obtain rfl := Option.some.inj h
      exact same rfl rfl (by simp [hw, Worker.weight])
    · split at h
      · obtain rfl := Option.some.inj h
        exact .left _ _ (by simp only [room, List.length_append, List.length_singleton]; omega)
      · simp at h
  · rename_i s hw
    have hs := Producer.quiet s
    split at h <;> rename_i hm <;> rw [hm] at hs
    · rename_i data resume
      split at h
      · obtain rfl := Option.some.inj h
        refine same rfl rfl ?_
        have := hs.2 (.closed "pipe writer")
        simp only [hw, Worker.weight]
        omega
      · obtain rfl := Option.some.inj h
        refine same rfl rfl ?_
        cases data with
        | nil =>
          have := hs.1 rfl
          simp only [hw, Bytes.blocks_nil, Worker.weight]
          omega
        | cons b rest =>
          have := hs.2 (.io (.brokenPipe "pipe"))
          simp only [hw, Bytes.blocks_cons, Worker.weight]
          omega
    · obtain rfl := Option.some.inj h
      have : _ < _ := hs
      exact same rfl rfl (by simp only [hw, Worker.weight]; omega)
    · obtain rfl := Option.some.inj h
      have := hs p.written (p.senderGone || p.receiverGone)
      exact same rfl rfl (by simp only [hw, Worker.weight]; omega)
    · obtain rfl := Option.some.inj h
      exact same rfl rfl (by simp only [hw, Worker.weight]; omega)
    · obtain rfl := Option.some.inj h
      exact same rfl rfl (by simp only [hw, Worker.weight]; omega)

/-- Lets the worker run until `done` holds or it can do nothing. -/
def runUntil (done : Pipe π α → Bool) (p : Pipe π α) : Pipe π α :=
  if done p then p
  else
    match h : p.advance? with
    | none => p
    | some q =>
      have := advance?_lt h
      runUntil done q
termination_by (p.room, p.worker.weight)
decreasing_by exact this

def run : Nat → Pipe π α → Pipe π α
  | 0, p => p
  | n + 1, p =>
    match p.advance? with
    | none => p
    | some q => run n q

/-- The steps that the schedule gives the worker before the reader's next act. -/
def yield (p : Pipe π α) : Pipe π α :=
  match p.schedule with
  | [] => p
  | n :: rest => { p with schedule := rest }.run n

def start (c : Settings) (producer : π) : Pipe π α :=
  { chunkSize := c.chunkSize, capacity := c.capacity, joinOnClose := c.joinOnClose
    worker := .ready producer }

/-- Notes the outcome, if it is posted and not noted yet. -/
def poll (p : Pipe π α) : Pipe π α :=
  match p.verdict, p.slot with
  | none, .reported (.ok v) => { p with verdict := some (.value v) }
  | none, .reported (.error e) => { p with verdict := some (.failed (.producerFailed e)) }
  | none, .dropped => { p with verdict := some (.failed .producerVanished) }
  | _, _ => p

def Slot.isWaiting : Slot α → Bool
  | .waiting => true
  | _ => false

def awaitOutcome (p : Pipe π α) : Pipe π α :=
  if p.verdict.isSome then p else (p.yield.runUntil (!·.slot.isWaiting)).poll

def awaitWorker (p : Pipe π α) : Pipe π α :=
  p.yield.runUntil fun p => match p.worker with
    | .gone => true
    | _ => false

/-- Takes the next chunk, which the worker may still have to send, or learns that none will
come. -/
def receive (p : Pipe π α) : Pipe π α :=
  let p := p.yield.runUntil fun p => !p.queue.isEmpty || p.senderGone
  match p.queue with
  | chunk :: rest => { p with current := chunk, queue := rest }
  | [] => { p with endOfData := true }

/-- The answer to a read after the end of the data: a failure of the producer shows here. -/
def readEnd (p : Pipe π α) : Except Fault Bytes × Pipe π α :=
  let p := p.yield.poll
  match p.verdict with
  | some (.failed e) => (.error e, p)
  | _ => (.ok [], p)

def serve (p : Pipe π α) (n : Nat) : Except Fault Bytes × Pipe π α :=
  match p.current with
  | [] => p.readEnd
  | data => (.ok (data.take n), { p with current := data.drop n })

def read (p : Pipe π α) (n : Nat) : Except Fault Bytes × Pipe π α :=
  if p.closed then (.error (.closed "pipe"), p)
  else if n = 0 then (.ok [], p)
  else if p.current.isEmpty && !p.endOfData then p.receive.serve n
  else p.serve n

/-- Gives up the receiving end, so that what the producer still writes is refused. -/
def close (p : Pipe π α) : Except Fault Unit × Pipe π α :=
  if p.closed then (.ok (), p)
  else
    let p := p.yield
    let p := { p with closed := true, current := [], queue := [], receiverGone := true }
    (.ok (), if p.joinOnClose then p.awaitOutcome.awaitWorker else p)

/-- What the producer returned, once the pipe is closed. A value is handed out once; a failure is
repeated. -/
def result (p : Pipe π α) : Except Fault α × Pipe π α :=
  if !p.closed then (.error (.misuse .resultBeforeClose), p)
  else
    let p := p.awaitOutcome
    match p.verdict with
    | some (.value v) => (.ok v, { p with verdict := some .taken })
    | some (.failed e) => (.error e, p)
    | some .taken | none => (.error (.misuse .resultTaken), { p with verdict := some .taken })

def isFinished (p : Pipe π α) : Bool × Pipe π α :=
  let p := p.yield.poll
  (p.verdict.isSome, p)

/-- A bound on what the worker still sends. -/
def Worker.left : Worker π → Nat
  | .ready p => Producer.left p
  | .sending chunks resume => chunks.flatten.length + Producer.left (resume (.ok ()))
  | .leaving | .gone => 0

instance : ByteSource (Pipe π α) where
  name _ := "pipe"
  read := read
  close := close
  left p := p.current.length + p.queue.flatten.length + p.worker.left

inductive StartFailure where
  | refused (e : Fault)
  /-- No queue can be made that large. -/
  | tooLarge
  deriving Repr

def spawnOn (c : Settings) (_ : Strategy) (producer : π) : Except StartFailure (Pipe π α) :=
  match c.validate with
  | .error e => .error (.refused e)
  | .ok () => if maxCapacity < c.capacity then .error .tooLarge else .ok (start c producer)

/-- Starts a producer on the worker that the settings ask for. -/
def spawn (c : Settings) (hasPool : Bool) (producer : π) : Except StartFailure (Pipe π α) :=
  match c.resolve hasPool with
  | .error e => .error (.refused e)
  | .ok strategy => spawnOn c strategy producer

end Pipe

end StreamLayers
