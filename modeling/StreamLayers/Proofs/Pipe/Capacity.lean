import Mathlib.Algebra.Group.Action.Defs
import Mathlib.Algebra.Order.BigOperators.Group.List
import Mathlib.Algebra.Order.Ring.Nat
import StreamLayers.Pipe.Script
import StreamLayers.Proofs.Pipe.Calls
import StreamLayers.Word

/-!
The byte budget of a pipe: what the queue is made for, which settings a queue can be made for, and how
much it holds while the two ends act in any order.
-/

namespace StreamLayers

namespace Pipe

variable {π α : Type} [Producer π α]

namespace Settings

variable {c : Settings}

theorem validate_eq_ok_iff (c : Settings) :
    c.validate = .ok () ↔ 0 < c.chunkSize ∧ 0 < c.bufferSize := by
  unfold validate
  split
  · simp [*]
  · split
    · simp [*]
    · simp only [true_iff]
      omega

theorem capacity_pos (c : Settings) : 0 < c.capacity := by
  unfold capacity
  omega

/-- A chunk that is larger than the buffer is still queued, alone. -/
theorem capacity_mul_chunkSize_le (hchunk : 0 < c.chunkSize) :
    c.capacity * c.chunkSize ≤ max c.bufferSize c.chunkSize := by
  have hmax : max c.chunkSize 1 = c.chunkSize := by omega
  unfold capacity
  rw [hmax]
  rcases Nat.le_total (c.bufferSize / c.chunkSize) 1 with hone | hmore
  · rw [Nat.max_eq_right hone]
    omega
  · rw [Nat.max_eq_left hmore]
    have := Nat.div_mul_le_self c.bufferSize c.chunkSize
    omega

theorem capacity_le_iff (hchunk : 0 < c.chunkSize) {n : Nat} (hn : 0 < n) :
    c.capacity ≤ n ↔ c.bufferSize < (n + 1) * c.chunkSize := by
  have hmax : max c.chunkSize 1 = c.chunkSize := by omega
  have hdiv : c.bufferSize / c.chunkSize < n + 1 ↔ c.bufferSize < (n + 1) * c.chunkSize :=
    Nat.div_lt_iff_lt_mul hchunk
  simp only [capacity, hmax, ← hdiv]
  omega

end Settings

omit [Producer π α] in
/-- Valid settings spawn a pipe unless they ask for a queue that cannot be made. -/
theorem spawnOn_of_valid {c : Settings} (hvalid : c.validate = .ok ()) (worker : Strategy)
    (producer : π) :
    (spawnOn c worker producer : Except StartFailure (Pipe π α)) =
      if maxCapacity < c.capacity then .error .tooLarge else .ok (start c producer) := by
  simp only [spawnOn, hvalid]

/-- The reader has at most taken chunks from the front of the queue. -/
structure Drawn (p q : Pipe π α) : Prop where
  capacity_eq : q.capacity = p.capacity
  suffix : q.queue <:+ p.queue

omit [Producer π α] in
theorem Drawn.of_eq {p q : Pipe π α} (hcapacity : q.capacity = p.capacity)
    (hqueue : q.queue = p.queue) : Drawn p q :=
  ⟨hcapacity, hqueue ▸ List.suffix_rfl⟩

omit [Producer π α] in
theorem drawn_poll (p : Pipe π α) : Drawn p p.poll := by
  obtain ⟨verdict, hp⟩ := p.poll_frame
  rw [hp]
  exact .of_eq rfl rfl

omit [Producer π α] in
theorem drawn_shut (p : Pipe π α) : Drawn p p.shut := ⟨rfl, List.nil_suffix⟩

/-- A queue of at most so many chunks, none of them larger than the settings allow, nor any that the
worker is about to send. -/
structure Bounded (c : Settings) (p : Pipe π α) : Prop where
  chunkSize_eq : p.chunkSize = c.chunkSize
  capacity_eq : p.capacity = c.capacity
  queue_le : p.queue.length ≤ c.capacity
  chunks_le : ∀ chunk ∈ p.queue ++ p.worker.pending, chunk.length ≤ c.chunkSize

namespace Bounded

variable {c : Settings} {p q : Pipe π α}

omit [Producer π α] in
theorem start (c : Settings) (producer : π) : Bounded c (.start c producer : Pipe π α) where
  chunkSize_eq := rfl
  capacity_eq := rfl
  queue_le := Nat.zero_le _
  chunks_le := by simp [Pipe.start, Worker.pending]

omit [Producer π α] in
theorem queued_le (h : Bounded c p) : p.queue.flatten.length ≤ c.capacity * c.chunkSize := by
  have hsum : p.queue.flatten.length ≤ p.queue.length * c.chunkSize := by
    have hlengths : ∀ n ∈ p.queue.map List.length, n ≤ c.chunkSize := by
      intro n hn
      obtain ⟨chunk, hc, rfl⟩ := List.mem_map.1 hn
      exact h.chunks_le chunk (List.mem_append_left _ hc)
    have hle := List.sum_le_card_nsmul _ _ hlengths
    simpa only [List.length_flatten, List.length_map, smul_eq_mul] using hle
  exact hsum.trans (Nat.mul_le_mul_right _ h.queue_le)

omit [Producer π α] in
/-- What the reader does takes nothing from the worker and adds nothing to the queue. -/
theorem draw (h : Bounded c p) (hspared : Spared p q) (hdrawn : Drawn p q) : Bounded c q where
  chunkSize_eq := hspared.chunkSize_eq.trans h.chunkSize_eq
  capacity_eq := hdrawn.capacity_eq.trans h.capacity_eq
  queue_le := hdrawn.suffix.length_le.trans h.queue_le
  chunks_le := by
    intro chunk hc
    rw [hspared.worker_eq] at hc
    rcases List.mem_append.1 hc with hc | hc
    · exact h.chunks_le chunk (List.mem_append_left _ (hdrawn.suffix.subset hc))
    · exact h.chunks_le chunk (List.mem_append_right _ hc)

/-- The worker cuts what it is to write into chunks, and sends one only where there is room. -/
theorem turn (h : Bounded c p) (hchunk : 0 < c.chunkSize) (ht : Turn p q) : Bounded c q := by
  have hchunks := h.chunks_le
  have hqueue : ∀ chunk ∈ p.queue ++ [], chunk.length ≤ c.chunkSize := by
    intro chunk hc
    rw [List.append_nil] at hc
    exact hchunks chunk (List.mem_append_left _ hc)
  cases ht with
  | begin worker next active =>
    rename_i data resume
    refine { h with chunks_le := ?_ }
    intro chunk hc
    rcases List.mem_append.1 hc with hc | hc
    · exact hchunks chunk (List.mem_append_left _ hc)
    · rw [← h.chunkSize_eq] at hchunk ⊢
      exact Bytes.length_le_of_mem_blocks hchunk hc
  | send worker active room =>
    rename_i chunk rest resume
    refine { h with queue_le := ?_, chunks_le := ?_ }
    · have := h.capacity_eq
      simp only [List.length_append, List.length_singleton]
      omega
    · intro x hx
      apply hchunks x
      rw [worker]
      simpa only [Worker.pending, List.append_assoc, List.singleton_append] using hx
  | _ => exact { h with chunks_le := hqueue }

end Bounded

namespace Session

variable {c : Settings} {producer : π} {s t : Session π α}

omit [Producer π α] in
theorem drawn_begin (s : Session π α) (call : Call) : Drawn s.pipe (s.begin call).pipe := by
  have hsame : Drawn s.pipe s.pipe := .of_eq rfl rfl
  cases call with
  | read n =>
    show Drawn s.pipe (s.beginRead n).pipe
    unfold beginRead
    split
    · exact hsame
    · split <;> exact hsame
  | isFinished => exact s.pipe.drawn_poll
  | close =>
    show Drawn s.pipe s.beginClose.pipe
    unfold beginClose
    split
    · exact hsame
    · split <;> exact s.pipe.drawn_shut
  | result =>
    show Drawn s.pipe s.beginResult.pipe
    unfold beginResult
    split <;> exact hsame

omit [Producer π α] in
theorem Resumes.drawn (h : Resumes s t) : Drawn s.pipe t.pipe := by
  cases h with
  | tell stage used ended => exact s.pipe.drawn_poll
  | take stage used going front => exact ⟨rfl, front ▸ List.suffix_cons _ _⟩
  | hear stage heard => exact s.pipe.drawn_poll
  | answer stage heard => exact ⟨s.pipe.drawn_poll.capacity_eq, s.pipe.drawn_poll.suffix⟩
  | _ => exact .of_eq rfl rfl

theorem Step.bounded (hs : Step s t) (hchunk : 0 < c.chunkSize) (h : Bounded c s.pipe) :
    Bounded c t.pipe := by
  cases hs with
  | work moved => exact h.turn hchunk (turn_of_advance? moved)
  | call idle call => exact h.draw (spared_begin s call) (drawn_begin s call)
  | resume resumed => exact h.draw resumed.spared.1 resumed.drawn
  | schedule steps => exact { h with }

theorem bounded_of_reach (hchunk : 0 < c.chunkSize) (h : Bounded c s.pipe) (hr : Reach s t) :
    Bounded c t.pipe := by
  induction hr with
  | refl => exact h
  | tail _ hs ih => exact hs.bounded hchunk ih

end Session

/-- What valid settings ask for and what becomes of it. -/
structure Budgeted (c : Settings) (producer : π) : Prop where
  capacity_pos : 1 ≤ c.capacity
  capacity_mul_le : c.capacity * c.chunkSize ≤ max c.bufferSize c.chunkSize
  /-- A pipe comes of them just if the queue is not too large. -/
  spawns_iff : ∀ worker,
    (spawnOn c worker producer : Except StartFailure (Pipe π α)) = .ok (start c producer) ↔
      c.capacity ≤ maxCapacity
  breaks_iff : ∀ worker,
    (spawnOn c worker producer : Except StartFailure (Pipe π α)) = .error .tooLarge ↔
      (maxCapacity + 1) * c.chunkSize ≤ c.bufferSize
  /-- In whatever order the ends of the pipe act, no more bytes are queued. -/
  queued_le : ∀ s : Session π α, Session.Reach (.start c producer) s →
    s.pipe.queue.length ≤ c.capacity ∧
      s.pipe.queue.flatten.length ≤ max c.bufferSize c.chunkSize

/-- Valid settings keep to their budget. Those for which no queue can be made are the ones with a
buffer of more than 2^61 - 1 chunks, which takes chunks of less than eight bytes. -/
theorem budgeted_of_valid {c : Settings} (hvalid : c.validate = .ok ()) (producer : π) :
    Budgeted c producer ∧
      (c.bufferSize < wordLimit → 8 ≤ c.chunkSize → c.capacity ≤ maxCapacity) := by
  obtain ⟨hchunk, -⟩ := (Settings.validate_eq_ok_iff c).1 hvalid
  have hbudget := Settings.capacity_mul_chunkSize_le hchunk
  have hle := Settings.capacity_le_iff hchunk (n := maxCapacity) (by decide)
  refine ⟨⟨c.capacity_pos, hbudget, ?_, ?_, ?_⟩, ?_⟩
  · intro worker
    rw [spawnOn_of_valid hvalid]
    split
    · simp only [reduceCtorEq, false_iff]
      omega
    · simp only [true_iff]
      omega
  · intro worker
    rw [spawnOn_of_valid hvalid]
    split
    · simp only [true_iff]
      omega
    · simp only [reduceCtorEq, false_iff]
      omega
  · intro s hreach
    have hbounded : Bounded c s.pipe :=
      Session.bounded_of_reach hchunk (Bounded.start c producer) hreach
    exact ⟨hbounded.queue_le, hbounded.queued_le.trans hbudget⟩
  · intro hword hlarge
    rw [hle]
    have : (maxCapacity + 1) * 8 ≤ (maxCapacity + 1) * c.chunkSize := Nat.mul_le_mul_left _ hlarge
    have : (maxCapacity + 1) * 8 = wordLimit := by decide
    omega

/-- The largest buffer that a word can ask for, in the smallest chunks with which a queue can always be
made; and a queue that a fast producer has filled up to its budget. -/
theorem budgeted_of_valid_tight :
    let large : Settings := { bufferSize := 18446744073709551615, chunkSize := 8 }
    let small : Settings := { bufferSize := 5, chunkSize := 2 }
    let script := Script.ofTasks [.write [1, 2, 3, 4, 5, 6]]
    let spawned (c : Settings) : Except StartFailure (Pipe Script (List Script.Note)) :=
      spawnOn c .dedicated script
    large.validate = .ok () ∧ large.capacity = maxCapacity ∧
      spawned large = .ok (start large script) ∧
      small.validate = .ok () ∧ spawned small = .ok (start small script) ∧
      ∃ s : Session Script (List Script.Note), Session.Reach (.start small script) s ∧
        s.pipe.queue = [[1, 2], [3, 4]] ∧ s.pipe.queue.flatten.length ≤ 5 := by
  intro large small script spawned
  have hlarge : large.validate = .ok () := rfl
  have hsmall : small.validate = .ok () := rfl
  have hcapacity : large.capacity = maxCapacity := by decide
  obtain ⟨hall, -⟩ := budgeted_of_valid hlarge script
  obtain ⟨hfew, -⟩ := budgeted_of_valid hsmall script
  obtain ⟨turns, hrun⟩ := Session.reach_run 3 (.start small script)
  refine ⟨hlarge, hcapacity, (hall.spawns_iff _).2 hcapacity.le, hsmall,
    (hfew.spawns_iff _).2 (by decide), _, hrun, ?_, (hfew.queued_le _ hrun).2⟩
  dsimp only [small, script]
  decide +kernel

/-- Settings that are valid, and of which no pipe comes. -/
theorem spawnOn_overflow :
    let c : Settings := { bufferSize := 4611686018427387904, chunkSize := 1 }
    let script := Script.ofTasks [.write [97, 98]]
    c.validate = .ok () ∧ c.bufferSize < wordLimit ∧ ¬ c.capacity ≤ maxCapacity ∧
      ∀ worker, ¬ ∃ p : Pipe Script (List Script.Note), spawnOn c worker script = .ok p := by
  intro c script
  refine ⟨rfl, by decide, by decide, ?_⟩
  rintro worker ⟨p, hp⟩
  rw [spawnOn_of_valid rfl, if_pos (by decide)] at hp
  cases hp

end Pipe

end StreamLayers
