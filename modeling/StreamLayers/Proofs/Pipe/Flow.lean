import Mathlib.Logic.Relation
import StreamLayers.Pipe

/-!
A pipe whose worker and reader act in any order. What the reader got, what it holds, what is queued
and what the worker is about to send always make up what the producer has written so far.
-/

namespace StreamLayers

namespace Pipe

variable {π α : Type} [Producer π α]

/-- A producer in state `s` whose writes all succeed writes `data` in all before its data ends. -/
inductive Writes : π → Bytes → Prop where
  | write {s : π} {data rest : Bytes} {resume : Except Fault Unit → π}
      (next : Producer.next s = .write data resume) (tail : Writes (resume (.ok ())) rest) :
      Writes s (data ++ rest)
  | close {s r : π} (next : Producer.next s = .close r) : Writes s []
  | look {s : π} {data : Bytes} {resume : Nat → Bool → π} (next : Producer.next s = .look resume)
      (tail : ∀ written gone, Writes (resume written gone) data) : Writes s data
  | finish {s : π} {result : Except Fault α} (next : Producer.next s = .finish result) :
      Writes s []
  | crash {s : π} (next : Producer.next s = .crash) : Writes s []

/-- What the next move of a producer says about all that it writes. -/
def Demands (all : Bytes) : Move π α → Prop
  | .write data resume => ∃ rest, all = data ++ rest ∧ Writes (resume (.ok ())) rest
  | .look resume => ∀ written gone, Writes (resume written gone) all
  | .close _ | .finish _ | .crash => all = []

theorem Writes.demands {s : π} {all : Bytes} (h : Writes s all) :
    Demands all (Producer.next s) := by
  cases h with
  | write next tail =>
    rw [next]
    exact ⟨_, rfl, tail⟩
  | close next =>
    rw [next]
    exact rfl
  | look next tail =>
    rw [next]
    exact tail
  | finish next =>
    rw [next]
    exact rfl
  | crash next =>
    rw [next]
    exact rfl

/-- The chunks that the worker still has to send. -/
def Worker.pending : Worker π → List Bytes
  | .sending chunks _ => chunks
  | _ => []

def Worker.isSending : Worker π → Bool
  | .sending _ _ => true
  | _ => false

theorem Worker.pending_eq_nil {w : Worker π} (h : w.isSending = false) : w.pending = [] := by
  cases w with
  | sending chunks resume => cases h
  | _ => rfl

/-- What the worker still writes after the write that it is in. -/
def Worker.Owes : Worker π → Bytes → Prop
  | .ready s, rest => Writes s rest
  | .sending _ resume, rest => Writes (resume (.ok ())) rest
  | .leaving, rest | .gone, rest => rest = []

/-- The bytes of the write that the next step of the worker begins. -/
def begins (p : Pipe π α) : Bytes :=
  match p.worker with
  | .ready s =>
    match Producer.next s with
    | .write data _ => if p.senderGone then [] else data
    | _ => []
  | _ => []

omit [Producer π α] in
theorem poll_frame (p : Pipe π α) : ∃ verdict, p.poll = { p with verdict } := by
  unfold poll
  split
  · exact ⟨_, rfl⟩
  · exact ⟨_, rfl⟩
  · exact ⟨_, rfl⟩
  · exact ⟨p.verdict, rfl⟩

/-- A pipe with what went into it and what came out. -/
structure Flow (π α : Type) where
  pipe : Pipe π α
  /-- The bytes of the writes that were begun. -/
  offered : Bytes := []
  /-- The bytes that the reader got. -/
  delivered : Bytes := []

namespace Flow

/-- One act of the worker or of the reader, who waits by not acting. -/
inductive Step : Flow π α → Flow π α → Prop where
  | work {f : Flow π α} {q : Pipe π α} (moved : f.pipe.advance? = some q) :
      Step f ⟨q, f.offered ++ f.pipe.begins, f.delivered⟩
  | take {f : Flow π α} {chunk : Bytes} {rest : List Bytes} (used : f.pipe.current = [])
      (front : f.pipe.queue = chunk :: rest) :
      Step f { f with pipe := { f.pipe with current := chunk, queue := rest } }
  | finish {f : Flow π α} (used : f.pipe.current = []) (empty : f.pipe.queue = [])
      (gone : f.pipe.senderGone = true) :
      Step f { f with pipe := { f.pipe with endOfData := true } }
  | hand (f : Flow π α) (n : Nat) :
      Step f { f with
        pipe := { f.pipe with current := f.pipe.current.drop n }
        delivered := f.delivered ++ f.pipe.current.take n }
  | poll (f : Flow π α) : Step f { f with pipe := f.pipe.poll }
  | schedule (f : Flow π α) (steps : List Nat) :
      Step f { f with pipe := { f.pipe with schedule := steps } }

/-- What can come of a pipe before its reader closes it. -/
def Reach : Flow π α → Flow π α → Prop := Relation.ReflTransGen Step

/-- The chunks that settings allow. -/
def Fits (c : Settings) (chunk : Bytes) : Prop := chunk ≠ [] ∧ chunk.length ≤ c.chunkSize

/-- A pipe that loses, reorders and repeats nothing. -/
structure Conserved (c : Settings) (producer : π) (f : Flow π α) : Prop where
  isOpen : f.pipe.closed = false
  receiving : f.pipe.receiverGone = false
  chunkSize_eq : f.pipe.chunkSize = c.chunkSize
  capacity_eq : f.pipe.capacity = c.capacity
  offered_eq : f.offered =
    f.delivered ++ f.pipe.current ++ f.pipe.queue.flatten ++ f.pipe.worker.pending.flatten
  written_eq : f.pipe.written = (f.delivered ++ f.pipe.current ++ f.pipe.queue.flatten).length
  queue_fits : ∀ chunk ∈ f.pipe.queue, Fits c chunk
  pending_fits : ∀ chunk ∈ f.pipe.worker.pending, Fits c chunk
  queue_le : f.pipe.queue.length ≤ c.capacity
  idle : f.pipe.senderGone = true → f.pipe.worker.isSending = false
  gone : f.pipe.worker = .gone → f.pipe.senderGone = true
  ended : f.pipe.endOfData = true → f.pipe.senderGone = true ∧ f.pipe.queue = []
  planned : ∀ data, Writes producer data →
    ∃ rest, f.offered ++ rest = data ∧
      if f.pipe.senderGone then rest = [] else f.pipe.worker.Owes rest

variable {c : Settings} {producer : π} {f g : Flow π α}

theorem Conserved.start (c : Settings) (producer : π) :
    Conserved c producer (⟨.start c producer, [], []⟩ : Flow π α) where
  isOpen := rfl
  receiving := rfl
  chunkSize_eq := rfl
  capacity_eq := rfl
  offered_eq := rfl
  written_eq := rfl
  queue_fits := fun _ h => by cases h
  pending_fits := fun _ h => by cases h
  queue_le := Nat.zero_le _
  idle := fun h => by cases h
  gone := fun h => by cases h
  ended := fun h => by cases h
  planned := fun data h => ⟨data, rfl, h⟩

theorem Conserved.turn (h : Conserved c producer f) (w : Worker π) (gone : Bool) (slot : Slot α)
    (hold : f.pipe.worker.pending = []) (hnew : w.isSending = false)
    (hkeep : f.pipe.senderGone = true → gone = true) (hgone : w = .gone → gone = true)
    (howes : f.pipe.senderGone = false → ∀ rest, f.pipe.worker.Owes rest →
      if gone then rest = [] else w.Owes rest) :
    Conserved c producer
      ⟨{ f.pipe with worker := w, senderGone := gone, slot }, f.offered, f.delivered⟩ :=
  { h with
    offered_eq := by
      have := h.offered_eq
      rw [hold] at this
      rw [Worker.pending_eq_nil hnew]
      exact this
    pending_fits := by
      rw [Worker.pending_eq_nil hnew]
      intro chunk hc
      cases hc
    idle := fun _ => hnew
    gone := hgone
    ended := fun he => ⟨hkeep (h.ended he).1, (h.ended he).2⟩
    planned := by
      intro data hw
      obtain ⟨rest, hrest, howed⟩ := h.planned data hw
      refine ⟨rest, hrest, ?_⟩
      rcases hs : f.pipe.senderGone with _ | _
      · rw [hs] at howed
        exact howes hs rest howed
      · rw [hs] at howed
        have hg := hkeep hs
        simp only [hg, if_true]
        exact howed }

theorem Conserved.send (h : Conserved c producer f) {chunk : Bytes} {rest : List Bytes}
    {resume : Except Fault Unit → π} (hw : f.pipe.worker = .sending (chunk :: rest) resume)
    (hroom : f.pipe.queue.length < f.pipe.capacity) :
    Conserved c producer
      ⟨{ f.pipe with
          worker := .sending rest resume
          queue := f.pipe.queue ++ [chunk]
          written := f.pipe.written + chunk.length }, f.offered, f.delivered⟩ := by
  -- The worker is the only one to give up the sending end, and not in the middle of a write.
  have hactive : f.pipe.senderGone = false := by
    rcases hs : f.pipe.senderGone with _ | _
    · rfl
    · have hi := h.idle hs
      rw [hw] at hi
      cases hi
  have hpending : f.pipe.worker.pending = chunk :: rest := by rw [hw]; rfl
  have hfits := h.pending_fits
  rw [hpending] at hfits
  exact
    { h with
      offered_eq := by
        have ho := h.offered_eq
        rw [hpending, List.flatten_cons] at ho
        simp only [List.flatten_append, List.flatten_singleton, Worker.pending]
        rw [ho]
        simp only [List.append_assoc]
      written_eq := by
        have hl := h.written_eq
        simp only [List.flatten_append, List.flatten_singleton, List.length_append] at hl ⊢
        omega
      queue_fits := by
        intro x hx
        rcases List.mem_append.1 hx with hx | hx
        · exact h.queue_fits x hx
        · obtain rfl := List.mem_singleton.1 hx
          exact hfits x List.mem_cons_self
      pending_fits := fun x hx => hfits x (List.mem_cons_of_mem chunk hx)
      queue_le := by
        have hc := h.capacity_eq
        simp only [List.length_append, List.length_singleton]
        omega
      idle := by
        intro hs
        rw [hactive] at hs
        cases hs
      gone := by
        intro hg
        cases hg
      ended := by
        intro he
        have hs := (h.ended he).1
        rw [hactive] at hs
        cases hs
      planned := by
        intro data hd
        obtain ⟨later, hlater, howed⟩ := h.planned data hd
        rw [hw] at howed
        exact ⟨later, hlater, howed⟩ }

/-- A write that is begun is cut into chunks, and nothing of it is lost. -/
theorem Conserved.begin (h : Conserved c producer f) (hc : 0 < c.chunkSize) {s : π} {data : Bytes}
    {resume : Except Fault Unit → π} (hw : f.pipe.worker = .ready s)
    (hm : Producer.next s = .write data resume) (hs : f.pipe.senderGone = false) :
    Conserved c producer
      ⟨{ f.pipe with worker := .sending (data.blocks f.pipe.chunkSize) resume },
        f.offered ++ data, f.delivered⟩ :=
  { h with
    offered_eq := by
      have ho := h.offered_eq
      rw [hw] at ho
      simp only [Worker.pending, List.flatten_nil, List.append_nil] at ho
      simp only [Worker.pending, Bytes.flatten_blocks]
      rw [ho]
    pending_fits := by
      intro chunk hchunk
      have hchunk' : chunk ∈ data.blocks c.chunkSize := h.chunkSize_eq ▸ hchunk
      exact ⟨Bytes.ne_nil_of_mem_blocks hchunk', Bytes.length_le_of_mem_blocks hc hchunk'⟩
    idle := by
      intro hg
      rw [hs] at hg
      cases hg
    gone := by
      intro hg
      cases hg
    planned := by
      intro all hd
      obtain ⟨rest, hrest, howed⟩ := h.planned all hd
      simp only [hs, hw, Bool.false_eq_true, if_false] at howed
      have hdemands := Writes.demands howed
      rw [hm] at hdemands
      obtain ⟨later, rfl, hlater⟩ := hdemands
      refine ⟨later, by rw [List.append_assoc]; exact hrest, ?_⟩
      simp only [hs, Bool.false_eq_true, if_false]
      exact hlater }

theorem Conserved.quiet (h : Conserved c producer f) (w : Worker π) (gone : Bool) (slot : Slot α)
    {s : π} (hw : f.pipe.worker = .ready s) (hnew : w.isSending = false)
    (hkeep : f.pipe.senderGone = true → gone = true) (hgone : w ≠ .gone)
    (howes : f.pipe.senderGone = false → ∀ rest, Demands rest (Producer.next s) →
      if gone then rest = [] else w.Owes rest) :
    Conserved c producer
      ⟨{ f.pipe with worker := w, senderGone := gone, slot }, f.offered, f.delivered⟩ := by
  refine h.turn w gone slot (by rw [hw]; rfl) hnew hkeep (fun hg => absurd hg hgone) ?_
  intro hs rest howed
  rw [hw] at howed
  exact howes hs rest (Writes.demands howed)

theorem Conserved.workReady (h : Conserved c producer f) (hc : 0 < c.chunkSize) {s : π}
    (hw : f.pipe.worker = .ready s) {q : Pipe π α} (hq : f.pipe.advance? = some q) :
    Conserved c producer ⟨q, f.offered ++ f.pipe.begins, f.delivered⟩ := by
  unfold advance? at hq
  simp only [hw] at hq
  rcases hm : Producer.next s with ⟨data, resume⟩ | r | resume | result | _ <;>
    simp only [hm] at hq
  case write =>
    rcases hs : f.pipe.senderGone with _ | _
    · have hb : f.pipe.begins = data := by simp [begins, hw, hm, hs]
      have hactive : ¬ f.pipe.senderGone = true := by simp [hs]
      rw [if_neg hactive] at hq
      obtain rfl := Option.some.inj hq
      rw [hb]
      exact h.begin hc hw hm hs
    · have hb : f.pipe.begins = [] := by simp [begins, hw, hm, hs]
      rw [if_pos hs] at hq
      obtain rfl := Option.some.inj hq
      rw [hb, List.append_nil]
      refine h.quiet _ f.pipe.senderGone f.pipe.slot hw rfl id nofun ?_
      intro hf
      rw [hs] at hf
      cases hf
  case close =>
    have hb : f.pipe.begins = [] := by simp [begins, hw, hm]
    obtain rfl := Option.some.inj hq
    rw [hb, List.append_nil]
    refine h.quiet _ true f.pipe.slot hw rfl (fun _ => rfl) nofun ?_
    intro _ rest hd
    rw [hm] at hd
    exact hd
  case look =>
    have hb : f.pipe.begins = [] := by simp [begins, hw, hm]
    obtain rfl := Option.some.inj hq
    rw [hb, List.append_nil]
    refine h.quiet _ f.pipe.senderGone f.pipe.slot hw rfl id nofun ?_
    intro hs rest hd
    rw [hm] at hd
    simp only [hs, Bool.false_eq_true, if_false]
    exact hd f.pipe.written _
  case finish =>
    have hb : f.pipe.begins = [] := by simp [begins, hw, hm]
    obtain rfl := Option.some.inj hq
    rw [hb, List.append_nil]
    refine h.quiet _ f.pipe.senderGone (.reported result) hw rfl id nofun ?_
    intro hs rest hd
    rw [hm] at hd
    simp only [hs, Bool.false_eq_true, if_false]
    exact hd
  case crash =>
    have hb : f.pipe.begins = [] := by simp [begins, hw, hm]
    obtain rfl := Option.some.inj hq
    rw [hb, List.append_nil]
    refine h.quiet _ f.pipe.senderGone .dropped hw rfl id nofun ?_
    intro hs rest hd
    rw [hm] at hd
    simp only [hs, Bool.false_eq_true, if_false]
    exact hd

theorem Conserved.work (h : Conserved c producer f) (hc : 0 < c.chunkSize) {q : Pipe π α}
    (hq : f.pipe.advance? = some q) :
    Conserved c producer ⟨q, f.offered ++ f.pipe.begins, f.delivered⟩ := by
  rcases hw : f.pipe.worker with s | ⟨chunks, resume⟩ | _ | _
  case ready => exact h.workReady hc hw hq
  case sending =>
    have hb : f.pipe.begins = [] := by simp [begins, hw]
    rw [hb, List.append_nil]
    unfold advance? at hq
    cases chunks with
    | nil =>
      simp only [hw, Option.some.injEq] at hq
      subst hq
      refine h.turn _ f.pipe.senderGone f.pipe.slot (by rw [hw]; rfl) rfl id nofun ?_
      intro hs rest howed
      rw [hw] at howed
      simp only [hs, Bool.false_eq_true, if_false]
      exact howed
    | cons chunk rest =>
      have hreceiving : ¬ f.pipe.receiverGone = true := by simp [h.receiving]
      simp only [hw] at hq
      rw [if_neg hreceiving] at hq
      split at hq
      · rename_i hroom
        obtain rfl := Option.some.inj hq
        exact h.send hw hroom
      · cases hq
  case leaving =>
    have hb : f.pipe.begins = [] := by simp [begins, hw]
    rw [hb, List.append_nil]
    unfold advance? at hq
    simp only [hw, Option.some.injEq] at hq
    subst hq
    refine h.turn .gone true f.pipe.slot (by rw [hw]; rfl) rfl (fun _ => rfl) (fun _ => rfl) ?_
    intro _ rest howed
    rw [hw] at howed
    exact howed
  case gone =>
    unfold advance? at hq
    simp only [hw] at hq
    cases hq

/-- No act of the worker or of the reader loses, reorders or repeats anything. -/
theorem Conserved.step (h : Conserved c producer f) (hc : 0 < c.chunkSize) (hs : Step f g) :
    Conserved c producer g := by
  cases hs with
  | work moved => exact h.work hc moved
  | take used front =>
    rename_i chunk rest
    have ho := h.offered_eq
    have hl := h.written_eq
    have hfits := h.queue_fits
    have hle := h.queue_le
    rw [used, front] at ho hl
    rw [front] at hfits hle
    simp only [List.append_nil, List.flatten_cons] at ho hl
    exact
      { h with
        offered_eq := by
          rw [ho]
          simp only [List.append_assoc]
        written_eq := by
          rw [hl]
          simp only [List.append_assoc]
        queue_fits := fun x hx => hfits x (List.mem_cons_of_mem chunk hx)
        queue_le := Nat.le_of_succ_le hle
        ended := by
          intro he
          have hn := (h.ended he).2
          rw [front] at hn
          cases hn }
  | finish used empty gone => exact { h with ended := fun _ => ⟨gone, empty⟩ }
  | hand n =>
    have hcut : f.delivered ++ f.pipe.current.take n ++ f.pipe.current.drop n =
        f.delivered ++ f.pipe.current := by
      rw [List.append_assoc, List.take_append_drop]
    exact
      { h with
        offered_eq := by
          rw [hcut]
          exact h.offered_eq
        written_eq := by
          rw [hcut]
          exact h.written_eq }
  | poll =>
    obtain ⟨verdict, hp⟩ := f.pipe.poll_frame
    rw [hp]
    exact { h with }
  | schedule steps => exact { h with }

theorem Conserved.reach (h : Conserved c producer f) (hc : 0 < c.chunkSize) (hr : Reach f g) :
    Conserved c producer g := by
  induction hr with
  | refl => exact h
  | tail _ hs ih => exact ih.step hc hs

/-- What has left the worker is the front of what the producer has written. -/
theorem Conserved.carried (h : Conserved c producer f) :
    f.delivered ++ f.pipe.current ++ f.pipe.queue.flatten = f.offered.take f.pipe.written := by
  rw [h.offered_eq, h.written_eq, List.take_left]

/-- Once the data has ended, all of it was sent. -/
theorem Conserved.ended_eq (h : Conserved c producer f) (he : f.pipe.endOfData = true)
    (hcur : f.pipe.current = []) :
    f.delivered = f.offered ∧ ∀ data, Writes producer data → f.delivered = data := by
  obtain ⟨hs, hq⟩ := h.ended he
  have ho := h.offered_eq
  rw [hcur, hq, Worker.pending_eq_nil (h.idle hs)] at ho
  simp only [List.append_nil, List.flatten_nil] at ho
  refine ⟨ho.symm, ?_⟩
  intro data hd
  obtain ⟨rest, hrest, hnone⟩ := h.planned data hd
  simp only [hs, if_true] at hnone
  rw [← hrest, hnone, List.append_nil, ho]

end Flow

end Pipe

end StreamLayers
