import StreamLayers.Command.Input
import StreamLayers.Proofs.Pipe.Refusal
import StreamLayers.Proofs.Serving

/-!
The input of a command: a reader that a worker copies into a pipe. What is read from the pipe is
what the reader has up to its end or its first failure, and that failure is reported behind it; a copy
that is cut short is no failure.
-/

namespace StreamLayers

namespace Reader

/-- What repeated reads get before one of them gets nothing or fails. An interruption is no
failure. -/
def contents : Reader → Bytes
  | [] => []
  | .bytes data :: rest => data ++ contents rest
  | .nothing :: _ => []
  | .fails e :: rest => if e.kind = .interrupted then contents rest else []

/-- The failure that ends the contents, if it is not the end of the data. -/
def failure : Reader → Option OsError
  | [] => none
  | .bytes _ :: rest => failure rest
  | .nothing :: _ => none
  | .fails e :: rest => if e.kind = .interrupted then failure rest else some e

/-- What one read that is not interrupted does to a reader. -/
inductive Fetches (r : Reader) : Except OsError Bytes × Reader → Prop where
  | got {b : UInt8} {d : Bytes} {r' : Reader} (eq : r.contents = b :: d ++ r'.contents)
      (same : r'.failure = r.failure) : Fetches r (.ok (b :: d), r')
  | ended {r' : Reader} (used : r.contents = []) (sound : r.failure = none) : Fetches r (.ok [], r')
  | failed {e : OsError} {r' : Reader} (used : r.contents = []) (broken : r.failure = some e) :
      Fetches r (.error e, r')

theorem Fetches.of_eq {r r' : Reader} {q : Except OsError Bytes × Reader} (h : Fetches r q)
    (hcontents : r'.contents = r.contents) (hfailure : r'.failure = r.failure) : Fetches r' q := by
  cases h with
  | got eq same => exact .got (hcontents.trans eq) (same.trans hfailure.symm)
  | ended used sound => exact .ended (hcontents.trans used) (hfailure.trans sound)
  | failed used broken => exact .failed (hcontents.trans used) (hfailure.trans broken)

theorem fetches_readUninterrupted (r : Reader) {n : Nat} (hn : 0 < n) :
    Fetches r (r.readUninterrupted n) := by
  induction r with
  | nil => exact .ended rfl rfl
  | cons item rest ih =>
    cases item with
    | bytes data =>
      cases data with
      | nil => exact ih.of_eq rfl rfl
      | cons b d =>
        obtain ⟨m, rfl⟩ := Nat.exists_eq_add_one.2 hn
        have hsplit : (b :: d) ++ contents rest =
            b :: d.take m ++ (d.drop m ++ contents rest) := by
          rw [List.cons_append, List.cons_append, ← List.append_assoc, List.take_append_drop]
        exact .got hsplit rfl
    | nothing => exact .ended rfl rfl
    | fails e =>
      rw [readUninterrupted]
      split
      · rename_i hi
        exact ih.of_eq (if_pos hi) (if_pos hi)
      · rename_i hi
        exact .failed (if_neg hi) (if_neg hi)

theorem length_contents_le (r : Reader) : r.contents.length ≤ r.left := by
  induction r with
  | nil => exact Nat.le_refl 0
  | cons item rest ih =>
    cases item with
    | bytes data =>
      rw [contents, left, List.length_append]
      omega
    | nothing => exact Nat.zero_le _
    | fails e =>
      rw [contents, left]
      split
      · exact ih
      · exact Nat.zero_le _

end Reader

namespace Copy

open Pipe

/-- The bytes that a copy still writes. -/
def contents : Copy → Bytes
  | .running reader _ => reader.contents
  | .failed _ => []

/-- What a copy does next. -/
inductive Moves : Copy → Move Copy Nat → Prop where
  | failed (e : Fault) : Moves (.failed e) (.finish (.error e))
  | more {reader reader' : Reader} {copied : Nat} {b : UInt8} {d : Bytes}
      {resume : Except Fault Unit → Copy} (eq : reader.contents = b :: d ++ reader'.contents)
      (same : reader'.failure = reader.failure)
      (taken : resume (.ok ()) = .running reader' (copied + (d.length + 1)))
      (refused : ∀ e, resume (.error e) = .failed (faultOf e.toOs)) :
      Moves (.running reader copied) (.write (b :: d) resume)
  | ended {reader : Reader} {copied : Nat} (used : reader.contents = [])
      (sound : reader.failure = none) : Moves (.running reader copied) (.finish (.ok copied))
  | broken {reader : Reader} {copied : Nat} {e : OsError} (used : reader.contents = [])
      (broken : reader.failure = some e) :
      Moves (.running reader copied) (.finish (.error (faultOf e)))

theorem moves_next (c : Copy) : Moves c (Producer.next c) := by
  cases c with
  | failed e => exact .failed e
  | running reader copied =>
    have hread := reader.fetches_readUninterrupted (n := blockSize) (by decide)
    show Moves _ (Copy.next (.running reader copied))
    rw [Copy.next]
    generalize reader.readUninterrupted blockSize = q at hread ⊢
    cases hread with
    | got eq same =>
      refine .more eq same ?_ fun e => ?_
      · rfl
      · rfl
    | ended used sound => exact .ended used sound
    | failed used broken => exact .broken used broken

theorem moves_of_next {c : Copy} {m : Move Copy Nat} (h : Producer.next c = m) : Moves c m :=
  h ▸ c.moves_next

theorem length_contents_le (c : Copy) : c.contents.length ≤ Producer.left c := by
  cases c with
  | running reader copied => exact reader.length_contents_le
  | failed e => exact Nat.zero_le _

theorem writes_contents (c : Copy) : Writes c c.contents := by
  induction hlen : c.contents.length using Nat.strongRecOn generalizing c with
  | ind len ih =>
    generalize hm : Producer.next c = m
    cases moves_of_next hm with
    | failed e => exact .finish hm
    | @more reader reader' copied b d resume eq same taken refused =>
      have hshort : reader'.contents.length < len := by
        rw [← hlen, contents, eq, List.length_append, List.length_cons]
        omega
      have htail := ih _ hshort (.running reader' (copied + (d.length + 1))) rfl
      rw [contents, eq]
      exact .write hm (taken ▸ htail)
    | ended used sound =>
      rw [contents, used]
      exact .finish hm
    | broken used broken =>
      rw [contents, used]
      exact .finish hm

theorem eq_contents {c : Copy} {data : Bytes} (h : Writes c data) : data = c.contents := by
  induction h with
  | @write c data rest resume next tail ih =>
    cases moves_of_next next with
    | more eq same taken refused =>
      rw [ih, taken, contents, contents, eq]
  | @close c r next =>
    cases moves_of_next next
  | @look c data resume next tail ih =>
    cases moves_of_next next
  | @finish c result next =>
    cases moves_of_next next with
    | failed e => rfl
    | ended used sound => exact used.symm
    | broken used broken => exact used.symm
  | @crash c next =>
    cases moves_of_next next

/-- What the worker of a copy still owes is no more than it says is left. -/
theorem owes_le_left {w : Worker Copy} {rest : Bytes} (h : w.Owes rest) :
    w.pending.flatten.length + rest.length ≤ w.left := by
  cases w with
  | ready c =>
    have hlen := c.length_contents_le
    rw [← eq_contents h] at hlen
    show 0 + rest.length ≤ Producer.left c
    omega
  | sending chunks resume =>
    have hlen := (resume (.ok ())).length_contents_le
    rw [← eq_contents h] at hlen
    exact Nat.add_le_add_left hlen _
  | leaving =>
    obtain rfl : rest = [] := h
    exact Nat.le_refl 0
  | gone =>
    obtain rfl : rest = [] := h
    exact Nat.le_refl 0

theorem keepsOpen (c : Copy) : KeepsOpen c := by
  refine keepsOpen_of_stays (P := fun _ => True) trivial fun t _ => ?_
  have hmoves := moves_next t
  generalize Producer.next t = m at hmoves ⊢
  cases hmoves <;> trivial

/-- How a copy ends if none of its writes fails. -/
def outcome (reader : Reader) : Except Fault Nat :=
  match reader.failure with
  | none => .ok reader.contents.length
  | some e => .error (faultOf e)

theorem wrote_ofReader {reader : Reader} {data : Bytes} {c : Copy}
    (h : Wrote (ofReader reader) data c) :
    ∃ reader', c = .running reader' data.length ∧ reader.contents = data ++ reader'.contents ∧
      reader'.failure = reader.failure := by
  induction h with
  | start => exact ⟨reader, rfl, rfl, rfl⟩
  | write before next ih =>
    obtain ⟨reader', rfl, hcontents, hfailure⟩ := ih
    cases moves_of_next next with
    | @more _ reader'' _ b d _ eq same taken refused =>
      refine ⟨reader'', ?_, ?_, same.trans hfailure⟩
      · rw [taken, List.length_append, List.length_cons]
      · rw [hcontents, eq, List.append_assoc]
  | look before next written gone ih =>
    cases moves_of_next next

theorem ended_ofReader {reader : Reader} {data : Bytes} {slot : Slot Nat}
    (h : Ended (ofReader reader) data slot) :
    data = reader.contents ∧ slot = .reported (outcome reader) := by
  cases h with
  | finish before next =>
    obtain ⟨reader', rfl, hcontents, hfailure⟩ := wrote_ofReader before
    cases moves_of_next next with
    | ended used sound =>
      rw [used, List.append_nil] at hcontents
      rw [outcome, ← hfailure, sound, hcontents]
      exact ⟨rfl, rfl⟩
    | broken used broken =>
      rw [used, List.append_nil] at hcontents
      rw [outcome, ← hfailure, broken, hcontents]
      exact ⟨rfl, rfl⟩
  | crash before next =>
    cases moves_of_next next

/-- A copy of a reader without failures that is on its way, or was cut short. -/
def Unfailing (total : Nat) : Copy → Prop
  | .running reader copied => reader.failure = none ∧ copied + reader.contents.length = total
  | .failed e => e = .io (.brokenPipe "pipe")

theorem abides_unfailing (total : Nat) (c : Copy) (h : Unfailing total c) :
    (Producer.next c).Abides (Unfailing total) fun slot =>
      slot = .reported (.ok total) ∨ slot = .reported (.error (.io (.brokenPipe "pipe"))) := by
  have hmoves := moves_next c
  generalize Producer.next c = m at hmoves ⊢
  cases hmoves with
  | failed e => exact .inr (congrArg _ (congrArg _ h))
  | more eq same taken refused =>
    obtain ⟨hfailure, htotal⟩ := h
    rw [eq, List.length_append, List.length_cons] at htotal
    refine ⟨?_, ?_⟩
    · rw [taken]
      exact ⟨same.trans hfailure, by omega⟩
    · rw [refused]
      rfl
  | ended used sound =>
    obtain ⟨-, htotal⟩ := h
    rw [used] at htotal
    exact .inl (congrArg _ (congrArg _ htotal))
  | broken used broken => cases h.1.symm.trans broken

end Copy

/-- No read gets more than it asked for. -/
theorem Pipe.length_read_le {π α : Type} [Producer π α] {p : Pipe π α} {n : Nat} {got : Bytes}
    (h : (p.read n).1 = .ok got) : got.length ≤ n := by
  have hserve (q : Pipe π α) (hq : (q.serve n).1 = .ok got) : got.length ≤ n := by
    unfold serve at hq
    split at hq
    · rw [readEnd_eq] at hq
      rcases hv : q.yield.poll.verdict with _ | v | e | _ <;> rw [hv] at hq <;> cases hq <;>
        exact Nat.zero_le n
    · obtain rfl := Except.ok.inj hq
      exact List.length_take_le n _
  unfold read at h
  split at h
  · cases h
  · split at h
    · obtain rfl := Except.ok.inj h
      exact Nat.zero_le n
    · split at h
      · exact hserve _ h
      · exact hserve _ h

theorem Pipe.close_ok {π α : Type} [Producer π α] (p : Pipe π α) : p.close.1 = .ok () := by
  unfold close
  split <;> rfl

theorem Pipe.closed_close {π α : Type} [Producer π α] (p : Pipe π α) :
    p.close.2.closed = true := by
  have hpoll (p : Pipe π α) : p.poll.closed = p.closed := by
    obtain ⟨verdict, hp⟩ := p.poll_frame
    rw [hp]
  have houtcome (p : Pipe π α) : p.awaitOutcome.closed = p.closed := by
    unfold awaitOutcome
    split
    · rfl
    · rw [hpoll]
      exact (p.apart_yield.trans (p.yield.apart_runUntil _)).closed_eq
  have hworker (p : Pipe π α) : p.awaitWorker.closed = p.closed :=
    (p.apart_yield.trans (p.yield.apart_runUntil _)).closed_eq
  unfold close
  split
  · assumption
  · dsimp only
    split
    · rw [hworker, houtcome]
    · rfl

theorem Pipe.spawn_of_valid {π α : Type} [Producer π α] {c : Pipe.Settings}
    (hvalid : c.validate = .ok ()) {hasPool : Bool} {worker : Pipe.Strategy}
    (hresolves : c.resolve hasPool = .ok worker) (hroom : c.capacity ≤ Pipe.maxCapacity)
    (producer : π) :
    Pipe.spawn c hasPool producer = .ok (Pipe.start c producer : Pipe π α) := by
  unfold Pipe.spawn Pipe.spawnOn
  rw [hresolves]
  dsimp only
  rw [hvalid]
  exact if_neg (Nat.not_lt.2 hroom)

namespace Input

open Pipe

/-- How the reads of an input end. -/
def failure (reader : Reader) : Option Fault :=
  reader.failure.map fun e => .producerFailed (Copy.faultOf e)

/-- An input from which `rest` is still to be read, between two reads and whatever its worker has
done. -/
structure Over (c : Settings) (reader : Reader) (p : Input) (rest : Bytes) : Prop where
  flow : ∃ f, Flow.Reach (Flow.start c (Copy.ofReader reader)) f ∧ f.pipe = p ∧
    reader.contents = f.delivered ++ rest
  session : ∃ s, Session.Reach (Session.start c (Copy.ofReader reader)) s ∧ s.stage = .idle ∧
    s.pipe = p

variable {c : Settings} {reader : Reader} {p : Input} {rest : Bytes}

theorem over_start (c : Settings) (reader : Reader) (schedule : List Nat) :
    Over c reader { Pipe.start c (Copy.ofReader reader) with schedule } reader.contents where
  flow := ⟨_, .single (.schedule _ schedule), rfl, rfl⟩
  session := ⟨_, .single (.schedule schedule), rfl, rfl⟩

theorem Over.read (hc : 0 < c.chunkSize) (h : Over c reader p rest) {n : Nat} (hn : 0 < n) :
    Serving (Over c reader) (failure reader) rest n (p.read n) := by
  obtain ⟨⟨f, hf, rfl, hcontents⟩, s, hs, hidle, hpipe⟩ := h
  have hstart := Flow.Conserved.start c (Copy.ofReader reader)
  have hkept := hstart.reach hc hf
  have hopens := Copy.keepsOpen (.ofReader reader)
  have hacc := (Flow.Accounted.start c (Copy.ofReader reader)).reach hstart hc hopens hf
  obtain ⟨g, hreach, hg, hread⟩ := hacc.read hkept hc hopens hn
  have hnext (later : Bytes) (hl : reader.contents = g.delivered ++ later) :
      Over c reader (f.pipe.read n).2 later := by
    refine ⟨⟨g, hf.trans hreach, hg, hl⟩, ?_⟩
    obtain ⟨turns, hcall⟩ := Session.reach_read ((Session.Orderly.start c _).reach hs) hidle n
    refine ⟨_, hs.trans hcall, rfl, ?_⟩
    rw [hpipe]
  rcases hr : f.pipe.read n with ⟨r, q⟩
  rw [hr] at hread hnext
  rcases hread with ⟨b, bs, rfl, hgot⟩ | ⟨hanswer, hsame, -, hended⟩
  · obtain ⟨unsent, hunsent, -⟩ :=
      (hkept.reach hc hreach).planned _ (Copy.writes_contents (.ofReader reader))
    obtain ⟨held, hheld⟩ := (hkept.reach hc hreach).delivered_le_offered
    have hl : reader.contents = g.delivered ++ (held ++ unsent) := by
      rw [← List.append_assoc, hheld]
      exact hunsent.symm
    have hsplit : rest = b :: bs ++ (held ++ unsent) := by
      rw [hcontents, hgot, List.append_assoc] at hl
      exact List.append_cancel_left hl
    exact .more hsplit (List.cons_ne_nil b bs) (length_read_le (congrArg Prod.fst hr)) (hnext _ hl)
  · obtain ⟨hall, hslot⟩ := Copy.ended_ofReader hended
    have hused : rest = [] := by
      rw [← hall] at hcontents
      exact List.self_eq_append_right.1 hcontents
    have hlater := hnext [] (by rw [hsame, hall, List.append_nil])
    rw [hslot, Copy.outcome] at hanswer
    rcases hfail : reader.failure with _ | e <;> rw [hfail] at hanswer <;>
      obtain rfl : r = _ := hanswer
    · exact .ended hused (by rw [failure, hfail]; rfl) hlater
    · exact .failed hused (by rw [failure, hfail]; rfl) hlater

/-- Whoever is told of the end finds the outcome posted. -/
theorem Over.told (hc : 0 < c.chunkSize) (h : Over c reader p rest) {n : Nat} (hn : 0 < n) {q : Input}
    (hr : p.read n = (.ok [], q)) : q.slot = .reported (Copy.outcome reader) := by
  obtain ⟨⟨f, hf, rfl, -⟩, -⟩ := h
  have hstart := Flow.Conserved.start c (Copy.ofReader reader)
  have hopens := Copy.keepsOpen (.ofReader reader)
  have hacc := (Flow.Accounted.start c (Copy.ofReader reader)).reach hstart hc hopens hf
  obtain ⟨g, -, hg, hread⟩ := hacc.read (hstart.reach hc hf) hc hopens hn
  rw [hr] at hg hread
  rcases hread with ⟨b, bs, hgot, -⟩ | ⟨-, -, -, hended⟩
  · cases hgot
  · rw [hg] at hended
    exact (Copy.ended_ofReader hended).2

theorem Over.length_le (hc : 0 < c.chunkSize) (h : Over c reader p rest) :
    rest.length ≤ ByteSource.left p := by
  obtain ⟨⟨f, hf, rfl, hcontents⟩, -⟩ := h
  have hkept := (Flow.Conserved.start c (Copy.ofReader reader)).reach hc hf
  obtain ⟨unsent, hunsent, howes⟩ :=
    hkept.planned _ (Copy.writes_contents (.ofReader reader))
  have hleft : f.pipe.worker.pending.flatten.length + unsent.length ≤ f.pipe.worker.left := by
    rcases hgone : f.pipe.senderGone with _ | _ <;> simp only [hgone] at howes
    · exact Copy.owes_le_left howes
    · have hnil : unsent = [] := howes
      rw [Worker.pending_eq_nil (hkept.idle hgone), hnil]
      exact Nat.zero_le _
  have hlen := congrArg List.length hkept.offered_eq
  have hall := congrArg List.length (hunsent.trans hcontents)
  simp only [List.length_append] at hlen hall
  show _ ≤ f.pipe.current.length + f.pipe.queue.flatten.length + f.pipe.worker.left
  omega

theorem serves (hc : 0 < c.chunkSize) (reader : Reader) :
    Serves (Over c reader) (failure reader) where
  read _ _ _ h hn := h.read hc hn
  left _ _ h := h.length_le hc

/-- An input over a reader that does not fail can be finished at any time. -/
theorem Over.finish (hc : 0 < c.chunkSize) (h : Over c reader p rest)
    (hsound : reader.failure = none) : ∃ read, p.finish true = .ok read := by
  obtain ⟨⟨f, hf, hflow, -⟩, s, hs, hidle, rfl⟩ := h
  have hopen : s.pipe.closed = false :=
    hflow ▸ ((Flow.Conserved.start c (Copy.ofReader reader)).reach hc hf).isOpen
  obtain ⟨t, ht, -, hposted, hanswer⟩ := Session.result_of_close hs hidle hopen
  have hstart : Copy.Unfailing reader.contents.length (.ofReader reader) :=
    ⟨hsound, Nat.zero_add _⟩
  have houtcome := Session.outcome_of_reach (Copy.abides_unfailing _) hstart (hs.trans ht) hposted
  have hclose : ByteSource.close s.pipe = (.ok (), s.pipe.close.2) := Prod.ext s.pipe.close_ok rfl
  unfold Input.finish
  rw [hclose]
  dsimp only
  rcases hr : s.pipe.close.2.result with ⟨r, q⟩
  rw [hr] at hanswer
  -- Either the worker has read all of it, or it was cut short by the closing.
  rcases houtcome with hslot | hslot <;> rw [hslot] at hanswer
  · have hvalue : Except.ok reader.contents.length = r := Option.some.inj hanswer
    rw [← hvalue]
    exact ⟨_, rfl⟩
  · have hcut : Except.error (.producerFailed (.io (.brokenPipe "pipe"))) = r :=
      Option.some.inj hanswer
    rw [← hcut]
    exact ⟨_, rfl⟩

/-- Closing an input twice is closing it once. -/
theorem finish_close (input : Input) (stoppedEarly : Bool) :
    Input.finish input.close.2 stoppedEarly = input.finish stoppedEarly := by
  have hfirst : ByteSource.close input = (.ok (), input.close.2) := Prod.ext input.close_ok rfl
  have hsecond : ByteSource.close input.close.2 = (.ok (), input.close.2) :=
    if_pos input.closed_close
  unfold Input.finish
  rw [hfirst, hsecond]

/-- An input that was closed behind the end of its data tells how much was read. -/
theorem Over.finish_closed (hc : 0 < c.chunkSize) (h : Over c reader p rest)
    (htold : p.slot = .reported (Copy.outcome reader)) (hsound : reader.failure = none)
    (stoppedEarly : Bool) :
    Input.finish p.close.2 stoppedEarly = .ok (some reader.contents.length) := by
  obtain ⟨⟨f, hf, hflow, -⟩, s, hs, hidle, rfl⟩ := h
  have hopen : s.pipe.closed = false :=
    hflow ▸ ((Flow.Conserved.start c (Copy.ofReader reader)).reach hc hf).isOpen
  obtain ⟨t, ht, -, -, hanswer⟩ := Session.result_of_close hs hidle hopen
  have hposted : s.pipe.slot ≠ .waiting := by simp [htold]
  have hslot := ((Session.Orderly.start c (Copy.ofReader reader)).reach hs).slot_reach hposted ht
  rw [hslot, htold, Copy.outcome, hsound] at hanswer
  have hvalue : Except.ok reader.contents.length = s.pipe.close.2.result.1 := Option.some.inj hanswer
  have hclose : ByteSource.close s.pipe.close.2 = (.ok (), s.pipe.close.2) :=
    if_pos s.pipe.closed_close
  unfold Input.finish
  rw [hclose]
  dsimp only
  rcases hr : s.pipe.close.2.result with ⟨r, q⟩
  rw [hr] at hvalue
  obtain rfl : .ok reader.contents.length = r := hvalue
  rfl

/-- An input whose reader was told of the end. -/
structure Settled (c : Settings) (reader : Reader) (p : Input) : Prop where
  drained : Over c reader p []
  told : p.slot = .reported (Copy.outcome reader)

theorem Settled.read (hc : 0 < c.chunkSize) (hsound : reader.failure = none)
    (h : Settled c reader p) {n : Nat} (hn : 0 < n) :
    ∃ q, ByteSource.read p n = (.ok [], q) ∧ Settled c reader q := by
  have hread := h.drained.read hc hn
  have htold (q : Input) := h.drained.told hc hn (q := q)
  show ∃ q, p.read n = (.ok [], q) ∧ _
  generalize p.read n = r at hread htold ⊢
  cases hread with
  | more eq some fits next => exact absurd (List.append_eq_nil_iff.1 eq.symm).1 some
  | ended used sound next => exact ⟨_, rfl, next, htold _ rfl⟩
  | failed used broken next =>
    rw [failure, hsound] at broken
    cases broken

end Input

end StreamLayers
