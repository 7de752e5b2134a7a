import StreamLayers.Proofs.Exhaustion
import StreamLayers.Proofs.Pipe.Bridge
import StreamLayers.Proofs.Sink
import StreamLayers.Writer

/-!
Pumping a source into a sink, whatever either of them does: which reads, writes and flushes are made
before it is over, and what has arrived at a writer behind the sink.
-/

namespace StreamLayers

open ByteSource

variable {σ κ : Type} [ByteSource σ] [ByteSink κ] {s : σ} {n : Nat} {blocks : List Bytes}
  {failure : Option Fault}

section Drained

theorem Drains.reads_eq (h : Drains n s blocks failure) :
    reads s (List.replicate blocks.length n) = blocks.flatten := by
  induction h with
  | ended hr => rfl
  | failed hr => rfl
  | @more s data blocks failure hr hdata _ ih =>
    rw [List.length_cons, List.replicate_succ, List.flatten_cons, ← ih]
    show handedOver (read s n).1 ++ _ = _
    rw [hr]
    rfl

/-- How a run of reads ends that comes to the end of a source, or to its failure. -/
def endingOf : Option Fault → Except Fault Unit
  | none => .ok ()
  | some e => .error e

theorem Drains.reading_from (h : Drains n s blocks failure) {r : Reading} (hr : r.ending = none) :
    (answers s (List.replicate (blocks.length + 1) n)).foldl Reading.after r =
      ⟨r.data ++ blocks.flatten, some (endingOf failure)⟩ := by
  induction h generalizing r with
  | ended hread => simp [answers, hread, Reading.after, hr, endingOf]
  | failed hread => simp [answers, hread, Reading.after, hr, endingOf]
  | @more s data blocks failure hread hdata _ ih =>
    obtain ⟨b, d, rfl⟩ := List.exists_cons_of_ne_nil hdata
    have hnext := ih (r := { r with data := r.data ++ b :: d }) hr
    rw [List.length_cons, List.replicate_succ, answers, List.foldl_cons, hread,
      Reading.after_more hr, hnext]
    simp

/-- However it is read, `s` hands out `data` and then ends like this. -/
def Supplies (s : σ) (data : Bytes) (ending : Except Fault Unit) : Prop :=
  ∀ sizes, (∀ n ∈ sizes, 0 < n) → (Reading.ofAnswers (answers s sizes)).Tends data ending

theorem Supplies.flatten_eq {data : Bytes} {ending : Except Fault Unit}
    (h : Supplies s data ending) (hn : 0 < n) (hdrains : Drains n s blocks failure) :
    blocks.flatten = data := by
  have hsizes : ∀ m ∈ List.replicate (blocks.length + 1) n, 0 < m := by
    intro m hm
    rw [List.eq_of_mem_replicate hm]
    exact hn
  have htends := h _ hsizes
  have hreading := hdrains.reading_from (r := {}) rfl
  rw [Reading.ofAnswers, hreading] at htends
  have hall := (htends.ended _ rfl).1
  simpa using hall

/-- A reader gives the same bytes in whatever blocks it is read. -/
theorem ReaderSource.supplies (reader : Reader) :
    Supplies (ReaderSource.mk (some reader)) reader.contents (ending reader.failure) :=
  fun _ hsizes => tends reader hsizes

end Drained

/-- What pumping `s` into `k` by reads of `n` bytes comes to, where such reads get `blocks` and then
come to the end of the source, or to its failure. -/
inductive Carried (s : σ) (k : κ) (n : Nat) (blocks : List Bytes) :
    Option Fault → Pumped σ κ → Prop where
  /-- Every block was written, and then the sink was flushed. -/
  | copied (taken : WritesOk ByteSink.writeAll k blocks)
      (flushed : (ByteSink.flush (afterWrites ByteSink.writeAll k blocks)).1 = .ok ()) :
      Carried s k n blocks none ⟨.ok blocks.flatten.length,
        afterReads s (List.replicate (blocks.length + 1) n),
        (ByteSink.flush (afterWrites ByteSink.writeAll k blocks)).2⟩
  | unflushed {e : Fault} (taken : WritesOk ByteSink.writeAll k blocks)
      (failed : (ByteSink.flush (afterWrites ByteSink.writeAll k blocks)).1 = .error e) :
      Carried s k n blocks none ⟨.error e, afterReads s (List.replicate (blocks.length + 1) n),
        (ByteSink.flush (afterWrites ByteSink.writeAll k blocks)).2⟩
  /-- The source failed: every block before was written, and the sink was not flushed. -/
  | broken {e : Fault} (taken : WritesOk ByteSink.writeAll k blocks) :
      Carried s k n blocks (some e) ⟨.error e,
        afterReads s (List.replicate (blocks.length + 1) n),
        afterWrites ByteSink.writeAll k blocks⟩
  /-- The sink refused a block: the blocks before it were written, and nothing was read behind it. -/
  | refused {failure : Option Fault} {front later : List Bytes} {d : Bytes} {e : Fault}
      (split : blocks = front ++ d :: later) (taken : WritesOk ByteSink.writeAll k front)
      (failed : (ByteSink.writeAll (afterWrites ByteSink.writeAll k front) d).1 = .error e) :
      Carried s k n blocks failure ⟨.error e,
        afterReads s (List.replicate (front.length + 1) n),
        (ByteSink.writeAll (afterWrites ByteSink.writeAll k front) d).2⟩

theorem Carried.cons {s' : σ} {k k' : κ} {d : Bytes} {p : Pumped σ κ}
    (hread : read s n = (.ok d, s')) (hwrite : ByteSink.writeAll k d = (.ok (), k'))
    (h : Carried s' k' n blocks failure p) :
    Carried s k n (d :: blocks) failure { p with result := p.result.map (d.length + ·) } := by
  have hsource (count : Nat) : afterReads s (List.replicate (count + 1) n) =
      afterReads s' (List.replicate count n) := by
    rw [List.replicate_succ, afterReads, hread]
  have hsink (more : List Bytes) : afterWrites ByteSink.writeAll k (d :: more) =
      afterWrites ByteSink.writeAll k' more := by
    rw [afterWrites, List.foldl_cons, hwrite]
    rfl
  have htaken {more : List Bytes} (hmore : WritesOk ByteSink.writeAll k' more) :
      WritesOk ByteSink.writeAll k (d :: more) := by
    constructor
    · rw [hwrite]
    · rw [hwrite]
      exact hmore
  cases h with
  | copied taken flushed =>
    rw [← hsink] at flushed ⊢
    have hall := Carried.copied (s := s) (n := n) (htaken taken) flushed
    rw [List.length_cons, hsource, List.flatten_cons, List.length_append] at hall
    exact hall
  | unflushed taken failed =>
    rw [← hsink] at failed ⊢
    have hall := Carried.unflushed (s := s) (n := n) (htaken taken) failed
    rw [List.length_cons, hsource] at hall
    exact hall
  | broken taken =>
    rw [← hsink]
    have hall (e : Fault) := Carried.broken (s := s) (n := n) (e := e) (htaken taken)
    simp only [List.length_cons, hsource] at hall
    exact hall _
  | @refused _ front later b e split taken failed =>
    rw [← hsink] at failed ⊢
    have hsplit : d :: blocks = (d :: front) ++ b :: later := by rw [split, List.cons_append]
    have hall : Carried s k n (d :: blocks) failure _ := .refused hsplit (htaken taken) failed
    rw [List.length_cons, hsource] at hall
    exact hall

/-- The bytes counted so far are added to what is counted from there on. -/
theorem pumpFrom_total (n fuel : Nat) (s : σ) (k : κ) (total : Nat) :
    pumpFrom n fuel s k total =
      { pumpFrom n fuel s k 0 with
        result := (pumpFrom n fuel s k 0).result.map (total + ·) } := by
  induction fuel generalizing s k total with
  | zero =>
    unfold pumpFrom
    rcases read s n with ⟨e | _ | ⟨b, d⟩, t⟩
    · rfl
    · dsimp only
      rcases ByteSink.flush k with ⟨e | u, k'⟩ <;> rfl
    · dsimp only
      rcases ByteSink.writeAll k (b :: d) with ⟨e | u, k'⟩
      · rfl
      · simp [Except.map]
  | succ fuel ih =>
    unfold pumpFrom
    rcases read s n with ⟨e | _ | ⟨b, d⟩, t⟩
    · rfl
    · dsimp only
      rcases ByteSink.flush k with ⟨e | u, k'⟩ <;> rfl
    · dsimp only
      rcases ByteSink.writeAll k (b :: d) with ⟨e | u, k'⟩
      · rfl
      · dsimp only
        rw [ih t k' (total + (d.length + 1)), ih t k' (0 + (d.length + 1))]
        rcases (pumpFrom n fuel t k' 0).result with e | count
        · rfl
        · simp only [Except.map, Nat.zero_add, Nat.add_assoc]

/-- As long as its fuel lasts for the bytes of the source, a pump ends as the source and the sink
make it. -/
theorem Drains.carried (h : Drains n s blocks failure) {fuel : Nat}
    (hfuel : blocks.flatten.length ≤ fuel) (k : κ) :
    Carried s k n blocks failure (pumpFrom n fuel s k 0) := by
  induction h generalizing fuel k with
  | @ended s hread =>
    have hr : read s n = (.ok [], (read s n).2) := Prod.ext hread rfl
    have hsource : afterReads s [n] = (read s n).2 := rfl
    unfold pumpFrom
    rw [hr]
    dsimp only
    rcases hf : ByteSink.flush k with ⟨e | u, k'⟩
    · have hfailed : (ByteSink.flush (afterWrites ByteSink.writeAll k [])).1 = .error e := by
        simp [afterWrites, hf]
      have hall : Carried s k n [] none _ := .unflushed trivial hfailed
      simpa [afterWrites, hf, hsource] using hall
    · have hflushed : (ByteSink.flush (afterWrites ByteSink.writeAll k [])).1 = .ok () := by
        simp [afterWrites, hf]
      have hall : Carried s k n [] none _ := .copied trivial hflushed
      simpa [afterWrites, hf, hsource] using hall
  | @failed s e hread =>
    have hr : read s n = (.error e, (read s n).2) := Prod.ext hread rfl
    unfold pumpFrom
    rw [hr]
    exact .broken trivial
  | @more s data blocks failure hread hdata _ ih =>
    obtain ⟨b, d, rfl⟩ := List.exists_cons_of_ne_nil hdata
    have hr : read s n = (.ok (b :: d), (read s n).2) := Prod.ext hread rfl
    rw [List.flatten_cons, List.length_append, List.length_cons] at hfuel
    -- A byte was read, so the fuel is not used up.
    obtain ⟨fuel, rfl⟩ : ∃ j, fuel = j + 1 := Nat.exists_eq_add_one.2 (by omega)
    unfold pumpFrom
    rw [hr]
    dsimp only
    rcases hw : ByteSink.writeAll k (b :: d) with ⟨e | u, k'⟩
    · have hsplit : (b :: d) :: blocks = [] ++ (b :: d) :: blocks := rfl
      have hfailed : (ByteSink.writeAll (afterWrites ByteSink.writeAll k []) (b :: d)).1 =
          .error e := by
        simp [afterWrites, hw]
      have hall : Carried s k n ((b :: d) :: blocks) failure _ := .refused hsplit trivial hfailed
      simpa [afterWrites, hw, afterReads] using hall
    · have hmore : blocks.flatten.length ≤ fuel := by omega
      have hrest := (ih hmore k').cons hr hw
      rw [List.length_cons] at hrest
      dsimp only
      rw [pumpFrom_total, Nat.zero_add]
      exact hrest

theorem pump_pos (hn : 0 < n) (s : σ) (k : κ) : pump s k n = pumpFrom n (left s) s k 0 := by
  have hz : ¬ n = 0 := Nat.pos_iff_ne_zero.1 hn
  rw [pump, if_neg hz]

theorem carried_pump (h : ReadsAtMost (left s) s) (hn : 0 < n) (k : κ) :
    ∃ blocks failure, Drains n s blocks failure ∧ Carried s k n blocks failure (pump s k n) := by
  have hdrains := drains_readBlocks h n
  refine ⟨_, _, hdrains, ?_⟩
  rw [pump_pos hn]
  refine hdrains.carried ?_ k
  rw [← hdrains.reads_eq]
  exact h _

theorem Carried.of_ok {k : κ} {p : Pumped σ κ} {total : Nat} (h : Carried s k n blocks failure p)
    (hok : p.result = .ok total) :
    failure = none ∧ total = blocks.flatten.length ∧ WritesOk ByteSink.writeAll k blocks ∧
      p.sink = (ByteSink.flush (afterWrites ByteSink.writeAll k blocks)).2 := by
  cases h with
  | copied taken flushed => exact ⟨rfl, (Except.ok.inj hok).symm, taken, rfl⟩
  | unflushed taken failed => cases hok
  | broken taken => cases hok
  | refused split taken failed => cases hok

namespace WriterSink

theorem accepted_afterWrites {k : WriterSink} (h : WritesOk ByteSink.writeAll k blocks) :
    (afterWrites ByteSink.writeAll k blocks).writer.accepted.toList =
      k.writer.accepted.toList ++ blocks.flatten := by
  induction blocks generalizing k with
  | nil => simp [afterWrites]
  | cons d rest ih =>
    obtain ⟨got, haccepted, -, hall⟩ := k.accepted_writeAll d
    rw [hall h.1] at haccepted
    have hrest := ih h.2
    rw [haccepted] at hrest
    rw [afterWrites, List.foldl_cons, List.flatten_cons, ← List.append_assoc]
    exact hrest

theorem writesOk_of_persists {k : WriterSink} (hopen : k.dropped = false)
    (h : ∀ r ∈ k.writer.writeReplies, r.Persists) (blocks : List Bytes) :
    WritesOk ByteSink.writeAll k blocks := by
  induction blocks generalizing k with
  | nil => trivial
  | cons d rest ih =>
    obtain ⟨hok, hlater⟩ := Writer.writeAll_of_persists h d
    have hwrite : ByteSink.writeAll k d = (.ok (), { k with writer := (k.writer.writeAll d).2 }) := by
      have hw : k.writer.writeAll d = (.ok (), (k.writer.writeAll d).2) := Prod.ext hok rfl
      simp only [ByteSink.writeAll, hopen, Bool.false_eq_true, if_false]
      rw [hw]
    constructor
    · rw [hwrite]
    · rw [hwrite]
      exact ih hopen hlater

end WriterSink

/-- What arrives at the writer behind a sink is a front of what the source gave, and all of it if no
block was refused. -/
theorem Carried.accepted {k : WriterSink} {p : Pumped σ WriterSink}
    (h : Carried s k n blocks failure p) :
    ∃ got, p.sink.writer.accepted.toList = k.writer.accepted.toList ++ got ∧
      got <+: blocks.flatten ∧ (WritesOk ByteSink.writeAll k blocks → got = blocks.flatten) := by
  have hall (hblocks : WritesOk ByteSink.writeAll k blocks) :
      (ByteSink.flush (afterWrites ByteSink.writeAll k blocks)).2.writer.accepted.toList =
        k.writer.accepted.toList ++ blocks.flatten := by
    rw [WriterSink.accepted_flush, WriterSink.accepted_afterWrites hblocks]
  cases h with
  | copied taken flushed => exact ⟨_, hall taken, List.prefix_rfl, fun _ => rfl⟩
  | unflushed taken failed => exact ⟨_, hall taken, List.prefix_rfl, fun _ => rfl⟩
  | broken taken =>
    exact ⟨_, WriterSink.accepted_afterWrites taken, List.prefix_rfl, fun _ => rfl⟩
  | @refused _ front later d e split taken failed =>
    obtain ⟨got, haccepted, hfront, -⟩ :=
      (afterWrites ByteSink.writeAll k front).accepted_writeAll d
    rw [WriterSink.accepted_afterWrites taken, List.append_assoc] at haccepted
    refine ⟨front.flatten ++ got, haccepted, ?_, ?_⟩
    · rw [split, List.flatten_append, List.flatten_cons, List.prefix_append_right_inj]
      exact hfront.trans (List.prefix_append d _)
    · intro hblocks
      rw [split] at hblocks
      cases failed.symm.trans hblocks.of_append

/-- What pumping `s` into `k` owes its caller. -/
structure Pumps (s : σ) (k : κ) : Prop where
  carried : ∀ n, 0 < n →
    ∃ blocks failure, Drains n s blocks failure ∧ Carried s k n blocks failure (pump s k n)
  /-- Where the data does not depend on how it is read, neither do the bytes and their count. -/
  uniform : ∀ data ending, Supplies s data ending → ∀ n m, 0 < n → 0 < m → ∀ total total',
    (pump s k n).result = .ok total → (pump s k m).result = .ok total' →
      total = total' ∧ ∃ blocks blocks', Drains n s blocks none ∧ Drains m s blocks' none ∧
        blocks.flatten = blocks'.flatten ∧
        (pump s k n).sink = (ByteSink.flush (afterWrites ByteSink.writeAll k blocks)).2 ∧
        (pump s k m).sink = (ByteSink.flush (afterWrites ByteSink.writeAll k blocks')).2
  refusal : pump s k 0 =
    ⟨.error (.invalidParameter "chunk_size" "must be greater than zero"), s, k⟩

/-- What the writer behind a sink has got when pumping `s` into it is over: a front of the bytes that
the source gave, and all of them unless the writer gave up on one of the blocks. -/
structure Reaches (s : σ) (k : WriterSink) (n : Nat) (p : Pumped σ WriterSink) (blocks : List Bytes)
    (failure : Option Fault) (got : Bytes) : Prop where
  drains : Drains n s blocks failure
  carried : Carried s k n blocks failure p
  accepted : p.sink.writer.accepted.toList = k.writer.accepted.toList ++ got
  front : got <+: blocks.flatten
  taken : WritesOk ByteSink.writeAll k blocks → got = blocks.flatten
  succeeded : ∀ total, p.result = .ok total → got = blocks.flatten ∧ total = got.length
  /-- Short and interrupted writes are no reason to give up. -/
  persists : k.dropped = false → (∀ r ∈ k.writer.writeReplies, r.Persists) →
    WritesOk ByteSink.writeAll k blocks

theorem uniform_pump (h : ReadsAtMost (left s) s) {data : Bytes} {ending : Except Fault Unit}
    (hdata : Supplies s data ending) (k : κ) (hn : 0 < n) {total : Nat}
    (hok : (pump s k n).result = .ok total) :
    total = data.length ∧ ∃ blocks, Drains n s blocks none ∧ blocks.flatten = data ∧
      (pump s k n).sink = (ByteSink.flush (afterWrites ByteSink.writeAll k blocks)).2 := by
  obtain ⟨blocks, failure, hdrains, hcarried⟩ := carried_pump h hn k
  obtain ⟨rfl, rfl, -, hsink⟩ := hcarried.of_ok hok
  have hflatten := hdata.flatten_eq hn hdrains
  exact ⟨congrArg List.length hflatten, blocks, hdrains, hflatten, hsink⟩

/-- A pump writes the blocks that it reads, in order, until the source ends, and then flushes once;
what fails first ends it there. A writer behind the sink has got the same bytes, however short its
writes were. -/
theorem pump_delivers (h : ReadsAtMost (left s) s) (k : κ) (w : WriterSink) :
    Pumps s k ∧ ∀ n, 0 < n → ∃ blocks failure got, Reaches s w n (pump s w n) blocks failure got := by
  constructor
  · refine ⟨fun n hn => carried_pump h hn k, ?_, rfl⟩
    intro data ending hdata n m hn hm total total' hok hok'
    obtain ⟨htotal, blocks, hdrains, hflatten, hsink⟩ := uniform_pump h hdata k hn hok
    obtain ⟨htotal', blocks', hdrains', hflatten', hsink'⟩ := uniform_pump h hdata k hm hok'
    exact ⟨htotal.trans htotal'.symm, blocks, blocks', hdrains, hdrains',
      hflatten.trans hflatten'.symm, hsink, hsink'⟩
  · intro n hn
    obtain ⟨blocks, failure, hdrains, hcarried⟩ := carried_pump h hn w
    obtain ⟨got, haccepted, hfront, hall⟩ := hcarried.accepted
    refine ⟨blocks, failure, got, hdrains, hcarried, haccepted, hfront, hall, ?_, ?_⟩
    · intro total hok
      obtain ⟨-, htotal, htaken, -⟩ := hcarried.of_ok hok
      rw [hall htaken]
      exact ⟨rfl, htotal⟩
    · intro hopen hpersists
      exact WriterSink.writesOk_of_persists hopen hpersists blocks

/-- An interrupted reader into a writer that takes one byte, is interrupted, and then takes the rest:
the byte behind the end of the data is not read. -/
theorem pump_delivers_interrupted :
    let reader : Reader := [.bytes [1, 2, 3], .fails ⟨.interrupted, "again"⟩, .bytes [4], .nothing,
      .bytes [9]]
    let s := ReaderSource.mk (some reader)
    let w : WriterSink := ⟨{ writeReplies := [.atMost 1, .fails ⟨.interrupted, "again"⟩] }, false⟩
    ReadsAtMost (left s) s ∧ (pump s w 2).result = .ok 4 ∧
      (pump s w 2).sink.writer.accepted.toList = [1, 2, 3, 4] ∧
      ∀ n, 0 < n → ∀ total, (pump s w n).result = .ok total → total = 4 := by
  intro reader s w
  have hleft : ReadsAtMost (left s) s := readsAtMost_left s
  have hcopied : (pump s w 2).result = .ok 4 := rfl
  obtain ⟨hpumps, hreaches⟩ := pump_delivers hleft w w
  obtain ⟨blocks, failure, got, hreach⟩ := hreaches 2 (by decide)
  have hdata : blocks.flatten = [1, 2, 3, 4] :=
    (ReaderSource.supplies reader).flatten_eq (by decide) hreach.drains
  obtain ⟨hall, -⟩ := hreach.succeeded 4 hcopied
  have haccepted : (pump s w 2).sink.writer.accepted.toList = [1, 2, 3, 4] := by
    rw [hreach.accepted, hall, hdata]
    rfl
  refine ⟨hleft, hcopied, haccepted, ?_⟩
  intro n hn total hok
  exact (hpumps.uniform _ _ (ReaderSource.supplies reader) n 2 hn (by decide) total 4 hok hcopied).1

end StreamLayers
