import StreamLayers.Proofs.Pipe.Copy
import StreamLayers.Proofs.Pipe.Draining

/-!
A pipe that copies a reader, beside a source that reads the same reader itself. Both hand out the
same bytes and end alike, however the pipe cuts the bytes into chunks and whenever its worker acts.
-/

namespace StreamLayers

/-- The answers to reads of these sizes, one after the other. -/
def ByteSource.answers {σ : Type} [ByteSource σ] (s : σ) : List Nat → List (Except Fault Bytes)
  | [] => []
  | n :: rest => (ByteSource.read s n).1 :: answers (ByteSource.read s n).2 rest

theorem ByteSource.length_answers {σ : Type} [ByteSource σ] (s : σ) (sizes : List Nat) :
    (answers s sizes).length = sizes.length := by
  induction sizes generalizing s with
  | nil => rfl
  | cons n rest ih => exact congrArg (· + 1) (ih _)

namespace ReaderSource

/-- How reads of a reader end that it ends with this failure, or without one. -/
def ending : Option OsError → Except Fault Unit
  | none => .ok ()
  | some e => .error (.io (.readFailed "reader" e))

theorem tends_from (reader : Reader) (r : Reading) (hgoing : r.ending = none) {sizes : List Nat}
    (hsizes : ∀ n ∈ sizes, 0 < n) :
    ((ByteSource.answers (ReaderSource.mk (some reader)) sizes).foldl Reading.after r).Tends
      (r.data ++ reader.contents) (ending reader.failure) := by
  induction sizes generalizing reader r with
  | nil =>
    refine ⟨List.prefix_append _ _, fun e he => ?_⟩
    cases hgoing.symm.trans he
  | cons n rest ih =>
    obtain ⟨hn, hrest⟩ := List.forall_mem_cons.1 hsizes
    have hread := reader.fetches_readUninterrupted hn
    simp only [ByteSource.answers, List.foldl_cons, ByteSource.read]
    generalize reader.readUninterrupted n = q at hread ⊢
    cases hread with
    | @got b d reader' eq same =>
      have hlater := ih reader' { r with data := r.data ++ b :: d } hgoing hrest
      rw [Reading.after_more hgoing, eq, ← same, ← List.append_assoc]
      exact hlater
    | ended used sound =>
      have hend : r.after (.ok []) = { r with ending := some (.ok ()) } := by
        simp [Reading.after, hgoing]
      rw [hend, Reading.foldl_of_ended rfl, used, sound, List.append_nil]
      refine ⟨List.prefix_rfl, fun e he => ⟨rfl, ?_⟩⟩
      exact (Option.some.inj he).symm
    | @failed e reader' used broken =>
      have hend : r.after (.error (.io (.readFailed "reader" e))) =
          { r with ending := some (.error (.io (.readFailed "reader" e))) } := by
        simp [Reading.after, hgoing]
      dsimp only
      rw [hend, Reading.foldl_of_ended rfl, used, broken, List.append_nil]
      refine ⟨List.prefix_rfl, fun e he => ⟨rfl, ?_⟩⟩
      exact (Option.some.inj he).symm

/-- A source over a reader hands out its contents, in reads of whatever sizes. -/
theorem tends (reader : Reader) {sizes : List Nat} (hsizes : ∀ n ∈ sizes, 0 < n) :
    (Reading.ofAnswers (ByteSource.answers (ReaderSource.mk (some reader)) sizes)).Tends
      reader.contents (ending reader.failure) :=
  tends_from reader {} rfl hsizes

end ReaderSource

namespace Copy

open Pipe

/-- How reads of a pipe end whose worker copied a reader with this failure, or without one. -/
def ending : Option OsError → Except Fault Unit
  | none => .ok ()
  | some e =>
    .error (.producerFailed
      (.io (if e.kind = .brokenPipe then .brokenPipe "pipe" else .readFailed "pipe" e)))

theorem after_outcome {r : Reading} (hgoing : r.ending = none) (reader : Reader) :
    r.after (answerOf (Slot.reported (outcome reader)).verdict) =
      { r with ending := some (ending reader.failure) } := by
  rcases hfail : reader.failure with _ | e <;>
    simp [outcome, hfail, Slot.verdict, answerOf, Reading.after, hgoing, ending, faultOf]

variable {c : Settings} {reader : Reader}

theorem delivered_le_contents {f : Flow Copy Nat}
    (h : Flow.Conserved c (ofReader reader) f) : f.delivered <+: reader.contents := by
  obtain ⟨unsent, hunsent, -⟩ := h.planned _ (writes_contents (ofReader reader))
  have hall : f.offered <+: reader.contents := ⟨unsent, hunsent⟩
  exact h.delivered_le_offered.trans hall

/-- The reader of an open pipe has what the worker's copy has been handed out of it. -/
structure Shown (c : Settings) (reader : Reader) (f : Flow Copy Nat) (r : Reading) : Prop where
  reach : Flow.Reach (Flow.start c (ofReader reader)) f
  data_eq : r.data = f.delivered
  ended : ∀ e, r.ending = some e → f.delivered = reader.contents ∧ e = ending reader.failure ∧
    f.pipe.slot = .reported (outcome reader)

theorem Shown.step (hc : 0 < c.chunkSize) {f g : Flow Copy Nat}
    {before after : List (Except Fault Bytes)} (h : Shown c reader f (.ofAnswers before))
    (hr : Flow.Reach f g) (hadds : Adds f g before after) :
    Shown c reader g (.ofAnswers after) := by
  have hstart := Flow.Conserved.start c (ofReader reader)
  have hopens := keepsOpen (ofReader reader)
  have hkept := hstart.reach hc h.reach
  have hacc := (Flow.Accounted.start c (ofReader reader)).reach hstart hc hopens h.reach
  have hreach := h.reach.trans hr
  have hfront := delivered_le_contents (hkept.reach hc hr)
  have hslot (hposted : f.pipe.slot = .reported (outcome reader)) :
      g.pipe.slot = .reported (outcome reader) := by
    have hne : f.pipe.slot ≠ .waiting := by simp [hposted]
    rw [(hacc.settled hkept hc hopens hne hr).2, hposted]
  have hsame (hd : g.delivered = f.delivered) : Shown c reader g (.ofAnswers before) := by
    refine ⟨hreach, h.data_eq.trans hd.symm, fun e he => ?_⟩
    obtain ⟨hall, hending, hposted⟩ := h.ended e he
    exact ⟨hd.trans hall, hending, hslot hposted⟩
  rcases he : (Reading.ofAnswers before).ending with _ | e
  · cases hadds with
    | nothing same => exact hsame same
    | more got =>
      rw [Reading.ofAnswers_append, Reading.after_more he]
      refine ⟨hreach, ?_, fun e hend => ?_⟩
      · rw [got, ← h.data_eq]
      · cases he.symm.trans hend
    | told same used ended =>
      obtain ⟨hall, hposted⟩ := ended_ofReader (hacc.ended hkept used ended)
      rw [Reading.ofAnswers_append, hacc.or_verdict, hposted, after_outcome he]
      refine ⟨hreach, h.data_eq.trans same.symm, fun e hend => ?_⟩
      exact ⟨same.trans hall, (Option.some.inj hend).symm, hslot hposted⟩
  · cases hadds with
    | nothing same => exact hsame same
    | more got =>
      -- Behind the end there are no more bytes.
      have hlen := hfront.length_le
      rw [got, (h.ended e he).1, List.length_append, List.length_cons] at hlen
      omega
    | told same used ended =>
      rw [Reading.ofAnswers_append, Reading.after_of_ended he]
      exact hsame same

theorem shown_of_reach (hc : 0 < c.chunkSize) {s : Session Copy Nat}
    (hs : Session.Reach (.start c (ofReader reader)) s) (hopen : s.pipe.closed = false) :
    ∃ f, f.pipe = s.pipe ∧ Shown c reader f (readingOf s.log) := by
  induction hs with
  | refl => exact ⟨Flow.start c (ofReader reader), rfl, .refl, rfl, nofun⟩
  | @tail s t hs hstep ih =>
    obtain ⟨f, hf, hshown⟩ := ih (Session.isOpen_of_step hstep hopen)
    obtain ⟨g, hr, hg, hadds⟩ :=
      Session.flow_of_step ((Session.Orderly.start c _).reach hs) (Session.asks_of_reach hs) hstep
        hopen hf
    exact ⟨g, hg, hshown.step hc hr hadds⟩

theorem Shown.tends (hc : 0 < c.chunkSize) {f : Flow Copy Nat} {r : Reading}
    (h : Shown c reader f r) : r.Tends reader.contents (ending reader.failure) where
  front := by
    have hkept := (Flow.Conserved.start c (ofReader reader)).reach hc h.reach
    rw [h.data_eq]
    exact delivered_le_contents hkept
  ended e he := by
    obtain ⟨hall, hending, -⟩ := h.ended e he
    exact ⟨h.data_eq.trans hall, hending⟩

/-- In whatever order the two ends act, a reader that keeps reading comes to the end. -/
theorem acc_reads (hc : 0 < c.chunkSize) {s : Session Copy Nat}
    (hs : Session.Reach (.start c (ofReader reader)) s) (hopen : s.pipe.closed = false) :
    Acc (fun u t => Session.Reads t u ∧ (readingOf u.log).ending = none) s :=
  .intro s fun _ h => acc_reads hc (hs.tail h.1.step) (h.1.isOpen hopen)
termination_by
  (s.toRead reader.contents.length, s.ahead, s.pipe.room, s.pipe.worker.weight)
decreasing_by
  obtain ⟨f, -, hshown⟩ := shown_of_reach hc (hs.tail h.1.step) (h.1.isOpen hopen)
  have horderly := (Session.Orderly.start c (ofReader reader)).reach hs
  exact h.1.lt horderly hopen (Session.asks_of_reach hs) h.2 (hshown.tends hc).front.length_le

/-- What the reader of an open pipe over a copy of `reader` has, and what it still gets. -/
structure Bridged (reader : Reader) (s : Session Copy Nat) : Prop where
  tends : (readingOf s.log).Tends reader.contents (ending reader.failure)
  within : reader.contents.length < (answers s.log).length →
    readingOf s.log = ⟨reader.contents, some (ending reader.failure)⟩
  /-- A reader that does nothing but read can go on, and comes to the end after finitely many acts
  of the two ends. -/
  goes : ∃ t, Session.Reads s t
  ends : Acc (fun u t => Session.Reads t u ∧ (readingOf u.log).ending = none) s
  /-- Behind a clean end, a reader that closes the pipe is told how many bytes it has read. -/
  counted : (readingOf s.log).ending = some (.ok ()) → ∀ t, Session.Reach s t →
    ∀ front answer later, t.log = front ++ .result answer :: later → standing front = .closed →
      answer = .ok (readingOf s.log).data.length
  returned : (readingOf s.log).ending = some (.ok ()) → s.stage = .idle →
    s.pipe.close.2.result.1 = .ok (readingOf s.log).data.length

theorem counted_of_reach (hc : 0 < c.chunkSize) {s t : Session Copy Nat}
    (hs : Session.Reach (.start c (ofReader reader)) s) (hopen : s.pipe.closed = false)
    (hclean : (readingOf s.log).ending = some (.ok ())) (ht : Session.Reach s t)
    {front later : List (Pipe.Entry Nat)} {answer : Except Fault Nat}
    (hlog : t.log = front ++ .result answer :: later) (hclosed : standing front = .closed) :
    answer = .ok (readingOf s.log).data.length := by
  obtain ⟨f, hf, hshown⟩ := shown_of_reach hc hs hopen
  obtain ⟨hall, hending, hslot⟩ := hshown.ended _ hclean
  have hsound : reader.failure = none := by
    rcases hfail : reader.failure with _ | e
    · rfl
    · rw [hfail] at hending
      cases hending
  have hposted : s.pipe.slot = .reported (.ok reader.contents.length) := by
    rw [← hf, hslot, outcome, hsound]
  have hne : s.pipe.slot ≠ .waiting := by simp [hposted]
  have htruthful := (Session.Truthful.start c (ofReader reader)).reach hs
  have hfits := (htruthful.reach ht).told.of_mem hlog
  rw [hclosed, htruthful.orderly.slot_reach hne ht, hposted] at hfits
  have hvalue : Except.ok reader.contents.length = answer := Option.some.inj hfits
  rw [← hvalue, hshown.data_eq, hall]

theorem returned_of_reach (hc : 0 < c.chunkSize) {s : Session Copy Nat}
    (hs : Session.Reach (.start c (ofReader reader)) s) (hopen : s.pipe.closed = false)
    (hclean : (readingOf s.log).ending = some (.ok ())) (hidle : s.stage = .idle) :
    s.pipe.close.2.result.1 = .ok (readingOf s.log).data.length := by
  have htruthful := (Session.Truthful.start c (ofReader reader)).reach hs
  obtain ⟨turns, hclose⟩ := Session.reach_close htruthful.orderly hidle
  have hclosed := htruthful.reach hclose
  obtain ⟨turns', hresult⟩ := Session.reach_result hclosed.orderly rfl
  have hstanding : standing (s.log ++ [.close s.pipe.close.1]) = .closed := by
    rw [standing_append, (htruthful.standing_eq_open hidle).2 hopen]
    rfl
  exact counted_of_reach hc hs hopen hclean (hclose.trans hresult) rfl hstanding

theorem bridged_of_reach (hc : 0 < c.chunkSize) {s : Session Copy Nat}
    (hs : Session.Reach (.start c (ofReader reader)) s) (hopen : s.pipe.closed = false) :
    Bridged reader s := by
  obtain ⟨f, -, hshown⟩ := shown_of_reach hc hs hopen
  have htends := hshown.tends hc
  have horderly := (Session.Orderly.start c (ofReader reader)).reach hs
  exact {
    tends := htends
    within := htends.ending_eq
    goes := horderly.exists_reads hopen
    ends := acc_reads hc hs hopen
    counted := fun hclean _ ht _ _ _ hlog hclosed =>
      counted_of_reach hc hs hopen hclean ht hlog hclosed
    returned := returned_of_reach hc hs hopen }

/-- A pipe that copies a reader hands out what a source over that reader does, to the last byte, and
ends as it does; behind a clean end the copy has counted the bytes. -/
theorem delivers_directly (hvalid : c.validate = .ok ()) {hasPool : Bool} {worker : Strategy}
    (hresolves : c.resolve hasPool = .ok worker) (hroom : c.capacity ≤ maxCapacity)
    (reader : Reader) :
    ∃ p, Pipe.spawn c hasPool (ofReader reader) = .ok p ∧
      (∀ s, Session.Reach { pipe := p } s → s.pipe.closed = false → Bridged reader s) ∧
      ∀ sizes, (∀ n ∈ sizes, 0 < n) →
        let direct := Reading.ofAnswers (ByteSource.answers (ReaderSource.mk (some reader)) sizes)
        direct.Tends reader.contents (ReaderSource.ending reader.failure) ∧
          (reader.contents.length < sizes.length →
            direct = ⟨reader.contents, some (ReaderSource.ending reader.failure)⟩) := by
  refine ⟨Pipe.start c (ofReader reader), spawn_of_valid hvalid hresolves hroom _, ?_, ?_⟩
  · intro s hs hopen
    exact bridged_of_reach (Flow.chunkSize_pos hvalid) hs hopen
  · intro sizes hsizes direct
    have htends := ReaderSource.tends reader hsizes
    refine ⟨htends, fun hmore => htends.ending_eq ?_⟩
    rw [ByteSource.length_answers]
    exact hmore

/-- A reader that is interrupted and then breaks off: five reads of a pipe, whose queue holds two
chunks, get what they would get of the reader itself. -/
theorem delivers_directly_broken :
    let c : Settings := { bufferSize := 4, chunkSize := 2 }
    let reader : Reader := [.bytes [1, 2, 3], .fails ⟨.interrupted, "again"⟩, .bytes [4],
      .fails ⟨.brokenPipe, "gone"⟩, .bytes [5]]
    c.validate = .ok () ∧ c.resolve false = .ok .dedicated ∧ c.capacity ≤ maxCapacity ∧
      ∃ p, Pipe.spawn c false (ofReader reader) = .ok p ∧
        (∃ s, Session.Reach { pipe := p } s ∧ s.pipe.closed = false ∧
          readingOf s.log =
            ⟨[1, 2, 3, 4], some (.error (.producerFailed (.io (.brokenPipe "pipe"))))⟩) ∧
        Reading.ofAnswers (ByteSource.answers (ReaderSource.mk (some reader)) [9, 9, 9, 9, 9]) =
          ⟨[1, 2, 3, 4], some (.error (.io (.readFailed "reader" ⟨.brokenPipe, "gone"⟩)))⟩ := by
  intro c reader
  have hvalid : c.validate = .ok () := rfl
  have hresolves : c.resolve false = .ok .dedicated := rfl
  have hroom : c.capacity ≤ maxCapacity := by decide
  obtain ⟨p, hspawn, hbridged, hdirect⟩ := delivers_directly hvalid hresolves hroom reader
  obtain rfl : Pipe.start c (ofReader reader) = p :=
    Except.ok.inj ((spawn_of_valid hvalid hresolves hroom _).symm.trans hspawn)
  refine ⟨hvalid, hresolves, hroom, _, hspawn, ?_, (hdirect _ (by decide)).2 (by decide)⟩
  obtain ⟨turns, hreach⟩ := Session.reach_calls (.start c (ofReader reader)) rfl
    [.read 9, .read 9, .read 9, .read 9, .read 9]
  have htruthful := (Session.Truthful.start c (ofReader reader)).reach hreach
  have hopen := (htruthful.standing_eq_open rfl).1 rfl
  exact ⟨_, hreach, hopen, (hbridged _ hreach hopen).within (Nat.lt_succ_self 4)⟩

/-- Without a pool there is nothing to read from, though the settings are valid. -/
theorem pool_refused :
    let c : Settings := { strategy := .pool }
    let reader : Reader := [.bytes [97, 98, 99]]
    c.validate = .ok () ∧ (∀ p : Input, Pipe.spawn c false (ofReader reader) ≠ .ok p) ∧
      Reading.ofAnswers (ByteSource.answers (ReaderSource.mk (some reader)) [9, 9]) =
        ⟨[97, 98, 99], some (.ok ())⟩ := by
  intro c reader
  refine ⟨rfl, fun p hp => ?_, rfl⟩
  have hrefused : Input.start c reader =
      .error (.refused (.invalidSettings "pool strategy requires a tokio runtime context")) := rfl
  cases hrefused.symm.trans hp

end Copy

end StreamLayers
