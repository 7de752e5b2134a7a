import StreamLayers.Log
import StreamLayers.Sink

/-!
System writers given by a script, and the sink over them.
-/

namespace StreamLayers

inductive WriteReply where
  | all
  /-- Takes at most `n` bytes. -/
  | atMost (n : Nat)
  | fails (e : OsError)
  deriving DecidableEq, Repr

/-- Whether the call takes something or can be repeated. -/
def WriteReply.Persists : WriteReply → Prop
  | .all => True
  | .atMost n => 0 < n
  | .fails e => e.kind = .interrupted

/-- A writer, given by how its calls answer in turn. After the script every call succeeds in
full. -/
structure Writer where
  writeReplies : List WriteReply := []
  flushReplies : List (Option OsError) := []
  /-- Everything that arrived. -/
  accepted : Log := {}
  writes : Nat := 0
  flushes : Nat := 0
  deriving Repr

namespace Writer

def wroteNothing : OsError := ⟨.writeZero, "failed to write whole buffer"⟩

def accept (w : Writer) (data : Bytes) : Writer :=
  { w with accepted := w.accepted.append data, writes := w.writes + 1 }

private def writeAllFrom : List WriteReply → Writer → Bytes → Except OsError Unit × Writer
  | replies, w, [] => (.ok (), { w with writeReplies := replies })
  | [], w, data => (.ok (), { w.accept data with writeReplies := [] })
  | .all :: rest, w, data => (.ok (), { w.accept data with writeReplies := rest })
  | .atMost 0 :: rest, w, _ =>
    (.error wroteNothing, { w with writeReplies := rest, writes := w.writes + 1 })
  | .atMost (n + 1) :: rest, w, data =>
    writeAllFrom rest (w.accept (data.take (n + 1))) (data.drop (n + 1))
  | .fails e :: rest, w, data =>
    if e.kind = .interrupted then writeAllFrom rest { w with writes := w.writes + 1 } data
    else (.error e, { w with writeReplies := rest, writes := w.writes + 1 })

/-- Calls the writer until it has taken everything; interrupted calls are repeated. -/
def writeAll (w : Writer) (data : Bytes) : Except OsError Unit × Writer :=
  writeAllFrom w.writeReplies w data

private theorem accepted_writeAllFrom (replies : List WriteReply) (w : Writer) (data : Bytes) :
    ∃ got, (writeAllFrom replies w data).2.accepted.toList = w.accepted.toList ++ got ∧
      got <+: data ∧ ((writeAllFrom replies w data).1 = .ok () → got = data) := by
  induction replies generalizing w data with
  | nil =>
    cases data with
    | nil => exact ⟨[], by simp [writeAllFrom], List.prefix_rfl, fun _ => rfl⟩
    | cons b d => exact ⟨b :: d, by simp [writeAllFrom, accept], List.prefix_rfl, fun _ => rfl⟩
  | cons reply rest ih =>
    cases data with
    | nil => exact ⟨[], by simp [writeAllFrom], List.prefix_rfl, fun _ => rfl⟩
    | cons b d =>
      cases reply with
      | all => exact ⟨b :: d, by simp [writeAllFrom, accept], List.prefix_rfl, fun _ => rfl⟩
      | atMost n =>
        cases n with
        | zero => exact ⟨[], by simp [writeAllFrom], List.nil_prefix, by simp [writeAllFrom]⟩
        | succ n =>
          obtain ⟨got, haccepted, hfront, hall⟩ :=
            ih (w.accept ((b :: d).take (n + 1))) ((b :: d).drop (n + 1))
          have hsplit := List.take_append_drop (n + 1) (b :: d)
          refine ⟨(b :: d).take (n + 1) ++ got, ?_, ?_, ?_⟩
          · rw [writeAllFrom, haccepted]
            · simp [accept]
            · simp
          · conv => rhs; rw [← hsplit]
            exact (List.prefix_append_right_inj _).2 hfront
          · intro hok
            rw [hall hok, hsplit]
      | fails e =>
        by_cases hi : e.kind = .interrupted
        · obtain ⟨got, haccepted, hrest⟩ := ih { w with writes := w.writes + 1 } (b :: d)
          refine ⟨got, ?_, ?_⟩
          · simpa [writeAllFrom, hi] using haccepted
          · simpa [writeAllFrom, hi] using hrest
        · exact ⟨[], by simp [writeAllFrom, hi], List.nil_prefix, by simp [writeAllFrom, hi]⟩

/-- A front of the data arrives, and all of it if the write does not fail. -/
theorem accepted_writeAll (w : Writer) (data : Bytes) :
    ∃ got, (w.writeAll data).2.accepted.toList = w.accepted.toList ++ got ∧ got <+: data ∧
      ((w.writeAll data).1 = .ok () → got = data) :=
  accepted_writeAllFrom w.writeReplies w data

private theorem writeAllFrom_of_persists (replies : List WriteReply) (w : Writer) (data : Bytes)
    (h : ∀ r ∈ replies, r.Persists) :
    (writeAllFrom replies w data).1 = .ok () ∧
      ∀ r ∈ (writeAllFrom replies w data).2.writeReplies, r.Persists := by
  induction replies generalizing w data with
  | nil => cases data <;> simp [writeAllFrom]
  | cons reply rest ih =>
    obtain ⟨hfirst, hrest⟩ := List.forall_mem_cons.1 h
    cases data with
    | nil => exact ⟨by simp [writeAllFrom], by simpa [writeAllFrom] using h⟩
    | cons b d =>
      cases reply with
      | all => exact ⟨by simp [writeAllFrom], by simpa [writeAllFrom] using hrest⟩
      | atMost n =>
        cases n with
        | zero => exact absurd hfirst (Nat.lt_irrefl 0)
        | succ n => exact ih (w.accept ((b :: d).take (n + 1))) ((b :: d).drop (n + 1)) hrest
      | fails e =>
        have hi : e.kind = .interrupted := hfirst
        simpa [writeAllFrom, hi] using ih { w with writes := w.writes + 1 } (b :: d) hrest

/-- Short and interrupted writes are repeated until all of the data has arrived. -/
theorem writeAll_of_persists {w : Writer} (h : ∀ r ∈ w.writeReplies, r.Persists) (data : Bytes) :
    (w.writeAll data).1 = .ok () ∧ ∀ r ∈ (w.writeAll data).2.writeReplies, r.Persists :=
  writeAllFrom_of_persists w.writeReplies w data h

def flush (w : Writer) : Except OsError Unit × Writer :=
  match w.flushReplies with
  | [] => (.ok (), { w with flushes := w.flushes + 1 })
  | none :: rest => (.ok (), { w with flushReplies := rest, flushes := w.flushes + 1 })
  | some e :: rest => (.error e, { w with flushReplies := rest, flushes := w.flushes + 1 })

theorem flush_frame (w : Writer) :
    w.flush.2.accepted = w.accepted ∧ w.flush.2.writeReplies = w.writeReplies := by
  unfold flush
  split <;> exact ⟨rfl, rfl⟩

end Writer

/-- A sink over a writer, which it drops on close. -/
structure WriterSink where
  writer : Writer
  /-- Whether the writer was dropped. -/
  dropped : Bool := false
  deriving Repr

namespace WriterSink

private def flushWriter (k : WriterSink) : Except Fault Unit × WriterSink :=
  if k.dropped then (.ok (), k)
  else
    match k.writer.flush with
    | (.ok (), w) => (.ok (), { k with writer := w })
    | (.error e, w) => (.error (.io (.writeFailed "writer" e)), { k with writer := w })

instance : ByteSink WriterSink where
  writeAll k data :=
    if k.dropped then (.error (.closed "writer"), k)
    else
      match k.writer.writeAll data with
      | (.ok (), w) => (.ok (), { k with writer := w })
      | (.error e, w) => (.error (.io (.writeFailed "writer" e)), { k with writer := w })
  flush := flushWriter
  close k :=
    let (r, k) := flushWriter k
    (r, { k with dropped := true })

theorem accepted_writeAll (k : WriterSink) (data : Bytes) :
    ∃ got, (ByteSink.writeAll k data).2.writer.accepted.toList =
        k.writer.accepted.toList ++ got ∧ got <+: data ∧
      ((ByteSink.writeAll k data).1 = .ok () → got = data) := by
  obtain ⟨got, haccepted, hfront, hall⟩ := k.writer.accepted_writeAll data
  simp only [ByteSink.writeAll]
  split
  · exact ⟨[], by simp, List.nil_prefix, by simp⟩
  · rcases hw : k.writer.writeAll data with ⟨e | u, w⟩ <;> rw [hw] at haccepted hall
    · exact ⟨got, haccepted, hfront, by simp⟩
    · exact ⟨got, haccepted, hfront, fun _ => hall rfl⟩

theorem accepted_flush (k : WriterSink) :
    (ByteSink.flush k).2.writer.accepted = k.writer.accepted := by
  have hflush := k.writer.flush_frame.1
  show (flushWriter k).2.writer.accepted = k.writer.accepted
  unfold flushWriter
  split
  · rfl
  · rcases hw : k.writer.flush with ⟨e | u, w⟩ <;> rw [hw] at hflush <;> exact hflush

end WriterSink

end StreamLayers
