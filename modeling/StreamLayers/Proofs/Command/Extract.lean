import StreamLayers.Command.Run
import StreamLayers.Proofs.Marker.Serving
import StreamLayers.Proofs.Pipe.Copy
import StreamLayers.Proofs.Stack

/-!
The extract command from end to end: a reader that a worker copies into a pipe, the marker source
over the pipe, and the sink that its regions are pumped into.
-/

namespace StreamLayers.Command

variable {κ : Type} [ByteSink κ]

/-- A sink that `data` can be pumped into and that can be closed then. -/
structure Writable (k : κ) (data : Bytes) : Prop extends Absorbs k data where
  closes : ∀ blocks, [] ∉ blocks → blocks.flatten = data →
    (ByteSink.close (ByteSink.flush (afterWrites ByteSink.writeAll k blocks)).2).1 = .ok ()

/-- The command succeeded with this output: it says how long that is, and the sink was written just
that, flushed and closed. -/
structure Extracted (k : κ) (output : Bytes) (r : Except Failure Nat × κ) : Prop where
  result : r.1 = .ok output.length
  written : ∃ blocks, [] ∉ blocks ∧ blocks.flatten = output ∧
    r.2 = (ByteSink.close (ByteSink.flush (afterWrites ByteSink.writeAll k blocks)).2).2

/-- What the command owes whoever runs it on a reader whose contents divide into these regions. -/
structure Honours (markers : Marker.Settings) (reader : Reader) (regions : List Bytes)
    (tail : Bytes) (k : κ) (r : Except Failure Nat × κ) : Prop where
  whole : reader.failure = none →
    Writable k (handedRegions markers.singlePair regions tail) →
      Extracted k (handedRegions markers.singlePair regions tail) r
  /-- A reader that fails before the extraction is complete makes the command fail, and is what it
  reports if the sink refuses nothing. -/
  cut : ∀ e, reader.failure = some e → ¬ (markers.singlePair = true ∧ regions ≠ []) →
    ∃ f, r.1 = .error ((Failure.ofFault f).during "Failed to extract regions") ∧
      ((∀ data, Absorbs k data) → f = .producerFailed (Copy.faultOf e))

theorem ofSettings_of_marked {σ : Type} (source : σ) {c : Marker.Settings}
    (h : c.start ≠ "" ∨ c.stop ≠ "") :
    Marker.ofSettings source c =
      .ok (.ofMarkers source (.ofText c.start) (.ofText c.stop) c.singlePair) := by
  have hvalid : c.validate = .ok () := by
    refine if_neg fun hnone => ?_
    simp only [Bool.and_eq_true, String.isEmpty_iff] at hnone
    exact h.elim (absurd hnone.1.1) (absurd hnone.1.2)
  rw [Marker.ofSettings, hvalid]

theorem start_of_valid {c : Pipe.Settings} (hvalid : c.validate = .ok ())
    {worker : Pipe.Strategy} (hresolves : c.resolve false = .ok worker)
    (hroom : c.capacity ≤ Pipe.maxCapacity) (reader : Reader) :
    Input.start c reader = .ok (Pipe.start c (Copy.ofReader reader)) :=
  Pipe.spawn_of_valid hvalid hresolves hroom (Copy.ofReader reader)

section Steps

variable {input : Input} {markers : Marker.Settings} {extractor : Marker Input} {k : κ}
  {chunk : Nat} {run : Pumped (Marker Input) κ}

theorem extract_of_error (hm : Marker.ofSettings input markers = .ok extractor)
    (hrun : pump extractor k chunk = run) {e : Fault} (he : run.result = .error e) :
    (extract input k markers chunk).1 =
      .error ((Failure.ofFault e).during "Failed to extract regions") := by
  unfold extract
  rw [hm]
  dsimp only
  rw [hrun, he]

theorem extract_of_ok (hm : Marker.ofSettings input markers = .ok extractor)
    (hrun : pump extractor k chunk = run) {copied : Nat} (hok : run.result = .ok copied)
    (hclose : (ByteSink.close run.sink).1 = .ok ()) {read : Option Nat}
    (hfinish : run.source.source.finish run.source.isDone = .ok read) :
    extract input k markers chunk = (.ok copied, (ByteSink.close run.sink).2) := by
  have hclosed : ByteSink.close run.sink = (.ok (), (ByteSink.close run.sink).2) :=
    Prod.ext hclose rfl
  unfold extract
  rw [hm]
  dsimp only
  rw [hrun, hok, hclosed]
  dsimp only
  rw [hfinish]
  rfl

end Steps

section Outcomes

variable {c : Pipe.Settings} {markers : Marker.Settings} {reader : Reader} {regions : List Bytes}
  {tail : Bytes} {input : Input}

theorem extracted_of_over (hpos : 0 < c.chunkSize)
    (hmarkers : markers.start ≠ "" ∨ markers.stop ≠ "")
    (hover : Input.Over c reader input reader.contents)
    (hdivided : Divided (.ofText markers.start) (.ofText markers.stop)
      (outside (.ofText markers.start)) reader.contents regions tail)
    (hsound : reader.failure = none) {k : κ}
    (hk : Writable k (handedRegions markers.singlePair regions tail)) :
    Extracted k (handedRegions markers.singlePair regions tail)
      (extract input k markers c.chunkSize) := by
  have hfailure : Input.failure reader = none := by rw [Input.failure, hsound]; rfl
  have hserves := Input.serves hpos reader
  rw [hfailure] at hserves
  have hrelaying := Marker.relaying_ofMarkers hover none (.ofText markers.start)
    (.ofText markers.stop) markers.singlePair
  rw [hdivided.fate_eq, ite_self, hdivided.passes_eq (ite_self none)] at hrelaying
  have hpour := (Marker.serves_relaying hserves none).pump hrelaying hpos k
  generalize hrun : pump (Marker.ofMarkers input _ _ _) k c.chunkSize = run at hpour
  cases hpour with
  | failed broken => cases broken
  | refused refuses => exact absurd hk.toAbsorbs refuses
  | poured sound whole some before last after =>
    obtain ⟨rest, hrelays⟩ := after
    obtain ⟨read, hfinish⟩ := hrelays.source.finish hpos hsound
    have hdone := before.isDone hserves hpos last
    rw [← hdone] at hfinish
    rw [extract_of_ok (ofSettings_of_marked input hmarkers) hrun rfl (hk.closes _ some whole)
      hfinish]
    exact ⟨congrArg _ (Nat.zero_add _), _, some, whole, rfl⟩

theorem error_of_over (hpos : 0 < c.chunkSize)
    (hmarkers : markers.start ≠ "" ∨ markers.stop ≠ "")
    (hover : Input.Over c reader input reader.contents)
    (hdivided : Divided (.ofText markers.start) (.ofText markers.stop)
      (outside (.ofText markers.start)) reader.contents regions tail)
    {e : OsError} (hbroken : reader.failure = some e)
    (hcut : ¬ (markers.singlePair = true ∧ regions ≠ [])) (k : κ) :
    ∃ f, (extract input k markers c.chunkSize).1 =
        .error ((Failure.ofFault f).during "Failed to extract regions") ∧
      ((∀ data, Absorbs k data) → f = .producerFailed (Copy.faultOf e)) := by
  have hfailure : Input.failure reader = some (.producerFailed (Copy.faultOf e)) := by
    rw [Input.failure, hbroken]
    rfl
  have hserves := Input.serves hpos reader
  rw [hfailure] at hserves
  have hrelaying := Marker.relaying_ofMarkers hover (some (.producerFailed (Copy.faultOf e)))
    (.ofText markers.start) (.ofText markers.stop) markers.singlePair
  rw [hdivided.fate_eq, if_neg hcut] at hrelaying
  have hpour := (Marker.serves_relaying hserves _).pump hrelaying hpos k
  have hset := ofSettings_of_marked input hmarkers
  generalize hrun : pump (Marker.ofMarkers input _ _ _) k c.chunkSize = run at hpour
  cases hpour with
  | poured sound whole some before last after => cases sound
  | failed broken =>
    obtain rfl := Option.some.inj broken
    exact ⟨_, extract_of_error hset hrun rfl, fun _ => rfl⟩
  | refused refuses =>
    exact ⟨_, extract_of_error hset hrun rfl, fun htakes => absurd (htakes _) refuses⟩

end Outcomes

section Collector

/-- A collector that has got these bytes. -/
inductive Collects : WriterSink → Bytes → Prop where
  | mk (accepted : Log) (writes flushes : Nat) :
      Collects ⟨⟨[], [], accepted, writes, flushes⟩, false⟩ accepted.toList

variable {k : WriterSink} {data : Bytes}

theorem collects_collector : Collects collector [] := .mk {} 0 0

theorem Collects.write (h : Collects k data) (d : Bytes) :
    (ByteSink.writeAll k d).1 = .ok () ∧ Collects (ByteSink.writeAll k d).2 (data ++ d) := by
  cases h with
  | mk accepted writes flushes =>
    cases d with
    | nil =>
      rw [List.append_nil]
      exact ⟨rfl, .mk accepted writes flushes⟩
    | cons b bs =>
      rw [← Log.toList_append]
      exact ⟨rfl, .mk (accepted.append (b :: bs)) (writes + 1) flushes⟩

theorem Collects.writes (h : Collects k data) (blocks : List Bytes) :
    Collects (afterWrites ByteSink.writeAll k blocks) (data ++ blocks.flatten) := by
  induction blocks generalizing k data with
  | nil =>
    rw [List.flatten_nil, List.append_nil]
    exact h
  | cons d rest ih =>
    have hrest := ih (h.write d).2
    rw [List.append_assoc] at hrest
    exact hrest

theorem Collects.flush (h : Collects k data) :
    (ByteSink.flush k).1 = .ok () ∧ Collects (ByteSink.flush k).2 data := by
  cases h with
  | mk accepted writes flushes => exact ⟨rfl, .mk accepted writes (flushes + 1)⟩

theorem Collects.close (h : Collects k data) :
    (ByteSink.close k).1 = .ok () ∧ collected (ByteSink.close k).2 = data := by
  cases h with
  | mk accepted writes flushes => exact ⟨rfl, rfl⟩

theorem absorbs_collector (data : Bytes) : Absorbs collector data where
  takes := Takes.of_invariant (Q := fun k => ∃ got, Collects k got)
    (fun _ d ⟨_, h⟩ => ⟨(h.write d).1, _, (h.write d).2⟩) ⟨_, collects_collector⟩ data
  flushes blocks _ _ := (collects_collector.writes blocks).flush.1

theorem writable_collector (data : Bytes) : Writable collector data where
  toAbsorbs := absorbs_collector data
  closes blocks _ _ := (collects_collector.writes blocks).flush.2.close.1

/-- What a file gets is the output. -/
theorem Extracted.collected_eq {output : Bytes} {r : Except Failure Nat × WriterSink}
    (h : Extracted collector output r) : collected r.2 = output := by
  obtain ⟨blocks, -, rfl, hsink⟩ := h.written
  rw [hsink]
  exact (collects_collector.writes blocks).flush.2.close.2

end Collector

/-- Whatever the input is and however its worker and the command take turns, the command hands out
just the regions of the contents, and does not pass over a failure to read them. -/
theorem honours_of_valid {c : Pipe.Settings} (hvalid : c.validate = .ok ())
    {worker : Pipe.Strategy} (hresolves : c.resolve false = .ok worker)
    (hroom : c.capacity ≤ Pipe.maxCapacity) {markers : Marker.Settings}
    (hmarkers : markers.start ≠ "" ∨ markers.stop ≠ "") (reader : Reader) :
    ∃ (input : Input) (regions : List Bytes) (tail : Bytes), Input.start c reader = .ok input ∧
      Divided (.ofText markers.start) (.ofText markers.stop) (outside (.ofText markers.start))
        reader.contents regions tail ∧
      ∀ (schedule : List Nat) (k : κ), Honours markers reader regions tail k
        (extract { input with schedule } k markers c.chunkSize) := by
  have hpos := Pipe.Flow.chunkSize_pos hvalid
  obtain ⟨regions, tail, hdivided⟩ := exists_divided (.ofText markers.start) (.ofText markers.stop)
    reader.contents (outside_spec (.ofText markers.start))
  refine ⟨_, regions, tail, start_of_valid hvalid hresolves hroom reader, hdivided, ?_⟩
  intro schedule k
  have hover := Input.over_start c reader schedule
  exact ⟨fun hsound hk => extracted_of_over hpos hmarkers hover hdivided hsound hk,
    fun e hbroken hcut => error_of_over hpos hmarkers hover hdivided hbroken hcut k⟩

/-- A single pair at the front of its input, behind a read that is interrupted: the queue of two
bytes holds up the worker, so that it is cut short. The same pair, where the reader fails before its
end. -/
theorem honours_of_valid_single :
    let c : Pipe.Settings := { bufferSize := 2, chunkSize := 1 }
    let markers : Marker.Settings := { start := "<", stop := ">", singlePair := true }
    let reader : Reader :=
      [.fails ⟨.interrupted, "again"⟩, .bytes [60, 120, 62, 46, 46, 46, 46, 46]]
    let cut : Reader := [.bytes [60, 120], .fails ⟨.other, "cut"⟩]
    c.validate = .ok () ∧ c.capacity ≤ Pipe.maxCapacity ∧
      (∃ input, Input.start c reader = .ok input ∧ ∀ schedule,
        (extract { input with schedule } collector markers 1).1 = .ok 1 ∧
          collected (extract { input with schedule } collector markers 1).2 = [120]) ∧
      ∃ input, Input.start c cut = .ok input ∧ ∀ schedule,
        (extract { input with schedule } collector markers 1).1 =
          .error ((Failure.ofFault (.producerFailed (Copy.faultOf ⟨.other, "cut"⟩))).during
            "Failed to extract regions") := by
  intro c markers reader cut
  have hvalid : c.validate = .ok () := rfl
  have hroom : c.capacity ≤ Pipe.maxCapacity := by decide
  have hmarkers : markers.start ≠ "" ∨ markers.stop ≠ "" := by decide
  have hresolves : c.resolve false = .ok .dedicated := rfl
  refine ⟨hvalid, hroom, ?_, ?_⟩
  · obtain ⟨input, regions, tail, hstart, hdivided, h⟩ :=
      @honours_of_valid WriterSink _ _ hvalid _ hresolves hroom _ hmarkers reader
    have houtput : handedRegions markers.singlePair regions tail = [120] := by
      rw [← hdivided.extraction_eq markers.singlePair]
      decide +kernel
    refine ⟨input, hstart, fun schedule => ?_⟩
    have hall := (h schedule collector).whole rfl (writable_collector _)
    rw [houtput] at hall
    exact ⟨hall.result, hall.collected_eq⟩
  · obtain ⟨input, regions, tail, hstart, hdivided, h⟩ :=
      @honours_of_valid WriterSink _ _ hvalid _ hresolves hroom _ hmarkers cut
    have hgoing : ((Scanner.new [60] [62] true).feed cut.contents).2.phase ≠ .done := by
      decide +kernel
    have hdone := hdivided.done_iff ne_nil_of_outside (s := .new [60] [62] true)
      (by decide +kernel) (by decide +kernel) (by decide +kernel) rfl
    refine ⟨input, hstart, fun schedule => ?_⟩
    obtain ⟨f, hf, htold⟩ :=
      (h schedule collector).cut _ rfl fun hcomplete => hgoing (hdone.2 hcomplete)
    rw [htold absorbs_collector] at hf
    exact hf

/-- Settings that are valid, and for which no queue can be made. -/
theorem start_of_valid_overflow :
    let c : Pipe.Settings := { bufferSize := 4611686018427387904, chunkSize := 1 }
    c.validate = .ok () ∧ c.resolve false = .ok .dedicated ∧
      ¬ ∃ input, Input.start c [.bytes [60, 120, 62]] = .ok input := by
  intro c
  refine ⟨rfl, rfl, ?_⟩
  rintro ⟨input, hstart⟩
  have hlarge : Input.start c [.bytes [60, 120, 62]] = .error .tooLarge :=
    if_pos (by decide : Pipe.maxCapacity < c.capacity)
  rw [hlarge] at hstart
  cases hstart

end StreamLayers.Command
