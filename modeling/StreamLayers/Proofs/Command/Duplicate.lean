import StreamLayers.Proofs.Command.Extract
import StreamLayers.Proofs.Tee.Serving

/-!
The tee command from end to end: a reader that a worker copies into a pipe, the tee over the pipe,
the outputs beside it, and the standard output that it is pumped into.
-/

namespace StreamLayers

/-- A file behind a buffer. At each write the buffer decides, from what it holds back and what is
written, how many bytes of the two it passes on. -/
structure BufferedFile where
  spills : Bytes → Bytes → Nat
  disk : Bytes := []
  held : Bytes := []
  dropped : Bool := false

namespace BufferedFile

/-- A buffer of `capacity` bytes that passes on what it holds when something does not fit, and does
not hold what would fill it. -/
def spillsFull (capacity : Nat) (held data : Bytes) : Nat :=
  if data.length < capacity - held.length then 0
  else if capacity ≤ data.length then held.length + data.length
  else if capacity - held.length < data.length then held.length
  else 0

/-- Passes on what is held back. -/
def settle (f : BufferedFile) : BufferedFile := { f with disk := f.disk ++ f.held, held := [] }

instance : ByteSink BufferedFile where
  writeAll f data :=
    if f.dropped then (.error (.closed "writer"), f)
    else
      let all := f.held ++ data
      let n := f.spills f.held data
      (.ok (), { f with disk := f.disk ++ all.take n, held := all.drop n })
  flush f := (.ok (), f.settle)
  close f := (.ok (), { f.settle with dropped := true })

/-- An open file that was written `data`, wherever the bytes are. -/
structure Has (f : BufferedFile) (data : Bytes) : Prop where
  isOpen : f.dropped = false
  written : f.disk ++ f.held = data

/-- All of `data` has reached the file. -/
structure OnDisk (f : BufferedFile) (data : Bytes) : Prop where
  disk_eq : f.disk = data
  held_eq : f.held = []

variable {f : BufferedFile} {data : Bytes}

theorem Has.write (h : Has f data) (d : Bytes) :
    (ByteSink.writeAll f d).1 = .ok () ∧ Has (ByteSink.writeAll f d).2 (data ++ d) := by
  have hwrite : ByteSink.writeAll f d = (.ok (), { f with
      disk := f.disk ++ (f.held ++ d).take (f.spills f.held d)
      held := (f.held ++ d).drop (f.spills f.held d) }) := by
    simp [ByteSink.writeAll, h.isOpen]
  rw [hwrite]
  constructor
  · rfl
  · exact ⟨h.isOpen, by simp [← h.written]⟩

theorem Has.writes (h : Has f data) (blocks : List Bytes) :
    Has (afterWrites ByteSink.writeAll f blocks) (data ++ blocks.flatten) := by
  induction blocks generalizing f data with
  | nil => simpa [afterWrites] using h
  | cons d rest ih =>
    have hrest := ih (h.write d).2
    simpa [afterWrites] using hrest

theorem Has.flush (h : Has f data) : Has (ByteSink.flush f).2 data :=
  ⟨h.isOpen, (List.append_nil _).trans h.written⟩

theorem Has.close (h : Has f data) : OnDisk (ByteSink.close f).2 data := ⟨h.written, rfl⟩

theorem Has.release (h : Has f data) (closeSinks : Bool) :
    (Tee.release closeSinks f).1 = .ok () ∧ OnDisk (Tee.release closeSinks f).2 data := by
  cases closeSinks with
  | true => exact ⟨rfl, h.close⟩
  | false => exact ⟨rfl, h.written, rfl⟩

theorem Has.takes (h : Has f []) (data : Bytes) : Takes ByteSink.writeAll f data :=
  .of_invariant (Q := fun f => ∃ got, Has f got)
    (fun _ d ⟨_, hf⟩ => ⟨(hf.write d).1, _, (hf.write d).2⟩) ⟨_, h⟩ data

end BufferedFile

namespace Command

variable {κ τ : Type} [ByteSink κ] [ByteSink τ]

/-- A sink that `data` can be written to, and that can be let go of then. -/
structure Keeps (closeSinks : Bool) (k : κ) (data : Bytes) : Prop where
  takes : Takes ByteSink.writeAll k data
  releases : ∀ blocks, [] ∉ blocks → blocks.flatten = data →
    (Tee.release closeSinks (afterWrites ByteSink.writeAll k blocks)).1 = .ok ()

/-- Sinks that `data` can be duplicated to. -/
structure Accept (closeSinks : Bool) (outputs : List κ) (standard : τ) (data : Bytes) : Prop where
  outputs : ∀ k ∈ outputs, Keeps closeSinks k data
  standard : Writable standard data

/-- The command succeeded: it tells how much there was, every output was written just that and then
let go of, and the standard output was written just that, flushed and closed. -/
structure Copied (closeSinks : Bool) (outputs : List κ) (standard : τ) (data : Bytes)
    (r : Duplicated κ τ) : Prop where
  result : r.result = .ok data.length
  kept : ∃ blocks, [] ∉ blocks ∧ blocks.flatten = data ∧ r.outputs =
    outputs.map fun k => (Tee.release closeSinks (afterWrites ByteSink.writeAll k blocks)).2
  printed : ∃ blocks, [] ∉ blocks ∧ blocks.flatten = data ∧ r.standard =
    (ByteSink.close (ByteSink.flush (afterWrites ByteSink.writeAll standard blocks)).2).2

/-- What the command owes whoever runs it on a reader. -/
structure Mirrors (closeSinks : Bool) (reader : Reader) (outputs : List κ) (standard : τ)
    (r : Duplicated κ τ) : Prop where
  whole : reader.failure = none → Accept closeSinks outputs standard reader.contents →
    Copied closeSinks outputs standard reader.contents r
  /-- A reader that fails makes the command fail, and is what it reports if the sinks refuse
  nothing. -/
  cut : ∀ e, reader.failure = some e →
    ∃ f, r.result = .error ((Failure.ofFault f).during "Failed to duplicate input") ∧
      (Accept closeSinks outputs standard reader.contents → f = .producerFailed (Copy.faultOf e))

section Steps

variable {input : Input} {outputs : List κ} {standard : τ} {t : Tee.Settings} {chunk : Nat}
  {tee closed : Tee κ Input} {run : Pumped (Tee κ Input) τ}

theorem duplicate_of_error (ht : Tee.ofSettings input outputs t = .ok tee)
    (hrun : pump tee standard chunk = run) {e : Fault} (he : run.result = .error e) :
    (duplicate input outputs standard t chunk).result =
      .error ((Failure.ofFault e).during "Failed to duplicate input") := by
  unfold duplicate
  rw [ht]
  dsimp only
  rw [hrun, he]

theorem duplicate_of_ok (ht : Tee.ofSettings input outputs t = .ok tee)
    (hrun : pump tee standard chunk = run) {copied : Nat} (hok : run.result = .ok copied)
    (htee : run.source.close = (.ok (), closed)) (hclose : (ByteSink.close run.sink).1 = .ok ())
    {read : Option Nat} (hfinish : closed.source.finish false = .ok read) :
    duplicate input outputs standard t chunk =
      ⟨.ok copied, closed.outlets.map Outlet.sink, (ByteSink.close run.sink).2⟩ := by
  have hclosed : ByteSink.close run.sink = (.ok (), (ByteSink.close run.sink).2) :=
    Prod.ext hclose rfl
  unfold duplicate
  rw [ht]
  dsimp only
  rw [hrun, hok, htee, hclosed]
  dsimp only
  rw [hfinish]
  rfl

end Steps

section Outcomes

variable {c : Pipe.Settings} {t : Tee.Settings} {reader : Reader} {input : Input} {outputs : List κ}
  {standard : τ}

theorem pouring_of_over (hpos : 0 < c.chunkSize)
    (hover : Input.Over c reader input reader.contents)
    (haccept : Accept t.closeSinks outputs standard reader.contents) :
    Pouring (Tee.Forwards (Input.Over c reader) outputs t reader.contents) (Input.failure reader)
      reader.contents c.chunkSize standard 0
      (pump (Tee.ofSinks input outputs t) standard c.chunkSize) := by
  have hserves := Input.serves hpos reader
  have hstart := Tee.forwards_ofSinks (c := t) hover fun k hk => (haccept.outputs k hk).takes
  exact (Tee.serves_forwards hserves outputs t reader.contents).pump hstart hpos standard

theorem copied_of_over (hpos : 0 < c.chunkSize) (hvalid : t.validate = .ok ())
    (hover : Input.Over c reader input reader.contents) (hsound : reader.failure = none)
    (hsome : outputs ≠ []) (haccept : Accept t.closeSinks outputs standard reader.contents) :
    Copied t.closeSinks outputs standard reader.contents
      (duplicate input outputs standard t c.chunkSize) := by
  have hpour := pouring_of_over hpos hover haccept
  rw [Input.failure, hsound] at hpour
  generalize hrun : pump (Tee.ofSinks input outputs t) standard c.chunkSize = run at hpour
  cases hpour with
  | failed broken => cases broken
  | refused refuses => exact absurd haccept.standard.toAbsorbs refuses
  | @poured printed u s sound hprinted hnonempty before last after =>
    obtain ⟨blocks, hblocks, hall, houtlets⟩ := after.written
    rw [List.append_nil] at hall
    have hsettled : Input.Settled c reader s.source :=
      ⟨after.source, before.source.told hpos hpos (Tee.source_read_of_told before.isOpen last)⟩
    have hreleases : ∀ o ∈ s.outlets, (Tee.release s.settings.closeSinks o.sink).1 = .ok () := by
      intro o ho
      rw [houtlets] at ho
      obtain ⟨k, hk, rfl⟩ := List.mem_map.1 ho
      rw [after.settings_eq]
      exact (haccept.outputs k hk).releases blocks hblocks hall.symm
    obtain ⟨q, hq, hclose⟩ := Tee.close_of_dry (Q := Input.Settled c reader)
      (fun _ _ h hn => h.read hpos hsound hn) (fun p _ => p.close_ok) after.isOpen
      (after.settings_eq ▸ hvalid) hsettled hreleases
    have hfinish := hq.drained.finish_closed hpos hq.told hsound false
    rw [duplicate_of_ok (Tee.ofSettings_of_valid hvalid input hsome) hrun rfl hclose
      (haccept.standard.closes printed hnonempty hprinted) hfinish]
    refine ⟨congrArg _ (Nat.zero_add _), ⟨blocks, hblocks, hall.symm, ?_⟩,
      ⟨printed, hnonempty, hprinted, rfl⟩⟩
    simp [houtlets, after.settings_eq, Tee.ended_eq, Function.comp_def]

theorem cut_of_over (hpos : 0 < c.chunkSize) (hvalid : t.validate = .ok ())
    (hover : Input.Over c reader input reader.contents) {e : OsError}
    (hbroken : reader.failure = some e) (hsome : outputs ≠ []) (standard : τ) :
    ∃ f, (duplicate input outputs standard t c.chunkSize).result =
        .error ((Failure.ofFault f).during "Failed to duplicate input") ∧
      (Accept t.closeSinks outputs standard reader.contents →
        f = .producerFailed (Copy.faultOf e)) := by
  have hfailure : Input.failure reader = some (.producerFailed (Copy.faultOf e)) := by
    rw [Input.failure, hbroken]
    rfl
  have hserves := Input.serves hpos reader
  rw [hfailure] at hserves
  have htee := Tee.ofSettings_of_valid hvalid input hsome
  obtain ⟨f, hf⟩ := pump_of_going (s := Tee.ofSinks input outputs t)
    (R := fun (t : Tee κ Input) data => t.closed = false ∧ Input.Over c reader t.source data)
    (fun _ _ _ h hn => Tee.going_of_broken hserves h.1 h.2 hn)
    (fun t data h => hserves.left t.source data h.2) ⟨rfl, hover⟩ hpos standard
  refine ⟨f, duplicate_of_error htee rfl hf, fun haccept => ?_⟩
  have hpour := pouring_of_over hpos hover haccept
  rw [hfailure] at hpour
  generalize pump (Tee.ofSinks input outputs t) standard c.chunkSize = run at hpour hf
  cases hpour with
  | poured sound whole some before last after => cases sound
  | failed broken =>
    obtain rfl := Except.error.inj hf
    exact (Option.some.inj broken).symm
  | refused refuses => exact absurd haccept.standard.toAbsorbs refuses

end Outcomes

section Files

variable {closeSinks : Bool} {files : List BufferedFile} {standard : BufferedFile} {data : Bytes}

theorem accept_files (hfiles : ∀ f ∈ files, f.Has []) (hstandard : standard.Has []) (data : Bytes) :
    Accept closeSinks files standard data where
  outputs f hf := by
    refine ⟨(hfiles f hf).takes data, fun blocks _ _ => ?_⟩
    exact (((hfiles f hf).writes blocks).release closeSinks).1
  standard := { takes := hstandard.takes data, flushes := fun _ _ _ => rfl, closes := fun _ _ _ => rfl }

/-- The data is in every file, and nothing is held back. -/
structure Saved (data : Bytes) (r : Duplicated BufferedFile BufferedFile) : Prop where
  result : r.result = .ok data.length
  outputs : ∀ f ∈ r.outputs, f.OnDisk data
  standard : r.standard.OnDisk data

theorem Copied.saved {r : Duplicated BufferedFile BufferedFile} (hfiles : ∀ f ∈ files, f.Has [])
    (hstandard : standard.Has []) (h : Copied closeSinks files standard data r) :
    r.outputs.length = files.length ∧ Saved data r := by
  obtain ⟨blocks, -, hall, houtputs⟩ := h.kept
  obtain ⟨printed, -, hprinted, hsink⟩ := h.printed
  refine ⟨by rw [houtputs, List.length_map], h.result, ?_, ?_⟩
  · intro f hf
    rw [houtputs] at hf
    obtain ⟨k, hk, rfl⟩ := List.mem_map.1 hf
    rw [← hall]
    exact (((hfiles k hk).writes blocks).release closeSinks).2
  · rw [hsink, ← hprinted]
    exact (hstandard.writes printed).flush.close

end Files

/-- A step that is followed by others runs first, and they run where it leaves off. -/
theorem run_bind {α β : Type} (x : ExceptT Stop (StateM Machine) α)
    (f : α → ExceptT Stop (StateM Machine) β) (s : Machine) :
    (x >>= f).run.run s = (ExceptT.bindCont f (x.run.run s).1).run (x.run.run s).2 := rfl

theorem openInput_of_tooLarge {c : Pipe.Settings}
    (h : ∀ reader, Input.start c reader = .error .tooLarge) (path : String) (s : Machine) :
    ∃ stop, (openInput (m := StateM Machine) path c).run.run s = (.error stop, s) := by
  unfold openInput
  simp only [h]
  split
  · exact ⟨.crashed, rfl⟩
  · have hfind : (Host.find path : ExceptT Stop (StateM Machine) _).run.run s =
        (.ok (s.files.find path), s) := rfl
    rw [run_bind, hfind]
    cases s.files.find path with
    | error e => exact ⟨_, rfl⟩
    | ok entry => exact ⟨.crashed, rfl⟩

theorem validate_parts {c : Settings} (h : c.validate = .ok ()) :
    c.pipe.validate = .ok () ∧ c.tee.validate = .ok () := by
  unfold Settings.validate at h
  rcases hreplay : c.replay.validate with e | u <;> rw [hreplay] at h
  · cases h
  rcases hpipe : c.pipe.validate with e | u <;> rw [hpipe] at h
  · cases h
  rcases htee : c.tee.validate with e | u <;> rw [htee] at h
  · cases h
  · exact ⟨rfl, rfl⟩

/-- Whatever the input is and however its worker and the command take turns, the command gives every
sink just the contents, whether it closes the outputs or flushes them, and does not pass over a failure
to read them; files behind buffers have everything then. -/
theorem mirrors_of_valid {c : Settings} (hvalid : c.validate = .ok ()) {worker : Pipe.Strategy}
    (hresolves : c.pipe.resolve false = .ok worker)
    (hroom : c.pipe.capacity ≤ Pipe.maxCapacity) (reader : Reader) :
    ∃ input, Input.start c.pipe reader = .ok input ∧ ∀ (schedule : List Nat) (keepOpen : Bool),
      let t := { c.tee with closeSinks := c.tee.closeSinks && !keepOpen }
      (∀ (outputs : List κ) (standard : τ), outputs ≠ [] →
        Mirrors t.closeSinks reader outputs standard
          (duplicate { input with schedule } outputs standard t c.pipe.chunkSize)) ∧
      ∀ (files : List BufferedFile) (standard : BufferedFile), files ≠ [] →
        (∀ f ∈ files, f.Has []) → standard.Has [] → reader.failure = none →
          let r := duplicate { input with schedule } files standard t c.pipe.chunkSize
          r.outputs.length = files.length ∧ Saved reader.contents r := by
  obtain ⟨hpipe, htee⟩ := validate_parts hvalid
  have hpos := Pipe.Flow.chunkSize_pos hpipe
  refine ⟨_, start_of_valid hpipe hresolves hroom reader, fun schedule keepOpen => ?_⟩
  intro t
  have hover := Input.over_start c.pipe reader schedule
  have hsettings : t.validate = .ok () := htee
  constructor
  · intro outputs standard hsome
    exact ⟨fun hsound haccept => copied_of_over hpos hsettings hover hsound hsome haccept,
      fun e hbroken => cut_of_over hpos hsettings hover hbroken hsome standard⟩
  · intro files standard hsome hfiles hstandard hsound
    have haccept : Accept t.closeSinks files standard reader.contents :=
      accept_files hfiles hstandard _
    exact (copied_of_over hpos hsettings hover hsound hsome haccept).saved hfiles hstandard

/-- Two files behind buffers of different sizes that are not closed, one of which would hold all of the
data back; and a reader that fails behind its second byte. -/
theorem mirrors_of_valid_kept_open :
    let c : Settings :=
      { pipe := { bufferSize := 2, chunkSize := 1 }, tee := { closeSinks := false, drainChunk := 3 } }
    let reader : Reader := [.bytes [97], .fails ⟨.interrupted, "again"⟩, .bytes [98, 99]]
    let cut : Reader := [.bytes [97, 98], .fails ⟨.other, "cut"⟩]
    let files : List BufferedFile :=
      [{ spills := BufferedFile.spillsFull 8192 }, { spills := BufferedFile.spillsFull 2 }]
    let standard : BufferedFile := { spills := BufferedFile.spillsFull 1024 }
    let broken := Fault.producerFailed (Copy.faultOf ⟨.other, "cut"⟩)
    c.validate = .ok () ∧ c.pipe.resolve false = .ok .dedicated ∧
      c.pipe.capacity ≤ Pipe.maxCapacity ∧
      (∃ input, Input.start c.pipe reader = .ok input ∧ ∀ schedule keepOpen,
        Saved [97, 98, 99] (duplicate { input with schedule } files standard
          { c.tee with closeSinks := c.tee.closeSinks && !keepOpen } 1)) ∧
      ∃ input, Input.start c.pipe cut = .ok input ∧ ∀ schedule keepOpen,
        (duplicate { input with schedule } files standard
          { c.tee with closeSinks := c.tee.closeSinks && !keepOpen } 1).result =
            .error ((Failure.ofFault broken).during "Failed to duplicate input") := by
  intro c reader cut files standard broken
  have hvalid : c.validate = .ok () := rfl
  have hresolves : c.pipe.resolve false = .ok .dedicated := rfl
  have hroom : c.pipe.capacity ≤ Pipe.maxCapacity := by decide
  have hsome : files ≠ [] := List.cons_ne_nil _ _
  have hfiles : ∀ f ∈ files, f.Has [] := by
    simp only [files, List.forall_mem_cons]
    exact ⟨⟨rfl, rfl⟩, ⟨rfl, rfl⟩, nofun⟩
  have hstandard : standard.Has [] := ⟨rfl, rfl⟩
  refine ⟨hvalid, hresolves, hroom, ?_, ?_⟩
  · obtain ⟨input, hstart, h⟩ :=
      @mirrors_of_valid BufferedFile BufferedFile _ _ c hvalid _ hresolves hroom reader
    refine ⟨input, hstart, fun schedule keepOpen => ?_⟩
    exact ((h schedule keepOpen).2 files standard hsome hfiles hstandard rfl).2
  · obtain ⟨input, hstart, h⟩ :=
      @mirrors_of_valid BufferedFile BufferedFile _ _ c hvalid _ hresolves hroom cut
    refine ⟨input, hstart, fun schedule keepOpen => ?_⟩
    obtain ⟨f, hf, htold⟩ := ((h schedule keepOpen).1 files standard hsome).cut _ rfl
    rw [htold (accept_files hfiles hstandard _)] at hf
    exact hf

/-- Settings that are valid, and with which the command never gets as far as to read its input. -/
theorem runTee_overflow :
    let c : Settings := { pipe := { bufferSize := 4611686018427387904, chunkSize := 1 } }
    c.validate = .ok () ∧ c.pipe.resolve false = .ok .dedicated ∧
      Input.start c.pipe [.bytes [120]] = .error .tooLarge ∧
      ¬ ∃ (machine : Machine) (path : String) (outputs : List String) (keepOpen : Bool)
        (outcome : Outcome),
        ((runTee (m := StateM Machine) c path outputs keepOpen).run.run machine).1 = .ok outcome := by
  intro c
  have hlarge (reader : Reader) : Input.start c.pipe reader = .error .tooLarge :=
    if_pos (by decide : Pipe.maxCapacity < c.pipe.capacity)
  refine ⟨rfl, rfl, hlarge _, ?_⟩
  rintro ⟨machine, path, outputs, keepOpen, outcome, hrun⟩
  obtain ⟨stop, hopen⟩ := openInput_of_tooLarge hlarge path machine
  unfold runTee at hrun
  rw [run_bind, hopen] at hrun
  cases hrun

end Command

end StreamLayers
