import StreamLayers.Command.Measure
import StreamLayers.Proofs.Command.Duplicate
import StreamLayers.Proofs.Replay.Recording

/-!
The probe command from end to end: a reader that a worker copies into a pipe, the replay buffer over
the pipe, the probe over both, and one pass or two.
-/

namespace StreamLayers

namespace Probe

variable {σ : Type}

/-- An open probe that has counted all that was handed out since it last counted nothing, of `all`
bytes with `rest` still to come. `R` says of its source what is left there. -/
structure Counted (R : σ → Bytes → Prop) (all : Bytes) (mark : Option Nat) (p : Probe σ)
    (rest : Bytes) : Prop where
  isOpen : p.closed = false
  source : R p.source rest
  bytes_add : p.bytes + rest.length = all.length
  mark_eq : p.markBytes = mark

variable {R : σ → Bytes → Prop} {all rest : Bytes} {mark : Option Nat} {p q : Probe σ} {n : Nat}

theorem counted_attach {source : σ} (h : R source all) (site : CallSite) :
    Counted R all none (attach source site) all where
  isOpen := rfl
  source := h
  bytes_add := Nat.zero_add _
  mark_eq := rfl

theorem Counted.bytes_eq (h : Counted R all mark p []) : p.bytes = all.length := h.bytes_add

variable [ByteSource σ]

/-- A mark that works at the front of the source counts nothing yet. -/
theorem counted_setMark {source marked : σ} {limit : MarkLimit}
    (hmark : ByteSource.mark source limit = (.ok (), marked)) (h : R marked all) (site : CallSite) :
    ∃ q, (attach source site).setMark limit = (.ok (), q) ∧ q.source = marked ∧
      Counted R all (some 0) q all := by
  refine ⟨{ attach marked site with markBytes := some 0 }, ?_, rfl, rfl, h, Nat.zero_add _, rfl⟩
  unfold setMark
  rw [show ByteSource.mark (attach source site).source limit = _ from hmark]
  rfl

/-- A reset to the front takes back all that was counted. -/
theorem Counted.reset (h : Counted R all (some 0) p rest) {rewound : σ}
    (hreset : ByteSource.reset p.source = (.ok (), rewound)) (hfront : R rewound all) :
    ∃ q, p.reset = (.ok (), q) ∧ Counted R all (some 0) q all := by
  refine ⟨{ p with source := rewound, bytes := 0 }, ?_, h.isOpen, hfront, Nat.zero_add _, h.mark_eq⟩
  unfold Probe.reset
  rw [hreset, h.mark_eq]
  rfl

theorem Counted.close (h : Counted R all mark p rest) {closed : σ}
    (hclose : ByteSource.close p.source = (.ok (), closed)) :
    ∃ q, p.close = (.ok (), q) ∧ q.source = closed := by
  have hopen : ¬ p.closed = true := by simp [h.isOpen]
  refine ⟨{ p with source := closed, closed := true }, ?_, rfl⟩
  unfold Probe.close
  rw [if_neg hopen, hclose]

theorem Counted.read (hserves : Serves R none) (h : Counted R all mark p rest) (hn : 0 < n) :
    Serving (Counted R all mark) none rest n (p.read n) := by
  have hopen : ¬ p.closed = true := by simp [h.isOpen]
  have hread := hserves.read p.source rest n h.source hn
  unfold Probe.read
  rw [if_neg hopen]
  generalize ByteSource.read p.source n = q at hread ⊢
  cases hread with
  | failed used broken next => cases broken
  | ended used sound next =>
    subst used
    exact .ended rfl rfl { h with source := next }
  | @more got later s eq some fits next =>
    have hbytes := h.bytes_add
    rw [eq, List.length_append] at hbytes
    refine .more eq some fits { h with source := next, bytes_add := ?_ }
    show p.bytes + got.length + later.length = all.length
    omega

/-- A probe serves what its source does. -/
theorem serves_counted (hserves : Serves R none) (all : Bytes) (mark : Option Nat) :
    Serves (Counted R all mark) none where
  read _ _ _ h hn := h.read hserves hn
  left p _ h := hserves.left p.source _ h.source

/-- Whoever is told of the end by an open probe was told by its source. -/
theorem source_read_of_told (hopen : p.closed = false) (h : p.read n = (.ok [], q)) :
    ByteSource.read p.source n = (.ok [], q.source) := by
  unfold Probe.read at h
  rw [if_neg (by simp [hopen])] at h
  rcases hr : ByteSource.read p.source n with ⟨e | got, s⟩ <;> rw [hr] at h
  · cases h
  · obtain ⟨hgot, rfl⟩ := Prod.mk.inj h
    obtain rfl := Except.ok.inj hgot
    rfl

end Probe

namespace Command

variable {c : Pipe.Settings} {r : Replay.Settings} {reader : Reader} {input : Input}

theorem validate_replay {c : Settings} (h : c.validate = .ok ()) : c.replay.validate = .ok () := by
  unfold Settings.validate at h
  rcases hreplay : c.replay.validate with e | u
  · rw [hreplay] at h
    cases h
  · rfl

theorem measureOnce_of_over (hpos : 0 < c.chunkSize)
    (hover : Input.Over c reader input reader.contents) (hsound : reader.failure = none) :
    ∃ reads, measureOnce input c.chunkSize =
      .ok { bytes := reader.contents.length, reads, passes := 1, spilled := false } := by
  have hserves := Input.serves hpos reader
  rw [Input.failure, hsound] at hserves
  have hrun := (Probe.serves_counted hserves reader.contents none).readBlocks
    (Probe.counted_attach hover measureSite) hpos
  unfold measureOnce
  generalize ByteSource.readBlocks (Probe.attach input measureSite) c.chunkSize = run at hrun ⊢
  obtain ⟨p, hp, hlast⟩ := hrun.told
  have htold := hp.source.told hpos hpos (Probe.source_read_of_told hp.isOpen hlast)
  have hfinish := hrun.after.source.finish_closed hpos htold hsound false
  rw [Input.finish_close] at hfinish
  refine ⟨run.state.reads, ?_⟩
  simp only [hrun.sound, hfinish, hrun.after.bytes_eq]
  rfl

section Passes

variable {probe marked rewound closed : Probe (Replay Input)}
  {first second : ReadRun (Probe (Replay Input))}
  {chunk : Nat}

theorem measurePasses_of_ok (hmark : probe.setMark .unlimited = (.ok (), marked))
    (hfirst : ByteSource.readBlocks marked chunk = first) (hread : first.failure = none)
    (hreset : first.state.reset = (.ok (), rewound))
    (hsecond : ByteSource.readBlocks rewound chunk = second) (hreread : second.failure = none)
    (hsame : first.data = second.data) (hclose : second.state.close = (.ok (), closed)) :
    measurePasses probe chunk =
      (.ok { bytes := second.state.bytes, reads := second.state.reads, passes := 2
             spilled := first.state.source.store.isSpilled }, closed) := by
  have hlength : ¬ first.data.length ≠ second.data.length := by simp [hsame]
  unfold measurePasses
  rw [hmark]
  dsimp only
  rw [hfirst, hread, hreset]
  dsimp only
  rw [hsecond, hreread]
  dsimp only
  rw [if_neg hlength, hclose]

end Passes

/-- The last read behind a replay buffer is the input's own, since what the buffer kept has been used
up: the input tells of its end, and how much was read. -/
theorem finish_of_exhausted (hpos : 0 < c.chunkSize) (hsound : reader.failure = none)
    (hserves : Serves (Input.Over c reader) none) {threshold mark : Option Nat}
    {run : ReadRun (Probe (Replay Input))}
    (hrun : Exhausted (Probe.Counted (Replay.Recording (Input.Over c reader) threshold
      reader.contents) reader.contents mark) reader.contents c.chunkSize run)
    (stoppedEarly : Bool) :
    Input.finish run.state.source.source.inner.close.2 stoppedEarly =
      .ok (some reader.contents.length) := by
  obtain ⟨p, hp, hlast⟩ := hrun.told
  have hasked := hp.source.source_read_of_told hserves hpos
    (Probe.source_read_of_told hp.isOpen hlast)
  have hlevel := hp.source.source
  rw [hp.source.pulled_eq.2, List.drop_length] at hlevel
  have hdrained := hrun.after.source.source
  rw [hrun.after.source.pulled_eq.2, List.drop_length] at hdrained
  exact hdrained.finish_closed hpos (hlevel.told hpos hpos hasked) hsound stoppedEarly

/-- Both passes get all of the data, and then the input tells of its end. The cache is still whole when
the flag is taken, and nothing of it is left in the end. -/
theorem measureTwice_of_over (hpos : 0 < c.chunkSize) (hvalid : r.validate = .ok ())
    (hover : Input.Over c reader input reader.contents) (hsound : reader.failure = none) :
    ∃ reads store, measureTwice input r true c.chunkSize =
        { result := .ok { bytes := reader.contents.length, reads, passes := 2
                          spilled := r.threshold.any (· < reader.contents.length) }
          store := some store } ∧
      store.holding = (0, false) := by
  have hserves := Input.serves hpos reader
  rw [Input.failure, hsound] at hserves
  have hrecords := Replay.serves_recording hserves r.threshold reader.contents
  have hcounts := Probe.serves_counted hrecords reader.contents (some 0)
  obtain ⟨buffer, front, hnew, hfront, hrecording⟩ := Replay.recording_of_start hvalid hover
  obtain ⟨marked, hmark, -, hmarked⟩ :=
    Probe.counted_setMark hfront hrecording measureSite
  have hfirst := hcounts.readBlocks hmarked hpos
  generalize hread : ByteSource.readBlocks marked c.chunkSize = first at hfirst
  obtain ⟨again, hagain, hrerecording⟩ := hfirst.after.source.reset
  obtain ⟨rewound, hreset, hrewound⟩ := hfirst.after.reset hagain hrerecording
  have hsecond := hcounts.readBlocks hrewound hpos
  generalize hreread : ByteSource.readBlocks rewound c.chunkSize = second at hsecond
  obtain ⟨released, hrelease, hinner, hholding⟩ :=
    hsecond.after.source.close (Pipe.close_ok second.state.source.source.inner)
  obtain ⟨closed, hclose, hsource⟩ := hsecond.after.close hrelease
  have hpasses := measurePasses_of_ok hmark hread hfirst.sound hreset hreread hsecond.sound
    (hfirst.whole.trans hsecond.whole.symm) hclose
  rw [hsecond.after.bytes_eq, hfirst.after.source.isSpilled_eq] at hpasses
  have hended : Input.finish closed.source.source.inner false =
      .ok (some reader.contents.length) := by
    rw [hsource, hinner]
    exact finish_of_exhausted hpos hsound hserves hsecond false
  refine ⟨second.state.reads, closed.source.store, ?_, hsource ▸ hholding⟩
  unfold measureTwice
  rw [hnew]
  dsimp only
  rw [hpasses]
  simp only [hended]
  rfl

/-- What the command says of an input, without replay and with it. -/
structure Measures (r : Replay.Settings) (data : Bytes) (chunk : Nat) (input : Input) : Prop where
  once : ∃ reads, measure input false r true chunk =
    .ok { bytes := data.length, reads, passes := 1, spilled := false }
  twice : ∃ reads store,
    measure input true r true chunk =
      .ok { bytes := data.length, reads, passes := 2
            spilled := r.threshold.any (· < data.length) } ∧
    -- The store that the buffer has let go of holds nothing, neither in memory nor in a file.
    (measureTwice input r true chunk).store = some store ∧ store.holding = (0, false)

/-- Whatever the input is and however its worker and the command take turns, the command measures all
of it, once or twice, and tells whether it was too much for the memory of a replay buffer. -/
theorem measures_of_valid {c : Settings} (hvalid : c.validate = .ok ()) {worker : Pipe.Strategy}
    (hresolves : c.pipe.resolve false = .ok worker) (hroom : c.pipe.capacity ≤ Pipe.maxCapacity)
    {reader : Reader} (hsound : reader.failure = none) :
    ∃ input, Input.start c.pipe reader = .ok input ∧ ∀ schedule : List Nat,
      Measures c.replay reader.contents c.pipe.chunkSize { input with schedule } := by
  obtain ⟨hpipe, -⟩ := validate_parts hvalid
  have hpos := Pipe.Flow.chunkSize_pos hpipe
  refine ⟨_, start_of_valid hpipe hresolves hroom reader, fun schedule => ?_⟩
  have hover := Input.over_start c.pipe reader schedule
  constructor
  · exact measureOnce_of_over hpos hover hsound
  · obtain ⟨reads, store, htwice, hempty⟩ :=
      measureTwice_of_over hpos (validate_replay hvalid) hover hsound
    refine ⟨reads, store, ?_, ?_, hempty⟩
    · simp only [measure, htwice, if_true]
    · simp only [htwice]

/-- Three bytes in chunks of one, with memory for two of them and for all of them. -/
theorem measures_of_valid_boundary :
    let settings (t : Nat) : Settings :=
      { pipe := { bufferSize := 2, chunkSize := 1 }, replay := { threshold := some t } }
    let reader : Reader := [.bytes [97], .fails ⟨.interrupted, "again"⟩, .bytes [98, 99]]
    (∀ t, (settings t).validate = .ok () ∧ (settings t).pipe.resolve false = .ok .dedicated ∧
      (settings t).pipe.capacity ≤ Pipe.maxCapacity) ∧ reader.failure = none ∧
    ∃ input, Input.start (settings 2).pipe reader = .ok input ∧ ∀ schedule,
      (∃ reads, measure { input with schedule } true (settings 2).replay true 1 =
        .ok { bytes := 3, reads, passes := 2, spilled := true }) ∧
      ∃ reads, measure { input with schedule } true (settings 3).replay true 1 =
        .ok { bytes := 3, reads, passes := 2, spilled := false } := by
  intro settings reader
  have hvalid (t : Nat) : (settings t).validate = .ok () := rfl
  have hresolves (t : Nat) : (settings t).pipe.resolve false = .ok .dedicated := rfl
  have hroom (t : Nat) : (settings t).pipe.capacity ≤ Pipe.maxCapacity := by
    show Pipe.Settings.capacity { bufferSize := 2, chunkSize := 1 } ≤ Pipe.maxCapacity
    decide
  have hsound : reader.failure = none := rfl
  refine ⟨fun t => ⟨hvalid t, hresolves t, hroom t⟩, hsound, ?_⟩
  obtain ⟨input, hstart, h⟩ := measures_of_valid (hvalid 2) (hresolves 2) (hroom 2) hsound
  obtain ⟨input', hstart', h'⟩ := measures_of_valid (hvalid 3) (hresolves 3) (hroom 3) hsound
  obtain rfl : input = input' := Except.ok.inj (hstart.symm.trans hstart')
  refine ⟨input, hstart, fun schedule => ⟨?_, ?_⟩⟩
  · obtain ⟨reads, store, hmeasured, -⟩ := (h schedule).twice
    exact ⟨reads, hmeasured⟩
  · obtain ⟨reads, store, hmeasured, -⟩ := (h' schedule).twice
    exact ⟨reads, hmeasured⟩

/-- Settings that are valid, and with which the command never gets as far as to read its input. -/
theorem runProbe_overflow :
    let c : Settings := { pipe := { bufferSize := 4611686018427387904, chunkSize := 1 } }
    c.validate = .ok () ∧ c.pipe.resolve false = .ok .dedicated ∧
      Input.start c.pipe [.bytes [120]] = .error .tooLarge ∧
      ¬ ∃ (machine : Machine) (path : String) (replay : Bool) (format : OutputFormat)
        (styled : Bool) (outcome : Outcome),
        ((runProbe (m := StateM Machine) c path replay format styled).run.run machine).1 =
          .ok outcome := by
  intro c
  have hlarge (reader : Reader) : Input.start c.pipe reader = .error .tooLarge :=
    if_pos (by decide : Pipe.maxCapacity < c.pipe.capacity)
  refine ⟨rfl, rfl, hlarge _, ?_⟩
  rintro ⟨machine, path, replay, format, styled, outcome, hrun⟩
  obtain ⟨stop, hopen⟩ := openInput_of_tooLarge hlarge path machine
  unfold runProbe at hrun
  rw [run_bind, hopen] at hrun
  cases hrun

end Command

end StreamLayers
