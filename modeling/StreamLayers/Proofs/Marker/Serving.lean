import StreamLayers.Proofs.Marker.Reads
import StreamLayers.Proofs.Serving

/-!
A marker source over a source that may fail behind its data. It fails as that source does, unless
the extraction is complete before: then it ends, and what the source does behind its data is not seen.
-/

namespace StreamLayers

namespace Scanner

variable {s : Scanner} {data : Bytes}

/-- How a scanner ends on data behind which there is the end, or that failure. -/
def fate (s : Scanner) (failure : Option Fault) (data : Bytes) : Option Fault :=
  if (s.feed data).2.phase = .done then none else failure

/-- All that it hands out: where it fails, what it holds back is lost. -/
def passes (s : Scanner) (failure : Option Fault) (data : Bytes) : Bytes :=
  match s.fate failure data with
  | none => s.output data
  | some _ => (s.feed data).1

variable {failure : Option Fault}

theorem fate_done (hp : s.phase = .done) (data : Bytes) : s.fate failure data = none := by
  refine if_pos ?_
  rw [feed_done hp]
  exact hp

theorem fate_nil (hp : s.phase ≠ .done) : s.fate failure [] = failure := if_neg hp

theorem passes_sound (h : s.fate failure data = none) : s.passes failure data = s.output data := by
  rw [passes, h]

theorem passes_done (hp : s.phase = .done) (data : Bytes) : s.passes failure data = s.window := by
  rw [passes_sound (fate_done hp data), output_done hp]

theorem length_passes_le (s : Scanner) (failure : Option Fault) (data : Bytes) :
    (s.passes failure data).length ≤ s.window.length + data.length := by
  have hall := s.length_output_le data
  unfold passes
  split
  · exact hall
  · rw [output, List.length_append] at hall
    omega

/-- Passing on goes on where a scan stopped. -/
theorem passes_scan (s : Scanner) (failure : Option Fault) (room : Nat) (input more : Bytes) :
    s.fate failure (input ++ more) =
        (s.scan room input).2.2.fate failure ((s.scan room input).2.1 ++ more) ∧
      s.passes failure (input ++ more) = (s.scan room input).1 ++
        (s.scan room input).2.2.passes failure ((s.scan room input).2.1 ++ more) := by
  have hfeed := s.feed_scan room input more
  have hfate : s.fate failure (input ++ more) =
      (s.scan room input).2.2.fate failure ((s.scan room input).2.1 ++ more) := by
    simp only [fate, hfeed]
  refine ⟨hfate, ?_⟩
  unfold passes
  rw [hfate]
  split
  · simp only [output, hfeed, List.append_assoc]
  · rw [hfeed]

end Scanner

/-- A scanner comes to its end within the data just if its first region is the last, and closed. -/
theorem Divided.done_iff {start stop data tail : Bytes} {phase : ScanPhase}
    {regions : List Bytes} (h : Divided start stop phase data regions tail)
    (hseek : phase = .seeking → start ≠ []) {s : Scanner} (hstart : s.start = start)
    (hstop : s.stop = stop) (hp : s.phase = phase) (hw : s.window = []) :
    (s.feed data).2.phase = .done ↔ s.singlePair = true ∧ regions ≠ [] := by
  induction h generalizing s with
  | barren absent =>
    have hne := hseek rfl
    obtain ⟨w, hfeed⟩ := Scanner.feed_barren (s := s) hp (by simp [hw]) (by simp [hw, hstart, hne])
      (by simpa [hw, hstart] using absent)
    simp [hfeed, hp]
  | opened found rest ih =>
    have hne := hseek rfl
    have hfeed := Scanner.feed_opened (s := s) hp (by simp [hw]) (by simp [hw, hstart, hne])
      (by simpa [hw, hstart] using found)
    rw [hfeed]
    exact ih nofun (s := { s with window := [], phase := .copying }) hstart hstop rfl rfl
  | endless always =>
    rw [Scanner.feed_endless hp (hstop.trans always)]
    simp [hp]
  | unclosed ends absent =>
    subst hstop
    obtain ⟨w, hscanner, -⟩ := Scanner.feed_unclosed (s := s) hp ends
      (by simpa [hw] using List.length_pos_iff.2 ends) (by simpa [hw] using absent)
    rw [hscanner]
    simp [hp]
  | closed ends found rest ih =>
    subst hstop
    have hfeed := Scanner.feed_closed (s := s) hp ends
      (by simpa [hw] using List.length_pos_iff.2 ends) (by simpa [hw] using found)
    rw [hfeed]
    cases hpair : s.singlePair with
    | true =>
      have hdone : s.endRegion.phase = .done := by simp [Scanner.endRegion, hpair]
      simp [Scanner.feed_done hdone, hdone]
    | false =>
      have hrest := ih ne_nil_of_outside (s := s.endRegion) hstart rfl
        (by simp [Scanner.endRegion, hpair, hstart, entry_eq]) rfl
      have hkept : s.endRegion.singlePair = false := hpair
      dsimp only
      rw [hrest, hkept]
      simp

theorem Divided.fate_eq {start stop data tail : Bytes} {regions : List Bytes}
    (h : Divided start stop (outside start) data regions tail) (singlePair : Bool)
    (failure : Option Fault) :
    (Scanner.new start stop singlePair).fate failure data =
      if singlePair = true ∧ regions ≠ [] then none else failure := by
  have hdone := h.done_iff ne_nil_of_outside (s := .new start stop singlePair) rfl rfl
    (entry_eq start) rfl
  simp only [Scanner.fate, hdone]
  rfl

theorem Divided.passes_eq {start stop data tail : Bytes} {regions : List Bytes}
    (h : Divided start stop (outside start) data regions tail) {singlePair : Bool}
    {failure : Option Fault}
    (hsound : (Scanner.new start stop singlePair).fate failure data = none) :
    (Scanner.new start stop singlePair).passes failure data =
      handedRegions singlePair regions tail := by
  rw [Scanner.passes_sound hsound]
  exact (h.scanned ne_nil_of_outside (s := .new start stop singlePair) rfl rfl
    (entry_eq start) rfl).1

namespace Marker

section Answers

variable {σ : Type}

theorem passes_answer (m : Marker σ) (n : Nat) (failure : Option Fault) (more : Bytes) :
    (m.answer n).2.scanner.fate failure ((m.answer n).2.input ++ more) =
        m.scanner.fate failure (m.input ++ more) ∧
      m.scanner.passes failure (m.input ++ more) = (m.answer n).1.getD [] ++
        (m.answer n).2.scanner.passes failure ((m.answer n).2.input ++ more) := by
  obtain ⟨hfate, hpasses⟩ := m.scanner.passes_scan failure n m.input more
  unfold answer
  rcases hs : m.scanner.scan n m.input with ⟨out, input, t⟩
  rw [hs] at hfate hpasses
  dsimp only at hfate hpasses ⊢
  rw [hfate, hpasses]
  split
  · rename_i hdone
    have hdone' : (t.takeTail (n - out.length)).2.phase = .done := hdone
    rw [Scanner.fate_done hdone, Scanner.fate_done hdone', Scanner.passes_done hdone,
      Scanner.passes_done hdone']
    refine ⟨rfl, ?_⟩
    rw [Option.getD_some, List.append_assoc]
    exact congrArg (out ++ ·) (List.take_append_drop _ t.window).symm
  · split
    · exact ⟨rfl, rfl⟩
    · rename_i hmore
      have hout : out = [] := by simpa using (not_or.1 hmore).2
      exact ⟨rfl, by rw [hout]; rfl⟩

/-- The source has to be read only before the scanner is done. -/
theorem phase_of_answer_none {m : Marker σ} {n : Nat} :
    (m.answer n).1 = none → (m.answer n).2.scanner.phase ≠ .done := by
  unfold answer
  rcases m.scanner.scan n m.input with ⟨out, input, t⟩
  dsimp only
  split
  · exact nofun
  · rename_i hlive
    split
    · exact nofun
    · exact fun _ => hlive

end Answers

variable {σ : Type} {R : σ → Bytes → Prop} {failure fate : Option Fault} {m : Marker σ}
  {rest data : Bytes} {n : Nat}

/-- An open marker source over a source with `rest` left: what it still hands out, and how it
ends. -/
structure Relays (R : σ → Bytes → Prop) (failure fate : Option Fault) (m : Marker σ)
    (rest data : Bytes) : Prop where
  isOpen : m.closed = false
  source : R m.source rest
  passes : data = m.scanner.passes failure (m.input ++ rest)
  ends : m.scanner.fate failure (m.input ++ rest) = fate

/-- What is left of the data of a marker source, whatever is left of that of its source. -/
def Relaying (R : σ → Bytes → Prop) (failure fate : Option Fault) (m : Marker σ) (data : Bytes) :
    Prop := ∃ rest, Relays R failure fate m rest data

/-- The answer to a read of a marker source that is done where the answer is empty. -/
structure Relayed (R : σ → Bytes → Prop) (failure fate : Option Fault) (data : Bytes) (n : Nat)
    (r : Except Fault Bytes) (m : Marker σ) : Prop where
  serving : Serving (Relaying R failure fate) fate data n (r, m)
  done : r = .ok [] → m.isDone = true

/-- What reading at most `fuel` blocks comes to: an answer, or that many bytes fewer in the
source. -/
inductive Dug (R : σ → Bytes → Prop) (failure fate : Option Fault) (rest data : Bytes)
    (n fuel : Nat) : Option (Except Fault Bytes) × Marker σ → Prop where
  | found {r : Except Fault Bytes} {m : Marker σ} (relayed : Relayed R failure fate data n r m) :
      Dug R failure fate rest data n fuel (some r, m)
  | starved {m : Marker σ} {later : Bytes} (relays : Relays R failure fate m later data)
      (used : m.input = []) (live : m.scanner.phase ≠ .done)
      (fewer : later.length + fuel ≤ rest.length) : Dug R failure fate rest data n fuel (none, m)

theorem Relays.answer_some (h : Relays R failure fate m rest data) (hn : 0 < n) {got : Bytes}
    (ha : (m.answer n).1 = some got) : Relayed R failure fate data n (.ok got) (m.answer n).2 := by
  obtain ⟨hsource, hclosed⟩ := m.answer_frame n
  obtain ⟨-, -, -, hdone⟩ := m.answer_output n rest
  obtain ⟨hfate, hpasses⟩ := m.passes_answer n failure rest
  have hfits := m.length_answer_le n
  rw [ha] at hpasses hfits hdone
  have hsplit := h.passes.trans hpasses
  have hnext : Relays R failure fate (m.answer n).2 rest _ :=
    ⟨hclosed.trans h.isOpen, hsource ▸ h.source, rfl, hfate.trans h.ends⟩
  cases got with
  | cons b d =>
    exact ⟨.more hsplit (List.cons_ne_nil b d) hfits ⟨rest, hnext⟩, fun hnil => by cases hnil⟩
  | nil =>
    have hend := hdone hn rfl
    obtain ⟨hp, hw⟩ := isDone_iff.1 hend
    have hsound : fate = none := hnext.ends.symm.trans (Scanner.fate_done hp _)
    rw [Scanner.passes_done hp, hw] at hsplit hnext
    exact ⟨.ended hsplit hsound ⟨rest, hnext⟩, fun _ => hend⟩

theorem Relays.answer_none (h : Relays R failure fate m rest data) (ha : (m.answer n).1 = none) :
    Relays R failure fate (m.answer n).2 rest data ∧ (m.answer n).2.input = [] := by
  obtain ⟨hsource, hclosed⟩ := m.answer_frame n
  obtain ⟨-, -, hused, -⟩ := m.answer_output n rest
  obtain ⟨hfate, hpasses⟩ := m.passes_answer n failure rest
  rw [ha] at hpasses hused
  exact ⟨⟨hclosed.trans h.isOpen, hsource ▸ h.source, h.passes.trans hpasses,
    hfate.trans h.ends⟩, hused rfl⟩

/-- The source has ended: what is held back is handed out, and that is all. -/
theorem Relays.finish {s : σ} (h : Relays R none fate m [] data) (hinput : m.input = [])
    (hn : 0 < n) (next : R s []) :
    Relayed R none fate data n (.ok (m.scanner.finish.takeTail n).1)
      { m with source := s, scanner := (m.scanner.finish.takeTail n).2 } := by
  have hp : (m.scanner.finish.takeTail n).2.phase = .done := rfl
  have hsound : fate = none := h.ends.symm.trans (ite_self none)
  have hpasses := h.passes
  rw [hinput, Scanner.passes_sound (ite_self none)] at hpasses
  have hsplit : data = (m.scanner.finish.takeTail n).1 ++ (m.scanner.finish.takeTail n).2.window :=
    hpasses.trans (List.take_append_drop n _).symm
  have hnext : Relays R none fate
      { m with source := s, scanner := (m.scanner.finish.takeTail n).2 } []
      (m.scanner.finish.takeTail n).2.window :=
    ⟨h.isOpen, next, (Scanner.passes_done hp _).symm,
      (Scanner.fate_done hp _).trans hsound.symm⟩
  rcases hgot : (m.scanner.finish.takeTail n).1 with _ | ⟨b, d⟩
  · have hw := window_of_takeTail hn hgot
    rw [hgot, hw] at hsplit
    rw [hw] at hnext
    exact ⟨.ended hsplit hsound ⟨[], hnext⟩, fun _ => isDone_iff.2 ⟨hp, hw⟩⟩
  · have hfits : (m.scanner.finish.takeTail n).1.length ≤ n := List.length_take_le n _
    rw [hgot] at hsplit hfits
    exact ⟨.more hsplit (List.cons_ne_nil b d) hfits ⟨[], hnext⟩, fun hnil => by cases hnil⟩

variable [ByteSource σ]

theorem Relays.fetch (hserves : Serves R failure) (h : Relays R failure fate m rest data)
    (hinput : m.input = []) (hlive : m.scanner.phase ≠ .done) (hn : 0 < n) (fuel : Nat) :
    Dug R failure fate rest data n fuel (m.fetch n fuel) := by
  induction fuel generalizing m rest with
  | zero => exact .starved h hinput hlive (Nat.le_refl _)
  | succ fuel ih =>
    have hread := hserves.read m.source rest defaultChunk h.source (by decide)
    unfold Marker.fetch
    generalize ByteSource.read m.source defaultChunk = q at hread ⊢
    cases hread with
    | @failed e s used broken next =>
      subst used
      have hfate : failure = fate := by
        rw [← h.ends, hinput, List.append_nil, Scanner.fate_nil hlive]
      have hnone : data = [] := by
        rw [h.passes, hinput, List.append_nil, Scanner.passes, Scanner.fate_nil hlive, broken]
        rfl
      have hnext : Relays R failure fate { m with source := s } [] [] :=
        ⟨h.isOpen, next, hnone ▸ h.passes, h.ends⟩
      exact .found ⟨.failed hnone (hfate ▸ broken) ⟨[], hnext⟩, fun hnil => by cases hnil⟩
    | @ended s used sound next =>
      subst used sound
      exact .found (h.finish hinput hn next)
    | @more got later s eq some fits next =>
      obtain ⟨b, d, rfl⟩ := List.exists_cons_of_ne_nil some
      subst eq
      have hpulled : Relays R failure fate { m with source := s, input := b :: d } later data := by
        have hpasses := h.passes
        have hfate := h.ends
        rw [hinput] at hpasses hfate
        exact ⟨h.isOpen, next, hpasses, hfate⟩
      dsimp only
      rcases ha : ({ m with source := s, input := b :: d } : Marker σ).answer n with ⟨_ | out, m₁⟩
      · obtain ⟨hrelays, hused⟩ := hpulled.answer_none (n := n) (by rw [ha])
        have hstill := phase_of_answer_none (congrArg Prod.fst ha)
        rw [ha] at hrelays hused hstill
        have hmore := ih hrelays hused hstill
        dsimp only
        generalize Marker.fetch n fuel m₁ = q at hmore ⊢
        cases hmore with
        | found relayed => exact .found relayed
        | starved relays used live fewer =>
          -- The block got at least one byte, which pays for the block.
          refine .starved relays used live ?_
          rw [List.length_append, List.length_cons]
          omega
      · have hanswer := hpulled.answer_some hn (congrArg Prod.fst ha)
        rw [ha] at hanswer
        exact .found hanswer

theorem Relays.read (hserves : Serves R failure) (h : Relays R failure fate m rest data)
    (hn : 0 < n) : Relayed R failure fate data n (m.read n).1 (m.read n).2 := by
  have hclosed : ¬ m.closed = true := by simp [h.isOpen]
  rw [Marker.read, if_neg hclosed]
  rcases ha : m.answer n with ⟨_ | out, m₁⟩
  · obtain ⟨hrelays, hused⟩ := h.answer_none (n := n) (by rw [ha])
    have hlive := phase_of_answer_none (congrArg Prod.fst ha)
    rw [ha] at hrelays hused hlive
    have hfetch := hrelays.fetch hserves hused hlive hn patience
    dsimp only at hrelays hused hlive hfetch ⊢
    generalize Marker.fetch n patience m₁ = q at hfetch ⊢
    cases hfetch with
    | found relayed => exact relayed
    | @starved m₂ later relays used live fewer =>
      have hagain := relays.fetch hserves used live hn (ByteSource.left m₂.source + 1)
      dsimp only
      generalize Marker.fetch n (ByteSource.left m₂.source + 1) m₂ = q at hagain ⊢
      cases hagain with
      | found relayed => exact relayed
      | starved _ _ _ fewer =>
        -- That many blocks are more than the source has bytes.
        have hleft := hserves.left m₂.source later relays.source
        omega
  · have hanswer := h.answer_some hn (congrArg Prod.fst ha)
    rw [ha] at hanswer
    exact hanswer

/-- A marker source serves what is extracted from the data of its source, and fails behind it as
that source does unless it is done before. -/
theorem serves_relaying (hserves : Serves R failure) (fate : Option Fault) :
    Serves (Relaying R failure fate) fate where
  read _ _ _ h hn := by
    obtain ⟨rest, h⟩ := h
    exact (h.read hserves hn).serving
  left m data h := by
    obtain ⟨rest, h⟩ := h
    have hlen := m.scanner.length_passes_le failure (m.input ++ rest)
    have hleft := hserves.left m.source rest h.source
    rw [h.passes]
    rw [List.length_append] at hlen
    show _ ≤ m.scanner.window.length + m.input.length + ByteSource.left m.source
    omega

/-- Whoever is told of the end by a marker source finds it done. -/
theorem Relaying.isDone (hserves : Serves R failure) (h : Relaying R failure fate m data)
    (hn : 0 < n) {m' : Marker σ} (hr : ByteSource.read m n = (.ok [], m')) : m'.isDone = true := by
  obtain ⟨rest, h⟩ := h
  have hdone := (h.read hserves hn).done
  change m.read n = _ at hr
  rw [hr] at hdone
  exact hdone rfl

omit [ByteSource σ] in
theorem relaying_ofMarkers {source : σ} (h : R source rest) (failure : Option Fault)
    (start stop : Bytes) (singlePair : Bool) :
    Relaying R failure ((Scanner.new start stop singlePair).fate failure rest)
      (ofMarkers source start stop singlePair)
      ((Scanner.new start stop singlePair).passes failure rest) :=
  ⟨rest, rfl, h, rfl, rfl⟩

end Marker

end StreamLayers
