import StreamLayers.Proofs.Marker.Regions
import StreamLayers.Proofs.Source

/-!
Reads of a marker source. However the source cuts its data, wherever it fails and whatever is asked
for, the reads together get what is extracted from all of the data at once. A read that fails is one
that met a failure of the source, so whoever tries again comes to the end.
-/

namespace StreamLayers

namespace Scanner

variable {s : Scanner} {data : Bytes}

theorem output_cons (s : Scanner) (b : UInt8) (data : Bytes) :
    s.output (b :: data) = (s.step b).1.toList ++ (s.step b).2.output data := by
  simp only [output, feed_cons, List.append_assoc]

theorem output_done (hp : s.phase = .done) (data : Bytes) : s.output data = s.window := by
  simp [output, feed_done hp, finish, hp]

theorem closes_done (hp : s.phase = .done) (data : Bytes) : s.closes data = s.regions := by
  simp [closes, feed_done hp]

/-- Feeding goes on where a scan stopped. -/
theorem feed_scan (s : Scanner) (room : Nat) (input more : Bytes) :
    s.feed (input ++ more) =
      ((s.scan room input).1 ++ ((s.scan room input).2.2.feed ((s.scan room input).2.1 ++ more)).1,
        ((s.scan room input).2.2.feed ((s.scan room input).2.1 ++ more)).2) := by
  induction input generalizing s room with
  | nil => rfl
  | cons b rest ih =>
    rw [scan_cons]
    split
    · rfl
    · rw [List.cons_append, feed_cons]
      rcases s.step b with ⟨_ | c, t⟩
      · exact ih t room
      · dsimp only
        rw [ih t (room - 1)]
        rfl

/-- A scan stops where the scanner is done, the input is used up, or there is no more room. -/
theorem scan_stops (s : Scanner) (room : Nat) (input : Bytes) :
    (s.scan room input).2.2.phase = .done ∨ (s.scan room input).2.1 = [] ∨
      (s.scan room input).1.length = room := by
  induction input generalizing s room with
  | nil => exact .inr (.inl rfl)
  | cons b rest ih =>
    rw [scan_cons]
    split
    · rename_i hstop
      exact hstop.symm.imp id fun hz => .inr hz.symm
    · rename_i hgo
      rcases s.step b with ⟨_ | c, t⟩
      · exact ih t room
      · refine (ih t (room - 1)).imp_right (Or.imp_right fun hlen => ?_)
        have hroom : room ≠ 0 := fun hz => hgo (.inl hz)
        simp only [List.length_cons]
        omega

theorem scan_spec (s : Scanner) (room : Nat) (input more : Bytes) :
    s.output (input ++ more) =
        (s.scan room input).1 ++ (s.scan room input).2.2.output ((s.scan room input).2.1 ++ more) ∧
      s.closes (input ++ more) =
        (s.scan room input).2.2.closes ((s.scan room input).2.1 ++ more) ∧
      ((s.scan room input).2.2.phase = .done ∨ (s.scan room input).2.1 = [] ∨
        (s.scan room input).1.length = room) := by
  have hfeed := s.feed_scan room input more
  exact ⟨by simp only [output, hfeed, List.append_assoc], by simp only [closes, hfeed],
    s.scan_stops room input⟩

theorem length_scan_le (s : Scanner) (room : Nat) (input : Bytes) :
    (s.scan room input).1.length ≤ room := by
  induction input generalizing s room with
  | nil => exact Nat.zero_le room
  | cons b rest ih =>
    rw [scan_cons]
    split
    · exact Nat.zero_le room
    · rename_i hgo
      rcases s.step b with ⟨_ | c, t⟩
      · exact ih t room
      · have hrest := ih t (room - 1)
        have hroom : room ≠ 0 := fun hz => hgo (.inl hz)
        rw [List.length_cons]
        omega

/-- No byte is handed out that was not in the window or in the data. -/
theorem length_output_le (s : Scanner) (data : Bytes) :
    (s.output data).length ≤ s.window.length + data.length := by
  have hstep (s : Scanner) (b : UInt8) :
      (s.step b).1.toList.length + (s.step b).2.window.length ≤ s.window.length + 1 := by
    unfold step
    split
    · dsimp only
      split <;> split <;> simp
    · split
      · simp [Nat.add_comm]
      · dsimp only
        split
        · simp
        · split
          · simp [endRegion]
          · rcases hpushed : s.window ++ [b] with _ | ⟨c, w⟩
            · simp
            · have hlen := congrArg List.length hpushed
              simp at hlen ⊢
              omega
    · simp
  induction data generalizing s with
  | nil =>
    show s.finish.window.length ≤ s.window.length
    unfold finish
    split <;> simp
  | cons b rest ih =>
    have hrest := ih (s.step b).2
    have hfirst := hstep s b
    rw [output_cons, List.length_append, List.length_cons]
    omega

end Scanner

namespace Marker

section Answers

variable {σ : Type} {m : Marker σ}

theorem isDone_iff : m.isDone = true ↔ m.scanner.phase = .done ∧ m.scanner.window = [] := by
  simp [isDone]

theorem answer_frame (m : Marker σ) (n : Nat) :
    (m.answer n).2.source = m.source ∧ (m.answer n).2.closed = m.closed := by
  unfold answer
  dsimp only
  split
  · exact ⟨rfl, rfl⟩
  · split <;> exact ⟨rfl, rfl⟩

theorem length_answer_le (m : Marker σ) (n : Nat) : ((m.answer n).1.getD []).length ≤ n := by
  have hscan := m.scanner.length_scan_le n m.input
  unfold answer
  rcases hs : m.scanner.scan n m.input with ⟨out, input, t⟩
  rw [hs] at hscan
  dsimp only at hscan ⊢
  split
  · have htail := List.length_take_le (n - out.length) t.window
    show (out ++ t.window.take (n - out.length)).length ≤ n
    rw [List.length_append]
    omega
  · split
    · exact hscan
    · exact Nat.zero_le n

/-- The tail of a scanner that is done is handed out from its front. -/
theorem output_takeTail {s : Scanner} (hp : s.phase = .done) (n : Nat) (d more : Bytes) :
    s.output d = (s.takeTail n).1 ++ (s.takeTail n).2.output more := by
  have hp' : (s.takeTail n).2.phase = .done := hp
  rw [Scanner.output_done hp, Scanner.output_done hp']
  exact (List.take_append_drop n _).symm

theorem window_of_takeTail {s : Scanner} {n : Nat} (hn : 0 < n) (hnil : (s.takeTail n).1 = []) :
    (s.takeTail n).2.window = [] := by
  rcases List.take_eq_nil_iff.1 hnil with hz | hw
  · omega
  · simp [Scanner.takeTail, hw]

/-- What is buffered answers a read, or all of it was scanned and the source has to be read. -/
theorem answer_output (m : Marker σ) (n : Nat) (more : Bytes) :
    m.scanner.output (m.input ++ more) =
        (m.answer n).1.getD [] ++ (m.answer n).2.scanner.output ((m.answer n).2.input ++ more) ∧
      m.scanner.closes (m.input ++ more) =
        (m.answer n).2.scanner.closes ((m.answer n).2.input ++ more) ∧
      ((m.answer n).1 = none → (m.answer n).2.input = []) ∧
      (0 < n → (m.answer n).1 = some [] → (m.answer n).2.isDone = true) := by
  have hscan := m.scanner.scan_spec n m.input more
  unfold answer
  rcases hs : m.scanner.scan n m.input with ⟨out, input, t⟩
  rw [hs] at hscan
  obtain ⟨hout, hcloses, hend⟩ := hscan
  dsimp only at hout hcloses hend ⊢
  split
  · rename_i hdone
    have hdone' : (t.takeTail (n - out.length)).2.phase = .done := hdone
    have htail := output_takeTail hdone (n - out.length) (input ++ more) (input ++ more)
    refine ⟨?_, ?_, nofun, ?_⟩
    · rw [hout, htail, Option.getD_some, List.append_assoc]
    · rw [hcloses, Scanner.closes_done hdone, Scanner.closes_done hdone']
      rfl
    · intro hn hnil
      obtain ⟨rfl, hnil⟩ := List.append_eq_nil_iff.1 (Option.some.inj hnil)
      exact isDone_iff.2 ⟨hdone, window_of_takeTail hn hnil⟩
  · rename_i hlive
    split
    · rename_i hfull
      refine ⟨hout, hcloses, nofun, ?_⟩
      intro hn hnil
      rcases hfull with hz | hne
      · omega
      · exact absurd (Option.some.inj hnil) hne
    · rename_i hmore
      obtain ⟨hz, rfl⟩ : ¬ n = 0 ∧ out = [] := by simpa using hmore
      refine ⟨hout, hcloses, fun _ => ?_, nofun⟩
      rcases hend with hdone | hused | hlen
      · exact absurd hdone hlive
      · exact hused
      · exact absurd hlen.symm hz

end Answers

variable {σ : Type} [ByteSource σ] [SerialSource σ] {m m' m'' : Marker σ} {got more : Bytes}

/-- All that a marker source still hands out. -/
def pending (m : Marker σ) : Bytes := m.scanner.output (m.input ++ SerialSource.rest m.source)

/-- How many regions it has closed in the end. -/
def total (m : Marker σ) : Nat := m.scanner.closes (m.input ++ SerialSource.rest m.source)

/-- What handing out `got` makes of a marker source. -/
structure Hands (m : Marker σ) (got : Bytes) (m' : Marker σ) : Prop where
  closed_eq : m'.closed = m.closed
  source_eq : ∃ sizes, m'.source = ByteSource.afterReads m.source sizes
  pending_eq : m.pending = got ++ m'.pending
  total_eq : m'.total = m.total

theorem Hands.refl (m : Marker σ) : Hands m [] m := ⟨rfl, ⟨[], rfl⟩, rfl, rfl⟩

theorem Hands.trans (h : Hands m got m') (h' : Hands m' more m'') : Hands m (got ++ more) m'' where
  closed_eq := h'.closed_eq.trans h.closed_eq
  source_eq := by
    obtain ⟨sizes, hs⟩ := h.source_eq
    obtain ⟨later, hl⟩ := h'.source_eq
    exact ⟨sizes ++ later, by rw [hl, hs, ByteSource.afterReads_append]⟩
  pending_eq := by rw [h.pending_eq, h'.pending_eq, List.append_assoc]
  total_eq := h'.total_eq.trans h.total_eq

theorem hands_tail (hp : m.scanner.phase = .done) (n : Nat) :
    Hands m (m.scanner.takeTail n).1 { m with scanner := (m.scanner.takeTail n).2 } := by
  have hp' : (m.scanner.takeTail n).2.phase = .done := hp
  refine ⟨rfl, ⟨[], rfl⟩, output_takeTail hp n _ _, ?_⟩
  rw [total, total, Scanner.closes_done hp, Scanner.closes_done hp']
  rfl

theorem hands_answer (m : Marker σ) (n : Nat) :
    Hands m ((m.answer n).1.getD []) (m.answer n).2 := by
  obtain ⟨hsource, hclosed⟩ := m.answer_frame n
  obtain ⟨hout, hcloses, -⟩ := m.answer_output n (SerialSource.rest m.source)
  refine ⟨hclosed, ⟨[], hsource⟩, ?_, ?_⟩
  · rw [pending, pending, hsource]
    exact hout
  · rw [total, total, hsource]
    exact hcloses.symm

/-- What is pulled from the source becomes input. -/
theorem hands_pull (hinput : m.input = []) (n : Nat) :
    Hands m [] { m with
      source := (ByteSource.read m.source n).2
      input := handedOver (ByteSource.read m.source n).1 } := by
  have hall : handedOver (ByteSource.read m.source n).1 ++
      SerialSource.rest (ByteSource.read m.source n).2 = m.input ++ SerialSource.rest m.source := by
    have hhanded := SerialSource.handed m.source n
    rw [hinput]
    rcases hr : ByteSource.read m.source n with ⟨e | data, s⟩ <;> rw [hr] at hhanded
    · exact congrArg _ hhanded
    · exact hhanded.2.symm
  refine ⟨rfl, ⟨[n], rfl⟩, ?_, ?_⟩
  · simp only [pending, hall, List.nil_append]
  · simp only [total, hall]

theorem hands_finish (hinput : m.input = []) (hrest : SerialSource.rest m.source = []) :
    Hands m [] { m with scanner := m.scanner.finish } := by
  have hp : m.scanner.finish.phase = .done := rfl
  refine ⟨rfl, ⟨[], rfl⟩, ?_, ?_⟩
  · simp only [pending, hinput, hrest, Scanner.output_done hp]
    rfl
  · simp only [total, hinput, hrest, Scanner.closes_done hp]
    rfl

/-- What a read with the answer `r` takes from the source below: as many blocks as it needs, if none
of them fails, and else those up to the one that fails, with whose failure it answers. -/
inductive Tapped {σ : Type} [ByteSource σ] : σ → Except Fault Bytes → σ → Prop where
  | enough (s : σ) (got : Bytes) : Tapped s (.ok got) s
  | block {s t u : σ} {d : Bytes} {r : Except Fault Bytes}
      (hread : ByteSource.read s defaultChunk = (.ok d, t)) (rest : Tapped t r u) : Tapped s r u
  | failed {s t : σ} {e : Fault} (hread : ByteSource.read s defaultChunk = (.error e, t)) :
      Tapped s (.error e) t

section Taps

omit [SerialSource σ]

variable {s t u : σ} {d : Bytes} {r : Except Fault Bytes}

theorem Tapped.trans (h : Tapped s (.ok d) t) (h' : Tapped t r u) : Tapped s r u := by
  generalize hd : Except.ok d = q at h
  induction h with
  | enough => exact h'
  | block hread _ ih => exact .block hread (ih h' hd)
  | failed => cases hd

/-- A failure of a block is one failure of the read, and there are no others. -/
theorem Tapped.failures_eq (h : Tapped s r t) :
    ∃ blocks, t = ByteSource.afterReads s (List.replicate blocks defaultChunk) ∧
      ByteSource.failures s (List.replicate blocks defaultChunk) = if r.isOk then 0 else 1 := by
  induction h with
  | enough => exact ⟨0, rfl, rfl⟩
  | block hread _ ih =>
    obtain ⟨blocks, hsource, hfailed⟩ := ih
    exists blocks + 1
    rw [List.replicate_succ, ByteSource.afterReads, ByteSource.failures, hread]
    constructor
    · exact hsource
    · exact (Nat.zero_add _).trans hfailed
  | failed hread =>
    exists 1
    constructor
    · simp [ByteSource.afterReads, hread]
    · simp [ByteSource.failures, hread, Except.isOk, Except.toBool]

end Taps

/-- How a read ends that had to read the source. -/
structure Fetched (m : Marker σ) (n : Nat) (r : Except Fault Bytes) (m' : Marker σ) : Prop where
  hands : Hands m (handedOver r) m'
  done : 0 < n → r = .ok [] → m'.isDone = true
  tapped : Tapped m.source r m'.source

theorem Fetched.after (h : Hands m [] m') (ht : Tapped m.source (.ok []) m'.source) {n : Nat}
    {r : Except Fault Bytes} (h' : Fetched m' n r m'') : Fetched m n r m'' where
  hands := h.trans h'.hands
  done := h'.done
  tapped := ht.trans h'.tapped

theorem Hands.steady (h : Hands m got m') (hs : Steady m.source) : Steady m'.source := by
  obtain ⟨sizes, hsizes⟩ := h.source_eq
  exact hsizes ▸ hs.afterReads sizes

/-- What reading at most `fuel` blocks comes to: something for the reader, or for want of fuel that
many bytes fewer in the source. -/
inductive Sought (m : Marker σ) (n fuel : Nat) : Option (Except Fault Bytes) × Marker σ → Prop where
  | found {r : Except Fault Bytes} {m' : Marker σ} (fetched : Fetched m n r m') :
      Sought m n fuel (some r, m')
  | starved {m' : Marker σ} (hands : Hands m [] m') (tapped : Tapped m.source (.ok []) m'.source)
      (used : m'.input = [])
      (fewer : (SerialSource.rest m'.source).length + fuel ≤
        (SerialSource.rest m.source).length) :
      Sought m n fuel (none, m')

theorem fetch_spec (hsteady : Steady m.source) (hinput : m.input = []) (n fuel : Nat) :
    Sought m n fuel (m.fetch n fuel) := by
  induction fuel generalizing m with
  | zero => exact .starved (.refl m) (.enough _ _) hinput (Nat.le_refl _)
  | succ fuel ih =>
    obtain ⟨source, scanner, input, closed⟩ := m
    obtain rfl : input = [] := hinput
    have hpull := hands_pull (m := ⟨source, scanner, [], closed⟩) rfl defaultChunk
    have hhanded := SerialSource.handed source defaultChunk
    have hend := hsteady [] defaultChunk (by decide)
    unfold fetch
    rcases hr : ByteSource.read source defaultChunk with ⟨e | _ | ⟨b, d⟩, s⟩ <;>
      rw [hr] at hpull hhanded <;> dsimp only at hpull hhanded ⊢
    · exact .found ⟨hpull, nofun, .failed hr⟩
    · have hrest : SerialSource.rest s = [] := by
        have hnil := hend (by rw [ByteSource.afterReads, hr])
        exact (List.append_eq_nil_iff.1 (hhanded.2.symm.trans hnil)).2
      have hfinish := hands_finish (m := ⟨s, scanner, [], closed⟩) rfl hrest
      have htail := hands_tail (m := ⟨s, scanner.finish, [], closed⟩) rfl n
      refine .found ⟨(hpull.trans hfinish).trans htail, ?_, .block hr (.enough _ _)⟩
      intro hn hnil
      exact isDone_iff.2 ⟨rfl, window_of_takeTail hn (Except.ok.inj hnil)⟩
    · have hanswer := hands_answer ⟨s, scanner, b :: d, closed⟩ n
      obtain ⟨-, -, hused, hdone⟩ := answer_output ⟨s, scanner, b :: d, closed⟩ n []
      have hsource := (answer_frame ⟨s, scanner, b :: d, closed⟩ n).1
      rcases ha : (⟨s, scanner, b :: d, closed⟩ : Marker σ).answer n with ⟨_ | out, m₁⟩ <;>
        rw [ha] at hanswer hused hdone hsource <;> dsimp only at hanswer hused hdone hsource ⊢
      · have hboth : Hands ⟨source, scanner, [], closed⟩ [] m₁ := hpull.trans hanswer
        have hblock : Tapped source (.ok []) m₁.source := hsource ▸ .block hr (.enough _ _)
        have hmore := ih (hboth.steady hsteady) (hused rfl)
        generalize fetch n fuel m₁ = q at hmore ⊢
        cases hmore with
        | found fetched => exact .found (fetched.after hboth hblock)
        | starved hands tapped used fewer =>
          -- The block got at least one byte, which pays for the block.
          have hlen := congrArg List.length hhanded.2
          rw [List.length_append, List.length_cons] at hlen
          rw [hsource] at fewer
          refine .starved (hboth.trans hands) (hblock.trans tapped) used ?_
          dsimp only
          omega
      · refine .found ⟨hpull.trans hanswer, ?_, hsource ▸ .block hr (.enough _ _)⟩
        intro hn hnil
        exact hdone hn (congrArg some (Except.ok.inj hnil))

theorem read_spec [BoundedSource σ] (hopen : m.closed = false) (hsteady : Steady m.source)
    (n : Nat) : Fetched m n (m.read n).1 (m.read n).2 := by
  have hclosed : ¬ m.closed = true := by simp [hopen]
  have hanswer := hands_answer m n
  obtain ⟨-, -, hused, hdone⟩ := m.answer_output n []
  have hsource := (m.answer_frame n).1
  unfold read
  rw [if_neg hclosed]
  rcases ha : m.answer n with ⟨_ | out, m₁⟩ <;> rw [ha] at hanswer hused hdone hsource <;>
    dsimp only at hanswer hused hdone hsource ⊢
  · have hkept : Tapped m.source (.ok []) m₁.source := hsource ▸ .enough _ _
    have hfetch := fetch_spec (hanswer.steady hsteady) (hused rfl) n patience
    generalize fetch n patience m₁ = q at hfetch ⊢
    cases hfetch with
    | found fetched => exact fetched.after hanswer hkept
    | @starved m₂ hands tapped used fewer =>
      have hboth : Hands m [] m₂ := hanswer.trans hands
      have hagain := fetch_spec (hboth.steady hsteady) used n (ByteSource.left m₂.source + 1)
      dsimp only
      generalize fetch n (ByteSource.left m₂.source + 1) m₂ = q at hagain ⊢
      cases hagain with
      | found fetched => exact fetched.after hboth (hkept.trans tapped)
      | starved _ _ _ fewer =>
        -- That many blocks are more than the source has bytes.
        have := BoundedSource.length_rest_le m₂.source
        omega
  · refine ⟨hanswer, ?_, hsource ▸ .enough _ _⟩
    intro hn hnil
    exact hdone hn (congrArg some (Except.ok.inj hnil))

omit [SerialSource σ] in
/-- A marker source that has reached its end stays there. -/
theorem read_isDone (hopen : m.closed = false) (hdone : m.isDone = true) (n : Nat) :
    m.read n = (.ok [], m) := by
  obtain ⟨hp, hw⟩ := isDone_iff.1 hdone
  have hclosed : ¬ m.closed = true := by simp [hopen]
  have hscan : m.scanner.scan n m.input = ([], m.input, m.scanner) := by
    cases hi : m.input with
    | nil => rfl
    | cons b rest => rw [Scanner.scan_cons, if_pos (.inr hp)]
  have htail : m.scanner.takeTail (n - 0) = ([], m.scanner) := by
    obtain ⟨source, ⟨start, stop, singlePair, phase, window, regions⟩, input, closed⟩ := m
    obtain rfl : window = [] := hw
    simp [Scanner.takeTail]
  have hanswer : m.answer n = (some [], m) := by
    simp only [answer, hscan, hp, if_true, List.length_nil, htail]
    rfl
  rw [read, if_neg hclosed, hanswer]

omit [SerialSource σ] in
theorem afterReads_isDone (hopen : m.closed = false) (hdone : m.isDone = true) (sizes : List Nat) :
    ByteSource.afterReads m sizes = m := by
  induction sizes with
  | nil => rfl
  | cons n rest ih =>
    have hread : ByteSource.read m n = (.ok [], m) := read_isDone hopen hdone n
    rw [ByteSource.afterReads, hread]
    exact ih

theorem pending_of_isDone (hdone : m.isDone = true) : m.pending = [] := by
  obtain ⟨hp, hw⟩ := isDone_iff.1 hdone
  rw [pending, Scanner.output_done hp, hw]

theorem total_of_isDone (hdone : m.isDone = true) : m.total = m.scanner.regions :=
  Scanner.closes_done (isDone_iff.1 hdone).1 _

theorem reads_spec [BoundedSource σ] (hopen : m.closed = false) (hsteady : Steady m.source)
    (sizes : List Nat) : Hands m (ByteSource.reads m sizes) (ByteSource.afterReads m sizes) := by
  induction sizes generalizing m with
  | nil => exact .refl m
  | cons n rest ih =>
    have hread := (read_spec hopen hsteady n).hands
    exact hread.trans (ih (hread.closed_eq.trans hopen) (hread.steady hsteady))

/-- Every read that does not fail gets something, until there is nothing more to get. -/
theorem isDone_of_successes [BoundedSource σ] (hopen : m.closed = false) (hsteady : Steady m.source)
    {sizes : List Nat} (hsizes : ∀ n ∈ sizes, 0 < n)
    (hmany : m.pending.length < ByteSource.successes m sizes) :
    (ByteSource.afterReads m sizes).isDone = true := by
  induction sizes generalizing m with
  | nil => cases hmany
  | cons n rest ih =>
    have hread := read_spec hopen hsteady n
    have hfirst : ByteSource.successes m (n :: rest) =
        (if (m.read n).1.isOk then 1 else 0) + ByteSource.successes (m.read n).2 rest := rfl
    have hafter : ByteSource.afterReads m (n :: rest) = ByteSource.afterReads (m.read n).2 rest := rfl
    have hopen' := hread.hands.closed_eq.trans hopen
    have hlen := congrArg List.length hread.hands.pending_eq
    have hrest := ih hopen' (hread.hands.steady hsteady)
      (fun k hk => hsizes k (List.mem_cons_of_mem n hk))
    rw [hafter]
    rcases hr : (m.read n).1 with e | _ | ⟨b, d⟩ <;>
      simp only [hr, handedOver, List.length_append, List.length_nil, List.length_cons, Except.isOk,
        Except.toBool, if_true, if_false, Bool.false_eq_true] at hfirst hlen
    · exact hrest (by omega)
    · have hdone := hread.done (hsizes n List.mem_cons_self) hr
      rw [afterReads_isDone hopen' hdone]
      exact hdone
    · exact hrest (by omega)

/-- Reads of these sizes have got `all` of a marker source, which has closed `count` regions. -/
structure Exhausted (m : Marker σ) (all : Bytes) (count : Nat) (sizes : List Nat) : Prop where
  reads_eq : ByteSource.reads m sizes = all
  isDone : (ByteSource.afterReads m sizes).isDone = true
  regions_eq : (ByteSource.afterReads m sizes).scanner.regions = count
  stays : ∀ k, (ByteSource.afterReads m sizes).read k = (.ok [], ByteSource.afterReads m sizes)

theorem exhausted [BoundedSource σ] (hopen : m.closed = false) (hsteady : Steady m.source)
    {sizes : List Nat} (hdone : (ByteSource.afterReads m sizes).isDone = true) :
    Exhausted m m.pending m.total sizes := by
  have hreads := reads_spec hopen hsteady sizes
  have hall := hreads.pending_eq
  rw [pending_of_isDone hdone, List.append_nil] at hall
  refine ⟨hall.symm, hdone, ?_, read_isDone (hreads.closed_eq.trans hopen) hdone⟩
  rw [← total_of_isDone hdone, hreads.total_eq]

/-- A marker source fails as often as the source below has failed for it. -/
theorem failures_eq [BoundedSource σ] (hopen : m.closed = false) (hsteady : Steady m.source)
    (sizes : List Nat) :
    ∃ blocks, (ByteSource.afterReads m sizes).source =
        ByteSource.afterReads m.source (List.replicate blocks defaultChunk) ∧
      ByteSource.failures m sizes =
        ByteSource.failures m.source (List.replicate blocks defaultChunk) := by
  induction sizes generalizing m with
  | nil => exact ⟨0, rfl, rfl⟩
  | cons n rest ih =>
    have hread := read_spec hopen hsteady n
    obtain ⟨first, hsource, hfailed⟩ := hread.tapped.failures_eq
    obtain ⟨later, hsource', hfailed'⟩ :=
      ih (hread.hands.closed_eq.trans hopen) (hread.hands.steady hsteady)
    exists first + later
    rw [← List.replicate_append_replicate, ByteSource.afterReads_append,
      ByteSource.failures_append, ← hsource, ← hfailed', hfailed]
    constructor
    · exact hsource'
    · rfl

/-- However it is read, a marker source hands out `all` from front to back and comes to its end,
with `count` regions closed. -/
structure HandsOut (m : Marker σ) (all : Bytes) (count : Nat) : Prop where
  front : ∀ sizes, ByteSource.reads m sizes <+: all
  /-- It fails only where its source fails, and goes on behind that failure. -/
  tapped : ∀ sizes n, Tapped (ByteSource.afterReads m sizes).source
    ((ByteSource.afterReads m sizes).read n).1 ((ByteSource.afterReads m sizes).read n).2.source
  told : ∀ sizes n, 0 < n → ((ByteSource.afterReads m sizes).read n).1 = .ok [] →
    Exhausted m all count (sizes ++ [n])
  /-- The end comes after no more successful reads than there are bytes to get. -/
  finishes : ∀ sizes more, (∀ n ∈ more, 0 < n) →
    all.length < (ByteSource.reads m sizes).length +
      ByteSource.successes (ByteSource.afterReads m sizes) more →
    Exhausted m all count (sizes ++ more)
  /-- Reads that are tried again come to the end, unless the source goes on failing. -/
  ends : ∀ sizes more f, FailsAtMost (ByteSource.afterReads m sizes).source f →
    (∀ n ∈ more, 0 < n) → all.length + f < (ByteSource.reads m sizes).length + more.length →
    Exhausted m all count (sizes ++ more)

theorem exhausted_of_successes [BoundedSource σ] (hopen : m.closed = false)
    (hsteady : Steady m.source) {sizes more : List Nat} (hmore : ∀ n ∈ more, 0 < n)
    (hmany : m.pending.length < (ByteSource.reads m sizes).length +
      ByteSource.successes (ByteSource.afterReads m sizes) more) :
    Exhausted m m.pending m.total (sizes ++ more) := by
  have hreads := reads_spec hopen hsteady sizes
  have hlen := congrArg List.length hreads.pending_eq
  rw [List.length_append] at hlen
  apply exhausted hopen hsteady
  rw [ByteSource.afterReads_append]
  have hleft : (ByteSource.afterReads m sizes).pending.length <
      ByteSource.successes (ByteSource.afterReads m sizes) more := by omega
  exact isDone_of_successes (hreads.closed_eq.trans hopen) (hreads.steady hsteady) hmore hleft

theorem handsOut [BoundedSource σ] (hopen : m.closed = false) (hsteady : Steady m.source) :
    HandsOut m m.pending m.total := by
  have hreads := reads_spec hopen hsteady
  have hopen' (sizes : List Nat) := (hreads sizes).closed_eq.trans hopen
  have hsteady' (sizes : List Nat) := (hreads sizes).steady hsteady
  have hread (sizes : List Nat) := read_spec (hopen' sizes) (hsteady' sizes)
  constructor
  case front =>
    intro sizes
    exact ⟨_, (hreads sizes).pending_eq.symm⟩
  case tapped =>
    intro sizes n
    exact (hread sizes n).tapped
  case told =>
    intro sizes n hn hr
    apply exhausted hopen hsteady
    rw [ByteSource.afterReads_append]
    exact (hread sizes n).done hn hr
  case finishes =>
    intro sizes more hmore hmany
    exact exhausted_of_successes hopen hsteady hmore hmany
  case ends =>
    intro sizes more f hfails hmore hlong
    -- Each of these reads that fails is paid for by a block that fails.
    obtain ⟨blocks, -, hfailed⟩ := failures_eq (hopen' sizes) (hsteady' sizes) more
    have hfew := hfails blocks
    have hall := ByteSource.successes_add_failures (ByteSource.afterReads m sizes) more
    exact exhausted_of_successes hopen hsteady hmore (by omega)

/-- Whatever it is asked for, a marker source hands out what is extracted from all of the data of
its source at once, and reads that fail lose and repeat nothing. -/
theorem extracts_of_reads [BoundedSource σ] {source : σ} (hsteady : Steady source)
    (start stop : Bytes) :
    ∃ regions tail, Divided start stop (outside start) (SerialSource.rest source) regions tail ∧
      HandsOut (ofMarkers source start stop false) (extract (SerialSource.rest source) start stop)
        regions.length := by
  obtain ⟨regions, tail, hdivided⟩ :=
    exists_divided start stop (SerialSource.rest source) (outside_spec start)
  have htotal : (ofMarkers source start stop false).total = regions.length := by
    have hcloses := (hdivided.scanned ne_nil_of_outside (s := .new start stop false) rfl rfl
      (entry_eq start) rfl).2 rfl
    exact hcloses.trans (Nat.zero_add _)
  have hhands := handsOut (m := ofMarkers source start stop false) rfl hsteady
  rw [htotal] at hhands
  exact ⟨regions, tail, hdivided, hhands⟩

/-- The source fails in a stop marker that begins twice, and once more before the last byte. -/
theorem extracts_of_reads_failing :
    let source : PlainSource :=
      ⟨[.bytes [9, 1, 4, 2], .fails ⟨.other, "cut"⟩, .bytes [2, 3, 5, 1], .fails ⟨.other, "cut"⟩,
        .bytes [6]], none⟩
    let m : Marker PlainSource := ofMarkers source [1] [2, 3] false
    Steady source ∧ FailsAtMost source 2 ∧ ByteSource.failures m [2, 3, 1, 2, 5, 1] = 2 ∧
      extract (SerialSource.rest source) [1] [2, 3] = [4, 2, 6] ∧
      Exhausted m [4, 2, 6] 1 [2, 3, 1, 2, 5, 1] := by
  intro source m
  have hsteady : Steady source := steady_plain (by simp) nofun
  have hfails : FailsAtMost source 2 := failsAtMost_plain source.reader none
  have hcount : ByteSource.failures m [2, 3, 1, 2, 5, 1] = 2 := by decide +kernel
  have hextract : extract (SerialSource.rest source) [1] [2, 3] = [4, 2, 6] := by decide +kernel
  obtain ⟨regions, tail, -, hhands⟩ := extracts_of_reads hsteady [1] [2, 3]
  rw [hextract] at hhands
  have hend := hhands.ends [] [2, 3, 1, 2, 5, 1] 2 hfails (by decide) (by decide)
  have hone : regions.length = 1 := hend.regions_eq.symm
  exact ⟨hsteady, hfails, hcount, hextract, hone ▸ hend⟩

end Marker

end StreamLayers
