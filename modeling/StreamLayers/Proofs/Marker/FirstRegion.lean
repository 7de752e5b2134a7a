import StreamLayers.Proofs.Marker.Serving

/-!
The first region of data on its own. A marker source that stops behind it hands out just that region
and does not read its source any further.
-/

namespace StreamLayers

/-- The first region of `data`: what lies between the leftmost start marker and the stop marker that
is next to it, if there is one, and what follows that stop marker. -/
inductive FirstRegion (start stop data : Bytes) : Bytes → Option Bytes → Prop where
  | absent (never : ¬ start <:+: data) : FirstRegion start stop data [] none
  | unclosed {skipped region : Bytes} (found : Leftmost start data skipped region)
      (never : stop = [] ∨ ¬ stop <:+: region) : FirstRegion start stop data region none
  | closed {skipped inner region after : Bytes} (found : Leftmost start data skipped inner)
      (ends : stop ≠ []) (closing : Leftmost stop inner region after) :
      FirstRegion start stop data region (some after)

section Regions

variable {start stop data skipped inner region after more : Bytes} {after? : Option Bytes}

theorem exists_firstRegion (start stop data : Bytes) :
    ∃ region after?, FirstRegion start stop data region after? := by
  by_cases hopens : start <:+: data
  · obtain ⟨skipped, inner, hfound⟩ := Leftmost.exists_of_isInfix hopens
    by_cases hcloses : stop ≠ [] ∧ stop <:+: inner
    · obtain ⟨region, after, hclosing⟩ := Leftmost.exists_of_isInfix hcloses.2
      exact ⟨region, some after, .closed hfound hcloses.1 hclosing⟩
    · refine ⟨inner, none, .unclosed hfound ?_⟩
      exact Classical.or_iff_not_imp_left.2 fun hstop hin => hcloses ⟨hstop, hin⟩
  · exact ⟨[], none, .absent hopens⟩

theorem FirstRegion.unique {region' : Bytes} {after?' : Option Bytes}
    (h : FirstRegion start stop data region after?)
    (h' : FirstRegion start stop data region' after?') : region = region' ∧ after? = after?' := by
  cases h with
  | absent never =>
    cases h' with
    | absent _ => exact ⟨rfl, rfl⟩
    | unclosed found _ => exact absurd found.isInfix never
    | closed found _ _ => exact absurd found.isInfix never
  | unclosed found never =>
    cases h' with
    | absent none => exact absurd found.isInfix none
    | unclosed found' _ => exact ⟨(found.unique found').2, rfl⟩
    | closed found' ends closing =>
      obtain ⟨-, rfl⟩ := found.unique found'
      exact absurd closing.isInfix (never.resolve_left ends)
  | closed found ends closing =>
    cases h' with
    | absent none => exact absurd found.isInfix none
    | unclosed found' never =>
      obtain ⟨-, rfl⟩ := found.unique found'
      exact absurd closing.isInfix (never.resolve_left ends)
    | closed found' _ closing' =>
      obtain ⟨-, rfl⟩ := found.unique found'
      obtain ⟨rfl, rfl⟩ := closing.unique closing'
      exact ⟨rfl, rfl⟩

/-- A closed region stays the first one, whatever follows. -/
theorem FirstRegion.append_iff :
    FirstRegion start stop (data ++ more) region (some (after ++ more)) ↔
      FirstRegion start stop data region (some after) := by
  constructor
  · intro h
    cases h with
    | closed found ends closing =>
      have hinner := closing.eq
      rw [← List.append_assoc] at hinner
      subst hinner
      exact .closed (Leftmost.append_iff.1 found) ends (Leftmost.append_iff.1 closing)
  · intro h
    cases h with
    | closed found ends closing =>
      exact .closed (Leftmost.append_iff.2 found) ends (Leftmost.append_iff.2 closing)

theorem Divided.of_found (found : Leftmost start data skipped inner) {regions : List Bytes}
    {tail : Bytes} (h : Divided start stop .copying inner regions tail) :
    Divided start stop (outside start) data regions tail := by
  by_cases hstart : start = []
  · subst hstart
    obtain ⟨-, rfl⟩ := found.unique (.here [] data)
    exact h
  · rw [outside, if_neg hstart]
    exact .opened found h

/-- It is the first of the regions that the data divides into. -/
theorem FirstRegion.divided (h : FirstRegion start stop data region after?) :
    ∃ regions tail, Divided start stop (outside start) data regions tail ∧
      region = regions.head?.getD tail ∧ (after?.isSome = true ↔ regions ≠ []) := by
  cases h with
  | absent never =>
    have hstart : start ≠ [] := by
      rintro rfl
      exact never List.nil_infix
    refine ⟨[], [], ?_, rfl, by simp⟩
    rw [outside, if_neg hstart]
    exact .barren never
  | unclosed found never =>
    refine ⟨[], region, .of_found found ?_, rfl, by simp⟩
    by_cases hstop : stop = []
    · exact .endless hstop
    · exact .unclosed hstop (never.resolve_left hstop)
  | @closed _ _ _ after found ends closing =>
    obtain ⟨regions, tail, hrest⟩ := exists_divided start stop after (outside_spec start)
    exact ⟨region :: regions, tail, .of_found found (.closed ends closing hrest), rfl, by simp⟩

end Regions

namespace Scanner

variable {start stop data skipped inner region after d more : Bytes} {after? : Option Bytes}

theorem scan_done {s : Scanner} (hp : s.phase = .done) (room : Nat) (input : Bytes) :
    s.scan room input = ([], input, s) := by
  cases input with
  | nil => rfl
  | cons b rest => rw [scan_cons, if_pos (.inr hp)]

/-- A scanner at the front of the first region, behind which it stops. -/
def inFirst (start stop : Bytes) : Scanner := { start, stop, singlePair := true, phase := .copying }

theorem feed_found (found : Leftmost start data skipped inner) :
    (new start stop true).feed data = (inFirst start stop).feed inner := by
  by_cases hstart : start = []
  · subst hstart
    obtain ⟨-, rfl⟩ := found.unique (.here [] data)
    rfl
  · have hphase : (new start stop true).phase = .seeking :=
      (entry_eq start).trans (if_neg hstart)
    exact feed_opened hphase (Nat.zero_le _) (Ne.symm hstart) found

/-- A scanner that stops behind the first region hands out that region, and is done as soon as it is
closed. -/
theorem scanned_of_firstRegion (h : FirstRegion start stop data region after?) :
    (new start stop true).output data = region ∧
      (new start stop true).closes data = (if after?.isSome then 1 else 0) ∧
      (((new start stop true).feed data).2.phase = .done ↔ after?.isSome = true) := by
  cases h with
  | absent never =>
    have hstart : start ≠ [] := by
      rintro rfl
      exact never List.nil_infix
    have hphase : (new start stop true).phase = .seeking :=
      (entry_eq start).trans (if_neg hstart)
    obtain ⟨w, hfeed⟩ := feed_barren hphase (Nat.zero_le _) (Ne.symm hstart) never
    simp [output, closes, hfeed, finish, hphase]
    rfl
  | unclosed found never =>
    simp only [output, closes, feed_found found]
    by_cases hstop : stop = []
    · rw [feed_endless (s := inFirst start stop) rfl hstop]
      simp [finish, inFirst]
    · obtain ⟨w, hscanner, hout⟩ := feed_unclosed (s := inFirst start stop) rfl hstop
        (List.length_pos_iff.2 hstop) (never.resolve_left hstop)
      have hwindow : ((inFirst start stop).feed region).2.finish.window = w := by
        rw [hscanner]
        rfl
      rw [hwindow, hout, hscanner]
      simp [inFirst]
  | closed found ends closing =>
    have hfeed := feed_closed (s := inFirst start stop) rfl ends (List.length_pos_iff.2 ends) closing
    have hdone : (inFirst start stop).endRegion.phase = .done := rfl
    rw [output, closes, feed_found found, hfeed, feed_done hdone]
    simp [finish, endRegion, inFirst]

/-- A scanner is done with a front of the data just if that front has the first region and its stop
marker in full. -/
theorem done_iff_of_firstRegion (h : FirstRegion start stop data region (some after))
    (hfront : d ++ more = data) :
    ((new start stop true).feed d).2.phase = .done ↔ data.length ≤ d.length + after.length := by
  subst hfront
  have hlen : (d ++ more).length = d.length + more.length := List.length_append
  constructor
  · intro hdone
    obtain ⟨region', after?, h'⟩ := exists_firstRegion start stop d
    have hclosed := (scanned_of_firstRegion h').2.2.1 hdone
    obtain ⟨after', rfl⟩ := Option.isSome_iff_exists.1 hclosed
    obtain ⟨-, hsame⟩ := h.unique (FirstRegion.append_iff.2 h')
    have hafter := congrArg List.length (Option.some.inj hsame)
    rw [List.length_append] at hafter
    omega
  · intro hlong
    have hsuffix : after <:+ d ++ more := by
      cases h with
      | closed found ends closing =>
        have hinner : _ <:+ _ := ⟨_, closing.eq.symm⟩
        exact hinner.trans ⟨_, found.eq.symm⟩
    obtain ⟨later, rfl⟩ : more <:+ after :=
      List.suffix_of_suffix_length_le (List.suffix_append d more) hsuffix (by omega)
    exact (scanned_of_firstRegion (FirstRegion.append_iff.1 h)).2.2.2 rfl

end Scanner

namespace Marker

section Phases

variable {σ : Type} {m : Marker σ}

/-- The phase of the scanner when `more` follows what is buffered. -/
def phaseBehind (m : Marker σ) (more : Bytes) : ScanPhase :=
  (m.scanner.feed (m.input ++ more)).2.phase

theorem phaseBehind_done (hp : m.scanner.phase = .done) (more : Bytes) :
    m.phaseBehind more = .done := by
  rw [phaseBehind, Scanner.feed_done hp]
  exact hp

theorem phaseBehind_answer (m : Marker σ) (n : Nat) (more : Bytes) :
    (m.answer n).2.phaseBehind more = m.phaseBehind more := by
  have hfeed := m.scanner.feed_scan n m.input more
  unfold answer
  rcases hs : m.scanner.scan n m.input with ⟨out, input, t⟩
  rw [hs] at hfeed
  dsimp only at hfeed ⊢
  split
  · rename_i hdone
    have hmore : m.phaseBehind more = .done := by
      rw [phaseBehind, hfeed, Scanner.feed_done hdone]
      exact hdone
    rw [hmore]
    exact phaseBehind_done hdone more
  · split <;> rw [phaseBehind, phaseBehind, hfeed]

end Phases

variable {σ : Type} [ByteSource σ] [SerialSource σ] {source : σ} {s : Scanner} {pulls : Nat}
  {m : Marker σ}

/-- How often a marker source over `source` has read it for a block, and that the scanner `s` was
not done with what the reads before had got. -/
structure Pulls (source : σ) (s : Scanner) (pulls : Nat) (m : Marker σ) : Prop where
  source_eq : m.source = ByteSource.afterReads source (List.replicate pulls defaultChunk)
  wanted : ∀ i < pulls,
    (s.feed (ByteSource.reads source (List.replicate i defaultChunk))).2.phase ≠ .done
  /-- What was read has been scanned or is buffered, unless the source has ended. -/
  behind : (∀ more, m.phaseBehind more =
      (s.feed (ByteSource.reads source (List.replicate pulls defaultChunk) ++ more)).2.phase) ∨
    SerialSource.rest m.source = [] ∧ ∀ more, m.phaseBehind more = .done

theorem Pulls.start (source : σ) (start stop : Bytes) (singlePair : Bool) :
    Pulls source (.new start stop singlePair) 0 (ofMarkers source start stop singlePair) :=
  ⟨rfl, nofun, .inl fun _ => rfl⟩

theorem Pulls.of_phases {m' : Marker σ} (h : Pulls source s pulls m) (hsource : m'.source = m.source)
    (hphases : ∀ more, m'.phaseBehind more = m.phaseBehind more) : Pulls source s pulls m' := by
  refine ⟨hsource.trans h.source_eq, h.wanted, ?_⟩
  rcases h.behind with hscanned | ⟨hended, hdone⟩
  · exact .inl fun more => (hphases more).trans (hscanned more)
  · exact .inr ⟨hsource ▸ hended, fun more => (hphases more).trans (hdone more)⟩

theorem Pulls.answer (h : Pulls source s pulls m) (n : Nat) : Pulls source s pulls (m.answer n).2 :=
  h.of_phases (m.answer_frame n).1 (m.phaseBehind_answer n)

theorem Pulls.pull (h : Pulls source s pulls m) (hinput : m.input = [])
    (hlive : m.scanner.phase ≠ .done) :
    Pulls source s (pulls + 1) { m with
      source := (ByteSource.read m.source defaultChunk).2
      input := handedOver (ByteSource.read m.source defaultChunk).1 } := by
  have hnow : m.phaseBehind [] = m.scanner.phase := by simp [phaseBehind, hinput]
  -- A scanner that is not done has not been told of the end of the source.
  have hscanned := h.behind.resolve_right fun hended => hlive (hnow.symm.trans (hended.2 []))
  have hlater := hscanned []
  rw [List.append_nil, hnow] at hlater
  have hone : List.replicate (pulls + 1) defaultChunk =
      List.replicate pulls defaultChunk ++ [defaultChunk] := List.replicate_succ'
  have hafter : ByteSource.afterReads source (List.replicate (pulls + 1) defaultChunk) =
      (ByteSource.read m.source defaultChunk).2 := by
    rw [hone, ByteSource.afterReads_append, ← h.source_eq]
    rfl
  have hreads : ByteSource.reads source (List.replicate (pulls + 1) defaultChunk) =
      ByteSource.reads source (List.replicate pulls defaultChunk) ++
        handedOver (ByteSource.read m.source defaultChunk).1 := by
    rw [hone, ByteSource.reads_append, ← h.source_eq]
    simp [ByteSource.reads]
  refine ⟨hafter.symm, ?_, .inl fun more => ?_⟩
  · intro i hi
    rcases Nat.lt_succ_iff_lt_or_eq.1 hi with hlt | rfl
    · exact h.wanted i hlt
    · rw [← hlater]
      exact hlive
  · rw [hreads, List.append_assoc, ← hscanned]
    simp [phaseBehind, hinput]

/-- The source has ended. -/
theorem Pulls.ended {t : Scanner} (h : Pulls source s pulls m)
    (hrest : SerialSource.rest m.source = []) (ht : t.phase = .done) :
    Pulls source s pulls { m with scanner := t } :=
  ⟨h.source_eq, h.wanted, .inr ⟨hrest, phaseBehind_done ht⟩⟩

theorem Pulls.fetch (hsteady : Steady source) (h : Pulls source s pulls m) (hinput : m.input = [])
    (hlive : m.scanner.phase ≠ .done) (n fuel : Nat) :
    ∃ later, Pulls source s later (m.fetch n fuel).2 ∧ ((m.fetch n fuel).1 = none →
      (m.fetch n fuel).2.input = [] ∧ (m.fetch n fuel).2.scanner.phase ≠ .done) := by
  induction fuel generalizing m pulls with
  | zero => exact ⟨pulls, h, fun _ => ⟨hinput, hlive⟩⟩
  | succ fuel ih =>
    have hpull := h.pull hinput hlive
    have hhanded := SerialSource.handed m.source defaultChunk
    have hend := hsteady.afterReads (List.replicate pulls defaultChunk) [] defaultChunk (by decide)
    rw [ByteSource.afterReads, ← h.source_eq] at hend
    unfold Marker.fetch
    rcases hr : ByteSource.read m.source defaultChunk with ⟨e | _ | ⟨b, d⟩, t⟩ <;>
      rw [hr] at hpull hhanded hend <;> dsimp only at hpull hhanded hend ⊢
    · rw [show handedOver (.error e) = m.input from hinput.symm] at hpull
      exact ⟨pulls + 1, hpull, by simp⟩
    · have hrest : SerialSource.rest t = [] :=
        (List.append_eq_nil_iff.1 (hhanded.2.symm.trans (hend rfl))).2
      rw [show handedOver (.ok []) = m.input from hinput.symm] at hpull
      exact ⟨pulls + 1, hpull.ended hrest rfl, by simp⟩
    · have hanswer := hpull.answer n
      have hdry := answer_output { m with source := t, input := b :: d } n []
      have hstill := phase_of_answer_none (m := { m with source := t, input := b :: d }) (n := n)
      rw [show handedOver (.ok (b :: d)) = b :: d from rfl] at hanswer
      rcases ha : ({ m with source := t, input := b :: d } : Marker σ).answer n with ⟨_ | out, m₁⟩ <;>
        rw [ha] at hanswer hdry hstill <;> dsimp only at hanswer hdry hstill ⊢
      · exact ih hanswer (hdry.2.2.1 rfl) (hstill rfl)
      · exact ⟨pulls + 1, hanswer, by simp⟩

theorem Pulls.read (hsteady : Steady source) (h : Pulls source s pulls m) (n : Nat) :
    ∃ later, Pulls source s later (m.read n).2 := by
  have hanswer := h.answer n
  obtain ⟨-, -, hdry, -⟩ := m.answer_output n []
  have hstill := phase_of_answer_none (m := m) (n := n)
  unfold Marker.read
  split
  · exact ⟨pulls, h⟩
  rcases ha : m.answer n with ⟨_ | out, m₁⟩ <;> rw [ha] at hanswer hdry hstill <;>
    dsimp only at hanswer hdry hstill ⊢
  · obtain ⟨later, hfetch, hstarved⟩ := hanswer.fetch hsteady (hdry rfl) (hstill rfl) n patience
    rcases hf : m₁.fetch n patience with ⟨_ | r, m₂⟩ <;> rw [hf] at hfetch hstarved <;>
      dsimp only at hfetch hstarved ⊢
    · obtain ⟨hused, hlive⟩ := hstarved rfl
      obtain ⟨last, hagain, -⟩ :=
        hfetch.fetch hsteady hused hlive n (ByteSource.left m₂.source + 1)
      exact ⟨last, hagain⟩
    · exact ⟨later, hfetch⟩
  · exact ⟨pulls, hanswer⟩

theorem Pulls.afterReads (hsteady : Steady source) (h : Pulls source s pulls m) (sizes : List Nat) :
    ∃ later, Pulls source s later (ByteSource.afterReads m sizes) := by
  induction sizes generalizing m pulls with
  | nil => exact ⟨pulls, h⟩
  | cons n rest ih =>
    obtain ⟨later, hread⟩ := h.read hsteady n
    exact ih hread

omit [SerialSource σ] in
/-- Once its scanner is done, a marker source does not read its source. -/
theorem read_of_phase_done (hp : m.scanner.phase = .done) (n : Nat) :
    (m.read n).2.source = m.source ∧ (m.read n).2.scanner.phase = .done := by
  have hanswer : m.answer n = (some (m.scanner.takeTail n).1,
      { m with scanner := (m.scanner.takeTail n).2 }) := by
    simp only [answer, Scanner.scan_done hp, hp, if_true, List.length_nil, Nat.sub_zero,
      List.nil_append]
  unfold Marker.read
  split
  · exact ⟨rfl, hp⟩
  · rw [hanswer]
    exact ⟨rfl, hp⟩

omit [SerialSource σ] in
theorem source_of_phase_done (hp : m.scanner.phase = .done) (sizes : List Nat) :
    (ByteSource.afterReads m sizes).source = m.source := by
  induction sizes generalizing m with
  | nil => rfl
  | cons n rest ih =>
    obtain ⟨hsource, hdone⟩ := read_of_phase_done hp n
    exact (ih hdone).trans hsource

/-- What a marker source has read of a source of which the last bytes, `after`, are not needed: so
many blocks, and none behind the one with the last byte that is needed. -/
structure Frugal (source : σ) (after : Bytes) (m : Marker σ) (pulls : Nat) : Prop where
  source_eq : m.source = ByteSource.afterReads source (List.replicate pulls defaultChunk)
  needed : ∀ i < pulls,
    (ByteSource.reads source (List.replicate i defaultChunk)).length + after.length <
      (SerialSource.rest source).length
  enough : m.scanner.phase = .done → (SerialSource.rest source).length ≤
    (ByteSource.reads source (List.replicate pulls defaultChunk)).length + after.length
  stops : m.scanner.phase = .done → ∀ sizes, (ByteSource.afterReads m sizes).source = m.source

theorem Pulls.frugal {start stop region after : Bytes}
    (h : Pulls source (.new start stop true) pulls m)
    (hfirst : FirstRegion start stop (SerialSource.rest source) region (some after)) :
    Frugal source after m pulls := by
  have hdone (i : Nat) := Scanner.done_iff_of_firstRegion hfirst
    (ByteSource.reads_append_rest source (List.replicate i defaultChunk))
  refine ⟨h.source_eq, ?_, ?_, source_of_phase_done⟩
  · intro i hi
    exact Nat.lt_of_not_le fun hlong => h.wanted i hi ((hdone i).2 hlong)
  · intro hp
    rcases h.behind with hscanned | ⟨hended, -⟩
    · have hphase := hscanned []
      rw [List.append_nil, phaseBehind_done hp] at hphase
      exact (hdone pulls).1 hphase.symm
    · have hall := ByteSource.reads_append_rest source (List.replicate pulls defaultChunk)
      rw [← h.source_eq, hended, List.append_nil] at hall
      rw [hall]
      exact Nat.le_add_right _ _

/-- A marker source that stops behind the first region hands out that region, however it is read
and whatever blocks its source hands out, and reads no block behind the one in which the stop marker
ends. -/
theorem first_region_of_reads [BoundedSource σ] (hsteady : Steady source) (start stop : Bytes) :
    ∃ region after?, FirstRegion start stop (SerialSource.rest source) region after? ∧
      (∃ regions tail, Divided start stop (outside start) (SerialSource.rest source) regions tail ∧
        region = regions.head?.getD tail ∧ (after?.isSome = true ↔ regions ≠ [])) ∧
      HandsOut (ofMarkers source start stop true) region (if after?.isSome then 1 else 0) ∧
      ∀ after, after? = some after → ∀ sizes, ∃ pulls,
        Frugal source after (ByteSource.afterReads (ofMarkers source start stop true) sizes)
          pulls := by
  obtain ⟨region, after?, hfirst⟩ := exists_firstRegion start stop (SerialSource.rest source)
  obtain ⟨hout, hcloses, -⟩ := Scanner.scanned_of_firstRegion hfirst
  have hpending : (ofMarkers source start stop true).pending = region := hout
  have htotal : (ofMarkers source start stop true).total = if after?.isSome then 1 else 0 := hcloses
  have hhands := handsOut (m := ofMarkers source start stop true) rfl hsteady
  rw [hpending, htotal] at hhands
  refine ⟨region, after?, hfirst, hfirst.divided, hhands, ?_⟩
  rintro after rfl sizes
  obtain ⟨pulls, hpulls⟩ := (Pulls.start source start stop true).afterReads hsteady sizes
  exact ⟨pulls, hpulls.frugal hfirst⟩

/-- The source fails in the stop marker, which then ends at the front of the second block; the third
one is not read. -/
theorem first_region_of_reads_cut :
    let source : PlainSource :=
      ⟨[.bytes [9, 1, 4, 2], .fails ⟨.other, "cut"⟩, .bytes [3, 5, 1], .bytes [6, 2, 3]], none⟩
    let m := ofMarkers source [1] [2, 3] true
    Steady source ∧
      FirstRegion [1] [2, 3] (SerialSource.rest source) [4] (some [5, 1, 6, 2, 3]) ∧
      FailsAtMost source 1 ∧ ByteSource.failures m [2, 5, 3] = 1 ∧ Exhausted m [4] 1 [2, 5, 3] ∧
      (∃ pulls, Frugal source [5, 1, 6, 2, 3] (ByteSource.afterReads m [2, 5, 3]) pulls) ∧
      SerialSource.rest (ByteSource.afterReads m [2, 5, 3]).source = [6, 2, 3] := by
  intro source m
  have hsteady : Steady source := steady_plain (by simp) nofun
  have hopens : OnlyAtEnd [1] [9] := by decide
  have hcloses : OnlyAtEnd [2, 3] [4] := by decide
  have hfirst : FirstRegion [1] [2, 3] (SerialSource.rest source) [4] (some [5, 1, 6, 2, 3]) :=
    .closed (.of_onlyAtEnd hopens _) (by simp) (.of_onlyAtEnd hcloses _)
  have hfails : FailsAtMost source 1 := failsAtMost_plain source.reader none
  have hcount : ByteSource.failures m [2, 5, 3] = 1 := by decide +kernel
  obtain ⟨region, after?, hregion, -, hhands, hfrugal⟩ := first_region_of_reads hsteady [1] [2, 3]
  obtain ⟨rfl, rfl⟩ := hregion.unique hfirst
  have hend := hhands.ends [] [2, 5, 3] 1 hfails (by decide) (by decide)
  exact ⟨hsteady, hfirst, hfails, hcount, hend, hfrugal _ rfl [2, 5, 3], rfl⟩

end Marker

end StreamLayers
