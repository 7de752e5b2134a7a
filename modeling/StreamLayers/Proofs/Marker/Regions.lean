import StreamLayers.Marker

/-!
What the regions of data are, and that the scanner finds exactly these. Regions are told by leftmost
occurrences of the markers; the scanner sees one byte at a time through a window.
-/

namespace StreamLayers

/-- `data` is `before`, then `needle`, then `after`, and no occurrence of `needle` begins further
left. -/
structure Leftmost (needle data before after : Bytes) : Prop where
  eq : data = before ++ needle ++ after
  first : ∀ u v, data = u ++ needle ++ v → before.length ≤ u.length

/-- In `front` with the needle behind it, the needle occurs at the end only. -/
def OnlyAtEnd (needle front : Bytes) : Prop :=
  ∀ u v, front ++ needle = u ++ needle ++ v → v = []

theorem onlyAtEnd_iff {needle front : Bytes} :
    OnlyAtEnd needle front ↔ ∀ i < front.length, ¬ needle <+: (front ++ needle).drop i := by
  constructor
  · rintro h i hi ⟨v, hv⟩
    have hsplit := List.take_append_drop i (front ++ needle)
    rw [← hv, ← List.append_assoc] at hsplit
    have hlen := congrArg List.length hsplit
    rw [h _ v hsplit.symm] at hlen
    simp only [List.length_append, List.length_take, List.length_nil] at hlen
    omega
  · intro h u v huv
    have hlen := congrArg List.length huv
    simp only [List.length_append] at hlen
    rcases Nat.lt_or_ge u.length front.length with hlt | hge
    · refine absurd ⟨v, ?_⟩ (h u.length hlt)
      rw [huv, List.append_assoc, List.drop_left]
    · exact List.eq_nil_of_length_eq_zero (by omega)

instance (needle front : Bytes) : Decidable (OnlyAtEnd needle front) :=
  decidable_of_iff _ onlyAtEnd_iff.symm

namespace Leftmost

variable {needle data before after : Bytes}

theorem here (needle after : Bytes) : Leftmost needle (needle ++ after) [] after :=
  ⟨rfl, fun _ _ _ => Nat.zero_le _⟩

theorem isInfix (h : Leftmost needle data before after) : needle <:+: data :=
  ⟨before, after, h.eq.symm⟩

theorem length_eq (h : Leftmost needle data before after) :
    data.length = before.length + needle.length + after.length := by
  rw [h.eq, List.length_append, List.length_append]

theorem unique {u v : Bytes} (h : Leftmost needle data before after)
    (h' : Leftmost needle data u v) : before = u ∧ after = v := by
  have hlen : before.length = u.length :=
    Nat.le_antisymm (h.first u v h'.eq) (h'.first before after h.eq)
  have heq := h.eq.symm.trans h'.eq
  rw [List.append_assoc, List.append_assoc] at heq
  obtain ⟨hfront, hrest⟩ := List.append_inj heq hlen
  exact ⟨hfront, List.append_cancel_left hrest⟩

theorem eq_of_here (h : Leftmost needle (needle ++ data) before after) :
    before = [] ∧ after = data := h.unique (here needle data)

theorem of_cons {b : UInt8} (h : Leftmost needle (b :: data) before after)
    (hn : ¬ needle <+: b :: data) : ∃ u, before = b :: u ∧ Leftmost needle data u after := by
  have heq := h.eq
  cases before with
  | nil => exact absurd ⟨after, heq.symm⟩ hn
  | cons c u =>
    rw [List.cons_append, List.cons_append] at heq
    obtain ⟨rfl, hrest⟩ := List.cons.inj heq
    refine ⟨u, rfl, hrest, ?_⟩
    intro x y hxy
    have := h.first (b :: x) y (by rw [hxy]; rfl)
    simpa using this

theorem cons {b : UInt8} (h : Leftmost needle data before after) (hn : ¬ needle <+: b :: data) :
    Leftmost needle (b :: data) (b :: before) after := by
  refine ⟨by rw [h.eq]; rfl, ?_⟩
  intro u v huv
  cases u with
  | nil => exact absurd ⟨v, huv.symm⟩ hn
  | cons c u =>
    rw [List.cons_append, List.cons_append] at huv
    have := h.first u v (List.cons.inj huv).2
    simpa using this

/-- Where the needle occurs at all, it occurs leftmost somewhere. -/
theorem exists_of_isInfix (h : needle <:+: data) : ∃ u v, Leftmost needle data u v := by
  induction data with
  | nil =>
    obtain rfl := List.eq_nil_of_infix_nil h
    exact ⟨[], [], here [] []⟩
  | cons b rest ih =>
    by_cases hp : needle <+: b :: rest
    · obtain ⟨v, hv⟩ := hp
      exact ⟨[], v, hv ▸ here needle v⟩
    · obtain ⟨u, v, huv⟩ := ih ((List.infix_cons_iff.1 h).resolve_left hp)
      exact ⟨b :: u, v, huv.cons hp⟩

theorem onlyAtEnd (h : Leftmost needle data before after) : OnlyAtEnd needle before := by
  intro u v huv
  have hle := h.first u (v ++ after) (by rw [h.eq, huv, List.append_assoc])
  have hlen := congrArg List.length huv
  simp only [List.length_append] at hlen
  exact List.eq_nil_of_length_eq_zero (by omega)

theorem of_onlyAtEnd (h : OnlyAtEnd needle before) (after : Bytes) :
    Leftmost needle (before ++ needle ++ after) before after := by
  refine ⟨rfl, fun u v huv => Nat.le_of_not_lt fun hshort => ?_⟩
  have hfront : u ++ needle <+: before ++ needle := by
    refine List.prefix_of_prefix_length_le ⟨v, huv.symm⟩ (List.prefix_append _ after) ?_
    simp only [List.length_append]
    omega
  obtain ⟨w, hw⟩ := hfront
  obtain rfl := h u w hw.symm
  have hlen := congrArg List.length hw
  simp only [List.length_append, List.length_nil] at hlen
  omega

/-- Whether an occurrence is leftmost does not depend on what follows it. -/
theorem append_iff {more : Bytes} :
    Leftmost needle (data ++ more) before (after ++ more) ↔ Leftmost needle data before after := by
  constructor
  · intro h
    have heq := h.eq
    rw [← List.append_assoc] at heq
    rw [List.append_cancel_right heq]
    exact of_onlyAtEnd h.onlyAtEnd after
  · intro h
    rw [h.eq, List.append_assoc]
    exact of_onlyAtEnd h.onlyAtEnd (after ++ more)

end Leftmost

/-- The phase outside of all regions. -/
def outside (start : Bytes) : ScanPhase := if start = [] then .copying else .seeking

theorem outside_spec (start : Bytes) :
    outside start = .copying ∨ outside start = .seeking ∧ start ≠ [] := by
  unfold outside
  split
  · exact .inl rfl
  · rename_i hne
    exact .inr ⟨rfl, hne⟩

theorem ne_nil_of_outside {start : Bytes} (h : outside start = .seeking) : start ≠ [] := by
  intro hnil
  rw [outside, if_pos hnil] at h
  cases h

theorem entry_eq (start : Bytes) : Scanner.entry start = outside start := by
  cases start <;> rfl

/-- How data divides, from a phase on, into regions that a stop marker closes and the region that is
still open at its end. -/
inductive Divided (start stop : Bytes) : ScanPhase → Bytes → List Bytes → Bytes → Prop where
  | barren {data : Bytes} (absent : ¬ start <:+: data) : Divided start stop .seeking data [] []
  | opened {data skipped after tail : Bytes} {regions : List Bytes}
      (found : Leftmost start data skipped after)
      (rest : Divided start stop .copying after regions tail) :
      Divided start stop .seeking data regions tail
  | endless {data : Bytes} (always : stop = []) : Divided start stop .copying data [] data
  | unclosed {data : Bytes} (ends : stop ≠ []) (absent : ¬ stop <:+: data) :
      Divided start stop .copying data [] data
  | closed {data region after tail : Bytes} {regions : List Bytes} (ends : stop ≠ [])
      (found : Leftmost stop data region after)
      (rest : Divided start stop (outside start) after regions tail) :
      Divided start stop .copying data (region :: regions) tail

/-- All data divides, whatever the markers are. -/
theorem exists_divided (start stop data : Bytes) {phase : ScanPhase}
    (hphase : phase = .copying ∨ phase = .seeking ∧ start ≠ []) :
    ∃ regions tail, Divided start stop phase data regions tail := by
  induction hlen : data.length using Nat.strongRecOn generalizing data phase with
  | _ len ih =>
    rcases hphase with rfl | ⟨rfl, hstart⟩
    · by_cases hstop : stop = []
      · exact ⟨[], data, .endless hstop⟩
      · by_cases hin : stop <:+: data
        · obtain ⟨region, after, hfound⟩ := Leftmost.exists_of_isInfix hin
          have hshort : after.length < len := by
            have := hfound.length_eq
            have := List.length_pos_iff.2 hstop
            omega
          obtain ⟨regions, tail, hrest⟩ := ih _ hshort after (outside_spec start) rfl
          exact ⟨region :: regions, tail, .closed hstop hfound hrest⟩
        · exact ⟨[], data, .unclosed hstop hin⟩
    · by_cases hin : start <:+: data
      · obtain ⟨skipped, after, hfound⟩ := Leftmost.exists_of_isInfix hin
        have hshort : after.length < len := by
          have := hfound.length_eq
          have := List.length_pos_iff.2 hstart
          omega
        obtain ⟨regions, tail, hrest⟩ := ih _ hshort after (.inl rfl) rfl
        exact ⟨regions, tail, .opened hfound hrest⟩
      · exact ⟨[], [], .barren hin⟩

/-- And it divides in one way only. -/
theorem Divided.unique {start stop data tail tail' : Bytes} {phase : ScanPhase}
    {regions regions' : List Bytes} (h : Divided start stop phase data regions tail)
    (h' : Divided start stop phase data regions' tail') : regions = regions' ∧ tail = tail' := by
  induction h generalizing regions' tail' with
  | barren absent =>
    cases h' with
    | barren => exact ⟨rfl, rfl⟩
    | opened found _ => exact absurd found.isInfix absent
  | opened found rest ih =>
    cases h' with
    | barren absent => exact absurd found.isInfix absent
    | opened found' rest' =>
      obtain ⟨-, rfl⟩ := found.unique found'
      exact ih rest'
  | endless always =>
    cases h' with
    | endless => exact ⟨rfl, rfl⟩
    | unclosed ends _ => exact absurd always ends
    | closed ends _ _ => exact absurd always ends
  | unclosed ends absent =>
    cases h' with
    | endless always => exact absurd always ends
    | unclosed => exact ⟨rfl, rfl⟩
    | closed _ found _ => exact absurd found.isInfix absent
  | closed ends found rest ih =>
    cases h' with
    | endless always => exact absurd always ends
    | unclosed _ absent => exact absurd found.isInfix absent
    | closed _ found' rest' =>
      obtain ⟨rfl, rfl⟩ := found.unique found'
      obtain ⟨rfl, rfl⟩ := ih rest'
      exact ⟨rfl, rfl⟩

namespace Scanner

variable {s : Scanner} {d before after region : Bytes}

/-- The window over the last bytes seen, at most `n` of them, after one more byte. -/
def slide (n : Nat) (window : Bytes) (b : UInt8) : Bytes :=
  if n < (window ++ [b]).length then (window ++ [b]).drop 1 else window ++ [b]

theorem step_seeking (hp : s.phase = .seeking) (b : UInt8) :
    s.step b =
      if slide s.start.length s.window b = s.start then
        (none, { s with window := [], phase := .copying })
      else (none, { s with window := slide s.start.length s.window b }) := by
  simp only [step, hp]
  rfl

theorem step_copying (hp : s.phase = .copying) (hstop : s.stop ≠ []) (b : UInt8) :
    s.step b =
      if (s.window ++ [b]).length < s.stop.length then (none, { s with window := s.window ++ [b] })
      else if s.window ++ [b] = s.stop then (none, s.endRegion)
      else ((s.window ++ [b]).head?, { s with window := (s.window ++ [b]).drop 1 }) := by
  have hne : ¬ s.stop.isEmpty = true := by simpa using hstop
  simp only [step, hp]
  rw [if_neg hne]

theorem not_prefix_of_ne {needle window : Bytes} (hlen : window.length = needle.length)
    (hne : window ≠ needle) (d : Bytes) : ¬ needle <+: window ++ d := by
  intro h
  have := List.prefix_of_prefix_length_le h (List.prefix_append window d) (Nat.le_of_eq hlen.symm)
  exact hne (this.eq_of_length hlen.symm).symm

/-- The window moves on only past a byte at which the needle does not begin. -/
theorem slide_spec {needle window : Bytes} (hw : window.length ≤ needle.length)
    (hne : window ≠ needle) (b : UInt8) (d : Bytes) :
    (slide needle.length window b).length ≤ needle.length ∧
      (slide needle.length window b ++ d = window ++ b :: d ∨
        ∃ c, window ++ b :: d = c :: (slide needle.length window b ++ d) ∧
          ¬ needle <+: window ++ b :: d) := by
  unfold slide
  split
  · rename_i hfull
    rw [List.length_append, List.length_singleton] at hfull
    have hlen : window.length = needle.length := by omega
    cases window with
    | nil => exact absurd (List.eq_nil_of_length_eq_zero hlen.symm).symm hne
    | cons c w =>
      refine ⟨?_, .inr ⟨c, ?_, not_prefix_of_ne hlen hne (b :: d)⟩⟩
      · exact Nat.le_of_eq (by simpa using hlen)
      · simp
  · rename_i hroom
    exact ⟨by omega, .inl (by simp)⟩

/-- A scanner in search of a start marker goes on right behind its leftmost occurrence. -/
theorem feed_opened (hp : s.phase = .seeking) (hw : s.window.length ≤ s.start.length)
    (hne : s.window ≠ s.start) (h : Leftmost s.start (s.window ++ d) before after) :
    s.feed d = ({ s with window := [], phase := .copying } : Scanner).feed after := by
  induction d generalizing s before with
  | nil =>
    have hlen := h.length_eq
    rw [List.append_nil] at h hlen
    have hfull : s.window.length = s.start.length := by omega
    exact absurd (h.isInfix.eq_of_length hfull.symm).symm hne
  | cons b d ih =>
    obtain ⟨hle, hmoved⟩ := slide_spec hw hne b d
    have hnext : ∃ u, Leftmost s.start (slide s.start.length s.window b ++ d) u after := by
      rcases hmoved with hsame | ⟨c, hc, hnot⟩
      · exact ⟨before, hsame ▸ h⟩
      · rw [hc] at h hnot
        obtain ⟨u, -, hu⟩ := h.of_cons hnot
        exact ⟨u, hu⟩
    obtain ⟨u, hu⟩ := hnext
    rw [feed_cons, step_seeking hp]
    split
    · rename_i hfound
      rw [hfound] at hu
      obtain ⟨-, rfl⟩ := hu.eq_of_here
      rfl
    · rename_i hmiss
      exact ih (s := { s with window := slide s.start.length s.window b }) hp hle hmiss hu

theorem feed_barren (hp : s.phase = .seeking) (hw : s.window.length ≤ s.start.length)
    (hne : s.window ≠ s.start) (h : ¬ s.start <:+: s.window ++ d) :
    ∃ w, s.feed d = ([], { s with window := w }) := by
  induction d generalizing s with
  | nil => exact ⟨s.window, rfl⟩
  | cons b d ih =>
    obtain ⟨hle, hmoved⟩ := slide_spec hw hne b d
    have hnext : ¬ s.start <:+: slide s.start.length s.window b ++ d := by
      intro hin
      refine h ?_
      rcases hmoved with hsame | ⟨c, hc, -⟩
      · exact hsame ▸ hin
      · rw [hc]
        exact hin.trans (List.suffix_cons c _).isInfix
    rw [feed_cons, step_seeking hp]
    split
    · rename_i hfound
      rw [hfound] at hnext
      exact absurd (List.prefix_append s.start d).isInfix hnext
    · rename_i hmiss
      exact ih (s := { s with window := slide s.start.length s.window b }) hp hle hmiss hnext

/-- A scanner in a region hands out what precedes the leftmost stop marker and goes on right behind
the marker. -/
theorem feed_closed (hp : s.phase = .copying) (hstop : s.stop ≠ [])
    (hw : s.window.length < s.stop.length) (h : Leftmost s.stop (s.window ++ d) region after) :
    s.feed d = (region ++ (s.endRegion.feed after).1, (s.endRegion.feed after).2) := by
  induction d generalizing s region with
  | nil =>
    have := h.length_eq
    rw [List.append_nil] at this
    omega
  | cons b d ih =>
    have hpush : s.window ++ b :: d = s.window ++ [b] ++ d := by simp
    rw [hpush] at h
    rw [feed_cons, step_copying hp hstop]
    split
    · rename_i hshort
      exact ih (s := { s with window := s.window ++ [b] }) hp hstop hshort h
    · rename_i hfull
      have hlen : (s.window ++ [b]).length = s.stop.length := by
        rw [List.length_append, List.length_singleton] at hfull ⊢
        omega
      split
      · rename_i hfound
        rw [hfound] at h
        obtain ⟨rfl, rfl⟩ := h.eq_of_here
        rfl
      · rename_i hmiss
        have hnot := not_prefix_of_ne hlen hmiss d
        rcases hpushed : s.window ++ [b] with _ | ⟨c, w⟩
        · simp at hpushed
        · rw [hpushed] at h hnot hlen
          obtain ⟨r, rfl, hr⟩ := h.of_cons hnot
          have hroom : w.length < s.stop.length := by
            rw [List.length_cons] at hlen
            omega
          have := ih (s := { s with window := w }) hp hstop hroom hr
          simp only [List.head?_cons, List.drop_succ_cons, List.drop_zero, this]
          rfl

theorem feed_unclosed (hp : s.phase = .copying) (hstop : s.stop ≠ [])
    (hw : s.window.length < s.stop.length) (h : ¬ s.stop <:+: s.window ++ d) :
    ∃ w, (s.feed d).2 = { s with window := w } ∧ (s.feed d).1 ++ w = s.window ++ d := by
  induction d generalizing s with
  | nil => exact ⟨s.window, rfl, by simp⟩
  | cons b d ih =>
    have hpush : s.window ++ b :: d = s.window ++ [b] ++ d := by simp
    rw [hpush] at h ⊢
    rw [feed_cons, step_copying hp hstop]
    split
    · rename_i hshort
      exact ih (s := { s with window := s.window ++ [b] }) hp hstop hshort h
    · rename_i hfull
      split
      · rename_i hfound
        rw [hfound] at h
        exact absurd (List.prefix_append s.stop d).isInfix h
      · rcases hpushed : s.window ++ [b] with _ | ⟨c, w⟩
        · simp at hpushed
        · rw [hpushed] at h
          have hroom : w.length < s.stop.length := by
            have := congrArg List.length hpushed
            rw [List.length_append, List.length_singleton, List.length_cons] at this
            omega
          have hnot : ¬ s.stop <:+: w ++ d := fun hin => h (hin.trans (List.suffix_cons c _).isInfix)
          obtain ⟨v, hv, hout⟩ := ih (s := { s with window := w }) hp hstop hroom hnot
          refine ⟨v, hv, ?_⟩
          simp only [List.head?_cons, List.drop_succ_cons, List.drop_zero]
          exact congrArg (c :: ·) hout

theorem feed_endless (hp : s.phase = .copying) (hstop : s.stop = []) : s.feed d = (d, s) := by
  have hstep (b : UInt8) : s.step b = (some b, s) := by simp [step, hp, hstop]
  induction d with
  | nil => rfl
  | cons b d ih =>
    rw [feed_cons, hstep, ih]
    rfl

theorem feed_done (hp : s.phase = .done) (data : Bytes) : s.feed data = ([], s) := by
  have hstep (b : UInt8) : s.step b = (none, s) := by simp [step, hp]
  induction data with
  | nil => rfl
  | cons b rest ih =>
    rw [feed_cons, hstep, ih]
    rfl

/-- All that a scanner still hands out if this is the rest of the data. -/
def output (s : Scanner) (data : Bytes) : Bytes := (s.feed data).1 ++ (s.feed data).2.finish.window

/-- How many regions a scanner has closed at the end of the data. -/
def closes (s : Scanner) (data : Bytes) : Nat := (s.feed data).2.regions

end Scanner

/-- What is handed out of data that divides in this way. -/
def handedRegions (singlePair : Bool) (regions : List Bytes) (tail : Bytes) : Bytes :=
  if singlePair then regions.head?.getD tail else regions.flatten ++ tail

/-- A scanner hands out the regions that the data divides into, or the first of them. -/
theorem Divided.scanned {start stop data tail : Bytes} {phase : ScanPhase} {regions : List Bytes}
    (h : Divided start stop phase data regions tail) (hseek : phase = .seeking → start ≠ [])
    {s : Scanner} (hstart : s.start = start) (hstop : s.stop = stop) (hp : s.phase = phase)
    (hw : s.window = []) :
    s.output data = handedRegions s.singlePair regions tail ∧
      (s.singlePair = false → s.closes data = s.regions + regions.length) := by
  have hnone (singlePair : Bool) (tail : Bytes) : handedRegions singlePair [] tail = tail := by
    cases singlePair <;> rfl
  induction h generalizing s with
  | barren absent =>
    have hne := hseek rfl
    obtain ⟨w, hfeed⟩ := Scanner.feed_barren (s := s) hp (by simp [hw]) (by simp [hw, hstart, hne])
      (by simpa [hw, hstart] using absent)
    simp [Scanner.output, Scanner.closes, hfeed, Scanner.finish, hp, hnone]
  | opened found rest ih =>
    have hne := hseek rfl
    have hfeed := Scanner.feed_opened (s := s) hp (by simp [hw]) (by simp [hw, hstart, hne])
      (by simpa [hw, hstart] using found)
    have hrest := ih nofun (s := { s with window := [], phase := .copying }) hstart hstop rfl rfl
    simpa only [Scanner.output, Scanner.closes, hfeed] using hrest
  | endless always =>
    have hfeed {d : Bytes} := Scanner.feed_endless (s := s) (d := d) hp (hstop.trans always)
    simp [Scanner.output, Scanner.closes, hfeed, Scanner.finish, hw, hnone]
  | unclosed ends absent =>
    subst hstop
    obtain ⟨w, hscanner, hout⟩ := Scanner.feed_unclosed (s := s) hp ends
      (by simpa [hw] using List.length_pos_iff.2 ends) (by simpa [hw] using absent)
    rw [hw, List.nil_append] at hout
    simp [Scanner.output, Scanner.closes, hscanner, Scanner.finish, hp, hout, hnone]
  | closed ends found rest ih =>
    subst hstop
    have hfeed := Scanner.feed_closed (s := s) hp ends
      (by simpa [hw] using List.length_pos_iff.2 ends) (by simpa [hw] using found)
    cases hpair : s.singlePair with
    | true =>
      have hdone : s.endRegion.phase = .done := by simp [Scanner.endRegion, hpair]
      have hwindow : s.endRegion.finish.window = [] := by
        unfold Scanner.finish
        split <;> rfl
      refine ⟨?_, nofun⟩
      simp only [Scanner.output, hfeed, Scanner.feed_done hdone, hwindow, List.append_nil]
      rfl
    | false =>
      have hkept : s.endRegion.singlePair = false := hpair
      have hrest := ih ne_nil_of_outside (s := s.endRegion) hstart rfl
        (by simp [Scanner.endRegion, hpair, hstart, entry_eq]) rfl
      rw [hkept] at hrest
      obtain ⟨hout, hcloses⟩ := hrest
      simp only [Scanner.output, Scanner.closes, hfeed] at hout hcloses ⊢
      rw [List.append_assoc, hout, hcloses trivial]
      exact ⟨by simp [handedRegions], fun _ => by simp [Scanner.endRegion]; omega⟩

/-- What is extracted from data are its regions, up to leftmost markers, and the one still open at
its end. -/
theorem extract_eq_iff (data start stop out : Bytes) :
    extract data start stop = out ↔ ∃ regions tail,
      Divided start stop (outside start) data regions tail ∧ out = regions.flatten ++ tail := by
  have hscan {regions : List Bytes} {tail : Bytes}
      (h : Divided start stop (outside start) data regions tail) :
      extract data start stop = regions.flatten ++ tail :=
    (h.scanned ne_nil_of_outside (s := .new start stop false) rfl rfl (entry_eq start) rfl).1
  constructor
  · rintro rfl
    obtain ⟨regions, tail, h⟩ := exists_divided start stop data (outside_spec start)
    exact ⟨regions, tail, h, hscan h⟩
  · rintro ⟨regions, tail, h, rfl⟩
    exact hscan h

end StreamLayers
