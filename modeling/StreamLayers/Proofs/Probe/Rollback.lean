import StreamLayers.Proofs.Probe.Calls

/-!
Resets of a probe. The count goes back to what it was when the probe last set a mark itself; the
source goes back to whatever mark it has. Where these are one mark, both go back equally far, and no
byte is counted twice.
-/

namespace StreamLayers

namespace Watch

open Positioned

variable {σ : Type} [ByteSource σ] [Positioned σ]

/-- A call of the probe, or a mark that is set on its source behind its back. -/
inductive Event where
  | call (c : Probe.Call)
  | markBehind (limit : MarkLimit)
  deriving Repr

def apply (w : Watch σ) : Event → Watch σ
  | .call c => w.call c
  | .markBehind limit => w.moveTo (w.probe.setSource (ByteSource.mark w.probe.source limit).2)

def after (w : Watch σ) (events : List Event) : Watch σ := events.foldl apply w

/-- Resets apart, the source moves past the bytes that are returned and not otherwise. -/
def Carried : Watch σ → List Event → Prop
  | _, [] => True
  | w, event :: rest =>
    (event ≠ .call .reset →
      position (w.apply event).probe.source + w.heard.length =
        position w.probe.source + (w.apply event).heard.length) ∧
    Carried (w.apply event) rest

/-- `P` holds before every reset of a run. -/
def EachReset (P : Watch σ → Prop) : Watch σ → List Event → Prop
  | _, [] => True
  | w, event :: rest => (event = .call .reset → P w) ∧ EachReset P (w.apply event) rest

/-- A reset, if it succeeds, takes the count back as far as the source. -/
def Retraces (w : Watch σ) : Prop :=
  w.probe.reset.1 = .ok () →
    w.probe.bytes + position w.probe.reset.2.source =
      w.probe.reset.2.bytes + position w.probe.source

/-- A reset, if it succeeds, takes the source to where the probe last set a mark, or leaves it where
it is if the probe has set none. -/
def Homes (w : Watch σ) : Prop :=
  w.probe.reset.1 = .ok () →
    position w.probe.reset.2.source = w.home.getD (position w.probe.source)

/-- A reset that fails moves neither the count nor the source. -/
theorem reset_failed (w : Watch σ) (hfail : w.probe.reset.1.isOk = false) :
    w.probe.reset.2.bytes = w.probe.bytes ∧
      position w.probe.reset.2.source = position w.probe.source := by
  obtain ⟨hsource, hresult, -, hbytes⟩ := w.probe.reset_moved
  rw [hfail] at hbytes
  rw [hsource]
  exact ⟨hbytes, position_reset w.probe.source (hresult ▸ hfail)⟩

/-- A probe whose count is its distance from `start`, and which has returned all that lies between
there and its high-water mark. -/
structure InStep (start : Nat) (w : Watch σ) : Prop extends Counted w where
  position_eq : position w.probe.source = start + w.probe.bytes
  home_eq : w.home = w.probe.markBytes.map (start + ·)
  returned_eq : w.returned = Finset.Ico start (start + w.probe.highWater)

namespace InStep

variable {start : Nat} {w : Watch σ}

theorem attach (source : σ) (site : CallSite) : InStep (position source) (attach source site) where
  toCounted := .attach source site
  position_eq := rfl
  home_eq := rfl
  returned_eq := by simp [returned, Watch.attach, Probe.attach]

theorem card_returned (h : InStep start w) : w.returned.card = w.largest := by
  rw [h.returned_eq, Nat.card_Ico, h.highWater_eq]
  omega

/-- In step, the two notions of a good reset are one. -/
theorem retraces_iff (h : InStep start w) : w.Retraces ↔ w.Homes := by
  refine imp_congr_right fun hok => ?_
  obtain ⟨-, -, -, hbytes⟩ := w.probe.reset_moved
  rw [hok] at hbytes
  have hbytes : w.probe.reset.2.bytes = w.probe.markBytes.getD w.probe.bytes := hbytes
  have hposition := h.position_eq
  rw [h.home_eq, hbytes]
  cases w.probe.markBytes with
  | none => simp
  | some m =>
    simp
    omega

/-- The probe has not read and has the same notes. -/
theorem moveTo (h : InStep start w) {p : Probe σ} (hcounted : Counted (w.moveTo p))
    (hwater : p.highWater = w.probe.highWater) (hmark : p.markBytes = w.probe.markBytes)
    (hposition : position p.source = start + p.bytes) : InStep start (w.moveTo p) where
  toCounted := hcounted
  position_eq := hposition
  home_eq := h.home_eq.trans (congrArg _ hmark.symm)
  returned_eq := h.returned_eq.trans (congrArg (fun n => Finset.Ico start (start + n)) hwater.symm)

theorem read (h : InStep start w) {n : Nat}
    (hmove : position (w.call (.read n)).probe.source + w.heard.length =
      position w.probe.source + (w.call (.read n)).heard.length) :
    InStep start (w.call (.read n)) := by
  have hcounted := h.call (.read n)
  have hposition := h.position_eq
  obtain ⟨e, s, hr⟩ | ⟨data, s, hr⟩ := w.probe.read_cases n <;>
    simp only [call, hr] at hmove hcounted ⊢
  · refine h.moveTo hcounted rfl rfl ?_
    simp only [Watch.moveTo] at hmove
    show position s = start + w.probe.bytes
    have hmove : position s + w.heard.length = position w.probe.source + w.heard.length := hmove
    omega
  · refine ⟨hcounted, ?_, h.home_eq, ?_⟩
    · show position s = start + (w.probe.bytes + data.length)
      rw [List.length_append, List.length_zipIdx] at hmove
      have hmove : position s + w.heard.length =
        position w.probe.source + (w.heard.length + data.length) := hmove
      omega
    · -- The bytes start where the count is, which is not past the high-water mark.
      have hreturned := h.returned_eq
      have hbytes := h.bytes_le
      simp only [returned, List.map_append, List.toFinset_append, List.zipIdx_map_snd] at hreturned ⊢
      rw [hreturned]
      ext k
      show _ ↔ k ∈ Finset.Ico start (start + max w.probe.highWater (w.probe.bytes + data.length))
      simp only [Finset.mem_union, List.mem_toFinset, List.mem_range'_1, Finset.mem_Ico]
      omega

theorem mark (h : InStep start w) {limit : MarkLimit}
    (hmove : position (w.call (.mark limit)).probe.source + w.heard.length =
      position w.probe.source + (w.call (.mark limit)).heard.length) :
    InStep start (w.call (.mark limit)) := by
  have hcounted := h.call (.mark limit)
  have hposition := h.position_eq
  simp only [call, Probe.setMark] at hmove hcounted ⊢
  rcases hm : ByteSource.mark w.probe.source limit with ⟨e | u, s⟩ <;>
    simp only [hm] at hmove hcounted ⊢
  · exact h.moveTo hcounted rfl rfl ((Nat.add_right_cancel hmove).trans hposition)
  · exact ⟨hcounted, (Nat.add_right_cancel hmove).trans hposition, congrArg some hposition,
      h.returned_eq⟩

theorem reset (h : InStep start w) (hhome : w.Homes) : InStep start (w.call .reset) := by
  have hretraces := h.retraces_iff.2 hhome
  have hcounted := h.call .reset
  have hposition := h.position_eq
  obtain ⟨source, bytes, hq⟩ := w.probe.reset_frame
  refine h.moveTo hcounted ?_ ?_ ?_
  · rw [hq]
  · rw [hq]
  · rcases hok : w.probe.reset.1 with e | u
    · obtain ⟨hbytes, hkept⟩ := w.reset_failed (by rw [hok]; rfl)
      omega
    · have := hretraces hok
      omega

theorem close (h : InStep start w)
    (hmove : position w.probe.close.2.source = position w.probe.source) :
    InStep start (w.call .close) := by
  have hcounted := h.call .close
  obtain ⟨source, closed, hq⟩ := w.probe.close_frame
  simp only [call, hq] at hmove hcounted ⊢
  exact h.moveTo hcounted rfl rfl (hmove.trans h.position_eq)

/-- As long as resets go home, no event puts the probe out of step. -/
theorem apply (h : InStep start w) {event : Event}
    (hmove : event ≠ .call .reset →
      position (w.apply event).probe.source + w.heard.length =
        position w.probe.source + (w.apply event).heard.length)
    (hhome : event = .call .reset → w.Homes) : InStep start (w.apply event) := by
  cases event with
  | call c =>
    cases c with
    | read n => exact h.read (hmove nofun)
    | mark limit => exact h.mark (hmove nofun)
    | reset => exact h.reset (hhome rfl)
    | close => exact h.close (Nat.add_right_cancel (hmove nofun))
  | markBehind limit =>
    exact h.moveTo (h.toCounted.moveTo rfl rfl h.bytes_le h.mark_le) rfl rfl
      ((Nat.add_right_cancel (hmove nofun)).trans h.position_eq)

variable {events : List Event}

theorem eachReset_iff (h : InStep start w) (hcarried : Carried w events) :
    EachReset Retraces w events ↔ EachReset Homes w events := by
  induction events generalizing w with
  | nil => exact Iff.rfl
  | cons event rest ih =>
    obtain ⟨hmove, hrest⟩ := hcarried
    simp only [EachReset, h.retraces_iff]
    exact and_congr_right fun hhome => ih (h.apply hmove hhome) hrest

theorem after (h : InStep start w) (hcarried : Carried w events)
    (hhomes : EachReset Homes w events) : InStep start (w.after events) := by
  induction events generalizing w with
  | nil => exact h
  | cons event rest ih => exact ih (h.apply hcarried.1 hhomes.1) hcarried.2 hhomes.2

end InStep

/-- A paced source is carried through every run. -/
theorem carried_of_paced [Paced σ] (w : Watch σ) (events : List Event) : Carried w events := by
  induction events generalizing w with
  | nil => exact trivial
  | cons event rest ih =>
    refine ⟨fun hmove => ?_, ih _⟩
    cases event with
    | call c =>
      cases c with
      | read n =>
        have hread : position (w.probe.read n).2.source =
            position w.probe.source + (handedOver (w.probe.read n).1).length :=
          Paced.position_read w.probe n
        obtain ⟨hprobe, -, hheard⟩ := w.call_read n
        simp only [apply]
        rw [hprobe, hheard, hread, List.length_append, List.length_zipIdx]
        omega
      | mark limit =>
        have hmark : position (w.probe.setMark limit).2.source = position w.probe.source :=
          Paced.position_mark w.probe limit
        obtain ⟨hprobe, hheard, -⟩ := w.call_mark limit
        simp only [apply]
        rw [hprobe, hheard, hmark]
      | reset => exact absurd rfl hmove
      | close => exact congrArg (· + _) (Paced.position_close w.probe)
    | markBehind limit => exact congrArg (· + _) (Paced.position_mark w.probe.source limit)

/-- All that a probe has counted is due, if nothing of it was settled. -/
theorem due_after {w : Watch σ} (hdue : w.probe.due = w.probe.tally) (events : List Event) :
    (w.after events).probe.due = (w.after events).probe.tally ∧
      (w.after events).probe.site = w.probe.site := by
  induction events generalizing w with
  | nil => exact ⟨hdue, rfl⟩
  | cons event rest ih =>
    have hstep : (w.apply event).probe.due = (w.apply event).probe.tally ∧
        (w.apply event).probe.site = w.probe.site := by
      cases event with
      | call c =>
        obtain ⟨hsite, t, hd, ht⟩ := w.due_call c
        exact ⟨by rw [apply, hd, ht, hdue], hsite⟩
      | markBehind limit => exact ⟨hdue, rfl⟩
    obtain ⟨hlater, hsite⟩ := ih hstep.1
    exact ⟨hlater, hsite.trans hstep.2⟩

/-- The resets of a probe all take its count back as far as its source if and only if each of them
takes the source to where the probe last set a mark. Then the site gets no byte twice: the bytes
that the probe adds to it are as many as the places of the stream that it has returned. -/
theorem resets_retrace_iff (source : σ) (site : CallSite) {events : List Event}
    (hcarried : Carried (attach source site) events) {r : Registry} (hr : r.Sound) :
    let w := (attach source site).after events
    (w.probe.reset.1.isOk = false → w.probe.reset.2.bytes = w.probe.bytes ∧
      position w.probe.reset.2.source = position w.probe.source) ∧
    (EachReset Retraces (attach source site) events ↔
      EachReset Homes (attach source site) events) ∧
    (EachReset Homes (attach source site) events →
      position w.probe.source = position source + w.probe.bytes ∧
      ((w.probe.settle r).2.total site).bytes =
        (r.total site).bytes + UInt64.ofNat w.returned.card) := by
  intro w
  have hstart := InStep.attach source site
  refine ⟨w.reset_failed, hstart.eachReset_iff hcarried, fun hhomes => ?_⟩
  have hstep : InStep (position source) w := hstart.after hcarried hhomes
  obtain ⟨hdue, hsite⟩ : w.probe.due = w.probe.tally ∧ w.probe.site = site := due_after rfl events
  refine ⟨hstep.position_eq, ?_⟩
  have htotal := Probe.total_settle hr w.probe site
  have hwater := hstep.highWater_eq
  rw [if_pos hsite.symm, hdue] at htotal
  rw [htotal, hstep.card_returned, ← hwater]
  rfl

/-- A mark behind the probe is followed by one of its own, which is the one that a reset goes back
to. -/
theorem resets_retrace_iff_remarked :
    let source : MockSource := { rest := [1, 2, 3, 4, 5, 6, 7, 8] }
    let b : Replay MockSource :=
      Replay.withStore source (Store.Settings.build ⟨some 2, some "dir"⟩ true)
    let site : CallSite := ⟨"a", 1, 1⟩
    let events : List Event :=
      [.markBehind .unlimited, .call (.read 2), .call (.mark .unlimited), .call (.read 3),
        .call .reset, .call (.read 4)]
    let w := (attach b site).after events
    Carried (attach b site) events ∧ Registry.Sound {} ∧ EachReset Homes (attach b site) events ∧
      ((w.probe.settle {}).2.total site).bytes =
        (Registry.total {} site).bytes + UInt64.ofNat w.returned.card ∧
      w.returned.card = 5 := by
  intro source b site events w
  have hcarried : Carried (attach b site) events := carried_of_paced _ _
  have hhomes : EachReset Homes (attach b site) events := by
    refine ⟨?_, ?_, ?_, ?_, fun _ _ => by decide +kernel, ?_, trivial⟩ <;> exact nofun
  obtain ⟨-, -, hcounts⟩ := resets_retrace_iff b site hcarried Registry.sound_empty
  exact ⟨hcarried, Registry.sound_empty, hhomes, (hcounts hhomes).2, by decide +kernel⟩

/-- The mark is not the probe's own, so a reset takes the source back and not the count: four bytes
are read twice and counted as eight. -/
theorem reset_behind_counts_twice :
    let source : MockSource := { rest := [1, 2, 3, 4, 5, 6, 7, 8] }
    let b : Replay MockSource := Replay.withStore source (Store.Settings.build {} true)
    let site : CallSite := ⟨"a", 1, 1⟩
    let events : List Event :=
      [.markBehind .unlimited, .call (.read 4), .call .reset, .call (.read 4)]
    let w := (attach b site).after events
    ¬ EachReset Retraces (attach b site) events ∧ w.returned.card = 4 ∧
      ((w.probe.settle {}).2.total site).bytes = 8 := by
  intro source b site events w
  refine ⟨fun hresets => ?_, by decide +kernel, by decide +kernel⟩
  obtain ⟨-, -, hreset, -⟩ := hresets
  have hretraces := hreset rfl (eq_ok_of_isOk (by decide +kernel))
  revert hretraces
  decide +kernel

end Watch

end StreamLayers
