import Mathlib.Data.Finset.Union
import Mathlib.Order.Interval.Finset.Nat
import StreamLayers.Proofs.Probe.Registry
import StreamLayers.Proofs.Stack.Cursors

/-!
Probes under watch. Beside what a probe itself knows, a watch notes where in the stream the bytes
came from that its reads have returned, and where the source was when the probe last set a mark.
-/

namespace StreamLayers

/-- A source that knows its place in the stream. A reset that fails does not move it. -/
class Positioned (σ : Type) [ByteSource σ] where
  position : σ → Nat
  position_reset : ∀ s : σ, (ByteSource.reset s).1.isOk = false →
    position (ByteSource.reset s).2 = position s

open Positioned

/-- Reads move the source past what they hand over, and marks and closes do not move it. -/
class Paced (σ : Type) [ByteSource σ] [Positioned σ] : Prop where
  position_read : ∀ (s : σ) (n : Nat), position (ByteSource.read s n).2 =
    position s + (handedOver (ByteSource.read s n).1).length
  position_mark : ∀ (s : σ) (limit : MarkLimit), position (ByteSource.mark s limit).2 = position s
  position_close : ∀ s : σ, position (ByteSource.close s).2 = position s

section Sources

variable {κ σ : Type} [ByteSource σ]

instance : Positioned (Replay σ) where
  position := Replay.position
  position_reset b := b.reset_moved.2.2

variable [Positioned σ]

instance : Positioned (Once σ) where
  position g := position g.inner
  position_reset g := position_reset g.inner

instance : Positioned (Shield σ) where
  position g := position g.inner
  position_reset g := position_reset g.inner

instance : Positioned (Probe σ) where
  position p := position p.source
  position_reset p hfail := by
    obtain ⟨hsource, hresult, -⟩ := p.reset_moved
    show position p.reset.2.source = position p.source
    rw [hsource]
    exact position_reset p.source (hresult ▸ hfail)

instance [ByteSink κ] : Positioned (Tee κ σ) where
  position t := position t.source
  position_reset t := by
    show t.reset.1.isOk = false → position t.reset.2.source = position t.source
    unfold Tee.reset
    split
    · exact fun _ => rfl
    · rcases hr : ByteSource.reset t.source with ⟨e | u, s⟩
      · intro _
        have hkept := position_reset t.source (by rw [hr]; rfl)
        rw [hr] at hkept
        exact hkept
      · exact nofun

instance : Paced (Replay σ) where
  position_read b n := (b.read_moved n).1
  position_mark b limit := (b.setMark_moved limit).1.1
  position_close b := by
    show b.close.2.position = b.position
    unfold Replay.close
    split
    · rfl
    · dsimp only
      split <;> rfl

variable [Paced σ]

instance : Paced (Once σ) where
  position_read g := Paced.position_read g.inner
  position_mark g := Paced.position_mark g.inner
  position_close g := by
    simp only [ByteSource.close]
    split
    · rfl
    · exact Paced.position_close g.inner

instance : Paced (Shield σ) where
  position_read g := Paced.position_read g.inner
  position_mark g := Paced.position_mark g.inner
  position_close _ := rfl

instance : Paced (Probe σ) where
  position_read p n := by
    obtain ⟨⟨hsource, hdata⟩ | ⟨hsource, hdata⟩, -⟩ := p.read_moved n
    · show position (p.read n).2.source = position p.source + (handedOver (p.read n).1).length
      rw [hsource, hdata]
      exact Paced.position_read p.source n
    · show position (p.read n).2.source = position p.source + (handedOver (p.read n).1).length
      rw [hsource, hdata]
      rfl
  position_mark p limit := by
    obtain ⟨-, hsource, -⟩ := p.setMark_moved limit
    exact (congrArg position hsource).trans (Paced.position_mark p.source limit)
  position_close p := by
    show position p.close.2.source = position p.source
    unfold Probe.close
    split
    · rfl
    · exact Paced.position_close p.source

end Sources

namespace Probe

/-- What the probe adds to the tally of its site in all. -/
def tally {σ : Type} (p : Probe σ) : Tally :=
  { instances := 1, bytes := UInt64.ofNat p.highWater, reads := UInt64.ofNat p.reads }

section Settle

variable {σ : Type} {r : Registry}

theorem sound_settle (hr : r.Sound) (p : Probe σ) : (p.settle r).2.Sound :=
  (hr.counters p.site).record _ _

/-- What is due counts at the site of the probe, and at no other. -/
theorem total_settle (hr : r.Sound) (p : Probe σ) (site : CallSite) :
    (p.settle r).2.total site = r.total site + if site = p.site then p.due else 0 := by
  have hnumber := Registry.find_counters_self r p.site
  exact ((hr.counters p.site).total_record hnumber p.due site).trans
    (congrArg (· + _) (hr.total_counters p.site site))

theorem isSome_settle (hr : r.Sound) (p : Probe σ) (site : CallSite) :
    ((p.settle r).2.site? site).isSome ↔ (r.site? site).isSome ∨ site = p.site := by
  rw [(sound_settle hr p).isSome_site, hr.isSome_site]
  show ((r.counters p.site).2.find? site).isSome ↔ _
  rw [Registry.find_counters]
  by_cases heq : site = p.site
  · rw [if_pos heq]
    exact ⟨fun _ => .inr heq, fun _ => rfl⟩
  · rw [if_neg heq]
    exact ⟨.inl, fun h => h.resolve_right heq⟩

end Settle

/-- A call of a probe. -/
inductive Call where
  | read (n : Nat)
  | mark (limit : MarkLimit)
  | reset
  | close
  deriving Repr

variable {σ : Type} [ByteSource σ]

variable (p : Probe σ)

/-- A read fails and counts nothing, or counts what it returns. -/
theorem read_cases (n : Nat) :
    (∃ e s, p.read n = (.error e, p.setSource s)) ∨
      ∃ data s, p.read n = (.ok data, (p.setSource s).count data.length) := by
  unfold read
  split
  · exact .inl ⟨_, p.source, rfl⟩
  · rcases ByteSource.read p.source n with ⟨e | data, s⟩
    · exact .inl ⟨e, s, rfl⟩
    · exact .inr ⟨data, s, rfl⟩

theorem setMark_frame (limit : MarkLimit) :
    ∃ source markBytes, (p.setMark limit).2 = { p with source, markBytes } := by
  unfold setMark
  rcases ByteSource.mark p.source limit with ⟨e | u, s⟩
  · exact ⟨s, p.markBytes, rfl⟩
  · exact ⟨s, some p.bytes, rfl⟩

theorem reset_frame : ∃ source bytes, p.reset.2 = { p with source, bytes } := by
  unfold reset
  rcases ByteSource.reset p.source with ⟨e | u, s⟩
  · exact ⟨s, p.bytes, rfl⟩
  · exact ⟨s, p.markBytes.getD p.bytes, rfl⟩

theorem close_frame : ∃ source closed, p.close.2 = { p with source, closed } := by
  unfold close
  split
  · exact ⟨p.source, p.closed, rfl⟩
  · exact ⟨_, true, rfl⟩

end Probe

/-- A probe, and what its calls have come to. -/
structure Watch (σ : Type) where
  probe : Probe σ
  /-- Reads that succeeded. -/
  reads : Nat := 0
  /-- The largest size so far. -/
  largest : Nat := 0
  /-- The bytes that reads have returned, each with its place in the stream. -/
  heard : List (UInt8 × Nat) := []
  /-- Where the source was when the probe last set a mark. -/
  home : Option Nat := none

namespace Watch

variable {σ : Type}

/-- A new probe over `source`. -/
def attach (source : σ) (site : CallSite) : Watch σ := { probe := .attach source site }

/-- The places in the stream that reads have returned. -/
def returned (w : Watch σ) : Finset Nat := (w.heard.map Prod.snd).toFinset

/-- The probe has come to be `p`. -/
def moveTo (w : Watch σ) (p : Probe σ) : Watch σ :=
  { w with probe := p, largest := max w.largest p.bytes }

variable [ByteSource σ] [Positioned σ]

def call (w : Watch σ) : Probe.Call → Watch σ
  | .read n =>
    match w.probe.read n with
    | (.ok data, p) =>
      { w.moveTo p with
        reads := w.reads + 1
        heard := w.heard ++ data.zipIdx (position w.probe.source) }
    | (.error _, p) => w.moveTo p
  | .mark limit =>
    match w.probe.setMark limit with
    | (.ok (), p) => { w.moveTo p with home := some (position w.probe.source) }
    | (.error _, p) => w.moveTo p
  | .reset => w.moveTo w.probe.reset.2
  | .close => w.moveTo w.probe.close.2

theorem call_read (w : Watch σ) (n : Nat) :
    (w.call (.read n)).probe = (w.probe.read n).2 ∧ (w.call (.read n)).home = w.home ∧
      (w.call (.read n)).heard =
        w.heard ++ (handedOver (w.probe.read n).1).zipIdx (position w.probe.source) := by
  rcases hr : w.probe.read n with ⟨e | data, p⟩ <;> simp only [call, hr]
  · exact ⟨rfl, rfl, (List.append_nil _).symm⟩
  · exact ⟨rfl, rfl, rfl⟩

theorem call_mark (w : Watch σ) (limit : MarkLimit) :
    (w.call (.mark limit)).probe = (w.probe.setMark limit).2 ∧
      (w.call (.mark limit)).heard = w.heard ∧
      (w.call (.mark limit)).home =
        if (w.probe.setMark limit).1.isOk then some (position w.probe.source) else w.home := by
  rcases hm : w.probe.setMark limit with ⟨e | u, p⟩ <;> simp only [call, hm] <;>
    exact ⟨rfl, rfl, rfl⟩

/-- The counts of a probe are what its calls have come to. -/
structure Counted (w : Watch σ) : Prop where
  reads_eq : w.probe.reads = w.reads
  highWater_eq : w.probe.highWater = w.largest
  bytes_le : w.probe.bytes ≤ w.probe.highWater
  mark_le : ∀ m ∈ w.probe.markBytes, m ≤ w.probe.highWater

section Counted

omit [ByteSource σ] [Positioned σ]

theorem Counted.attach (source : σ) (site : CallSite) : Counted (attach source site) :=
  ⟨rfl, rfl, Nat.le_refl 0, nofun⟩

/-- What changes neither the number of reads nor the high-water mark. -/
theorem Counted.moveTo {w : Watch σ} (h : Counted w) {p : Probe σ}
    (hreads : p.reads = w.probe.reads) (hwater : p.highWater = w.probe.highWater)
    (hbytes : p.bytes ≤ w.probe.highWater) (hmark : ∀ m ∈ p.markBytes, m ≤ w.probe.highWater) :
    Counted (w.moveTo p) where
  reads_eq := hreads.trans h.reads_eq
  highWater_eq := by
    show p.highWater = max w.largest p.bytes
    have := h.highWater_eq
    omega
  bytes_le := hwater ▸ hbytes
  mark_le := hwater ▸ hmark

end Counted

theorem Counted.call {w : Watch σ} (h : Counted w) (c : Probe.Call) : Counted (w.call c) := by
  cases c with
  | read n =>
    obtain ⟨e, s, hr⟩ | ⟨data, s, hr⟩ := w.probe.read_cases n <;> simp only [Watch.call, hr]
    · exact h.moveTo rfl rfl h.bytes_le h.mark_le
    · exact ⟨congrArg (· + 1) h.reads_eq, congrArg (max · _) h.highWater_eq, Nat.le_max_right _ _,
        fun m hm => Nat.le_trans (h.mark_le m hm) (Nat.le_max_left _ _)⟩
  | mark limit =>
    have hsame : Counted (w.moveTo (w.probe.setMark limit).2) := by
      unfold Probe.setMark
      rcases ByteSource.mark w.probe.source limit with ⟨e | u, s⟩
      · exact h.moveTo rfl rfl h.bytes_le h.mark_le
      · refine h.moveTo rfl rfl h.bytes_le ?_
        rintro m ⟨⟩
        exact h.bytes_le
    simp only [Watch.call]
    rcases hm : w.probe.setMark limit with ⟨e | u, p⟩ <;> rw [hm] at hsame
    · exact hsame
    · exact ⟨hsame.reads_eq, hsame.highWater_eq, hsame.bytes_le, hsame.mark_le⟩
  | reset =>
    have hback : w.probe.markBytes.getD w.probe.bytes ≤ w.probe.highWater := by
      rcases hm : w.probe.markBytes with _ | m
      · exact h.bytes_le
      · exact h.mark_le m hm
    simp only [Watch.call, Probe.reset]
    rcases ByteSource.reset w.probe.source with ⟨e | u, s⟩
    · exact h.moveTo rfl rfl h.bytes_le h.mark_le
    · exact h.moveTo rfl rfl hback h.mark_le
  | close =>
    obtain ⟨source, closed, hq⟩ := w.probe.close_frame
    simp only [Watch.call, hq]
    exact h.moveTo rfl rfl h.bytes_le h.mark_le

/-- What a call adds to what is due is what it adds to the tally. -/
theorem due_call (w : Watch σ) (c : Probe.Call) :
    (w.call c).probe.site = w.probe.site ∧
      ∃ t, (w.call c).probe.due = w.probe.due + t ∧
        (w.call c).probe.tally = w.probe.tally + t := by
  have hsame {p : Probe σ} (hsite : p.site = w.probe.site) (hdue : p.due = w.probe.due)
      (htally : p.tally = w.probe.tally) :
      p.site = w.probe.site ∧ ∃ t, p.due = w.probe.due + t ∧ p.tally = w.probe.tally + t :=
    ⟨hsite, 0, by rw [hdue, add_zero], by rw [htally, add_zero]⟩
  cases c with
  | read n =>
    obtain ⟨e, s, hr⟩ | ⟨data, s, hr⟩ := w.probe.read_cases n <;> simp only [call, hr]
    · exact hsame rfl rfl rfl
    · refine ⟨rfl, _, rfl, ?_⟩
      have hwater : max w.probe.highWater (w.probe.bytes + data.length) =
          w.probe.highWater + (w.probe.bytes + data.length - w.probe.highWater) := by omega
      show (⟨1, UInt64.ofNat (max w.probe.highWater (w.probe.bytes + data.length)),
        UInt64.ofNat (w.probe.reads + 1), 0⟩ : Tally) = _
      rw [hwater, UInt64.ofNat_add, UInt64.ofNat_add]
      rfl
  | mark limit =>
    obtain ⟨source, markBytes, hq⟩ := w.probe.setMark_frame limit
    simp only [call]
    rcases hm : w.probe.setMark limit with ⟨e | u, p⟩ <;> rw [hm] at hq <;>
      obtain rfl : p = _ := hq <;> exact hsame rfl rfl rfl
  | reset =>
    obtain ⟨source, bytes, hq⟩ := w.probe.reset_frame
    simp only [call, hq]
    exact hsame rfl rfl rfl
  | close =>
    obtain ⟨source, closed, hq⟩ := w.probe.close_frame
    simp only [call, hq]
    exact hsame rfl rfl rfl

end Watch

end StreamLayers
