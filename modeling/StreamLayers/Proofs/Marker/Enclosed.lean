import StreamLayers.Payload
import StreamLayers.Proofs.Marker.Reads

/-!
Data built from payloads between markers. Where no marker occurs before its place, extraction gives
the payloads back.
-/

namespace StreamLayers

/-- Noises with a payload in its markers behind each of them, and then the last noise. -/
def enclose (start stop : Bytes) : List (Bytes × Bytes) → Bytes → Bytes
  | [], last => last
  | (noise, payload) :: rest, last =>
    noise ++ Payload.region start payload stop ++ enclose start stop rest last

/-- The payloads of the parts that data is built from. -/
def payloadsOf (parts : List (Bytes × Bytes)) : List Bytes := parts.map Prod.snd

/-- Neither a noise nor a payload, with the marker behind it, has that marker at another place. -/
structure Separable (start stop : Bytes) (parts : List (Bytes × Bytes)) (last : Bytes) : Prop where
  noises : ∀ part ∈ parts, OnlyAtEnd start part.1
  payloads : ∀ part ∈ parts, OnlyAtEnd stop part.2
  last : ¬ start <:+: last

section Building

variable {start stop last : Bytes} {parts : List (Bytes × Bytes)}

theorem Separable.divided (h : Separable start stop parts last) (hstart : start ≠ [])
    (hstop : stop ≠ []) :
    Divided start stop .seeking (enclose start stop parts last) (payloadsOf parts) [] := by
  induction parts with
  | nil => exact .barren h.last
  | cons part rest ih =>
    obtain ⟨noise, payload⟩ := part
    obtain ⟨hnoise, hnoises⟩ := List.forall_mem_cons.1 h.noises
    obtain ⟨hpayload, hpayloads⟩ := List.forall_mem_cons.1 h.payloads
    have hrest := ih ⟨hnoises, hpayloads, h.last⟩
    have hopens : Leftmost start (enclose start stop ((noise, payload) :: rest) last) noise
        (payload ++ stop ++ enclose start stop rest last) := by
      have hdata : enclose start stop ((noise, payload) :: rest) last =
          noise ++ start ++ (payload ++ stop ++ enclose start stop rest last) := by
        simp [enclose, Payload.region]
      rw [hdata]
      exact .of_onlyAtEnd hnoise _
    have hcloses := Leftmost.of_onlyAtEnd hpayload (enclose start stop rest last)
    have houtside : outside start = .seeking := if_neg hstart
    exact .opened hopens (.closed hstop hcloses (houtside ▸ hrest))

end Building

namespace Marker

/-- Extraction gives the payloads back that data was built from, at once and by reads of a source
that hands out the data in whatever blocks, with whatever failures in between. -/
theorem extract_enclose {start stop last : Bytes} {parts : List (Bytes × Bytes)}
    (hstart : start ≠ []) (hstop : stop ≠ []) (h : Separable start stop parts last) {σ : Type}
    [ByteSource σ] [SerialSource σ] [BoundedSource σ] {source : σ} (hsteady : Steady source)
    (hdata : SerialSource.rest source = enclose start stop parts last) :
    extract (enclose start stop parts last) start stop = (payloadsOf parts).flatten ∧
      HandsOut (ofMarkers source start stop false) (payloadsOf parts).flatten parts.length := by
  have hdivided := h.divided hstart hstop
  have hentry : Scanner.entry start = .seeking := (entry_eq start).trans (if_neg hstart)
  obtain ⟨hout, hcloses⟩ := hdivided.scanned (fun _ => hstart) (s := .new start stop false) rfl rfl
    hentry rfl
  have hextract : extract (enclose start stop parts last) start stop = (payloadsOf parts).flatten :=
    hout.trans (List.append_nil _)
  have hpending : (ofMarkers source start stop false).pending = (payloadsOf parts).flatten := by
    rw [← hextract, ← hdata]
    rfl
  have htotal : (ofMarkers source start stop false).total = parts.length := by
    have hcount := hcloses rfl
    rw [← hdata] at hcount
    exact hcount.trans (by simp [Scanner.new, payloadsOf])
  have hhands := handsOut (m := ofMarkers source start stop false) rfl hsteady
  rw [hpending, htotal] at hhands
  exact ⟨hextract, hhands⟩

/-- Markers that overlap themselves and each other, read in blocks that cut them; the source fails in
the second start marker. -/
theorem extract_enclose_overlapping :
    let parts : List (Bytes × Bytes) := [([2], [1, 2, 2]), ([1, 2], [])]
    let source : PlainSource :=
      ⟨[.bytes [2, 1, 1, 1, 2], .bytes [2, 2, 1, 1, 2, 1], .fails ⟨.other, "cut"⟩,
        .bytes [1, 2, 1, 1]], none⟩
    let m := ofMarkers source [1, 1] [2, 1] false
    Separable [1, 1] [2, 1] parts [1] ∧ Steady source ∧
      SerialSource.rest source = enclose [1, 1] [2, 1] parts [1] ∧
      extract [2, 1, 1, 1, 2, 2, 2, 1, 1, 2, 1, 1, 2, 1, 1] [1, 1] [2, 1] = [1, 2, 2] ∧
      FailsAtMost source 1 ∧ ByteSource.failures m [2, 3, 2, 1, 4] = 1 ∧
      Exhausted m [1, 2, 2] 2 [2, 3, 2, 1, 4] := by
  intro parts source m
  have hseparable : Separable [1, 1] [2, 1] parts [1] := ⟨by decide, by decide, by decide⟩
  have hsteady : Steady source := steady_plain (by simp) nofun
  have hdata : SerialSource.rest source = enclose [1, 1] [2, 1] parts [1] := rfl
  have hfails : FailsAtMost source 1 := failsAtMost_plain source.reader none
  have hcount : ByteSource.failures m [2, 3, 2, 1, 4] = 1 := by decide +kernel
  obtain ⟨hextract, hhands⟩ := extract_enclose (by simp) (by simp) hseparable hsteady hdata
  exact ⟨hseparable, hsteady, hdata, hextract, hfails, hcount,
    hhands.ends [] [2, 3, 2, 1, 4] 1 hfails (by decide) (by decide)⟩

end Marker

end StreamLayers
