import StreamLayers.Proofs.Layers

/-!
A stack of layers over a source is transparent: however its outermost layer is read, what comes out
is what the marker layers extract from the data of the source, one from the other, and the rest of
the layers leave no trace.
-/

namespace StreamLayers

/-- What a marker source with these markers makes of data. -/
def extraction (start stop : Bytes) (singlePair : Bool) (data : Bytes) : Bytes :=
  (Scanner.new start stop singlePair).output data

theorem extraction_false (start stop data : Bytes) :
    extraction start stop false data = extract data start stop := rfl

/-- What a marker source makes of data are the regions of the data, or the first of them. -/
theorem Divided.extraction_eq {start stop data tail : Bytes} {regions : List Bytes}
    (h : Divided start stop (outside start) data regions tail) (singlePair : Bool) :
    extraction start stop singlePair data = handedRegions singlePair regions tail :=
  (h.scanned ne_nil_of_outside (s := .new start stop singlePair) rfl rfl (entry_eq start) rfl).1

variable {κ β σ : Type}

/-- What a layer makes of the data below it. -/
def LayerKind.content : (k : LayerKind) → k.State κ σ → Bytes → Bytes
  | .marker, m =>
    extraction (Marker.scanner m).start (Marker.scanner m).stop (Marker.scanner m).singlePair
  | .replay, _ | .tee, _ | .probe, _ | .once, _ | .shield, _ => id

namespace Stack

/-- What a stack makes of the data of its base source, the innermost layer first. -/
def content : (ks : List LayerKind) → Stack κ β ks → Bytes → Bytes
  | [], _ => id
  | k :: ks, s => k.content s ∘ content ks (k.inner s)

variable [ByteSink κ]

/-- A stack as it is built over `base`, with stores and sinks that take what passes them when `base`
yields `data`. A buffer that keeps no history asks nothing of its store. -/
inductive Built (base : β) (data : Bytes) : (ks : List LayerKind) → Stack κ β ks → Prop where
  | base : Built base data [] base
  | replay {ks : List LayerKind} {s : Stack κ β ks} {c : Replay.Settings} {present : Bool}
      {b : Replay (Stack κ β ks)} (below : Built base data ks s)
      (made : Replay.ofSettings s c present = .ok b)
      (takes : c.retainHistory = true →
        Takes Store.put (c.store.build present) (content ks s data)) :
      Built base data (.replay :: ks) b
  | replayOnStore {ks : List LayerKind} {s : Stack κ β ks} (below : Built base data ks s)
      (store : Store) : Built base data (.replay :: ks) (Replay.withStore s store)
  | tee {ks : List LayerKind} {s : Stack κ β ks} {sinks : List κ} {c : Tee.Settings}
      {t : Tee κ (Stack κ β ks)} (below : Built base data ks s)
      (made : Tee.ofSettings s sinks c = .ok t)
      (takes : ∀ k ∈ sinks, Takes ByteSink.writeAll k (content ks s data)) :
      Built base data (.tee :: ks) t
  | marker {ks : List LayerKind} {s : Stack κ β ks} (below : Built base data ks s)
      (start stop : Bytes) (singlePair : Bool) :
      Built base data (.marker :: ks) (Marker.ofMarkers s start stop singlePair)
  | markerOf {ks : List LayerKind} {s : Stack κ β ks} {c : Marker.Settings}
      {m : Marker (Stack κ β ks)} (below : Built base data ks s)
      (made : Marker.ofSettings s c = .ok m) : Built base data (.marker :: ks) m
  | probe {ks : List LayerKind} {s : Stack κ β ks} (below : Built base data ks s)
      (site : CallSite) : Built base data (.probe :: ks) (Probe.attach s site)
  | once {ks : List LayerKind} {s : Stack κ β ks} (below : Built base data ks s) :
      Built base data (.once :: ks) (Once.mk s false)
  | shield {ks : List LayerKind} {s : Stack κ β ks} (below : Built base data ks s) :
      Built base data (.shield :: ks) (Shield.mk s)

variable [ByteSource β] {base : β} {data : Bytes}

theorem Built.yields (hbase : Yields base data) {ks : List LayerKind} {s : Stack κ β ks}
    (h : Built base data ks s) : Yields s (content ks s data) := by
  induction h with
  | base => exact hbase
  | replay below made takes ih =>
    unfold Replay.ofSettings at made
    split at made
    · cases made
    · obtain rfl := Except.ok.inj made
      refine Replay.yields ⟨rfl, rfl, Once.yields ih, fun hc => takes ?_⟩
      simpa [Replay.caching, MarkState.isActive, Replay.withStore] using hc
  | replayOnStore below store ih =>
    refine Replay.yields ⟨rfl, rfl, Once.yields ih, fun hc => ?_⟩
    cases hc
  | tee below made takes ih =>
    unfold Tee.ofSettings at made
    split at made
    · cases made
    · split at made
      · cases made
      · obtain rfl := Except.ok.inj made
        refine Tee.yields ⟨rfl, rfl, ih, fun o ho _ => ?_⟩
        obtain ⟨k, hk, rfl⟩ := List.mem_map.1 ho
        exact takes k hk
  | marker below start stop singlePair ih => exact Marker.yields ⟨rfl, ih, rfl⟩
  | markerOf below made ih =>
    unfold Marker.ofSettings at made
    split at made
    · cases made
    · obtain rfl := Except.ok.inj made
      exact Marker.yields ⟨rfl, ih, rfl⟩
  | probe below site ih => exact Probe.yields rfl ih
  | once below ih => exact Once.yields ih
  | shield below ih => exact Shield.yields ih

/-- However the outermost layer of a stack is read, it delivers what the marker layers extract from
the data of the base source, and nothing else shows that there are layers. -/
theorem transparent {κ' : Type} [ByteSink κ'] (hbase : Yields base data) {ks : List LayerKind}
    {s : Stack κ β ks} (hbuilt : Built base data ks s) {draws : List (Draw κ')}
    (hfair : ∀ draw ∈ draws, draw.Fair (content ks s data)) :
    Delivers s draws (content ks s data) := (hbuilt.yields hbase).delivers hfair

/-- Two marker layers, with a buffer that spills its history between them and a tee above. -/
theorem transparent_nested :
    let base : PlainSource :=
      ⟨[.bytes [7, 1, 8, 4], .bytes [2, 9, 1, 8, 6, 3, 9], .bytes [5, 8, 7, 9]], some 3⟩
    let data : Bytes := [7, 1, 8, 4, 2, 9, 1, 8, 6, 3, 9, 5, 8, 7, 9]
    let c : Replay.Settings := { threshold := some 2, retainHistory := true }
    let inner : Stack PlainSink PlainSource [.marker] := Marker.ofMarkers base [8] [9] false
    let b : Replay (Stack PlainSink PlainSource [.marker]) :=
      { Replay.withStore inner (c.store.build true) with retainHistory := true }
    let middle : Stack PlainSink PlainSource [.marker, .replay, .marker] :=
      Marker.ofMarkers b [4] [3] true
    let t : Tee PlainSink (Stack PlainSink PlainSource [.marker, .replay, .marker]) :=
      { source := middle, outlets := [{ sink := {} }] }
    let s : Stack PlainSink PlainSource [.tee, .marker, .replay, .marker] := t
    let draws : List (Draw PlainSink) := [.single 1, .full 1, .pumped 2 {}, .single 4]
    content [.tee, .marker, .replay, .marker] s data = [2, 6] ∧
      Delivers s draws [2, 6] ∧ told s draws = true ∧ drawn s draws = [2, 6] := by
  intro base data c inner b middle t s draws
  have hbase : Yields base data := yields_plain (by simp) nofun
  have hinner : Built base data [.marker] inner := .marker .base [8] [9] false
  have hb : Replay.ofSettings inner c true = .ok b := rfl
  have hmiddle : Built base data [.marker, .replay, .marker] middle :=
    .marker (.replay hinner hb fun _ => Store.takes_build c.store _) [4] [3] true
  have ht : Tee.ofSettings middle [({} : PlainSink)] {} = .ok t := rfl
  have hs : Built base data [.tee, .marker, .replay, .marker] s := by
    refine .tee hmiddle ht fun k hk => ?_
    obtain rfl := List.mem_singleton.1 hk
    exact (PlainSink.absorbs {} rfl _).takes
  have hcontent : content [.tee, .marker, .replay, .marker] s data = [2, 6] := by decide +kernel
  have htold : told s draws = true := by decide +kernel
  have hsink (rest : Bytes) : Absorbs ({} : PlainSink) rest := PlainSink.absorbs {} rfl rest
  have hfair : ∀ draw ∈ draws, draw.Fair (content [.tee, .marker, .replay, .marker] s data) := by
    intro draw hdraw
    simp only [draws, List.mem_cons, List.not_mem_nil, or_false] at hdraw
    rcases hdraw with rfl | rfl | rfl | rfl
    · exact Nat.zero_lt_one
    · exact Nat.zero_lt_one
    · exact ⟨Nat.zero_lt_two, fun rest _ => hsink rest⟩
    · exact Nat.zero_lt_succ 3
  have hall := transparent hbase hs hfair
  rw [hcontent] at hall
  exact ⟨hcontent, hall, htold, hall.whole htold⟩

end Stack

end StreamLayers
