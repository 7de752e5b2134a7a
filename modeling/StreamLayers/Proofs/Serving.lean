import StreamLayers.Proofs.Yields

/-!
Sources that hand out data and then end or fail; what comes of reading one to its end, and of pumping
one into a sink: all of the data and the end of it, the failure, or a refusal of the sink.
-/

namespace StreamLayers

variable {σ κ : Type}

/-- A read of a source that hands out `data` and behind that ends, or fails with `failure`. `R` says
of a source what is left there. -/
inductive Serving (R : σ → Bytes → Prop) (failure : Option Fault) (data : Bytes) (n : Nat) :
    Except Fault Bytes × σ → Prop where
  | more {got rest : Bytes} {s : σ} (eq : data = got ++ rest) (some : got ≠ [])
      (fits : got.length ≤ n) (next : R s rest) : Serving R failure data n (.ok got, s)
  | ended {s : σ} (used : data = []) (sound : failure = none) (next : R s []) :
      Serving R failure data n (.ok [], s)
  | failed {e : Fault} {s : σ} (used : data = []) (broken : failure = some e) (next : R s []) :
      Serving R failure data n (.error e, s)

/-- Every read keeps to what `R` says is left, and no more is left than the source itself says. -/
structure Serves [ByteSource σ] (R : σ → Bytes → Prop) (failure : Option Fault) : Prop where
  read : ∀ s data n, R s data → 0 < n → Serving R failure data n (ByteSource.read s n)
  left : ∀ s data, R s data → data.length ≤ ByteSource.left s

/-- What comes of reading a source with `data` to hand out until it tells of the end, by reads of `n`
bytes. -/
structure Exhausted [ByteSource σ] (R : σ → Bytes → Prop) (data : Bytes) (n : Nat) (r : ReadRun σ) :
    Prop where
  sound : r.failure = none
  whole : r.data = data
  /-- The last read told of the end. -/
  told : ∃ s, R s [] ∧ ByteSource.read s n = (.ok [], r.state)
  after : R r.state []

/-- What comes of pumping a source with `data` to hand out into the sink `k`, by reads of `n`
bytes. -/
inductive Pouring [ByteSource σ] [ByteSink κ] (R : σ → Bytes → Prop) (failure : Option Fault)
    (data : Bytes) (n : Nat) (k : κ) (total : Nat) : Pumped σ κ → Prop where
  /-- The sink took all of the data, and then the source told of its end. -/
  | poured {blocks : List Bytes} {t s : σ} (sound : failure = none) (whole : blocks.flatten = data)
      (some : [] ∉ blocks) (before : R t []) (last : ByteSource.read t n = (.ok [], s))
      (after : R s []) :
      Pouring R failure data n k total ⟨.ok (total + data.length), s,
        (ByteSink.flush (afterWrites ByteSink.writeAll k blocks)).2⟩
  | failed {e : Fault} {s : σ} {k' : κ} (broken : failure = some e) :
      Pouring R failure data n k total ⟨.error e, s, k'⟩
  | refused {e : Fault} {s : σ} {k' : κ} (refuses : ¬ Absorbs k data) :
      Pouring R failure data n k total ⟨.error e, s, k'⟩

/-- A source serves what it yields, and ends behind it. -/
theorem serves_yields [ByteSource σ] : Serves (@Yields σ _) none where
  read s data n h hn := by
    have hread := h.read hn
    generalize ByteSource.read s n = q at hread ⊢
    cases hread with
    | @ok got rest t eq fits ends next =>
      cases got with
      | nil =>
        obtain rfl := ends rfl
        obtain rfl : rest = [] := eq.symm
        exact .ended rfl rfl next
      | cons b d => exact .more eq (List.cons_ne_nil b d) fits next
  left _ _ h := h.length_le

/-- A read of a source with `data` to hand out that never tells of an end. -/
inductive Going (R : σ → Bytes → Prop) (data : Bytes) : Except Fault Bytes × σ → Prop where
  | more {got rest : Bytes} {s : σ} (eq : data = got ++ rest) (some : got ≠ []) (next : R s rest) :
      Going R data (.ok got, s)
  | failed {e : Fault} {s : σ} : Going R data (.error e, s)

/-- Pumping a source that never tells of an end fails, whatever the sink does. -/
theorem pump_of_going [ByteSource σ] [ByteSink κ] {R : σ → Bytes → Prop}
    (hread : ∀ s data n, R s data → 0 < n → Going R data (ByteSource.read s n))
    (hleft : ∀ s data, R s data → data.length ≤ ByteSource.left s) {s : σ} {data : Bytes}
    (hs : R s data) {n : Nat} (hn : 0 < n) (k : κ) : ∃ e, (pump s k n).result = .error e := by
  have hfrom (fuel total : Nat) (hfuel : data.length ≤ fuel) :
      ∃ e, (StreamLayers.pumpFrom n fuel s k total).result = .error e := by
    induction fuel generalizing s data k total with
    | zero =>
      obtain rfl := List.eq_nil_of_length_eq_zero (Nat.le_zero.1 hfuel)
      have hone := hread s [] n hs hn
      unfold StreamLayers.pumpFrom
      generalize ByteSource.read s n = q at hone ⊢
      cases hone with
      | more eq some next => exact absurd (List.append_eq_nil_iff.1 eq.symm).1 some
      | failed => exact ⟨_, rfl⟩
    | succ fuel ih =>
      have hone := hread s data n hs hn
      unfold StreamLayers.pumpFrom
      generalize ByteSource.read s n = q at hone ⊢
      cases hone with
      | failed => exact ⟨_, rfl⟩
      | @more got rest t eq some next =>
        obtain ⟨b, d, rfl⟩ := List.exists_cons_of_ne_nil some
        rw [eq, List.length_append, List.length_cons] at hfuel
        dsimp only
        rcases ByteSink.writeAll k (b :: d) with ⟨e | u, k'⟩
        · exact ⟨e, rfl⟩
        · exact ih next k' _ (by omega)
  have hz : ¬ n = 0 := Nat.pos_iff_ne_zero.1 hn
  rw [pump, if_neg hz]
  exact hfrom _ 0 (hleft s data hs)

namespace Serves

variable [ByteSource σ] {R : σ → Bytes → Prop} {failure : Option Fault} {s : σ} {data : Bytes}

/-- A source that does not fail in the end yields its data. -/
theorem yields (h : Serves R none) (hs : R s data) : Yields s data := by
  refine .of_invariant (fun t d n ht hn => ?_) h.left hs
  have hread := h.read t d n ht hn
  generalize ByteSource.read t n = q at hread ⊢
  cases hread with
  | more eq some fits next => exact .ok eq fits (fun hnil => absurd hnil some) next
  | ended used sound next => exact .ok used (Nat.zero_le n) (fun _ => used) next
  | failed used broken next => cases broken

theorem pumpFrom [ByteSink κ] (h : Serves R failure) (hs : R s data) {n fuel : Nat} (hn : 0 < n)
    (hfuel : data.length ≤ fuel) (k : κ) (total : Nat) :
    Pouring R failure data n k total (StreamLayers.pumpFrom n fuel s k total) := by
  induction hlen : data.length using Nat.strongRecOn generalizing s data fuel k total with
  | ind len ih =>
    have hread := h.read s data n hs hn
    unfold StreamLayers.pumpFrom
    generalize hq : ByteSource.read s n = q at hread ⊢
    cases hread with
    | failed used broken next => exact .failed broken
    | @ended t used sound next =>
      subst used
      dsimp only
      rcases hflush : ByteSink.flush k with ⟨e | u, k'⟩
      · refine .refused fun habsorbs => ?_
        have hok := habsorbs.flush
        rw [hflush] at hok
        cases hok
      · have hend : (ByteSink.flush (afterWrites ByteSink.writeAll k [])).2 = k' := by
          rw [afterWrites, List.foldl_nil, hflush]
        have hall : Pouring R failure [] n k total _ :=
          .poured sound List.flatten_nil List.not_mem_nil hs hq next
        rw [hend] at hall
        exact hall
    | @more got rest t eq some fits next =>
      obtain ⟨b, d, rfl⟩ := List.exists_cons_of_ne_nil some
      subst eq
      have hsum : ((b :: d) ++ rest).length = d.length + 1 + rest.length := by
        rw [List.length_append, List.length_cons]
      -- A byte was read, so the fuel is not used up.
      obtain ⟨fuel, rfl⟩ : ∃ j, fuel = j + 1 := Nat.exists_eq_add_one.2 (by omega)
      have hrest : rest.length ≤ fuel := by omega
      dsimp only
      rcases hwrite : ByteSink.writeAll k (b :: d) with ⟨e | u, k'⟩
      · refine .refused fun habsorbs => ?_
        have hok := (habsorbs.step some).1
        rw [hwrite] at hok
        cases hok
      · have hmore := ih rest.length (by omega) next hrest k' (total + (d.length + 1)) rfl
        dsimp only
        generalize StreamLayers.pumpFrom n fuel t k' (total + (d.length + 1)) = p at hmore ⊢
        cases hmore with
        | failed broken => exact .failed broken
        | refused refuses =>
          refine .refused fun habsorbs => refuses ?_
          have hlater := (habsorbs.step some).2
          rw [hwrite] at hlater
          exact hlater
        | @poured blocks t' s' sound whole some' before last after =>
          have hwhole : ((b :: d) :: blocks).flatten = (b :: d) ++ rest :=
            congrArg ((b :: d) ++ ·) whole
          have hall : Pouring R failure _ n k total _ :=
            .poured sound hwhole (List.not_mem_cons_of_ne_of_not_mem some.symm some') before last
              after
          rw [hsum, ← Nat.add_assoc, afterWrites, List.foldl_cons, hwrite] at hall
          exact hall

theorem pump [ByteSink κ] (h : Serves R failure) (hs : R s data) {n : Nat} (hn : 0 < n) (k : κ) :
    Pouring R failure data n k 0 (StreamLayers.pump s k n) := by
  have hz : ¬ n = 0 := Nat.pos_iff_ne_zero.1 hn
  unfold StreamLayers.pump
  rw [if_neg hz]
  exact h.pumpFrom hs hn (h.left s data hs) k 0

theorem readBlocksFrom (h : Serves R none) (hs : R s data) {n fuel : Nat} (hn : 0 < n)
    (hfuel : data.length ≤ fuel) (acc : List Bytes) :
    Exhausted R (acc.reverse.flatten ++ data) n (ByteSource.readBlocksFrom n fuel s acc) := by
  induction hlen : data.length using Nat.strongRecOn generalizing s data fuel acc with
  | ind len ih =>
    have hread := h.read s data n hs hn
    unfold ByteSource.readBlocksFrom
    generalize hq : ByteSource.read s n = q at hread ⊢
    cases hread with
    | failed used broken next => cases broken
    | @ended t used sound next =>
      subst used
      exact ⟨rfl, (List.append_nil _).symm, ⟨s, hs, hq⟩, next⟩
    | @more got rest t eq some fits next =>
      obtain ⟨b, d, rfl⟩ := List.exists_cons_of_ne_nil some
      have hsum : data.length = d.length + 1 + rest.length := by
        rw [eq, List.length_append, List.length_cons]
      -- A byte was read, so the fuel is not used up.
      obtain ⟨fuel, rfl⟩ : ∃ j, fuel = j + 1 := Nat.exists_eq_add_one.2 (by omega)
      have hrest : rest.length ≤ fuel := by omega
      have hmore := ih rest.length (by omega) next hrest ((b :: d) :: acc) rfl
      simpa [eq] using hmore

theorem readBlocks (h : Serves R none) (hs : R s data) {n : Nat} (hn : 0 < n) :
    Exhausted R data n (ByteSource.readBlocks s n) :=
  h.readBlocksFrom hs hn (h.left s data hs) []

end Serves

end StreamLayers
