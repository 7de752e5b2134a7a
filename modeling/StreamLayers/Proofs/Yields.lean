import StreamLayers.Proofs.Reads
import StreamLayers.Proofs.Sink

/-!
Sources that yield data: each read gets something of what is left as long as anything is left, and
nothing from then on. Whatever the reads are built into, together they get the data.
-/

namespace StreamLayers

variable {σ : Type} [ByteSource σ]

/-- However it is read, `s` hands out `data` from front to back, never fails, and gives an empty
answer only behind the last byte. -/
structure Yields (s : σ) (data : Bytes) : Prop where
  answers : ∀ sizes n, (∀ m ∈ sizes, 0 < m) → 0 < n → ∃ got,
    (ByteSource.read (ByteSource.afterReads s sizes) n).1 = .ok got ∧ got.length ≤ n ∧
      ByteSource.reads s sizes ++ got <+: data ∧ (got = [] → ByteSource.reads s sizes = data)
  bounded : ∀ sizes, (∀ m ∈ sizes, 0 < m) → data.length ≤
    (ByteSource.reads s sizes).length + ByteSource.left (ByteSource.afterReads s sizes)

/-- A read where `data` is left. `R` says of a source what is left there. -/
inductive Handing (R : σ → Bytes → Prop) (data : Bytes) (n : Nat) :
    Except Fault Bytes × σ → Prop where
  | ok {got rest : Bytes} {s : σ} (eq : data = got ++ rest) (fits : got.length ≤ n)
      (ends : got = [] → data = []) (next : R s rest) : Handing R data n (.ok got, s)

namespace Yields

variable {s : σ} {data : Bytes}

theorem read (h : Yields s data) {n : Nat} (hn : 0 < n) :
    Handing Yields data n (ByteSource.read s n) := by
  obtain ⟨got, hok, hfits, ⟨rest, hrest⟩, hends⟩ := h.answers [] n (by simp) hn
  have hsplit : data = got ++ rest := hrest.symm
  have hlater := h.answers
  have hbound := h.bounded
  rcases hr : ByteSource.read s n with ⟨r, t⟩
  have hr' : r = .ok got := (congrArg Prod.fst hr).symm.trans hok
  subst hr'
  have hreads (sizes : List Nat) :
      ByteSource.reads s (n :: sizes) = got ++ ByteSource.reads t sizes := by
    rw [ByteSource.reads, hr]
    rfl
  have hafter (sizes : List Nat) :
      ByteSource.afterReads s (n :: sizes) = ByteSource.afterReads t sizes := by
    rw [ByteSource.afterReads, hr]
  refine .ok hsplit hfits (fun hnil => (hends hnil).symm) ⟨?_, ?_⟩
  · intro sizes k hsizes hk
    obtain ⟨more, hmore, hle, hprefix, hend⟩ :=
      hlater (n :: sizes) k (List.forall_mem_cons.2 ⟨hn, hsizes⟩) hk
    rw [hafter] at hmore
    rw [hreads, List.append_assoc, hsplit, List.prefix_append_right_inj] at hprefix
    refine ⟨more, hmore, hle, hprefix, fun hnil => ?_⟩
    have hall := hend hnil
    rw [hreads, hsplit] at hall
    exact List.append_cancel_left hall
  · intro sizes hsizes
    have hlen := hbound (n :: sizes) (List.forall_mem_cons.2 ⟨hn, hsizes⟩)
    rw [hreads, hafter, hsplit, List.length_append, List.length_append] at hlen
    omega

theorem length_le (h : Yields s data) : data.length ≤ ByteSource.left s := by
  have := h.bounded [] (by simp)
  simpa [ByteSource.reads, ByteSource.afterReads] using this

/-- Whatever every read keeps to tells what a source yields. -/
theorem of_invariant {R : σ → Bytes → Prop}
    (hread : ∀ t d n, R t d → 0 < n → Handing R d n (ByteSource.read t n))
    (hleft : ∀ t d, R t d → d.length ≤ ByteSource.left t) (h : R s data) : Yields s data := by
  have hreads : ∀ sizes, (∀ m ∈ sizes, 0 < m) → ∃ rest,
      data = ByteSource.reads s sizes ++ rest ∧ R (ByteSource.afterReads s sizes) rest := by
    intro sizes hsizes
    induction sizes generalizing s data with
    | nil => exact ⟨data, rfl, h⟩
    | cons m sizes ih =>
      obtain ⟨hm, hsizes⟩ := List.forall_mem_cons.1 hsizes
      have hstep := hread s data m h hm
      rw [ByteSource.reads, ByteSource.afterReads]
      generalize ByteSource.read s m = q at hstep ⊢
      cases hstep with
      | @ok got rest t eq fits ends next =>
        obtain ⟨later, hlater, hR⟩ := ih next hsizes
        refine ⟨later, ?_, hR⟩
        show data = got ++ ByteSource.reads t sizes ++ later
        rw [eq, hlater, List.append_assoc]
  constructor
  · intro sizes n hsizes hn
    obtain ⟨rest, hdata, hR⟩ := hreads sizes hsizes
    have hstep := hread _ rest n hR hn
    generalize ByteSource.read (ByteSource.afterReads s sizes) n = q at hstep ⊢
    cases hstep with
    | @ok got later t eq fits ends next =>
      refine ⟨got, rfl, fits, ⟨later, ?_⟩, fun hnil => ?_⟩
      · rw [hdata, eq, List.append_assoc]
      · rw [ends hnil, List.append_nil] at hdata
        exact hdata.symm
  · intro sizes hsizes
    obtain ⟨rest, hdata, hR⟩ := hreads sizes hsizes
    have hlen := hleft _ rest hR
    rw [hdata, List.length_append]
    omega

/-- A source that does as the one behind it yields what that one yields. -/
theorem of_map {τ : Type} [ByteSource τ] {f : τ → σ} {t : τ} (h : Yields (f t) data)
    (hread : ∀ t n, ByteSource.read (f t) n =
      ((ByteSource.read t n).1, f (ByteSource.read t n).2))
    (hleft : ∀ t, ByteSource.left t = ByteSource.left (f t)) : Yields t data := by
  apply of_invariant (R := fun t d => Yields (f t) d)
  · intro t d n h hn
    have hinner := h.read hn
    rw [hread] at hinner
    generalize ByteSource.read t n = q at hinner ⊢
    obtain ⟨r, t'⟩ := q
    dsimp only at hinner
    generalize hu : f t' = u at hinner
    cases hinner with
    | ok eq fits ends next =>
      have hnext : Yields (f t') _ := hu.symm ▸ next
      exact .ok eq fits ends hnext
  · intro t d h
    rw [hleft]
    exact h.length_le
  · exact h

/-- A full buffer gets as much of the data as fits. -/
theorem readFull (h : Yields s data) (n : Nat) :
    (ByteSource.readFull s n).1 = .ok (data.take n) ∧
      Yields (ByteSource.readFull s n).2 (data.drop n) := by
  induction n using Nat.strongRecOn generalizing s data with
  | ind n ih =>
    rcases Nat.eq_zero_or_pos n with rfl | hn
    · exact ⟨rfl, h⟩
    · have hread := h.read hn
      rw [ByteSource.readFull_pos s hn]
      generalize ByteSource.read s n = q at hread ⊢
      cases hread with
      | @ok got rest t eq fits ends next =>
        cases got with
        | nil =>
          obtain rfl := ends rfl
          obtain rfl : rest = [] := eq.symm
          rw [List.take_nil, List.drop_nil]
          exact ⟨rfl, next⟩
        | cons b d =>
          have hfront : n = (b :: d).length + (n - (d.length + 1)) := by
            rw [List.length_cons] at fits ⊢
            omega
          have htake : data.take n = (b :: d) ++ rest.take (n - (d.length + 1)) := by
            conv => lhs; rw [eq, hfront, List.take_length_add_append]
          have hdrop : data.drop n = rest.drop (n - (d.length + 1)) := by
            conv => lhs; rw [eq, hfront, List.drop_length_add_append]
          obtain ⟨hmore, hnext⟩ := ih (n - (d.length + 1)) (by omega) next
          rw [htake, hdrop]
          refine ⟨?_, hnext⟩
          show (ByteSource.readFull t (n - (d.length + 1))).1.map ((b :: d) ++ ·) = _
          rw [hmore]
          rfl

theorem readBlocksFrom (h : Yields s data) {n fuel : Nat} (hn : 0 < n) (hfuel : data.length ≤ fuel)
    (acc : List Bytes) :
    (ByteSource.readBlocksFrom n fuel s acc).failure = none ∧
      (ByteSource.readBlocksFrom n fuel s acc).data = acc.reverse.flatten ++ data ∧
      Yields (ByteSource.readBlocksFrom n fuel s acc).state [] := by
  induction hlen : data.length using Nat.strongRecOn generalizing s data fuel acc with
  | ind len ih =>
    have hread := h.read hn
    unfold ByteSource.readBlocksFrom
    generalize ByteSource.read s n = q at hread ⊢
    cases hread with
    | @ok got rest t eq fits ends next =>
      cases got with
      | nil =>
        obtain rfl := ends rfl
        obtain rfl : rest = [] := eq.symm
        exact ⟨rfl, (List.append_nil _).symm, next⟩
      | cons b d =>
        have hsum : data.length = d.length + 1 + rest.length := by
          rw [eq, List.length_append, List.length_cons]
        -- A byte was read, so the fuel is not used up.
        obtain ⟨fuel, rfl⟩ : ∃ k, fuel = k + 1 := Nat.exists_eq_add_one.2 (by omega)
        have hrest : rest.length ≤ fuel := by omega
        obtain ⟨hfail, hdata, hend⟩ :=
          ih rest.length (by omega) next hrest ((b :: d) :: acc) rfl
        refine ⟨hfail, hdata.trans ?_, hend⟩
        rw [eq, List.reverse_cons, List.flatten_append, List.flatten_singleton, List.append_assoc]

theorem readBlocks (h : Yields s data) {n : Nat} (hn : 0 < n) :
    (ByteSource.readBlocks s n).failure = none ∧ (ByteSource.readBlocks s n).data = data ∧
      Yields (ByteSource.readBlocks s n).state [] :=
  h.readBlocksFrom hn h.length_le []

/-- A sink that refuses nothing gets all of the data. -/
theorem pumpFrom {κ : Type} [ByteSink κ] {k : Observed κ} (h : Yields s data) {n fuel : Nat}
    (hn : 0 < n) (hfuel : data.length ≤ fuel) (hk : Absorbs k.inner data) (total : Nat) :
    (StreamLayers.pumpFrom n fuel s k total).result = .ok (total + data.length) ∧
      (StreamLayers.pumpFrom n fuel s k total).sink.accepted = k.accepted ++ data ∧
      Yields (StreamLayers.pumpFrom n fuel s k total).source [] := by
  induction hlen : data.length using Nat.strongRecOn generalizing s data fuel k total with
  | ind len ih =>
    have hread := h.read hn
    unfold StreamLayers.pumpFrom
    generalize ByteSource.read s n = q at hread ⊢
    cases hread with
    | @ok got rest t eq fits ends next =>
      cases got with
      | nil =>
        obtain rfl := ends rfl
        obtain rfl : rest = [] := eq.symm
        simp only [Observed.flush_of_ok hk.flush]
        exact ⟨by rw [← hlen]; rfl, (List.append_nil _).symm, next⟩
      | cons b d =>
        subst eq
        have hsum : ((b :: d) ++ rest).length = d.length + 1 + rest.length := by
          rw [List.length_append, List.length_cons]
        obtain ⟨fuel, rfl⟩ : ∃ k, fuel = k + 1 := Nat.exists_eq_add_one.2 (by omega)
        have hrest : rest.length ≤ fuel := by omega
        obtain ⟨hok, habsorbs⟩ := hk.step (List.cons_ne_nil b d)
        obtain ⟨hresult, haccepted, hend⟩ := ih rest.length (by omega) next hrest
          (k := { k with
            inner := (ByteSink.writeAll k.inner (b :: d)).2
            accepted := k.accepted ++ (b :: d) }) habsorbs (total + (d.length + 1)) rfl
        simp only [Observed.writeAll_of_ok hok]
        refine ⟨hresult.trans ?_, haccepted.trans ?_, hend⟩
        · rw [← hlen, hsum, Nat.add_assoc]
        · rw [List.append_assoc]

theorem pump {κ : Type} [ByteSink κ] {k : κ} (h : Yields s data) {n : Nat} (hn : 0 < n)
    (hk : Absorbs k data) :
    (StreamLayers.pump s (Observed.of k) n).result = .ok data.length ∧
      (StreamLayers.pump s (Observed.of k) n).sink.accepted = data ∧
      Yields (StreamLayers.pump s (Observed.of k) n).source [] := by
  have hz : ¬ n = 0 := Nat.pos_iff_ne_zero.1 hn
  have hall := h.pumpFrom (k := Observed.of k) hn h.length_le hk 0
  rw [Nat.zero_add] at hall
  unfold StreamLayers.pump
  rw [if_neg hz]
  exact hall

end Yields

/-- A way to take bytes from a source. -/
inductive Draw (κ : Type) where
  | single (n : Nat)
  /-- Fills a buffer of `n` bytes. -/
  | full (n : Nat)
  | toEnd
  /-- Pumps what is left into a sink. -/
  | pumped (n : Nat) (sink : κ)

namespace Draw

variable {κ : Type} [ByteSink κ]

/-- The bytes that come out, and the source afterwards. -/
def take (s : σ) : Draw κ → Except Fault Bytes × σ
  | single n => ByteSource.read s n
  | full n => ByteSource.readFull s n
  | toEnd =>
    let r := ByteSource.readToEnd s
    (match r.failure with
      | some e => .error e
      | none => .ok r.data, r.state)
  | pumped n k =>
    let p := pump s (Observed.of k) n
    (p.result.map fun _ => p.sink.accepted, p.source)

/-- The buffer is not empty, and the sink is one for whatever may be left of `all`. -/
def Fair (all : Bytes) : Draw κ → Prop
  | single n | full n => 0 < n
  | toEnd => True
  | pumped n k => 0 < n ∧ ∀ rest, rest <:+ all → Absorbs k rest

omit [ByteSink κ] in
/-- Whether the end of the data can be told from what came out. -/
def tells (got : Bytes) : Draw κ → Bool
  | single _ => got.isEmpty
  | full n => got.length < n
  | toEnd | pumped _ _ => true

end Draw

section Draws

variable {κ : Type} [ByteSink κ]

def outcomes (s : σ) : List (Draw κ) → List (Except Fault Bytes)
  | [] => []
  | draw :: rest => (draw.take s).1 :: outcomes (draw.take s).2 rest

def afterDraws (s : σ) (draws : List (Draw κ)) : σ := draws.foldl (fun s draw => (draw.take s).2) s

/-- All that came out. -/
def drawn (s : σ) (draws : List (Draw κ)) : Bytes := ((outcomes s draws).map handedOver).flatten

/-- Whether one of the draws told of the end. -/
def told (s : σ) : List (Draw κ) → Bool
  | [] => false
  | draw :: rest => draw.tells (handedOver (draw.take s).1) || told (draw.take s).2 rest

variable {s : σ} {data all : Bytes}

theorem Yields.draw (h : Yields s data) (hleft : data <:+ all) {draw : Draw κ}
    (hfair : draw.Fair all) : ∃ got rest, (draw.take s).1 = .ok got ∧ data = got ++ rest ∧
      Yields (draw.take s).2 rest ∧ (draw.tells got = true → rest = []) ∧
      (draw.tells got = false → got ≠ []) := by
  cases draw with
  | single n =>
    have hread := h.read (n := n) hfair
    show ∃ got rest, (ByteSource.read s n).1 = .ok got ∧ data = got ++ rest ∧
      Yields (ByteSource.read s n).2 rest ∧ (got.isEmpty = true → rest = []) ∧
      (got.isEmpty = false → got ≠ [])
    generalize ByteSource.read s n = q at hread ⊢
    cases hread with
    | @ok got rest t eq fits ends next =>
      refine ⟨got, rest, rfl, eq, next, ?_, ?_⟩
      · intro hnil
        obtain rfl := List.isEmpty_iff.1 hnil
        exact eq.symm.trans (ends rfl)
      · intro hsome
        exact List.isEmpty_eq_false_iff.1 hsome
  | full n =>
    have hpos : 0 < n := hfair
    obtain ⟨hok, hnext⟩ := h.readFull n
    refine ⟨data.take n, data.drop n, hok, (List.take_append_drop n data).symm, hnext, ?_, ?_⟩
    · intro hshort
      have hshort := of_decide_eq_true hshort
      rw [List.length_take] at hshort
      exact List.drop_eq_nil_of_le (by omega)
    · intro hfull hnil
      have hfull := of_decide_eq_false hfull
      rw [hnil] at hfull
      exact hfull hpos
  | toEnd =>
    obtain ⟨hfail, hdata, hnext⟩ := h.readBlocks (n := defaultChunk) (by decide)
    refine ⟨data, [], ?_, (List.append_nil data).symm, hnext, fun _ => rfl, nofun⟩
    simp only [Draw.take, ByteSource.readToEnd, hfail, hdata]
  | pumped n k =>
    obtain ⟨hpos, hsink⟩ := hfair
    obtain ⟨hresult, haccepted, hnext⟩ := h.pump hpos (hsink data hleft)
    refine ⟨data, [], ?_, (List.append_nil data).symm, hnext, fun _ => rfl, nofun⟩
    simp only [Draw.take, hresult, haccepted]
    rfl

/-- What is left after some draws, and what is known of it. -/
structure Left (s : σ) (draws : List (Draw κ)) (data rest : Bytes) : Prop where
  unfailing : ∀ r ∈ outcomes s draws, r.isOk = true
  split : data = drawn s draws ++ rest
  yields : Yields (afterDraws s draws) rest
  told : told s draws = true → rest = []
  untold : StreamLayers.told s draws = false → draws.length ≤ (drawn s draws).length

theorem Yields.draws (h : Yields s data) (hleft : data <:+ all) {draws : List (Draw κ)}
    (hfair : ∀ draw ∈ draws, draw.Fair all) : ∃ rest, Left s draws data rest := by
  induction draws generalizing s data with
  | nil => exact ⟨data, by simp [outcomes], rfl, h, nofun, fun _ => Nat.le_refl 0⟩
  | cons draw draws ih =>
    obtain ⟨hone, hmore⟩ := List.forall_mem_cons.1 hfair
    obtain ⟨got, later, hok, hsplit, hnext, htells, hgot⟩ := h.draw hleft hone
    have hsuffix : later <:+ all := (hsplit ▸ List.suffix_append got later).trans hleft
    obtain ⟨rest, hrest⟩ := ih hnext hsuffix hmore
    have hdrawn : drawn s (draw :: draws) = got ++ drawn (draw.take s).2 draws := by
      show handedOver (draw.take s).1 ++ drawn (draw.take s).2 draws = _
      rw [hok]
      rfl
    have htold : told s (draw :: draws) = (draw.tells got || told (draw.take s).2 draws) := by
      rw [told, hok]
      rfl
    refine ⟨rest, ?_, ?_, hrest.yields, ?_, ?_⟩
    · refine List.forall_mem_cons.2 ⟨?_, hrest.unfailing⟩
      rw [hok]
      rfl
    · rw [hdrawn, List.append_assoc, ← hrest.split]
      exact hsplit
    · intro ht
      rw [htold, Bool.or_eq_true] at ht
      rcases ht with ht | ht
      · have hnil : later = [] := htells ht
        exact (List.append_eq_nil_iff.1 (hrest.split.symm.trans hnil)).2
      · exact hrest.told ht
    · intro ht
      rw [htold, Bool.or_eq_false_iff] at ht
      have hpos := List.length_pos_iff.2 (hgot ht.1)
      have hlen := hrest.untold ht.2
      rw [hdrawn, List.length_append, List.length_cons]
      omega

/-- Behind the end there is nothing, however it is asked for. -/
theorem Yields.draws_nil (h : Yields s []) {draws : List (Draw κ)}
    (hfair : ∀ draw ∈ draws, draw.Fair all) : ∀ r ∈ outcomes s draws, r = .ok [] := by
  induction draws generalizing s with
  | nil => nofun
  | cons draw draws ih =>
    obtain ⟨hone, hmore⟩ := List.forall_mem_cons.1 hfair
    obtain ⟨got, later, hok, hsplit, hnext, -⟩ := h.draw (List.nil_suffix) hone
    obtain ⟨rfl, rfl⟩ := List.append_eq_nil_iff.1 hsplit.symm
    exact List.forall_mem_cons.2 ⟨hok, ih hnext hmore⟩

/-- The draws deliver `all`: none of them fails, together they get a front of it, all of it once the
end is told, nothing after that, and the end is told before there are more draws than bytes. -/
structure Delivers (s : σ) (draws : List (Draw κ)) (all : Bytes) : Prop where
  unfailing : ∀ r ∈ outcomes s draws, r.isOk = true
  front : drawn s draws <+: all
  whole : told s draws = true → drawn s draws = all
  silent : ∀ early late, draws = early ++ late → told s early = true →
    ∀ r ∈ outcomes (afterDraws s early) late, r = .ok []
  ends : all.length < draws.length → told s draws = true

theorem Yields.delivers (h : Yields s all) {draws : List (Draw κ)}
    (hfair : ∀ draw ∈ draws, draw.Fair all) : Delivers s draws all := by
  obtain ⟨rest, hrest⟩ := h.draws (List.suffix_refl all) hfair
  refine ⟨hrest.unfailing, ⟨rest, hrest.split.symm⟩, ?_, ?_, ?_⟩
  · intro ht
    have hall := hrest.split
    rw [hrest.told ht, List.append_nil] at hall
    exact hall.symm
  · intro early late heq ht
    subst heq
    obtain ⟨hearly, hlate⟩ := List.forall_mem_append.1 hfair
    obtain ⟨left, hleft⟩ := h.draws (List.suffix_refl all) hearly
    have hend := hleft.yields
    rw [hleft.told ht] at hend
    exact hend.draws_nil hlate
  · intro hmany
    cases ht : told s draws with
    | true => rfl
    | false =>
      have hfew := hrest.untold ht
      have hlen := congrArg List.length hrest.split
      rw [List.length_append] at hlen
      omega

end Draws

theorem Reader.handing_read {r : Reader} (h : ∀ item ∈ r, ∃ d, item = .bytes d) {n : Nat}
    (hn : 0 < n) :
    ∃ got, (r.read n).1 = .ok got ∧ r.bytes = got ++ (r.read n).2.bytes ∧ got.length ≤ n ∧
      (got = [] → r.bytes = []) ∧ ∀ item ∈ (r.read n).2, ∃ d, item = .bytes d := by
  have hnothing : ∀ item ∈ r, item ≠ .nothing := by
    rintro _ hmem rfl
    obtain ⟨d, hd⟩ := h _ hmem
    cases hd
  have hruns : (r.read n).1.isOk = true ∧ ∀ item ∈ (r.read n).2, ∃ d, item = .bytes d := by
    clear hnothing
    induction r with
    | nil => exact ⟨rfl, h⟩
    | cons item rest ih =>
      obtain ⟨⟨d, rfl⟩, hrest⟩ := List.forall_mem_cons.1 h
      cases d with
      | nil => exact ih hrest
      | cons b d => exact ⟨rfl, List.forall_mem_cons.2 ⟨⟨_, rfl⟩, hrest⟩⟩
  have hhanded := r.handed_read n
  have hends := (Reader.read_of_forall hnothing n).2 hn
  obtain ⟨hok, hlater⟩ := hruns
  rcases hr : (r.read n).1 with e | got
  · rw [hr] at hok
    cases hok
  · rw [hr] at hhanded hends
    exact ⟨got, rfl, hhanded.2, hhanded.1, fun hnil => hends (congrArg _ hnil), hlater⟩

/-- A script of runs of bytes yields these, whatever the cap on its reads. -/
theorem yields_plain {r : Reader} (h : ∀ item ∈ r, ∃ d, item = .bytes d) {cap : Option Nat}
    (hcap : cap ≠ some 0) : Yields (⟨r, cap⟩ : PlainSource) r.bytes := by
  apply Yields.of_invariant (R := fun (s : PlainSource) d =>
    (∀ item ∈ s.reader, ∃ d, item = .bytes d) ∧ s.maxRead ≠ some 0 ∧ d = s.reader.bytes)
  · rintro ⟨r, cap⟩ d n ⟨h, hcap, rfl⟩ hn
    have hpos := capped_pos hcap hn
    obtain ⟨got, hok, hsplit, hfits, hends, hlater⟩ := Reader.handing_read h hpos
    have hread : ByteSource.read (⟨r, cap⟩ : PlainSource) n =
        (.ok got, ⟨(r.read (capped cap n)).2, cap⟩) := by
      rcases hr : r.read (capped cap n) with ⟨e | d, q⟩ <;> rw [hr] at hok <;>
        simp only [ByteSource.read, hr]
      · cases hok
      · rw [Except.ok.inj hok]
    rw [hread]
    exact .ok hsplit (Nat.le_trans hfits (capped_le cap n)) hends ⟨hlater, hcap, rfl⟩
  · rintro ⟨r, cap⟩ d ⟨-, -, rfl⟩
    exact Nat.le_of_eq r.length_bytes
  · exact ⟨h, hcap, rfl⟩

end StreamLayers
