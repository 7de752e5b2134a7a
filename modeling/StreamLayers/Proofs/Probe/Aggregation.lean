import StreamLayers.Proofs.Probe.Rollback

/-!
Probes that share a registry, each over a new replay buffer of its own. Whatever they are asked for
in whatever order, a site counts each place of a stream once for each probe that has returned it.
-/

namespace StreamLayers

open Positioned

theorem exists_split {α : Type*} {l : List α} {i : Nat} {a : α} (h : l[i]? = some a) :
    ∃ before later, l = before ++ [a] ++ later ∧ ∀ b, l.set i b = before ++ b :: later := by
  obtain ⟨hi, rfl⟩ := List.getElem?_eq_some_iff.1 h
  refine ⟨l.take i, l.drop (i + 1), ?_, fun b => ?_⟩
  · simp
  · rw [List.set_eq_take_append_cons_drop, if_pos hi]

/-- What lies in front at a place of `data` is there in `data` itself. -/
theorem getElem?_of_mem_zipIdx {data got : Bytes} {place : Nat} (h : got <+: data.drop place)
    {e : UInt8 × Nat} (he : e ∈ got.zipIdx place) : data[e.2]? = some e.1 := by
  obtain ⟨later, hlater⟩ := h
  obtain ⟨hle, hget⟩ : place ≤ e.2 ∧ got[e.2 - place]? = some e.1 :=
    List.mk_mem_zipIdx_iff_le_and_getElem?_sub.1 he
  have hhere : (data.drop place)[e.2 - place]? = some e.1 := by
    rw [← hlater, List.getElem?_append_left (List.getElem?_eq_some_iff.1 hget).1]
    exact hget
  rwa [List.getElem?_drop, Nat.add_sub_cancel' hle] at hhere

namespace Watch

variable {σ : Type} [ByteSource σ]

/-- Whether the store of the buffer does what a call asks of it. -/
def serves (w : Watch (Replay σ)) : Probe.Call → Bool
  | .read n => w.probe.closed || w.probe.source.readServed n
  | .mark limit => w.probe.source.markServed limit
  | _ => true

/-- An open buffer is in step with the stream `data`, and every byte that was returned is the one
that the stream has in its place. -/
structure Faithful [SerialSource σ] (data : Bytes) (w : Watch (Replay σ)) : Prop where
  inStep : w.probe.closed = false → Replay.InStep data w.probe.source
  heard : ∀ e ∈ w.heard, data[e.2]? = some e.1

variable {w : Watch (Replay σ)}

theorem call_closed (hclosed : w.probe.closed = true) (c : Probe.Call) :
    (w.call c).probe.closed = true ∧ (w.call c).heard = w.heard := by
  cases c with
  | read n => simp [call, moveTo, Probe.read, hclosed]
  | mark limit =>
    simp only [call, Probe.setMark]
    rcases ByteSource.mark w.probe.source limit with ⟨e | u, s⟩ <;> exact ⟨hclosed, rfl⟩
  | reset =>
    simp only [call, Probe.reset]
    rcases ByteSource.reset w.probe.source with ⟨e | u, s⟩ <;> exact ⟨hclosed, rfl⟩
  | close => simp [call, moveTo, Probe.close, hclosed]

/-- As long as its store fails at nothing, a buffer hands out its stream. -/
theorem Faithful.call [SerialSource σ] {data : Bytes} (h : Faithful data w) {c : Probe.Call}
    (hserves : w.serves c = true) : Faithful data (w.call c) := by
  rcases hclosed : w.probe.closed with _ | _
  · have hstep := h.inStep hclosed
    cases c with
    | read n =>
      have hserves : w.probe.source.readServed n = true := by simpa [serves, hclosed] using hserves
      have hread := (hstep.read hserves).1
      have hopen : ¬ w.probe.closed = true := by simp [hclosed]
      simp only [Watch.call, Probe.read, if_neg hopen, ByteSource.read]
      rcases hr : w.probe.source.read n with ⟨e | got, b⟩ <;> rw [hr] at hread
      · exact ⟨fun _ => hread, h.heard⟩
      · refine ⟨fun _ => hread, fun e he => ?_⟩
        rcases List.mem_append.1 he with hold | hnew
        · exact h.heard e hold
        · exact getElem?_of_mem_zipIdx (hstep.read_got hr).from_position hnew
    | mark limit =>
      have hmark := (hstep.setMark hserves).2.1
      simp only [Watch.call, Probe.setMark, ByteSource.mark]
      rcases hm : w.probe.source.setMark limit with ⟨e | u, b⟩ <;> rw [hm] at hmark <;>
        exact ⟨fun _ => hmark, h.heard⟩
    | reset =>
      have hreset := hstep.reset.1
      simp only [Watch.call, Probe.reset, ByteSource.reset]
      rcases hr : w.probe.source.reset with ⟨e | u, b⟩ <;> rw [hr] at hreset <;>
        exact ⟨fun _ => hreset, h.heard⟩
    | close =>
      refine ⟨fun hopen => ?_, h.heard⟩
      simp [Watch.call, moveTo, Probe.close, hclosed] at hopen
  · obtain ⟨hstill, hsame⟩ := call_closed hclosed c
    refine ⟨fun hopen => ?_, fun e he => h.heard e (hsame ▸ he)⟩
    rw [hstill] at hopen
    cases hopen

end Watch

/-- A probe over a replay buffer, among others over sources of their own kinds. -/
structure Member : Type 1 where
  {σ : Type}
  [inst : ByteSource σ]
  /-- The source of the buffer when it was new. -/
  origin : σ
  watch : Watch (Replay σ)
  /-- Whether the store of the buffer was new, and has failed at nothing since. -/
  served : Bool

namespace Member

attribute [instance] Member.inst

/-- A new probe over the buffer `b`, which is new over `source`. -/
def new {σ : Type} [ByteSource σ] (source : σ) (b : Replay σ) (site : CallSite) : Member :=
  ⟨source, .attach b site, b.store.log.isEmpty⟩

def site (m : Member) : CallSite := m.watch.probe.site

/-- What the probe has counted. -/
def tally (m : Member) : Tally := m.watch.probe.tally

/-- The probes that were created at a site. -/
def atSite (site : CallSite) (members : List Member) : List Member := members.filter (·.site = site)

theorem atSite_append (site : CallSite) (members more : List Member) :
    atSite site (members ++ more) = atSite site members ++ atSite site more :=
  List.filter_append ..

theorem atSite_of_forall {members : List Member} {site : CallSite}
    (h : ∀ m ∈ members, m.site = site) (site' : CallSite) :
    atSite site' members = if site = site' then members else [] := by
  split
  · rename_i heq
    exact List.filter_eq_self.2 fun m hm => by simp [h m hm, heq]
  · rename_i hne
    exact List.filter_eq_nil_iff.2 fun m hm => by simp [h m hm, hne]

def call (m : Member) (c : Probe.Call) : Member :=
  { m with watch := m.watch.call c, served := m.served && m.watch.serves c }

/-- Adds what the probe has counted to a registry. -/
def settle (m : Member) (r : Registry) : Member × Registry :=
  let (probe, r) := m.watch.probe.settle r
  ({ m with watch := { m.watch with probe } }, r)

/-- The probe is in step with its buffer, and an active mark is its own. -/
structure Kept (m : Member) : Prop where
  inStep : m.watch.InStep 0
  marked : ∀ p limit, m.watch.probe.source.mark = .active p limit → m.watch.home = some p

variable {m : Member}

theorem Kept.homes (h : m.Kept) : m.watch.Homes := by
  intro hok
  obtain ⟨hsource, hresult, -⟩ := m.watch.probe.reset_moved
  have hok : m.watch.probe.source.reset.1 = .ok () := hresult.symm.trans hok
  obtain ⟨-, hactive, -⟩ := m.watch.probe.source.reset_moved
  obtain ⟨limit, hmark⟩ := hactive hok
  rw [hsource, h.marked _ limit hmark]
  rfl

theorem Kept.marked_call (h : m.Kept) (c : Probe.Call) {p : Nat} {limit : MarkLimit}
    (hm : (m.call c).watch.probe.source.mark = .active p limit) :
    (m.call c).watch.home = some p := by
  have hmarked := h.marked p limit
  cases c with
  | read n =>
    obtain ⟨hprobe, hhome, -⟩ := m.watch.call_read n
    obtain ⟨hsource, -⟩ := m.watch.probe.read_moved n
    obtain ⟨-, hsince, -⟩ := m.watch.probe.source.read_moved n
    simp only [call] at hm ⊢
    rw [hprobe] at hm
    rw [hhome]
    refine hmarked ?_
    rcases hsource with ⟨hq, -⟩ | ⟨hq, -⟩ <;> rw [hq] at hm
    · exact hsince.active hm
    · exact hm
  | mark limit' =>
    obtain ⟨hprobe, -, hhome⟩ := m.watch.call_mark limit'
    obtain ⟨hresult, hsource, -⟩ := m.watch.probe.setMark_moved limit'
    obtain ⟨-, hset⟩ := m.watch.probe.source.setMark_moved limit'
    simp only [call] at hm ⊢
    rw [hprobe, hsource] at hm
    have hset := hset p limit hm
    rw [hhome, hresult]
    simp only [ByteSource.mark]
    split at hset
    · rename_i hok
      rw [if_pos hok, hset]
      rfl
    · rename_i hfail
      rw [if_neg hfail]
      exact hmarked hset
  | reset =>
    obtain ⟨hsource, -⟩ := m.watch.probe.reset_moved
    have hkept := m.watch.probe.source.reset_moved.1
    exact hmarked (hkept.symm.trans ((congrArg Replay.mark hsource).symm.trans hm))
  | close =>
    refine hmarked ?_
    simp only [call, Watch.call, Watch.moveTo, Probe.close] at hm
    split at hm
    · exact hm
    · have hm : m.watch.probe.source.close.2.mark = .active p limit := hm
      unfold Replay.close at hm
      split at hm
      · exact hm
      · dsimp only at hm
        split at hm <;> cases hm

theorem Kept.call (h : m.Kept) (c : Probe.Call) : (m.call c).Kept where
  inStep := by
    have hmove := (Watch.carried_of_paced m.watch [.call c]).1
    exact Watch.InStep.apply h.inStep hmove fun _ => h.homes
  marked _ _ hm := h.marked_call c hm

theorem Kept.settle (h : m.Kept) (r : Registry) : (m.settle r).1.Kept where
  inStep := ⟨⟨h.inStep.reads_eq, h.inStep.highWater_eq, h.inStep.bytes_le, h.inStep.mark_le⟩,
    h.inStep.position_eq, h.inStep.home_eq, h.inStep.returned_eq⟩
  marked := h.marked

/-- As long as its store fails at nothing, the member hands out the stream of its source. -/
def Faithful (m : Member) : Prop :=
  ∀ _ : SerialSource m.σ, m.served = true → m.watch.Faithful (SerialSource.rest m.origin)

theorem Faithful.call (h : m.Faithful) (c : Probe.Call) : (m.call c).Faithful := by
  intro serial hserved
  obtain ⟨hbefore, hserves⟩ := Bool.and_eq_true_iff.1 hserved
  let _ : SerialSource m.σ := serial
  exact (h serial hbefore).call hserves

theorem Faithful.settle (h : m.Faithful) (r : Registry) : (m.settle r).1.Faithful := by
  intro serial hserved
  let _ : SerialSource m.σ := serial
  exact ⟨(h serial hserved).inStep, (h serial hserved).heard⟩

section New

variable {σ : Type} [ByteSource σ] {source : σ} {b : Replay σ}

theorem Kept.new (made : Replay.New source b) (site : CallSite) : (new source b site).Kept := by
  obtain ⟨-, hposition, -, hmark, -⟩ := made.start
  have hstart : (Watch.attach b site).InStep b.position := .attach b site
  rw [hposition] at hstart
  refine ⟨hstart, fun p limit hm => ?_⟩
  have hm : b.mark = .active p limit := hm
  rw [hmark] at hm
  cases hm

theorem Faithful.new (made : Replay.New source b) (site : CallSite) :
    (new source b site).Faithful := by
  intro serial hserved
  let _ : SerialSource σ := serial
  exact ⟨fun _ => made.inStep (List.isEmpty_iff.1 hserved), nofun⟩

end New

/-- The tallies of members that are kept, in all. -/
theorem sum_tally {members : List Member} (h : ∀ m ∈ members, m.Kept) :
    (members.map tally).sum =
      { instances := UInt64.ofNat members.length
        bytes := UInt64.ofNat (members.map (·.watch.largest)).sum
        reads := UInt64.ofNat (members.map (·.watch.reads)).sum } := by
  induction members with
  | nil => rfl
  | cons m rest ih =>
    obtain ⟨hm, hrest⟩ := List.forall_mem_cons.1 h
    have htally : m.tally =
        { instances := 1, bytes := .ofNat m.watch.largest, reads := .ofNat m.watch.reads } := by
      rw [← hm.inStep.highWater_eq, ← hm.inStep.reads_eq]
      rfl
    rw [List.map_cons, List.sum_cons, ih hrest, htally, Tally.add_eq]
    simp [UInt64.ofNat_add, UInt64.add_comm]

end Member

/-- Probes with the registry that they share. -/
structure Fleet : Type 1 where
  registry : Registry := {}
  members : List Member := []

namespace Fleet

inductive Act : Type 1 where
  /-- A probe is created at a site, over a new buffer. -/
  | attach {σ : Type} [ByteSource σ] (source : σ) (b : Replay σ) (made : Replay.New source b)
      (site : CallSite)
  /-- A call of one of the probes. -/
  | call (i : Nat) (c : Probe.Call)

def apply (f : Fleet) : Act → Fleet
  | @Act.attach _ _ source b _ site =>
    let (m, registry) := (Member.new source b site).settle f.registry
    { registry, members := f.members ++ [m] }
  | .call i c =>
    match f.members[i]? with
    | none => f
    | some m =>
      let (m, registry) := (m.call c).settle f.registry
      { registry, members := f.members.set i m }

def after (f : Fleet) (acts : List Act) : Fleet := acts.foldl apply f

/-- Beside what `r` has, the registry has what the probes have counted. -/
structure Tallied (r : Registry) (f : Fleet) : Prop where
  sound : f.registry.Sound
  settled : ∀ m ∈ f.members, m.watch.probe.due = 0
  total : ∀ site, f.registry.total site =
    r.total site + ((Member.atSite site f.members).map Member.tally).sum
  used : ∀ site, (f.registry.site? site).isSome ↔
    (r.site? site).isSome ∨ Member.atSite site f.members ≠ []

variable {r : Registry}

/-- A member, new or in the place of an old one, that settles what it has counted since. -/
theorem Tallied.settle {registry : Registry} {before old later : List Member} {m : Member}
    (h : Tallied r ⟨registry, before ++ old ++ later⟩) (hsite : ∀ o ∈ old, o.site = m.site)
    (htally : (old.map Member.tally).sum + m.watch.probe.due = m.tally) :
    Tallied r ⟨(m.settle registry).2, before ++ (m.settle registry).1 :: later⟩ := by
  have hsingle : ∀ o ∈ [(m.settle registry).1], o.site = m.site := fun o ho => by
    obtain rfl := List.mem_singleton.1 ho
    rfl
  have hone := Member.atSite_of_forall hsingle
  have hold := Member.atSite_of_forall hsite
  have hwhole : before ++ (m.settle registry).1 :: later =
      before ++ [(m.settle registry).1] ++ later := by simp
  rw [hwhole]
  refine ⟨Probe.sound_settle h.sound _, ?_, fun site => ?_, fun site => ?_⟩
  · intro o ho
    have hsettled := h.settled o
    simp only [List.mem_append, List.mem_singleton] at ho hsettled
    rcases ho with (ho | rfl) | ho
    · exact hsettled (.inl (.inl ho))
    · rfl
    · exact hsettled (.inr ho)
  · have htotal := Probe.total_settle h.sound m.watch.probe site
    have hbefore := h.total site
    simp only [Member.atSite_append, hold, hone] at hbefore ⊢
    refine htotal.trans ?_
    rw [hbefore]
    by_cases heq : m.site = site
    · have hdue : site = m.watch.probe.site := heq.symm
      rw [if_pos hdue, if_pos heq, if_pos heq]
      simp only [List.map_append, List.sum_append, List.map_cons, List.map_nil, List.sum_cons,
        List.sum_nil, add_zero]
      show _ = _ + (_ + m.tally + _)
      rw [← htally]
      simp only [add_assoc, add_comm]
    · have hdue : ¬ site = m.watch.probe.site := fun h => heq h.symm
      rw [if_neg hdue, if_neg heq, if_neg heq, add_zero]
  · have hused := Probe.isSome_settle h.sound m.watch.probe site
    have hbefore := h.used site
    simp only [Member.atSite_append, hold, hone] at hbefore ⊢
    refine hused.trans ?_
    rw [hbefore]
    by_cases heq : m.site = site
    · have hnow : site = m.watch.probe.site := heq.symm
      simp [heq, hnow]
    · have hdue : ¬ site = m.watch.probe.site := fun h => heq h.symm
      simp [heq, hdue]

theorem Tallied.apply {f : Fleet} (h : Tallied r f) (act : Act) : Tallied r (f.apply act) := by
  cases act with
  | attach source b made site =>
    have hnone : Tallied r ⟨f.registry, f.members ++ [] ++ []⟩ := by simpa using h
    have hnew : ([].map Member.tally).sum + (Member.new source b site).watch.probe.due =
        (Member.new source b site).tally := by
      rw [List.map_nil, List.sum_nil, zero_add]
      rfl
    have hold : ∀ o ∈ ([] : List Member), o.site = (Member.new source b site).site :=
      fun o ho => absurd ho List.not_mem_nil
    exact hnone.settle hold hnew
  | call i c =>
    rcases hm : f.members[i]? with _ | m <;> simp only [Fleet.apply, hm]
    · exact h
    · obtain ⟨before, later, hmembers, hset⟩ := exists_split hm
      have hmem : m ∈ f.members := List.mem_of_getElem? hm
      have hold : Tallied r ⟨f.registry, before ++ [m] ++ later⟩ := hmembers ▸ h
      obtain ⟨hsite, t, hdue, htally⟩ := m.watch.due_call c
      have hsame : ∀ o ∈ [m], o.site = (m.call c).site := fun o ho => by
        obtain rfl := List.mem_singleton.1 ho
        exact hsite.symm
      have hsum : ([m].map Member.tally).sum + (m.call c).watch.probe.due = (m.call c).tally := by
        have hzero : (m.call c).watch.probe.due = t := by
          rw [h.settled m hmem, zero_add] at hdue
          exact hdue
        rw [hzero, List.map_singleton, List.sum_singleton]
        exact htally.symm
      rw [hset]
      exact hold.settle hsame hsum

theorem Tallied.after {f : Fleet} (h : Tallied r f) (acts : List Act) :
    Tallied r (f.after acts) := by
  induction acts generalizing f with
  | nil => exact h
  | cons act rest ih => exact ih (h.apply act)

/-- What holds of new members, and is kept by calls and settling, holds of all. -/
theorem forall_after {P : Member → Prop}
    (hnew : ∀ {σ : Type} [ByteSource σ] (source : σ) (b : Replay σ), Replay.New source b →
      ∀ site, P (.new source b site))
    (hcall : ∀ m c, P m → P (m.call c)) (hsettle : ∀ m r, P m → P (m.settle r).1) {f : Fleet}
    (h : ∀ m ∈ f.members, P m) (acts : List Act) : ∀ m ∈ (f.after acts).members, P m := by
  induction acts generalizing f with
  | nil => exact h
  | cons act rest ih =>
    refine ih ?_
    cases act with
    | attach source b made site =>
      refine List.forall_mem_append.2 ⟨h, List.forall_mem_singleton.2 ?_⟩
      exact hsettle _ f.registry (hnew source b made site)
    | call i c =>
      rcases hm : f.members[i]? with _ | m <;> simp only [Fleet.apply, hm]
      · exact h
      · intro o ho
        rcases List.mem_or_eq_of_mem_set ho with hold | rfl
        · exact h o hold
        · exact hsettle _ _ (hcall m c (h m (List.mem_of_getElem? hm)))

/-- Whatever probes over new replay buffers are asked for, in whatever order and whichever of it
fails: a site counts the probes that were created there, the reads of theirs that succeeded, and for
each probe as many bytes as it has returned places of its stream, which is the largest size that it
ever had. The sites in use are listed once each, in the order of their locations. -/
theorem counts_once {r : Registry} (hr : r.Sound) (acts : List Act) :
    let f := after { registry := r } acts
    (∀ site, f.registry.total site = r.total site +
      { instances := UInt64.ofNat (Member.atSite site f.members).length
        bytes := UInt64.ofNat ((Member.atSite site f.members).map (·.watch.largest)).sum
        reads := UInt64.ofNat ((Member.atSite site f.members).map (·.watch.reads)).sum }) ∧
    (∀ m ∈ f.members, m.watch.largest = m.watch.returned.card ∧ m.Faithful) ∧
    (∀ site, (f.registry.site? site).isSome ↔
      (r.site? site).isSome ∨ Member.atSite site f.members ≠ []) ∧
    (∀ site t, (site, t) ∈ f.registry.sites ↔ f.registry.site? site = some t) ∧
    (f.registry.sites.map Prod.fst).Pairwise fun a b => a.le b = true ∧ a ≠ b := by
  intro f
  have hempty {P : Member → Prop} : ∀ m ∈ ({ registry := r } : Fleet).members, P m :=
    fun m hm => absurd hm List.not_mem_nil
  have hstart : Tallied r { registry := r } :=
    ⟨hr, hempty, fun site => (add_zero _).symm, fun site => by simp [Member.atSite]⟩
  have htallied : Tallied r f := hstart.after acts
  have hkept : ∀ m ∈ f.members, m.Kept :=
    forall_after (fun _ _ made site => .new made site) (fun _ c h => h.call c)
      (fun _ r h => h.settle r) hempty acts
  have hfaithful : ∀ m ∈ f.members, m.Faithful :=
    forall_after (fun _ _ made site => .new made site) (fun _ c h => h.call c)
      (fun _ r h => h.settle r) hempty acts
  refine ⟨fun site => ?_, fun m hm => ⟨?_, hfaithful m hm⟩, htallied.used,
    fun site t => htallied.sound.mem_sites, htallied.sound.sites_ordered⟩
  · have hhere : ∀ m ∈ Member.atSite site f.members, m.Kept :=
      fun m hm => hkept m (List.mem_of_mem_filter hm)
    rw [htallied.total site, Member.sum_tally hhere]
  · exact (hkept m hm).inStep.card_returned.symm

/-- Two probes at one site, over sources of different kinds: one reads across its mark again, and
the other fails and is closed. -/
theorem counts_once_shared :
    let first : MockSource := { rest := [1, 2, 3, 4, 5, 6, 7, 8] }
    let second : ReaderSource := ⟨some [.bytes [1, 2, 3], .fails ⟨.other, "no more"⟩]⟩
    let site : CallSite := ⟨"a", 1, 1⟩
    let acts : List Act :=
      [.attach first (Replay.withStore first (Store.Settings.build ⟨some 2, some "dir"⟩ true))
          (.withStore _) site,
        .attach second (Replay.withStore second (Store.Settings.build {} true))
          (.withStore _) site,
        .call 0 (.read 2), .call 0 (.mark .unlimited), .call 1 (.read 9), .call 0 (.read 3),
        .call 0 .reset, .call 0 (.read 2), .call 1 (.read 1), .call 1 .close, .call 1 (.read 1)]
    let f := after {} acts
    Registry.Sound {} ∧
      (Member.atSite site f.members).map (·.watch.largest) = [5, 3] ∧
      (Member.atSite site f.members).map (·.watch.reads) = [3, 1] ∧
      f.registry.total site = Registry.total {} site +
        { instances := UInt64.ofNat 2, bytes := UInt64.ofNat 8, reads := UInt64.ofNat 4 } := by
  intro first second site acts f
  have hlargest : (Member.atSite site f.members).map (·.watch.largest) = [5, 3] := by
    decide +kernel
  have hreads : (Member.atSite site f.members).map (·.watch.reads) = [3, 1] := by decide +kernel
  have hlength : (Member.atSite site f.members).length = 2 := by decide +kernel
  obtain ⟨htotal, -⟩ := counts_once Registry.sound_empty acts
  refine ⟨Registry.sound_empty, hlargest, hreads, (htotal site).trans ?_⟩
  rw [hlength, hlargest, hreads]
  rfl

end Fleet

end StreamLayers
