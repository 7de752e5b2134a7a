import StreamLayers.Proofs.Pipe.Reads

/-!
How the reader of a pipe learns what became of the producer. The outcome is posted before the
sending end is given up, so whoever finds the end of the data finds the outcome as well.
-/

namespace StreamLayers

namespace Pipe

variable {π α : Type} [Producer π α]

/-- A producer in state `s` may get to `t` by writing `data`, as long as no write fails. -/
inductive Wrote : π → Bytes → π → Prop where
  | start (s : π) : Wrote s [] s
  | write {s t : π} {data more : Bytes} {resume : Except Fault Unit → π} (before : Wrote s data t)
      (next : Producer.next t = .write more resume) : Wrote s (data ++ more) (resume (.ok ()))
  | look {s t : π} {data : Bytes} {resume : Nat → Bool → π} (before : Wrote s data t)
      (next : Producer.next t = .look resume) (written : Nat) (gone : Bool) :
      Wrote s data (resume written gone)

/-- A producer in state `s` may write `data` in all and then end with this outcome. -/
inductive Ended : π → Bytes → Slot α → Prop where
  | finish {s t : π} {data : Bytes} {result : Except Fault α} (before : Wrote s data t)
      (next : Producer.next t = .finish result) : Ended s data (.reported result)
  | crash {s t : π} {data : Bytes} (before : Wrote s data t) (next : Producer.next t = .crash) :
      Ended s data .dropped

/-- The producer leaves it to its end to give up the sending end. -/
def KeepsOpen (s : π) : Prop := ∀ data t r, Wrote s data t → Producer.next t ≠ .close r

/-- What a reader makes of the outcome. -/
def Slot.verdict : Slot α → Option (Verdict α)
  | .waiting => none
  | .reported (.ok v) => some (.value v)
  | .reported (.error e) => some (.failed (.producerFailed e))
  | .dropped => some (.failed .producerVanished)

/-- The answer to a reader that has all of the data and knows this much of the outcome. -/
def answerOf : Option (Verdict α) → Except Fault Bytes
  | some (.failed e) => .error e
  | _ => .ok []

omit [Producer π α] in
theorem poll_eq (p : Pipe π α) : p.poll = { p with verdict := p.verdict.or p.slot.verdict } := by
  obtain ⟨_, _, _, _, _, _, _, _, slot, _, _, verdict, _, _⟩ := p
  cases verdict with
  | some v => rfl
  | none =>
    cases slot with
    | waiting => rfl
    | dropped => rfl
    | reported r => cases r <;> rfl

theorem readEnd_eq (p : Pipe π α) :
    p.readEnd = (answerOf p.yield.poll.verdict, p.yield.poll) := by
  rcases hv : p.yield.poll.verdict with _ | _ | e | _ <;> simp only [readEnd, hv] <;> rfl

namespace Flow

variable {c : Settings} {producer : π} {f g : Flow π α}

/-- A pipe whose worker has done what its producer does, and whose reader knows of no other outcome
than the one that was posted. -/
structure Accounted (producer : π) (f : Flow π α) : Prop where
  working : match f.pipe.worker with
    | .ready s => Wrote producer f.offered s ∧ f.pipe.slot = .waiting
    | .sending _ resume => Wrote producer f.offered (resume (.ok ())) ∧ f.pipe.slot = .waiting
    | .leaving | .gone => Ended producer f.offered f.pipe.slot
  gone : f.pipe.senderGone = true → f.pipe.worker = .gone
  known : f.pipe.verdict = none ∨ f.pipe.verdict = f.pipe.slot.verdict

theorem Accounted.or_verdict (h : Accounted producer f) :
    f.pipe.verdict.or f.pipe.slot.verdict = f.pipe.slot.verdict := by
  rcases h.known with hv | hv
  · rw [hv, Option.none_or]
  · rw [hv, Option.or_self]

theorem Accounted.start (c : Settings) (producer : π) :
    Accounted producer (Flow.start c producer : Flow π α) where
  working := ⟨.start producer, rfl⟩
  gone := nofun
  known := .inl rfl

theorem Accounted.posted (h : Accounted producer f) (hposted : f.pipe.slot ≠ .waiting) :
    Ended producer f.offered f.pipe.slot := by
  have hworking := h.working
  rcases hw : f.pipe.worker with s | ⟨chunks, resume⟩ | _ | _ <;> simp only [hw] at hworking
  case ready => exact absurd hworking.2 hposted
  case sending => exact absurd hworking.2 hposted
  case leaving => exact hworking
  case gone => exact hworking

theorem Accounted.workReady (h : Accounted producer f) (hk : KeepsOpen producer) {s : π}
    (hw : f.pipe.worker = .ready s) {q : Pipe π α} (hq : f.pipe.advance? = some q) :
    Accounted producer ⟨q, f.offered ++ f.pipe.begins, f.delivered⟩ := by
  have hworking := h.working
  rw [hw] at hworking
  obtain ⟨hpath, hslot⟩ := hworking
  have hopen : ¬ f.pipe.senderGone = true := fun hs => by cases hw.symm.trans (h.gone hs)
  have hunknown : f.pipe.verdict = none := by
    rcases h.known with hv | hv
    · exact hv
    · rw [hv, hslot]
      rfl
  unfold advance? at hq
  simp only [hw] at hq
  rcases hm : Producer.next s with ⟨data, resume⟩ | r | resume | result | _ <;>
    simp only [hm] at hq
  case write =>
    have hb : f.pipe.begins = data := by simp [begins, hw, hm, hopen]
    rw [if_neg hopen] at hq
    obtain rfl := Option.some.inj hq
    rw [hb]
    exact ⟨⟨hpath.write hm, hslot⟩, fun hs => absurd hs hopen, h.known⟩
  case close => exact absurd hm (hk _ _ _ hpath)
  case look =>
    have hb : f.pipe.begins = [] := by simp [begins, hw, hm]
    obtain rfl := Option.some.inj hq
    rw [hb, List.append_nil]
    exact ⟨⟨hpath.look hm _ _, hslot⟩, fun hs => absurd hs hopen, h.known⟩
  case finish =>
    have hb : f.pipe.begins = [] := by simp [begins, hw, hm]
    obtain rfl := Option.some.inj hq
    rw [hb, List.append_nil]
    exact ⟨.finish hpath hm, fun hs => absurd hs hopen, .inl hunknown⟩
  case crash =>
    have hb : f.pipe.begins = [] := by simp [begins, hw, hm]
    obtain rfl := Option.some.inj hq
    rw [hb, List.append_nil]
    exact ⟨.crash hpath hm, fun hs => absurd hs hopen, .inl hunknown⟩

theorem Accounted.work (h : Accounted producer f) (hkept : Conserved c producer f)
    (hk : KeepsOpen producer) {q : Pipe π α} (hq : f.pipe.advance? = some q) :
    Accounted producer ⟨q, f.offered ++ f.pipe.begins, f.delivered⟩ := by
  have hworking := h.working
  rcases hw : f.pipe.worker with s | ⟨chunks, resume⟩ | _ | _
  case ready => exact h.workReady hk hw hq
  case sending =>
    have hb : f.pipe.begins = [] := by simp [begins, hw]
    have hopen : ¬ f.pipe.senderGone = true := fun hs => by cases hw.symm.trans (h.gone hs)
    rw [hw] at hworking
    rw [hb, List.append_nil]
    unfold advance? at hq
    cases chunks with
    | nil =>
      simp only [hw, Option.some.injEq] at hq
      subst hq
      exact ⟨hworking, fun hs => absurd hs hopen, h.known⟩
    | cons chunk rest =>
      have hreceiving : ¬ f.pipe.receiverGone = true := by simp [hkept.receiving]
      simp only [hw] at hq
      rw [if_neg hreceiving] at hq
      split at hq
      · obtain rfl := Option.some.inj hq
        exact ⟨hworking, fun hs => absurd hs hopen, h.known⟩
      · cases hq
  case leaving =>
    have hb : f.pipe.begins = [] := by simp [begins, hw]
    rw [hw] at hworking
    rw [hb, List.append_nil]
    unfold advance? at hq
    simp only [hw, Option.some.injEq] at hq
    subst hq
    exact ⟨hworking, fun _ => rfl, h.known⟩
  case gone =>
    unfold advance? at hq
    simp only [hw] at hq
    cases hq

theorem Accounted.step (h : Accounted producer f) (hkept : Conserved c producer f)
    (hk : KeepsOpen producer) (hs : Step f g) : Accounted producer g := by
  cases hs with
  | work moved => exact h.work hkept hk moved
  | take used front => exact { h with }
  | finish used empty gone => exact { h with }
  | hand n => exact { h with }
  | poll =>
    rw [poll_eq]
    exact { h with known := .inr h.or_verdict }
  | schedule steps => exact { h with }

theorem Accounted.reach (h : Accounted producer f) (hkept : Conserved c producer f)
    (hc : 0 < c.chunkSize) (hk : KeepsOpen producer) (hr : Reach f g) : Accounted producer g := by
  induction hr with
  | refl => exact h
  | tail hr hs ih => exact ih.step (hkept.reach hc hr) hk hs

/-- A reader that finds the end of the data is told of the outcome. -/
theorem Accounted.readEnd (h : Accounted producer f) (hkept : Conserved c producer f)
    (hc : 0 < c.chunkSize) (hk : KeepsOpen producer) (hend : f.pipe.endOfData = true) :
    Ended producer f.offered f.pipe.readEnd.2.slot ∧
      f.pipe.readEnd.1 = answerOf f.pipe.readEnd.2.slot.verdict := by
  -- The worker runs on before the verdict is looked at, and by then it is past its outcome: the
  -- data ends only once the sending end is given up, which is the last thing a worker does.
  obtain ⟨g, haside, hg⟩ := aside_yield f
  have hacc := h.reach hkept hc hk haside.reach
  have hgone : g.pipe.senderGone = true :=
    ((hkept.reach hc haside.reach).ended (haside.endOfData_eq.trans hend)).1
  have hoffered : g.offered = f.offered :=
    (offered_of_senderGone haside.reach (hkept.ended hend).1).1
  have hended : Ended producer g.offered g.pipe.slot := by
    have hworking := hacc.working
    rw [hacc.gone hgone] at hworking
    exact hworking
  have hread : f.pipe.readEnd =
      (answerOf g.pipe.slot.verdict, { g.pipe with verdict := g.pipe.slot.verdict }) := by
    rw [readEnd_eq, ← hg, poll_eq, hacc.or_verdict]
  rw [hread, ← hoffered]
  exact ⟨hended, rfl⟩

/-- A read gets more of the data, or the reader has all of it and is told of the outcome. -/
theorem Accounted.read (h : Accounted producer f) (hkept : Conserved c producer f)
    (hc : 0 < c.chunkSize) (hk : KeepsOpen producer) {n : Nat} (hn : 0 < n) :
    ∃ g, Reach f g ∧ g.pipe = (f.pipe.read n).2 ∧
      ((∃ b bs, (f.pipe.read n).1 = .ok (b :: bs) ∧ g.delivered = f.delivered ++ b :: bs) ∨
        (f.pipe.read n).1 = answerOf g.pipe.slot.verdict ∧ g.delivered = f.delivered ∧
          f.delivered = g.offered ∧ Ended producer f.delivered g.pipe.slot) := by
  obtain ⟨g₁, hreach, hdelivered, hread, hend⟩ := hkept.read_eq_serve hc hn
  rw [hread]
  rcases hcur : g₁.pipe.current with _ | ⟨b, bs⟩
  · have hserve : g₁.pipe.serve n = g₁.pipe.readEnd := by simp only [serve, hcur]
    have hkept₁ := hkept.reach hc hreach
    obtain ⟨hended, hanswer⟩ := (h.reach hkept hc hk hreach).readEnd hkept₁ hc hk (hend hcur)
    obtain ⟨g, haside, hg, -⟩ := aside_readEnd g₁
    have hall := (hkept₁.ended_eq (hend hcur) hcur).1
    have hoffered := (offered_of_senderGone haside.reach (hkept₁.ended (hend hcur)).1).1
    rw [hserve]
    refine ⟨g, hreach.trans haside.reach, hg, .inr ⟨?_, ?_, ?_, ?_⟩⟩
    · rw [hg]
      exact hanswer
    · rw [haside.delivered_eq, hdelivered]
    · rw [hoffered, ← hall, hdelivered]
    · rw [hg, ← hdelivered, hall]
      exact hended
  · obtain ⟨m, rfl⟩ := Nat.exists_eq_add_of_lt hn
    refine ⟨_, hreach.tail (.hand g₁ (0 + m + 1)), ?_, .inl ⟨b, bs.take (0 + m), ?_, ?_⟩⟩
    · simp only [serve, hcur]
    · simp only [serve, hcur, List.take_succ_cons]
    · simp only [hcur, hdelivered, List.take_succ_cons]

/-- Nothing is written once the outcome is posted, and the outcome stays. -/
theorem Accounted.settled (h : Accounted producer f) (hkept : Conserved c producer f)
    (hc : 0 < c.chunkSize) (hk : KeepsOpen producer) (hposted : f.pipe.slot ≠ .waiting)
    (hr : Reach f g) : g.offered = f.offered ∧ g.pipe.slot = f.pipe.slot := by
  induction hr with
  | refl => exact ⟨rfl, rfl⟩
  | @tail g₁ g₂ hr hs ih =>
    obtain ⟨hoffered, hslot⟩ := ih
    have hworking := (h.reach hkept hc hk hr).working
    cases hs with
    | work moved =>
      unfold advance? at moved
      unfold begins
      rcases hw : g₁.pipe.worker with s | ⟨chunks, resume⟩ | _ | _ <;>
        simp only [hw] at moved hworking
      case ready => exact absurd hworking.2 (hslot ▸ hposted)
      case sending => exact absurd hworking.2 (hslot ▸ hposted)
      case leaving =>
        obtain rfl := Option.some.inj moved
        exact ⟨by rw [List.append_nil]; exact hoffered, hslot⟩
      case gone => cases moved
    | take used front => exact ⟨hoffered, hslot⟩
    | finish used empty gone => exact ⟨hoffered, hslot⟩
    | hand n => exact ⟨hoffered, hslot⟩
    | poll =>
      rw [poll_eq]
      exact ⟨hoffered, hslot⟩
    | schedule steps => exact ⟨hoffered, hslot⟩

theorem Conserved.delivered_le_offered (h : Conserved c producer f) : f.delivered <+: f.offered := by
  rw [h.offered_eq, List.append_assoc, List.append_assoc]
  exact List.prefix_append _ _

/-- What a reader gets once the outcome is posted: the rest of the data, then that answer. -/
theorem Accounted.read_posted (h : Accounted producer f) (hkept : Conserved c producer f)
    (hc : 0 < c.chunkSize) (hk : KeepsOpen producer) (hposted : f.pipe.slot ≠ .waiting) {n : Nat}
    (hn : 0 < n) :
    ∃ g, Reach f g ∧ g.pipe = (f.pipe.read n).2 ∧
      if f.delivered = f.offered then
        (f.pipe.read n).1 = answerOf f.pipe.slot.verdict ∧ g.delivered = f.delivered
      else
        ∃ b bs, (f.pipe.read n).1 = .ok (b :: bs) ∧ g.delivered = f.delivered ++ b :: bs ∧
          f.delivered ++ b :: bs <+: f.offered := by
  obtain ⟨g, hreach, hg, hread⟩ := h.read hkept hc hk hn
  obtain ⟨hoffered, hslot⟩ := h.settled hkept hc hk hposted hreach
  have hfront : g.delivered <+: f.offered :=
    hoffered ▸ (hkept.reach hc hreach).delivered_le_offered
  refine ⟨g, hreach, hg, ?_⟩
  rcases hread with ⟨b, bs, hr, hgot⟩ | ⟨hr, hsame, hall, -⟩
  · have hmore : f.delivered ≠ f.offered := by
      intro he
      have := hfront.length_le
      rw [hgot, he, List.length_append, List.length_cons] at this
      omega
    rw [if_neg hmore]
    exact ⟨b, bs, hr, hgot, hgot ▸ hfront⟩
  · rw [hoffered] at hall
    rw [if_pos hall, ← hslot]
    exact ⟨hr, hsame⟩

omit [Producer π α] in
@[simp] theorem handedOver_answerOf (v : Option (Verdict α)) : handedOver (answerOf v) = [] := by
  rcases v with _ | _ | e | _ <;> rfl

/-- Every read that is not an answer about the outcome gets at least one byte. -/
theorem Accounted.reads_posted (h : Accounted producer f) (hkept : Conserved c producer f)
    (hc : 0 < c.chunkSize) (hk : KeepsOpen producer) (hposted : f.pipe.slot ≠ .waiting)
    {sizes : List Nat} (hsizes : ∀ n ∈ sizes, 0 < n) :
    ∃ g, Reach f g ∧ g.pipe = ByteSource.afterReads f.pipe sizes ∧
      g.delivered = f.delivered ++ ByteSource.reads f.pipe sizes ∧
      min f.offered.length (f.delivered.length + sizes.length) ≤ g.delivered.length := by
  induction sizes generalizing f with
  | nil => exact ⟨f, .refl, rfl, (List.append_nil _).symm, Nat.min_le_right _ _⟩
  | cons n rest ih =>
    obtain ⟨g₁, hreach, hg₁, hread⟩ :=
      h.read_posted hkept hc hk hposted (hsizes n List.mem_cons_self)
    obtain ⟨hoffered, hslot⟩ := h.settled hkept hc hk hposted hreach
    have hfirst : g₁.delivered = f.delivered ++ handedOver (f.pipe.read n).1 ∧
        min f.offered.length (f.delivered.length + 1) ≤ g₁.delivered.length := by
      split at hread
      · rename_i hall
        obtain ⟨hr, hsame⟩ := hread
        rw [hr, handedOver_answerOf, hsame, List.append_nil, hall]
        exact ⟨rfl, Nat.min_le_left _ _⟩
      · obtain ⟨b, bs, hr, hgot, -⟩ := hread
        rw [hr, hgot, List.length_append, List.length_cons]
        exact ⟨rfl, by omega⟩
    obtain ⟨g, hrest, hg, hmore, hlen⟩ :=
      ih (h.reach hkept hc hk hreach) (hkept.reach hc hreach) (hslot ▸ hposted)
        (fun m hm => hsizes m (List.mem_cons_of_mem n hm))
    refine ⟨g, hreach.trans hrest, ?_, ?_, ?_⟩
    · rw [hg, hg₁]
      rfl
    · rw [hmore, hfirst.1, hg₁, List.append_assoc]
      rfl
    · have hone := hfirst.2
      rw [hoffered] at hlen
      simp only [List.length_cons]
      omega

/-- A pipe from which nothing more comes than the bytes that were written and then this failure, in
whatever order its two ends act from now on. -/
structure Fails (f : Flow π α) (e : Fault) : Prop where
  final : ∀ g, Reach f g → g.offered = f.offered
  reads : ∀ g, Reach f g → ∀ n, 0 < n →
    if g.delivered = f.offered then (g.pipe.read n).1 = .error e
    else ∃ b bs, (g.pipe.read n).1 = .ok (b :: bs) ∧ g.delivered ++ b :: bs <+: f.offered
  drains : ∀ sizes, (∀ n ∈ sizes, 0 < n) → f.offered.length ≤ f.delivered.length + sizes.length →
    f.delivered ++ ByteSource.reads f.pipe sizes = f.offered ∧
      ∀ n, 0 < n → ((ByteSource.afterReads f.pipe sizes).read n).1 = .error e

theorem Accounted.fails (h : Accounted producer f) (hkept : Conserved c producer f)
    (hc : 0 < c.chunkSize) (hk : KeepsOpen producer) {e : Fault}
    (he : f.pipe.slot.verdict = some (.failed e)) : Fails f e := by
  have hposted : f.pipe.slot ≠ .waiting := by
    intro hs
    rw [hs] at he
    cases he
  have hreads : ∀ g, Reach f g → ∀ n, 0 < n →
      if g.delivered = f.offered then (g.pipe.read n).1 = .error e
      else ∃ b bs, (g.pipe.read n).1 = .ok (b :: bs) ∧ g.delivered ++ b :: bs <+: f.offered := by
    intro g hg n hn
    obtain ⟨hoffered, hslot⟩ := h.settled hkept hc hk hposted hg
    obtain ⟨_, -, -, hread⟩ := (h.reach hkept hc hk hg).read_posted (hkept.reach hc hg) hc hk
      (hslot ▸ hposted) hn
    rw [hoffered, hslot, he] at hread
    split at hread
    · rename_i hall
      rw [if_pos hall]
      exact hread.1
    · rename_i hmore
      obtain ⟨b, bs, hr, -, hfront⟩ := hread
      rw [if_neg hmore]
      exact ⟨b, bs, hr, hfront⟩
  refine ⟨fun g hg => (h.settled hkept hc hk hposted hg).1, hreads, ?_⟩
  intro sizes hsizes hlen
  obtain ⟨g, hg, hpipe, hgot, hmin⟩ := h.reads_posted hkept hc hk hposted hsizes
  have hfront : g.delivered <+: f.offered :=
    (h.settled hkept hc hk hposted hg).1 ▸ (hkept.reach hc hg).delivered_le_offered
  have hall : g.delivered = f.offered := by
    have hle := hfront.length_le
    exact hfront.eq_of_length (by omega)
  refine ⟨hgot ▸ hall, ?_⟩
  intro n hn
  have hread := hreads g hg n hn
  rw [if_pos hall, hpipe] at hread
  exact hread

/-- What a pipe tells its reader of the producer. -/
structure Candid (producer : π) (f : Flow π α) : Prop where
  /-- The reader is told of the end only if the producer returned a value. -/
  ended : ∀ n, 0 < n → (f.pipe.read n).1 = .ok [] →
    ∃ v, (f.pipe.read n).2.slot = .reported (.ok v) ∧ Ended producer f.delivered (.reported (.ok v))
  /-- A read fails only if the producer did, and after all that it wrote. -/
  failed : ∀ n e, 0 < n → (f.pipe.read n).1 = .error e →
    (∃ x, e = .producerFailed x ∧ (f.pipe.read n).2.slot = .reported (.error x) ∧
      Ended producer f.delivered (.reported (.error x))) ∨
    e = .producerVanished ∧ (f.pipe.read n).2.slot = .dropped ∧ Ended producer f.delivered .dropped
  returned : ∀ e, f.pipe.slot = .reported (.error e) →
    Ended producer f.offered (.reported (.error e)) ∧ Fails f (.producerFailed e)
  crashed : f.pipe.slot = .dropped → Ended producer f.offered .dropped ∧ Fails f .producerVanished

/-- A reader that gets nothing has all of the data, and what it is told is how the producer ended. -/
theorem Accounted.told (h : Accounted producer f) (hkept : Conserved c producer f)
    (hc : 0 < c.chunkSize) (hk : KeepsOpen producer) {n : Nat} (hn : 0 < n)
    (hr : handedOver (f.pipe.read n).1 = []) :
    (f.pipe.read n).1 = answerOf (f.pipe.read n).2.slot.verdict ∧
      Ended producer f.delivered (f.pipe.read n).2.slot := by
  obtain ⟨g, -, hg, ⟨b, bs, hmore, -⟩ | ⟨hanswer, -, -, hended⟩⟩ := h.read hkept hc hk hn
  · rw [hmore] at hr
    cases hr
  · rw [hg] at hanswer hended
    exact ⟨hanswer, hended⟩

/-- In whatever order the two ends act, a failure of a producer that leaves its pipe open is never
mistaken for the end of the data. -/
theorem candid_of_reach {c : Settings} (hc : c.validate = .ok ()) {producer : π}
    (hk : KeepsOpen producer) {f : Flow π α} (hf : Reach (start c producer) f) :
    Candid producer f := by
  have hpos := chunkSize_pos hc
  have hkept := (Conserved.start c producer).reach hpos hf
  have h := (Accounted.start c producer).reach (Conserved.start c producer) hpos hk hf
  have hposted {slot : Slot α} (hs : f.pipe.slot = slot) (hne : slot ≠ .waiting) :
      Ended producer f.offered slot := hs ▸ h.posted (hs ▸ hne)
  refine ⟨?_, ?_, ?_, ?_⟩
  · intro n hn hr
    obtain ⟨hanswer, hended⟩ := h.told hkept hpos hk hn (by rw [hr]; rfl)
    rw [hr] at hanswer
    rcases hs : (f.pipe.read n).2.slot with _ | (x | v) | _ <;> rw [hs] at hanswer hended
    · cases hended
    · cases hanswer
    · exact ⟨v, rfl, hended⟩
    · cases hanswer
  · intro n e hn hr
    obtain ⟨hanswer, hended⟩ := h.told hkept hpos hk hn (by rw [hr]; rfl)
    rw [hr] at hanswer
    rcases hs : (f.pipe.read n).2.slot with _ | (x | v) | _ <;> rw [hs] at hanswer hended
    · cases hanswer
    · exact .inl ⟨x, Except.error.inj hanswer, rfl, hended⟩
    · cases hanswer
    · exact .inr ⟨Except.error.inj hanswer, rfl, hended⟩
  · intro e hs
    exact ⟨hposted hs nofun, h.fails hkept hpos hk (by rw [hs]; rfl)⟩
  · intro hs
    exact ⟨hposted hs nofun, h.fails hkept hpos hk (by rw [hs]; rfl)⟩

end Flow

end Pipe

/-- Whether a move closes nothing and leads on only to states in which `P` holds, if no write
fails. -/
def Move.Stays {π α : Type} (P : π → Prop) : Move π α → Prop
  | .write _ resume => P (resume (.ok ()))
  | .look resume => ∀ written gone, P (resume written gone)
  | .close _ => False
  | .finish _ | .crash => True

namespace Pipe

theorem keepsOpen_of_stays {π α : Type} [Producer π α] {P : π → Prop} {s : π} (hs : P s)
    (hstep : ∀ t, P t → (Producer.next t).Stays P) : KeepsOpen s := by
  have hreach : ∀ data t, Wrote s data t → P t := by
    intro data t hpath
    induction hpath with
    | start => exact hs
    | write _ next ih =>
      have := hstep _ ih
      rw [next] at this
      exact this
    | look _ next written gone ih =>
      have := hstep _ ih
      rw [next] at this
      exact this written gone
  intro data t r hpath hclose
  have := hstep t (hreach data t hpath)
  rw [hclose] at this
  exact this

end Pipe

namespace Script

def Open : Script → Prop
  | .running tasks _ => ∀ t ∈ tasks, t ≠ .close
  | .failed _ => True

theorem nextOf_stays (tasks : List Task) (notes : List Note) (h : ∀ t ∈ tasks, t ≠ .close) :
    (nextOf tasks notes).Stays Open := by
  induction tasks generalizing notes with
  | nil => trivial
  | cons t rest ih =>
    have hrest := (List.forall_mem_cons.1 h).2
    cases t with
    | write data => exact hrest
    | writeOs data => exact hrest
    | tryWrite data => exact hrest
    | tryWriteOs data => exact hrest
    | flush => exact ih notes hrest
    | close => exact absurd rfl (h .close List.mem_cons_self)
    | note => exact fun _ _ => hrest
    | forever head tail => exact h
    | pump source chunk total =>
      unfold nextOf
      split
      · trivial
      · split
        · trivial
        · exact ih _ hrest
        · exact List.forall_mem_cons.2 ⟨nofun, hrest⟩
    | fail e => trivial
    | crash => trivial

theorem keepsOpen_ofTasks {tasks : List Task} (h : ∀ t ∈ tasks, t ≠ .close) :
    Pipe.KeepsOpen (ofTasks tasks) := by
  refine Pipe.keepsOpen_of_stays (P := Open) h ?_
  intro s hs
  cases s with
  | running tasks notes => exact nextOf_stays tasks notes hs
  | failed e => trivial

end Script

namespace Pipe

/-- A producer that gives up in the middle: its reader gets the five bytes and then the failure. -/
theorem candid_of_reach_failing :
    let c : Settings := { bufferSize := 4, chunkSize := 2 }
    let e : Fault := .invalidSettings "producer gave up"
    let script := Script.ofTasks [.write [1, 2, 3, 4, 5], .fail e]
    let p : Pipe Script (List Script.Note) := .start c script
    let q := ByteSource.afterReads p [1, 9, 9, 9]
    c.validate = .ok () ∧ KeepsOpen script ∧ ByteSource.reads p [1, 9, 9, 9] = [1, 2, 3, 4, 5] ∧
      (q.read 9).1 = .error (.producerFailed e) ∧
      Ended script [1, 2, 3, 4, 5] (.reported (.error e)) := by
  intro c e script p q
  have hc : c.validate = .ok () := rfl
  have hk : KeepsOpen script := Script.keepsOpen_ofTasks (by simp)
  have hgot : ByteSource.reads p [1, 9, 9, 9] = [1, 2, 3, 4, 5] := by
    dsimp only [p, script, c]
    cbv
  have hfail : (q.read 9).1 = .error (.producerFailed e) := by
    dsimp only [q, p, script, c, e]
    cbv
  obtain ⟨g, hreach, hg, hdelivered⟩ :=
    (Flow.Conserved.start c script).reads (Flow.chunkSize_pos hc) [1, 9, 9, 9]
  have hall : g.delivered = [1, 2, 3, 4, 5] := hdelivered.trans hgot
  have htold := (Flow.candid_of_reach hc hk hreach).failed 9 (.producerFailed e) (by decide)
    (by rw [hg]; exact hfail)
  rw [hall] at htold
  rcases htold with ⟨x, hx, -, hended⟩ | ⟨hx, -⟩
  · obtain rfl : e = x := Fault.producerFailed.inj hx
    exact ⟨hc, hk, hgot, hfail, hended⟩
  · cases hx

end Pipe

end StreamLayers
