import StreamLayers.Pipe.Script
import StreamLayers.Proofs.Pipe.Flow
import StreamLayers.Proofs.Source

/-!
Reads of a pipe, whatever the worker does before and during them. Each is a run of acts of the two
ends, so a reader gets what the producer has written, and learns of the end when it has all of it.
-/

namespace StreamLayers

namespace Pipe

variable {π α : Type} [Producer π α]

theorem advance?_frame {p q : Pipe π α} (h : p.advance? = some q) :
    q.current = p.current ∧ q.endOfData = p.endOfData ∧
      (p.senderGone = true → q.senderGone = true) := by
  unfold advance? at h
  split at h
  · cases h
  · obtain rfl := Option.some.inj h
    exact ⟨rfl, rfl, fun _ => rfl⟩
  · obtain rfl := Option.some.inj h
    exact ⟨rfl, rfl, id⟩
  · split at h
    · obtain rfl := Option.some.inj h
      exact ⟨rfl, rfl, id⟩
    · split at h
      · obtain rfl := Option.some.inj h
        exact ⟨rfl, rfl, id⟩
      · cases h
  · split at h
    · split at h <;> obtain rfl := Option.some.inj h <;> exact ⟨rfl, rfl, id⟩
    · obtain rfl := Option.some.inj h
      exact ⟨rfl, rfl, fun _ => rfl⟩
    · obtain rfl := Option.some.inj h
      exact ⟨rfl, rfl, id⟩
    · obtain rfl := Option.some.inj h
      exact ⟨rfl, rfl, id⟩
    · obtain rfl := Option.some.inj h
      exact ⟨rfl, rfl, id⟩

namespace Flow

variable {c : Settings} {producer : π} {f g h : Flow π α}

/-- What may happen while the reader takes nothing. -/
structure Aside (f g : Flow π α) : Prop where
  reach : Reach f g
  delivered_eq : g.delivered = f.delivered
  current_eq : g.pipe.current = f.pipe.current
  endOfData_eq : g.pipe.endOfData = f.pipe.endOfData

theorem Aside.refl (f : Flow π α) : Aside f f := ⟨.refl, rfl, rfl, rfl⟩

theorem Aside.trans (hf : Aside f g) (hg : Aside g h) : Aside f h where
  reach := Relation.ReflTransGen.trans hf.reach hg.reach
  delivered_eq := hg.delivered_eq.trans hf.delivered_eq
  current_eq := hg.current_eq.trans hf.current_eq
  endOfData_eq := hg.endOfData_eq.trans hf.endOfData_eq

theorem Aside.work {q : Pipe π α} (hq : f.pipe.advance? = some q) :
    Aside f ⟨q, f.offered ++ f.pipe.begins, f.delivered⟩ where
  reach := .single (.work hq)
  delivered_eq := rfl
  current_eq := (advance?_frame hq).1
  endOfData_eq := (advance?_frame hq).2.1

/-- A worker that runs until something holds has got there, or can do nothing. -/
theorem aside_runUntil (done : Pipe π α → Bool) (f : Flow π α) :
    ∃ g, Aside f g ∧ g.pipe = f.pipe.runUntil done ∧
      (done g.pipe = true ∨ g.pipe.advance? = none) := by
  obtain ⟨p, offered, delivered⟩ := f
  show ∃ g, Aside ⟨p, offered, delivered⟩ g ∧ g.pipe = p.runUntil done ∧ _
  fun_induction runUntil done p generalizing offered with
  | case1 p hd => exact ⟨_, .refl _, rfl, .inl hd⟩
  | case2 p hd hnone => exact ⟨_, .refl _, rfl, .inr hnone⟩
  | case3 p hd q hq _ ih =>
    obtain ⟨g, haside, hg, hend⟩ := ih (offered ++ p.begins)
    exact ⟨g, (Aside.work hq).trans haside, hg, hend⟩

theorem aside_run (n : Nat) (f : Flow π α) : ∃ g, Aside f g ∧ g.pipe = f.pipe.run n := by
  induction n generalizing f with
  | zero => exact ⟨f, .refl f, rfl⟩
  | succ n ih =>
    unfold run
    rcases hq : f.pipe.advance? with _ | q
    · exact ⟨f, .refl f, rfl⟩
    · obtain ⟨g, haside, hg⟩ := ih ⟨q, f.offered ++ f.pipe.begins, f.delivered⟩
      exact ⟨g, (Aside.work hq).trans haside, hg⟩

theorem aside_yield (f : Flow π α) : ∃ g, Aside f g ∧ g.pipe = f.pipe.yield := by
  unfold yield
  split
  · exact ⟨f, .refl f, rfl⟩
  · rename_i n rest _
    obtain ⟨g, haside, hg⟩ := aside_run n { f with pipe := { f.pipe with schedule := rest } }
    exact ⟨g, (Aside.mk (.single (.schedule f rest)) rfl rfl rfl).trans haside, hg⟩

/-- A worker that can do nothing while there is room in the queue is gone. -/
theorem Conserved.senderGone_of_stuck (h : Conserved c producer f) (hq : f.pipe.queue = [])
    (hstuck : f.pipe.advance? = none) : f.pipe.senderGone = true := by
  have hroom : f.pipe.queue.length < f.pipe.capacity := by
    rw [hq, h.capacity_eq]
    exact Nat.lt_of_lt_of_le Nat.zero_lt_one (Nat.le_max_right _ 1)
  unfold advance? at hstuck
  rcases hw : f.pipe.worker with s | ⟨chunks, resume⟩ | _ | _ <;> simp only [hw] at hstuck
  case ready =>
    rcases hm : Producer.next s with ⟨data, resume⟩ | r | resume | result | _ <;>
      simp only [hm] at hstuck
    case write => split at hstuck <;> cases hstuck
    all_goals cases hstuck
  case sending =>
    cases chunks with
    | nil => cases hstuck
    | cons chunk rest => simp [h.receiving, hroom] at hstuck
  case leaving => cases hstuck
  case gone => exact h.gone hw

/-- A reader that asks for the next chunk gets one, or learns that the data has ended. -/
theorem Conserved.receive (h : Conserved c producer f) (hc : 0 < c.chunkSize)
    (hcur : f.pipe.current = []) :
    ∃ g, Reach f g ∧ g.delivered = f.delivered ∧ g.pipe = f.pipe.receive ∧
      (g.pipe.current = [] → g.pipe.endOfData = true) := by
  obtain ⟨g₁, hyield, hg₁⟩ := aside_yield f
  obtain ⟨g, hwait, hg, hend⟩ := aside_runUntil (fun p => !p.queue.isEmpty || p.senderGone) g₁
  have haside := hyield.trans hwait
  have hkept := h.reach hc haside.reach
  have hused : g.pipe.current = [] := haside.current_eq.trans hcur
  rw [hg₁] at hg
  unfold Pipe.receive
  rw [← hg]
  dsimp only
  rcases hq : g.pipe.queue with _ | ⟨chunk, rest⟩
  · -- Without a chunk and without the sending end given up, the worker would still have moved.
    have hgone : g.pipe.senderGone = true := by
      rcases hend with hd | hstuck
      · simpa [hq] using hd
      · exact hkept.senderGone_of_stuck hq hstuck
    refine ⟨_, haside.reach.tail (.finish hused hq hgone), haside.delivered_eq, ?_, fun _ => rfl⟩
    simp only [hq]
  · refine ⟨_, haside.reach.tail (.take hused hq), haside.delivered_eq, rfl, fun hempty => ?_⟩
    have hne := (hkept.queue_fits chunk (hq ▸ List.mem_cons_self)).1
    exact absurd hempty hne

theorem aside_readEnd (f : Flow π α) :
    ∃ g, Aside f g ∧ g.pipe = f.pipe.readEnd.2 ∧
      (f.pipe.readEnd.1 = .ok [] ∨ ∃ e, f.pipe.readEnd.1 = .error e) := by
  obtain ⟨g, hyield, hg⟩ := aside_yield f
  obtain ⟨verdict, hv⟩ := g.pipe.poll_frame
  have hpoll : Aside g { g with pipe := g.pipe.poll } :=
    ⟨.single (.poll g), rfl, by rw [hv], by rw [hv]⟩
  refine ⟨_, hyield.trans hpoll, ?_, ?_⟩
  · unfold readEnd
    rw [← hg]
    dsimp only
    split <;> rfl
  · unfold readEnd
    dsimp only
    split
    · exact .inr ⟨_, rfl⟩
    · exact .inl rfl

/-- What the reader of a pipe got from it, and where the pipe is then. -/
structure Answers (f : Flow π α) (r : Except Fault Bytes × Pipe π α) (g : Flow π α) : Prop where
  reach : Reach f g
  pipe_eq : g.pipe = r.2
  delivered_eq : g.delivered = f.delivered ++ handedOver r.1
  /-- A read gets nothing only if the data has ended. -/
  ended : r.1 = .ok [] → g.pipe.current = [] ∧ g.pipe.endOfData = true

theorem answers_serve {n : Nat} (hn : 0 < n)
    (hend : f.pipe.current = [] → f.pipe.endOfData = true) :
    ∃ g, Answers f (f.pipe.serve n) g := by
  unfold serve
  split
  · rename_i hcur
    obtain ⟨g, haside, hg, hanswer⟩ := aside_readEnd f
    refine ⟨g, haside.reach, hg, ?_, fun _ => ?_⟩
    · rcases hanswer with hr | ⟨e, hr⟩ <;>
        rw [hr, haside.delivered_eq, handedOver, List.append_nil]
    · exact ⟨haside.current_eq.trans hcur, haside.endOfData_eq.trans (hend hcur)⟩
  · rename_i hcur
    refine ⟨_, .single (.hand f n), rfl, rfl, fun hr => ?_⟩
    have hnil := Except.ok.inj hr
    rw [List.take_eq_nil_iff] at hnil
    rcases hnil with hz | hnone
    · omega
    · exact absurd hnone hcur

/-- A read serves the chunk at hand or, once it has waited, the next one. -/
theorem Conserved.read_eq_serve (h : Conserved c producer f) (hc : 0 < c.chunkSize) {n : Nat}
    (hn : 0 < n) :
    ∃ g, Reach f g ∧ g.delivered = f.delivered ∧ f.pipe.read n = g.pipe.serve n ∧
      (g.pipe.current = [] → g.pipe.endOfData = true) := by
  have hopen : ¬ f.pipe.closed = true := by simp [h.isOpen]
  have hz : ¬ n = 0 := Nat.pos_iff_ne_zero.1 hn
  unfold Pipe.read
  rw [if_neg hopen, if_neg hz]
  split
  · rename_i hwait
    have hcur : f.pipe.current = [] := by
      have := (Bool.and_eq_true _ _ ▸ hwait).1
      exact List.isEmpty_iff.1 this
    obtain ⟨g, hreach, hdelivered, hg, hend⟩ := h.receive hc hcur
    exact ⟨g, hreach, hdelivered, by rw [hg], hend⟩
  · rename_i hready
    exact ⟨f, .refl, rfl, rfl, fun hcur => by simpa [hcur] using hready⟩

/-- Every read is a run of acts of the two ends. -/
theorem Conserved.read (h : Conserved c producer f) (hc : 0 < c.chunkSize) {n : Nat} (hn : 0 < n) :
    ∃ g, Answers f (f.pipe.read n) g := by
  obtain ⟨g₁, hreach, hdelivered, hread, hend⟩ := h.read_eq_serve hc hn
  obtain ⟨g, hanswer⟩ := answers_serve hn hend
  rw [hread]
  exact ⟨g, hreach.trans hanswer.reach, hanswer.pipe_eq, by rw [hanswer.delivered_eq, hdelivered],
    hanswer.ended⟩

/-- Nothing more is written once the sending end is given up. -/
theorem offered_of_senderGone (hr : Reach f g) (hs : f.pipe.senderGone = true) :
    g.offered = f.offered ∧ g.pipe.senderGone = true := by
  induction hr with
  | refl => exact ⟨rfl, hs⟩
  | tail _ hstep ih =>
    obtain ⟨hoffered, hgone⟩ := ih
    cases hstep with
    | work moved =>
      rename_i f' _ q
      have hb : f'.pipe.begins = [] := by
        unfold begins
        simp only [hgone, if_true]
        repeat' split
        all_goals rfl
      refine ⟨?_, (advance?_frame moved).2.2 hgone⟩
      rw [hb, List.append_nil]
      exact hoffered
    | take used front => exact ⟨hoffered, hgone⟩
    | finish used empty gone => exact ⟨hoffered, hgone⟩
    | hand n => exact ⟨hoffered, hgone⟩
    | poll =>
      rename_i f' _
      obtain ⟨verdict, hp⟩ := f'.pipe.poll_frame
      rw [hp]
      exact ⟨hoffered, hgone⟩
    | schedule steps => exact ⟨hoffered, hgone⟩

theorem Conserved.reads (h : Conserved c producer f) (hc : 0 < c.chunkSize) (sizes : List Nat) :
    ∃ g, Reach f g ∧ g.pipe = ByteSource.afterReads f.pipe sizes ∧
      g.delivered = f.delivered ++ ByteSource.reads f.pipe sizes := by
  induction sizes generalizing f with
  | nil => exact ⟨f, .refl, rfl, (List.append_nil _).symm⟩
  | cons n rest ih =>
    have hfirst : ∃ g, Reach f g ∧ g.pipe = (f.pipe.read n).2 ∧
        g.delivered = f.delivered ++ handedOver (f.pipe.read n).1 := by
      rcases Nat.eq_zero_or_pos n with rfl | hn
      · have hz : f.pipe.read 0 = (.ok [], f.pipe) := by simp [Pipe.read, h.isOpen]
        rw [hz]
        exact ⟨f, .refl, rfl, (List.append_nil _).symm⟩
      · obtain ⟨g, hanswer⟩ := h.read hc hn
        exact ⟨g, hanswer.reach, hanswer.pipe_eq, hanswer.delivered_eq⟩
    obtain ⟨g₁, hreach, hpipe, hdelivered⟩ := hfirst
    obtain ⟨g, hrest, hg, hmore⟩ := ih (h.reach hc hreach)
    refine ⟨g, hreach.trans hrest, ?_, ?_⟩
    · rw [hg, hpipe]
      rfl
    · rw [hmore, hdelivered, hpipe, List.append_assoc]
      rfl

def start (c : Settings) (producer : π) : Flow π α := { pipe := .start c producer }

/-- What a pipe owes its reader, whatever its worker has done so far. -/
structure Faithful (c : Settings) (producer : π) (f : Flow π α) : Prop where
  /-- What the reader got, what it holds and what is queued are the bytes that were sent. -/
  carried : f.delivered ++ f.pipe.current ++ f.pipe.queue.flatten = f.offered.take f.pipe.written
  written_le : f.pipe.written ≤ f.offered.length
  planned : ∀ data, Writes producer data →
    f.delivered ++ f.pipe.current ++ f.pipe.queue.flatten = data.take f.pipe.written
  chunks : ∀ chunk ∈ f.pipe.queue, chunk ≠ [] ∧ chunk.length ≤ c.chunkSize
  queue_le : f.pipe.queue.length ≤ c.capacity
  reads : ∀ sizes, ∃ g, Reach f g ∧ g.pipe = ByteSource.afterReads f.pipe sizes ∧
    g.delivered = f.delivered ++ ByteSource.reads f.pipe sizes
  /-- A reader that is told of the end has everything that was and ever will be written. -/
  ends : ∀ n, 0 < n → (f.pipe.read n).1 = .ok [] →
    ∃ g, Reach f g ∧ g.pipe = (f.pipe.read n).2 ∧ g.delivered = f.delivered ∧
      f.delivered = g.offered ∧ f.delivered.length = g.pipe.written ∧
      (∀ h, Reach g h → h.offered = g.offered) ∧
      ∀ data, Writes producer data → f.delivered = data

theorem Conserved.ends (h : Conserved c producer f) (hc : 0 < c.chunkSize) {n : Nat} (hn : 0 < n)
    (hr : (f.pipe.read n).1 = .ok []) :
    ∃ g, Reach f g ∧ g.pipe = (f.pipe.read n).2 ∧ g.delivered = f.delivered ∧
      f.delivered = g.offered ∧ f.delivered.length = g.pipe.written ∧
      (∀ h, Reach g h → h.offered = g.offered) ∧
      ∀ data, Writes producer data → f.delivered = data := by
  obtain ⟨g, hanswer⟩ := h.read hc hn
  have hkept := h.reach hc hanswer.reach
  obtain ⟨hcur, hend⟩ := hanswer.ended hr
  obtain ⟨hgone, hqueue⟩ := hkept.ended hend
  obtain ⟨hall, hplan⟩ := hkept.ended_eq hend hcur
  have hsame : g.delivered = f.delivered := by
    rw [hanswer.delivered_eq, hr]
    exact List.append_nil f.delivered
  refine ⟨g, hanswer.reach, hanswer.pipe_eq, hsame, hsame ▸ hall, ?_, ?_, hsame ▸ hplan⟩
  · rw [hkept.written_eq, hcur, hqueue, hsame]
    simp
  · exact fun h hh => (offered_of_senderGone hh hgone).1

theorem chunkSize_pos {c : Settings} (hc : c.validate = .ok ()) : 0 < c.chunkSize := by
  unfold Settings.validate at hc
  split at hc
  · cases hc
  · rename_i hz
    exact Nat.pos_iff_ne_zero.2 hz

end Flow

end Pipe

end StreamLayers
