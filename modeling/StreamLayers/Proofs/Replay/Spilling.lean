import StreamLayers.Proofs.Replay.Twins

/-!
Spilling is unobservable: whatever is asked of two replay buffers over the same source that differ
in their store settings alone, they give the same answers and ask the source for the same reads.
-/

namespace StreamLayers

/-- What a caller can tell of the failure of a reset: not how far the read got that broke the
limit. -/
def Fault.uncounted : Fault → Fault
  | .misuse (.markLimitExceeded limit _) => .misuse (.markLimitExceeded limit 0)
  | e => e

namespace Replay

variable {σ : Type}

/-- What a caller asks of a buffer. -/
inductive Call where
  | readFull (n : Nat)
  | mark (limit : MarkLimit)
  | reset
  | seek (target : Nat)
  | close
  deriving DecidableEq, Repr

inductive Reply where
  | bytes (answer : Except Fault Bytes)
  | done (answer : Except Fault Unit)
  | moved (answer : Except Fault Nat)

/-- What a buffer shows of itself. -/
structure Showing where
  position : Nat
  sourcePosition : Nat
  buffered : Nat
  canReset : Bool
  deriving DecidableEq, Repr

def showing (b : Replay σ) : Showing :=
  ⟨b.position, b.sourcePosition, b.buffered, b.mark.isActive⟩

theorem Twins.showing_eq {b c : Replay σ} (t : Twins b c) : b.showing = c.showing := by
  unfold showing buffered
  rw [← Store.length_log, ← Store.length_log, t.log_eq, t.position_eq, t.sourcePosition_eq,
    MarkState.isActive_of_uncounted t.mark_eq]

section Marks

variable {b c : Replay σ}

theorem Twins.withMark (t : Twins b c) (limit : MarkLimit) :
    Twins { b with mark := .active b.position limit }
      ({ c with mark := .active c.position limit } : Replay σ) :=
  { t with mark_eq := by rw [t.position_eq] }

theorem Tight.withMark (h : Tight b) {m : MarkState}
    (hm : ∀ p limit, m = .active p limit → p = b.position) :
    Tight ({ b with mark := m } : Replay σ) :=
  ⟨h.toOrdered.withMark hm, h.chunk_pos, h.length_eq⟩

theorem Twins.discardUnreachable (t : Twins b c) (h : Tight b)
    (hb : b.discardUnreachable.1.isOk = true) (hc : c.discardUnreachable.1.isOk = true) :
    Twins b.discardUnreachable.2 c.discardUnreachable.2 ∧ Tight b.discardUnreachable.2 := by
  have hdrop := twins_discardUnreachable hb
  have htight : Tight b.dropped := h.toOrdered.dropped h.chunk_pos fun _ => h.length_eq
  exact ⟨hdrop.trans (t.dropped.trans (twins_discardUnreachable hc).symm),
    htight.of_twins hdrop.symm⟩

theorem Twins.remark (t : Twins b c) (h : Tight b) {limit : MarkLimit}
    (hb : (b.remark limit).1.isOk = true) (hc : (c.remark limit).1.isOk = true) :
    Twins (b.remark limit).2 (c.remark limit).2 ∧ Tight (b.remark limit).2 := by
  have hsame : (!c.retainHistory && c.position == c.sourcePosition) =
      (!b.retainHistory && b.position == b.sourcePosition) := by
    rw [t.retain_eq, t.position_eq, t.sourcePosition_eq]
  have here {d : Replay σ} (hd : Tight d) :
      Tight ({ d with mark := .active d.position limit } : Replay σ) :=
    hd.withMark fun _ _ hm => (MarkState.active.inj hm).1.symm
  unfold Replay.remark at hb hc ⊢
  by_cases hidle : (!b.retainHistory && b.position == b.sourcePosition) = true
  · have hidle' := hsame.trans hidle
    rw [if_pos hidle] at hb ⊢
    rw [if_pos hidle'] at hc ⊢
    have hunset : Twins ({ b with mark := .unset } : Replay σ) { c with mark := .unset } :=
      { t with mark_eq := rfl }
    have htight : Tight ({ b with mark := .unset } : Replay σ) := h.withMark nofun
    rcases hd : ({ b with mark := .unset } : Replay σ).discardUnreachable with ⟨e | u, d⟩
    · rw [hd] at hb
      cases hb
    · rcases hd' : ({ c with mark := .unset } : Replay σ).discardUnreachable with ⟨e | u', d'⟩
      · rw [hd'] at hc
        cases hc
      · have hdrop := hunset.discardUnreachable htight (by rw [hd]; rfl) (by rw [hd']; rfl)
        rw [hd, hd'] at hdrop
        exact ⟨hdrop.1.withMark limit, here hdrop.2⟩
  · have hbusy : ¬ (!c.retainHistory && c.position == c.sourcePosition) = true := hsame ▸ hidle
    rw [if_neg hidle, if_neg hbusy]
    exact ⟨t.withMark limit, here h⟩

theorem Twins.setMark (t : Twins b c) (h : Tight b) {limit : MarkLimit}
    (hb : b.markServed limit = true) (hc : c.markServed limit = true) :
    (b.setMark limit).1 = (c.setMark limit).1 ∧
      Twins (b.setMark limit).2 (c.setMark limit).2 ∧ Tight (b.setMark limit).2 := by
  have hopen : ¬ b.closed = true := by simp [h.isOpen]
  have hopen' : ¬ c.closed = true := t.closed_eq ▸ hopen
  have hok : (b.setMark limit).1.isOk = true := by simpa [markServed, hopen] using hb
  have hok' : (c.setMark limit).1.isOk = true := by simpa [markServed, hopen'] using hc
  refine ⟨(eq_ok_of_isOk hok).trans (eq_ok_of_isOk hok').symm, ?_⟩
  have hinvalid : Twins ({ b with mark := .invalidated } : Replay σ) { c with mark := .invalidated } :=
    { t with mark_eq := rfl }
  have htight : Tight ({ b with mark := .invalidated } : Replay σ) := by
    refine h.withMark fun p limit hm => ?_
    cases hm
  unfold Replay.setMark at hok hok' ⊢
  rw [if_neg hopen] at hok ⊢
  rw [if_neg hopen'] at hok' ⊢
  cases limit with
  | unlimited => exact t.remark h hok hok'
  | invalidate => exact hinvalid.discardUnreachable htight hok hok'
  | bytes n =>
    cases n with
    | zero => exact hinvalid.discardUnreachable htight hok hok'
    | succ n => exact t.remark h hok hok'

theorem Tight.moveTo (h : Tight b) {p : Nat} {s : Store} (hb : b.base ≤ p)
    (hp : p ≤ b.sourcePosition) (hlog : s.log = b.store.log) :
    Tight ({ b with store := s, position := p } : Replay σ) :=
  ⟨h.toOrdered.moveTo hb hp s, h.chunk_pos, (congrArg List.length hlog).trans h.length_eq⟩

theorem Twins.moveTo (t : Twins b c) {p : Nat} {s s' : Store} (hlog : s.log = b.store.log)
    (hlog' : s'.log = c.store.log) :
    Twins ({ b with store := s, position := p } : Replay σ) { c with store := s', position := p } :=
  { t with
    log_eq := hlog.trans (t.log_eq.trans hlog'.symm)
    position_eq := rfl }

theorem Twins.reset (t : Twins b c) (h : Tight b) :
    b.reset.1.mapError Fault.uncounted = c.reset.1.mapError Fault.uncounted ∧
      Twins b.reset.2 c.reset.2 ∧ Tight b.reset.2 := by
  have h' := h.of_twins t
  rcases hm : b.mark.isActive with _ | _
  · have hm' : c.mark.isActive = false := by
      rw [← MarkState.isActive_of_uncounted t.mark_eq]
      exact hm
    obtain ⟨-, hsame⟩ := reset_inactive hm
    obtain ⟨-, hsame'⟩ := reset_inactive hm'
    rw [hsame, hsame']
    refine ⟨?_, t, h⟩
    have hmark := t.mark_eq
    rcases hb : b.mark with _ | ⟨p, l⟩ | _ | ⟨l, k⟩ <;>
      rcases hc : c.mark with _ | ⟨p', l'⟩ | _ | ⟨l', k'⟩ <;> rw [hb, hc] at hmark <;>
      cases hmark
    · simp [Replay.reset, h.isOpen, h'.isOpen, hb, hc]
    · rw [hb] at hm
      cases hm
    · simp [Replay.reset, h.isOpen, h'.isOpen, hb, hc]
    · simp only [Replay.reset, h.isOpen, h'.isOpen, hb, hc, Bool.false_eq_true, if_false]
      rfl
  · obtain ⟨p, limit, hb⟩ := MarkState.isActive_iff.1 hm
    have hc := t.mark_active.1 hb
    obtain ⟨hfrom, hto⟩ := h.mark_mem p limit hb
    rw [Replay.reset_active h.isOpen hb, Replay.reset_active h'.isOpen hc]
    by_cases hlt : p < b.sourcePosition
    · have hlt' : p < c.sourcePosition := t.sourcePosition_eq ▸ hlt
      obtain ⟨s, hs, hlog, -⟩ := seek_stored h.length_eq hto
      obtain ⟨s', hs', hlog', -⟩ := seek_stored h'.length_eq (t.sourcePosition_eq ▸ hto)
      simp only [hlt, hlt', if_true, hs, hs']
      exact ⟨trivial, t.moveTo hlog hlog', h.moveTo hfrom hto hlog⟩
    · have hlt' : ¬ p < c.sourcePosition := t.sourcePosition_eq ▸ hlt
      simp only [hlt, hlt', if_false]
      exact ⟨trivial, t.moveTo rfl rfl, h.moveTo hfrom hto rfl⟩

end Marks

variable [ByteSource σ]

namespace Call

/-- The answer to a call, as far as it is not about the size of single reads. -/
def reply (b : Replay σ) : Call → Reply
  | readFull n => .bytes (ByteSource.readFull b n).1
  | mark limit => .done (b.setMark limit).1
  | reset => .done (b.reset.1.mapError Fault.uncounted)
  | seek target => .moved (b.seek target).1
  | close => .done b.close.1

def apply (b : Replay σ) : Call → Replay σ
  | readFull n => (ByteSource.readFull b n).2
  | mark limit => (b.setMark limit).2
  | reset => b.reset.2
  | seek target => (b.seek target).2
  | close => b.close.2

/-- Whether the store did what a call asked of it. -/
def served (b : Replay σ) : Call → Bool
  | readFull n => b.readsServed (ByteSource.fullSizes b n)
  | mark limit => b.markServed limit
  | reset => true
  | seek target => (Op.seek target).served b
  | close => b.closed || b.store.release.1.isOk

/-- The answer of a closed buffer. -/
def refusal : Call → Reply
  | readFull n => .bytes (if n = 0 then .ok [] else .error (.closed "replay"))
  | mark _ | reset => .done (.error (.closed "replay"))
  | seek _ => .moved (.error (.closed "replay"))
  | close => .done (.ok ())

end Call

/-- What comes of the calls, step by step. -/
def transcript (b : Replay σ) : List Call → List (Reply × Showing)
  | [] => []
  | call :: rest => (call.reply b, (call.apply b).showing) :: transcript (call.apply b) rest

def afterCalls (b : Replay σ) (calls : List Call) : Replay σ := calls.foldl Call.apply b

/-- Whether no operation of the store failed. -/
def callsServed (b : Replay σ) : List Call → Bool
  | [] => true
  | call :: rest => call.served b && (call.apply b).callsServed rest

/-- A closed buffer refuses everything and stays as it is. -/
theorem call_of_closed {b : Replay σ} (h : b.closed = true) (call : Call) :
    call.reply b = call.refusal ∧ call.apply b = b := by
  cases call with
  | readFull n =>
    rcases Nat.eq_zero_or_pos n with rfl | hn
    · exact ⟨rfl, rfl⟩
    · have hread : ByteSource.read b n = (.error (.closed "replay"), b) := by
        show b.read n = _
        rw [Replay.read, if_pos h]
      have hz : ¬ n = 0 := Nat.pos_iff_ne_zero.1 hn
      simp only [Call.reply, Call.apply, Call.refusal, ByteSource.readFull_pos b hn, hread, hz,
        if_false, and_self]
  | mark limit => simp [Call.reply, Call.apply, Call.refusal, setMark, h]
  | reset =>
    have hreset : b.reset = (.error (.closed "replay"), b) := by rw [Replay.reset, if_pos h]
    show Reply.done (b.reset.1.mapError Fault.uncounted) = _ ∧ b.reset.2 = b
    rw [hreset]
    exact ⟨rfl, rfl⟩
  | seek target => simp [Call.reply, Call.apply, Call.refusal, seek, h]
  | close => simp [Call.reply, Call.apply, Call.refusal, close, h]

section Calls

variable {b c : Replay σ}

theorem Twins.seek (t : Twins b c) (h : Tight b) {target : Nat}
    (hb : (Op.seek target).served b = true) (hc : (Op.seek target).served c = true) :
    (b.seek target).1 = (c.seek target).1 ∧ Twins (b.seek target).2 (c.seek target).2 ∧
      Tight (b.seek target).2 := by
  have h' := h.of_twins t
  have hopen : ¬ b.closed = true := by simp [h.isOpen]
  have hopen' : ¬ c.closed = true := by simp [h'.isOpen]
  simp only [Op.served, Bool.or_eq_true, decide_eq_true_eq] at hb hc
  rw [Replay.seek, Replay.seek, if_neg hopen, if_neg hopen']
  by_cases hforward : b.position ≤ target
  · have hforward' : c.position ≤ target := t.position_eq ▸ hforward
    rw [if_pos hforward, if_pos hforward']
    exact t.skip h (Nat.le_refl _) (Nat.le_refl _) (hb.resolve_left (Nat.not_lt.2 hforward))
      (hc.resolve_left (Nat.not_lt.2 hforward'))
  · have hback' : ¬ c.position ≤ target := t.position_eq ▸ hforward
    rw [if_neg hforward, if_neg hback']
    by_cases hearly : target < b.base
    · have hearly' : target < c.base := t.base_eq ▸ hearly
      rw [if_pos hearly, if_pos hearly', t.base_eq]
      exact ⟨rfl, t, h⟩
    · have hearly' : ¬ target < c.base := t.base_eq ▸ hearly
      have hto : target ≤ b.sourcePosition :=
        Nat.le_trans (Nat.le_of_lt (Nat.not_le.1 hforward)) h.position_le
      obtain ⟨s, hs, hlog, -⟩ := seek_stored h.length_eq hto
      obtain ⟨s', hs', hlog', -⟩ := seek_stored h'.length_eq (t.sourcePosition_eq ▸ hto)
      rw [if_neg hearly, if_neg hearly']
      simp only [hs, hs']
      exact ⟨trivial, t.moveTo hlog hlog', h.moveTo (Nat.not_lt.1 hearly) hto hlog⟩

theorem Twins.close (t : Twins b c) (h : Tight b) (hb : Call.served b .close = true)
    (hc : Call.served c .close = true) :
    b.close.1 = c.close.1 ∧ Twins b.close.2 c.close.2 ∧ b.close.2.closed = true := by
  have h' := h.of_twins t
  have hopen : ¬ b.closed = true := by simp [h.isOpen]
  have hopen' : ¬ c.closed = true := by simp [h'.isOpen]
  have hok : b.store.release.1 = .ok () := by
    apply eq_ok_of_isOk
    simpa [Call.served, hopen] using hb
  have hok' : c.store.release.1 = .ok () := by
    apply eq_ok_of_isOk
    simpa [Call.served, hopen'] using hc
  have hlog := (Store.release_spec b.store).1
  have hlog' := (Store.release_spec c.store).1
  unfold Replay.close
  rw [if_neg hopen, if_neg hopen', ← t.source_eq]
  rcases ByteSource.close b.source with ⟨e | u, s⟩ <;>
    dsimp only <;> refine ⟨?_, ?_, rfl⟩
  · rfl
  · exact { t with source_eq := rfl, log_eq := hlog.trans hlog'.symm, mark_eq := rfl, closed_eq := rfl }
  · exact hok.trans hok'.symm
  · exact { t with source_eq := rfl, log_eq := hlog.trans hlog'.symm, mark_eq := rfl, closed_eq := rfl }

/-- Twins that a run has led to. -/
structure Paired (b c : Replay σ) : Prop where
  twins : Twins b c
  tight : b.closed = false → Tight b

/-- Paired buffers answer every call alike and stay paired. -/
theorem Paired.call (h : Paired b c) {call : Call} (hb : call.served b = true)
    (hc : call.served c = true) :
    call.reply b = call.reply c ∧ Paired (call.apply b) (call.apply c) := by
  rcases hclosed : b.closed with _ | _
  · have ht := h.tight hclosed
    cases call with
    | readFull n =>
      obtain ⟨hanswer, htwins, htight⟩ := h.twins.full ht hb hc
      exact ⟨congrArg Reply.bytes hanswer, htwins, fun _ => htight⟩
    | mark limit =>
      obtain ⟨hanswer, htwins, htight⟩ := h.twins.setMark ht hb hc
      exact ⟨congrArg Reply.done hanswer, htwins, fun _ => htight⟩
    | reset =>
      obtain ⟨hanswer, htwins, htight⟩ := h.twins.reset ht
      exact ⟨congrArg Reply.done hanswer, htwins, fun _ => htight⟩
    | seek target =>
      obtain ⟨hanswer, htwins, htight⟩ := h.twins.seek ht hb hc
      exact ⟨congrArg Reply.moved hanswer, htwins, fun _ => htight⟩
    | close =>
      obtain ⟨hanswer, htwins, hshut⟩ := h.twins.close ht hb hc
      refine ⟨congrArg Reply.done hanswer, htwins, ?_⟩
      intro hopen
      have hopen : b.close.2.closed = false := hopen
      rw [hshut] at hopen
      cases hopen
  · obtain ⟨hreply, hsame⟩ := call_of_closed hclosed call
    obtain ⟨hreply', hsame'⟩ := call_of_closed (h.twins.closed_eq.symm.trans hclosed) call
    rw [hreply, hreply', hsame, hsame']
    exact ⟨rfl, h⟩

theorem Paired.calls (h : Paired b c) {calls : List Call} (hb : b.callsServed calls = true)
    (hc : c.callsServed calls = true) :
    b.transcript calls = c.transcript calls ∧ Paired (b.afterCalls calls) (c.afterCalls calls) := by
  induction calls generalizing b c with
  | nil => exact ⟨rfl, h⟩
  | cons call rest ih =>
    simp only [callsServed, Bool.and_eq_true] at hb hc
    obtain ⟨hreply, hnext⟩ := h.call hb.1 hc.1
    obtain ⟨hrest, hend⟩ := ih hnext hb.2 hc.2
    refine ⟨?_, hend⟩
    rw [transcript, transcript, hreply, hnext.twins.showing_eq, hrest]

omit [ByteSource σ] in
theorem Paired.ofSettings {source : σ} {c₁ c₂ : Settings} {present₁ present₂ : Bool}
    (hretain : c₁.retainHistory = c₂.retainHistory) (hchunk : c₁.readChunk = c₂.readChunk)
    (hb : Replay.ofSettings source c₁ present₁ = .ok b)
    (hc : Replay.ofSettings source c₂ present₂ = .ok c) : Paired b c := by
  unfold Replay.ofSettings at hb hc
  split at hb
  · cases hb
  · rename_i hvalid
    split at hc
    · cases hc
    · obtain rfl := Except.ok.inj hb
      obtain rfl := Except.ok.inj hc
      have hpos : 0 < c₁.readChunk := by
        unfold Settings.validate at hvalid
        split at hvalid
        · cases hvalid
        · exact Nat.pos_of_ne_zero ‹_›
      refine ⟨⟨rfl, ?_, rfl, rfl, rfl, rfl, hretain, hchunk, rfl⟩, fun _ => ?_⟩
      · exact (Store.log_build c₁.store present₁).trans (Store.log_build c₂.store present₂).symm
      · refine ⟨⟨rfl, Nat.le_refl 0, Nat.le_refl 0, nofun⟩, hpos, ?_⟩
        exact congrArg List.length (Store.log_build c₁.store present₁)

end Calls

end Replay

end StreamLayers
