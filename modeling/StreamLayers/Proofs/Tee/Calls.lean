import StreamLayers.Proofs.Source
import StreamLayers.Proofs.Tee

/-!
A tee by the calls that it makes on its source and its sinks: what each call does, which of them
fail, and that forwarding and releasing are runs of calls that no failure cuts short.
-/

namespace StreamLayers

namespace Tee

variable {κ σ : Type}

/-- The failure in an answer. -/
def failureOf {α : Type} : Except Fault α → Option Fault
  | .ok _ => none
  | .error e => some e

/-- What a tee works on. -/
structure Ends (κ σ : Type) where
  source : σ
  outlets : List (Outlet κ)

def ends (t : Tee κ σ) : Ends κ σ := ⟨t.source, t.outlets⟩

/-- A call on the source, or on the sink of the outlet at `index`. -/
inductive Call where
  | read (n : Nat)
  | write (index : Nat) (data : Bytes)
  | closeSource
  | closeSink (index : Nat)
  | flushSink (index : Nat)
  deriving DecidableEq, Repr

namespace Call

/-- The outlet whose sink a call is made on. -/
def sink? : Call → Option Nat
  | read _ | closeSource => none
  | write index _ | closeSink index | flushSink index => some index

/-- What lets go of the sink at `index`. -/
def release (closeSinks : Bool) (index : Nat) : Call :=
  if closeSinks then closeSink index else flushSink index

@[simp] theorem sink?_read (n : Nat) : (read n).sink? = none := rfl

@[simp] theorem sink?_write (index : Nat) (data : Bytes) : (write index data).sink? = some index :=
  rfl

@[simp] theorem sink?_closeSource : closeSource.sink? = none := rfl

@[simp] theorem sink?_release (closeSinks : Bool) (index : Nat) :
    (release closeSinks index).sink? = some index := by
  cases closeSinks <;> rfl

end Call

/-- The numbers of the enabled outlets; the first flag is that of outlet `index`. -/
def listening : Nat → List Bool → List Nat
  | _, [] => []
  | index, true :: rest => index :: listening (index + 1) rest
  | index, false :: rest => listening (index + 1) rest

/-- The calls that offer `data` without its first `skip` bytes to the outlets in `targets`. -/
def offer (targets : List Nat) (skip : Nat) (data : Bytes) : List Call :=
  if skip < data.length then targets.map (.write · (data.drop skip)) else []

/-- The calls that offer what the sinks have not seen of `data`. -/
def offers (t : Tee κ σ) (data : Bytes) : List Call :=
  offer (listening 0 t.flags) (t.destinationPosition - t.sourcePosition) data

/-- The calls that let go of `count` sinks from `index` on. -/
def releases (closeSinks : Bool) (index count : Nat) : List Call :=
  (List.range' index count).map (.release closeSinks)

theorem mem_listening {index k : Nat} {flags : List Bool} :
    k ∈ listening index flags ↔ index ≤ k ∧ flags[k - index]? = some true := by
  induction flags generalizing index with
  | nil => simp [listening]
  | cons flag rest ih =>
    rcases Nat.lt_trichotomy k index with hk | rfl | hk
    · cases flag <;> simp only [listening, List.mem_cons, ih] <;> omega
    · cases flag <;> simp +arith [listening, ih]
    · have hne : k ≠ index := Nat.ne_of_gt hk
      have hle : index ≤ k := Nat.le_of_lt hk
      have hnext : k - index = k - (index + 1) + 1 := by omega
      cases flag <;> simp [listening, ih, hnext, hne, hle, Nat.succ_le_of_lt hk]

theorem nodup_listening (index : Nat) (flags : List Bool) : (listening index flags).Nodup := by
  induction flags generalizing index with
  | nil => exact List.nodup_nil
  | cons flag rest ih =>
    cases flag with
    | false => exact ih (index + 1)
    | true =>
      refine List.nodup_cons.2 ⟨fun hm => ?_, ih (index + 1)⟩
      have hle := (mem_listening.1 hm).1
      omega

/-- The calls of an offer that concern one sink: a single write, if it is a target and there is
anything to write. -/
theorem filter_offer {targets : List Nat} (hnodup : targets.Nodup) (skip : Nat) (data : Bytes)
    (k : Nat) :
    (offer targets skip data).filter (·.sink? = some k) =
      if k ∈ targets ∧ skip < data.length then [.write k (data.drop skip)] else [] := by
  unfold offer
  by_cases hskip : skip < data.length
  · have hcall : (fun c : Call => decide (c.sink? = some k)) ∘ (.write · (data.drop skip)) =
        (· == k) := by
      funext i
      simp [Bool.beq_eq_decide_eq]
    rw [if_pos hskip, List.filter_map, hcall, List.filter_beq]
    by_cases hk : k ∈ targets
    · rw [List.Nodup.count hnodup, if_pos hk, if_pos ⟨hk, hskip⟩]
      rfl
    · rw [List.count_eq_zero_of_not_mem hk, if_neg (fun h => hk h.1)]
      rfl
  · rw [if_neg hskip, if_neg (fun h => hskip h.2)]
    rfl

section Making

/-- A call on one sink. A failure of `act` is reported as `report` says. -/
def Ends.onSink (t : Ends κ σ) (index : Nat) (act : κ → Except Fault Unit × κ)
    (report : Fault → Fault) : Option Fault × Ends κ σ :=
  match t.outlets[index]? with
  | none => (none, t)
  | some o =>
    ((failureOf (act o.sink).1).map report,
      { t with outlets := t.outlets.set index { o with sink := (act o.sink).2 } })

theorem Ends.onSink_at {t : Ends κ σ} {front rest : List (Outlet κ)} {o : Outlet κ}
    (h : t.outlets = front ++ o :: rest) (act : κ → Except Fault Unit × κ)
    (report : Fault → Fault) :
    t.onSink front.length act report =
      ((failureOf (act o.sink).1).map report,
        { t with outlets := front ++ { o with sink := (act o.sink).2 } :: rest }) := by
  have ho : t.outlets[front.length]? = some o := by
    rw [h, List.getElem?_append_right (Nat.le_refl _), Nat.sub_self]
    rfl
  have hset (k : κ) : t.outlets.set front.length { o with sink := k } =
      front ++ { o with sink := k } :: rest := by
    rw [h, List.set_append_right _ _ (Nat.le_refl _), Nat.sub_self]
    rfl
  simp only [Ends.onSink, ho, hset]

variable [ByteSource σ] [ByteSink κ]

/-- Makes a call; answers with its failure as it is reported. -/
def Call.make (t : Ends κ σ) : Call → Option Fault × Ends κ σ
  | read n =>
    (failureOf (ByteSource.read t.source n).1,
      { t with source := (ByteSource.read t.source n).2 })
  | write index data => t.onSink index (ByteSink.writeAll · data) (.sink index)
  | closeSource =>
    (failureOf (ByteSource.close t.source).1, { t with source := (ByteSource.close t.source).2 })
  | closeSink index => t.onSink index ByteSink.close (.sinkLeft index)
  | flushSink index => t.onSink index ByteSink.flush (.sinkLeft index)

/-- Makes calls one after the other, whichever of them fail. The failures are in the order in which
they occur. -/
def Ends.make (t : Ends κ σ) : List Call → List Fault × Ends κ σ
  | [] => ([], t)
  | c :: rest =>
    let (failure, t) := c.make t
    let (failures, t) := t.make rest
    (failure.toList ++ failures, t)

theorem Ends.make_cons (t : Ends κ σ) (c : Call) (rest : List Call) :
    t.make (c :: rest) =
      ((c.make t).1.toList ++ ((c.make t).2.make rest).1, ((c.make t).2.make rest).2) := rfl

theorem Ends.make_append (t : Ends κ σ) (calls more : List Call) :
    t.make (calls ++ more) =
      ((t.make calls).1 ++ ((t.make calls).2.make more).1, ((t.make calls).2.make more).2) := by
  induction calls generalizing t with
  | nil => rfl
  | cons c rest ih => simp [Ends.make_cons, ih]

theorem Ends.mem_make {t : Ends κ σ} {calls : List Call} {e : Fault} (h : e ∈ (t.make calls).1) :
    ∃ c ∈ calls, ∃ u : Ends κ σ, (c.make u).1 = some e := by
  induction calls generalizing t with
  | nil => cases h
  | cons c rest ih =>
    rcases List.mem_append.1 h with h | h
    · exact ⟨c, List.mem_cons_self, t, Option.mem_toList.1 h⟩
    · obtain ⟨c', hc', u, hu⟩ := ih h
      exact ⟨c', List.mem_cons_of_mem c hc', u, hu⟩

/-- What fails in an offer are sinks. -/
theorem refusal_of_mem_offer {t : Ends κ σ} {targets : List Nat} {skip : Nat} {data : Bytes}
    {e : Fault} (h : e ∈ (t.make (offer targets skip data)).1) :
    ∃ index cause, e = .sink index cause := by
  obtain ⟨c, hc, u, hu⟩ := Ends.mem_make h
  unfold offer at hc
  split at hc
  · obtain ⟨index, -, rfl⟩ := List.mem_map.1 hc
    simp only [Call.make, Ends.onSink] at hu
    split at hu
    · cases hu
    · obtain ⟨cause, -, rfl⟩ := Option.map_eq_some_iff.1 hu
      exact ⟨index, cause, rfl⟩
  · cases hc

/-- Forwarding writes to each enabled outlet, and reports what failed first. -/
theorem make_writes (s : σ) (data : Bytes) (front outlets : List (Outlet κ)) :
    let calls := (listening front.length (outlets.map Outlet.enabled)).map (Call.write · data)
    let made := (⟨s, front ++ outlets⟩ : Ends κ σ).make calls
    made.1.head? = (forward data front.length outlets).1 ∧
      made.2 = ⟨s, front ++ outlets.map (Outlet.offered data)⟩ := by
  induction outlets generalizing front with
  | nil => exact ⟨rfl, rfl⟩
  | cons o rest ih =>
    -- The outlet at hand goes to the front, which is then one longer.
    have hnext (o' : Outlet κ) := ih (front ++ [o'])
    have hlen (o' : Outlet κ) : (front ++ [o']).length = front.length + 1 := by simp
    have hsplit (o' : Outlet κ) (more : List (Outlet κ)) :
        front ++ [o'] ++ more = front ++ o' :: more := by simp
    simp only [hlen, hsplit] at hnext
    rcases hr : forward data (front.length + 1) rest with ⟨later, rest'⟩
    simp only [hr] at hnext
    by_cases ho : o.enabled = true
    · obtain ⟨hfailures, hstate⟩ := hnext { o with sink := (ByteSink.writeAll o.sink data).2 }
      have hcall := Ends.onSink_at (t := ⟨s, front ++ o :: rest⟩) rfl (ByteSink.writeAll · data)
        (.sink front.length)
      rcases hw : ByteSink.writeAll o.sink data with ⟨e | u, k⟩ <;>
        simp only [ho, hw] at hfailures hstate hcall <;>
        simp [listening, Ends.make, Call.make, forward, Outlet.offered, failureOf, ho, hr, hw, hcall,
          hfailures, hstate]
    · obtain ⟨hfailures, hstate⟩ := hnext o
      have hoff : o.enabled = false := by simpa using ho
      simp [listening, forward, Outlet.offered, hoff, hr, hfailures, hstate]

/-- Every outlet is let go of, and what failed first is reported. -/
theorem make_releases (s : σ) (closeSinks : Bool) (front outlets : List (Outlet κ)) :
    let made := (⟨s, front ++ outlets⟩ : Ends κ σ).make
      (releases closeSinks front.length outlets.length)
    made.1.head? = (closeOutlets closeSinks front.length outlets).1 ∧
      made.2 = ⟨s, front ++ outlets.map (Outlet.ended closeSinks)⟩ := by
  induction outlets generalizing front with
  | nil => exact ⟨rfl, rfl⟩
  | cons o rest ih =>
    obtain ⟨hfailures, hstate⟩ := ih (front ++ [o.ended closeSinks])
    have hlen : (front ++ [o.ended closeSinks]).length = front.length + 1 := by simp
    have hsplit (more : List (Outlet κ)) :
        front ++ [o.ended closeSinks] ++ more = front ++ o.ended closeSinks :: more := by simp
    simp only [hlen, hsplit] at hfailures hstate
    rcases hr : closeOutlets closeSinks (front.length + 1) rest with ⟨later, rest'⟩
    rw [hr] at hfailures
    have hcalls : releases closeSinks front.length (o :: rest).length =
        .release closeSinks front.length :: releases closeSinks (front.length + 1) rest.length := by
      simp [releases, List.range'_succ]
    have hcall : Call.make (⟨s, front ++ o :: rest⟩ : Ends κ σ)
        (.release closeSinks front.length) =
        ((failureOf (if closeSinks then ByteSink.close o.sink else ByteSink.flush o.sink).1).map
            (.sinkLeft front.length),
          ⟨s, front ++ o.ended closeSinks :: rest⟩) := by
      cases closeSinks <;> exact Ends.onSink_at rfl _ _
    rw [hcalls]
    rcases hw : (if closeSinks then ByteSink.close o.sink else ByteSink.flush o.sink) with
      ⟨e | u, k⟩ <;> rw [hw] at hcall <;>
      simp [Ends.make, closeOutlets, failureOf, hr, hw, hcall, hfailures, hstate]

/-- A pass offers what the sinks have not seen. -/
theorem make_offers (t : Tee κ σ) {data : Bytes} (hdata : data ≠ []) :
    (t.ends.make (t.offers data)).1.head? = (t.pass data).1 ∧
      (t.ends.make (t.offers data)).2 = (t.pass data).2.ends := by
  have hlen : 0 < data.length := List.length_pos_iff.2 hdata
  have hunseen : t.destinationPosition < t.sourcePosition + data.length ↔
      t.destinationPosition - t.sourcePosition < data.length := by omega
  obtain ⟨hfailures, hstate⟩ := make_writes t.source (t.fresh data) [] t.outlets
  unfold pass offers
  by_cases hskip : t.destinationPosition - t.sourcePosition < data.length
  · rw [offer, if_pos hskip, if_pos (hunseen.2 hskip)]
    refine ⟨hfailures, hstate.trans ?_⟩
    rw [← forward_outlets _ 0]
    rfl
  · rw [offer, if_neg hskip, if_neg (mt hunseen.1 hskip)]
    exact ⟨rfl, rfl⟩

end Making

end Tee

end StreamLayers
