import StreamLayers.Pipe.Copy

/-!
What becomes of a broken pipe that is reported in the system's terms: which faults are told as one, and
which are still known as one by whoever is told.
-/

namespace StreamLayers

/-- A broken pipe that came from the system was a broken pipe there. -/
def IoFault.Candid (f : IoFault) : Prop :=
  f.kind = .brokenPipe → ∀ e ∈ f.cause, e.kind = .brokenPipe

/-- However a failure of input or output is noted down, it is candid. -/
theorem IoFault.candid_made (layer : String) (path : Option String) (e : OsError) :
    (readFailed layer e).Candid ∧ (writeFailed layer e).Candid ∧ (spillFailed path e).Candid ∧
      (brokenPipe layer).Candid ∧ (ofOs e).Candid := by
  simp [Candid, readFailed, writeFailed, spillFailed, brokenPipe, ofOs]

namespace Fault

@[simp] theorem isBrokenPipe_ofOs (e : OsError) :
    (ofOs e).isBrokenPipe = true ↔ e.kind = .brokenPipe := by
  by_cases h : e.kind = .brokenPipe <;> simp [ofOs, IoFault.ofOs, isBrokenPipe, h]

/-- A broken pipe is one of the system's, behind any number of sinks. -/
theorem isBrokenPipe_iff {e : Fault} :
    e.isBrokenPipe = true ↔
      ∃ (sinks : List Nat) (f : IoFault), e = sinks.foldr sink (.io f) ∧ f.kind = .brokenPipe := by
  constructor
  · intro h
    induction e with
    | io f => exact ⟨[], f, rfl, by simpa [isBrokenPipe] using h⟩
    | sink index cause ih =>
      obtain ⟨sinks, f, rfl, hf⟩ := ih h
      exact ⟨index :: sinks, f, rfl, hf⟩
    | _ => simp [isBrokenPipe] at h
  · rintro ⟨sinks, f, rfl, hf⟩
    induction sinks with
    | nil => simp [isBrokenPipe, hf]
    | cons index sinks ih => exact ih

theorem kind_toOs_io {f : IoFault} (h : f.kind = .brokenPipe) :
    (io f).toOs.kind = .brokenPipe ↔ f.Candid := by
  rcases hc : f.cause with _ | e <;> simp [toOs, IoFault.Candid, hc, h]

/-- A fault behind a sink is told as no failure in particular. -/
@[simp] theorem kind_toOs_sink (index : Nat) (cause : Fault) :
    (sink index cause).toOs.kind = .other := rfl

theorem kind_toOs_of_isBrokenPipe (sinks : List Nat) {f : IoFault} (h : f.kind = .brokenPipe) :
    (sinks.foldr sink (.io f)).toOs.kind = .brokenPipe ↔ sinks = [] ∧ f.Candid := by
  cases sinks with
  | nil => simp [kind_toOs_io h]
  | cons index sinks => simp

end Fault

namespace Copy

theorem isBrokenPipe_faultOf (e : OsError) :
    (faultOf e).isBrokenPipe = true ↔ e.kind = .brokenPipe := by
  by_cases h : e.kind = .brokenPipe <;>
    simp [faultOf, IoFault.brokenPipe, IoFault.readFailed, Fault.isBrokenPipe, h]

end Copy

/-- What everyone who is told of the fault in the system's terms knows: that it is a broken pipe, just
if `broken` holds. -/
structure Told (e : Fault) (broken : Prop) : Prop where
  kind : e.toOs.kind = .brokenPipe ↔ broken
  back : (Fault.ofOs e.toOs).isBrokenPipe = true ↔ broken
  /-- Whoever reads a source in the system's terms. -/
  read : ∀ {σ : Type} [ByteSource σ] (s : σ) (n : Nat), (ByteSource.read s n).1 = .error e →
    ∃ told, (ByteSource.readOs s n).1 = .error told ∧ (told.kind = .brokenPipe ↔ broken)
  /-- A copy whose reader fails so. -/
  copied : ∀ (reader rest : Reader) (copied : Nat),
    reader.readUninterrupted Copy.blockSize = (.error e.toOs, rest) →
      ∃ f, Copy.next (.running reader copied) = .finish (.error f) ∧
        (f.isBrokenPipe = true ↔ broken)
  /-- A copy whose write is refused so. -/
  refused : ∀ (c : Copy) (data : Bytes) (resume : Except Fault Unit → Copy),
    c.next = .write data resume →
      ∃ f, resume (.error e) = .failed f ∧ (f.isBrokenPipe = true ↔ broken)

/-- Everyone judges by the kind of failure in the system's terms. -/
theorem Told.of_kind {e : Fault} {broken : Prop} (h : e.toOs.kind = .brokenPipe ↔ broken) :
    Told e broken where
  kind := h
  back := (Fault.isBrokenPipe_ofOs e.toOs).trans h
  read s n hread := by
    refine ⟨e.toOs, ?_, h⟩
    unfold ByteSource.readOs
    rcases hrun : ByteSource.read s n with ⟨answer, t⟩
    rw [hrun] at hread
    obtain rfl : answer = .error e := hread
    rfl
  copied reader rest copied hread := by
    refine ⟨Copy.faultOf e.toOs, ?_, (Copy.isBrokenPipe_faultOf e.toOs).trans h⟩
    simp only [Copy.next, hread]
  refused c data resume hnext := by
    refine ⟨Copy.faultOf e.toOs, ?_, (Copy.isBrokenPipe_faultOf e.toOs).trans h⟩
    unfold Copy.next at hnext
    split at hnext
    · cases hnext
    · split at hnext
      · cases hnext
      · cases hnext
      · cases hnext
        rfl

/-- A broken pipe is still known as one in the system's terms, and back from there, unless it is behind
a sink, or came from a failure of the system that was none. -/
theorem told_of_isBrokenPipe {e : Fault} (h : e.isBrokenPipe = true) :
    ∃ (sinks : List Nat) (f : IoFault), e = sinks.foldr .sink (.io f) ∧ f.kind = .brokenPipe ∧
      Told e (sinks = [] ∧ f.Candid) := by
  obtain ⟨sinks, f, rfl, hf⟩ := Fault.isBrokenPipe_iff.1 h
  exact ⟨sinks, f, rfl, hf, .of_kind (Fault.kind_toOs_of_isBrokenPipe sinks hf)⟩

/-- The broken pipe of a pipe, and the same behind the sinks of two tees. -/
theorem told_of_isBrokenPipe_refused :
    let plain : Fault := .io (.brokenPipe "pipe")
    let nested : Fault := .sink 1 (.sink 0 plain)
    plain.isBrokenPipe = true ∧ nested.isBrokenPipe = true ∧
      Told plain True ∧ Told nested False := by
  intro plain nested
  have hplain : plain.isBrokenPipe = true := rfl
  have hnested : nested.isBrokenPipe = true := rfl
  refine ⟨hplain, hnested, ?_, ?_⟩
  · obtain ⟨sinks, f, heq, hf, htold⟩ := told_of_isBrokenPipe hplain
    cases sinks with
    | nil =>
      obtain rfl : IoFault.brokenPipe "pipe" = f := Fault.io.inj heq
      obtain ⟨-, -, -, hcandid, -⟩ := IoFault.candid_made "pipe" none OsErrorKind.brokenPipe.plain
      simpa only [true_and, hcandid] using htold
    | cons index sinks => simp [plain] at heq
  · obtain ⟨sinks, f, heq, hf, htold⟩ := told_of_isBrokenPipe hnested
    cases sinks with
    | nil => simp [nested] at heq
    | cons index sinks => simpa only [reduceCtorEq, false_and] using htold

/-- A broken pipe that nobody who is told of it knows as one. -/
theorem sink_hides_broken_pipe :
    let e : Fault := .sink 2 (.io (.brokenPipe "pipe"))
    e.isBrokenPipe = true ∧ ¬ e.toOs.kind = .brokenPipe ∧
      ¬ (Fault.ofOs e.toOs).isBrokenPipe = true ∧ ¬ (Copy.faultOf e.toOs).isBrokenPipe = true := by
  decide

end StreamLayers
