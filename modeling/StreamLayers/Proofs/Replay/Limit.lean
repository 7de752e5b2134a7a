import StreamLayers.Proofs.Replay.Kept

/-!
Marks with a limit. What becomes of such a mark depends on the positions that reads have reached
since it was set, and on nothing else: the first of them that lies beyond the limit is fatal, and it
is the one that every later reset reports.
-/

namespace StreamLayers

namespace MarkState

/-- A mark once a reader has been at `position`. -/
def enforced (m : MarkState) (position : Nat) : MarkState :=
  match m with
  | .active p (.bytes limit) =>
    if limit < position - p then .exceeded limit (position - p) else .active p (.bytes limit)
  | m => m

theorem enforced_of_inactive {m : MarkState} (h : m.isActive = false) (position : Nat) :
    m.enforced position = m := by
  cases m with
  | active p limit => cases h
  | _ => rfl

theorem enforced_of_le {p limit position : Nat} (h : position ≤ p + limit) :
    (active p (.bytes limit)).enforced position = .active p (.bytes limit) :=
  if_neg (Nat.not_lt.2 (Nat.sub_le_iff_le_add'.2 h))

theorem enforced_of_lt {p limit position : Nat} (h : p + limit < position) :
    (active p (.bytes limit)).enforced position = .exceeded limit (position - p) :=
  if_pos (Nat.lt_sub_iff_add_lt'.2 h)

theorem enforced_here (p : Nat) (limit : MarkLimit) :
    (active p limit).enforced p = .active p limit := by
  cases limit with
  | bytes n => exact enforced_of_le (Nat.le_add_right p n)
  | _ => rfl

/-- What a mark has become at one position, it stays at every position before. -/
theorem enforced_enforced (m : MarkState) {position position' : Nat} (h : position' ≤ position) :
    (m.enforced position).enforced position' = m.enforced position := by
  rcases m with _ | ⟨p, _ | _ | limit⟩ | _ | ⟨limit, consumed⟩
  case active.bytes =>
    by_cases hwithin : position ≤ p + limit
    · rw [enforced_of_le hwithin, enforced_of_le (Nat.le_trans h hwithin)]
    · rw [enforced_of_lt (Nat.lt_of_not_le hwithin)]
      rfl
  all_goals rfl

theorem foldl_enforced_of_inactive {m : MarkState} (h : m.isActive = false)
    (positions : List Nat) : positions.foldl enforced m = m := by
  induction positions with
  | nil => rfl
  | cons q rest ih => rw [List.foldl_cons, enforced_of_inactive h, ih]

/-- The first position beyond the limit decides. -/
theorem foldl_enforced (p limit : Nat) (positions : List Nat) :
    positions.foldl enforced (.active p (.bytes limit)) =
      match positions.find? (p + limit < ·) with
      | none => .active p (.bytes limit)
      | some q => .exceeded limit (q - p) := by
  induction positions with
  | nil => rfl
  | cons q rest ih =>
    rw [List.foldl_cons, List.find?_cons]
    by_cases hwithin : q ≤ p + limit
    · rw [enforced_of_le hwithin, decide_eq_false (Nat.not_lt.2 hwithin)]
      exact ih
    · have hbeyond := Nat.lt_of_not_le hwithin
      rw [enforced_of_lt hbeyond, decide_eq_true hbeyond]
      exact foldl_enforced_of_inactive rfl rest

end MarkState

namespace Replay

variable {σ : Type}

theorem enforceLimit_eq (b : Replay σ) :
    b.enforceLimit = { b with mark := b.mark.enforced b.position } := by
  have same (h : b.mark.enforced b.position = b.mark) :
      b = { b with mark := b.mark.enforced b.position } := by rw [h]
  unfold enforceLimit
  split
  · rename_i p limit hm
    split
    · rename_i hbeyond
      rw [hm, MarkState.enforced_of_lt (by omega)]
    · exact same (by rw [hm, MarkState.enforced_of_le (by omega)])
  · rename_i hother
    refine same ?_
    unfold MarkState.enforced
    split
    · rename_i p limit hm
      exact absurd hm (hother p limit)
    · rfl

theorem afterRead_mark (b : Replay σ) :
    b.afterRead.mark = b.mark.enforced b.position ∧ b.afterRead.position = b.position := by
  obtain ⟨store, base, hfr⟩ := b.enforceLimit.discardUnreachable_frame
  rw [afterRead, hfr, enforceLimit_eq]
  exact ⟨rfl, rfl⟩

/-- An open buffer whose mark is as its position allows. -/
structure Limited (b : Replay σ) : Prop where
  isOpen : b.closed = false
  enforced_eq : b.mark.enforced b.position = b.mark

/-- Within the limit, the reader may be moved back. -/
theorem Limited.moveTo {b : Replay σ} (h : Limited b) {position : Nat} (hle : position ≤ b.position)
    (store : Store) : Limited ({ b with store, position } : Replay σ) := by
  refine ⟨h.isOpen, ?_⟩
  show b.mark.enforced position = b.mark
  rw [← h.enforced_eq, MarkState.enforced_enforced b.mark hle]

variable [ByteSource σ] {b : Replay σ}

/-- The positions that reads of the given sizes reach one after the other. -/
def readsReached (b : Replay σ) : List Nat → List Nat
  | [] => []
  | n :: rest => (b.read n).2.position :: (b.read n).2.readsReached rest

namespace Op

def isMark : Op → Bool
  | mark _ => true
  | _ => false

/-- The positions that the reads of an operation reach. -/
def reached (b : Replay σ) : Op → List Nat
  | read n => b.readsReached [n]
  | seek target =>
    if b.position ≤ target then b.readsReached (skipSizes target (target - b.position) b) else []
  | _ => []

end Op

/-- The positions that reads and moves forward reach in a run, one after the other. -/
def reached (b : Replay σ) : List Op → List Nat
  | [] => []
  | op :: ops => op.reached b ++ (op.apply b).reached ops

namespace Limited

theorem read (h : Limited b) (n : Nat) :
    (b.read n).2.mark = b.mark.enforced (b.read n).2.position ∧ Limited (b.read n).2 := by
  have hopen := (b.read_kept n).1.closed_eq.trans h.isOpen
  have hmark : (b.read n).2.mark = b.mark.enforced (b.read n).2.position := by
    rcases hr : b.read n with ⟨e | got, c⟩
    · -- A read that fails stays where the mark was held against the limit before.
      obtain ⟨hpos, -, -, hmark, -⟩ := (failedRead_of_read hr).frame
      show c.mark = b.mark.enforced c.position
      rw [hpos, hmark, h.enforced_eq]
    · rcases read_ok hr with ⟨-, rfl⟩ | ⟨-, a, hf, rfl⟩
      · exact h.enforced_eq.symm
      · obtain ⟨-, hsame, -, -⟩ := fetch_moved hf
        obtain ⟨hmark, hpos⟩ := a.afterRead_mark
        show a.afterRead.mark = b.mark.enforced a.afterRead.position
        rw [hmark, hpos, hsame]
  refine ⟨hmark, hopen, ?_⟩
  rw [hmark, MarkState.enforced_enforced b.mark (Nat.le_refl _)]

theorem afterReads (h : Limited b) (sizes : List Nat) :
    (ByteSource.afterReads b sizes).mark = (b.readsReached sizes).foldl .enforced b.mark ∧
      Limited (ByteSource.afterReads b sizes) := by
  induction sizes generalizing b with
  | nil => exact ⟨rfl, h⟩
  | cons n rest ih =>
    obtain ⟨hmark, hlimited⟩ := h.read n
    obtain ⟨hrest, hend⟩ := ih hlimited
    refine ⟨hrest.trans ?_, hend⟩
    rw [readsReached, List.foldl_cons, hmark]

theorem reset (h : Limited b) : b.reset.2.mark = b.mark ∧ Limited b.reset.2 := by
  obtain ⟨hmark, hback, hstays⟩ := b.reset_moved
  have hopen := (Op.akin_apply .reset b).1.closed_eq.trans h.isOpen
  refine ⟨hmark, hopen, ?_⟩
  rw [hmark]
  rcases hr : b.reset.1 with e | u
  · rw [hstays (by rw [hr]; rfl), h.enforced_eq]
  · obtain ⟨limit, ha⟩ := hback hr
    rw [ha]
    exact MarkState.enforced_here _ limit

theorem seek (h : Limited b) (target : Nat) :
    (b.seek target).2.mark = ((Op.seek target).reached b).foldl .enforced b.mark ∧
      Limited (b.seek target).2 := by
  by_cases hahead : b.position ≤ target
  · rw [seek_forward h.isOpen hahead]
    simp only [Op.reached, hahead, if_true]
    exact h.afterReads _
  · obtain ⟨store, position, hle, hs⟩ := seek_back h.isOpen (Nat.lt_of_not_le hahead)
    rw [hs]
    simp only [Op.reached, hahead, if_false]
    exact ⟨rfl, h.moveTo hle store⟩

/-- Between two calls of `mark`, a mark is what the positions reached make of it. -/
theorem apply (h : Limited b) {op : Op} (hop : op.isMark = false) :
    (op.apply b).mark = (op.reached b).foldl .enforced b.mark ∧ Limited (op.apply b) := by
  cases op with
  | read n => exact h.afterReads [n]
  | mark limit => cases hop
  | reset => exact h.reset
  | seek target => exact h.seek target
  | directoryMade name => exact ⟨rfl, h.isOpen, h.enforced_eq⟩
  | directoryRemoved name => exact ⟨rfl, h.isOpen, h.enforced_eq⟩

theorem after (h : Limited b) {ops : List Op} (hops : ∀ op ∈ ops, op.isMark = false) :
    (b.after ops).mark = (b.reached ops).foldl .enforced b.mark ∧ Limited (b.after ops) := by
  induction ops generalizing b with
  | nil => exact ⟨rfl, h⟩
  | cons op rest ih =>
    obtain ⟨hop, hrest⟩ := List.forall_mem_cons.1 hops
    obtain ⟨hmark, hlimited⟩ := h.apply hop
    obtain ⟨hmark', hend⟩ := ih hlimited hrest
    refine ⟨hmark'.trans ?_, hend⟩
    rw [Replay.reached, List.foldl_append, hmark]

end Limited

/-- A limit that was exceeded stays so. -/
theorem Limited.reset_exceeded (h : Limited b) {limit consumed : Nat}
    (hm : b.mark = .exceeded limit consumed) {later : List Op}
    (hlater : ∀ op ∈ later, op.isMark = false) :
    (b.after later).reset = (.error (.misuse (.markLimitExceeded limit consumed)), b.after later) := by
  obtain ⟨hmark, hend⟩ := h.after hlater
  rw [hm, MarkState.foldl_enforced_of_inactive rfl] at hmark
  have hopen : ¬ (b.after later).closed = true := by simp [hend.isOpen]
  unfold Replay.reset
  rw [if_neg hopen]
  split <;> rename_i hother <;> rw [hmark] at hother <;> cases hother
  rfl

omit [ByteSource σ] in
theorem setMark_bytes {n : Nat} (hn : 1 ≤ n) (hok : (b.setMark (.bytes n)).1 = .ok ()) :
    (b.setMark (.bytes n)).2.mark = .active b.position (.bytes n) ∧
      (b.setMark (.bytes n)).2.position = b.position ∧ Limited (b.setMark (.bytes n)).2 := by
  have hclosed : ¬ b.closed = true := fun hclosed => by simp [setMark, hclosed] at hok
  have hopen : b.closed = false := Bool.eq_false_iff.2 hclosed
  obtain ⟨more, rfl⟩ : ∃ more, n = more + 1 := ⟨n - 1, by omega⟩
  have hremark : b.setMark (.bytes (more + 1)) = b.remark (.bytes (more + 1)) := by
    unfold setMark
    rw [if_neg hclosed]
    rfl
  rw [hremark] at hok ⊢
  obtain ⟨⟨hpos, -, hsame⟩, ⟨-, hmark⟩ | ⟨hfail, -⟩⟩ := b.remark_moved (.bytes (more + 1))
  · refine ⟨hmark, hpos, hsame.trans hopen, ?_⟩
    rw [hmark, hpos]
    exact MarkState.enforced_here _ _
  · rw [hok] at hfail
    cases hfail

/-- Reads get no further than their bytes take them. -/
theorem readsReached_le (b : Replay σ) (sizes : List Nat) :
    ∀ q ∈ b.readsReached sizes, q ≤ b.position + (ByteSource.reads b sizes).length := by
  induction sizes generalizing b with
  | nil => exact nofun
  | cons n rest ih =>
    have hpos := (b.read_moved n).1
    have hreads : ByteSource.reads b (n :: rest) =
        handedOver (b.read n).1 ++ ByteSource.reads (b.read n).2 rest := rfl
    rw [hreads, List.length_append]
    refine List.forall_mem_cons.2 ⟨by omega, fun q hq => ?_⟩
    have hlater := ih (b.read n).2 q hq
    omega

theorem reached_reads (b : Replay σ) (sizes : List Nat) :
    b.reached (sizes.map .read) = b.readsReached sizes := by
  induction sizes generalizing b with
  | nil => rfl
  | cons n rest ih => exact congrArg ((b.read n).2.position :: ·) (ih (b.read n).2)

/-- A mark with a limit can be gone back to as long as no read and no move forward has taken the
reader beyond it. Once one has, each reset reports how far the first of them got. -/
theorem bounded_mark [SerialSource σ] {source : σ} (hb : New source b) (hempty : b.store.log = [])
    {before : List Op} {p n : Nat} (hp : (b.after before).position = p) (hn : 1 ≤ n)
    {marked : Replay σ} (hm : (b.after before).setMark (.bytes n) = (.ok (), marked))
    {since : List Op} (hsince : ∀ op ∈ since, op.isMark = false) :
    (b.served (before ++ .mark (.bytes n) :: since) = true →
        ((marked.after since).reset.1 = .ok () ↔ ∀ q ∈ marked.reached since, q ≤ p + n) ∧
          ((marked.after since).reset.1 = .ok () → (marked.after since).reset.2.position = p)) ∧
      (∀ q, (marked.reached since).find? (p + n < ·) = some q →
        n < q - p ∧ ∀ later, (∀ op ∈ later, op.isMark = false) →
          ((marked.after since).after later).reset =
            (.error (.misuse (.markLimitExceeded n (q - p))), (marked.after since).after later)) ∧
      ∀ sizes, (ByteSource.reads marked sizes).length ≤ n →
        ∀ q ∈ marked.reached (sizes.map .read), q ≤ p + n := by
  obtain ⟨hmark, hpos, hlimited⟩ := setMark_bytes hn (congrArg Prod.fst hm)
  rw [hm, hp] at hmark hpos
  rw [hm] at hlimited
  obtain ⟨hnow, hend⟩ := hlimited.after hsince
  rw [hmark, MarkState.foldl_enforced] at hnow
  refine ⟨fun hs => ?_, fun q hq => ?_, fun sizes hread q hq => ?_⟩
  · have hrun : b.after (before ++ .mark (.bytes n) :: since) = marked.after since := by
      unfold after
      rw [List.foldl_append, List.foldl_cons]
      exact congrArg (·.2.after since) hm
    have hin := ((hb.inStep hempty).after hs (.inl hb.start.2.2.2.1)).1
    rw [hrun] at hin
    rcases hfind : (marked.reached since).find? (p + n < ·) with _ | q <;> rw [hfind] at hnow
    · obtain ⟨hreset, -, hback, -⟩ := hin.reset_active hnow
      refine ⟨iff_of_true hreset fun q hq => ?_, fun _ => hback⟩
      have hnone := List.find?_eq_none.1 hfind q hq
      simpa using hnone
    · have hfail := (reset_inactive (b := marked.after since) (by rw [hnow]; rfl)).1
      have hnot : (marked.after since).reset.1 ≠ .ok () := fun hreset => by
        rw [hreset] at hfail
        cases hfail
      have hbeyond : p + n < q := by simpa using List.find?_some hfind
      refine ⟨iff_of_false hnot fun hall => ?_, fun hreset => absurd hreset hnot⟩
      exact Nat.not_lt.2 (hall q (List.mem_of_find?_eq_some hfind)) hbeyond
  · have hbeyond : p + n < q := by simpa using List.find?_some hq
    rw [hq] at hnow
    exact ⟨by omega, fun later hlater => hend.reset_exceeded hnow hlater⟩
  · rw [reached_reads] at hq
    have hle := marked.readsReached_le sizes q hq
    have hstart : marked.position = p := hpos
    omega

/-- A mark is set in the middle of a replay of older bytes, and its last byte is read twice before a
move to the end of the data breaks the limit. Moves back within what is held do not mend it. -/
theorem bounded_mark_replayed :
    let source : MockSource := { rest := [1, 2, 3, 4, 5, 6, 7, 8], maxRead := some 3 }
    let c : Settings := { threshold := some 2, readChunk := 2 }
    let b : Replay MockSource := { withStore source (c.store.build true) with readChunk := 2 }
    let before : List Op := [.read 1, .mark .unlimited, .seek 6, .reset, .read 2]
    let marked := ((b.after before).setMark (.bytes 3)).2
    let within : List Op := [.read 9, .seek 4, .seek 6, .reset, .read 1]
    let later : List Op := [.reset, .seek 2, .read 5, .reset]
    let lost := (marked.after (within ++ [.seek 8])).after later
    New source b ∧ b.store.log = [] ∧ (b.after before).position = 3 ∧
      (b.after before).setMark (.bytes 3) = (.ok (), marked) ∧
      marked.reached within = [5, 5, 6, 4] ∧
      (marked.after within).reset.1 = .ok () ∧ (marked.after within).reset.2.position = 3 ∧
      lost.reset = (.error (.misuse (.markLimitExceeded 3 5)), lost) := by
  intro source c b before marked within later lost
  have hmade : Replay.ofSettings source c true = .ok b := rfl
  have hb : New source b := .ofSettings hmade
  have hempty : b.store.log = [] := Store.log_build c.store true
  have hstart : (b.after before).position = 3 := by decide +kernel
  have hok : ((b.after before).setMark (.bytes 3)).1 = .ok () := eq_ok_of_isOk (by decide +kernel)
  have hm : (b.after before).setMark (.bytes 3) = (.ok (), marked) := by
    rw [← hok]
  have hserved : b.served (before ++ .mark (.bytes 3) :: within) = true := by decide +kernel
  have hreached : marked.reached within = [5, 5, 6, 4] := by decide +kernel
  have hfirst : (marked.reached (within ++ [.seek 8])).find? (3 + 3 < ·) = some 8 := by
    decide +kernel
  have hwithin : ∀ op ∈ within, op.isMark = false := by decide
  have hbeyond : ∀ op ∈ within ++ [.seek 8], op.isMark = false := by decide
  have hlater : ∀ op ∈ later, op.isMark = false := by decide
  obtain ⟨hkept, -, -⟩ := bounded_mark hb hempty hstart (by decide) hm hwithin
  obtain ⟨-, hlost, -⟩ := bounded_mark hb hempty hstart (by decide) hm hbeyond
  obtain ⟨hiff, hback⟩ := hkept hserved
  have hreset := hiff.2 (by rw [hreached]; decide)
  exact ⟨hb, hempty, hstart, hm, hreached, hreset, hback hreset, (hlost 8 hfirst).2 later hlater⟩

end Replay

end StreamLayers
