import Mathlib.Logic.Relation
import StreamLayers.Proofs.Probe.Registry

/-!
Threads that share a registry. A lookup that misses under the read lock looks again under the write
lock before it adds the site, and what is recorded is added to a tally one counter after the other,
each in one step. Between any two of these steps other threads may go on.
-/

namespace StreamLayers

namespace Registry

/-- What is recorded in one go. -/
inductive Entry where
  | created
  | read (bytes nanos : UInt64)
  deriving DecidableEq, Repr

/-- The additions that recording comes down to, in their order. -/
def Entry.parts : Entry → List Tally
  | created => [{ instances := 1 }]
  | read bytes nanos => [{ bytes }, { reads := 1 }, { nanos }]

def Entry.tally (e : Entry) : Tally := e.parts.sum

/-- What has been recorded at a site in all. -/
def recorded (site : CallSite) (log : List (CallSite × Entry)) : Tally :=
  ((log.filter (·.1 = site)).map (·.2.tally)).sum

theorem recorded_append (site : CallSite) (log new : List (CallSite × Entry)) :
    recorded site (log ++ new) = recorded site log + recorded site new := by
  simp [recorded]

theorem recorded_singleton (site s : CallSite) (e : Entry) :
    recorded site [(s, e)] = if s = site then e.tally else 0 := by
  by_cases h : s = site <;> simp [recorded, h]

/-- What a thread is in the middle of. -/
inductive Task where
  | idle
  /-- It has missed the site, and goes for the write lock. -/
  | inserting (site : CallSite)
  /-- It has these additions to make to the tally with number `i`. -/
  | recording (site : CallSite) (i : Nat) (due : List Tally)
  deriving DecidableEq, Repr

structure Thread where
  /-- The tallies that lookups have returned, with the sites that were looked up. -/
  held : List (CallSite × Nat) := []
  task : Task := .idle

/-- A step of a thread, and what it starts to record. -/
inductive Act : Registry × Thread → List (CallSite × Entry) → Registry × Thread → Prop where
  | hit {r : Registry} {held site i} (found : r.find? site = some i) :
      Act (r, ⟨held, .idle⟩) [] (r, ⟨(site, i) :: held, .idle⟩)
  | miss {r : Registry} {held site} (absent : r.find? site = none) :
      Act (r, ⟨held, .idle⟩) [] (r, ⟨held, .inserting site⟩)
  | insert {r : Registry} {held site} :
      Act (r, ⟨held, .inserting site⟩) []
        ((r.counters site).2, ⟨(site, (r.counters site).1) :: held, .idle⟩)
  | begin {r : Registry} {held site i} (has : (site, i) ∈ held) (e : Entry) :
      Act (r, ⟨held, .idle⟩) [(site, e)] (r, ⟨held, .recording site i e.parts⟩)
  | add {r : Registry} {held site i t rest} :
      Act (r, ⟨held, .recording site i (t :: rest)⟩) []
        (r.record i t, ⟨held, .recording site i rest⟩)
  | done {r : Registry} {held site i} :
      Act (r, ⟨held, .recording site i []⟩) [] (r, ⟨held, .idle⟩)

/-- Threads with their registry, and what they have recorded or begun to. -/
structure World where
  registry : Registry
  threads : List Thread
  log : List (CallSite × Entry) := []

namespace World

/-- Any one thread makes a step. -/
inductive Step : World → World → Prop where
  | mk {r r' : Registry} {t t' : Thread} {new log before later} (act : Act (r, t) new (r', t')) :
      Step ⟨r, before ++ t :: later, log⟩ ⟨r', before ++ t' :: later, log ++ new⟩

abbrev Reach : World → World → Prop := Relation.ReflTransGen Step

/-- So many threads that have done nothing yet. -/
def start (r : Registry) (n : Nat) : World := { registry := r, threads := List.replicate n {} }

/-- No thread is in the middle of anything. -/
def Quiet (w : World) : Prop := ∀ t ∈ w.threads, t.task = .idle

end World

namespace Thread

/-- What a thread still has to add at a site. -/
def due (site : CallSite) (t : Thread) : Tally :=
  match t.task with
  | .recording site' _ rest => if site' = site then rest.sum else 0
  | _ => 0

/-- What a thread holds, and what it adds to, are the tallies of their sites. -/
structure Sure (r : Registry) (t : Thread) : Prop where
  held : ∀ site i, (site, i) ∈ t.held → r.find? site = some i
  task : ∀ site i rest, t.task = .recording site i rest → r.find? site = some i

/-- The steps that are left of what a thread is in the middle of. -/
def ahead (t : Thread) : Nat :=
  match t.task with
  | .idle => 0
  | .inserting _ => 1
  | .recording _ _ rest => rest.length + 1

end Thread

namespace Act

variable {r r' : Registry} {t t' : Thread} {new : List (CallSite × Entry)}

theorem sound (h : Act (r, t) new (r', t')) (hr : r.Sound) : r'.Sound := by
  cases h with
  | insert => exact hr.counters _
  | add => exact hr.record _ _
  | _ => exact hr

/-- A site keeps its number. -/
theorem find_kept (h : Act (r, t) new (r', t')) {site : CallSite} {i : Nat}
    (hi : r.find? site = some i) : r'.find? site = some i := by
  cases h with
  | insert => exact find_counters_of_some hi
  | _ => exact hi

theorem sure (h : Act (r, t) new (r', t')) (ht : t.Sure r) : t'.Sure r' := by
  cases h with
  | @hit _ held site i found =>
    refine ⟨fun s j hmem => ?_, nofun⟩
    rcases List.mem_cons.1 hmem with heq | hold
    · cases heq
      exact found
    · exact ht.held s j hold
  | miss absent => exact ⟨ht.held, nofun⟩
  | @insert _ held site =>
    refine ⟨fun s j hmem => ?_, nofun⟩
    rcases List.mem_cons.1 hmem with heq | hold
    · cases heq
      exact find_counters_self r site
    · exact find_counters_of_some (ht.held s j hold)
  | begin has e =>
    refine ⟨ht.held, fun s j rest htask => ?_⟩
    cases htask
    exact ht.held _ _ has
  | add =>
    refine ⟨ht.held, fun s j rest htask => ?_⟩
    cases htask
    exact ht.task _ _ _ rfl
  | done => exact ⟨ht.held, nofun⟩

/-- What is added is no longer due, and what is recorded becomes due. -/
theorem balance (h : Act (r, t) new (r', t')) (hr : r.Sound) (ht : t.Sure r) (site : CallSite) :
    r'.total site + t'.due site = r.total site + t.due site + recorded site new := by
  have hnone : recorded site [] = 0 := rfl
  cases h with
  | hit found => rw [hnone, add_zero]; rfl
  | miss absent => rw [hnone, add_zero]; rfl
  | insert =>
    rw [hnone, add_zero, hr.total_counters]
    rfl
  | @begin _ held s i has e =>
    show r.total site + (if s = site then e.tally else 0) = r.total site + 0 + _
    rw [recorded_singleton, add_zero]
  | @add _ held s i a rest =>
    have hi := ht.task s i (a :: rest) rfl
    rw [hr.total_record hi, hnone, add_zero, add_assoc]
    show r.total site + ((if site = s then a else 0) + if s = site then rest.sum else 0) =
      r.total site + if s = site then (a :: rest).sum else 0
    by_cases heq : s = site
    · rw [if_pos heq.symm, if_pos heq, if_pos heq, List.sum_cons]
    · have hne : ¬ site = s := fun h => heq h.symm
      rw [if_neg hne, if_neg heq, if_neg heq, add_zero]
  | @done _ held s i =>
    show r.total site + 0 = r.total site + (if s = site then 0 else 0) + recorded site []
    rw [hnone, ite_self, add_zero, add_zero]

/-- A thread in the middle of something can make a step towards its end. -/
theorem exists_of_ahead (r : Registry) {t : Thread} (h : t.task ≠ .idle) :
    ∃ r' t', Act (r, t) [] (r', t') ∧ t'.ahead < t.ahead := by
  obtain ⟨held, task⟩ := t
  cases task with
  | idle => exact absurd rfl h
  | inserting site => exact ⟨_, _, .insert, Nat.zero_lt_one⟩
  | recording site i due =>
    cases due with
    | nil => exact ⟨_, _, .done, Nat.zero_lt_one⟩
    | cons a rest => exact ⟨_, _, .add, Nat.lt_succ_self _⟩

end Act

namespace World

variable {r : Registry} {w w' : World}

theorem Quiet.sum_due (h : w.Quiet) (site : CallSite) :
    (w.threads.map (Thread.due site)).sum = 0 := by
  refine List.sum_eq_zero fun d hd => ?_
  obtain ⟨t, ht, rfl⟩ := List.mem_map.1 hd
  rw [Thread.due, h t ht]

/-- What the registry has and what is still due make up what was there and what was recorded. -/
structure Balanced (r : Registry) (w : World) : Prop where
  sound : w.registry.Sound
  sure : ∀ t ∈ w.threads, t.Sure w.registry
  total : ∀ site, w.registry.total site + (w.threads.map (Thread.due site)).sum =
    r.total site + recorded site w.log

theorem Balanced.start (hr : r.Sound) (n : Nat) : Balanced r (start r n) where
  sound := hr
  sure t ht := by
    obtain rfl := List.eq_of_mem_replicate ht
    exact ⟨fun _ _ h => absurd h List.not_mem_nil, nofun⟩
  total site := by
    have hquiet : (World.start r n).Quiet := fun t ht => by
      obtain rfl := List.eq_of_mem_replicate ht
      rfl
    rw [hquiet.sum_due]
    rfl

/-- What was looked up stays with its site. -/
theorem find_step (h : Step w w') {site : CallSite} {i : Nat}
    (hi : w.registry.find? site = some i) : w'.registry.find? site = some i := by
  cases h with
  | mk act => exact act.find_kept hi

theorem find_reach (h : Reach w w') {site : CallSite} {i : Nat}
    (hi : w.registry.find? site = some i) : w'.registry.find? site = some i := by
  induction h with
  | refl => exact hi
  | tail _ step ih => exact find_step step ih

theorem Balanced.step (h : Balanced r w) (hs : Step w w') : Balanced r w' := by
  cases hs with
  | @mk s s' t t' new log before later act =>
    have hkept := h.sure
    have ht := hkept t (by simp)
    refine ⟨act.sound h.sound, fun u hu => ?_, fun site => ?_⟩
    · have hother (hu : u ∈ before ++ later) : u.Sure s' := by
        have hold := hkept u (by simp at hu ⊢; tauto)
        exact ⟨fun _ _ hm => act.find_kept (hold.held _ _ hm),
          fun _ _ _ hm => act.find_kept (hold.task _ _ _ hm)⟩
      simp only [List.mem_append, List.mem_cons] at hu hother
      rcases hu with hu | rfl | hu
      · exact hother (.inl hu)
      · exact act.sure ht
      · exact hother (.inr hu)
    · have hbefore := h.total site
      have hbalance := act.balance h.sound ht site
      simp only [List.map_append, List.map_cons, List.sum_append, List.sum_cons] at hbefore ⊢
      generalize (before.map (Thread.due site)).sum = front at hbefore ⊢
      generalize (later.map (Thread.due site)).sum = back at hbefore ⊢
      calc s'.total site + (front + (t'.due site + back))
          = s'.total site + t'.due site + (front + back) := by
            simp only [add_assoc, add_left_comm]
        _ = s.total site + t.due site + recorded site new + (front + back) := by rw [hbalance]
        _ = s.total site + (front + (t.due site + back)) + recorded site new := by
            simp only [add_assoc, add_comm, add_left_comm]
        _ = r.total site + recorded site (log ++ new) := by
            rw [hbefore, recorded_append, add_assoc]

theorem Balanced.reach (h : Balanced r w) (hs : Reach w w') : Balanced r w' := by
  induction hs with
  | refl => exact h
  | tail _ step ih => exact ih.step step

/-- Whatever threads are in the middle of can be brought to its end, with nothing else begun. -/
theorem quiet_reachable (w : World) : ∃ w', Reach w w' ∧ w'.Quiet ∧ w'.log = w.log := by
  induction hahead : (w.threads.map Thread.ahead).sum using Nat.strongRecOn generalizing w with
  | ind n ih =>
    by_cases hquiet : w.Quiet
    · exact ⟨w, .refl, hquiet, rfl⟩
    · obtain ⟨registry, threads, log⟩ := w
      simp only [Quiet, not_forall] at hquiet
      obtain ⟨t, ht, hbusy⟩ := hquiet
      obtain ⟨before, later, rfl⟩ := List.append_of_mem ht
      obtain ⟨registry', t', act, hless⟩ := Act.exists_of_ahead registry hbusy
      have hstep : Step ⟨registry, before ++ t :: later, log⟩
          ⟨registry', before ++ t' :: later, log ++ []⟩ := .mk act
      rw [List.append_nil] at hstep
      have hlt : ((before ++ t' :: later).map Thread.ahead).sum < n := by
        simp only [List.map_append, List.map_cons, List.sum_append, List.sum_cons] at hahead ⊢
        omega
      obtain ⟨w', hreach, hquiet, hlog⟩ := ih _ hlt ⟨registry', before ++ t' :: later, log⟩ rfl
      exact ⟨w', .head hstep hreach, hquiet, hlog⟩

/-- However threads that look up sites and record at them take turns: every site has one tally and
every tally one site, all that have looked up a site hold its tally, then and ever after, and once
no thread is in the middle of anything, each tally is the sum of all that was recorded. -/
theorem updates_kept (hr : r.Sound) {n : Nat} (h : Reach (start r n) w) :
    ((w.registry.index.map Prod.fst).Nodup ∧
      w.registry.index.map Prod.snd = List.range w.registry.cells.length) ∧
    (∀ t ∈ w.threads, ∀ t' ∈ w.threads, ∀ site site' i j, (site, i) ∈ t.held →
      (site', j) ∈ t'.held → (i = j ↔ site = site')) ∧
    (∀ t ∈ w.threads, ∀ site i, (site, i) ∈ t.held →
      ∀ w', Reach w w' → w'.registry.find? site = some i) ∧
    (w.Quiet → ∀ site, w.registry.total site = r.total site + recorded site w.log) ∧
    ∃ w', Reach w w' ∧ w'.Quiet ∧ w'.log = w.log := by
  have hall := (Balanced.start hr n).reach h
  refine ⟨⟨hall.sound.keys, hall.sound.numbers⟩, ?_, ?_, ?_, w.quiet_reachable⟩
  · intro t ht t' ht' site site' i j hi hj
    have hi := (hall.sure t ht).held site i hi
    have hj := (hall.sure t' ht').held site' j hj
    constructor
    · rintro rfl
      exact hall.sound.find_inj hi hj
    · rintro rfl
      exact Option.some.inj (hi.symm.trans hj)
  · intro t ht site i hi w' hw'
    exact find_reach hw' ((hall.sure t ht).held site i hi)
  · intro hquiet site
    have htotal := hall.total site
    rw [hquiet.sum_due, add_zero] at htotal
    exact htotal

/-- Two threads miss a site before either of them adds it, and then both record there. -/
theorem updates_kept_raced :
    let site : CallSite := ⟨"a", 1, 1⟩
    let has : Thread := { held := [(site, 0)] }
    let w : World := ⟨⟨[(site, 0)], [{ instances := 2 }]⟩, [has, has],
      [(site, .created), (site, .created)]⟩
    Registry.Sound {} ∧ Reach (start {} 2) w ∧ w.Quiet ∧
      w.registry.total site = Registry.total {} site + recorded site w.log := by
  intro site has w
  let adding (due : List Tally) : Thread := { held := [(site, 0)], task := .recording site 0 due }
  let misses : Thread := { task := .inserting site }
  let counted (n : UInt64) : Registry := ⟨[(site, 0)], [{ instances := n }]⟩
  let log : List (CallSite × Entry) := [(site, .created)]
  have hmiss : Step (start {} 2) ⟨{}, [misses, {}], []⟩ :=
    @Step.mk {} {} {} misses [] [] [] [{}] (.miss rfl)
  have hmiss' : Step ⟨{}, [misses, {}], []⟩ ⟨{}, [misses, misses], []⟩ :=
    @Step.mk {} {} {} misses [] [] [misses] [] (.miss rfl)
  have hinsert : Step ⟨{}, [misses, misses], []⟩ ⟨counted 0, [has, misses], []⟩ :=
    @Step.mk {} (counted 0) misses has [] [] [] [misses] .insert
  have hinsert' : Step ⟨counted 0, [has, misses], []⟩ ⟨counted 0, [has, has], []⟩ :=
    @Step.mk (counted 0) (counted 0) misses has [] [] [has] [] .insert
  have hbegin : Step ⟨counted 0, [has, has], []⟩
      ⟨counted 0, [adding [{ instances := 1 }], has], log⟩ :=
    @Step.mk (counted 0) (counted 0) has _ log [] [] [has] (.begin List.mem_cons_self .created)
  have hbegin' : Step ⟨counted 0, [adding [{ instances := 1 }], has], log⟩
      ⟨counted 0, [adding [{ instances := 1 }], adding [{ instances := 1 }]], log ++ log⟩ :=
    @Step.mk (counted 0) (counted 0) has _ log log [_] [] (.begin List.mem_cons_self .created)
  have hadd : Step
      ⟨counted 0, [adding [{ instances := 1 }], adding [{ instances := 1 }]], log ++ log⟩
      ⟨counted 1, [adding [], adding [{ instances := 1 }]], log ++ log⟩ :=
    @Step.mk (counted 0) (counted 1) _ (adding []) [] (log ++ log) [] [_] .add
  have hadd' : Step ⟨counted 1, [adding [], adding [{ instances := 1 }]], log ++ log⟩
      ⟨counted 2, [adding [], adding []], log ++ log⟩ :=
    @Step.mk (counted 1) (counted 2) _ (adding []) [] (log ++ log) [_] [] .add
  have hdone : Step ⟨counted 2, [adding [], adding []], log ++ log⟩
      ⟨counted 2, [has, adding []], log ++ log⟩ :=
    @Step.mk (counted 2) (counted 2) _ has [] (log ++ log) [] [_] .done
  have hdone' : Step ⟨counted 2, [has, adding []], log ++ log⟩ w :=
    @Step.mk (counted 2) (counted 2) _ has [] (log ++ log) [_] [] .done
  have hreach : Reach (start {} 2) w :=
    .head hmiss <| .head hmiss' <| .head hinsert <| .head hinsert' <| .head hbegin <|
      .head hbegin' <| .head hadd <| .head hadd' <| .head hdone <| .head hdone' .refl
  have hquiet : w.Quiet := by
    intro t ht
    simp only [w, List.mem_cons, List.not_mem_nil, or_false, or_self] at ht
    rw [ht]
  obtain ⟨-, -, -, htotal, -⟩ := updates_kept Registry.sound_empty hreach
  exact ⟨Registry.sound_empty, hreach, hquiet, htotal hquiet site⟩

end World

end Registry

end StreamLayers
