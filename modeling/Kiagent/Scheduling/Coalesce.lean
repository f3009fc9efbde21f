/-
# Scheduling.Coalesce -- one run at a time, and a run after each trigger

A trigger during a pass raises `again` on the record, and the pass makes one more turn.  Both
flags are the record's.  So a job registered anew while its pass is in flight can be run a
second time beside it, and a turn whose row is not written leaves the loop although a trigger
waits for it (`doubles_and_loses`).

Where a trigger never finds an idle record of an id that still has a pass, and no row is
refused while a trigger waits, there is one pass for an id at most (`Sound`).  `Owed` counts
how many steps of the pass are left until a run that began after the trigger is complete.
-/
import Kiagent.Theory.Trace
import Kiagent.Scheduling.Jobs

namespace Kiagent.Scheduling

set_option autoImplicit false

open Kiagent.Theory

variable {nextRun : Cadence → Option Int → Int → Except String (Option Int)}
  {s s' : Scheduler} {id : String} {now : Int} {p q : Pass} {e : Entry} {j : Nat} {job : Job}

/-! ## The condition -/

/-- The record a trigger finds is in its pass, or no earlier record of the id is. -/
def Fresh (s : Scheduler) (id : String) : Prop :=
  ∀ found ∈ s.jobOf id, found.2.busy = true ∨ s.inFlight id = false

instance : Decidable (Fresh s id) :=
  match h : s.jobOf id with
  | none => .isTrue fun found mem => by rw [h] at mem; cases mem
  | some (j, job) => decidable_of_iff (job.busy = true ∨ s.inFlight id = false)
      ⟨fun fine found mem => by
        rw [h, Option.mem_some_iff] at mem
        exact mem ▸ fine, fun fresh => fresh (j, job) (by rw [h]; rfl)⟩

def FreshAll (nextRun : Cadence → Option Int → Int → Except String (Option Int)) (s : Scheduler)
    (now : Int) : List String → Prop
  | [] => True
  | id :: ids => Fresh s id ∧ FreshAll nextRun (fire nextRun s id now) now ids

instance FreshAll.decidable : (s : Scheduler) → (ids : List String) →
    Decidable (FreshAll nextRun s now ids)
  | _, [] => .isTrue trivial
  | s, id :: ids =>
      have : Decidable (FreshAll nextRun (fire nextRun s id now) now ids) :=
        FreshAll.decidable (fire nextRun s id now) ids
      inferInstanceAs (Decidable (_ ∧ _))

/-- No trigger waits for the pass: it is in its first turn and the flag is down. -/
def Unasked (s : Scheduler) (p : Pass) : Prop :=
  p.turn = 0 ∧ ∀ job ∈ s.records[p.job]?, job.again = false

/-- Every trigger finds a fresh job, and a row is refused only to a pass no trigger waits for. -/
def Clear (nextRun : Cadence → Option Int → Int → Except String (Option Int)) (s : Scheduler) :
    Act → Prop
  | .trigger id _ => Fresh s id
  | .answered k now =>
      s.waiting[k]? = some .tickRead →
        FreshAll nextRun (s.takes k) now (tickFires nextRun (s.takes k) now)
  | .rejected id j => ∀ p ∈ passOf s id j, Unasked s p
  | _ => True

instance (s : Scheduler) : (a : Act) → Decidable (Clear nextRun s a)
  | .trigger id _ => inferInstanceAs (Decidable (Fresh s id))
  | .answered _ _ => inferInstanceAs (Decidable (_ = _ → FreshAll ..))
  | .rejected _ _ => inferInstanceAs (Decidable (∀ p ∈ passOf .., p.turn = 0 ∧ ∀ job ∈ _, _))
  | .register .. | .unregister _ | .tick _ | .failed .. | .upserted .. | .settled ..
  | .resumed .. => inferInstanceAs (Decidable True)

/-! ## One pass for each id -/

/-- A pass is the only one of its id and its record is busy; a busy record of the map has a
pass. -/
structure Sound (s : Scheduler) : Prop where
  single : (s.passes.map Pass.id).Nodup
  held : ∀ p ∈ s.passes, ∃ job, s.records[p.job]? = some job ∧ job.id = p.id ∧ job.busy = true
  listed : ∀ e ∈ s.jobs.rows, ∃ job, s.records[e.job]? = some job ∧ job.id = e.id ∧
    (job.busy = true → ∃ p ∈ s.passes, p.job = e.job)

namespace Sound

theorem start : Sound .start where
  single := List.nodup_nil
  held := fun _ mem => absurd mem List.not_mem_nil
  listed := fun _ mem => absurd mem List.not_mem_nil

theorem eq_of_id (sound : Sound s) (left : p ∈ s.passes) (right : q ∈ s.passes)
    (same : p.id = q.id) : p = q :=
  List.inj_on_of_nodup_map sound.single left right same

/-- A record is in one pass at most. -/
theorem eq_of_job (sound : Sound s) (left : p ∈ s.passes) (right : q ∈ s.passes)
    (same : p.job = q.job) : p = q := by
  obtain ⟨job, found, named, -⟩ := sound.held p left
  obtain ⟨job', found', named', -⟩ := sound.held q right
  rw [same, found', Option.some.injEq] at found
  subst found
  exact sound.eq_of_id left right (named.symm.trans named')

/-- The record the map has for an id. -/
theorem of_jobOf (sound : Sound s) (found : s.jobOf id = some (j, job)) :
    s.records[j]? = some job ∧ job.id = id ∧
      (job.busy = true → ∃ p ∈ s.passes, p.job = j ∧ p.id = id) := by
  obtain ⟨e, entry, mapped⟩ := Option.bind_eq_some_iff.1 found
  obtain ⟨job', record, both⟩ := Option.map_eq_some_iff.1 mapped
  obtain ⟨rfl, rfl⟩ := Prod.mk.inj both
  obtain ⟨named, mem⟩ := (Table.find_eq_some_iff.1 entry).symm
  obtain ⟨job'', record', key, busy⟩ := sound.listed e mem
  rw [record, Option.some.injEq] at record'
  subst record'
  refine ⟨record, key.trans named, fun raised => ?_⟩
  obtain ⟨p, passed, at_⟩ := busy raised
  obtain ⟨job'', record', key', -⟩ := sound.held p passed
  rw [at_, record, Option.some.injEq] at record'
  subst record'
  exact ⟨p, passed, at_, key'.symm.trans (key.trans named)⟩

end Sound

theorem records_setJob (f : Job → Job) (k : Nat) :
    (s.setJob j f).records[k]? = (s.records[k]?).map fun job => if j = k then f job else job :=
  List.getElem?_modify f j s.records k

namespace Sound

/-- Only the records, the map and the passes matter. -/
theorem congr (sound : Sound s) (records : s'.records = s.records) (jobs : s'.jobs = s.jobs)
    (passes : s'.passes = s.passes) : Sound s' where
  single := passes ▸ sound.single
  held := by
    rw [passes, records]
    exact sound.held
  listed := by
    rw [passes, records, jobs]
    exact sound.listed

theorem setJob (sound : Sound s) {f : Job → Job}
    (same : ∀ job, (f job).id = job.id ∧ (f job).busy = job.busy) : Sound (s.setJob j f) where
  single := sound.single
  held := by
    intro p mem
    obtain ⟨job, found, named, busy⟩ := sound.held p mem
    refine ⟨if j = p.job then f job else job, by rw [records_setJob, found]; rfl, ?_⟩
    split
    · exact ⟨(same job).1.trans named, (same job).2.trans busy⟩
    · exact ⟨named, busy⟩
  listed := by
    intro e mem
    obtain ⟨job, found, named, busy⟩ := sound.listed e mem
    refine ⟨if j = e.job then f job else job, by rw [records_setJob, found]; rfl, ?_⟩
    split
    · exact ⟨(same job).1.trans named, fun raised => busy ((same job).2.symm.trans raised)⟩
    · exact ⟨named, busy⟩

theorem setPass (sound : Sound s) {p' : Pass} (named : p'.id = p.id) (same : p'.job = p.job) :
    Sound (s.setPass p p') where
  single := by
    have ids : (s.setPass p p').passes.map Pass.id = s.passes.map Pass.id := by
      simp only [Scheduler.setPass, List.map_map]
      refine List.map_congr_left fun q _ => ?_
      by_cases this : q = p
      · simp [this, named]
      · simp [this]
    rw [ids]
    exact sound.single
  held := by
    intro q mem
    obtain ⟨r, earlier, rfl⟩ := List.mem_map.1 mem
    obtain ⟨job, found, key, busy⟩ := sound.held r earlier
    by_cases this : r = p
    · subst this
      exact ⟨job, by rw [if_pos rfl, same]; exact found, by rw [if_pos rfl, named]; exact key, busy⟩
    · rw [if_neg this]
      exact ⟨job, found, key, busy⟩
  listed := by
    intro e mem
    obtain ⟨job, found, key, busy⟩ := sound.listed e mem
    refine ⟨job, found, key, fun raised => ?_⟩
    obtain ⟨r, earlier, at_⟩ := busy raised
    refine ⟨if r = p then p' else r, List.mem_map.2 ⟨r, earlier, rfl⟩, ?_⟩
    split
    · next this => rw [same, ← this, at_]
    · exact at_

/-- The loop is left: the pass ends and the record's flag is down. -/
theorem rejected (sound : Sound s) (mem : p ∈ s.passes) : Sound (rejected s p) where
  single := sound.single.sublist (List.filter_sublist.map _)
  held := by
    intro q kept
    obtain ⟨earlier, other⟩ := List.mem_filter.1 kept
    obtain ⟨job, found, key, busy⟩ := sound.held q earlier
    have apart : p.job ≠ q.job := fun same =>
      (of_decide_eq_true other) (sound.eq_of_job earlier mem same.symm)
    refine ⟨job, ?_, key, busy⟩
    rw [Kiagent.Scheduling.rejected, records_setJob]
    show (s.records[q.job]?).map _ = _
    rw [found, Option.map_some, if_neg apart]
  listed := by
    intro e entry
    obtain ⟨job, found, key, busy⟩ := sound.listed e entry
    refine ⟨if p.job = e.job then { job with busy := false } else job, ?_, ?_, fun raised => ?_⟩
    · rw [Kiagent.Scheduling.rejected, records_setJob]
      show (s.records[e.job]?).map _ = _
      rw [found]
      rfl
    · split <;> exact key
    · by_cases at_ : p.job = e.job
      · rw [if_pos at_] at raised
        cases raised
      · rw [if_neg at_] at raised
        obtain ⟨q, passed, same⟩ := busy raised
        refine ⟨q, List.mem_filter.2 ⟨passed, decide_eq_true ?_⟩, same⟩
        rintro rfl
        exact at_ same

theorem setEntry (sound : Sound s) (idle : job.busy = false) (named : job.id = id) :
    Sound (s.setEntry id job) where
  single := sound.single
  held := by
    intro p mem
    obtain ⟨job', found, key, busy⟩ := sound.held p mem
    exact ⟨job', List.getElem?_append_left (List.getElem?_eq_some_iff.1 found).1 ▸ found, key, busy⟩
  listed := by
    intro e mem
    obtain rfl | earlier := Table.mem_put mem
    · refine ⟨job, ?_, named, fun raised => ?_⟩
      · exact List.getElem?_concat_length
      · rw [idle] at raised
        cases raised
    · obtain ⟨job', found, key, busy⟩ := sound.listed e earlier
      exact ⟨job', List.getElem?_append_left (List.getElem?_eq_some_iff.1 found).1 ▸ found, key,
        busy⟩

/-- A pass is begun for an id that has none. -/
theorem enterLoop (sound : Sound s) {row : Option ScheduleRow} (found : s.records[j]? = some job)
    (named : job.id = id) (alone : s.inFlight id = false) :
    Sound (enterLoop s id j row) where
  single := by
    simp only [Kiagent.Scheduling.enterLoop, List.map_append, List.map_cons, List.map_nil]
    refine List.nodup_append.2 ⟨sound.single, List.nodup_singleton _, ?_⟩
    intro other listed _ here
    obtain ⟨q, mem, rfl⟩ := List.mem_map.1 listed
    rw [List.mem_singleton] at here
    rw [here]
    simpa using List.any_eq_false.1 alone q mem
  held := by
    intro q mem
    rcases List.mem_append.1 mem with earlier | last
    · obtain ⟨job', record, key, busy⟩ := sound.held q earlier
      refine ⟨if j = q.job then { job' with busy := true, again := false } else job', ?_, ?_, ?_⟩
      · show (s.setJob j _).records[q.job]? = _
        rw [records_setJob, record]
        rfl
      · split <;> exact key
      · split
        · rfl
        · exact busy
    · rw [List.mem_singleton] at last
      subst last
      refine ⟨{ job with busy := true, again := false }, ?_, named, rfl⟩
      show (s.setJob j _).records[j]? = _
      rw [records_setJob, found, Option.map_some, if_pos rfl]
  listed := by
    intro e mem
    obtain ⟨job', record, key, busy⟩ := sound.listed e mem
    by_cases this : j = e.job
    · rw [← this, found, Option.some.injEq] at record
      subst record
      refine ⟨{ job with busy := true, again := false }, ?_, key, fun _ => ?_⟩
      · show (s.setJob j _).records[e.job]? = _
        rw [records_setJob, ← this, found, Option.map_some, if_pos rfl]
      · exact ⟨_, List.mem_append_right _ (List.mem_singleton.2 rfl), this⟩
    · refine ⟨job', ?_, key, fun raised => ?_⟩
      · show (s.setJob j _).records[e.job]? = _
        rw [records_setJob, record, Option.map_some, if_neg this]
      · obtain ⟨q, passed, same⟩ := busy raised
        exact ⟨q, List.mem_append_left _ passed, same⟩

theorem deleteEntry (sound : Sound s) : Sound (s.deleteEntry id) where
  single := sound.single
  held := sound.held
  listed := fun e mem => sound.listed e (Table.mem_eraseWhere.1 mem).1

/-- A trigger of a fresh job. -/
theorem fire (sound : Sound s) (fresh : Fresh s id) : Sound (fire nextRun s id now) := by
  rw [Kiagent.Scheduling.fire]
  split
  · exact sound
  · next j job found =>
      obtain ⟨record, named, -⟩ := sound.of_jobOf found
      have noted : Sound (s.note (.triggered id (s.inFlight id))) := sound.congr rfl rfl rfl
      show Sound (if _ then _ else _)
      split
      · exact noted.setJob fun job => ⟨rfl, rfl⟩
      · next idle =>
          have alone := (fresh (j, job) found).resolve_left idle
          exact noted.enterLoop record named alone

theorem fireAll (sound : Sound s) {ids : List String} (fresh : FreshAll nextRun s now ids) :
    Sound (fireAll nextRun s now ids) := by
  induction ids generalizing s with
  | nil => exact sound
  | cons id ids ih => exact ih (sound.fire fresh.1) fresh.2

end Sound

/-! ## What a trigger waits for -/

/-- A run was started and it settled. -/
def Followed (id : String) (later : List Event) : Prop :=
  ∃ n, .started id n ∈ later ∧ .finished id n ∈ later

def Again (s : Scheduler) (j : Nat) : Prop :=
  ∃ job, s.records[j]? = some job ∧ job.again = true

/-- The pass needs at most `k` more steps until a run that began in `later` is complete. -/
def Owes (s : Scheduler) (p : Pass) (later : List Event) (k : Nat) : Prop :=
  match p.stage with
  | .upserting _ => (Again s p.job ∨ 0 < p.turn) ∧ 2 ≤ k
  | .running n => (.started p.id n ∈ later ∧ 1 ≤ k) ∨ (Again s p.job ∧ 4 ≤ k)
  | .returned => Again s p.job ∧ 3 ≤ k

/-- A complete run of the id began in `later`, or its pass is going to make one. -/
def Owed (s : Scheduler) (id : String) (later : List Event) (k : Nat) : Prop :=
  Followed id later ∨ ∃ p ∈ s.passes, p.id = id ∧ Owes s p later k

variable {later new : List Event} {k k' : Nat}

theorem Followed.append (followed : Followed id later) : Followed id (later ++ new) := by
  obtain ⟨n, started, finished⟩ := followed
  exact ⟨n, List.mem_append_left _ started, List.mem_append_left _ finished⟩

theorem Owes.mono (owes : Owes s p later k) (again : Again s p.job → Again s' p.job)
    (le : k ≤ k') : Owes s' p (later ++ new) k' := by
  unfold Owes at owes ⊢
  cases stage : p.stage with
  | upserting row =>
      simp only [stage] at owes ⊢
      exact ⟨owes.1.imp_left again, by omega⟩
  | running n =>
      simp only [stage] at owes ⊢
      obtain ⟨started, enough⟩ | ⟨waits, enough⟩ := owes
      · exact .inl ⟨List.mem_append_left _ started, by omega⟩
      · exact .inr ⟨again waits, by omega⟩
  | returned =>
      simp only [stage] at owes ⊢
      exact ⟨again owes.1, by omega⟩

/-- Nothing is owed with no step left. -/
theorem Owed.followed (owed : Owed s id later 0) : Followed id later := by
  refine owed.resolve_right ?_
  rintro ⟨p, -, -, owes⟩
  unfold Owes at owes
  split at owes <;> omega

theorem Owed.followed_of_idle (owed : Owed s id later k) (idle : s.inFlight id = false) :
    Followed id later := by
  refine owed.resolve_right ?_
  rintro ⟨p, mem, named, -⟩
  exact absurd (decide_eq_true named) (List.any_eq_false.1 idle p mem)

theorem Owed.mono (owed : Owed s id later k) (le : k ≤ k') : Owed s id later k' := by
  obtain followed | ⟨p, mem, named, owes⟩ := owed
  · exact .inl followed
  · refine .inr ⟨p, mem, named, ?_⟩
    rw [← List.append_nil later]
    exact owes.mono (fun again => again) le

/-- A trigger during a pass is owed a complete run within four steps of the pass. -/
def Asked (s : Scheduler) (e : Event) (later : List Event) : Prop :=
  ∀ id, e = .triggered id true → Owed s id later 4

/-- From `s` to `s'` the trace grows by `new`.  What was owed still is, in `drop` fewer steps,
and the new triggers are owed their runs. -/
structure Carries (s s' : Scheduler) (drop : String → Nat) (new : List Event) : Prop where
  trace : s'.trace = s.trace ++ new
  owed : ∀ {id later k}, Owed s id later k → Owed s' id (later ++ new) (k - drop id)
  asked : Each (Asked s') new

namespace Carries

variable {s'' : Scheduler} {drop : String → Nat}

theorem trans {more : List Event} (first : Carries s s' (fun _ => 0) new)
    (second : Carries s' s'' drop more) : Carries s s'' drop (new ++ more) where
  trace := by rw [second.trace, first.trace, List.append_assoc]
  owed := fun owed => by
    rw [← List.append_assoc]
    exact second.owed (first.owed owed)
  asked := by
    refine each_append.2 ⟨first.asked.mono fun e later asked id triggered => ?_, second.asked⟩
    exact (second.owed (asked id triggered)).mono (Nat.sub_le ..)

/-- The triggers of a trace stay owed. -/
theorem keeps (carries : Carries s s' drop new) (each : Each (Asked s) s.trace) :
    Each (Asked s') s'.trace := by
  rw [carries.trace]
  refine each_append.2 ⟨each.mono fun e later asked id triggered => ?_, carries.asked⟩
  exact (carries.owed (asked id triggered)).mono (Nat.sub_le ..)

/-- Passes are only added and no flag of a pass goes down. -/
theorem of_more (trace : s'.trace = s.trace ++ new) (asked : Each (Asked s') new)
    (kept : ∀ p ∈ s.passes, p ∈ s'.passes ∧ (Again s p.job → Again s' p.job)) :
    Carries s s' (fun _ => 0) new where
  trace := trace
  owed := by
    rintro id later k (followed | ⟨p, mem, named, owes⟩)
    · exact .inl followed.append
    · exact .inr ⟨p, (kept p mem).1, named, owes.mono (kept p mem).2 (Nat.le_refl k)⟩
  asked := asked

/-- Nothing the passes read changes. -/
theorem of_same (trace : s'.trace = s.trace) (passes : s'.passes = s.passes)
    (records : ∀ p ∈ s.passes, s'.records[p.job]? = s.records[p.job]?) :
    Carries s s' (fun _ => 0) [] := by
  refine of_more (by rw [trace, List.append_nil]) trivial fun p mem => ?_
  rw [passes]
  refine ⟨mem, ?_⟩
  rintro ⟨job, found, raised⟩
  exact ⟨job, by rw [records p mem, found], raised⟩

end Carries

/-- The steps a pass of an id takes. -/
def Act.isPass (id : String) : Act → Bool
  | .upserted id' _ | .rejected id' _ | .settled id' _ _ | .resumed id' _ _ => id' = id
  | _ => false

/-- A pass goes one step. -/
theorem Carries.of_pass (sound : Sound s) (mem : p ∈ s.passes)
    (trace : s'.trace = s.trace ++ new) (asked : Each (Asked s') new)
    (others : ∀ q ∈ s.passes, q ≠ p → q ∈ s'.passes ∧ (Again s q.job → Again s' q.job))
    (own : ∀ later k, Owes s p later k → Owed s' p.id (later ++ new) (k - 1)) :
    Carries s s' (fun id => if p.id = id then 1 else 0) new where
  trace := trace
  owed := by
    rintro id later k (followed | ⟨q, passed, rfl, owes⟩)
    · exact .inl followed.append
    · by_cases this : q = p
      · subst this
        rw [if_pos rfl]
        exact own later k owes
      · have apart : p.id ≠ q.id := fun same => this (sound.eq_of_id passed mem same.symm)
        rw [if_neg apart]
        exact .inr ⟨q, (others q passed this).1, rfl,
          owes.mono (others q passed this).2 (Nat.le_refl k)⟩
  asked := asked

/-! ## What a step does -/

theorem mem_setPass {p' : Pass} : q ∈ (s.setPass p p').passes ↔
    ∃ r ∈ s.passes, (if r = p then p' else r) = q := List.mem_map

theorem setPass_self {p' : Pass} (mem : p ∈ s.passes) : p' ∈ (s.setPass p p').passes :=
  mem_setPass.2 ⟨p, mem, if_pos rfl⟩

theorem setPass_other {p' : Pass} (mem : q ∈ s.passes) (other : q ≠ p) :
    q ∈ (s.setPass p p').passes :=
  mem_setPass.2 ⟨q, mem, if_neg other⟩

theorem passOf_mem (found : passOf s id j = some p) : p ∈ s.passes ∧ p.id = id ∧ p.job = j := by
  refine ⟨List.mem_of_find?_eq_some found, ?_⟩
  simpa using List.find?_some found

/-- A raised flag is four steps away from what it asks for at most. -/
theorem owes_of_again (again : Again s p.job) : Owes s p later 4 := by
  unfold Owes
  split
  · exact ⟨.inl again, by omega⟩
  · exact .inr ⟨again, by omega⟩
  · exact ⟨again, by omega⟩

/-- An update of one record is not seen by the pass of another. -/
theorem again_setJob {f : Job → Job} (apart : j ≠ k) : Again (s.setJob j f) k ↔ Again s k := by
  simp only [Again, records_setJob, if_neg apart, Option.map_id']

theorem fire_carries (sound : Sound s) (fresh : Fresh s id) :
    ∃ new, Carries s (fire nextRun s id now) (fun _ => 0) new := by
  rw [fire]
  split
  · exact ⟨[], .of_same rfl rfl fun _ _ => rfl⟩
  · next j job found =>
      obtain ⟨record, named, busy⟩ := sound.of_jobOf found
      refine ⟨[.triggered id (s.inFlight id)], ?_⟩
      show Carries s (if _ then _ else _) _ _
      split
      · next raised =>
          -- the pass of the record will see the flag
          obtain ⟨p, mem, at_, here⟩ := busy raised
          refine .of_more rfl ⟨fun id' triggered => ?_, trivial⟩ fun q passed => ⟨passed, ?_⟩
          · obtain ⟨rfl, -⟩ := Event.triggered.inj triggered
            refine .inr ⟨p, mem, here, owes_of_again ⟨{ job with again := true }, ?_, rfl⟩⟩
            rw [records_setJob, at_]
            show (s.records[j]?).map _ = _
            rw [record, Option.map_some, if_pos rfl]
          · rintro ⟨job', found', raised'⟩
            refine ⟨if j = q.job then { job' with again := true } else job', ?_, ?_⟩
            · rw [records_setJob]
              show (s.records[q.job]?).map _ = _
              rw [found']
              rfl
            · split
              · rfl
              · exact raised'
      · next idle =>
          have alone := (fresh (j, job) found).resolve_left idle
          refine .of_more rfl ⟨fun id' triggered => ?_, trivial⟩ fun q passed => ?_
          · obtain ⟨-, during⟩ := Event.triggered.inj triggered
            rw [alone] at during
            cases during
          · have apart : j ≠ q.job := by
              rintro rfl
              obtain ⟨job', record', -, raised⟩ := sound.held q passed
              rw [record, Option.some.injEq] at record'
              exact idle (record' ▸ raised)
            refine ⟨List.mem_append_left _ passed, fun again => ?_⟩
            exact (again_setJob apart).2 again

theorem fireAll_carries (sound : Sound s) {ids : List String}
    (fresh : FreshAll nextRun s now ids) :
    ∃ new, Carries s (fireAll nextRun s now ids) (fun _ => 0) new := by
  induction ids generalizing s with
  | nil => exact ⟨[], .of_same rfl rfl fun _ _ => rfl⟩
  | cons id ids ih =>
      obtain ⟨new, first⟩ : ∃ new, Carries s (fire nextRun s id now) (fun _ => 0) new :=
        fire_carries sound fresh.1
      obtain ⟨more, rest⟩ := ih (sound.fire fresh.1) fresh.2
      exact ⟨new ++ more, first.trans rest⟩

theorem upserted_carries (sound : Sound s) (mem : p ∈ s.passes) {row : ScheduleRow}
    (stage : p.stage = .upserting (some row)) :
    Carries s (upserted s p row) (fun id => if p.id = id then 1 else 0)
      [.started p.id s.runs] := by
  refine .of_pass sound mem rfl ⟨fun _ other => absurd other (by simp), trivial⟩
    (fun q passed other => ⟨setPass_other passed other, fun again => again⟩) fun later k owes => ?_
  unfold Owes at owes
  simp only [stage] at owes
  refine .inr ⟨{ p with stage := .running s.runs }, setPass_self mem, rfl, ?_⟩
  exact .inl ⟨List.mem_append_right _ (List.mem_singleton.2 rfl), by omega⟩

theorem settled_carries (sound : Sound s) (mem : p ∈ s.passes) {n : Nat} {error : Option String}
    (stage : p.stage = .running n) :
    Carries s (settled s p n error) (fun id => if p.id = id then 1 else 0)
      [.finished p.id n] := by
  have plain : Carries s ((s.setPass p { p with stage := .returned }).note (.finished p.id n))
      (fun id => if p.id = id then 1 else 0) [.finished p.id n] := by
    refine .of_pass sound mem rfl ⟨fun _ other => absurd other (by simp), trivial⟩
      (fun q passed other => ⟨setPass_other passed other, fun again => again⟩) fun later k owes => ?_
    unfold Owes at owes
    simp only [stage] at owes
    obtain ⟨started, enough⟩ | ⟨again, enough⟩ := owes
    · exact .inl ⟨n, List.mem_append_left _ started,
        List.mem_append_right _ (List.mem_singleton.2 rfl)⟩
    · exact .inr ⟨{ p with stage := .returned }, setPass_self mem, rfl, again, by omega⟩
  cases error with
  | none => exact plain
  | some text => exact ⟨plain.trace, plain.owed, plain.asked⟩

/-- The loop is left while no trigger waits for the pass. -/
theorem rejected_carries (sound : Sound s) (mem : p ∈ s.passes)
    (nothing : ∀ later k, ¬ Owes s p later k) :
    Carries s (rejected s p) (fun id => if p.id = id then 1 else 0) [] := by
  refine .of_pass sound mem (List.append_nil _).symm trivial (fun q passed other => ⟨?_, ?_⟩)
    fun later k owes => absurd owes (nothing later k)
  · exact List.mem_filter.2 ⟨passed, decide_eq_true other⟩
  · have apart : p.job ≠ q.job := fun same => other (sound.eq_of_job passed mem same.symm)
    exact (again_setJob apart).2

theorem resumed_carries (sound : Sound s) (mem : p ∈ s.passes) (stage : p.stage = .returned)
    (found : s.records[p.job]? = some job) :
    Carries s (resumed nextRun s p job now) (fun id => if p.id = id then 1 else 0) [] := by
  rw [resumed]
  split
  · refine .of_pass sound mem (List.append_nil _).symm trivial (fun q passed other => ⟨?_, ?_⟩)
      fun later k owes => ?_
    · exact setPass_other passed other
    · have apart : p.job ≠ q.job := fun same => other (sound.eq_of_job passed mem same.symm)
      exact (again_setJob apart).2
    · unfold Owes at owes
      simp only [stage] at owes
      exact .inr ⟨_, setPass_self mem, rfl, .inr (Nat.succ_pos _), by omega⟩
  · next down =>
      refine rejected_carries sound mem fun later k owes => ?_
      unfold Owes at owes
      simp only [stage] at owes
      obtain ⟨⟨job', found', raised⟩, -⟩ := owes
      rw [found, Option.some.injEq] at found'
      exact down (found' ▸ raised)

theorem upserted_sound (sound : Sound s) {row : ScheduleRow} : Sound (upserted s p row) :=
  Sound.congr (s := s.setPass p { p with stage := .running s.runs }) (sound.setPass rfl rfl)
    rfl rfl rfl

theorem settled_sound (sound : Sound s) {n : Nat} {error : Option String} :
    Sound (settled s p n error) := by
  have plain : Sound (s.setPass p { p with stage := .returned }) := sound.setPass rfl rfl
  cases error <;> exact plain.congr rfl rfl rfl

theorem resumed_sound (sound : Sound s) (mem : p ∈ s.passes) :
    Sound (resumed nextRun s p job now) := by
  rw [resumed]
  split
  · refine Sound.setJob (sound.setPass ?_ ?_) fun job => ⟨?_, ?_⟩ <;> rfl
  · exact sound.rejected mem

/-- The answers of the store to the other calls. -/
theorem answer_step (sound : Sound s) (w : Waiting)
    (fresh : w = .tickRead → FreshAll nextRun s now (tickFires nextRun s now)) :
    Sound (answer nextRun s now w) ∧ ∃ new, Carries s (answer nextRun s now w) (fun _ => 0) new := by
  cases w with
  | registerRead id cadence =>
      rw [answer]
      split
      · exact ⟨sound.congr rfl rfl rfl, [], .of_same rfl rfl fun _ _ => rfl⟩
      · exact ⟨sound, [], .of_same rfl rfl fun _ _ => rfl⟩
  | registerWrite row => exact ⟨sound.congr rfl rfl rfl, [], .of_same rfl rfl fun _ _ => rfl⟩
  | deleteRow id => exact ⟨sound.congr rfl rfl rfl, [], .of_same rfl rfl fun _ _ => rfl⟩
  | tickRead =>
      have fired := sound.fireAll (fresh rfl)
      obtain ⟨new, carries⟩ := fireAll_carries sound (fresh rfl)
      rw [answer]
      split
      · exact ⟨fired.congr rfl rfl rfl, new, carries.trace, carries.owed, carries.asked⟩
      · exact ⟨fired, new, carries⟩

/-- **What one step does to the passes and to what they owe.** -/
theorem step_carries {a : Act} (sound : Sound s) (clear : Clear nextRun s a)
    (took : step nextRun s a = some s') :
    Sound s' ∧ ∃ new, Carries s s' (fun id => if a.isPass id then 1 else 0) new := by
  cases a with
  | register id cadence run =>
      obtain rfl := Option.some.inj took
      have set : Sound (s.setEntry id (newJob id cadence run)) := sound.setEntry rfl rfl
      refine ⟨set.congr rfl rfl rfl, [], .of_same rfl rfl fun p mem => ?_⟩
      obtain ⟨job, found, -⟩ := sound.held p mem
      exact List.getElem?_append_left (List.getElem?_eq_some_iff.1 found).1
  | unregister id =>
      obtain rfl := Option.some.inj took
      have gone : Sound (s.deleteEntry id) := sound.deleteEntry
      exact ⟨gone.congr rfl rfl rfl, [], .of_same rfl rfl fun _ _ => rfl⟩
  | trigger id now =>
      obtain rfl := Option.some.inj took
      exact ⟨sound.fire clear, fire_carries sound clear⟩
  | tick env =>
      rw [step] at took
      split at took
      · obtain rfl := Option.some.inj took
        exact ⟨sound, [], .of_same rfl rfl fun _ _ => rfl⟩
      · obtain rfl := Option.some.inj took
        exact ⟨sound.congr rfl rfl rfl, [], .of_same rfl rfl fun _ _ => rfl⟩
  | answered k now =>
      obtain ⟨w, waits, rfl⟩ := Option.map_eq_some_iff.1 took
      have taken : Sound (s.takes k) := sound.congr rfl rfl rfl
      obtain ⟨kept, new, carries⟩ := answer_step taken w fun tick => clear (tick ▸ waits)
      have first : Carries s (s.takes k) (fun _ => 0) [] := .of_same rfl rfl fun _ _ => rfl
      exact ⟨kept, new, first.trans carries⟩
  | failed k text =>
      obtain ⟨w, waits, rfl⟩ := Option.map_eq_some_iff.1 took
      cases w <;> exact ⟨sound.congr rfl rfl rfl, [], .of_same rfl rfl fun _ _ => rfl⟩
  | upserted id j =>
      rw [step] at took
      split at took
      · next p found =>
          obtain ⟨mem, rfl, rfl⟩ := passOf_mem found
          split at took
          · next row stage =>
              obtain rfl := Option.some.inj took
              exact ⟨upserted_sound sound, _, by
                simpa [Act.isPass] using upserted_carries sound mem stage⟩
          · cases took
      · cases took
  | rejected id j =>
      rw [step] at took
      split at took
      · next p found =>
          have unasked := clear p found
          obtain ⟨mem, rfl, rfl⟩ := passOf_mem found
          split at took
          · next row stage =>
              obtain rfl := Option.some.inj took
              have nothing : ∀ later k, ¬ Owes s p later k := by
                intro later k owes
                unfold Owes at owes
                simp only [stage] at owes
                obtain ⟨⟨job, record, raised⟩ | turned, -⟩ := owes
                · rw [unasked.2 job record] at raised
                  cases raised
                · have := unasked.1
                  omega
              exact ⟨sound.rejected mem, _, by
                simpa [Act.isPass] using rejected_carries sound mem nothing⟩
          · cases took
      · cases took
  | settled id j error =>
      rw [step] at took
      split at took
      · next p found =>
          obtain ⟨mem, rfl, rfl⟩ := passOf_mem found
          split at took
          · next n stage =>
              obtain rfl := Option.some.inj took
              exact ⟨settled_sound sound, _, by
                simpa [Act.isPass] using settled_carries sound mem stage⟩
          · cases took
      · cases took
  | resumed id j now =>
      rw [step] at took
      split at took
      · next p job found record =>
          obtain ⟨mem, rfl, rfl⟩ := passOf_mem found
          split at took
          · next stage =>
              obtain rfl := Option.some.inj took
              exact ⟨resumed_sound sound mem, _, by
                simpa [Act.isPass] using resumed_carries sound mem stage record⟩
          · cases took
      · cases took

/-! ## Runs -/

theorem run_sound {as : List Act} (along : Along (step nextRun) (Clear nextRun) .start as)
    (ran : runSteps (step nextRun) .start as = some s) :
    Sound s ∧ Each (Asked s) s.trace := by
  refine run_keeps (I := fun s => Sound s ∧ Each (Asked s) s.trace) ?_ ⟨.start, trivial⟩ along ran
  rintro s a s' ⟨sound, each⟩ clear took
  obtain ⟨kept, new, carries⟩ := step_carries sound clear took
  exact ⟨kept, carries.keeps each⟩

/-- What is owed comes nearer with each step of the pass. -/
theorem run_owed {as : List Act} (sound : Sound s)
    (along : Along (step nextRun) (Clear nextRun) s as)
    (ran : runSteps (step nextRun) s as = some s') (owed : Owed s id later k) :
    ∃ more, s'.trace = s.trace ++ more ∧
      Owed s' id (later ++ more) (k - as.countP (Act.isPass id)) := by
  induction as generalizing s later k with
  | nil =>
      obtain rfl := Option.some.inj ran
      exact ⟨[], by simp, by simpa using owed⟩
  | cons a as ih =>
      obtain ⟨middle, first, rest⟩ := runSteps_cons.1 ran
      obtain ⟨kept, new, carries⟩ := step_carries sound along.1 first
      obtain ⟨more, grown, still⟩ := ih kept (along.2 middle first) rest (carries.owed owed)
      refine ⟨new ++ more, by rw [grown, carries.trace, List.append_assoc], ?_⟩
      rw [← List.append_assoc, List.countP_cons]
      refine still.mono (le_of_eq ?_)
      omega

/-- There is one run of an id at most. -/
theorem Sound.runsOf_le (sound : Sound s) : (s.runsOf id).length ≤ 1 := by
  have once := List.nodup_iff_count_le_one.1 sound.single id
  rw [List.count, List.countP_map] at once
  rw [Scheduler.runsOf, ← List.countP_eq_length_filter]
  refine le_trans (List.countP_mono_left fun p _ both => ?_) once
  simp only [Function.comp, beq_iff_eq]
  exact (of_decide_eq_true both).1

/-- A pass in flight has a next step that meets the condition, unless its row could not be
computed. -/
theorem Sound.moves (sound : Sound s) (mem : p ∈ s.passes) (computed : p.stage ≠ .upserting none) :
    ∃ a, a.isPass p.id = true ∧ Clear nextRun s a ∧ (step nextRun s a).isSome = true := by
  obtain ⟨job, record, -⟩ := sound.held p mem
  have found : passOf s p.id p.job = some p := by
    cases other : passOf s p.id p.job with
    | none =>
        have unlike := List.find?_eq_none.1 other p mem
        simp at unlike
    | some q =>
        obtain ⟨passed, same, -⟩ := passOf_mem other
        rw [sound.eq_of_id passed mem same]
  cases stage : p.stage with
  | upserting row =>
      obtain ⟨row, rfl⟩ := Option.ne_none_iff_exists'.1 fun none => computed (none ▸ stage)
      exact ⟨.upserted p.id p.job, by simp [Act.isPass], trivial, by simp [step, found, stage]⟩
  | running n =>
      exact ⟨.settled p.id p.job none, by simp [Act.isPass], trivial,
        by simp [step, found, stage]⟩
  | returned =>
      exact ⟨.resumed p.id p.job 0, by simp [Act.isPass], trivial,
        by simp [step, found, stage, record]⟩

/-- **Runs of a job, and runs after triggers.** Where every trigger finds a fresh job and no row
is refused to a pass that a trigger waits for, an id has one run in flight at most.  A trigger
during a pass is followed by a complete run that starts after it, once the pass has made four
more steps or has ended; and while it is in flight it has a next step, unless no row could be
computed for it. -/
theorem coalesces {as : List Act}
    (along : Along (step nextRun) (Clear nextRun) .start as)
    (ran : runSteps (step nextRun) .start as = some s) :
    (∀ id, (s.runsOf id).length ≤ 1) ∧
      (∀ p ∈ s.passes, p.stage ≠ .upserting none →
        ∃ a, a.isPass p.id = true ∧ Clear nextRun s a ∧ (step nextRun s a).isSome = true) ∧
      ∀ id before after, s.trace = before ++ .triggered id true :: after →
        ∀ bs s', Along (step nextRun) (Clear nextRun) s bs →
          runSteps (step nextRun) s bs = some s' →
          4 ≤ bs.countP (Act.isPass id) ∨ s'.inFlight id = false →
          ∃ more, s'.trace = s.trace ++ more ∧ Followed id (after ++ more) := by
  obtain ⟨sound, each⟩ := run_sound along ran
  refine ⟨fun id => sound.runsOf_le, fun p => sound.moves, ?_⟩
  intro id before after split bs s' later went enough
  rw [split] at each
  obtain ⟨more, grown, owed⟩ := run_owed sound later went (each.of_split id rfl)
  refine ⟨more, grown, ?_⟩
  rcases enough with steps | ended
  · rw [Nat.sub_eq_zero_of_le steps] at owed
    exact owed.followed
  · exact owed.followed_of_idle ended

/-- A cadence of a quarter of an hour. -/
def quarterly (cadence : Cadence) (lastRun : Option Int) (now : Int) :
    Except String (Option Int) :=
  match cadence with
  | .every _ => .ok (some (max now (lastRun.getD 0 + 900000)))
  | .cron expr => .error ("cron never fires: " ++ expr)
  | .manual => .ok none

/-- A job is triggered, and again during its run. -/
def triggeredTwice : List Act :=
  [.register "worker:vision" (.every "15m") "redrive", .answered 0 0, .trigger "worker:vision" 1,
    .upserted "worker:vision" 0, .trigger "worker:vision" 2]

/-- The pass goes on to its end. -/
def followUp : List Act :=
  [.settled "worker:vision" 0 none, .resumed "worker:vision" 0 3, .upserted "worker:vision" 0,
    .settled "worker:vision" 0 (some "no model"), .resumed "worker:vision" 0 4]

theorem coalesces_twice : ∃ s ∈ runSteps (step quarterly) .start triggeredTwice,
    ∃ s' ∈ runSteps (step quarterly) s followUp, (s.runsOf "worker:vision").length ≤ 1 ∧
      ∃ more, s'.trace = s.trace ++ more ∧ Followed "worker:vision" more := by
  obtain ⟨s, ran, traced, later⟩ : ∃ s ∈ runSteps (step quarterly) .start triggeredTwice,
      s.trace = [.triggered "worker:vision" false, .started "worker:vision" 0] ++
        .triggered "worker:vision" true :: [] ∧
      Along (step quarterly) (Clear quarterly) s followUp ∧
      (runSteps (step quarterly) s followUp).isSome = true := by decide +kernel
  obtain ⟨s', went⟩ := Option.isSome_iff_exists.1 later.2
  have kept := coalesces (by decide +kernel) ran
  refine ⟨s, ran, s', went, kept.1 _, ?_⟩
  simpa using kept.2.2 _ _ _ traced followUp s' later.1 went (.inl (by decide +kernel))

/-- A job is registered anew during its run, and a trigger comes. -/
def registeredAnew : List Act :=
  [.register "source:imap:a" (.every "15m") "pull", .trigger "source:imap:a" 1,
    .upserted "source:imap:a" 0, .register "source:imap:a" (.every "15m") "pull",
    .trigger "source:imap:a" 2, .upserted "source:imap:a" 1]

/-- A trigger comes during a run, and the row of the next turn is refused. -/
def refusedTurn : List Act :=
  [.register "worker:audio" .manual "redrive", .trigger "worker:audio" 1,
    .upserted "worker:audio" 0, .trigger "worker:audio" 2, .settled "worker:audio" 0 none,
    .resumed "worker:audio" 0 3, .rejected "worker:audio" 0]

/-- **Two runs at once, and a trigger without a run.** -/
theorem doubles_and_loses :
    (∃ s ∈ runSteps (step quarterly) .start registeredAnew,
      (s.runsOf "source:imap:a").length = 2) ∧
    ∃ s ∈ runSteps (step quarterly) .start refusedTurn, ∃ before after,
      s.trace = before ++ .triggered "worker:audio" true :: after ∧
        s.inFlight "worker:audio" = false ∧ ¬ Followed "worker:audio" after := by
  refine ⟨by decide +kernel, ?_⟩
  obtain ⟨s, ran, traced, idle⟩ : ∃ s ∈ runSteps (step quarterly) .start refusedTurn,
      s.trace = [.triggered "worker:audio" false, .started "worker:audio" 0] ++
        .triggered "worker:audio" true :: [.finished "worker:audio" 0] ∧
      s.inFlight "worker:audio" = false := by decide +kernel
  refine ⟨s, ran, _, _, traced, idle, ?_⟩
  rintro ⟨n, started, -⟩
  simp at started

end Kiagent.Scheduling
