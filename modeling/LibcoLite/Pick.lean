import LibcoLite.Sched

/-!
# The scans of a call of `pick`

A call of `pick` scans the table, walks, and scans again while it has found nothing. Its
scans read the clock once for each sleeping task they come to. Here the scans and the
examinations of a call are named, and `pick` is specified by them: when it returns, what it
returns and which tasks it wakes. The table is any one in which each occupied slot holds the
live task whose id it is.
-/

namespace LibcoLite

open Transition (bind_eq_ok)

/-- Each occupied slot holds a live task with the slot as its id, and the current task is in
the table. -/
structure Tabled (s : State) : Prop where
  /-- The task of a slot has the slot as its id. -/
  slots : ∀ i p, s.task i = some p → i < nrTasks ∧ s.live p = true ∧ (s.tasks p).id = i
  /-- The current task sits in its slot. -/
  current : s.task (s.tasks s.current).id = some s.current

/-- The first loop of `pick` up to a slot. -/
def scanTo (i : Nat) (s : State) : Except Stop State :=
  (List.range i).foldlM wakeSlot s

/-- A scan started in `s` comes to slot `i` in state `u` and finds the task `p` asleep. It then
takes the reading `u.readings` of the clock and compares it with the task's `wakeuptime`. -/
structure Examines (s : State) (i : Nat) (p : TaskPtr) (u : State) : Prop where
  /-- The slot is one of the table. -/
  bound : i < nrTasks
  /-- The loop comes to the slot. -/
  reaches : scanTo i s = .ok u
  /-- The slot is occupied. -/
  slot : u.task i = some p
  /-- The task is asleep. -/
  asleep : (u.tasks p).status = .sleep

/-- The reading taken for a task is greater than its `wakeuptime`. -/
def Late (p : TaskPtr) (u : State) : Prop := (getmstime u).1 > (u.tasks p).wakeuptime

/-- A call of `pick` in `s` begins a scan in `t`: the first one, or one more after a scan and
a walk that have found no task to return. -/
inductive Scans (s : State) : State → Prop where
  /-- The first scan. -/
  | first : Scans s s
  /-- The jump to `repeat`. -/
  | again (t t' : State) : Scans s t → scan t = .ok t' →
      findNext t' (t.tasks t.current).id nrTasks (t.tasks t.current).id = .ok none →
      (t'.tasks t'.current).status ≠ .running → Scans s t'

/-- One of the scans of a call of `pick` in `s` takes a reading for the task that is greater
than its `wakeuptime`. -/
def Seen (s : State) (p : TaskPtr) : Prop :=
  ∃ t i u, Scans s t ∧ Examines t i p u ∧ Late p u

/-- A call of `pick` returns. -/
def Returns (s : State) : Prop := ∃ rounds s' p, pick rounds s = .ok (s', p)

namespace Tabled

variable {s s' : State}

theorem tableLive (tabled : Tabled s) : TableLive s :=
  fun i p slot => (tabled.slots i p slot).2.1

theorem seated (tabled : Tabled s) : Seated s where
  alive := (tabled.slots _ _ tabled.current).2.1
  bound := (tabled.slots _ _ tabled.current).1
  slot := tabled.current

/-- A task sits in one slot only. -/
theorem unique (tabled : Tabled s) {i j : Nat} {p : TaskPtr} (first : s.task i = some p)
    (second : s.task j = some p) : i = j :=
  (tabled.slots i p first).2.2.symm.trans (tabled.slots j p second).2.2

/-- Waking leaves the table as it is. -/
theorem woken (tabled : Tabled s) (woken : Woken s s') : Tabled s' := by
  constructor
  · intro i p slot
    rw [woken.env] at slot
    rw [woken.live, woken.fields]
    exact tabled.slots i p slot
  · rw [woken.fields, woken.env]
    exact tabled.current

end Tabled

/-! ## One scan -/

instance (p : TaskPtr) (u : State) : Decidable (Late p u) :=
  inferInstanceAs (Decidable ((getmstime u).1 > (u.tasks p).wakeuptime))

variable {s u v : State} {i j : Nat} {p : TaskPtr}

/-- The scan takes a reading for the task of its slot exactly when that task is asleep. -/
theorem wakeSlot_cases (table : TableLive u) (i : Nat) :
    (∃ p, u.task i = some p ∧ (u.tasks p).status = .sleep ∧
      wakeSlot u i = .ok (if Late p u then
        (getmstime u).2.modify p fun tsk => { tsk with status := .running }
        else (getmstime u).2)) ∨
    (∀ p, u.task i = some p → (u.tasks p).status ≠ .sleep) ∧ wakeSlot u i = .ok u := by
  unfold wakeSlot
  cases slot : u.task i with
  | none => exact .inr ⟨by simp, rfl⟩
  | some p =>
    have found : u.deref p = .ok (u.tasks p) := by simp [State.deref, table i p slot]
    simp only [found, bind, Except.bind]
    by_cases asleep : (u.tasks p).status = .sleep
    · left
      refine ⟨p, rfl, asleep, ?_⟩
      rw [if_pos asleep]
      by_cases late : Late p u
      · rw [if_pos late]
        exact if_pos late
      · rw [if_neg late]
        exact if_neg late
    · right
      rw [if_neg asleep]
      constructor
      · intro q held
        rw [← Option.some.inj held]
        exact asleep
      · rfl

/-- A scan goes on slot by slot. -/
theorem scanTo_succ : scanTo (i + 1) s = scanTo i s >>= fun u => wakeSlot u i := by
  unfold scanTo
  rw [List.range_succ, List.foldlM_append]
  simp only [List.foldlM_cons, List.foldlM_nil, bind_pure]

/-- A scan of live tasks comes to every slot. -/
theorem scanTo_spec (table : TableLive s) (i : Nat) :
    ∃ u, scanTo i s = .ok u ∧ Woken s u :=
  foldlM_wakeSlot_spec table _

/-- A scan that has come to a slot has come to the slot before. -/
theorem scanTo_before (reached : scanTo (i + 1) s = .ok u) :
    ∃ v, scanTo i s = .ok v ∧ wakeSlot v i = .ok u := by
  rw [scanTo_succ] at reached
  exact bind_eq_ok.mp reached

/-- What a scan has done when it comes to a slot is waking. -/
theorem scanTo_changes (table : TableLive s) (reached : scanTo i s = .ok u) : Woken s u := by
  obtain ⟨u', ok, woken⟩ := scanTo_spec table i
  rw [← Except.ok.inj (ok.symm.trans reached)]
  exact woken

/-- A step of the scan changes the task of its own slot only. -/
theorem wakeSlot_other (table : TableLive v) (taken : wakeSlot v i = .ok u)
    (other : v.task i ≠ some p) : u.tasks p = v.tasks p := by
  rcases wakeSlot_cases table i with ⟨q, slot, _, ok⟩ | ⟨_, ok⟩
  · have different : p ≠ q := by
      rintro rfl
      exact other slot
    rw [← Except.ok.inj (ok.symm.trans taken)]
    split
    · simp [State.modify, getmstime, Function.update_of_ne different]
    · rfl
  · rw [← Except.ok.inj (ok.symm.trans taken)]

/-- A scan has not changed the tasks of the slots before it. -/
theorem scanTo_ahead (tabled : Tabled s) (reached : scanTo i s = .ok u)
    (slot : s.task j = some p) (ahead : i ≤ j) : u.tasks p = s.tasks p := by
  induction i generalizing u with
  | zero =>
    cases reached
    rfl
  | succ i ih =>
    obtain ⟨v, before, taken⟩ := scanTo_before reached
    have woken := scanTo_changes tabled.tableLive before
    rw [← ih before (by omega)]
    apply wakeSlot_other (tabled.tableLive.woken woken) taken
    intro held
    rw [woken.env] at held
    have same := tabled.unique held slot
    omega

/-- A scan has changed those tasks only for which it has taken a late reading. -/
theorem scanTo_late (tabled : Tabled s) (reached : scanTo i s = .ok u) (p : TaskPtr) :
    u.tasks p = s.tasks p ∨ ∃ j v, j < i ∧ Examines s j p v ∧ Late p v := by
  induction i generalizing u with
  | zero =>
    cases reached
    exact .inl rfl
  | succ i ih =>
    obtain ⟨v, before, taken⟩ := scanTo_before reached
    have woken := scanTo_changes tabled.tableLive before
    have tabled' := tabled.woken woken
    rcases ih before with same | ⟨j, w, earlier, examines, late⟩
    case inr => exact .inr ⟨j, w, by omega, examines, late⟩
    rw [← same]
    by_cases held : v.task i = some p
    · rcases wakeSlot_cases tabled'.tableLive i with ⟨q, slot, asleep, ok⟩ | ⟨_, ok⟩
      · obtain rfl := Option.some.inj (slot.symm.trans held)
        by_cases late : Late q v
        · have bound := (tabled'.slots i q slot).1
          exact .inr ⟨i, v, by omega, ⟨bound, before, slot, asleep⟩, late⟩
        · rw [if_neg late] at ok
          rw [← Except.ok.inj (ok.symm.trans taken)]
          exact .inl rfl
      · rw [← Except.ok.inj (ok.symm.trans taken)]
        exact .inl rfl
    · exact .inl (wakeSlot_other tabled'.tableLive taken held)

/-- A scan wakes each task for which it has taken a late reading. -/
theorem scanTo_wakes (tabled : Tabled s) (reached : scanTo i s = .ok u)
    (examines : Examines s j p v) (late : Late p v) (behind : j < i) :
    (u.tasks p).status = .running := by
  induction i generalizing u with
  | zero => omega
  | succ i ih =>
    obtain ⟨w, before, taken⟩ := scanTo_before reached
    have table := tabled.tableLive.woken (scanTo_changes tabled.tableLive before)
    by_cases earlier : j < i
    · have running := ih before earlier
      obtain ⟨u', ok, woken⟩ := wakeSlot_spec table i
      rw [← Except.ok.inj (ok.symm.trans taken), woken.status (by simp [running])]
      exact running
    · obtain rfl : j = i := by omega
      obtain rfl := Except.ok.inj (before.symm.trans examines.reaches)
      rcases wakeSlot_cases table j with ⟨q, slot, _, ok⟩ | ⟨awake, _⟩
      · obtain rfl := Option.some.inj (slot.symm.trans examines.slot)
        rw [if_pos late] at ok
        rw [← Except.ok.inj (ok.symm.trans taken)]
        simp [State.modify]
      · exact absurd examines.asleep (awake p examines.slot)

/-- The clock readings of a scan are taken one after the other. -/
theorem scanTo_readings (table : TableLive s) (reached : scanTo i s = .ok u) :
    s.readings ≤ u.readings ∧ ∀ j p v, j < i → Examines s j p v → v.readings < u.readings := by
  induction i generalizing u with
  | zero =>
    cases reached
    exact ⟨Nat.le_refl _, by omega⟩
  | succ i ih =>
    obtain ⟨w, before, taken⟩ := scanTo_before reached
    obtain ⟨grows, earlier⟩ := ih before
    have table' := table.woken (scanTo_changes table before)
    rcases wakeSlot_cases table' i with ⟨q, slot, _, ok⟩ | ⟨awake, ok⟩
    · have one : u.readings = w.readings + 1 := by
        rw [← Except.ok.inj (ok.symm.trans taken)]
        split <;> rfl
      constructor
      · omega
      · intro j p v behind examines
        by_cases last : j < i
        · have := earlier j p v last examines
          omega
        · obtain rfl : j = i := by omega
          obtain rfl := Except.ok.inj (before.symm.trans examines.reaches)
          omega
    · obtain rfl := Except.ok.inj (ok.symm.trans taken)
      constructor
      · exact grows
      · intro j p v behind examines
        by_cases last : j < i
        · exact earlier j p v last examines
        · obtain rfl : j = i := by omega
          obtain rfl := Except.ok.inj (before.symm.trans examines.reaches)
          exact absurd examines.asleep (awake p examines.slot)

/-- A task that is asleep when a scan comes to it was asleep before the scan. -/
theorem Examines.before (examines : Examines s i p u) (tabled : Tabled s) :
    s.task i = some p ∧ u.tasks p = s.tasks p := by
  have woken := scanTo_changes tabled.tableLive examines.reaches
  have slot : s.task i = some p := by
    rw [← examines.slot, woken.env]
  exact ⟨slot, scanTo_ahead tabled examines.reaches slot (Nat.le_refl i)⟩

/-- A scan takes one reading at most for a task. -/
theorem Examines.unique (first : Examines s i p u) (second : Examines s j p v)
    (tabled : Tabled s) : u = v := by
  obtain rfl : i = j := tabled.unique (first.before tabled).1 (second.before tabled).1
  exact Except.ok.inj (first.reaches.symm.trans second.reaches)

/-- A sleeping task in the table is examined by every scan. -/
theorem examines_of_asleep (tabled : Tabled s) (slot : s.task i = some p)
    (asleep : (s.tasks p).status = .sleep) : ∃ u, Examines s i p u := by
  obtain ⟨u, reached, woken⟩ := scanTo_spec tabled.tableLive i
  refine ⟨u, (tabled.slots i p slot).1, reached, ?_, ?_⟩
  · rw [woken.env]
    exact slot
  · rw [scanTo_ahead tabled reached slot (Nat.le_refl i)]
    exact asleep

/-- A scan makes a task it examines running exactly when the reading is late. -/
theorem scan_status {t : State} (tabled : Tabled s) (scanned : scan s = .ok t)
    (examines : Examines s i p u) : (t.tasks p).status = .running ↔ Late p u := by
  constructor
  · intro running
    rcases scanTo_late tabled scanned p with same | ⟨j, v, _, examines', late⟩
    · have asleep := examines.asleep
      rw [(examines.before tabled).2, ← same, running] at asleep
      cases asleep
    · rw [examines.unique examines' tabled]
      exact late
  · intro late
    exact scanTo_wakes tabled scanned examines late examines.bound

/-! ## The scans of a call -/

/-- A round that finds nothing jumps to `repeat`. -/
theorem pick_again {t t' : State} (seated : Seated t)
    (scanned : scan t = .ok t')
    (walked : findNext t' (t.tasks t.current).id nrTasks (t.tasks t.current).id = .ok none)
    (idle : (t'.tasks t'.current).status ≠ .running) (rounds : Nat) :
    pick (rounds + 1) t = pick rounds t' := by
  have found : t.deref t.current = .ok (t.tasks t.current) := by
    simp [State.deref, seated.alive]
  simp only [pick, found, scanned, walked, bind, Except.bind, if_neg idle]

/-- When no slot runs, the walk finds nothing and the current task is not running. -/
theorem findNext_idle {t t' : State} (tabled : Tabled t) (scanned : scan t = .ok t')
    (idle : ∀ j < nrTasks, ¬RunningSlot t' j) :
    findNext t' (t.tasks t.current).id nrTasks (t.tasks t.current).id = .ok none ∧
      (t'.tasks t'.current).status ≠ .running := by
  have woken := scanTo_changes tabled.tableLive scanned
  have tabled' := tabled.woken woken
  constructor
  · obtain ⟨found, walked, outcome⟩ := findNext_spec tabled'.tableLive tabled.seated.bound
      nrTasks 0 (by decide) (Nat.zero_add _)
    rw [Cycle.reached_zero tabled.seated.bound] at walked
    cases found with
    | none => exact walked
    | some p =>
      obtain ⟨j, bound, slot, running, _⟩ := outcome
      exact absurd ⟨p, slot, running⟩ (idle j bound)
  · intro running
    exact idle _ tabled'.seated.bound ⟨_, tabled'.current, running⟩

namespace Scans

variable {t : State}

/-- The scans of a call only wake. -/
theorem woken (scans : Scans s t) (tabled : Tabled s) : Woken s t := by
  induction scans with
  | first => exact .refl s
  | again t t' _ scanned _ _ ih =>
    exact ih.trans (scanTo_changes (tabled.woken ih).tableLive scanned)

/-- A scan of a call starts from such a table again. -/
theorem tabled (scans : Scans s t) (tabled : Tabled s) : Tabled t :=
  tabled.woken (scans.woken tabled)

/-- A scan of a call reads the clock behind the readings of the call so far. -/
theorem readings (scans : Scans s t) (tabled : Tabled s) : s.readings ≤ t.readings := by
  induction scans with
  | first => exact Nat.le_refl _
  | again t t' before scanned _ _ ih =>
    have grows := (scanTo_readings (before.tabled tabled).tableLive scanned).1
    omega

/-- From a scan on, the call does what a call in that state does. -/
theorem pick_eq (scans : Scans s t) (tabled : Tabled s) :
    ∃ n, ∀ rounds, pick (n + rounds) s = pick rounds t := by
  induction scans with
  | first => exact ⟨0, fun rounds => by rw [Nat.zero_add]⟩
  | again t t' before scanned walked idle ih =>
    obtain ⟨n, same⟩ := ih
    have here := before.tabled tabled
    refine ⟨n + 1, fun rounds => ?_⟩
    rw [show n + 1 + rounds = n + (rounds + 1) by omega, same]
    exact pick_again here.seated scanned walked idle rounds

/-- The scans that follow a scan belong to the call. -/
theorem trans (scans : Scans s t) (later : Scans t u) : Scans s u := by
  induction later with
  | first => exact scans
  | again t t' _ scanned walked idle ih => exact .again t t' ih scanned walked idle

/-- Until a late reading is taken for a task, the scans leave it as it is. -/
theorem unseen (scans : Scans s t) (tabled : Tabled s) (unseen : ¬Seen s p) :
    t.tasks p = s.tasks p := by
  induction scans with
  | first => rfl
  | again t t' before scanned _ _ ih =>
    rw [← ih]
    rcases scanTo_late (before.tabled tabled) scanned p with same | ⟨j, v, _, examines, late⟩
    · exact same
    · exact absurd ⟨t, j, v, before, examines, late⟩ unseen

end Scans

/-- A returning call has made a last scan, and returns from the walk behind it. -/
theorem pick_scans {rounds : Nat} {s' : State} (tabled : Tabled s)
    (returned : pick rounds s = .ok (s', p)) : ∃ t, Scans s t ∧ scan t = .ok s' := by
  induction rounds generalizing s with
  | zero => cases returned
  | succ rounds ih =>
    obtain ⟨middle, scanned, woken, ⟨q, ok, _⟩ | ⟨ok, idle⟩⟩ :=
      pick_round tabled.tableLive tabled.seated rounds
    · obtain ⟨rfl, rfl⟩ := Prod.mk.inj (Except.ok.inj (ok.symm.trans returned))
      exact ⟨s, .first, scanned⟩
    · obtain ⟨t, scans, last⟩ := ih (tabled.woken woken) (ok.symm.trans returned)
      obtain ⟨walked, stopped⟩ := findNext_idle tabled scanned idle
      have next : Scans s middle := .again s middle .first scanned walked stopped
      exact ⟨t, next.trans scans, last⟩

/-- More rounds change nothing about a call that returns. -/
theorem pick_more {rounds : Nat} {r : State × TaskPtr} (returned : pick rounds s = .ok r)
    (more : Nat) : pick (rounds + more) s = .ok r := by
  induction rounds generalizing s with
  | zero => cases returned
  | succ rounds ih =>
    rw [show rounds + 1 + more = rounds + more + 1 by omega]
    unfold pick at returned ⊢
    obtain ⟨current, found, returned⟩ := bind_eq_ok.mp returned
    obtain ⟨middle, scanned, returned⟩ := bind_eq_ok.mp returned
    obtain ⟨next, walked, returned⟩ := bind_eq_ok.mp returned
    simp only [found, scanned, walked, bind, Except.bind]
    cases next with
    | some next => exact returned
    | none =>
      simp only at returned ⊢
      split
      · rwa [if_pos ‹_›] at returned
      · rw [if_neg ‹_›] at returned
        exact ih returned

/-- Two returning calls in one state return the same. -/
theorem pick_unique {rounds rounds' : Nat} {r r' : State × TaskPtr}
    (first : pick rounds s = .ok r) (second : pick rounds' s = .ok r') : r = r' := by
  have first' := pick_more first rounds'
  have second' := pick_more second rounds
  rw [Nat.add_comm, second'] at first'
  exact (Except.ok.inj first').symm

/-- A call returns behind a scan that leaves a running task in the table. -/
theorem pick_returns_behind {t t' : State} (tabled : Tabled s) (scans : Scans s t)
    (scanned : scan t = .ok t') (bound : j < nrTasks) (running : RunningSlot t' j) :
    ∃ rounds next, pick rounds s = .ok (t', next) := by
  have here := scans.tabled tabled
  obtain ⟨n, same⟩ := scans.pick_eq tabled
  obtain ⟨middle, scanned', _, ⟨next, ok, _⟩ | ⟨_, idle⟩⟩ :=
    pick_round here.tableLive here.seated 0
  · obtain rfl := Except.ok.inj (scanned'.symm.trans scanned)
    exact ⟨n + (0 + 1), next, (same _).trans ok⟩
  · obtain rfl := Except.ok.inj (scanned'.symm.trans scanned)
    exact absurd running (idle j bound)

/-- A call whose first scan leaves a running task in the table makes no other scan. -/
theorem Scans.only {t t' : State} (scans : Scans s t) (tabled : Tabled s)
    (scanned : scan s = .ok t') (bound : j < nrTasks) (running : RunningSlot t' j) : t = s := by
  induction scans with
  | first => rfl
  | again u u' before scanned' walked idle ih =>
    subst ih
    have spins := pick_again tabled.seated scanned' walked idle 0
    obtain ⟨middle, scanned'', _, ⟨next, ok, _⟩ | ⟨_, idle'⟩⟩ :=
      pick_round tabled.tableLive tabled.seated 0
    · cases ok.symm.trans spins
    · obtain rfl := Except.ok.inj (scanned''.symm.trans scanned)
      exact absurd running (idle' j bound)

/-- A late reading for a task wakes it and makes the call return behind the scan. -/
theorem Seen.returns (seen : Seen s p) (tabled : Tabled s) :
    ∃ rounds s' next, pick rounds s = .ok (s', next) ∧
      s'.tasks p = { s.tasks p with status := .running } := by
  obtain ⟨t, i, u, scans, examines, late⟩ := seen
  have here := scans.tabled tabled
  obtain ⟨t', scanned, woken⟩ := scan_spec here.tableLive
  have running := (scan_status here scanned examines).mpr late
  obtain ⟨slot, same⟩ := examines.before here
  have runs : RunningSlot t' i := ⟨p, by rw [woken.env]; exact slot, running⟩
  obtain ⟨rounds, next, returned⟩ := pick_returns_behind tabled scans scanned examines.bound runs
  have whole := (scans.woken tabled).trans woken
  refine ⟨rounds, t', next, returned, ?_⟩
  rw [whole.fields, running]

/-! ## What `pick` returns, and when -/

/-- A returning `pick` leaves the blocks of tasks it has not seen. -/
theorem pick_unseen (tabled : Tabled s) {rounds : Nat} {s' : State} {next : TaskPtr}
    (returned : pick rounds s = .ok (s', next)) (unseen : ¬Seen s p) :
    s'.tasks p = s.tasks p := by
  obtain ⟨t, scans, last⟩ := pick_scans tabled returned
  rw [← scans.unseen tabled unseen]
  rcases scanTo_late (scans.tabled tabled) last p with same | ⟨j, v, _, examines, late⟩
  · exact same
  · exact absurd ⟨t, j, v, scans, examines, late⟩ unseen

/-- A returning `pick` has made the sleeping tasks it has seen running. -/
theorem pick_seen (tabled : Tabled s) {rounds : Nat} {s' : State} {next : TaskPtr}
    (returned : pick rounds s = .ok (s', next)) (seen : Seen s p) :
    (s.tasks p).status = .sleep ∧ s'.tasks p = { s.tasks p with status := .running } := by
  obtain ⟨rounds', s'', next', returned', woken⟩ := seen.returns tabled
  obtain ⟨rfl, rfl⟩ := Prod.mk.inj (pick_unique returned returned')
  obtain ⟨t, i, u, scans, examines, _⟩ := seen
  have asleep := examines.asleep
  rw [(examines.before (scans.tabled tabled)).2] at asleep
  refine ⟨?_, woken⟩
  rcases (scans.woken tabled).block p with same | ⟨asleep', _⟩
  · rw [← same]
    exact asleep
  · exact asleep'

/-- `pick` returns exactly when a task is running or is seen. -/
theorem returns_iff (tabled : Tabled s) :
    Returns s ↔ (∃ i p, s.task i = some p ∧ (s.tasks p).status = .running) ∨ ∃ p, Seen s p := by
  constructor
  · rintro ⟨rounds, s', next, returned⟩
    obtain ⟨woken, j, _, slot, running, _⟩ := pick_spec tabled.tableLive tabled.seated returned
    by_cases seen : Seen s next
    · exact .inr ⟨next, seen⟩
    · rw [pick_unseen tabled returned seen] at running
      rw [woken.env] at slot
      exact .inl ⟨j, next, slot, running⟩
  · rintro (⟨i, p, slot, running⟩ | ⟨p, seen⟩)
    · have bound := (tabled.slots i p slot).1
      exact ⟨1, pick_returns tabled.tableLive tabled.seated bound ⟨p, slot, running⟩ 0⟩
    · obtain ⟨rounds, s', next, returned, _⟩ := seen.returns tabled
      exact ⟨rounds, s', next, returned⟩

/-- `pick` returns exactly when some task is running at the call or one of its scans takes a
reading greater than the `wakeuptime` of a sleeping task. It then returns the first running
task behind the current one in the order of the slots, the current one last, as the last scan
has left them; and it has made exactly those sleeping tasks running for which it has taken
such a reading. -/
theorem pick_meets_its_specification (tabled : Tabled s) :
    (Returns s ↔ (∃ i p, s.task i = some p ∧ (s.tasks p).status = .running) ∨ ∃ p, Seen s p) ∧
    ∀ rounds s' next, pick rounds s = .ok (s', next) →
      (∃ t, Scans s t ∧ scan t = .ok s') ∧
      (∃ j < nrTasks, s'.task j = some next ∧ (s'.tasks next).status = .running ∧
        ∀ k < nrTasks, Cycle.ahead nrTasks (s.tasks s.current).id k <
          Cycle.ahead nrTasks (s.tasks s.current).id j → ¬RunningSlot s' k) ∧
      s' = { s with tasks := s'.tasks, readings := s'.readings } ∧
      ∀ p, (Seen s p → (s.tasks p).status = .sleep ∧
          s'.tasks p = { s.tasks p with status := .running }) ∧
        (¬Seen s p → s'.tasks p = s.tasks p) := by
  refine ⟨returns_iff tabled, ?_⟩
  intro rounds s' next returned
  have picked := pick_spec tabled.tableLive tabled.seated returned
  refine ⟨pick_scans tabled returned, picked.nearest, picked.woken.frame, ?_⟩
  intro p
  constructor
  · exact pick_seen tabled returned
  · exact pick_unseen tabled returned

/-- A thread whose only task goes to sleep for a second at time 0 and reads the time as two
seconds from then on. -/
def sleeper : State := coSleep 1 (State.init 0 fun reading => min reading 1 * 2000000)

/-- The sleeping task is examined two seconds later, and the call returns. -/
theorem pick_meets_its_specification_sleeper : Returns sleeper := by
  have tabled : Tabled sleeper := by
    constructor
    · intro i p slot
      by_cases root : i = 0
      · subst root
        obtain rfl : initTask = p := Option.some.inj slot
        decide
      · simp [sleeper, coSleep, State.modify, getmstime, State.init,
          Function.update_of_ne root] at slot
    · rfl
  apply (pick_meets_its_specification tabled).1.mpr
  right
  exact ⟨initTask, sleeper, 0, sleeper, .first, ⟨by decide, rfl, rfl, rfl⟩, by decide⟩

end LibcoLite
