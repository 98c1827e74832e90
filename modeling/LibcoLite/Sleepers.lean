import LibcoLite.Sleep
import LibcoLite.Dry

/-!
# Whether sleepers wake up

A sleeping task is woken by a reading that is greater than its `wakeuptime`. No reading is
greater than the last number an `unsigned int` holds, and a task that is to sleep until then
sleeps for ever. The others are woken in the end by a clock that exceeds every other number
again and again, and a call of `schedule` then returns.
-/

namespace LibcoLite

open Transition (Run)

/-- What `getmstime` returns for a reading of the clock. -/
def shown (clock : Nat → Nat) (reading : Nat) : BitVec 32 :=
  BitVec.ofNat 32 (clock reading / 1000000 * 1000 + clock reading % 1000000 / 1000)

/-- The last number of milliseconds. -/
def lastMs : BitVec 32 := BitVec.allOnes 32

/-- Every number of milliseconds but the last is exceeded again and again. -/
def Exceeding (clock : Nat → Nat) : Prop :=
  ∀ ms, ms ≠ lastMs → ∀ reading, ∃ later, reading ≤ later ∧ ms < shown clock later

/-- Such a clock shows the last number again and again. -/
theorem Exceeding.last {clock : Nat → Nat} (exceeding : Exceeding clock) (reading : Nat) :
    ∃ later, reading ≤ later ∧ shown clock later = lastMs := by
  obtain ⟨later, behind, greater⟩ := exceeding (lastMs - 1) (by decide) reading
  refine ⟨later, behind, BitVec.eq_of_toNat_eq ?_⟩
  have above : (lastMs - 1).toNat < (shown clock later).toNat := greater
  have bound := (shown clock later).isLt
  have value : (lastMs - 1).toNat = 2 ^ 32 - 2 := by decide
  have last : lastMs.toNat = 2 ^ 32 - 1 := by decide
  omega

/-- A task sleeps until the last number of milliseconds. -/
structure Forever (p : TaskPtr) (s : State) : Prop where
  /-- The task is live. -/
  alive : s.live p = true
  /-- It sleeps. -/
  asleep : (s.tasks p).status = .sleep
  /-- No reading is greater than its `wakeuptime`. -/
  last : (s.tasks p).wakeuptime = lastMs

variable {s s' u : State} {p : TaskPtr} {j reading : Nat}

/-- A control point does not matter to it. -/
theorem forever_goto {pc : Pc} : Forever p (s.goto pc) ↔ Forever p s :=
  ⟨fun forever => ⟨forever.alive, forever.asleep, forever.last⟩,
    fun forever => ⟨forever.alive, forever.asleep, forever.last⟩⟩

/-- A reading of the last number is late for every other task. -/
theorem late_of_last (shows : shown u.clock u.readings = lastMs)
    (before : (u.tasks p).wakeuptime ≠ lastMs) : Late p u := by
  show (u.tasks p).wakeuptime < shown u.clock u.readings
  rw [shows]
  have bound := (u.tasks p).wakeuptime.isLt
  have other : (u.tasks p).wakeuptime.toNat ≠ lastMs.toNat :=
    fun same => before (BitVec.eq_of_toNat_eq same)
  have last : lastMs.toNat = 2 ^ 32 - 1 := by decide
  show (u.tasks p).wakeuptime.toNat < lastMs.toNat
  omega

/-- No reading is late for a task that sleeps until the last number. -/
theorem not_late (last : (u.tasks p).wakeuptime = lastMs) : ¬Late p u := by
  intro late
  have greater : lastMs < shown u.clock u.readings := last ▸ late
  have above : lastMs.toNat < (shown u.clock u.readings).toNat := greater
  have bound := (shown u.clock u.readings).isLt
  have value : lastMs.toNat = 2 ^ 32 - 1 := by decide
  omega

/-! ## The readings of a scan -/

/-- Each reading of a scan is taken for a sleeping task. -/
theorem scanTo_takes (tabled : Tabled s) (reached : scanTo j s = .ok u)
    (low : s.readings ≤ reading) (high : reading < u.readings) :
    ∃ k p v, k < j ∧ Examines s k p v ∧ v.readings = reading := by
  induction j generalizing u with
  | zero =>
    cases reached
    omega
  | succ j ih =>
    obtain ⟨v, before, taken⟩ := scanTo_before reached
    by_cases earlier : reading < v.readings
    · obtain ⟨k, p, v', less, examines⟩ := ih before earlier
      exact ⟨k, p, v', Nat.lt_succ_of_lt less, examines⟩
    · have tabled' := tabled.woken (scanTo_changes tabled.tableLive before)
      rcases wakeSlot_cases tabled'.tableLive j with ⟨p, slot, asleep, ok⟩ | ⟨_, ok⟩
      · have one : u.readings = v.readings + 1 := by
          rw [← Except.ok.inj (ok.symm.trans taken)]
          split <;> rfl
        have bound := (tabled'.slots j p slot).1
        exact ⟨j, p, v, Nat.lt_succ_self j, ⟨bound, before, slot, asleep⟩, by omega⟩
      · rw [← Except.ok.inj (ok.symm.trans taken)] at high
        omega

/-- A scan takes a reading for each task that it finds asleep. -/
theorem scan_reads {t : State} (tabled : Tabled s) (scanned : scan s = .ok t)
    (slot : s.task j = some p) (asleep : (s.tasks p).status = .sleep) :
    s.readings < t.readings := by
  obtain ⟨u, examines⟩ := examines_of_asleep tabled slot asleep
  have before := (scanTo_readings tabled.tableLive examines.reaches).1
  have behind := (scanTo_readings tabled.tableLive scanned).2 j p u examines.bound examines
  omega

/-- A scan that reads the last number wakes a task, unless one sleeps until then. -/
theorem scan_wakes {t : State} (tabled : Tabled s) (scanned : scan s = .ok t)
    (mortal : ∀ p, ¬Forever p s) (shows : shown s.clock reading = lastMs)
    (low : s.readings ≤ reading) (high : reading < t.readings) :
    ∃ j p, s.task j = some p ∧ (s.tasks p).status = .sleep ∧ (t.tasks p).status = .running := by
  obtain ⟨j, p, u, _, examines, rfl⟩ := scanTo_takes tabled scanned low high
  obtain ⟨slot, same⟩ := examines.before tabled
  have asleep := examines.asleep
  rw [same] at asleep
  refine ⟨j, p, slot, asleep, (scan_status tabled scanned examines).mpr ?_⟩
  apply late_of_last
  · rw [(scanTo_changes tabled.tableLive examines.reaches).clock]
    exact shows
  · rw [same]
    intro last
    exact mortal p ⟨(tabled.slots j p slot).2.1, asleep, last⟩

/-- Waking makes no task sleep for ever. -/
theorem Woken.mortal (woken : Woken s s') (mortal : ∀ p, ¬Forever p s) (p : TaskPtr) :
    ¬Forever p s' := by
  rintro ⟨alive, asleep, last⟩
  rw [woken.live] at alive
  rcases woken.block p with same | ⟨_, same⟩
  · rw [same] at asleep last
    exact mortal p ⟨alive, asleep, last⟩
  · rw [same] at asleep
    cases asleep

/-! ## Calls of `pick` -/

/-- A call of `pick` returns when the clock comes to the last number, if a task is running or
asleep and none sleeps for ever. -/
theorem pick_comes (tabled : Tabled s) (mortal : ∀ p, ¬Forever p s)
    (slot : s.task j = some p)
    (awake : (s.tasks p).status = .running ∨ (s.tasks p).status = .sleep)
    (shows : shown s.clock reading = lastMs) (low : s.readings ≤ reading) : Returns s := by
  induction left : reading - s.readings using Nat.strongRecOn generalizing s with
  | _ left' ih =>
    have bound := (tabled.slots j p slot).1
    rcases awake with running | asleep
    · exact ⟨1, pick_returns tabled.tableLive tabled.seated bound ⟨p, slot, running⟩ 0⟩
    · obtain ⟨t, scanned, woken⟩ := scan_spec tabled.tableLive
      have more := scan_reads tabled scanned slot asleep
      by_cases runs : ∃ k < nrTasks, RunningSlot t k
      · obtain ⟨k, small, running⟩ := runs
        obtain ⟨rounds, next, returned⟩ :=
          pick_returns_behind tabled .first scanned small running
        exact ⟨rounds, t, next, returned⟩
      · -- no task was woken, so that the last number is still to come
        have ahead : t.readings ≤ reading := by
          apply Classical.byContradiction
          intro passed
          obtain ⟨k, q, held, _, running⟩ :=
            scan_wakes tabled scanned mortal shows low (Nat.not_le.mp passed)
          refine runs ⟨k, (tabled.slots k q held).1, q, ?_, running⟩
          rw [woken.env]
          exact held
        have held : t.task j = some p := by
          rw [woken.env]
          exact slot
        have still : (t.tasks p).status = .running ∨ (t.tasks p).status = .sleep := by
          rcases woken.block p with same | ⟨_, same⟩
          · rw [same]
            exact .inr asleep
          · rw [same]
            exact .inl rfl
        obtain ⟨rounds, s', next, returned⟩ := ih (reading - t.readings) (by omega)
          (tabled.woken woken) (woken.mortal mortal) held still
          (by rw [woken.clock]; exact shows) ahead rfl
        obtain ⟨again, scanned', _, ⟨q, _, picked⟩ | ⟨onward, _⟩⟩ :=
          pick_round tabled.tableLive tabled.seated rounds
        · obtain ⟨k, small, slot', running, _⟩ := picked.nearest
          obtain rfl := Except.ok.inj (scanned'.symm.trans scanned)
          exact absurd ⟨k, small, q, slot', running⟩ runs
        · obtain rfl := Except.ok.inj (scanned'.symm.trans scanned)
          exact ⟨rounds + 1, s', next, onward.trans returned⟩

/-- A running task that calls `schedule` while another one runs or sleeps gives up its turn, or
has come nearer to the last number. -/
theorem pick_passes (tabled : Tabled s) (mortal : ∀ p, ¬Forever p s) {rounds : Nat}
    {next : TaskPtr} (returned : pick rounds s = .ok (s', next))
    (runs : (s.tasks s.current).status = .running) (slot : s.task j = some p)
    (other : p ≠ s.current)
    (awake : (s.tasks p).status = .running ∨ (s.tasks p).status = .sleep)
    (shows : shown s.clock reading = lastMs) (low : s.readings ≤ reading) :
    next ≠ s.current ∨ s.readings < s'.readings ∧ s'.readings ≤ reading := by
  cases rounds with
  | zero => cases returned
  | succ rounds =>
    obtain ⟨t, scanned, woken, outcome⟩ := pick_round tabled.tableLive tabled.seated rounds
    have still : (t.tasks s.current).status = .running := by
      rw [woken.status (by simp [runs]), runs]
    have seated : t.task (s.tasks s.current).id = some s.current := by
      rw [woken.env]
      exact tabled.current
    rcases outcome with ⟨q, returns, picked⟩ | ⟨_, idle⟩
    · obtain ⟨rfl, rfl⟩ := Prod.mk.inj (Except.ok.inj (returns.symm.trans returned))
      by_cases turn : q = s.current
      · subst turn
        refine .inr ?_
        obtain ⟨k, small, held, _, nearest⟩ := picked.nearest
        obtain rfl := (tabled.woken woken).unique held seated
        rw [Cycle.ahead_self] at nearest
        -- no other slot runs behind the scan
        have only {l : Nat} {q : TaskPtr} (slot : s.task l = some q) (away : q ≠ s.current) :
            (t.tasks q).status ≠ .running := by
          intro running
          have bound := (tabled.slots l q slot).1
          have apart : l ≠ (s.tasks s.current).id := by
            rintro rfl
            exact away (Option.some.inj (slot.symm.trans tabled.current))
          refine nearest l bound (Cycle.ahead_lt tabled.seated.bound bound apart) ⟨q, ?_, running⟩
          rw [woken.env]
          exact slot
        have asleep : (s.tasks p).status = .sleep := by
          rcases awake with running | asleep
          · refine absurd ?_ (only slot other)
            rw [woken.status (by simp [running]), running]
          · exact asleep
        refine ⟨scan_reads tabled scanned slot asleep, ?_⟩
        apply Classical.byContradiction
        intro passed
        obtain ⟨l, q, slot', asleep', running⟩ :=
          scan_wakes tabled scanned mortal shows low (Nat.not_le.mp passed)
        refine only slot' ?_ running
        rintro rfl
        cases asleep'.symm.trans runs
      · exact .inl turn
    · exact absurd ⟨s.current, seated, still⟩ (idle _ tabled.seated.bound)

/-! ## Sleeping for ever -/

/-- A call of `pick` does not see a task that sleeps for ever. -/
theorem Forever.unseen (forever : Forever p s) (tabled : Tabled s) : ¬Seen s p := by
  rintro ⟨t, j, u, scans, examines, late⟩
  refine not_late ?_ late
  rw [(examines.before (scans.tabled tabled)).2, (scans.woken tabled).fields]
  exact forever.last

/-- A task that sleeps is the current one only in its call of `schedule`. -/
theorem asleep_inside {self : EnvPtr} {clock : Nat → Nat} {past : History}
    (run : ThreadRun self clock past s) (asleep : (s.tasks s.current).status = .sleep) :
    ∃ behind, s.pc s.current = .schedule behind := by
  induction run with
  | start => cases asleep
  | @move past s s' i before taken ih =>
    have inv := integrity_of_run before
    rcases i.switches with ⟨rounds, rfl⟩ | other
    · cases asleep.symm.trans (step_pick inv taken)
    · rw [(step_cases taken).2.current other] at asleep ⊢
      cases step_status inv taken inv.seated.alive with
      | keeps same =>
        obtain ⟨behind, pc⟩ := ih (same.symm.trans asleep)
        obtain ⟨rounds, switches⟩ := step_scheduled taken pc
        exact absurd switches (other rounds)
      | sleeps seconds _ user =>
        obtain ⟨_, kind⟩ := step_cases taken
        cases kind with
        | sleep => exact ⟨.user, Function.update_self ..⟩
      | waits _ _ status => cases asleep.symm.trans status
      | exits _ _ status => cases asleep.symm.trans status
      | wakes rounds => exact absurd rfl (other rounds)
      | dispatched _ _ _ _ status => cases asleep.symm.trans status

variable {Place : Type} {program : Program Place} {w w' : World Place} {choice : Choice}
  {main : Place} {self : EnvPtr} {clock : Nat → Nat} {past : WorldHistory Place}

/-- In a program without descriptors nothing wakes a task that sleeps for ever. -/
theorem Dry.forever (dry : Dry program) (run : WorldRun program main self clock past w)
    (taken : w.step program choice = .ok w') (forever : Forever p w.thread) :
    Forever p w'.thread := by
  have inv := world_integrity run
  have stepped := world_thread taken
  have alive := step_live inv stepped forever.alive (by simp [forever.asleep])
  have kept : w'.thread.tasks p = w.thread.tasks p := by
    rcases (w.input program choice).switches with ⟨rounds, switches⟩ | other
    · rw [switches] at stepped
      obtain ⟨behind, picked, pc, gone, found, _, after⟩ := step_switch inv stepped
      have still : Forever p (w.thread.goto behind) := forever_goto.mpr forever
      have same := pick_unseen gone.tabled found (still.unseen gone.tabled)
      rw [after]
      exact same
    · have away : p ≠ w.thread.current := by
        rintro rfl
        obtain ⟨behind, pc⟩ := asleep_inside (thread_of_run run) forever.asleep
        obtain ⟨rounds, switches⟩ := step_scheduled stepped pc
        exact other rounds switches
      rcases step_others inv stepped other away alive with
        ⟨dead, _⟩ | ⟨_, _, same | ⟨ev, rest, handles, _⟩⟩
      · cases dead.symm.trans forever.alive
      · exact same
      · rcases dry.control run with pc | ⟨_, pc⟩ | pc | ⟨_, pc⟩ <;> cases pc.symm.trans handles
  refine ⟨alive, ?_, ?_⟩
  · rw [kept]
    exact forever.asleep
  · rw [kept]
    exact forever.last

/-- Such a task sleeps in every world that follows. -/
theorem Dry.forever_of_run (dry : Dry program) (run : WorldRun program main self clock past w)
    (forever : Forever p w.thread) {later : WorldHistory Place}
    (onward : Run (World.step program) w later w') : Forever p w'.thread := by
  induction onward with
  | start => exact forever
  | move before taken ih => exact dry.forever (run.trans before) taken ih

/-- In a program without descriptors, with such a clock, a call of `schedule` returns, unless a
task sleeps for ever. -/
theorem Dry.turns (dry : Dry program) (run : WorldRun program main self clock past w)
    (exceeding : Exceeding clock) (mortal : ∀ p, ¬Forever p w.thread) {behind : Pc}
    (pc : w.thread.pc w.thread.current = .schedule behind) :
    ∃ rounds w', w.step program (.library (.pick rounds)) = .ok w' := by
  have inv := world_integrity run
  have gone : Integrity (w.thread.goto behind) := inv.behind pc
  obtain ⟨reading, low, shows⟩ := exceeding.last w.thread.readings
  rw [← clock_of_run (thread_of_run run)] at shows
  obtain ⟨rounds, picked, next, found⟩ := pick_comes gone.tabled
    (fun p forever => mortal p (forever_goto.mp forever)) gone.root
    (dry.rootAwake run) shows low
  have stepped : LibcoLite.step w.thread (.pick rounds) =
      .ok { picked with current := next } := by
    simp [LibcoLite.step, inv.seated.alive, pc, gone.schedule_of_pick found]
  exact ⟨rounds, _, dry.goes run (by simp [pc]) stepped⟩

end LibcoLite
