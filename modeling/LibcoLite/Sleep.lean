import LibcoLite.Pick
import LibcoLite.Control
import Mathlib.Data.BitVec
import Mathlib.Order.Monotone.Defs

/-!
# The length of a sleep

Time is an unbounded count of milliseconds, of which `getmstime` returns the remainder
modulo 2^32, as an `unsigned int` does. `co_sleep` stores the remainder of a deadline, and
the scans of `pick` compare remainders. This agrees with comparing times as long as the
clock does not wrap between a deadline and a reading.
-/

namespace LibcoLite

open Transition (bind_eq_ok Move Throughout Run)

/-- Milliseconds of real time at the next reading of the clock. -/
def realTime (s : State) : Nat := s.clock s.readings / 1000

/-- `getmstime` returns the remainder of real time. -/
theorem getmstime_toNat (s : State) : (getmstime s).1.toNat = realTime s % 2 ^ 32 := by
  simp only [getmstime, realTime, BitVec.toNat_ofNat]
  omega

/-- The `pick` of a move resumes a task. -/
def Resumed (p : TaskPtr) (move : Move State Input) : Prop :=
  (∃ rounds, move.input = .pick rounds) ∧ move.after.current = p

/-- In a history, latest move first, a task has called `co_sleep` with a deadline in real
time, and no `pick` has resumed it since. -/
inductive Asleep (p : TaskPtr) (due : Nat) : History → Prop where
  /-- The call. Its milliseconds fit an `int`. -/
  | calls (move : Move State Input) (past : History) (seconds : Nat) :
      move.input = .sleep seconds → move.before.current = p → 1000 * seconds < 2 ^ 31 →
      due = realTime move.before + 1000 * seconds → Asleep p due (move :: past)
  /-- A move that does not resume the task. -/
  | stays (move : Move State Input) (past : History) : Asleep p due past →
      ¬Resumed p move → Asleep p due (move :: past)

/-- A scan of a move's `pick`, begun in state `t`, examines a task in state `u`. -/
def Examination (move : Move State Input) (p : TaskPtr) (t u : State) : Prop :=
  ∃ behind rounds i, move.input = .pick rounds ∧
    move.before.pc move.before.current = .schedule behind ∧
    Scans (move.before.goto behind) t ∧ Examines t i p u

/-- The sleeping tasks are woken as their deadlines say: a scan that examines one makes it
running exactly when real time is past its deadline, and no other step wakes one. -/
def Punctual (past : History) (move : Move State Input) : Prop :=
  ∀ p due, Asleep p due past →
    (∀ t t' u, Examination move p t u → scan t = .ok t' →
      ((t'.tasks p).status = .running ↔ due < realTime u)) ∧
    ((∀ rounds, move.input ≠ .pick rounds) → (move.before.tasks p).status = .sleep →
      (move.after.tasks p).status = .sleep)

/-- The clock has not wrapped between a deadline and a time, or the time has come past the
deadline's remainder again. -/
def Comparable (due now : Nat) : Prop :=
  now / 2 ^ 32 = due / 2 ^ 32 ∨ due < now ∧ due % 2 ^ 32 < now % 2 ^ 32

/-- Sleeping tasks are examined at times that compare with their deadlines, and no event that
meets a sleeping task's record is handed to it. -/
def Undisturbed (past : History) (move : Move State Input) : Prop :=
  ∀ p due, Asleep p due past →
    (∀ t u, Examination move p t u → Comparable due (realTime u)) ∧
    ∀ ev rest, move.before.pc move.before.current = .handle (ev :: rest) →
      move.before.links.first ev.dataFd = some p → (move.before.tasks p).status = .sleep →
      ((move.before.tasks p).events ev.dataFd).events &&& ev.events = 0

/-- A task is resumed only behind an examination past its deadline. -/
def NotEarly (past : History) (move : Move State Input) : Prop :=
  ∀ p due, Asleep p due past → Resumed p move →
    ∃ earlier ∈ move :: past, ∃ t u, Examination earlier p t u ∧ due < realTime u

/-! ## Readings of the clock -/

/-- The table of a reachable state is one for which `pick` is specified. -/
theorem Integrity.tabled {s : State} (inv : Integrity s) : Tabled s where
  slots i p slot := by
    obtain ⟨bound, alive, id, _⟩ := inv.slots i p slot
    exact ⟨bound, alive, id⟩
  current := inv.seated.slot

/-- A step leaves the clock and does not take back a reading. -/
theorem step_clock {s s' : State} {i : Input} (inv : Integrity s)
    (taken : step s i = .ok s') : s'.clock = s.clock ∧ s.readings ≤ s'.readings := by
  obtain ⟨_, kind⟩ := step_cases taken
  cases kind with
  | create cid pc =>
    rcases coCreate_cases cid s with ⟨_, _, _, _, made⟩ | ⟨_, made⟩ <;> rw [made] <;>
      exact ⟨rfl, Nat.le_refl _⟩
  | sleep seconds pc => exact ⟨rfl, Nat.le_succ _⟩
  | scheduled behind rounds picked p pc found =>
    have gone : Integrity (s.goto behind) := inv.behind pc
    obtain ⟨t, scans, last⟩ := pick_scans gone.tabled found
    have here := scans.tabled gone.tabled
    have first : s.readings ≤ t.readings := scans.readings gone.tabled
    have rest := (scanTo_readings here.tableLive last).1
    constructor
    · have woken := (scans.woken gone.tabled).trans (scanTo_changes here.tableLive last)
      exact woken.clock
    · show s.readings ≤ picked.readings
      omega
  | _ => exact ⟨rfl, Nat.le_refl _⟩

/-- Reachable states read the clock the thread started with. -/
theorem clock_of_run {self : EnvPtr} {clock : Nat → Nat} {past : History} {s : State}
    (run : ThreadRun self clock past s) : s.clock = clock := by
  induction run with
  | start => rfl
  | move before taken ih => exact (step_clock (integrity_of_run before) taken).1.trans ih

/-! ## Sleeping tasks -/

/-- What holds of a task from its call of `co_sleep` until it is resumed. -/
structure Dozing (p : TaskPtr) (due : Nat) (s : State) : Prop where
  /-- The task is live. -/
  alive : s.live p = true
  /-- It is, or will be, behind its call of `schedule`. -/
  inside : s.pc p = .user ∨ s.pc p = .schedule .user
  /-- While it is still the current task, it is before that call. -/
  away : s.current = p → s.pc p = .schedule .user
  /-- Its `wakeuptime` is the remainder of its deadline. -/
  stored : (s.tasks p).wakeuptime.toNat = due % 2 ^ 32
  /-- No reading can come that is 2^31 milliseconds before the deadline. -/
  soon : ∀ reading, s.readings ≤ reading → due < s.clock reading / 1000 + 2 ^ 31

variable {self : EnvPtr} {clock : Nat → Nat} {past : History} {s s' : State} {i : Input}
  {p : TaskPtr} {due : Nat}

/-- A call of `co_sleep` stores the remainder of its deadline. -/
theorem dozing_of_call (monotone : Monotone s.clock) {seconds : Nat}
    (fits : 1000 * seconds < 2 ^ 31) (taken : step s (.sleep seconds) = .ok s') :
    Dozing s.current (realTime s + 1000 * seconds) s' := by
  obtain ⟨alive, kind⟩ := step_cases taken
  cases kind with
  | sleep _ pc =>
    constructor
    · exact alive
    · exact .inr (Function.update_self ..)
    · intro _
      exact Function.update_self ..
    · have value : (((coSleep seconds s).goto (.schedule .user)).tasks s.current).wakeuptime =
          (getmstime s).1 + BitVec.ofInt 32 (1000 * seconds) := by
        simp [coSleep, State.goto, State.modify, getmstime]
      have added : 1000 * (seconds : Int) = ((1000 * seconds : Nat) : Int) := by omega
      rw [value, added, BitVec.ofInt_natCast, BitVec.toNat_add, getmstime_toNat,
        BitVec.toNat_ofNat]
      omega
    · intro reading later
      have advanced : s.clock s.readings ≤ s.clock reading :=
        monotone (Nat.le_of_succ_le later)
      show realTime s + 1000 * seconds < s.clock reading / 1000 + 2 ^ 31
      unfold realTime
      omega

/-- A sleeping task that has not been resumed is the current one only in its own switch. -/
theorem Dozing.elsewhere (dozing : Dozing p due s) (taken : step s i = .ok s')
    (other : ∀ rounds, i ≠ .pick rounds) : p ≠ s.current := by
  rintro rfl
  have pc := dozing.away rfl
  obtain ⟨_, kind⟩ := step_cases taken
  cases kind with
  | scheduled _ rounds => exact other rounds rfl
  | create cid pc' => cases pc.symm.trans pc'
  | _ => simp_all

/-- A sleeping task has not exited. -/
theorem Dozing.more (dozing : Dozing p due s) (inv : Integrity s) :
    (s.tasks p).status ≠ .exit := by
  intro exited
  have exiting := inv.exits p dozing.alive exited
  rcases dozing.inside with pc | pc
  · rw [pc] at exiting
    exact exiting
  · rw [pc] at exiting
    exact exiting

/-- A step other than a switch keeps the block of a sleeping task, unless it hands it an
event. -/
theorem Dozing.kept (dozing : Dozing p due s) (inv : Integrity s) (taken : step s i = .ok s')
    (other : ∀ rounds, i ≠ .pick rounds) :
    s'.live p = true ∧ s'.pc p = s.pc p ∧ (s'.tasks p = s.tasks p ∨
      ∃ ev rest, s.pc s.current = .handle (ev :: rest) ∧ s.links.first ev.dataFd = some p ∧
        s'.tasks p = (s.tasks p).dispatch ev) := by
  have away := dozing.elsewhere taken other
  have alive := step_live inv taken dozing.alive (dozing.more inv)
  rcases step_others inv taken other away alive with
    ⟨dead, _⟩ | ⟨_, pc, same | ⟨ev, rest, handles, first⟩⟩
  · cases dead.symm.trans dozing.alive
  · exact ⟨alive, pc, .inl same⟩
  · obtain ⟨_, q, first', _, tasks, _⟩ := step_handled taken handles
    obtain rfl := Option.some.inj (first.symm.trans first')
    refine ⟨alive, pc, .inr ⟨ev, rest, handles, first, ?_⟩⟩
    rw [tasks, Function.update_self]

/-- A step that does not resume a sleeping task keeps it so. -/
theorem Dozing.step (dozing : Dozing p due s) (inv : Integrity s)
    (taken : LibcoLite.step s i = .ok s') (stays : ¬Resumed p ⟨s, i, s'⟩) : Dozing p due s' := by
  obtain ⟨same, grows⟩ := step_clock inv taken
  have soon : ∀ reading, s'.readings ≤ reading → due < s'.clock reading / 1000 + 2 ^ 31 := by
    intro reading later
    rw [same]
    exact dozing.soon reading (by omega)
  rcases i.switches with ⟨rounds, rfl⟩ | other
  · obtain ⟨behind, pc, control, live, fields⟩ := step_switch_frame inv taken
    have elsewhere : s'.current ≠ p := fun resumed => stays ⟨⟨rounds, rfl⟩, resumed⟩
    constructor
    · rw [live]
      exact dozing.alive
    · rw [control]
      by_cases own : p = s.current
      · obtain rfl := Pc.schedule.inj (pc.symm.trans (own ▸ dozing.away own.symm))
        left
        rw [own, Function.update_self]
      · rw [Function.update_of_ne own]
        exact dozing.inside
    · intro current
      exact absurd current elsewhere
    · rw [fields]
      exact dozing.stored
    · exact soon
  · obtain ⟨alive, pc, block⟩ := dozing.kept inv taken other
    constructor
    · exact alive
    · rw [pc]
      exact dozing.inside
    · intro current
      rw [(step_cases taken).2.current other] at current
      rw [pc]
      exact dozing.away current
    · rcases block with same | ⟨ev, _, _, _, dispatched⟩
      · rw [same]
        exact dozing.stored
      · rw [dispatched]
        unfold TaskStruct.dispatch
        split
        · exact dozing.stored
        · exact dozing.stored
    · exact soon

/-- A task that has called `co_sleep` and was not resumed is dozing. -/
theorem dozing_of_run (monotone : Monotone clock) (run : ThreadRun self clock past s)
    (asleep : Asleep p due past) : Dozing p due s := by
  induction run with
  | start => cases asleep
  | move before taken ih =>
    rw [← clock_of_run before] at monotone
    cases asleep with
    | calls _ _ seconds call own fits deadline =>
      obtain rfl := call
      obtain rfl := own
      rw [deadline]
      exact dozing_of_call monotone fits taken
    | stays _ _ asleep stays =>
      exact (ih asleep).step (integrity_of_run before) taken stays

/-! ## Readings and deadlines -/

/-- Remainders compare as the times do exactly when the times are comparable. -/
theorem comparable_iff {due now : Nat} (soon : due < now + 2 ^ 31) :
    (due % 2 ^ 32 < now % 2 ^ 32 ↔ due < now) ↔ Comparable due now := by
  unfold Comparable
  omega

/-- A reading for a dozing task is late exactly when the remainders say so. -/
theorem Dozing.late_iff (dozing : Dozing p due s) (inv : Integrity s) {t u : State}
    (examined : Examination ⟨s, i, s'⟩ p t u) :
    (Late p u ↔ due % 2 ^ 32 < realTime u % 2 ^ 32) ∧ due < realTime u + 2 ^ 31 := by
  obtain ⟨behind, _, slot, _, pc, scans, examines⟩ := examined
  have gone : Integrity (s.goto behind) := inv.behind pc
  have here := scans.tabled gone.tabled
  have woken := (scans.woken gone.tabled).trans (scanTo_changes here.tableLive examines.reaches)
  have stored : (u.tasks p).wakeuptime.toNat = due % 2 ^ 32 := by
    rw [woken.fields]
    exact dozing.stored
  have first : s.readings ≤ t.readings := scans.readings gone.tabled
  have later := (scanTo_readings here.tableLive examines.reaches).1
  constructor
  · unfold Late
    rw [gt_iff_lt, BitVec.lt_def, stored, getmstime_toNat]
  · have clock : u.clock = s.clock := woken.clock
    unfold realTime
    rw [clock]
    exact dozing.soon u.readings (by omega)

/-- A scan of a reachable call wakes the tasks it examines exactly when the readings are late. -/
theorem Examination.status {t t' u : State} (examined : Examination ⟨s, i, s'⟩ p t u)
    (inv : Integrity s) (scanned : scan t = .ok t') :
    (t'.tasks p).status = .running ↔ Late p u := by
  obtain ⟨behind, _, slot, _, pc, scans, examines⟩ := examined
  have gone : Integrity (s.goto behind) := inv.behind pc
  exact scan_status (scans.tabled gone.tabled) scanned examines

/-- Every scan of a reachable call ends. -/
theorem Examination.scanned {t u : State} (examined : Examination ⟨s, i, s'⟩ p t u)
    (inv : Integrity s) : ∃ t', scan t = .ok t' := by
  obtain ⟨behind, _, slot, _, pc, scans, examines⟩ := examined
  have gone : Integrity (s.goto behind) := inv.behind pc
  obtain ⟨t', ok, _⟩ := scan_spec (scans.tabled gone.tabled).tableLive
  exact ⟨t', ok⟩

/-- A step wakes sleeping tasks as their deadlines say exactly when its readings are comparable
with the deadlines and it hands no event to a sleeping task. -/
theorem punctual_iff (monotone : Monotone clock) (run : ThreadRun self clock past s)
    (taken : step s i = .ok s') : Punctual past ⟨s, i, s'⟩ ↔ Undisturbed past ⟨s, i, s'⟩ := by
  have inv := integrity_of_run run
  apply forall_congr'
  intro p
  apply forall_congr'
  intro due
  apply imp_congr_right
  intro asleep
  have dozing := dozing_of_run monotone run asleep
  apply and_congr
  · -- the scans
    constructor
    · intro punctual t u examined
      obtain ⟨t', scanned⟩ := examined.scanned inv
      obtain ⟨late, soon⟩ := dozing.late_iff inv examined
      apply (comparable_iff soon).mp
      rw [← late, ← examined.status inv scanned]
      exact punctual t t' u examined scanned
    · intro comparable t t' u examined scanned
      obtain ⟨late, soon⟩ := dozing.late_iff inv examined
      rw [examined.status inv scanned, late]
      exact (comparable_iff soon).mpr (comparable t u examined)
  · -- the other steps
    constructor
    · intro stays ev rest handles first sleeping
      obtain ⟨rfl, q, first', _, tasks, _⟩ := step_handled taken handles
      obtain rfl := Option.some.inj (first.symm.trans first')
      apply Classical.byContradiction
      intro meets
      have still : (s'.tasks p).status = .sleep := stays (by simp) sleeping
      rw [tasks, Function.update_self, TaskStruct.dispatch_meets meets] at still
      cases still
    · intro misses other sleeping
      obtain ⟨_, _, same | ⟨ev, rest, handles, first, dispatched⟩⟩ := dozing.kept inv taken other
      · show (s'.tasks p).status = .sleep
        rw [same]
        exact sleeping
      · show (s'.tasks p).status = .sleep
        rw [dispatched, TaskStruct.dispatch, if_neg]
        · exact sleeping
        · intro meets
          exact meets (misses ev rest handles first sleeping)

/-! ## Resuming -/

/-- While a task sleeps in a punctual history, it is still asleep or was examined past its
deadline. -/
def Waking (past : History) (s : State) : Prop :=
  ∀ p due, Asleep p due past → (s.tasks p).status = .sleep ∨
    ∃ earlier ∈ past, ∃ t u, Examination earlier p t u ∧ due < realTime u

/-- A scan of a punctual call makes a dozing task running only past its deadline. -/
theorem waking_pick {rounds : Nat} (inv : Integrity s)
    (taken : step s (.pick rounds) = .ok s') (asleep : Asleep p due past)
    (punctual : Punctual past ⟨s, .pick rounds, s'⟩)
    (sleeping : (s.tasks p).status = .sleep) : (s'.tasks p).status = .sleep ∨
      ∃ t u, Examination ⟨s, .pick rounds, s'⟩ p t u ∧ due < realTime u := by
  obtain ⟨behind, picked, pc, gone, found, _, after⟩ := step_switch inv taken
  have same : s'.tasks = picked.tasks := by rw [after]
  by_cases seen : Seen (s.goto behind) p
  · right
    obtain ⟨t, slot, u, scans, examines, late⟩ := seen
    have examined : Examination ⟨s, .pick rounds, s'⟩ p t u :=
      ⟨behind, rounds, slot, rfl, pc, scans, examines⟩
    obtain ⟨t', scanned⟩ := examined.scanned inv
    have running := (examined.status inv scanned).mpr late
    exact ⟨t, u, examined, ((punctual p due asleep).1 t t' u examined scanned).mp running⟩
  · left
    obtain ⟨t, scans, last⟩ := pick_scans gone.tabled found
    rw [same]
    rcases scanTo_late (scans.tabled gone.tabled) last p with kept | ⟨j, v, _, examines, late⟩
    · rw [kept, scans.unseen gone.tabled seen]
      exact sleeping
    · exact absurd ⟨t, j, v, scans, examines, late⟩ seen

/-- A resumed task is running. -/
theorem Resumed.running {move : Move State Input} (resumes : Resumed p move)
    (inv : Integrity move.before) (taken : step move.before move.input = .ok move.after) :
    (move.after.tasks p).status = .running := by
  obtain ⟨⟨rounds, call⟩, rfl⟩ := resumes
  rw [call] at taken
  exact step_pick inv taken

/-- In a punctual step a task that sleeps on is still asleep, or is examined past its
deadline. -/
theorem waking_step (inv : Integrity s) (taken : step s i = .ok s')
    (punctual : Punctual past ⟨s, i, s'⟩) (asleep : Asleep p due past)
    (sleeping : (s.tasks p).status = .sleep) : (s'.tasks p).status = .sleep ∨
      ∃ t u, Examination ⟨s, i, s'⟩ p t u ∧ due < realTime u := by
  rcases i.switches with ⟨rounds, rfl⟩ | other
  · exact waking_pick inv taken asleep punctual sleeping
  · left
    exact (punctual p due asleep).2 other sleeping

/-- In a punctual run no task is resumed early. -/
theorem not_early (run : ThreadRun self clock past s)
    (punctual : Throughout Punctual past) : Throughout NotEarly past ∧ Waking past s := by
  apply run.throughout_invariant Punctual
    (fun past s => Throughout NotEarly past ∧ Waking past s) ?_ ?_ punctual
  · refine ⟨trivial, ?_⟩
    intro p due asleep
    cases asleep
  · intro past s i s' before held last taken
    obtain ⟨earlier, waking⟩ := held
    have inv := integrity_of_run before
    -- what the step leaves of a task that sleeps on
    have onward : ∀ p due, Asleep p due past → (s'.tasks p).status = .sleep ∨
        ∃ move ∈ (⟨s, i, s'⟩ :: past : History), ∃ t u, Examination move p t u ∧
          due < realTime u := by
      intro p due asleep
      rcases waking p due asleep with sleeping | ⟨move, member, examined⟩
      · rcases waking_step inv taken last asleep sleeping with still | examined
        · exact .inl still
        · exact .inr ⟨_, List.mem_cons_self, examined⟩
      · exact .inr ⟨move, List.mem_cons_of_mem _ member, examined⟩
    refine ⟨⟨?_, earlier⟩, ?_⟩
    · intro p due asleep resumes
      rcases onward p due asleep with still | examined
      · cases still.symm.trans (resumes.running inv taken)
      · exact examined
    · intro p due asleep
      cases asleep with
      | calls _ _ seconds call own =>
        left
        obtain rfl := call
        obtain rfl := own
        obtain ⟨_, kind⟩ := step_cases taken
        cases kind
        simp [coSleep, State.goto, State.modify, getmstime]
      | stays _ _ asleep => exact onward p due asleep

/-! ## The length of a sleep -/

/-- With a clock that does not go back, the sleeping tasks of a run are woken exactly as their
deadlines say if and only if every reading for a sleeping task is comparable with its deadline
and no event is handed to a sleeping task; and then no task is resumed before a scan has
examined it past its deadline. -/
theorem sleep_duration_is_respected (monotone : Monotone clock)
    (run : ThreadRun self clock past s) :
    (Throughout Punctual past ↔ Throughout Undisturbed past) ∧
      (Throughout Undisturbed past → Throughout NotEarly past) := by
  have exactly : Throughout Punctual past ↔ Throughout Undisturbed past :=
    run.throughout_congr fun past s i s' before taken => punctual_iff monotone before taken
  exact ⟨exactly, fun undisturbed => (not_early run (exactly.mpr undisturbed)).1⟩

/-- The only task of a thread has called `co_sleep` for a second. -/
def dozed (clock : Nat → Nat) : State := (coSleep 1 (State.init 0 clock)).goto (.schedule .user)

/-- The call is the first step of a run. -/
theorem run_dozed (clock : Nat → Nat) :
    ThreadRun 0 clock [⟨State.init 0 clock, .sleep 1, dozed clock⟩] (dozed clock) :=
  .move .start rfl

/-- When the second reading is late, the task is resumed behind it. -/
theorem resumed_dozed (clock : Nat → Nat) (late : Late initTask ((dozed clock).goto .user)) :
    ∃ s', step (dozed clock) (.pick 1) = .ok s' ∧
      Resumed initTask ⟨dozed clock, .pick 1, s'⟩ ∧
      ∀ p t u, Examination ⟨dozed clock, .pick 1, s'⟩ p t u → realTime u = clock 1 / 1000 := by
  have inv : Integrity ((dozed clock).goto .user) :=
    (integrity_of_run (run_dozed clock)).behind rfl
  have tabled := inv.tabled
  have examines : Examines ((dozed clock).goto .user) 0 initTask ((dozed clock).goto .user) :=
    ⟨by decide, rfl, rfl, rfl⟩
  obtain ⟨t', scanned, woken⟩ := scan_spec tabled.tableLive
  have running := (scan_status tabled scanned examines).mpr late
  have runs : RunningSlot t' 0 := ⟨initTask, by rw [woken.env]; rfl, running⟩
  have slots : ∀ j p, t'.task j = some p → p = initTask := by
    intro j p slot
    rw [woken.env] at slot
    by_cases root : j = 0
    · subst root
      exact (Option.some.inj slot).symm
    · simp [dozed, coSleep, State.goto, State.modify, getmstime, State.init,
        Function.update_of_ne root] at slot
  obtain ⟨middle, scanned', _, ⟨p, returned, ⟨_, j, _, slot, _⟩⟩ | ⟨_, idle⟩⟩ :=
    pick_round tabled.tableLive tabled.seated 0
  case inr =>
    obtain rfl := Except.ok.inj (scanned'.symm.trans scanned)
    exact absurd runs (idle 0 (by decide))
  obtain rfl := Except.ok.inj (scanned'.symm.trans scanned)
  obtain rfl := slots j p slot
  have alive : middle.live initTask = true := by
    rw [woken.live]
    rfl
  have own : (middle.tasks initTask).threadEnv = some middle.self := by
    rw [woken.fields, woken.self]
    rfl
  have still : middle.current = initTask := by
    rw [woken.env]
    rfl
  have switched : coSwitchTo middle initTask = .ok middle := by
    simp [coSwitchTo, State.deref, alive, own, still, bind, Except.bind]
  have taken : step (dozed clock) (.pick 1) = .ok middle := by
    show (pick 1 ((dozed clock).goto .user) >>= fun found => coSwitchTo found.1 found.2) = _
    rw [returned]
    exact switched
  refine ⟨middle, taken, ⟨⟨1, rfl⟩, still⟩, ?_⟩
  rintro q t u ⟨behind, _, i, _, pc, scans, examined⟩
  obtain rfl : Pc.user = behind := Pc.schedule.inj pc
  obtain rfl := scans.only tabled scanned (by decide) runs
  obtain ⟨held, _⟩ := examined.before tabled
  have same : q = initTask := by
    apply slots i q
    rw [woken.env]
    exact held
  subst same
  rw [examined.unique examines tabled]
  rfl

/-- The clock of a thread that starts at time 0 and reads two seconds from then on. -/
def leaping (reading : Nat) : Nat := min reading 1 * 2000000

/-- After a sleep of one second the task is not resumed early. -/
theorem sleep_duration_is_respected_leaping : ∃ s', step (dozed leaping) (.pick 1) = .ok s' ∧
    Throughout NotEarly
      [⟨dozed leaping, .pick 1, s'⟩, ⟨State.init 0 leaping, .sleep 1, dozed leaping⟩] := by
  obtain ⟨s', taken, resumes, reading⟩ := resumed_dozed leaping (by decide)
  have monotone : Monotone leaping := by
    intro first second later
    unfold leaping
    omega
  have run := Run.move (run_dozed leaping) taken
  refine ⟨s', taken, (sleep_duration_is_respected monotone run).2 ⟨?_, ?_, trivial⟩⟩
  · intro p due asleep
    constructor
    · intro t u examined
      have deadline : due = 1000 := by
        cases asleep with
        | calls _ _ seconds call own fits deadline =>
          have called : (1 : Int) = seconds := Input.sleep.inj call
          obtain rfl : seconds = 1 := by omega
          exact deadline
        | stays _ _ asleep => cases asleep
      rw [reading p t u examined, deadline]
      exact .inl (by decide)
    · intro ev rest handles
      cases handles
  · intro p due asleep
    cases asleep

/-- The clock of a thread that starts half a second before its milliseconds wrap. -/
def wrapping (reading : Nat) : Nat := (2 ^ 32 - 500 + reading) * 1000

/-- Not every sleep lasts: a call for a second half a second before the wrap is resumed by a
scan that reads the clock one millisecond later. -/
theorem sleep_duration_is_respected_fails : ¬∀ (clock : Nat → Nat) (past : History) (s : State),
    Monotone clock → ThreadRun 0 clock past s → Throughout NotEarly past := by
  intro neverEarly
  obtain ⟨s', taken, resumes, reading⟩ := resumed_dozed wrapping (by decide)
  have monotone : Monotone wrapping := by
    intro first second later
    unfold wrapping
    omega
  have run := Run.move (run_dozed wrapping) taken
  have asleep : Asleep initTask (2 ^ 32 + 500)
      [⟨State.init 0 wrapping, .sleep 1, dozed wrapping⟩] :=
    .calls _ _ 1 rfl rfl (by decide) (by decide)
  obtain ⟨early, _⟩ := neverEarly _ _ _ monotone run
  obtain ⟨earlier, member, t, u, examined, late⟩ := early initTask _ asleep resumes
  rcases List.mem_cons.mp member with rfl | member
  · rw [reading initTask t u examined] at late
    exact absurd late (by decide)
  · obtain rfl := List.mem_singleton.mp member
    obtain ⟨_, _, _, call, _⟩ := examined
    cases call

end LibcoLite
