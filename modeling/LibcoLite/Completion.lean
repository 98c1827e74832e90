import LibcoLite.Demo01
import LibcoLite.Sleepers
import Mathlib.Algebra.BigOperators.Group.Finset.Piecewise
import Mathlib.Algebra.Order.BigOperators.Group.Finset

/-!
# A thread comes to its end

What a thread of `demo01.c` still has to do becomes less with every step in its own code. While
it waits in `co_join` the turns go round, until the clock wakes a sleeper. So it comes to its
end, unless a task is put to sleep for ever.
-/

namespace LibcoLite.Demo01

open Transition (Reaches Run)

/-- The steps a routine takes behind its loop. -/
def rank : Pc → Nat
  | .cleanup => 1
  | .finished => 0
  | .schedule behind => rank behind
  | _ => 2

/-- What a task has to do at a place, where it is at a control point. -/
def Place.load (pc : Pc) : Place → Nat
  | .creates fn rest tids =>
    ((fn :: rest).map fun routine => routine.rounds + 3).sum + 2 * (tids.length + rest.length + 2)
  | .loops i tids => i + 2 * tids.length + if pc.joining.isSome then 1 else 0
  | .lost => 0
  | .body _ i => i + rank pc

/-- What a live task has to do. -/
def loadOf (w : World Place) (p : TaskPtr) : Nat :=
  if w.thread.live p then (w.places p).load (w.thread.pc p) else 0

/-- What a thread of so many routines has to do. -/
def work (routines : Nat) (w : World Place) : Nat :=
  ∑ p ∈ Finset.range (routines + 1), loadOf w p

/-- A call of `schedule` adds nothing. -/
@[simp]
theorem Place.load_schedule (behind : Pc) (place : Place) :
    place.load (.schedule behind) = place.load behind := by
  cases place <;> rfl

/-- A sum becomes smaller where one term loses more than another one gains. -/
theorem sum_less (p q gain loss : Nat) {size : Nat} {before after : Nat → Nat}
    (inside : p < size) (less : gain < loss)
    (each : ∀ r < size, after r + (if p = r then loss else 0) ≤
      before r + if q = r then gain else 0) :
    ∑ r ∈ Finset.range size, after r < ∑ r ∈ Finset.range size, before r := by
  have whole := Finset.sum_le_sum fun r member => each r (Finset.mem_range.mp member)
  rw [Finset.sum_add_distrib, Finset.sum_add_distrib, Finset.sum_ite_eq, Finset.sum_ite_eq,
    if_pos (Finset.mem_range.mpr inside)] at whole
  split at whole <;> omega

variable {workers : List Fun} {self : EnvPtr} {clock : Nat → Nat} {past : WorldHistory Place}
  {w w' : World Place} {made joined : Nat}

/-- A task is one of those that are counted. -/
theorem Forked.counted (forked : Forked workers past w made joined) (inv : Integrity w.thread)
    {p : TaskPtr} (alive : w.thread.live p = true) : p < workers.length + 1 := by
  have few := forked.few
  rcases forked.alive inv alive with rfl | ⟨k, _, high, rfl⟩
  · exact Nat.succ_pos _
  · exact Nat.succ_lt_succ (Nat.lt_of_lt_of_le high few)

/-- There is less to do behind a step in which the current task has come on, and no other one has
got more to do. -/
theorem Forked.less (forked : Forked workers past w made joined) (inv : Integrity w.thread)
    (others : ∀ p, p ≠ w.thread.current → loadOf w' p ≤ loadOf w p)
    (own : loadOf w' w.thread.current < loadOf w w.thread.current) :
    work workers.length w' < work workers.length w := by
  refine sum_less w.thread.current 0 0 1 (forked.counted inv inv.seated.alive) Nat.one_pos ?_
  intro r _
  by_cases here : w.thread.current = r
  · subst here
    rw [if_pos rfl]
    split <;> omega
  · rw [if_neg here]
    have kept := others r (Ne.symm here)
    split <;> omega

/-- There is less to do where the current task alone has come on. -/
theorem Forked.onward (forked : Forked workers past w made joined) (inv : Integrity w.thread)
    {pc : Pc} {place : Place} (live : w'.thread.live = w.thread.live)
    (control : w'.thread.pc = Function.update w.thread.pc w.thread.current pc)
    (places : w'.places = Function.update w.places w.thread.current place)
    (less : place.load pc < w.place.load (w.thread.pc w.thread.current)) :
    work workers.length w' < work workers.length w := by
  apply forked.less inv
  · intro p away
    unfold loadOf
    rw [live, control, places, Function.update_of_ne away, Function.update_of_ne away]
  · unfold loadOf
    rw [live, control, places, Function.update_self, Function.update_self,
      if_pos inv.seated.alive, if_pos inv.seated.alive]
    exact less

/-- A thread that has made a coroutine has less to do, by all of the coroutine and a step. -/
theorem load_created (fn : Fun) (rest : List Fun) (tids : List Nat) (id : Nat) :
    (threads.created (.creates fn rest tids) (some id)).load .user + (fn.rounds + 3) =
      (Place.creates fn rest tids).load .user := by
  cases rest with
  | nil =>
    simp [threads, Place.load, Pc.joining]
    omega
  | cons next rest =>
    simp [threads, Place.load]
    omega

/-- There is less to do behind the creation of a coroutine. -/
theorem Forked.created_less (forked : Forked workers past w made joined)
    (inv : Integrity w.thread) {thread : State} {routine : Place} {id : Nat}
    (taken : LibcoLite.step w.thread (.create (some 0)) = .ok thread)
    (does : threads.action w.place = .create routine)
    (user : w.thread.pc w.thread.current = .user) (stored : w.nextId = some id) (w' : World Place)
    (same : w' = w.spawn thread (threads.created w.place (some id)) routine) :
    work workers.length w' < work workers.length w := by
  obtain ⟨_, _, _, _, control, live⟩ := created_thread taken stored
  obtain ⟨initial, _, fn, rest, there, rfl, _⟩ := forked.creating inv does
  have root : initTask ≠ w.thread.fresh := inv.notFresh inv.rootLive
  refine sum_less initTask w.thread.fresh (fn.rounds + 2) (fn.rounds + 3) (Nat.succ_pos _)
    (Nat.lt_succ_self _) ?_
  intro r _
  by_cases here : initTask = r
  · subst here
    have before : loadOf w initTask =
        (Place.creates fn rest (List.range' 1 made)).load .user := by
      rw [loadOf, if_pos inv.rootLive, ← initial, user, ← World.place, there]
    have after : loadOf w' initTask =
        (threads.created (.creates fn rest (List.range' 1 made)) (some id)).load .user := by
      have place : w'.places initTask =
          threads.created (.creates fn rest (List.range' 1 made)) (some id) := by
        rw [same, there]
        simp [World.spawn, Function.update_of_ne root, initial]
      have pc : w'.thread.pc initTask = .user := by
        rw [same]
        show thread.pc initTask = .user
        rw [control, Function.update_of_ne root, ← initial, user]
      have alive : w'.thread.live initTask = true := by
        rw [same]
        show thread.live initTask = true
        rw [live, Function.update_of_ne root, inv.rootLive]
      rw [loadOf, if_pos alive, place, pc]
    rw [if_pos rfl, if_neg (Ne.symm root), before, after]
    exact Nat.le_of_eq (load_created fn rest _ id)
  · rw [if_neg here]
    by_cases new : w.thread.fresh = r
    · subst new
      have after : loadOf w' w.thread.fresh = fn.rounds + 2 := by
        rw [same]
        simp [loadOf, World.spawn, live, control, Place.load, rank]
      rw [if_pos rfl, after]
      omega
    · have kept : loadOf w' r = loadOf w r := by
        rw [same]
        simp [loadOf, World.spawn, live, control, Function.update_of_ne (Ne.symm new), initial,
          Function.update_of_ne (Ne.symm here)]
      rw [if_neg new, kept]

/-- There is less to do behind a step in the tasks' own code. -/
theorem Forked.own_less (forked : Forked workers past w made joined) (inv : Integrity w.thread)
    (few : workers.length < nrTasks) {granted : Bool}
    (taken : w.step threads (.own granted) = .ok w') :
    work workers.length w' < work workers.length w := by
  have stepped := world_thread taken
  cases world_cases taken with
  | creates _ thread routine id user does stored =>
    simp only [World.input, does] at stepped
    exact forked.created_less inv stepped does user stored _ rfl
  | full _ thread routine user does full => exact absurd full (forked.finds inv few does)
  | joins _ thread cid user does =>
    simp only [World.input, does] at stepped
    obtain ⟨tids, there⟩ := place_of_join does
    obtain ⟨_, kind⟩ := step_cases stepped
    cases kind with
    | join =>
      refine forked.onward inv rfl rfl rfl ?_
      rw [there, user]
      simp [threads, Place.load, Pc.joining]
      omega
  | sleeps _ thread seconds user does =>
    simp only [World.input, does] at stepped
    obtain ⟨_, kind⟩ := step_cases stepped
    cases kind with
    | sleep =>
      refine forked.onward inv rfl rfl rfl ?_
      rw [user]
      rcases place_of_sleep does with ⟨i, tids, there⟩ | ⟨fn, i, there⟩
      · rw [there]
        simp [threads, Place.load, Pc.joining]
      · rw [there]
        simp [threads, Place.load, rank]
  | calls _ _ call fd _ does => exact absurd does ((dry_threads _).1 call fd)
  | refused _ _ call fd _ does => exact absurd does ((dry_threads _).1 call fd)
  | loops _ _ _ does => exact absurd does (dry_threads _).2.1
  | returns _ thread user does =>
    simp only [World.input, does] at stepped
    obtain ⟨_, kind⟩ := step_cases stepped
    cases kind with
    | ret _ notInit =>
      rcases forked.task inv with ⟨initial, _⟩ | ⟨_, _, _, _, fn, i, _, there, _⟩
      · exact absurd initial notInit
      · refine forked.onward inv rfl rfl (Function.update_eq_self _ _).symm ?_
        rw [user]
        show w.place.load .cleanup < w.place.load .user
        rw [there]
        simp [Place.load, rank]

/-- There is as much to do where no task is freed or comes on. -/
theorem work_same (routines : Nat) (live : w'.thread.live = w.thread.live)
    (places : w'.places = w.places)
    (control : ∀ p, (w.places p).load (w'.thread.pc p) = (w.places p).load (w.thread.pc p)) :
    work routines w' = work routines w := by
  refine Finset.sum_congr rfl fun p _ => ?_
  unfold loadOf
  rw [live, places, control]

/-- There is as much to do behind a switch. -/
theorem work_switched (routines : Nat) (inv : Integrity w.thread) {rounds : Nat} {behind : Pc}
    (pc : w.thread.pc w.thread.current = .schedule behind)
    (taken : w.step threads (.library (.pick rounds)) = .ok w') :
    work routines w' = work routines w := by
  have stepped := world_thread taken
  obtain ⟨_, _, _, live, _⟩ := step_switch_frame inv stepped
  refine work_same routines live (world_switched pc taken) fun p => ?_
  exact step_switch_pc (w.places p).load (fun next => (w.places p).load_schedule next) inv
    stepped p

/-- There is as much to do where a task gives up its turn. -/
theorem work_yielded (routines : Nat) (thread : State)
    (same : thread = w.thread.goto (.schedule (w.thread.pc w.thread.current))) :
    work routines { w with thread } = work routines w := by
  subst same
  refine work_same routines rfl rfl fun p => ?_
  show (w.places p).load (Function.update w.thread.pc w.thread.current _ p) = _
  by_cases own : p = w.thread.current
  · rw [own, Function.update_self, Place.load_schedule]
  · rw [Function.update_of_ne own]

/-- There is less to do behind the end of a routine. -/
theorem Forked.cleaned_less (forked : Forked workers past w made joined)
    (inv : Integrity w.thread) (pc : w.thread.pc w.thread.current = .cleanup) :
    work workers.length { w with thread := w.thread.goto (.schedule .finished) } <
      work workers.length w := by
  rcases forked.task inv with ⟨initial, _⟩ | ⟨_, _, _, _, fn, i, _, there, _⟩
  · have stays := inv.stays
    rw [← initial, pc] at stays
    exact absurd trivial stays
  · refine forked.onward inv rfl rfl (Function.update_eq_self _ _).symm ?_
    rw [pc]
    show w.place.load (.schedule .finished) < w.place.load .cleanup
    rw [there]
    simp [Place.load, rank]

/-- A thread in `co_join` is behind its loop. -/
theorem Forked.outward (forked : Forked workers past w made joined) (inv : Integrity w.thread)
    {cid : Nat} (calls : (w.thread.pc w.thread.current).joining = some cid) :
    ∃ tids, w.places w.thread.current = .loops 0 tids := by
  have stage := forked.stage
  rw [← forked.joiner inv calls, calls] at stage
  obtain ⟨_, _, _, place⟩ := stage.within
  exact ⟨_, place⟩

/-- A call of `co_join` that goes on gives up its turn, since its coroutine has not exited, or
there is less to do behind it. -/
theorem Forked.joins (forked : Forked workers past w made joined) (inv : Integrity w.thread)
    {cid : Nat} {thread : State} (pc : w.thread.pc w.thread.current = .join cid)
    (stepped : LibcoLite.step w.thread .run = .ok thread) :
    (thread = w.thread.goto (.schedule (.join cid)) ∧
      (w.thread.tasks cid).status ≠ .exit) ∨
      work workers.length { w with thread } < work workers.length w := by
  obtain ⟨k, _, _, rfl, held⟩ := forked.filled inv (congrArg Pc.joining pc)
  have initial := forked.joiner inv (congrArg Pc.joining pc)
  obtain ⟨_, kind⟩ := step_cases stepped
  cases kind with
  | joinAgain cid p here _ slot _ more =>
    obtain rfl := Pc.join.inj (here.symm.trans pc)
    obtain rfl := Option.some.inj (slot.symm.trans held)
    exact .inl ⟨rfl, more⟩
  | joinEnd cid p here _ slot _ exited =>
    obtain rfl := Pc.join.inj (here.symm.trans pc)
    obtain rfl := Option.some.inj (slot.symm.trans held)
    have away : w.thread.current ≠ k + 1 := by
      rw [initial]
      exact Ne.symm (Nat.succ_ne_zero k)
    refine .inr (forked.less inv ?_ ?_)
    · intro p other
      by_cases gone : p = k + 1
      · subst gone
        simp [loadOf, State.goto, State.free]
      · simp [loadOf, State.goto, State.free, Function.update_of_ne gone,
          Function.update_of_ne other]
    · obtain ⟨tids, place⟩ := forked.outward inv (congrArg Pc.joining pc)
      have alive := inv.seated.alive
      simp [loadOf, State.goto, State.free, Function.update_of_ne away, alive, place, pc,
        Place.load, Pc.joining]
  | _ => simp_all

/-! ## To the end -/

/-- A thread is behind its last `co_join`, before it returns. -/
structure Over (w : World Place) : Prop where
  /-- The initial task executes. -/
  initial : w.thread.current = initTask
  /-- It is in its own code. -/
  outside : w.thread.pc initTask = .user
  /-- It has nothing left to do. -/
  behind : w.places initTask = .loops 0 []

/-- A thread is over, or a task of it sleeps for ever. -/
def Done (w : World Place) : Prop := Over w ∨ ∃ p, Forever p w.thread

/-- A thread gets to the world, in which it has less to do. -/
def Nearer (fn : Fun) (rest : List Fun) (self : EnvPtr) (clock : Nat → Nat) (least : Nat)
    (w : World Place) : Prop :=
  (∃ past, ThreadsRun fn rest self clock past w) ∧ work (fn :: rest).length w < least

variable {fn : Fun} {rest : List Fun} {least reading : Nat}

/-- A task's own code goes on, unless the thread is over, and there is less to do behind it. -/
theorem own_nearer (few : (fn :: rest).length < nrTasks)
    (run : ThreadsRun fn rest self clock past w) (user : w.thread.pc w.thread.current = .user)
    (upTo : work (fn :: rest).length w ≤ least) :
    Reaches (World.step threads) w fun w' => Done w' ∨ Nearer fn rest self clock least w' := by
  have inv := world_integrity run
  obtain ⟨made, joined, forked⟩ := forked_of_run few run
  cases taken : w.step threads (.own true) with
  | error stop =>
    obtain ⟨_, ends⟩ := dry_threads.own_stops inv user taken
    obtain ⟨initial, outside, behind⟩ := forked.ends inv user ends
    exact .here (.inl (.inl ⟨initial, outside, behind⟩))
  | ok w' =>
    have less := forked.own_less inv few taken
    exact .move taken (.here (.inr ⟨⟨_, .move run taken⟩, Nat.lt_of_lt_of_le less upTo⟩))

/-- A turn that is given up in `co_join` is taken by a coroutine, or the clock has come nearer to
the last number. -/
theorem turn_taken (few : (fn :: rest).length < nrTasks)
    (run : ThreadsRun fn rest self clock past w) (mortal : ∀ p, ¬Forever p w.thread) {cid : Nat}
    (pc : w.thread.pc w.thread.current = .schedule (.join cid))
    (more : (w.thread.tasks cid).status ≠ .exit)
    (runs : (w.thread.tasks w.thread.current).status = .running)
    (shows : shown clock reading = lastMs) (low : w.thread.readings ≤ reading) :
    ∃ w', w.step threads (.library (.pick 1)) = .ok w' ∧
      (w'.thread.current ≠ w.thread.current ∨
        w.thread.readings < w'.thread.readings ∧ w'.thread.readings ≤ reading) := by
  have inv := world_integrity run
  obtain ⟨made, joined, forked⟩ := forked_of_run few run
  have calls : (w.thread.pc w.thread.current).joining = some cid := by
    rw [pc]
    rfl
  obtain ⟨k, low', less, rfl, held⟩ := forked.filled inv calls
  have awake := dry_threads.ready run (forked.live inv less low') more
  have other : k + 1 ≠ w.thread.current := by
    rw [forked.joiner inv calls]
    exact Nat.succ_ne_zero k
  obtain ⟨thread, stepped⟩ := schedule_returns inv inv.seated.alive runs pc 0
  have inside : w.thread.pc w.thread.current ≠ .user := by simp [pc]
  refine ⟨_, dry_threads.goes run inside stepped, ?_⟩
  obtain ⟨behind, picked, pc', gone, found, _, after⟩ := step_switch inv stepped
  have turn := pick_passes gone.tabled
    (fun p forever => mortal p (forever_goto.mp forever)) found runs held other
    awake (by rw [← clock_of_run (thread_of_run run)] at shows; exact shows) low
  rcases turn with turn | nearer
  · exact .inl turn
  · refine .inr ?_
    rw [after]
    exact nearer

/-- While the initial task waits in `co_join`, the turns go round until the clock comes to the last
number; so there comes to be less to do. -/
theorem joins_nearer (few : (fn :: rest).length < nrTasks)
    (run : ThreadsRun fn rest self clock past w) {cid : Nat}
    (pc : w.thread.pc w.thread.current = .join cid)
    (upTo : work (fn :: rest).length w ≤ least)
    (shows : shown clock reading = lastMs) (low : w.thread.readings ≤ reading) :
    Reaches (World.step threads) w fun w' => Done w' ∨ Nearer fn rest self clock least w' := by
  refine Reaches.rank (fun w => reading - w.thread.readings)
    (fun w => (∃ past, ThreadsRun fn rest self clock past w) ∧
      (∃ cid, w.thread.pc w.thread.current = .join cid) ∧
      work (fn :: rest).length w ≤ least ∧ w.thread.readings ≤ reading) ?_
    ⟨⟨past, run⟩, ⟨cid, pc⟩, upTo, low⟩
  rintro w ⟨⟨past, run⟩, ⟨cid, pc⟩, upTo, low⟩
  by_cases doomed : ∃ p, Forever p w.thread
  · exact .here (.inl (.inl (.inr doomed)))
  have inv := world_integrity run
  obtain ⟨made, joined, forked⟩ := forked_of_run few run
  obtain ⟨k, _, _, same, held⟩ := forked.filled inv (congrArg Pc.joining pc)
  have initial := forked.joiner inv (congrArg Pc.joining pc)
  have inside : w.thread.pc w.thread.current ≠ .user := by simp [pc]
  obtain ⟨thread, stepped⟩ := joins_on inv pc (by simp [held])
  have taken := dry_threads.goes run inside stepped
  have onward : ThreadsRun fn rest self clock _ { w with thread } := .move run taken
  refine .move taken ?_
  rcases forked.joins inv pc stepped with ⟨rfl, more⟩ | less
  · -- the initial task runs on in `co_join`, and gives up its turn
    have runs : (w.thread.tasks w.thread.current).status = .running := by
      rw [initial]
      rcases dry_threads.rootAwake run with running | asleep
      · exact running
      · rw [← initial] at asleep
        obtain ⟨behind, waits⟩ := asleep_inside (thread_of_run run) asleep
        cases pc.symm.trans waits
    have yields : (w.thread.goto (.schedule (.join cid))).pc w.thread.current =
        .schedule (.join cid) := Function.update_self ..
    have equal : work (fn :: rest).length
        { w with thread := w.thread.goto (.schedule (.join cid)) } =
          work (fn :: rest).length w :=
      work_yielded _ _ (by rw [pc])
    obtain ⟨w', switched, turn⟩ := turn_taken few onward
      (fun p forever => doomed ⟨p, forever_goto.mp forever⟩) yields more runs
      shows low
    have whole : ThreadsRun fn rest self clock _ w' := .move onward switched
    have upTo' : work (fn :: rest).length w' ≤ least := by
      rw [work_switched _ (world_integrity onward) yields switched, equal]
      exact upTo
    refine .move switched ?_
    rcases dry_threads.switched onward switched with user | ⟨cid', pc'⟩
    · exact (own_nearer few whole user upTo').mono fun _ => .inl
    · obtain ⟨made', joined', forked'⟩ := forked_of_run few whole
      have still : w'.thread.current = w.thread.current :=
        (forked'.joiner (world_integrity whole) (congrArg Pc.joining pc')).trans initial.symm
      rcases turn with turn | ⟨later, upTo''⟩
      · exact absurd still turn
      · refine .here (.inr ⟨⟨⟨_, whole⟩, ⟨cid', pc'⟩, upTo', upTo''⟩, ?_⟩)
        have later : w.thread.readings < w'.thread.readings := later
        omega
  · exact .here (.inl (.inr ⟨⟨_, onward⟩, Nat.lt_of_lt_of_le less upTo⟩))

/-- From every world that it gets to, a thread is done in the end, or has less to do. -/
theorem comes_nearer (few : (fn :: rest).length < nrTasks) (exceeding : Exceeding clock)
    (run : ThreadsRun fn rest self clock past w) :
    Reaches (World.step threads) w fun w' =>
      Done w' ∨ Nearer fn rest self clock (work (fn :: rest).length w) w' := by
  have inv := world_integrity run
  obtain ⟨made, joined, forked⟩ := forked_of_run few run
  rcases dry_threads.control run with user | ⟨cid, pc⟩ | pc | ⟨behind, pc⟩
  · exact own_nearer few run user (Nat.le_refl _)
  · obtain ⟨reading, low, shows⟩ := exceeding.last w.thread.readings
    exact joins_nearer few run pc (Nat.le_refl _) shows low
  · have taken := dry_threads.goes run (by simp [pc]) (dry_threads.cleans run pc)
    exact .move taken (.here (.inr ⟨⟨_, .move run taken⟩, forked.cleaned_less inv pc⟩))
  · by_cases doomed : ∃ p, Forever p w.thread
    · exact .here (.inl (.inr doomed))
    obtain ⟨rounds, w', taken⟩ :=
      dry_threads.turns run exceeding (fun p forever => doomed ⟨p, forever⟩) pc
    have whole : ThreadsRun fn rest self clock _ w' := .move run taken
    have same := work_switched (fn :: rest).length inv pc taken
    refine .move taken ?_
    rcases dry_threads.switched run taken with user | ⟨cid, pc'⟩
    · exact own_nearer few whole user (Nat.le_of_eq same)
    · obtain ⟨reading, low, shows⟩ := exceeding.last w'.thread.readings
      exact joins_nearer few whole pc' (Nat.le_of_eq same) shows low

/-- A thread that is over takes no step. -/
theorem Over.ends (ended : Over w) (choice : Choice) (w' : World Place) :
    w.step threads choice ≠ .ok w' := by
  intro taken
  have user : w.thread.pc w.thread.current = .user := by
    rw [ended.initial, ended.outside]
  have does : threads.action w.place = .ret := by
    rw [World.place, ended.initial, ended.behind]
    rfl
  have stepped := world_thread taken
  cases world_cases taken with
  | returns granted =>
    simp only [World.input, does] at stepped
    obtain ⟨_, kind⟩ := step_cases stepped
    cases kind with
    | ret _ notInit => exact notInit ended.initial
  | creates _ _ _ _ _ other => cases does.symm.trans other
  | full _ _ _ _ other => cases does.symm.trans other
  | joins _ _ _ _ other => cases does.symm.trans other
  | sleeps _ _ _ _ other => cases does.symm.trans other
  | calls _ _ _ _ _ other => cases does.symm.trans other
  | refused _ _ _ _ _ other => cases does.symm.trans other
  | loops _ _ _ other => cases does.symm.trans other
  | answers _ _ _ _ pc => cases user.symm.trans pc
  | fails _ _ _ _ pc => cases user.symm.trans pc
  | library _ _ inside => exact inside user

/-- A thread of which a task sleeps for ever is not over. -/
theorem not_over (few : (fn :: rest).length < nrTasks)
    (run : ThreadsRun fn rest self clock past w) {p : TaskPtr} (forever : Forever p w.thread) :
    ¬Over w := by
  intro ended
  have inv := world_integrity run
  obtain ⟨made, joined, forked⟩ := forked_of_run few run
  obtain ⟨_, rfl⟩ := forked.over ended.behind (congrArg Pc.joining ended.outside)
  rcases forked.alive inv forever.alive with rfl | ⟨k, low, less, _⟩
  · have asleep := forever.asleep
    rw [← ended.initial] at asleep
    obtain ⟨behind, pc⟩ := asleep_inside (thread_of_run run) asleep
    rw [ended.initial, ended.outside] at pc
    cases pc
  · omega

/-- With a clock that exceeds every number of milliseconds but the last again and again, a thread
of the program, with any routines that fit into the table, comes to its end behind the last
`co_join`, whatever the environment decides; unless one of its tasks is put to sleep until that
last number. Such a task is never woken, and the thread never comes to its end. -/
theorem threads_come_to_their_end (few : (fn :: rest).length < nrTasks)
    (exceeding : Exceeding clock) (run : ThreadsRun fn rest self clock past w) :
    (∃ later last, Run (World.step threads) w later last ∧
      (∀ other w', Run (World.step threads) w other w' → other.length ≤ later.length →
        ∃ more, Run (World.step threads) w' more last) ∧
      (Over last ∧ (∀ other w', Run (World.step threads) w other w' →
          other.length ≤ later.length) ∨
        ∃ p, Forever p last.thread)) ∧
    ∀ p, Forever p w.thread → ∀ later w', Run (World.step threads) w later w' →
      Forever p w'.thread ∧ ¬Over w' := by
  have forced := dry_threads.forced run
  constructor
  · have reaches : Reaches (World.step threads) w Done := by
      refine Reaches.rank (work (fn :: rest).length)
        (fun w => ∃ past, ThreadsRun fn rest self clock past w) ?_ ⟨past, run⟩
      rintro w ⟨past, run⟩
      exact comes_nearer few exceeding run
    obtain ⟨later, last, onward, done⟩ := reaches
    refine ⟨later, last, onward, ?_, ?_⟩
    · intro other w' run' shorter
      obtain ⟨more, leads, _⟩ := forced.leads run' onward shorter
      exact ⟨more, leads⟩
    · rcases done with ended | forever
      · exact .inl ⟨ended, fun other w' run' => forced.longest onward ended.ends run'⟩
      · exact .inr forever
  · intro p forever later w' onward
    have still := dry_threads.forever_of_run run forever onward
    exact ⟨still, not_over few (run.trans onward) still⟩

/-- A clock that is read every millisecond. -/
def everyMs (reading : Nat) : Nat := reading * 1000

/-- It exceeds every number but the last, each time before it wraps. -/
theorem exceeding_everyMs : Exceeding everyMs := by
  intro ms other reading
  refine ⟨2 ^ 32 * (reading + 1) - 1, by omega, ?_⟩
  have value : (shown everyMs (2 ^ 32 * (reading + 1) - 1)).toNat = 2 ^ 32 - 1 := by
    simp only [shown, everyMs, BitVec.toNat_ofNat]
    omega
  have last : lastMs.toNat = 2 ^ 32 - 1 := by decide
  have less : ms.toNat ≠ lastMs.toNat := fun same => other (BitVec.eq_of_toNat_eq same)
  have bound := ms.isLt
  show ms.toNat < (shown everyMs _).toNat
  omega

/-- `main` comes to its end, unless a task is put to sleep for ever. -/
theorem threads_come_to_their_end_everyMs :
    ∃ later last, Run (World.step threads)
      (World.init 0 everyMs (.creates fun1 [fun2, fun3] [])) later last ∧
        (Over last ∨ ∃ p, Forever p last.thread) := by
  have begins : ThreadsRun fun1 [fun2, fun3] 0 everyMs [] _ := .start
  obtain ⟨⟨later, last, run, _, done⟩, _⟩ :=
    threads_come_to_their_end (by decide) exceeding_everyMs begins
  exact ⟨later, last, run, done.imp_left And.left⟩

end LibcoLite.Demo01
