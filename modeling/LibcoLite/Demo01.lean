import LibcoLite.Dry

/-!
# Coroutines that print and sleep

`demo01.c` on the library: a thread creates coroutines that print a line and sleep, a number of
times each, does so itself, and joins them all. Both threads of the program are of this kind.
Each coroutine is put in the slot behind the one before it, where `co_join` finds it.
-/

namespace LibcoLite.Demo01

open Transition (Move movesOf)

/-- A routine of the program. -/
structure Fun where
  /-- How often it prints its line. -/
  rounds : Nat
  /-- How long it sleeps behind it. -/
  seconds : Int
deriving DecidableEq, Repr

/-- `fun1`. -/
def fun1 : Fun := ⟨2, 4⟩

/-- `fun2`. -/
def fun2 : Fun := ⟨10, 1⟩

/-- `fun3`. -/
def fun3 : Fun := ⟨2, 1⟩

/-- `fun4`. -/
def fun4 : Fun := ⟨8, 1⟩

/-- `fun5`. -/
def fun5 : Fun := ⟨4, 1⟩

/-- Where a task is in its own code, with its variables. -/
inductive Place where
  /-- In `main` or `th_fn`, before the `co_create` of a routine, with the routines behind it and
  the ids that `co_create` has stored. -/
  | creates (fn : Fun) (rest : List Fun) (tids : List Nat)
  /-- In `main` or `th_fn`, before the test of `while (i--)` or, behind the loop, before the
  `co_join` of the first one of the ids. -/
  | loops (i : Nat) (tids : List Nat)
  /-- In `main` or `th_fn`, behind a `co_create` that has stored no id, so that the variable for it
  has no value. -/
  | lost
  /-- In a routine, before the test of `while (i--)`. -/
  | body (fn : Fun) (i : Nat)
deriving DecidableEq, Repr

/-- `main` or `th_fn`, with the routines it creates. -/
def threads : Program Place where
  action
    | .creates fn _ _ => .create (.body fn fn.rounds)
    | .loops (_ + 1) _ => .sleep 3
    | .loops 0 (tid :: _) => .join tid
    | .loops 0 [] => .ret
    | .lost => .exit
    | .body fn (_ + 1) => .sleep fn.seconds
    | .body _ 0 => .ret
  created
    | .creates _ (fn :: rest) tids, some tid => .creates fn rest (tids ++ [tid])
    | .creates _ [] tids, some tid => .loops 2 (tids ++ [tid])
    | _, _ => .lost
  resumed
    | .loops (i + 1) tids => .loops i tids
    | .loops 0 (_ :: tids) => .loops 0 tids
    | .body fn (i + 1) => .body fn i
    | place => place
  answered place _ := place

/-- The runs of a thread that creates some routines. -/
abbrev ThreadsRun (fn : Fun) (rest : List Fun) :
    EnvPtr → (Nat → Nat) → WorldHistory Place → World Place → Prop :=
  WorldRun threads (.creates fn rest [])

/-- The program uses no descriptors, and no arrays. -/
theorem dry_threads : Dry threads := by
  intro place
  cases place with
  | creates => simp [threads]
  | loops i tids =>
    cases i with
    | zero => cases tids <;> simp [threads]
    | succ i => simp [threads]
  | lost => simp [threads]
  | body fn i => cases i <;> simp [threads]

/-- How many lines a task still prints. -/
def Place.left : Place → Nat
  | .creates _ _ _ => 2
  | .loops i _ => i
  | .lost => 0
  | .body _ i => i

/-- The task prints its line in the move, and goes to sleep. -/
def prints (p : TaskPtr) (move : Move (World Place) Choice) : Bool :=
  match move.input, threads.action move.before.place with
  | .own _, .sleep _ => move.before.thread.current = p
  | _, _ => false

/-- How many lines a task has printed. -/
def printed (p : TaskPtr) (past : WorldHistory Place) : Nat := past.countP (prints p)

/-- The call of `co_join` in which a thread is, with the calls that are still to come. -/
inductive Stage (workers : List Fun) (made joined : Nat) : Place → Option Nat → Prop where
  /-- The thread creates its routines. -/
  | creates (fn : Fun) (rest : List Fun) : workers.drop made = fn :: rest → joined = 0 →
      Stage workers made joined (.creates fn rest (List.range' 1 made)) none
  /-- The thread prints its line. -/
  | loops (i : Nat) : made = workers.length → joined = 0 →
      Stage workers made joined (.loops (i + 1) (List.range' 1 made)) none
  /-- The thread is before a call of `co_join`, or behind the last one. -/
  | joins : made = workers.length →
      Stage workers made joined (.loops 0 (List.range' (joined + 1) (made - joined))) none
  /-- The thread is in a call of `co_join`. -/
  | inside (cid : Nat) : made = workers.length → cid = joined + 1 → joined < made →
      Stage workers made joined (.loops 0 (List.range' (cid + 1) (made - cid))) (some cid)

/-- A thread that creates has joined nothing. -/
theorem Stage.creating {workers : List Fun} {made joined : Nat} {fn : Fun} {rest : List Fun}
    {tids : List Nat} {call : Option Nat}
    (stage : Stage workers made joined (.creates fn rest tids) call) :
    workers.drop made = fn :: rest ∧ joined = 0 ∧ tids = List.range' 1 made := by
  cases stage with
  | creates _ _ behind none => exact ⟨behind, none, rfl⟩

/-- A thread that still prints has made all and joined nothing. -/
theorem Stage.printing {workers : List Fun} {made joined : Nat} {i : Nat} {tids : List Nat}
    {call : Option Nat} (stage : Stage workers made joined (.loops (i + 1) tids) call) :
    made = workers.length ∧ joined = 0 ∧ tids = List.range' 1 made := by
  cases stage with
  | loops _ all none => exact ⟨all, none, rfl⟩

/-- A thread outside `co_join` behind its loop has the rest to join. -/
theorem Stage.outside {workers : List Fun} {made joined : Nat} {tids : List Nat}
    (stage : Stage workers made joined (.loops 0 tids) none) :
    made = workers.length ∧ tids = List.range' (joined + 1) (made - joined) := by
  cases stage with
  | joins all => exact ⟨all, rfl⟩

/-- A thread inside `co_join` has called it for the next coroutine. -/
theorem Stage.within {workers : List Fun} {made joined : Nat} {place : Place} {cid : Nat}
    (stage : Stage workers made joined place (some cid)) :
    made = workers.length ∧ cid = joined + 1 ∧ joined < made ∧
      place = .loops 0 (List.range' (cid + 1) (made - cid)) := by
  cases stage with
  | inside _ all next more => exact ⟨all, next, more, rfl⟩

/-- A thread that has made and joined so many of its coroutines. -/
structure Forked (workers : List Fun) (past : WorldHistory Place) (w : World Place)
    (made joined : Nat) : Prop where
  /-- The blocks have been taken one after the other. -/
  fresh : w.thread.fresh = made + 1
  /-- Joined coroutines have been made. -/
  order : joined ≤ made
  /-- Each coroutine is in the slot of its number. -/
  table : ∀ i, w.thread.task i = if i = 0 ∨ joined < i ∧ i ≤ made then some i else none
  /-- Where the initial task is. -/
  stage : Stage workers made joined (w.places initTask) (w.thread.pc initTask).joining
  /-- Where the coroutines are; those that were joined are behind their loop. -/
  bodies : ∀ k < made, ∃ fn i, workers[k]? = some fn ∧ w.places (k + 1) = .body fn i ∧
    (k < joined → i = 0) ∧ printed (k + 1) past + i = fn.rounds
  /-- No coroutine joins. -/
  silent : ∀ k < made, joined ≤ k → (w.thread.pc (k + 1)).joining = none
  /-- What the initial task has printed. -/
  lines : printed initTask past + (w.places initTask).left = 2
  /-- Coroutines that are not made have printed nothing. -/
  unmade : ∀ k, made ≤ k → printed (k + 1) past = 0

variable {workers : List Fun} {self : EnvPtr} {clock : Nat → Nat} {past : WorldHistory Place}
  {w w' : World Place} {choice : Choice} {made joined : Nat}

/-- At the start of a thread no coroutine is made. -/
theorem Forked.init (fn : Fun) (rest : List Fun) (self : EnvPtr) (clock : Nat → Nat) :
    Forked (fn :: rest) [] (World.init self clock (.creates fn rest [])) 0 0 where
  fresh := rfl
  order := Nat.le_refl 0
  table i := by
    by_cases zero : i = 0
    · subst zero
      rfl
    · simp [World.init, State.init, zero]
  stage := .creates fn rest rfl rfl
  bodies k less := absurd less (Nat.not_lt_zero k)
  silent k less := absurd less (Nat.not_lt_zero k)
  lines := rfl
  unmade _ _ := rfl

/-- The live tasks are the initial one and the coroutines that are made and not joined. -/
theorem Forked.alive (forked : Forked workers past w made joined) (inv : Integrity w.thread)
    {p : TaskPtr} (alive : w.thread.live p = true) :
    p = initTask ∨ ∃ k, joined ≤ k ∧ k < made ∧ p = k + 1 := by
  have home := inv.housed p alive
  rw [forked.table] at home
  split at home
  · rename_i held
    rw [Option.some.inj home] at held
    rcases held with initial | ⟨low, high⟩
    · exact .inl initial
    · obtain ⟨k, rfl⟩ : ∃ k, p = k + 1 :=
        Nat.exists_eq_succ_of_ne_zero (Nat.ne_zero_of_lt low)
      exact .inr ⟨k, Nat.lt_succ_iff.mp low, high, rfl⟩
  · cases home

/-- A task that is in a routine is a coroutine, and the others are the initial task. -/
theorem Forked.task (forked : Forked workers past w made joined) (inv : Integrity w.thread) :
    w.thread.current = initTask ∧ (∀ fn i, w.place ≠ .body fn i) ∨
      ∃ k, joined ≤ k ∧ k < made ∧ w.thread.current = k + 1 ∧
        ∃ fn i, workers[k]? = some fn ∧ w.place = .body fn i ∧
          printed (k + 1) past + i = fn.rounds := by
  rcases forked.alive inv inv.seated.alive with initial | ⟨k, low, high, same⟩
  · refine .inl ⟨initial, ?_⟩
    intro fn i inside
    have stage := forked.stage
    rw [← initial, ← World.place, inside] at stage
    cases stage
  · obtain ⟨fn, i, worker, there, _, count⟩ := forked.bodies k high
    refine .inr ⟨k, low, high, same, fn, i, worker, ?_, count⟩
    rw [World.place, same, there]

/-- A coroutine that has exited is behind its loop. -/
theorem Forked.exited (forked : Forked workers past w made joined) (inv : Integrity w.thread)
    (located : Located threads w) {k : Nat} (less : k < made)
    (alive : w.thread.live (k + 1) = true)
    (exited : (w.thread.tasks (k + 1)).status = .exit) :
    ∃ fn, workers[k]? = some fn ∧ w.places (k + 1) = .body fn 0 ∧
      printed (k + 1) past = fn.rounds := by
  obtain ⟨fn, i, worker, there, _, count⟩ := forked.bodies k less
  have does := located _ alive _ (Pc.origin_of_exiting (inv.exits _ alive exited))
  rw [there] at does
  cases i with
  | zero => exact ⟨fn, worker, there, count⟩
  | succ i => simp [threads] at does

/-- Only a task before its `co_sleep` prints. -/
theorem printed_cons {p : TaskPtr} {move : Move (World Place) Choice}
    (quiet : prints p move = false) : printed p (move :: past) = printed p past :=
  List.countP_cons_of_neg (by rw [quiet]; exact Bool.false_ne_true)

/-- A step of the initial task that leaves the table takes a thread to the stage it is then at. -/
theorem Forked.main (forked : Forked workers past w made joined)
    (fresh : w'.thread.fresh = w.thread.fresh) (table : w'.thread.task = w.thread.task)
    (places : ∀ k, w'.places (k + 1) = w.places (k + 1))
    (stage : Stage workers made joined (w'.places initTask) (w'.thread.pc initTask).joining)
    (silent : ∀ k < made, joined ≤ k → (w'.thread.pc (k + 1)).joining = none)
    (quiet : ∀ k, prints (k + 1) ⟨w, choice, w'⟩ = false)
    (lines : printed initTask (⟨w, choice, w'⟩ :: past) + (w'.places initTask).left = 2) :
    Forked workers (⟨w, choice, w'⟩ :: past) w' made joined where
  fresh := fresh.trans forked.fresh
  order := forked.order
  table i := (congrFun table i).trans (forked.table i)
  stage := stage
  bodies k less := by
    rw [places, printed_cons (quiet _)]
    exact forked.bodies k less
  silent := silent
  lines := lines
  unmade k more := by
    rw [printed_cons (quiet _)]
    exact forked.unmade k more

/-- A step that leaves the table, and where the tasks are, keeps a thread in its stage. -/
theorem Forked.keep (forked : Forked workers past w made joined)
    (fresh : w'.thread.fresh = w.thread.fresh) (table : w'.thread.task = w.thread.task)
    (places : w'.places = w.places)
    (initial : (w'.thread.pc initTask).joining = (w.thread.pc initTask).joining)
    (silent : ∀ k < made, joined ≤ k → (w'.thread.pc (k + 1)).joining = none)
    (quiet : ∀ p, prints p ⟨w, choice, w'⟩ = false) :
    Forked workers (⟨w, choice, w'⟩ :: past) w' made joined := by
  refine forked.main fresh table (fun k => congrFun places _) ?_ silent (fun k => quiet _) ?_
  · rw [places, initial]
    exact forked.stage
  · rw [places, printed_cons (quiet _)]
    exact forked.lines

/-- The id that `co_create` stores is the lowest free slot, where it puts a new task. -/
theorem created_thread {thread : State} {id : Nat}
    (taken : LibcoLite.step w.thread (.create (some 0)) = .ok thread)
    (stored : w.nextId = some id) :
    w.thread.task id = none ∧ (∀ k < id, w.thread.task k ≠ none) ∧
      thread.task = Function.update w.thread.task id (some w.thread.fresh) ∧
      thread.fresh = w.thread.fresh + 1 ∧
      thread.pc = Function.update w.thread.pc w.thread.fresh .user ∧
      thread.live = Function.update w.thread.live w.thread.fresh true := by
  obtain ⟨_, kind⟩ := step_cases taken
  cases kind with
  | create =>
    rcases coCreate_cases (some 0) w.thread with ⟨slot, _, free, lowest, made⟩ | ⟨_, made⟩
    · obtain rfl : slot = id := by
        simpa [World.nextId, made] using stored
      rw [made]
      exact ⟨free, lowest, rfl, rfl, rfl, rfl⟩
    · simp [World.nextId, made] at stored

/-- The slot is the one behind the last coroutine. -/
theorem Forked.slot (forked : Forked workers past w made 0) {id : Nat}
    (free : w.thread.task id = none) (lowest : ∀ k < id, w.thread.task k ≠ none) :
    id = made + 1 := by
  have above : ¬(id = 0 ∨ 0 < id ∧ id ≤ made) := by
    intro held
    rw [forked.table, if_pos held] at free
    cases free
  apply Classical.byContradiction
  intro other
  apply lowest (made + 1) (by omega)
  rw [forked.table, if_neg (by omega)]

/-- Only a thread that creates calls `co_create`. -/
theorem place_of_create {place routine : Place}
    (does : threads.action place = .create routine) :
    ∃ fn rest tids, place = .creates fn rest tids ∧ routine = .body fn fn.rounds := by
  cases place with
  | creates fn rest tids => exact ⟨fn, rest, tids, rfl, (Action.create.inj does).symm⟩
  | loops i tids =>
    cases i with
    | zero => cases tids <;> cases does
    | succ i => cases does
  | lost => cases does
  | body fn i => cases i <;> cases does

/-- A thread that has made a coroutine goes on with the next one, or with its loop. -/
theorem Stage.created {workers : List Fun} {made : Nat} {fn : Fun} {rest : List Fun}
    (behind : workers.drop made = fn :: rest) :
    made < workers.length ∧ workers[made]? = some fn ∧
      Stage workers (made + 1) 0
        (threads.created (.creates fn rest (List.range' 1 made)) (some (made + 1))) none := by
  have less : made < workers.length := by
    apply Classical.byContradiction
    intro more
    rw [List.drop_eq_nil_of_le (by omega)] at behind
    cases behind
  have worker : workers[made]? = some fn := by
    rw [← List.head?_drop, behind]
    rfl
  have after : workers.drop (made + 1) = rest := by
    rw [← List.tail_drop, behind]
    rfl
  have range : List.range' 1 made ++ [made + 1] = List.range' 1 (made + 1) := by
    rw [List.range'_1_concat, Nat.add_comm 1]
  refine ⟨less, worker, ?_⟩
  cases rest with
  | nil =>
    have all : made + 1 = workers.length := by
      have most := List.drop_eq_nil_iff.mp after
      omega
    show Stage workers (made + 1) 0 (.loops 2 (List.range' 1 made ++ [made + 1])) none
    rw [range]
    exact .loops 1 all rfl
  | cons next rest =>
    show Stage workers (made + 1) 0 (.creates next rest (List.range' 1 made ++ [made + 1])) none
    rw [range]
    exact .creates next rest after rfl

/-- Only the initial task creates, as long as there are routines left. -/
theorem Forked.creating (forked : Forked workers past w made joined) (inv : Integrity w.thread)
    {routine : Place} (does : threads.action w.place = .create routine) :
    w.thread.current = initTask ∧ joined = 0 ∧ ∃ fn rest,
      w.place = .creates fn rest (List.range' 1 made) ∧ routine = .body fn fn.rounds ∧
        workers.drop made = fn :: rest := by
  obtain ⟨fn, rest, tids, there, rfl⟩ := place_of_create does
  have initial : w.thread.current = initTask := by
    rcases forked.task inv with ⟨initial, _⟩ | ⟨_, _, _, _, _, _, _, body, _⟩
    · exact initial
    · cases there.symm.trans body
  have stage := forked.stage
  rw [← initial, ← World.place, there] at stage
  obtain ⟨behind, rfl, rfl⟩ := stage.creating
  exact ⟨initial, rfl, fn, rest, there, rfl, behind⟩

/-- `co_create` finds a slot as long as there are fewer coroutines than slots. -/
theorem Forked.finds (forked : Forked workers past w made joined) (inv : Integrity w.thread)
    (few : workers.length < nrTasks) {routine : Place}
    (does : threads.action w.place = .create routine) : w.nextId ≠ none := by
  obtain ⟨_, _, fn, rest, _, _, behind⟩ := forked.creating inv does
  have less := (Stage.created behind).1
  intro full
  rcases coCreate_cases (some 0) w.thread with ⟨slot, _, _, _, found⟩ | ⟨taken, _⟩
  · simp [World.nextId, found] at full
  · have occupied := taken (made + 1) (by omega)
    rw [forked.table, if_neg (by omega)] at occupied
    exact occupied rfl

/-- A coroutine is made in the slot behind the last one. -/
theorem Forked.create (forked : Forked workers past w made joined) (inv : Integrity w.thread)
    {granted : Bool} {thread : State} {routine : Place} {id : Nat}
    (taken : LibcoLite.step w.thread (.create (some 0)) = .ok thread)
    (does : threads.action w.place = .create routine) (user : w.thread.pc w.thread.current = .user)
    (stored : w.nextId = some id) (w' : World Place)
    (same : w' = w.spawn thread (threads.created w.place (some id)) routine) :
    Forked workers (⟨w, .own granted, w'⟩ :: past) w' (made + 1) joined := by
  obtain ⟨free, lowest, table, fresh, pc, _⟩ := created_thread taken stored
  have quiet (p : TaskPtr) : prints p ⟨w, .own granted, w'⟩ = false := by simp [prints, does]
  obtain ⟨initial, rfl, fn, rest, there, rfl, behind⟩ := forked.creating inv does
  obtain rfl := forked.slot free lowest
  obtain ⟨_, worker, next⟩ := Stage.created behind
  have root : initTask ≠ w.thread.fresh := inv.notFresh inv.rootLive
  have others (k : Nat) (old : k < made) : w'.places (k + 1) = w.places (k + 1) ∧
      w'.thread.pc (k + 1) = w.thread.pc (k + 1) := by
    have notFresh : k + 1 ≠ w.thread.fresh := by
      rw [forked.fresh]
      omega
    have away : k + 1 ≠ w.thread.current := by
      rw [initial]
      exact Nat.succ_ne_zero k
    rw [same]
    simp [World.spawn, pc, Function.update_of_ne notFresh, Function.update_of_ne away]
  have coroutine : w'.places (made + 1) = .body fn fn.rounds ∧
      w'.thread.pc (made + 1) = .user := by
    rw [same, ← forked.fresh]
    simp [World.spawn, pc]
  have main : w'.places initTask =
      threads.created (.creates fn rest (List.range' 1 made)) (some (made + 1)) := by
    rw [same, there]
    simp [World.spawn, Function.update_of_ne root, initial]
  have outside : w'.thread.pc initTask = .user := by
    rw [same]
    simp only [World.spawn]
    rw [pc, Function.update_of_ne root, ← initial, user]
  refine ⟨?_, Nat.zero_le _, ?_, ?_, ?_, ?_, ?_, ?_⟩
  · rw [same]
    exact fresh.trans (by rw [forked.fresh])
  · intro i
    rw [same]
    show thread.task i = _
    rw [table, forked.fresh]
    by_cases here : i = made + 1
    · subst here
      rw [Function.update_self, if_pos (by omega)]
    · rw [Function.update_of_ne here, forked.table]
      have kept : (i = 0 ∨ 0 < i ∧ i ≤ made) ↔ (i = 0 ∨ 0 < i ∧ i ≤ made + 1) := by omega
      simp only [kept]
  · rw [main, outside]
    exact next
  · intro k less'
    by_cases last : k = made
    · subst last
      refine ⟨fn, fn.rounds, worker, coroutine.1, fun low => absurd low (Nat.not_lt_zero _), ?_⟩
      rw [printed_cons (quiet _), forked.unmade k (Nat.le_refl k), Nat.zero_add]
    · have old : k < made := by omega
      rw [(others k old).1, printed_cons (quiet _)]
      exact forked.bodies k old
  · intro k less' low
    by_cases last : k = made
    · subst last
      rw [coroutine.2]
      rfl
    · have old : k < made := by omega
      rw [(others k old).2]
      exact forked.silent k old low
  · rw [main, printed_cons (quiet _)]
    have lines := forked.lines
    rw [← initial, ← World.place, there, initial] at lines
    cases rest with
    | nil => exact lines
    | cons next rest => exact lines
  · intro k more
    rw [printed_cons (quiet _)]
    exact forked.unmade k (Nat.le_of_succ_le more)

/-- Only a thread or a routine in its loop calls `co_sleep`. -/
theorem place_of_sleep {place : Place} {seconds : Int}
    (does : threads.action place = .sleep seconds) :
    (∃ i tids, place = .loops (i + 1) tids) ∨ ∃ fn i, place = .body fn (i + 1) := by
  cases place with
  | creates => cases does
  | loops i tids =>
    cases i with
    | zero => cases tids <;> cases does
    | succ i => exact .inl ⟨i, tids, rfl⟩
  | lost => cases does
  | body fn i =>
    cases i with
    | zero => cases does
    | succ i => exact .inr ⟨fn, i, rfl⟩

/-- A thread that has printed a line goes on with its loop, or with joining. -/
theorem Stage.resumed {workers : List Fun} {made joined i : Nat} {tids : List Nat}
    {call : Option Nat} (stage : Stage workers made joined (.loops (i + 1) tids) call) :
    Stage workers made joined (.loops i tids) none := by
  obtain ⟨all, rfl, rfl⟩ := stage.printing
  cases i with
  | zero => exact .joins all
  | succ i => exact .loops i all rfl

/-- The current task has printed its line and gone to sleep. -/
structure Slept (w w' : World Place) : Prop where
  /-- The table is as before. -/
  task : w'.thread.task = w.thread.task
  /-- No block is taken. -/
  fresh : w'.thread.fresh = w.thread.fresh
  /-- The other tasks are where they were. -/
  others : ∀ p, p ≠ w.thread.current →
    w'.places p = w.places p ∧ w'.thread.pc p = w.thread.pc p
  /-- The task goes on behind its call of `co_sleep`. -/
  place : w'.places w.thread.current = threads.resumed w.place
  /-- It calls `schedule`. -/
  pc : w'.thread.pc w.thread.current = .schedule .user

/-- So it has behind its call of `co_sleep`. -/
theorem slept_of_step {thread : State} {seconds : Int}
    (taken : LibcoLite.step w.thread (.sleep seconds) = .ok thread) :
    Slept w (w.become thread (threads.resumed w.place)) := by
  obtain ⟨_, kind⟩ := step_cases taken
  cases kind with
  | sleep =>
    refine ⟨rfl, rfl, ?_, w.become_places _ _, Function.update_self ..⟩
    intro p away
    exact ⟨Function.update_of_ne away _ _, Function.update_of_ne away _ _⟩

/-- The lines that are printed behind a call of `co_sleep`. -/
theorem printed_sleep {granted : Bool} {seconds : Int}
    (does : threads.action w.place = .sleep seconds) (p : TaskPtr) :
    printed p (⟨w, .own granted, w'⟩ :: past) =
      printed p past + if w.thread.current = p then 1 else 0 := by
  simp [printed, List.countP_cons, prints, does]

/-- A task that sleeps does not join. -/
theorem Forked.silenced (forked : Forked workers past w made joined) (slept : Slept w w')
    (k : Nat) (less : k < made) (low : joined ≤ k) : (w'.thread.pc (k + 1)).joining = none := by
  by_cases here : k + 1 = w.thread.current
  · rw [here, slept.pc]
    rfl
  · rw [(slept.others _ here).2]
    exact forked.silent k less low

/-- The initial task prints its line. -/
theorem Forked.sleep_main (forked : Forked workers past w made joined) {granted : Bool}
    {seconds : Int} (does : threads.action w.place = .sleep seconds) (slept : Slept w w')
    (initial : w.thread.current = initTask) {i : Nat} {tids : List Nat}
    (there : w.place = .loops (i + 1) tids) :
    Forked workers (⟨w, .own granted, w'⟩ :: past) w' made joined := by
  have away (k : Nat) : k + 1 ≠ w.thread.current := by
    rw [initial]
    exact Nat.succ_ne_zero k
  have stage := forked.stage
  have lines := forked.lines
  rw [← initial, ← World.place, there] at stage lines
  have resumed : w'.places initTask = .loops i tids := by
    rw [← initial, slept.place, there]
    rfl
  refine forked.main slept.fresh slept.task (fun k => (slept.others _ (away k)).1) ?_
    (forked.silenced slept) ?_ ?_
  · rw [resumed, ← initial, slept.pc]
    exact stage.resumed
  · intro k
    simp [prints, does, Ne.symm (away k)]
  · rw [resumed, printed_sleep does, if_pos initial, ← initial]
    simp only [Place.left] at lines ⊢
    omega

/-- A coroutine prints its line. -/
theorem Forked.sleep_worker (forked : Forked workers past w made joined)
    (inv : Integrity w.thread) {granted : Bool} {seconds : Int}
    (does : threads.action w.place = .sleep seconds) (slept : Slept w w') {k i : Nat} {fn : Fun}
    (low : joined ≤ k) (here : w.thread.current = k + 1) (worker : workers[k]? = some fn)
    (there : w.place = .body fn (i + 1)) (lines : printed (k + 1) past + (i + 1) = fn.rounds) :
    Forked workers (⟨w, .own granted, w'⟩ :: past) w' made joined := by
  have root : initTask ≠ w.thread.current := by
    rw [here]
    exact Ne.symm (Nat.succ_ne_zero k)
  refine ⟨slept.fresh.trans forked.fresh, forked.order,
    fun j => (congrFun slept.task j).trans (forked.table j), ?_, ?_, forked.silenced slept, ?_, ?_⟩
  · rw [(slept.others _ root).1, (slept.others _ root).2]
    exact forked.stage
  · intro l less
    by_cases same : l = k
    · subst same
      refine ⟨fn, i, worker, ?_, fun joins => absurd joins (Nat.not_lt.mpr low), ?_⟩
      · rw [← here, slept.place, there]
        rfl
      · rw [printed_sleep does, if_pos here]
        omega
    · have away : l + 1 ≠ w.thread.current := by
        rw [here]
        exact fun equal => same (Nat.succ.inj equal)
      rw [(slept.others _ away).1, printed_sleep does, if_neg (Ne.symm away)]
      exact forked.bodies l less
  · rw [(slept.others _ root).1, printed_sleep does, if_neg (Ne.symm root)]
    exact forked.lines
  · intro l more
    have other : w.thread.current ≠ l + 1 := by
      have below := inv.used _ inv.seated.alive
      rw [forked.fresh] at below
      exact Nat.ne_of_lt (Nat.lt_of_lt_of_le below (Nat.succ_le_succ more))
    rw [printed_sleep does, if_neg other]
    exact forked.unmade l more

/-- A line is printed. -/
theorem Forked.sleep (forked : Forked workers past w made joined) (inv : Integrity w.thread)
    {granted : Bool} {seconds : Int} (does : threads.action w.place = .sleep seconds)
    (slept : Slept w w') : Forked workers (⟨w, .own granted, w'⟩ :: past) w' made joined := by
  rcases forked.task inv with ⟨initial, outside⟩ | ⟨k, low, _, here, fn, i, worker, there, lines⟩
  · rcases place_of_sleep does with ⟨i, tids, loops⟩ | ⟨fn, i, body⟩
    · exact forked.sleep_main does slept initial loops
    · exact absurd body (outside fn (i + 1))
  · rcases place_of_sleep does with ⟨_, _, loops⟩ | ⟨_, j, body⟩
    · cases there.symm.trans loops
    · cases there.symm.trans body
      exact forked.sleep_worker inv does slept low here worker there lines

/-- Only a thread behind its loop calls `co_join`. -/
theorem place_of_join {place : Place} {cid : Nat} (does : threads.action place = .join cid) :
    ∃ tids, place = .loops 0 (cid :: tids) := by
  cases place with
  | creates => cases does
  | loops i tids =>
    cases i with
    | zero =>
      cases tids with
      | nil => cases does
      | cons tid tids =>
        cases does
        exact ⟨tids, rfl⟩
    | succ i => cases does
  | lost => cases does
  | body fn i => cases i <;> cases does

/-- A thread calls `co_join` for its next coroutine. -/
theorem Stage.joining {workers : List Fun} {made joined cid : Nat} {tids : List Nat}
    (stage : Stage workers made joined (.loops 0 (cid :: tids)) none) :
    Stage workers made joined (.loops 0 tids) (some cid) := by
  obtain ⟨all, rest⟩ := stage.outside
  have more : joined < made := by
    apply Classical.byContradiction
    intro none
    rw [Nat.sub_eq_zero_of_le (Nat.not_lt.mp none)] at rest
    cases rest
  obtain ⟨left, size⟩ : ∃ left, made - joined = left + 1 := ⟨made - joined - 1, by omega⟩
  rw [size, List.range'_succ] at rest
  obtain ⟨rfl, rfl⟩ := List.cons.inj rest
  have behind : left = made - (joined + 1) := by omega
  rw [behind]
  exact .inside (joined + 1) all rfl more

/-- `co_join` is called. -/
theorem Forked.join (forked : Forked workers past w made joined) (inv : Integrity w.thread)
    {granted : Bool} {thread : State} {cid : Nat}
    (taken : LibcoLite.step w.thread (.join cid) = .ok thread)
    (user : w.thread.pc w.thread.current = .user)
    (does : threads.action w.place = .join cid) (w' : World Place)
    (same : w' = w.become thread (threads.resumed w.place)) :
    Forked workers (⟨w, .own granted, w'⟩ :: past) w' made joined := by
  have quiet (p : TaskPtr) : prints p ⟨w, .own granted, w'⟩ = false := by simp [prints, does]
  obtain rfl : thread = w.thread.goto (.join cid) := by
    obtain ⟨_, kind⟩ := step_cases taken
    cases kind with
    | join => rfl
  obtain ⟨tids, there⟩ := place_of_join does
  have initial : w.thread.current = initTask := by
    rcases forked.task inv with ⟨initial, _⟩ | ⟨_, _, _, _, _, _, _, body, _⟩
    · exact initial
    · cases there.symm.trans body
  have stage := forked.stage
  rw [← initial, ← World.place, there, user] at stage
  have others (k : Nat) : w'.places (k + 1) = w.places (k + 1) ∧
      w'.thread.pc (k + 1) = w.thread.pc (k + 1) := by
    have away : k + 1 ≠ w.thread.current := by
      rw [initial]
      exact Nat.succ_ne_zero k
    rw [same]
    simp [World.become, State.goto, Function.update_of_ne away]
  have main : w'.places initTask = .loops 0 tids ∧ w'.thread.pc initTask = .join cid := by
    rw [same, ← initial, there]
    simp [World.become, State.goto, threads]
  refine forked.main (by rw [same]; rfl) (by rw [same]; rfl) (fun k => (others k).1) ?_ ?_
    (fun k => quiet _) ?_
  · rw [main.1, main.2]
    exact stage.joining
  · intro k less low
    rw [(others k).2]
    exact forked.silent k less low
  · have lines := forked.lines
    rw [← initial, ← World.place, there, initial] at lines
    rw [main.1, printed_cons (quiet _)]
    exact lines

/-- Only the initial task is in `co_join`. -/
theorem Forked.joiner (forked : Forked workers past w made joined) (inv : Integrity w.thread)
    {cid : Nat} (calls : (w.thread.pc w.thread.current).joining = some cid) :
    w.thread.current = initTask := by
  rcases forked.task inv with ⟨initial, _⟩ | ⟨k, low, less, here, _⟩
  · exact initial
  · have silent := forked.silent k less low
    rw [← here, calls] at silent
    cases silent

/-- A coroutine is joined. -/
theorem Forked.reclaim (forked : Forked workers past w made joined) (inv : Integrity w.thread)
    (located : Located threads w) {thread : State} {cid : Nat} {p : TaskPtr} {i : Input}
    (pc : w.thread.pc w.thread.current = .join cid) (slot : w.thread.task cid = some p)
    (exited : (w.thread.tasks p).status = .exit)
    (task : thread.task = Function.update w.thread.task cid none)
    (fresh : thread.fresh = w.thread.fresh)
    (control : thread.pc = Function.update w.thread.pc w.thread.current .user) :
    Forked workers (⟨w, .library i, { w with thread }⟩ :: past) { w with thread } made
      (joined + 1) := by
  have quiet (p : TaskPtr) : prints p ⟨w, .library i, { w with thread }⟩ = false := rfl
  have initial := forked.joiner inv (congrArg Pc.joining pc)
  have stage := forked.stage
  rw [← initial, pc] at stage
  obtain ⟨all, next, more, place⟩ := stage.within
  subst next
  obtain rfl : p = joined + 1 := by
    rw [forked.table, if_pos (.inr ⟨Nat.lt_succ_self _, more⟩)] at slot
    exact (Option.some.inj slot).symm
  refine ⟨fresh.trans forked.fresh, more, ?_, ?_, ?_, ?_, ?_, ?_⟩
  · intro j
    show thread.task j = _
    rw [task]
    by_cases here : j = joined + 1
    · rw [here, Function.update_self, if_neg (by omega)]
    · rw [Function.update_of_ne here, forked.table]
      have kept : (j = 0 ∨ joined < j ∧ j ≤ made) ↔ (j = 0 ∨ joined + 1 < j ∧ j ≤ made) := by
        omega
      simp only [kept]
  · show Stage workers made (joined + 1) (w.places initTask) (thread.pc initTask).joining
    rw [control, ← initial, Function.update_self, place]
    exact .joins all
  · intro k less
    rw [printed_cons (quiet _)]
    by_cases last : k = joined
    · subst last
      obtain ⟨fn, worker, there, lines⟩ :=
        forked.exited inv located less (inv.slots _ _ slot).2.1 exited
      exact ⟨fn, 0, worker, there, fun _ => rfl, lines⟩
    · obtain ⟨fn, i, worker, there, ended, lines⟩ := forked.bodies k less
      exact ⟨fn, i, worker, there, fun low => ended (by omega), lines⟩
  · intro k less low
    have away : k + 1 ≠ w.thread.current := by
      rw [initial]
      exact Nat.succ_ne_zero k
    show (thread.pc (k + 1)).joining = none
    rw [control, Function.update_of_ne away]
    exact forked.silent k less (Nat.le_of_succ_le low)
  · rw [printed_cons (quiet _)]
    exact forked.lines
  · intro k more
    rw [printed_cons (quiet _)]
    exact forked.unmade k more

/-- A call of `co_join` goes on until its slot is cleared. -/
theorem joining_kept {s s' : State} {i : Input} {p : TaskPtr} (inv : Integrity s)
    (taken : LibcoLite.step s i = .ok s') (own : i.own = false) (table : s'.task = s.task)
    (alive : s'.live p = true) (before : s.live p = true) :
    (s'.pc p).joining = (s.pc p).joining := by
  rcases i.switches with ⟨rounds, rfl⟩ | other
  · exact step_switch_pc Pc.joining (fun _ => rfl) inv taken p
  · by_cases away : p = s.current
    · subst away
      have moved {there : Pc} (pc : s'.pc = Function.update s.pc s.current there)
          (same : there.joining = (s.pc s.current).joining) :
          (s'.pc s.current).joining = (s.pc s.current).joining := by
        rw [pc, Function.update_self, same]
      obtain ⟨_, kind⟩ := step_cases taken
      cases kind with
      | create => cases own
      | join => cases own
      | sleep => cases own
      | refused => cases own
      | queued => cases own
      | eventloop => cases own
      | close => cases own
      | ret => cases own
      | joinEnd cid q pc bound slot =>
        have cleared : Function.update s.task cid none cid = s.task cid := congrFun table cid
        rw [Function.update_self, slot] at cleared
        cases cleared
      | released => rfl
      | scheduled _ rounds => exact absurd rfl (other rounds)
      | joinAgain cid q pc => exact moved rfl (by rw [pc]; rfl)
      | waitAgain call fd granted pc => exact moved rfl (by rw [pc]; rfl)
      | waitEnd call fd granted pc => exact moved rfl (by rw [pc]; rfl)
      | writeFailed fd granted pc => exact moved rfl (by rw [pc]; rfl)
      | writeEnd fd granted pc => exact moved rfl (by rw [pc]; rfl)
      | syscall call fd pc => exact moved rfl (by rw [pc]; rfl)
      | timeout reports pc => exact moved rfl (by rw [pc]; rfl)
      | reported reports ev rest pc => exact moved rfl (by rw [pc]; rfl)
      | handled ev rest q links pc => exact moved rfl (by rw [pc]; rfl)
      | drained pc => exact moved rfl (by rw [pc]; rfl)
      | cleaned pc => exact moved rfl (by rw [pc]; rfl)
    · rcases step_others inv taken other away alive with ⟨dead, _⟩ | ⟨_, same, _⟩
      · cases dead.symm.trans before
      · rw [same]

/-- A thread makes no more coroutines than it has routines. -/
theorem Forked.few (forked : Forked workers past w made joined) : made ≤ workers.length := by
  have stage := forked.stage
  generalize w.places initTask = place at stage
  generalize (w.thread.pc initTask).joining = call at stage
  cases stage with
  | creates fn rest behind none => exact Nat.le_of_lt (Stage.created behind).1
  | loops i all none => exact Nat.le_of_eq all
  | joins all => exact Nat.le_of_eq all
  | inside cid all next more => exact Nat.le_of_eq all

/-- Coroutines that are made and not joined are live. -/
theorem Forked.live (forked : Forked workers past w made joined) (inv : Integrity w.thread)
    {k : Nat} (less : k < made) (low : joined ≤ k) : w.thread.live (k + 1) = true := by
  refine (inv.slots (k + 1) (k + 1) ?_).2.1
  rw [forked.table, if_pos (.inr ⟨Nat.lt_succ_of_le low, less⟩)]

/-- A step in the library keeps a thread in its stage, or reclaims a coroutine. -/
theorem Forked.library (forked : Forked workers past w made joined) (inv : Integrity w.thread)
    (located : Located threads w) {i : Input} {thread : State}
    (taken : LibcoLite.step w.thread i = .ok thread)
    (inside : w.thread.pc w.thread.current ≠ .user) :
    ∃ joined, Forked workers (⟨w, .library i, { w with thread }⟩ :: past) { w with thread }
      made joined := by
  have own : i.own = false := by
    cases calls : i.own with
    | false => rfl
    | true => exact absurd (step_user taken calls) inside
  cases step_table inv taken with
  | fills cid id pc => exact absurd pc inside
  | clears cid p pc slot exited task count live fresh control =>
    exact ⟨joined + 1, forked.reclaim inv located pc slot exited task fresh control⟩
  | keeps task count live fresh =>
    have stays {p : TaskPtr} (alive : w.thread.live p = true) :
        (thread.pc p).joining = (w.thread.pc p).joining :=
      joining_kept inv taken own task ((congrFun live p).trans alive) alive
    refine ⟨joined, forked.keep fresh task rfl (stays inv.rootLive) ?_ fun _ => rfl⟩
    intro k less low
    exact (stays (forked.live inv less low)).trans (forked.silent k less low)

/-- Every step takes a thread on. -/
theorem Forked.step (forked : Forked workers past w made joined)
    (few : workers.length < nrTasks) (inv : Integrity w.thread) (located : Located threads w)
    (taken : w.step threads choice = .ok w') :
    ∃ made joined, Forked workers (⟨w, choice, w'⟩ :: past) w' made joined := by
  have stepped := world_thread taken
  have within {call : Action Place}
      (inside : (w.thread.pc w.thread.current).origin Place = some call) :=
    dry_threads.origin located inv.seated.alive inside
  cases world_cases taken with
  | creates granted thread routine id user does stored =>
    simp only [World.input, does] at stepped
    exact ⟨_, _, forked.create inv stepped does user stored _ rfl⟩
  | full granted thread routine user does full =>
    exact absurd full (forked.finds inv few does)
  | joins granted thread cid user does =>
    simp only [World.input, does] at stepped
    exact ⟨_, _, forked.join inv stepped user does _ rfl⟩
  | sleeps granted thread seconds user does =>
    simp only [World.input, does] at stepped
    exact ⟨_, _, forked.sleep inv does (slept_of_step stepped)⟩
  | calls granted thread call fd user does => exact absurd does ((dry_threads _).1 call fd)
  | refused granted thread call fd user does => exact absurd does ((dry_threads _).1 call fd)
  | loops granted thread user does => exact absurd does (dry_threads _).2.1
  | returns granted thread user does =>
    simp only [World.input, does] at stepped
    obtain ⟨_, kind⟩ := step_cases stepped
    cases kind with
    | ret _ notInit =>
      refine ⟨made, joined, forked.keep rfl rfl rfl ?_ ?_ fun p => by simp [prints, does]⟩
      · exact congrArg Pc.joining (Function.update_of_ne (Ne.symm notInit) _ _)
      · intro k less low
        by_cases here : k + 1 = w.thread.current
        · rw [here]
          exact congrArg Pc.joining (Function.update_self w.thread.current Pc.cleanup w.thread.pc)
        · exact (congrArg Pc.joining (Function.update_of_ne here _ _)).trans
            (forked.silent k less low)
  | answers answer thread call fd pc =>
    exact absurd rfl ((within (by rw [pc]; rfl)).1 call fd)
  | fails i thread call fd pc =>
    exact absurd rfl ((within (by rw [pc]; rfl)).1 call fd)
  | library i thread inside =>
    obtain ⟨joined, forked⟩ := forked.library inv located stepped inside
    exact ⟨_, _, forked⟩

/-- Every run of a thread is at some stage. -/
theorem forked_of_run {fn : Fun} {rest : List Fun} (few : (fn :: rest).length < nrTasks)
    (run : ThreadsRun fn rest self clock past w) :
    ∃ made joined, Forked (fn :: rest) past w made joined := by
  induction run with
  | start => exact ⟨0, 0, .init fn rest self clock⟩
  | move before taken ih =>
    obtain ⟨made, joined, forked⟩ := ih
    exact forked.step few (world_integrity before) (located_of_run before) taken

/-- A thread calls `co_join` for the coroutine in the slot. -/
theorem Forked.filled (forked : Forked workers past w made joined) (inv : Integrity w.thread)
    {cid : Nat} (calls : (w.thread.pc w.thread.current).joining = some cid) :
    ∃ k, joined ≤ k ∧ k < made ∧ cid = k + 1 ∧ w.thread.task cid = some (k + 1) := by
  have stage := forked.stage
  rw [← forked.joiner inv calls, calls] at stage
  obtain ⟨_, rfl, more, _⟩ := stage.within
  refine ⟨joined, Nat.le_refl joined, more, rfl, ?_⟩
  rw [forked.table, if_pos (.inr ⟨Nat.lt_succ_self _, more⟩)]

/-- Behind its last `co_join` a thread has joined all coroutines. -/
theorem Forked.over (forked : Forked workers past w made joined)
    (behind : w.places initTask = .loops 0 [])
    (outside : (w.thread.pc initTask).joining = none) :
    made = workers.length ∧ joined = made := by
  have stage := forked.stage
  rw [behind, outside] at stage
  obtain ⟨all, none⟩ := stage.outside
  have order := forked.order
  have left := congrArg List.length none
  rw [List.length_nil, List.length_range'] at left
  omega

/-- A thread whose coroutines are all joined has the initial task alone. -/
theorem Forked.alone (forked : Forked workers past w joined joined) (inv : Integrity w.thread) :
    w.thread.taskCount = 1 := by
  have root : occupied w.thread.task = {0} := by
    ext i
    rw [mem_occupied, Finset.mem_singleton, forked.table]
    by_cases zero : i = 0
    · subst zero
      simp [nrTasks]
    · rw [if_neg (by omega)]
      simp [zero]
  rw [inv.count, root, Finset.card_singleton]
  rfl

/-- A thread's own code ends behind its last `co_join`. -/
theorem Stage.ends {workers : List Fun} {made joined : Nat} {place : Place}
    (stage : Stage workers made joined place none)
    (ends : threads.action place = .exit ∨ threads.action place = .ret) :
    place = .loops 0 [] := by
  cases stage with
  | creates => rcases ends with ends | ends <;> cases ends
  | loops => rcases ends with ends | ends <;> cases ends
  | joins =>
    generalize List.range' (joined + 1) (made - joined) = tids at ends
    cases tids with
    | nil => rfl
    | cons => rcases ends with ends | ends <;> cases ends

/-- A task ends the thread only where the initial one is behind its last `co_join`. -/
theorem Forked.ends (forked : Forked workers past w made joined) (inv : Integrity w.thread)
    (user : w.thread.pc w.thread.current = .user)
    (ends : threads.action w.place = .exit ∨
      threads.action w.place = .ret ∧ w.thread.current = initTask) :
    w.thread.current = initTask ∧ w.thread.pc initTask = .user ∧
      w.places initTask = .loops 0 [] := by
  rcases forked.task inv with ⟨initial, _⟩ | ⟨k, _, _, here, fn, i, _, there, _⟩
  · have stage := forked.stage
    have outside : w.thread.pc initTask = .user := initial ▸ user
    rw [outside, ← initial, ← World.place] at stage
    refine ⟨initial, outside, ?_⟩
    rw [← initial, ← World.place]
    exact stage.ends (ends.imp_right And.left)
  · rcases ends with ends | ⟨_, root⟩
    · rw [there] at ends
      cases i <;> cases ends
    · cases here.symm.trans root

/-- In no interleaving and with no clock does a thread of the program, with any routines that fit
into the table, access a null or freed task, or leave an array: its initial task is running or
asleep, and the thread ends only behind the last `co_join`. There every coroutine has printed all
of its lines and is freed, and the table is as it was. -/
theorem threads_print_everything {fn : Fun} {rest : List Fun}
    (few : (fn :: rest).length < nrTasks) (run : ThreadsRun fn rest self clock past w) :
    (∀ choice stop, w.step threads choice = .error stop → stop = .disabled ∨ stop = .spinning ∨
      stop = .exited ∧ w.thread.current = initTask ∧ w.thread.pc initTask = .user ∧
        w.places initTask = .loops 0 []) ∧
    ((w.thread.tasks initTask).status = .running ∨ (w.thread.tasks initTask).status = .sleep) ∧
    (w.places initTask = .loops 0 [] → (w.thread.pc initTask).joining = none →
      w.thread.taskCount = 1 ∧ printed initTask past = 2 ∧
      ∀ k routine, (fn :: rest)[k]? = some routine →
        printed (k + 1) past = routine.rounds ∧ w.thread.live (k + 1) = false) := by
  have inv := world_integrity run
  obtain ⟨made, joined, forked⟩ := forked_of_run few run
  refine ⟨?_, ?_, ?_⟩
  · intro choice stop stopped
    rcases dry_threads.stops run stopped with ⟨rfl, user, ends⟩ | disabled | spinning | empty
    · exact .inr (.inr ⟨rfl, forked.ends inv user ends⟩)
    · exact .inl disabled
    · exact .inr (.inl spinning)
    · obtain ⟨cid, pc, none⟩ := empty
      obtain ⟨_, _, _, _, held⟩ := forked.filled inv (congrArg Pc.joining pc)
      cases none.symm.trans held
  · exact dry_threads.rootAwake run
  · intro behind outside
    obtain ⟨all, rfl⟩ := forked.over behind outside
    refine ⟨forked.alone inv, ?_, ?_⟩
    · have lines := forked.lines
      rw [behind] at lines
      exact lines
    · intro k routine worker
      obtain ⟨less, _⟩ := List.getElem?_eq_some_iff.mp worker
      obtain ⟨fn', i, same, _, ended, lines⟩ := forked.bodies k (all ▸ less)
      obtain rfl : fn' = routine := Option.some.inj (same.symm.trans worker)
      rw [ended (all ▸ less)] at lines
      refine ⟨lines, ?_⟩
      cases alive : w.thread.live (k + 1) with
      | false => rfl
      | true =>
        rcases forked.alive inv alive with root | ⟨l, low, high, _⟩
        · cases root
        · omega

/-- What comes next in a thread: its own code goes on, or the library does. -/
def next (w : World Place) : Choice :=
  match w.thread.pc w.thread.current with
  | .user => .own true
  | .schedule _ => .library (.pick 1)
  | _ => .library .run

/-- What comes next for some steps, in a table of which only so many slots are looked at. -/
def follow (size : Nat) : Nat → World Place → List Choice
  | 0, _ => []
  | steps + 1, w =>
    match w.stepBy (stepWithin size) threads (next w) with
    | .ok w' => next w :: follow size steps w'
    | .error _ => []

/-- A clock that is read every three seconds. -/
def slow (reading : Nat) : Nat := reading * 3000000

/-- `main`, up to its end. -/
def mainOver : List Choice := follow 4 68 (World.init 0 slow (.creates fun1 [fun2, fun3] []))

/-- `main` comes to its end, behind all of the lines. -/
theorem threads_print_everything_main :
    let past := movesOf (World.stepBy (stepWithin 4) threads)
      (World.init 0 slow (.creates fun1 [fun2, fun3] [])) mainOver
    printed 0 past = 2 ∧ printed 1 past = 2 ∧ printed 2 past = 10 ∧ printed 3 past = 2 := by
  have run : ThreadsRun fun1 [fun2, fun3] 0 slow _ _ :=
    run_of_within 4 threads (.creates fun1 [fun2, fun3] []) slow mainOver (by decide) (by decide)
      (by decide +kernel)
  obtain ⟨_, main, routines⟩ :=
    (threads_print_everything (by decide) run).2.2 (by decide +kernel) (by decide +kernel)
  exact ⟨main, (routines 0 fun1 rfl).1, (routines 1 fun2 rfl).1, (routines 2 fun3 rfl).1⟩

end LibcoLite.Demo01
