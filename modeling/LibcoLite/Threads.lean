import LibcoLite.Replay

/-!
# Threads of a process

`co_get_thread_env` finds the environment of the calling thread in a table indexed by the
thread id modulo the size of the table. An entry is made at the first call that finds none,
and never removed. A thread executes in the environment it finds: a switch saves its control
point in the current task of this environment, whatever thread made that task current. As
long as the ids of all threads that ever call the library lie in different entries, every
thread runs as if it were alone.
-/

namespace LibcoLite

open Transition (Move Run movesOf outcome run_of_outcome)

/-- `MAX_THREAD_NUM`, length of `g_thread_env_arr`. -/
def maxThreadNum : Nat := 10240

/-- A thread of the process, numbered in the order of starting. -/
abbrev Thread := Nat

/-- The state of a process. -/
structure Process where
  /-- The threads that run. -/
  live : List Thread
  /-- The thread that is started next. -/
  born : Thread
  /-- `g_thread_env_arr`. -/
  gThreadEnvArr : Nat → Option EnvPtr
  /-- The environments, each with its tasks. -/
  envs : EnvPtr → State
  /-- The environment `calloc` returns next. -/
  fresh : EnvPtr
  /-- Where every thread executes. -/
  control : Thread → Pc

/-- What happens next in a process. -/
inductive ProcessInput where
  /-- A thread is started. -/
  | start
  /-- A thread ends. -/
  | exit (t : Thread)
  /-- A thread calls `co_get_thread_env`. -/
  | lookup (t : Thread)
  /-- A thread takes a step in or between its library calls. -/
  | call (t : Thread) (i : Input)
deriving DecidableEq, Repr

/-- `co_get_thread_env` in a thread with the given id: the process after the call, and the
returned environment. -/
def coGetThreadEnv (clock : EnvPtr → Nat → Nat) (tid : Nat) (p : Process) : Process × EnvPtr :=
  match p.gThreadEnvArr (tid % maxThreadNum) with
  | some threadEnv => (p, threadEnv)
  | none =>
    let threadEnv := p.fresh
    ({ p with
      envs := Function.update p.envs threadEnv (.init threadEnv (clock threadEnv))
      gThreadEnvArr := Function.update p.gThreadEnvArr (tid % maxThreadNum) (some threadEnv)
      fresh := p.fresh + 1 }, threadEnv)

/-- One step of a process, with the id the kernel gives to each thread and the readings of the
clock each environment gets. -/
def Process.step (gettid : Thread → Nat) (clock : EnvPtr → Nat → Nat) (p : Process) :
    ProcessInput → Except Stop Process
  | .start =>
    -- running threads have different ids
    if ∀ t ∈ p.live, gettid t ≠ gettid p.born then
      .ok { p with live := p.born :: p.live, born := p.born + 1 }
    else .error .disabled
  | .exit t =>
    if t ∈ p.live then .ok { p with live := p.live.erase t } else .error .disabled
  | .lookup t =>
    if t ∈ p.live then .ok (coGetThreadEnv clock (gettid t) p).1 else .error .disabled
  -- closing a descriptor is no library call, and descriptors belong to the process
  | .call _ (.close _) => .error .disabled
  | .call t i =>
    if t ∈ p.live then do
      let (p, threadEnv) := coGetThreadEnv clock (gettid t) p
      let s ← LibcoLite.step ((p.envs threadEnv).goto (p.control t)) i
      .ok { p with
        envs := Function.update p.envs threadEnv s
        control := Function.update p.control t (s.pc s.current) }
    else .error .disabled

/-- A process before its first thread. -/
def Process.init : Process where
  live := []
  born := 0
  gThreadEnvArr _ := none
  envs _ := .init 0 fun _ => 0
  fresh := 0
  control _ := .user

/-- The steps a process has taken, latest first. -/
abbrev ProcessHistory := List (Move Process ProcessInput)

/-- The thread that a step calls the library in. -/
def ProcessInput.caller : ProcessInput → Option Thread
  | .lookup t => some t
  | .call t _ => some t
  | _ => none

variable {gettid : Thread → Nat} {clock : EnvPtr → Nat → Nat}

/-- The environment a move works on, with the calling thread. -/
def accessed (gettid : Thread → Nat) (clock : EnvPtr → Nat → Nat)
    (move : Move Process ProcessInput) : Option (Thread × EnvPtr) :=
  move.input.caller.map fun t => (t, (coGetThreadEnv clock (gettid t) move.before).2)

/-- The steps a thread has taken in its library calls, latest first. -/
def callsOf (t : Thread) (past : ProcessHistory) : List Input :=
  past.filterMap fun move =>
    match move.input with
    | .call u i => if u = t then some i else none
    | _ => none

/-- Every environment in use is where its thread would have brought it alone, and the thread
is in its current task. -/
def Alone (gettid : Thread → Nat) (clock : EnvPtr → Nat → Nat) (past : ProcessHistory)
    (p : Process) : Prop :=
  ∀ move ∈ past, ∀ call ∈ accessed gettid clock move,
    p.control call.1 = (p.envs call.2).pc (p.envs call.2).current ∧
    ∃ own, ThreadRun call.2 (clock call.2) own (p.envs call.2) ∧
      own.map Move.input = callsOf call.1 past

/-- The first call of a thread finds an environment with its initial task only. -/
def StartsFresh (gettid : Thread → Nat) (clock : EnvPtr → Nat → Nat)
    (past : ProcessHistory) : Prop :=
  ∀ later move earlier, past = later ++ move :: earlier → ∀ t ∈ move.input.caller,
    (∀ before ∈ earlier, before.input.caller ≠ some t) →
    (coGetThreadEnv clock (gettid t) move.before).1.envs
        (coGetThreadEnv clock (gettid t) move.before).2 =
      .init (coGetThreadEnv clock (gettid t) move.before).2
        (clock (coGetThreadEnv clock (gettid t) move.before).2)

/-- The threads of a process are isolated. -/
structure Isolated (gettid : Thread → Nat) (clock : EnvPtr → Nat → Nat)
    (past : ProcessHistory) (p : Process) : Prop where
  /-- Calls of different threads work on different environments. -/
  apart : ∀ move ∈ past, ∀ move' ∈ past, ∀ call ∈ accessed gettid clock move,
    ∀ call' ∈ accessed gettid clock move', call.1 ≠ call'.1 → call.2 ≠ call'.2
  /-- A new thread finds a new environment. -/
  first : StartsFresh gettid clock past
  /-- Threads run as if they were alone. -/
  alone : Alone gettid clock past p

/-- The threads that have called the library have ids in different entries of the table. -/
def DifferentEntries (gettid : Thread → Nat) (past : ProcessHistory) : Prop :=
  ∀ move ∈ past, ∀ move' ∈ past, ∀ t ∈ move.input.caller, ∀ u ∈ move'.input.caller,
    t ≠ u → gettid t % maxThreadNum ≠ gettid u % maxThreadNum

/-! ## The table of environments -/

/-- Entries hold allocated environments, different entries different ones. -/
structure Entries (p : Process) : Prop where
  /-- An entry holds an allocated environment. -/
  bounded : ∀ slot e, p.gThreadEnvArr slot = some e → e < p.fresh
  /-- An environment is in one entry only. -/
  single : ∀ slot slot' e, p.gThreadEnvArr slot = some e → p.gThreadEnvArr slot' = some e →
    slot = slot'

/-- What `co_get_thread_env` finds: an entry, or a new environment for an empty one. -/
theorem coGetThreadEnv_cases (clock : EnvPtr → Nat → Nat) (tid : Nat) (p : Process) :
    (∃ e, p.gThreadEnvArr (tid % maxThreadNum) = some e ∧ coGetThreadEnv clock tid p = (p, e)) ∨
      p.gThreadEnvArr (tid % maxThreadNum) = none ∧ coGetThreadEnv clock tid p =
        ({ p with
          envs := Function.update p.envs p.fresh (.init p.fresh (clock p.fresh))
          gThreadEnvArr := Function.update p.gThreadEnvArr (tid % maxThreadNum) (some p.fresh)
          fresh := p.fresh + 1 }, p.fresh) := by
  unfold coGetThreadEnv
  cases entry : p.gThreadEnvArr (tid % maxThreadNum) with
  | some e => exact .inl ⟨e, rfl, rfl⟩
  | none => exact .inr ⟨rfl, rfl⟩

/-- After the lookup, the entry of the thread holds what was found. -/
theorem coGetThreadEnv_entry (clock : EnvPtr → Nat → Nat) (tid : Nat) (p : Process) :
    (coGetThreadEnv clock tid p).1.gThreadEnvArr (tid % maxThreadNum) =
      some (coGetThreadEnv clock tid p).2 := by
  rcases coGetThreadEnv_cases clock tid p with ⟨e, entry, found⟩ | ⟨_, found⟩ <;> rw [found]
  · exact entry
  · exact Function.update_self ..

/-- The lookup keeps the entries there are. -/
theorem coGetThreadEnv_keeps (clock : EnvPtr → Nat → Nat) (tid : Nat) {slot : Nat} {p : Process}
    {e : EnvPtr}
    (entry : p.gThreadEnvArr slot = some e) :
    (coGetThreadEnv clock tid p).1.gThreadEnvArr slot = some e := by
  rcases coGetThreadEnv_cases clock tid p with ⟨_, _, found⟩ | ⟨empty, found⟩ <;> rw [found]
  · exact entry
  · refine (Function.update_of_ne ?_ _ _).trans entry
    rintro rfl
    cases empty.symm.trans entry

/-- The lookup leaves the environments of other entries as they are. -/
theorem Entries.lookup_other {p : Process} (entries : Entries p) {tid slot : Nat} {e : EnvPtr}
    (entry : p.gThreadEnvArr slot = some e) :
    (coGetThreadEnv clock tid p).1.envs e = p.envs e := by
  rcases coGetThreadEnv_cases clock tid p with ⟨_, _, found⟩ | ⟨_, found⟩ <;> rw [found]
  exact Function.update_of_ne (Nat.ne_of_lt (entries.bounded slot e entry)) _ _

/-- The lookup keeps different entries different. -/
theorem Entries.lookup {p : Process} (entries : Entries p) (tid : Nat) :
    Entries (coGetThreadEnv clock tid p).1 := by
  rcases coGetThreadEnv_cases clock tid p with ⟨_, _, found⟩ | ⟨empty, found⟩ <;> rw [found]
  · exact entries
  let arr := Function.update p.gThreadEnvArr (tid % maxThreadNum) (some p.fresh)
  have old {slot : Nat} {e : EnvPtr} (away : slot ≠ tid % maxThreadNum)
      (entry : arr slot = some e) : p.gThreadEnvArr slot = some e :=
    (Function.update_of_ne away _ _).symm.trans entry
  have own {e : EnvPtr} (entry : arr (tid % maxThreadNum) = some e) : e = p.fresh :=
    Option.some.inj (entry.symm.trans (Function.update_self ..))
  -- the new environment is in no old entry
  have new {slot : Nat} {e : EnvPtr} (away : slot ≠ tid % maxThreadNum)
      (entry : arr slot = some e) (same : arr (tid % maxThreadNum) = some e) : False := by
    obtain rfl := own same
    exact Nat.lt_irrefl _ (entries.bounded slot _ (old away entry))
  constructor
  · intro slot e entry
    by_cases here : slot = tid % maxThreadNum
    · subst here
      rw [own entry]
      exact Nat.lt_succ_self p.fresh
    · exact Nat.lt_succ_of_lt (entries.bounded slot e (old here entry))
  · intro slot slot' e entry entry'
    by_cases here : slot = tid % maxThreadNum <;> by_cases here' : slot' = tid % maxThreadNum
    · rw [here, here']
    · exact (new here' entry' (here ▸ entry)).elim
    · exact (new here entry (here' ▸ entry')).elim
    · exact entries.single slot slot' e (old here entry) (old here' entry')

/-! ## Steps of a process -/

/-- The kinds of steps of a process. -/
inductive ProcessStep (gettid : Thread → Nat) (clock : EnvPtr → Nat → Nat) (p : Process) :
    ProcessInput → Process → Prop where
  /-- A thread starts or ends. -/
  | idle {p' : Process} {input : ProcessInput} : input.caller = none →
      p'.gThreadEnvArr = p.gThreadEnvArr → p'.envs = p.envs → p'.fresh = p.fresh →
      p'.control = p.control → ProcessStep gettid clock p input p'
  /-- A thread looks up its environment. -/
  | looks (t : Thread) :
      ProcessStep gettid clock p (.lookup t) (coGetThreadEnv clock (gettid t) p).1
  /-- A thread takes a step in the environment it finds. -/
  | calls (t : Thread) (i : Input) (s : State) (found : Process × EnvPtr) :
      coGetThreadEnv clock (gettid t) p = found →
      LibcoLite.step ((found.1.envs found.2).goto (found.1.control t)) i = .ok s →
      ProcessStep gettid clock p (.call t i) { found.1 with
        envs := Function.update found.1.envs found.2 s
        control := Function.update found.1.control t (s.pc s.current) }

/-- The lookup moves no thread. -/
theorem coGetThreadEnv_control (tid : Nat) (p : Process) :
    (coGetThreadEnv clock tid p).1.control = p.control := by
  rcases coGetThreadEnv_cases clock tid p with ⟨_, _, found⟩ | ⟨_, found⟩ <;> rw [found]

/-- Every step of a process is of one of the kinds. -/
theorem process_step_cases {p p' : Process} {input : ProcessInput}
    (taken : p.step gettid clock input = .ok p') : ProcessStep gettid clock p input p' := by
  unfold Process.step at taken
  split at taken
  · split at taken
    · cases taken; exact .idle rfl rfl rfl rfl rfl
    · contradiction
  · split at taken
    · cases taken; exact .idle rfl rfl rfl rfl rfl
    · contradiction
  · split at taken
    · cases taken; exact .looks _
    · contradiction
  · contradiction
  · rename_i t i _
    split at taken
    · generalize same : coGetThreadEnv clock (gettid t) p = found at taken
      obtain ⟨s, stepped, taken⟩ := Transition.bind_eq_ok.mp taken
      cases taken
      exact .calls t i s found same stepped
    · contradiction

/-! ## The table over a run -/

/-- The table, and which threads have used it. -/
structure Table (gettid : Thread → Nat) (clock : EnvPtr → Nat → Nat) (past : ProcessHistory)
    (p : Process) : Prop where
  /-- Different entries hold different environments. -/
  entries : Entries p
  /-- The entry of a caller holds the environment it has worked on. -/
  entered : ∀ move ∈ past, ∀ call ∈ accessed gettid clock move,
    p.gThreadEnvArr (gettid call.1 % maxThreadNum) = some call.2
  /-- An entry was made for a caller. -/
  made : ∀ slot e, p.gThreadEnvArr slot = some e →
    ∃ move ∈ past, ∃ t ∈ move.input.caller, gettid t % maxThreadNum = slot
  /-- A thread that has not called the library is in its own code. -/
  idle : ∀ t, (∀ move ∈ past, move.input.caller ≠ some t) → p.control t = .user

/-- The work of a thread is on the environment its lookup finds. -/
theorem accessed_of_caller (gettid : Thread → Nat) (clock : EnvPtr → Nat → Nat)
    {move : Move Process ProcessInput} {t : Thread}
    (caller : move.input.caller = some t) : accessed gettid clock move =
      some (t, (coGetThreadEnv clock (gettid t) move.before).2) := by
  rw [accessed, caller]
  rfl

/-- Only a caller works on an environment. -/
theorem caller_of_accessed {move : Move Process ProcessInput} {call : Thread × EnvPtr}
    (access : call ∈ accessed gettid clock move) : move.input.caller = some call.1 := by
  obtain ⟨t, caller, rfl⟩ := Option.map_eq_some_iff.mp access
  exact caller

section

variable {past : ProcessHistory} {p p' : Process} {input : ProcessInput}

/-- At first the table is empty. -/
theorem Table.init : Table gettid clock [] Process.init where
  entries := ⟨(by intros; contradiction), (by intros; contradiction)⟩
  entered := by simp
  made _ _ := by simp [Process.init]
  idle _ _ := rfl

/-- A step without a lookup keeps the table. -/
theorem Table.quiet (table : Table gettid clock past p) (caller : input.caller = none)
    (arr : p'.gThreadEnvArr = p.gThreadEnvArr) (fresh : p'.fresh = p.fresh)
    (control : p'.control = p.control) : Table gettid clock (⟨p, input, p'⟩ :: past) p' where
  entries := ⟨by rw [arr, fresh]; exact table.entries.bounded,
    by rw [arr]; exact table.entries.single⟩
  entered move member call access := by
    rcases List.mem_cons.mp member with rfl | member
    · cases caller.symm.trans (caller_of_accessed access)
    · rw [arr]; exact table.entered move member call access
  made slot e entry := by
    obtain ⟨move, member, made⟩ := table.made slot e (arr ▸ entry)
    exact ⟨move, List.mem_cons_of_mem _ member, made⟩
  idle t quiet := by
    rw [control]
    exact table.idle t fun move member => quiet move (List.mem_cons_of_mem _ member)

/-- A step with a lookup enters the calling thread. -/
theorem Table.lookup (table : Table gettid clock past p) {t : Thread}
    (caller : input.caller = some t)
    (arr : p'.gThreadEnvArr = (coGetThreadEnv clock (gettid t) p).1.gThreadEnvArr)
    (fresh : p'.fresh = (coGetThreadEnv clock (gettid t) p).1.fresh)
    (control : ∀ u, u ≠ t → p'.control u = p.control u) :
    Table gettid clock (⟨p, input, p'⟩ :: past) p' where
  entries := ⟨by rw [arr, fresh]; exact (table.entries.lookup _).bounded,
    by rw [arr]; exact (table.entries.lookup _).single⟩
  entered move member call access := by
    rw [arr]
    rcases List.mem_cons.mp member with rfl | member
    · rw [accessed_of_caller gettid clock caller] at access
      obtain rfl := Option.some.inj access
      exact coGetThreadEnv_entry clock (gettid t) p
    · exact coGetThreadEnv_keeps clock (gettid t) (table.entered move member call access)
  made slot e entry := by
    rw [arr] at entry
    by_cases here : gettid t % maxThreadNum = slot
    · exact ⟨_, List.mem_cons_self, t, caller, here⟩
    have old : p.gThreadEnvArr slot = some e := by
      rcases coGetThreadEnv_cases clock (gettid t) p with ⟨_, _, found⟩ | ⟨_, found⟩ <;>
        rw [found] at entry
      · exact entry
      · exact (Function.update_of_ne (Ne.symm here) _ _).symm.trans entry
    obtain ⟨move, member, made⟩ := table.made slot e old
    exact ⟨move, List.mem_cons_of_mem _ member, made⟩
  idle u quiet := by
    have other : u ≠ t := by
      rintro rfl
      exact quiet _ List.mem_cons_self caller
    rw [control u other]
    exact table.idle u fun move member => quiet move (List.mem_cons_of_mem _ member)

/-- Every step keeps the table. -/
theorem Table.step (table : Table gettid clock past p)
    (taken : p.step gettid clock input = .ok p') :
    Table gettid clock (⟨p, input, p'⟩ :: past) p' := by
  cases process_step_cases taken with
  | idle caller arr envs fresh control => exact table.quiet caller arr fresh control
  | looks t =>
    exact table.lookup rfl rfl rfl fun u _ => by rw [coGetThreadEnv_control]
  | calls t i s found same =>
    subst same
    refine table.lookup rfl rfl rfl fun u other => ?_
    exact (Function.update_of_ne other _ _).trans (congrFun (coGetThreadEnv_control _ p) u)

end

/-! ## Isolation -/

section

variable {past : ProcessHistory} {p p' : Process} {input : ProcessInput}

/-- A condition on all callers holds of the earlier ones. -/
theorem DifferentEntries.rest {move : Move Process ProcessInput}
    (different : DifferentEntries gettid (move :: past)) : DifferentEntries gettid past :=
  fun first member second member' =>
    different first (List.mem_cons_of_mem _ member) second (List.mem_cons_of_mem _ member')

/-- A thread that has not called has taken no steps. -/
theorem callsOf_eq_nil {t : Thread} (quiet : ∀ move ∈ past, move.input.caller ≠ some t) :
    callsOf t past = [] := by
  refine List.filterMap_eq_nil_iff.mpr fun move member => ?_
  have other := quiet move member
  split
  · rename_i u i called
    rw [called] at other
    exact if_neg fun same => other (congrArg some same)
  · rfl

/-- Steps of other threads are not among the steps of a thread. -/
theorem callsOf_other {move : Move Process ProcessInput} {t : Thread}
    (other : move.input.caller ≠ some t) : callsOf t (move :: past) = callsOf t past := by
  have alone := @callsOf_eq_nil [move] t (by simpa using other)
  rw [callsOf, List.filterMap_cons] at alone ⊢
  split
  · rfl
  · rename_i called
    simp [called] at alone

/-- A thread that has not called finds an empty entry, when all callers have different ones. -/
theorem Table.unused (table : Table gettid clock past p)
    (different : DifferentEntries gettid (⟨p, input, p'⟩ :: past)) {t : Thread}
    (caller : input.caller = some t) (quiet : ∀ move ∈ past, move.input.caller ≠ some t) :
    p.gThreadEnvArr (gettid t % maxThreadNum) = none := by
  cases entry : p.gThreadEnvArr (gettid t % maxThreadNum) with
  | none => rfl
  | some e =>
    obtain ⟨move, member, u, called, same⟩ := table.made _ e entry
    have other : t ≠ u := by
      rintro rfl
      exact quiet move member called
    exact absurd same.symm (different _ List.mem_cons_self move (List.mem_cons_of_mem _ member)
      t caller u called other)

/-- So it finds a new environment. -/
theorem Table.fresh (table : Table gettid clock past p)
    (different : DifferentEntries gettid (⟨p, input, p'⟩ :: past)) {t : Thread}
    (caller : input.caller = some t) (quiet : ∀ move ∈ past, move.input.caller ≠ some t) :
    (coGetThreadEnv clock (gettid t) p).1.envs (coGetThreadEnv clock (gettid t) p).2 =
      .init (coGetThreadEnv clock (gettid t) p).2
        (clock (coGetThreadEnv clock (gettid t) p).2) := by
  have empty := table.unused different caller quiet
  rcases coGetThreadEnv_cases clock (gettid t) p with ⟨_, entry, _⟩ | ⟨_, found⟩
  · cases empty.symm.trans entry
  · rw [found]
    exact Function.update_self ..

/-- In the environment a thread finds, it is where it would be alone. -/
theorem Alone.found (alone : Alone gettid clock past p) (table : Table gettid clock past p)
    (different : DifferentEntries gettid (⟨p, input, p'⟩ :: past)) {t : Thread}
    (caller : input.caller = some t) {found : Process × EnvPtr}
    (same : coGetThreadEnv clock (gettid t) p = found) :
    found.1.control t = (found.1.envs found.2).pc (found.1.envs found.2).current ∧
    ∃ own, ThreadRun found.2 (clock found.2) own (found.1.envs found.2) ∧
      own.map Move.input = callsOf t past := by
  subst same
  rw [coGetThreadEnv_control]
  by_cases used : ∃ move ∈ past, move.input.caller = some t
  · obtain ⟨move, member, called⟩ := used
    have access := accessed_of_caller gettid clock called
    have entry := table.entered move member _ access
    have held := alone move member _ access
    rcases coGetThreadEnv_cases clock (gettid t) p with ⟨e, entry', found⟩ | ⟨empty, _⟩
    · obtain rfl := Option.some.inj (entry.symm.trans entry')
      rw [found]
      exact held
    · cases empty.symm.trans entry
  · have quiet : ∀ move ∈ past, move.input.caller ≠ some t :=
      fun move member called => used ⟨move, member, called⟩
    rw [table.fresh different caller quiet, table.idle t quiet, callsOf_eq_nil quiet]
    exact ⟨rfl, [], .start, rfl⟩

/-- The environments of other threads are not the one a thread finds, and stay. -/
theorem Table.elsewhere (table : Table gettid clock past p)
    (different : DifferentEntries gettid (⟨p, input, p'⟩ :: past)) {t : Thread}
    (caller : input.caller = some t) {move : Move Process ProcessInput} (member : move ∈ past)
    {call : Thread × EnvPtr} (access : call ∈ accessed gettid clock move) (other : call.1 ≠ t) :
    call.2 ≠ (coGetThreadEnv clock (gettid t) p).2 ∧
      (coGetThreadEnv clock (gettid t) p).1.envs call.2 = p.envs call.2 := by
  have entry := table.entered move member call access
  refine ⟨fun same => ?_, table.entries.lookup_other entry⟩
  have kept := coGetThreadEnv_keeps clock (gettid t) entry
  have own := coGetThreadEnv_entry clock (gettid t) p
  rw [← same] at own
  exact different move (List.mem_cons_of_mem _ member) _ List.mem_cons_self call.1
    (caller_of_accessed access) t caller other ((table.entries.lookup _).single _ _ _ kept own)

/-- A step of one thread in the environment it finds keeps the others where they are. -/
theorem Alone.extend (alone : Alone gettid clock past p) (table : Table gettid clock past p)
    (different : DifferentEntries gettid (⟨p, input, p'⟩ :: past)) {t : Thread}
    (caller : input.caller = some t) {found : Process × EnvPtr}
    (same : coGetThreadEnv clock (gettid t) p = found)
    (here : p'.control t = (p'.envs found.2).pc (p'.envs found.2).current ∧
      ∃ own, ThreadRun found.2 (clock found.2) own (p'.envs found.2) ∧
        own.map Move.input = callsOf t (⟨p, input, p'⟩ :: past))
    (envs : ∀ e, e ≠ found.2 → p'.envs e = found.1.envs e)
    (control : ∀ u, u ≠ t → p'.control u = p.control u) :
    Alone gettid clock (⟨p, input, p'⟩ :: past) p' := by
  subst same
  rintro move member ⟨u, e⟩ access
  by_cases own : u = t
  · subst own
    obtain rfl : e = (coGetThreadEnv clock (gettid u) p).2 := by
      rcases List.mem_cons.mp member with rfl | member
      · rw [accessed_of_caller gettid clock caller] at access
        exact (congrArg Prod.snd (Option.some.inj access)).symm
      · have entry := table.entered move member _ access
        have kept := coGetThreadEnv_keeps clock (gettid u) entry
        exact Option.some.inj (kept.symm.trans (coGetThreadEnv_entry clock (gettid u) p))
    exact here
  · rcases List.mem_cons.mp member with rfl | member
    · rw [accessed_of_caller gettid clock caller] at access
      exact absurd (congrArg Prod.fst (Option.some.inj access)).symm own
    obtain ⟨away, kept⟩ := table.elsewhere different caller member access own
    have notCaller : input.caller ≠ some u := fun called =>
      own (Option.some.inj (called.symm.trans caller))
    rw [callsOf_other notCaller, control u own, envs e away, kept]
    exact alone move member _ access

/-- Steps keep every thread where it would be alone. -/
theorem Alone.step (alone : Alone gettid clock past p) (table : Table gettid clock past p)
    (different : DifferentEntries gettid (⟨p, input, p'⟩ :: past))
    (taken : p.step gettid clock input = .ok p') :
    Alone gettid clock (⟨p, input, p'⟩ :: past) p' := by
  cases process_step_cases taken with
  | idle caller arr envs fresh control =>
    intro move member call access
    rcases List.mem_cons.mp member with rfl | member
    · cases caller.symm.trans (caller_of_accessed access)
    · rw [callsOf_other (by simp [caller]), envs, control]
      exact alone move member call access
  | looks t =>
    refine alone.extend table different (t := t) rfl rfl ?_ (fun _ _ => rfl) fun u _ => by
      rw [coGetThreadEnv_control]
    exact alone.found table different (t := t) rfl rfl
  | calls t i s found same stepped =>
    obtain ⟨here, own, ran, inputs⟩ := alone.found table different (t := t) rfl same
    refine alone.extend table different (t := t) rfl same ⟨?_, ?_⟩
      (fun e away => Function.update_of_ne away _ _) fun u other => ?_
    · dsimp only
      rw [Function.update_self, Function.update_self]
    · have unmoved : (found.1.envs found.2).goto (found.1.control t) = found.1.envs found.2 := by
        rw [here, State.goto, Function.update_eq_self]
      rw [unmoved] at stepped
      refine ⟨⟨found.1.envs found.2, i, s⟩ :: own, ?_, ?_⟩
      · dsimp only
        rw [Function.update_self]
        exact .move ran stepped
      · rw [List.map_cons, inputs]
        simp [callsOf]
    · subst same
      exact (Function.update_of_ne other _ _).trans (congrFun (coGetThreadEnv_control _ p) u)

end

/-- Steps keep the first calls of threads fresh. -/
theorem StartsFresh.step {past : ProcessHistory} {p p' : Process} {input : ProcessInput}
    (first : StartsFresh gettid clock past) (table : Table gettid clock past p)
    (different : DifferentEntries gettid (⟨p, input, p'⟩ :: past)) :
    StartsFresh gettid clock (⟨p, input, p'⟩ :: past) := by
  intro later move earlier shape t caller quiet
  cases later with
  | nil =>
    obtain ⟨rfl, rfl⟩ := List.cons.inj shape
    exact table.fresh different caller quiet
  | cons last later =>
    exact first later move earlier (List.cons.inj shape).2 t caller quiet

/-- The threads of a process are isolated if and only if the threads that have called the
library have ids in different entries of the table. -/
theorem threads_isolated {past : ProcessHistory} {p : Process}
    (run : Run (Process.step gettid clock) Process.init past p) :
    Isolated gettid clock past p ↔ DifferentEntries gettid past := by
  have ⟨table, holds⟩ := run.history_invariant (fun _ => True)
    (fun past p => Table gettid clock past p ∧ (DifferentEntries gettid past →
      Alone gettid clock past p ∧ StartsFresh gettid clock past))
    ⟨.init, fun _ => ⟨(by rintro _ ⟨⟩), fun later move earlier shape => by simp at shape⟩⟩
    (fun past p input p' _ ⟨table, holds⟩ _ taken => ⟨table.step taken, fun different =>
      have ⟨alone, first⟩ := holds different.rest
      ⟨alone.step table different taken, first.step table different⟩⟩) fun _ _ => trivial
  constructor
  · intro isolated move member move' member' t caller u caller' other same
    have access := accessed_of_caller gettid clock caller
    have access' := accessed_of_caller gettid clock caller'
    refine isolated.apart move member move' member' _ access _ access' other ?_
    have entry := table.entered move member _ access
    have entry' := table.entered move' member' _ access'
    exact Option.some.inj (entry.symm.trans ((congrArg p.gThreadEnvArr same).trans entry'))
  · intro different
    obtain ⟨alone, first⟩ := holds different
    refine ⟨fun move member move' member' call access call' access' other same => ?_, first, alone⟩
    have entry := table.entered move member _ access
    have entry' := table.entered move' member' _ access'
    rw [same] at entry
    exact different move member move' member' call.1 (caller_of_accessed access) call'.1
      (caller_of_accessed access') other (table.entries.single _ _ _ entry entry')

/-- Two threads create a coroutine each. -/
def twoThreads : List ProcessInput :=
  [.start, .call 0 (.create none), .start, .call 1 (.create none)]

/-- Threads with successive ids are isolated. -/
theorem threads_isolated_twoThreads :
    Isolated (fun t => t + 1) (fun _ => ticking)
      (movesOf (Process.step (fun t => t + 1) fun _ => ticking) Process.init twoThreads)
      (outcome (Process.step (fun t => t + 1) fun _ => ticking) Process.init twoThreads) :=
  (threads_isolated (run_of_outcome twoThreads (by decide +kernel))).mpr
    (by unfold DifferentEntries; decide +kernel)

/-- A thread creates a coroutine, and another one looks up its environment. -/
def strangerThread : List ProcessInput :=
  [.start, .call 0 (.create none), .start, .lookup 1]

/-- Threads are not isolated in every run: those with the ids 1 and 10241 work on the same
environment. -/
theorem threads_isolated_fails : ¬∀ (gettid : Thread → Nat) (clock : EnvPtr → Nat → Nat)
    (past : ProcessHistory) (p : Process),
    Run (Process.step gettid clock) Process.init past p → Isolated gettid clock past p := by
  intro allIsolated
  have isolated := allIsolated (fun t => t * 10240 + 1) (fun _ => ticking) _ _
    (run_of_outcome strangerThread (by decide +kernel))
  have shared : ∃ move ∈ movesOf (Process.step (fun t => t * 10240 + 1) fun _ => ticking)
      Process.init strangerThread, ∃ move' ∈ movesOf (Process.step (fun t => t * 10240 + 1)
      fun _ => ticking) Process.init strangerThread,
      ∃ call ∈ accessed (fun t => t * 10240 + 1) (fun _ => ticking) move,
      ∃ call' ∈ accessed (fun t => t * 10240 + 1) (fun _ => ticking) move',
        call.1 ≠ call'.1 ∧ call.2 = call'.2 := by decide +kernel
  obtain ⟨move, member, move', member', call, access, call', access', other, same⟩ := shared
  exact isolated.apart move member move' member' call access call' access' other same

end LibcoLite
