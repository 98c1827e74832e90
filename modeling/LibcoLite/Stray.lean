import LibcoLite.Events
import LibcoLite.Reuse
import LibcoLite.Status
import LibcoLite.Waiters

/-!
# Events that do not deliver

The event loop dequeues the first task of a descriptor for every event, and makes it running
only if the event meets the task's record. `epoll` reports errors and hang-ups whether or not
they were asked for, and the record of a first `co_write` asks for `EPOLLIN` while the entry
asks for `EPOLLOUT`. What becomes of a task that is dequeued for an event without its bit, and
of the user of a first `co_write`, is followed through all runs.
-/

namespace LibcoLite

open TailQueue
open Transition (Along Move Run along_append along_cons)

variable {owner : Nat → TaskPtr} {queue queue' : Nat → List TaskPtr} {self : EnvPtr}
  {clock : Nat → Nat} {past later : History} {start s s' : State} {i : Input} {p : TaskPtr}
  {call : Call} {fd : Nat}

/-! ## Forgotten tasks -/

/-- A task waits for a bit in no queue, so that no event can hand the bit to it. -/
structure Forgotten (p : TaskPtr) (call : Call) (fd : Nat) (queue : Nat → List TaskPtr)
    (s : State) : Prop where
  /-- The task has not been reclaimed. -/
  alive : s.live p = true
  /-- It is in its wait loop and has not received the bit. -/
  awaits : Awaits s p call fd
  /-- It is in no queue. -/
  absent : ∀ other, p ∉ queue other

/-- Every step leaves a forgotten task forgotten. -/
theorem Forgotten.step (forgotten : Forgotten p call fd queue s) (inv : Integrity s)
    (queueing : Queueing queue s) (taken : LibcoLite.step s i = .ok s')
    (changed : QueueStep queue s i s' queue') : Forgotten p call fd queue' s' := by
  obtain ⟨alive, ⟨inside, lacks⟩, absent⟩ := forgotten
  have more : (s.tasks p).status ≠ .exit := fun exited =>
    Pc.not_exiting_of_waiting inside (inv.exits p alive exited)
  refine ⟨step_live inv taken alive more, ⟨step_waits_on inv taken alive inside lacks, ?_⟩,
    changed.absent absent ?_⟩
  · apply Classical.byContradiction
    intro received
    obtain ⟨ev, rest, _, rfl, _, _, first, _⟩ := step_received inv taken alive inside lacks received
    rw [queueing.spells.first_eq] at first
    exact absent _ (List.mem_of_head? first)
  · rintro other ⟨_, _, _, _, _, user, _⟩ rfl
    rw [user] at inside
    cases inside

/-- An event that does not deliver leaves the task it dequeues forgotten. -/
theorem forgotten_of_stray (inv : Integrity s) (queueing : Queueing queue s)
    (taken : step s i = .ok s') (changed : QueueStep queue s i s' queue') {ev : EpollEvent}
    {rest : List EpollEvent} (handles : s.pc s.current = .handle (ev :: rest))
    (stray : delivers ⟨s, i, s'⟩ = false) :
    ∃ p call, s.links.first ev.dataFd = some p ∧ Forgotten p call ev.dataFd queue' s' := by
  obtain ⟨rfl, p, first, alive, tasks, _⟩ := step_handled taken handles
  have lead := queueing.spells.first_eq ev.dataFd
  rw [first] at lead
  obtain ⟨_, call, blocked⟩ := queueing.members _ p (List.mem_of_head? lead.symm)
  have away : p ≠ s.current := by
    rintro rfl
    have inside := blocked.inside
    rw [handles] at inside
    cases inside
  have inside : (s'.pc p).waiting = some (call, ev.dataFd) :=
    step_waits_on inv taken alive blocked.inside blocked.lacks
  have live : s'.live p = true :=
    step_live inv taken alive (by rw [blocked.status]; simp)
  refine ⟨p, call, first, live, ⟨inside, ?_⟩, ?_⟩
  · rw [tasks, Function.update_self]
    by_cases meets : ((s.tasks p).events ev.dataFd).events &&& ev.events ≠ 0
    · rw [TaskStruct.dispatch_meets meets]
      have lacks : ((s.tasks p).events ev.dataFd).events &&& ev.events ≠ 0 →
          ev.events &&& call.event = 0 := by
        simpa [delivers, handles, first, blocked.inside] using stray
      simpa using lacks meets
    · rw [TaskStruct.dispatch, if_neg meets]
      exact blocked.lacks
  · cases changed with
    | keeps _ _ out => exact absurd handles (out ev rest)
    | removes ev' rest' q behind pc shape =>
      obtain ⟨rfl, rfl⟩ := List.cons.inj (Pc.handle.inj (handles.symm.trans pc))
      have head : q = p := by
        rw [shape] at lead
        exact (Option.some.inj lead).symm
      have nodup := queueing.spells.nodup ev.dataFd
      rw [shape, head] at nodup
      intro other
      by_cases here : other = ev.dataFd
      · rw [here, Function.update_self]
        exact (List.nodup_cons.mp nodup).1
      · rw [Function.update_of_ne here]
        intro member
        obtain ⟨_, _, elsewhere⟩ := queueing.members other p member
        cases elsewhere.inside.symm.trans blocked.inside
        exact here rfl
    | clears _ releases => cases handles.symm.trans releases.2.1
    | cuts _ _ _ _ releases => cases handles.symm.trans releases.2.1

/-- A forgotten task of a thread whose descriptors have single owners stays forgotten. -/
theorem forgotten_of_run (reached : ThreadRun self clock past start)
    (before : Along (Owned owner) past) (run : Run step start later s)
    (owned : Along (Owned owner) later) (queueing : Queueing queue start)
    (forgotten : Forgotten p call fd queue start) :
    ∃ queue, Queueing queue s ∧ Sole owner queue s ∧ Forgotten p call fd queue s := by
  induction run with
  | start =>
    obtain ⟨_, _, queue', queueing', sole, _⟩ := armed_of_run reached before
    refine ⟨queue', queueing', sole, forgotten.alive, forgotten.awaits, ?_⟩
    intro other
    rw [(queueing'.spells.chain other).unique (queueing.spells.chain other)]
    exact forgotten.absent other
  | @move later s s' i run taken ih =>
    obtain ⟨last, rest⟩ := along_cons.mp owned
    obtain ⟨queue, queueing, sole, forgotten⟩ := ih rest
    obtain ⟨inv, ended, _⟩ := armed_of_run (reached.trans run) (along_append.mpr ⟨rest, before⟩)
    obtain ⟨queue', changed, queueing'⟩ :=
      queueing.step inv (sole.orderly inv queueing last) taken
    exact ⟨queue', queueing', sole.step inv ended queueing last taken changed,
      forgotten.step inv queueing taken changed⟩

/-- In a thread whose descriptors have single owners, the task that is dequeued for an event
that does not deliver never leaves the wait loop it is in, and every further event for the
descriptor dereferences null. -/
theorem stray_event_loses_its_waiter {stray : Move State Input}
    (run : ThreadRun self clock (later ++ stray :: past) s)
    (owned : Along (Owned owner) (later ++ stray :: past)) {ev : EpollEvent}
    {rest : List EpollEvent}
    (handles : stray.before.pc stray.before.current = .handle (ev :: rest))
    (undelivered : delivers stray = false) :
    ∃ p call, stray.before.links.first ev.dataFd = some p ∧ s.live p = true ∧
      Awaits s p call ev.dataFd ∧
      ∀ again more, s.pc s.current = .handle (again :: more) → again.dataFd = ev.dataFd →
        step s .run = .error (.fault .null) := by
  obtain ⟨middle, reached, last⟩ := run.split
  obtain ⟨after, earlier⟩ := along_append.mp owned
  have lost : ∃ p call queue, stray.before.links.first ev.dataFd = some p ∧
      Queueing queue middle ∧ Forgotten p call ev.dataFd queue middle := by
    cases reached with
    | move reached taken =>
      obtain ⟨now, before⟩ := along_cons.mp earlier
      obtain ⟨inv, _, queue, queueing, sole, _⟩ := armed_of_run reached before
      obtain ⟨queue', changed, queueing'⟩ :=
        queueing.step inv (sole.orderly inv queueing now) taken
      obtain ⟨p, call, first, forgotten⟩ :=
        forgotten_of_stray inv queueing taken changed handles undelivered
      exact ⟨p, call, queue', first, queueing', forgotten⟩
  obtain ⟨p, call, queue, first, queueing, forgotten⟩ := lost
  have own : owner ev.dataFd = p := by
    cases reached with
    | move reached taken =>
      obtain ⟨_, _, queue, queueing, sole, _⟩ :=
        armed_of_run reached (along_cons.mp earlier).2
      rw [queueing.spells.first_eq] at first
      exact sole.owned _ p (List.mem_of_head? first)
  obtain ⟨queue, queueing, sole, forgotten⟩ :=
    forgotten_of_run reached earlier last after queueing forgotten
  refine ⟨p, call, first, forgotten.alive, forgotten.awaits, ?_⟩
  intro again more handles same
  rw [step_null (integrity_of_run run) queueing handles, queueing.spells.first_eq, same,
    sole.empty (own ▸ forgotten.absent _)]
  rfl

/-- A coroutine waits for data, and is dequeued when the peer hangs up; the hang-up is reported
again. -/
def hangUp : List Input :=
  [.create none, .eventloop, .ready (some []), .pick 1, .io .read 3 true, .ctl true, .pick 1,
    .ready (some [(3, epollHup)]), .run, .run, .pick 1, .ready (some [(3, epollHup)])]

/-- The second report of the hang-up ends the thread. -/
theorem stray_event_loses_its_waiter_hangUp :
    step (replay 2 hangUp) .run = .error (.fault .null) := by
  have run := run_of_replay 2 hangUp (by decide) (by decide) (by decide +kernel)
  have owned : Along (Owned fun _ => 1) (replayMoves 2 hangUp) := by
    unfold Along
    decide +kernel
  obtain ⟨again, pick, drained, stray, past, shape⟩ : ∃ again pick drained stray past,
      replayMoves 2 hangUp = [again, pick, drained] ++ stray :: past :=
    ⟨_, _, _, _, _, rfl⟩
  have handled : ∀ move ∈ (replayMoves 2 hangUp)[3]?,
      move.before.pc move.before.current = .handle [⟨epollHup, 3⟩] ∧ delivers move = false := by
    decide +kernel
  have polls : (replay 2 hangUp).pc (replay 2 hangUp).current = .handle [⟨epollHup, 3⟩] := by
    decide +kernel
  rw [shape] at run owned handled
  obtain ⟨handles, undelivered⟩ := handled stray rfl
  obtain ⟨_, _, _, _, _, faults⟩ := stray_event_loses_its_waiter run owned handles undelivered
  exact faults ⟨epollHup, 3⟩ [] polls rfl

/-! ## The first write -/

/-- The user waits for `EPOLLOUT` with the record of a first call, and what entry there is asks
for this bit only. -/
structure Unheard (user : TaskPtr) (fd : Nat) (s : State) : Prop where
  /-- The user has not been reclaimed. -/
  alive : s.live user = true
  /-- It is in the wait loop of `co_write` and has not received the bit. -/
  awaits : Awaits s user .write fd
  /-- Its record is that of a first call. -/
  record : ((s.tasks user).events fd).events = epollIn
  /-- An entry asks for `EPOLLOUT` only. -/
  mask : ∀ entry, s.interest fd = some entry → entry.events = epollOut

variable {user : TaskPtr}

/-- No step changes this. -/
theorem Unheard.step (unheard : Unheard user fd s) (inv : Integrity s) (pending : Pending s)
    (only : Private user fd s) (used : UsedBy user fd ⟨s, i, s'⟩)
    (taken : LibcoLite.step s i = .ok s') : Unheard user fd s' := by
  obtain ⟨alive, ⟨inside, lacks⟩, record, mask⟩ := unheard
  have more : ¬(s.pc user).exiting := Pc.not_exiting_of_waiting inside
  have alive' : s'.live user = true :=
    step_live inv taken alive fun exited => more (inv.exits user alive exited)
  have waits := step_waits_on inv taken alive inside lacks
  -- the user neither registers nor narrows, so that its record and the mask stay
  have stays : ((s'.tasks user).events fd) = (s.tasks user).events fd ∧
      (s'.interest fd = s.interest fd ∨ s'.interest fd = none) := by
    cases descriptor_step inv only used taken alive more with
    | keeps _ _ record interest => exact ⟨record, .inl interest⟩
    | registers _ _ _ _ _ own pc =>
      rw [pc] at inside
      cases inside
    | narrows _ _ own pc bit => exact absurd lacks bit
    | closes _ record absent => exact ⟨record, .inr absent⟩
  refine ⟨alive', ⟨waits, ?_⟩, by rw [stays.1]; exact record, ?_⟩
  · cases present : s.interest fd with
    | some entry =>
      have starved : Starved user fd s entry := ⟨inside, lacks, record, mask entry present⟩
      exact (starved.stays present pending inv alive taken stays.1).lacks
    | none =>
      apply Classical.byContradiction
      intro received
      obtain ⟨ev, rest, pc, rfl, _⟩ := step_received inv taken alive inside lacks received
      have may := pending _ pc ev List.mem_cons_self
      simp [mayReport, present] at may
  · intro entry present
    rcases stays.2 with same | absent
    · exact mask entry (same ▸ present)
    · cases absent.symm.trans present

/-- A first `co_write` that is queued leaves its user so. -/
theorem unheard_of_first {granted : Bool} (inv : Integrity s) (only : Private user fd s)
    (used : UsedBy user fd ⟨s, .io .write fd granted, s'⟩)
    (taken : step s (.io .write fd granted) = .ok s')
    (first : ((s.tasks user).events fd).dataFd = 0) (queued : s'.pc user = .wait .write fd) :
    Unheard user fd s' := by
  have own : s.current = user := used .write granted rfl
  have alive : s.live user = true := own ▸ inv.seated.alive
  have user' : s.pc user = .user := by
    obtain ⟨_, kind⟩ := step_cases taken
    cases kind with
    | refused _ _ _ _ _ pc => exact own ▸ pc
    | queued _ _ _ _ _ _ pc => exact own ▸ pc
  have more : ¬(s.pc user).exiting := by
    rw [user']
    exact id
  have alive' : s'.live user = true :=
    step_live inv taken alive fun exited => more (inv.exits user alive exited)
  cases descriptor_step inv only used taken alive more with
  | keeps _ _ _ _ quiet => exact absurd rfl (quiet .write granted)
  | registers _ _ _ tsk ctl _ _ registers tasks interest control =>
    have accepted : ¬ctl.2 < 0 := by
      intro failed
      rw [control, if_pos failed] at queued
      cases queued
    have lacks := registers.lacks.2
    cases registers with
    | add =>
      refine ⟨alive', ⟨by rw [queued]; rfl, tasks ▸ lacks⟩, ?_, ?_⟩
      · rw [tasks]
        simp [TaskStruct.record]
      · intro entry present
        rw [interest, epollCtl_granted (.inl rfl) accepted, Function.update_self] at present
        obtain rfl := Option.some.inj present
        rfl
    | mod seen => exact absurd (own ▸ first) seen
    | keep seen => exact absurd (own ▸ first) seen

/-- In all runs the user stays so. -/
theorem unheard_of_run (reached : ThreadRun self clock past start)
    (before : Along (UsedBy user fd) past) (run : Run step start later s)
    (used : Along (UsedBy user fd) later) (unheard : Unheard user fd start) :
    Unheard user fd s := by
  induction run with
  | start => exact unheard
  | @move later s s' i run taken ih =>
    obtain ⟨last, rest⟩ := along_cons.mp used
    have whole := reached.trans run
    have only := private_of_run whole (along_append.mpr ⟨rest, before⟩)
    exact (ih rest).step (integrity_of_run whole) (pending_of_run whole) only last taken

/-- The first call on a descriptor that only one coroutine uses, if it is `co_write` and is
queued, never returns: the user is in its wait loop in all states that follow. -/
theorem first_write_never_returns {write : Move State Input} {granted : Bool}
    (run : ThreadRun self clock (later ++ write :: past) s)
    (used : Along (UsedBy user fd) (later ++ write :: past))
    (calls : write.input = .io .write fd granted)
    (first : ((write.before.tasks user).events fd).dataFd = 0)
    (queued : write.after.pc user = .wait .write fd) :
    s.live user = true ∧ Awaits s user .write fd := by
  obtain ⟨middle, reached, last⟩ := run.split
  obtain ⟨after, earlier⟩ := along_append.mp used
  have unheard : Unheard user fd middle := by
    cases reached with
    | move reached taken =>
      obtain ⟨now, before⟩ := along_cons.mp earlier
      subst calls
      exact unheard_of_first (integrity_of_run reached) (private_of_run reached before) now taken
        first queued
  have stays := unheard_of_run reached earlier last after unheard
  exact ⟨stays.alive, stays.awaits⟩

/-- A coroutine writes first, and the descriptor becomes writable. -/
def firstWriter : List Input :=
  [.create none, .eventloop, .ready (some []), .pick 1, .io .write 3 true, .ctl true, .pick 1,
    .ready (some [(3, epollOut)]), .run, .run, .pick 1]

/-- The coroutine has not received the bit. -/
theorem first_write_never_returns_firstWriter :
    ((replay 2 firstWriter).tasks 1).revents 3 &&& epollOut = 0 := by
  have run := run_of_replay 2 firstWriter (by decide) (by decide) (by decide +kernel)
  have used : Along (UsedBy 1 3) (replayMoves 2 firstWriter) := by
    intro move member call granted input
    have calls : ∀ move ∈ replayMoves 2 firstWriter, move.input.descriptor = none ∨
        move.before.current = 1 := by decide +kernel
    rcases calls move member with none | own
    · rw [input] at none
      cases none
    · exact own
  obtain ⟨last, drained, handled, polled, away, test, write, past, shape⟩ :
      ∃ last drained handled polled away test write past, replayMoves 2 firstWriter =
        [last, drained, handled, polled, away, test] ++ write :: past :=
    ⟨_, _, _, _, _, _, _, _, rfl⟩
  have writes : ∀ move ∈ (replayMoves 2 firstWriter)[6]?,
      move.input = .io .write 3 true ∧ ((move.before.tasks 1).events 3).dataFd = 0 ∧
        move.after.pc 1 = .wait .write 3 := by decide +kernel
  rw [shape] at run used writes
  obtain ⟨calls, first, queued⟩ := writes write rfl
  exact (first_write_never_returns run used calls first queued).2.lacks

end LibcoLite
