import LibcoLite.FdsList
import LibcoLite.Join
import LibcoLite.Reuse
import LibcoLite.Waiters

/-!
# Careful programs

The library trusts the code that runs on it: an event for a descriptor nobody waits on, a
second join, a full array of descriptors or the exit of a task that was never queued all
lead it astray. A program is careful if it leaves its own code only while it waits on the
one descriptor it has registered, lets each coroutine be joined once, and has its blocking
calls accepted. Under events that contain the awaited bits, the steps of careful programs
keep to the memory of the library: no null or freed task is accessed, and no array is left.
-/

namespace LibcoLite

open TailQueue
open Transition (Along Move along_cons)

/-- A task has no registered descriptor but the one it waits on. -/
def OnlyWaits (s : State) (p : TaskPtr) : Prop :=
  ∀ k < (s.tasks p).fdsIdx, s.interest ((s.tasks p).fds k) ≠ none →
    (s.pc p).waiting.map Prod.snd = some ((s.tasks p).fds k)

instance (s : State) (p : TaskPtr) : Decidable (OnlyWaits s p) :=
  inferInstanceAs (Decidable (∀ k < (s.tasks p).fdsIdx, s.interest ((s.tasks p).fds k) ≠ none →
    (s.pc p).waiting.map Prod.snd = some ((s.tasks p).fds k)))

/-- The inputs behind which a task does not run on in its own code: a switch, and the call of
`co_eventloop`. -/
def Input.leaves : Input → Bool
  | .pick _ => true
  | .eventloop => true
  | _ => false

/-- A move of a careful program, whose descriptors have owners and whose event loop runs in one
task. -/
structure Careful (owner : Nat → TaskPtr) (looper : TaskPtr) (move : Move State Input) : Prop where
  /-- Descriptors are used by their owners. -/
  owned : Owned owner move
  /-- The event loop runs in the given task. -/
  loops : LoopsIn looper move
  /-- A handled event contains the bit its waiter waits for. -/
  delivered : delivers move = true
  /-- A task leaves its own code only while it waits on all it has registered. -/
  waits : move.input.leaves = true → OnlyWaits move.before move.before.current
  /-- Blocking calls are not refused. -/
  succeeds : CallsSucceed move
  /-- Occupied slots are joined. -/
  joins : ∀ cid, move.input = .join cid → move.before.task cid ≠ none

/-- The slot an input passes to `co_join`. -/
def Input.joined : Input → Option Nat
  | .join cid => some cid
  | _ => none

instance (owner : Nat → TaskPtr) (looper : TaskPtr) (move : Move State Input) :
    Decidable (Careful owner looper move) :=
  decidable_of_iff (Owned owner move ∧ LoopsIn looper move ∧ delivers move = true ∧
    (move.input.leaves = true → OnlyWaits move.before move.before.current) ∧
    CallsSucceed move ∧ ∀ cid ∈ move.input.joined, move.before.task cid ≠ none) <| by
  have joins : (∀ cid ∈ move.input.joined, move.before.task cid ≠ none) ↔
      ∀ cid, move.input = .join cid → move.before.task cid ≠ none := by
    constructor
    · intro each cid input
      exact each cid (by rw [input]; rfl)
    · intro each cid member
      apply each cid
      cases given : move.input with
      | join cid' =>
        rw [given] at member
        cases member
        rfl
      | _ =>
        rw [given] at member
        cases member
  rw [joins]
  constructor
  · rintro ⟨owned, loops, delivered, waits, succeeds, joins⟩
    exact ⟨owned, loops, delivered, waits, succeeds, joins⟩
  · intro careful
    exact ⟨careful.owned, careful.loops, careful.delivered, careful.waits, careful.succeeds,
      careful.joins⟩

variable {owner : Nat → TaskPtr} {looper : TaskPtr} {queue queue' : Nat → List TaskPtr}
  {self : EnvPtr} {clock : Nat → Nat} {past : History} {s s' : State} {i : Input}

/-! ## Tasks that wait on all they have registered -/

/-- The tasks that other tasks run before, and the one in the event loop, have no registered
descriptor but the one they wait on. -/
def Waiting (s : State) : Prop :=
  ∀ p, s.live p = true → p ≠ s.current ∨ (s.pc p).looping → OnlyWaits s p

/-- A step leaves no new entry but for the descriptor it passes to a blocking call. -/
theorem RecordStep.entry_old (change : RecordStep s i s') {fd : Nat}
    (other : fd ∉ i.descriptor) (present : s'.interest fd ≠ none) : s.interest fd ≠ none := by
  cases change with
  | keeps _ _ _ interest => rwa [interest] at present
  | registers call fd' granted _ tsk ctl _ _ registers _ interest =>
    have elsewhere : fd ≠ fd' := by
      rintro rfl
      exact other rfl
    rwa [interest, registers.elsewhere elsewhere] at present
  | narrows fd' granted _ _ _ _ interest =>
    rw [interest] at present
    by_cases here : fd = fd'
    · subst here
      by_cases failed : (narrowing fd granted s).2 < 0
      · rwa [narrowing, epollCtl_failed failed] at present
      · obtain ⟨entry, was⟩ := epollCtl_mod_present failed
        rw [was]
        exact Option.some_ne_none entry
    · rwa [narrowing, epollCtl_other here] at present
  | releases _ _ _ _ interest =>
    rw [interest] at present
    by_cases here : fd = (s.tasks s.current).lastFd
    · rw [here, Function.update_self] at present
      exact absurd rfl present
    · rwa [Function.update_of_ne here] at present
  | closes fd' _ _ interest =>
    rw [interest] at present
    by_cases here : fd = fd'
    · rw [here, Function.update_self] at present
      exact absurd rfl present
    · rwa [Function.update_of_ne here] at present

/-- A task that keeps its records goes on waiting on all it has registered. -/
theorem OnlyWaits.step {p : TaskPtr} (only : OnlyWaits s p)
    (records : (s'.tasks p).SameRecords (s.tasks p))
    (waits : (s'.pc p).waiting = (s.pc p).waiting)
    (old : ∀ k < (s.tasks p).fdsIdx, s'.interest ((s.tasks p).fds k) ≠ none →
      s.interest ((s.tasks p).fds k) ≠ none) : OnlyWaits s' p := by
  obtain ⟨_, fds, count⟩ := records
  intro k small present
  rw [count] at small
  rw [fds] at present ⊢
  rw [waits]
  exact only k small (old k small present)

/-- A step of a task in the event loop, or into it, leaves its records and adds no entry. -/
theorem step_loop_records (inv : Integrity s) (taken : step s i = .ok s')
    (inside : (s.pc s.current).looping ∨ i = .eventloop) :
    (s'.tasks s.current).SameRecords (s.tasks s.current) ∧ i.descriptor = none := by
  cases step_records inv taken with
  | keeps _ _ quiet _ same =>
    refine ⟨same s.current inv.seated.alive, ?_⟩
    cases i with
    | io call fd granted => exact quiet.elim
    | _ => rfl
  | registers call fd granted _ tsk ctl pc =>
    rcases inside with inside | inside
    · rw [pc] at inside
      exact inside.elim
    · cases inside
  | narrows fd granted _ pc =>
    rcases inside with inside | inside
    · rw [pc] at inside
      exact inside.elim
    · cases inside
  | releases _ pc =>
    rcases inside with inside | inside
    · rw [pc] at inside
      exact inside.elim
    · cases inside
  | closes fd _ tasks =>
    rw [tasks]
    exact ⟨⟨rfl, rfl, rfl⟩, rfl⟩

/-- Every careful step keeps the tasks that are passed by waiting on all they have registered. -/
theorem Waiting.step (waiting : Waiting s) (inv : Integrity s) (sole : Sole owner queue s)
    (careful : Careful owner looper ⟨s, i, s'⟩) (taken : LibcoLite.step s i = .ok s') :
    Waiting s' := by
  intro p alive passed
  have change := step_records inv taken
  rcases i.switches with ⟨rounds, rfl⟩ | other
  · obtain ⟨_, _, _, live, _⟩ := step_switch_frame inv taken
    have before : s.live p = true := live ▸ alive
    have only : OnlyWaits s p := by
      by_cases own : p = s.current
      · rw [own]
        exact careful.waits rfl
      · exact waiting p before (.inl own)
    cases change with
    | keeps _ _ _ interest same =>
      apply only.step (same p before)
      · exact step_switch_pc Pc.waiting (fun _ => rfl) inv taken p
      · intro k _ present
        rwa [interest] at present
  rw [(step_cases taken).2.current other] at passed
  by_cases own : p = s.current
  · subst own
    have loops := passed.resolve_left (fun away => away rfl)
    cases step_own inv taken other with
    | aside _ out => exact absurd loops out
    | enters call fd granted before there =>
      rw [there] at loops
      exact loops.elim
    | again call fd granted before lacks there =>
      rw [there] at loops
      exact loops.elim
    | starts before there =>
      obtain ⟨records, silent⟩ := step_loop_records inv taken (.inr rfl)
      have user : s.pc s.current = .user := by
        obtain ⟨_, kind⟩ := step_cases taken
        cases kind with
        | eventloop pc => exact pc
      refine (careful.waits rfl).step records (by rw [there, user]; rfl) ?_
      intro k _ present
      exact change.entry_old (by simp [silent]) present
    | loops before after =>
      obtain ⟨records, silent⟩ := step_loop_records inv taken (.inl before)
      refine (waiting s.current inv.seated.alive (.inr before)).step records ?_ ?_
      · rw [Pc.waiting_of_looping before, Pc.waiting_of_looping after]
      · intro k _ present
        exact change.entry_old (by simp [silent]) present
  · rcases step_others inv taken other own alive with ⟨dead, _⟩ | ⟨before, same, _⟩
    · obtain ⟨_, none, _⟩ := step_new inv taken alive dead
      intro k small
      omega
    · refine (waiting p before (.inl own)).step (change.others before own) (by rw [same]) ?_
      intro k small present
      apply change.entry_old _ present
      intro passes
      obtain ⟨_, _, belongs⟩ := careful.owned _ passes
      exact own ((sole.recorded p before k small).symm.trans belongs)

/-! ## Events find waiters -/

/-- When the event loop polls, tasks in a wait loop are queued. -/
theorem Served.polled (served : Served looper queue s) (inv : Integrity s)
    (polls : s.pc s.current = .epollWait) {p : TaskPtr} {call : Call} {fd : Nat}
    (alive : s.live p = true) (inside : (s.pc p).waiting = some (call, fd)) : p ∈ queue fd := by
  rcases served.waits p call fd alive inside with member | ready
  · exact member
  · have away : p ≠ s.current := by
      rintro rfl
      cases polls.symm.trans ready.inside
    have loops := served.loops s.current inv.seated.alive (by rw [polls]; trivial)
    obtain ⟨_, _, notPolling, _⟩ := served.turn p call fd alive away ready
    exact absurd (loops ▸ polls) (notPolling loops)

/-- When the event loop polls, every registered descriptor has a waiter. -/
theorem Waiting.polled (waiting : Waiting s) (held : Held s) (served : Served looper queue s)
    (inv : Integrity s) (polls : s.pc s.current = .epollWait) {fd : Nat} {entry : EpollEvent}
    (present : s.interest fd = some entry) : queue fd ≠ [] := by
  obtain ⟨p, alive, k, small, recorded⟩ := held fd entry present
  have passed : p ≠ s.current ∨ (s.pc p).looping := by
    by_cases own : p = s.current
    · rw [own, polls]
      exact .inr trivial
    · exact .inl own
  have waits := waiting p alive passed k small (by rw [recorded, present]; simp)
  rw [recorded] at waits
  obtain ⟨⟨call, fd'⟩, inside, rfl⟩ := Option.map_eq_some_iff.mp waits
  exact List.ne_nil_of_mem (served.polled inv polls alive inside)

/-- The events still to be handled are for different descriptors, and each has a waiter. -/
def Expected (s : State) : Prop :=
  ∀ events, s.pc s.current = .handle events → (events.map EpollEvent.dataFd).Nodup ∧
    ∀ ev ∈ events, s.links.first ev.dataFd ≠ none

/-- The events `epoll_wait` returns name the descriptors it reports, in the same order. -/
theorem dataFd_of_epollWait (named : Named s) {reports : List (Nat × Mask)}
    {events : List EpollEvent} (polled : epollWait s.interest reports = some events) :
    events.map EpollEvent.dataFd = reports.map Prod.fst ∧ (reports.map Prod.fst).Nodup := by
  unfold epollWait at polled
  split at polled
  · rename_i may
    obtain rfl := Option.some.inj polled
    refine ⟨?_, may.1⟩
    rw [List.map_map]
    apply List.map_congr_left
    intro report reported
    obtain ⟨entry, present⟩ := mayReport_registered (may.2.2 report reported)
    simp only [Function.comp_apply, present, Option.elim_some, named.entries _ _ present]
  · cases polled

/-- Polling leaves events that have waiters. -/
theorem Waiting.expected (waiting : Waiting s) (held : Held s) (served : Served looper queue s)
    (queueing : Queueing queue s) (inv : Integrity s) (named : Named s)
    (polls : s.pc s.current = .epollWait) {reports : List (Nat × Mask)}
    {events : List EpollEvent} (polled : epollWait s.interest reports = some events) :
    (events.map EpollEvent.dataFd).Nodup ∧ ∀ ev ∈ events, s.links.first ev.dataFd ≠ none := by
  obtain ⟨names, distinct⟩ := dataFd_of_epollWait named polled
  refine ⟨names ▸ distinct, ?_⟩
  intro ev member
  have may := may_of_epollWait named polled ev member
  obtain ⟨entry, present⟩ := mayReport_registered may
  have occupied := waiting.polled held served inv polls present
  rw [queueing.spells.first_eq]
  exact fun empty => occupied (List.head?_eq_none_iff.mp empty)

/-- Every careful step leaves the events that are still to be handled with waiters. -/
theorem Expected.step (expected : Expected s) (waiting : Waiting s) (held : Held s)
    (served : Served looper queue s) (queueing : Queueing queue s) (queueing' : Queueing queue' s')
    (inv : Integrity s) (suspended : Suspended s) (named : Named s)
    (changed : QueueStep queue s i s' queue') (taken : LibcoLite.step s i = .ok s') :
    Expected s' := by
  intro events there
  have other := suspended.notSwitched inv taken (by rw [there]; exact id)
  rw [(step_cases taken).2.current other] at there
  rcases step_handles inv taken other there with ⟨reports, rfl, pc, polled⟩ | ⟨ev, pc⟩
  · have same : s'.links = s.links := by
      obtain ⟨_, kind⟩ := step_cases taken
      cases kind with
      | timeout => rfl
      | reported => rfl
    rw [same]
    exact waiting.expected held served queueing inv named pc polled
  · obtain ⟨distinct, waiters⟩ := expected _ pc
    obtain ⟨fresh, distinct⟩ := List.nodup_cons.mp distinct
    refine ⟨distinct, ?_⟩
    intro ev' member
    have different : ev'.dataFd ≠ ev.dataFd := by
      intro same
      apply fresh
      rw [← same]
      exact List.mem_map_of_mem member
    have before := waiters ev' (List.mem_cons_of_mem ev member)
    rw [queueing.spells.first_eq] at before
    rw [queueing'.spells.first_eq]
    cases changed with
    | keeps _ _ out => exact absurd pc (out ev events)
    | appends call fd granted appends =>
      obtain ⟨_, _, _, _, _, user, _⟩ := appends
      cases pc.symm.trans user
    | removes ev₀ rest p behind pc₀ =>
      obtain ⟨rfl, rfl⟩ := List.cons.inj (Pc.handle.inj (pc.symm.trans pc₀))
      rwa [Function.update_of_ne different]
    | clears head releases => cases pc.symm.trans releases.2.1
    | cuts head first rest after releases => cases pc.symm.trans releases.2.1

/-! ## Exits of tasks that were queued -/

/-- A task that has recorded a descriptor has been queued. -/
def WasQueued (s : State) : Prop :=
  ∀ p, s.live p = true → 0 < (s.tasks p).fdsIdx → s.links.prev p ≠ none

/-- The back link of a current task with records points to a head. -/
theorem Sole.queuedBack (sole : Sole owner queue s) (wasQueued : WasQueued s) (inv : Integrity s)
    (more : 0 < (s.tasks s.current).fdsIdx) :
    ∃ head, s.links.prev s.current = some (.first head) := by
  have queued := wasQueued s.current inv.seated.alive more
  cases prev : s.links.prev s.current with
  | none => exact absurd prev queued
  | some cell =>
    obtain ⟨head, rfl, _⟩ := sole.back s.current cell prev
    exact ⟨head, rfl⟩

/-- A step of a task whose calls succeed keeps the tasks with records among those that have been
queued. -/
theorem WasQueued.step (wasQueued : WasQueued s) (inv : Integrity s)
    (queueing : Queueing queue s) (sole : Sole owner queue s)
    (succeeds : CallsSucceed ⟨s, i, s'⟩) (changed : QueueStep queue s i s' queue')
    (taken : LibcoLite.step s i = .ok s') : WasQueued s' := by
  intro p alive more
  have before : s.live p = true ∧ s.links.prev p ≠ none ∨
      p = s.current ∧ i.descriptor ≠ none := by
    rcases step_recorded inv taken alive more with ⟨live, earlier, _⟩ | ⟨own, new⟩
    · exact .inl ⟨live, wasQueued p live (by omega)⟩
    · exact .inr ⟨own, fun none => by simp [none] at new⟩
  cases changed with
  | keeps last fields out called =>
    have silent : i.descriptor = none := by
      apply Classical.byContradiction
      intro passes
      exact succeeds (.inl passes) (called passes)
    obtain ⟨live, queued⟩ := before.resolve_right fun own => own.2 silent
    cases step_links inv taken with
    | keeps same => rwa [same]
    | zeroes cid pc live' same =>
      rw [same]
      show Function.update s.links.prev s.fresh none p ≠ none
      rwa [Function.update_of_ne (inv.notFresh live)]
    | appends call fd granted => cases silent
    | removes ev rest q pc => exact absurd pc (out ev rest)
    | releases releases live' removed =>
      -- the removed task keeps its own back link, as every task does
      obtain ⟨head, prev⟩ := sole.queuedBack wasQueued inv releases.2.2
      rw [Links.remove_last inv.seated.alive (sole.next s.current) prev] at removed
      rwa [← Except.ok.inj removed]
  | appends call fd granted appends blocked free ends last zeroed next prev =>
    rw [prev]
    split
    · rw [ends]
      simp
    · rename_i away
      exact (before.resolve_right fun own => away own.1).2
  | removes ev rest q behind pc shape last next prev =>
    obtain rfl := sole.alone queueing shape
    rw [prev p List.not_mem_nil]
    refine (before.resolve_right fun own => own.2 rfl).2
  | clears head releases next prev links =>
    rw [links]
    exact (before.resolve_right fun own => own.2 rfl).2
  | cuts head first rest after releases next => cases (sole.next s.current).symm.trans next

/-! ## Joins of occupied slots -/

/-- The slots of the calls of `co_join` in progress are occupied. -/
def JoinsOccupied (s : State) : Prop :=
  ∀ joiner cid, (s.pc joiner).joining = some cid → s.task cid ≠ none

/-- A step keeps the joined slots occupied, when the history watches their tasks. -/
theorem JoinsOccupied.step (joins : JoinsOccupied s) (inv : Integrity s)
    (watched : Watched (⟨s, i, s'⟩ :: past) s')
    (occupied : ∀ cid, i = .join cid → s.task cid ≠ none)
    (taken : LibcoLite.step s i = .ok s') : JoinsOccupied s' := by
  intro joiner cid inside
  rcases step_joining inv taken inside with before | ⟨rfl, rfl, rfl⟩
  · rcases watched joiner cid inside with ⟨p, slot, _⟩ | ⟨free, own, pc⟩
    · rw [slot]
      simp
    -- the call that has cleared the slot is over
    cases step_table inv taken with
    | fills _ id _ bound vacant lowest table =>
      rw [table] at free ⊢
      by_cases here : cid = id
      · rw [here, Function.update_self]
        simp
      · rw [Function.update_of_ne here]
        exact joins joiner cid before
    | clears cid' q there slot exited table count live fresh control =>
      have other : ∀ rounds, (.run : Input) ≠ .pick rounds := by simp
      rw [(step_cases taken).2.current other] at own
      rw [own, control, Function.update_self] at pc
      cases pc
    | keeps table =>
      rw [table]
      exact joins joiner cid before
  · exact occupied cid rfl

/-- In a run of a careful program that joins each coroutine once, the joined slots are
occupied. -/
theorem joins_of_run (run : ThreadRun self clock past s)
    (careful : Along (Careful owner looper) past) (once : past.Pairwise JoinedApart) :
    JoinsOccupied s := by
  induction run with
  | start =>
    intro _ _ inside
    cases inside
  | move before taken ih =>
    obtain ⟨last, rest⟩ := along_cons.mp careful
    have earlier := (List.pairwise_cons.mp once).2
    have watched := watched_of_run (.move before taken) once
    exact (ih rest earlier).step (integrity_of_run before) watched last.joins taken

/-! ## Careful runs -/

/-- What holds in every state a careful program reaches. -/
structure Guarded (owner : Nat → TaskPtr) (looper : TaskPtr) (queue : Nat → List TaskPtr)
    (s : State) : Prop where
  /-- The task table is in order. -/
  inv : Integrity s
  /-- Exited tasks stay exited. -/
  ended : Ended s
  /-- The links spell out the queues. -/
  queueing : Queueing queue s
  /-- Descriptors have single owners. -/
  sole : Sole owner queue s
  /-- Waiting tasks are queued or ready. -/
  served : Served looper queue s
  /-- Tasks that are passed wait on all they have registered. -/
  waiting : Waiting s
  /-- Events to be handled have waiters. -/
  expected : Expected s
  /-- Tasks with records were queued. -/
  wasQueued : WasQueued s

namespace Guarded

/-- The start of a thread is guarded. -/
theorem init (self : EnvPtr) (clock : Nat → Nat) :
    Guarded owner looper (fun _ => []) (State.init self clock) where
  inv := .init self clock
  ended := .init self clock
  queueing := .init self clock
  sole := .init self clock
  served := .init self clock
  waiting p alive _ k small := by
    by_cases root : p = initTask
    · subst root
      exact absurd small (Nat.not_lt_zero k)
    · simp [State.init, Function.update_of_ne root] at alive
  expected _ there := by cases there
  wasQueued p alive more := by
    by_cases root : p = initTask
    · subst root
      exact absurd more (Nat.not_lt_zero 0)
    · simp [State.init, Function.update_of_ne root] at alive

/-- Every careful step of a run keeps the state guarded. -/
theorem step (guarded : Guarded owner looper queue s) (run : ThreadRun self clock past s)
    (careful : Careful owner looper ⟨s, i, s'⟩) (taken : LibcoLite.step s i = .ok s') :
    ∃ queue', Guarded owner looper queue' s' := by
  obtain ⟨inv, ended, queueing, sole, served, waiting, expected, wasQueued⟩ := guarded
  have orderly := sole.orderly inv queueing careful.owned
  obtain ⟨queue', changed, queueing'⟩ := queueing.step inv orderly taken
  refine ⟨queue', inv.step taken, ended_step inv queueing ended taken, queueing',
    sole.step inv ended queueing careful.owned taken changed, ?_,
    waiting.step inv sole careful taken, ?_,
    wasQueued.step inv queueing sole careful.succeeds changed taken⟩
  · rcases i.switches with ⟨rounds, rfl⟩ | other
    · cases changed with
      | keeps => exact served.switch queueing inv taken
    · exact served.advance queueing sole inv taken other careful.loops careful.delivered changed
  · exact expected.step waiting (held_of_run run) served queueing queueing' inv
      (suspended_of_run run) (named_of_run run) changed taken

end Guarded

/-- Every state a careful program reaches is guarded. -/
theorem guarded_of_run (run : ThreadRun self clock past s)
    (careful : Along (Careful owner looper) past) : ∃ queue, Guarded owner looper queue s := by
  refine run.history_invariant _ (fun _ s => ∃ queue, Guarded owner looper queue s)
    ⟨_, Guarded.init self clock⟩ ?_ careful
  rintro past s i s' before ⟨queue, guarded⟩ careful taken
  exact guarded.step before careful taken

/-! ## Where a step can stop -/

/-- Where a step stops: in a function of the library, or for a reason outside of it. -/
inductive StopCases (s : State) : Input → Stop → Prop where
  /-- The current task is freed. -/
  | freed (i : Input) : s.live s.current = false → StopCases s i (.fault .freed)
  /-- A blocking call stops. -/
  | calls (call : Call) (fd : Nat) (granted : Bool) (stop : Stop) : s.pc s.current = .user →
      coCall call fd granted s = .error stop → StopCases s (.io call fd granted) stop
  /-- A test of `co_join` stops. -/
  | joins (cid : Nat) (stop : Stop) : s.pc s.current = .join cid →
      coJoin cid s = .error stop → StopCases s .run stop
  /-- The handling of an event stops. -/
  | handles (ev : EpollEvent) (rest : List EpollEvent) (stop : Stop) :
      s.pc s.current = .handle (ev :: rest) → handleEvent ev s = .error stop →
      StopCases s .run stop
  /-- A pass of the clean-up loop stops. -/
  | cleans (stop : Stop) : s.pc s.current = .cleanup → startCleanup s = .error stop →
      StopCases s .run stop
  /-- A call of `schedule` stops. -/
  | switches (behind : Pc) (rounds : Nat) (stop : Stop) : s.pc s.current = .schedule behind →
      schedule rounds (s.goto behind) = .error stop → StopCases s (.pick rounds) stop
  /-- The initial task returns. -/
  | returned : s.pc s.current = .user → s.current = initTask → StopCases s .ret .exited
  /-- `epoll_wait` fails. -/
  | unpolled : s.pc s.current = .epollWait → StopCases s (.ready none) .exited
  /-- A task is switched to behind the end of `start`. -/
  | revived : s.pc s.current = .finished → StopCases s .run .exited
  /-- The input does not fit. -/
  | disabled (i : Input) : StopCases s i .disabled

/-- A step that stops does so in one of these places. -/
theorem step_stops {stop : Stop} (stopped : step s i = .error stop) : StopCases s i stop := by
  by_cases alive : s.live s.current = true
  · unfold step at stopped
    simp only [alive, ↓reduceIte] at stopped
    split at stopped
    case h_4 call fd granted pc => exact .calls call fd granted stop pc stopped
    case h_7 pc =>
      split at stopped
      · rename_i initial
        cases stopped
        exact .returned pc initial
      · cases stopped
    case h_8 cid pc =>
      cases joined : coJoin cid s with
      | ok result =>
        simp [joined, bind, Except.bind] at stopped
        split at stopped <;> contradiction
      | error reason =>
        obtain rfl : reason = stop := by simpa [joined, bind, Except.bind] using stopped
        exact .joins cid reason pc joined
    case h_11 pc =>
      cases stopped
      exact .unpolled pc
    case h_12 reports pc =>
      split at stopped
      · cases stopped
        exact .disabled _
      · cases stopped
      · cases stopped
    case h_14 ev rest pc =>
      cases handled : handleEvent ev s with
      | ok result => simp [handled, bind, Except.bind] at stopped
      | error reason =>
        obtain rfl : reason = stop := by simpa [handled, bind, Except.bind] using stopped
        exact .handles ev rest reason pc handled
    case h_15 pc =>
      cases cleaned : startCleanup s with
      | ok result =>
        simp [cleaned, bind, Except.bind] at stopped
        split at stopped <;> contradiction
      | error reason =>
        obtain rfl : reason = stop := by simpa [cleaned, bind, Except.bind] using stopped
        exact .cleans reason pc cleaned
    case h_16 pc =>
      cases stopped
      exact .revived pc
    case h_17 behind rounds pc => exact .switches behind rounds stop pc stopped
    case h_18 =>
      cases stopped
      exact .disabled _
    all_goals cases stopped
  · simp only [step, alive, Bool.false_eq_true, ↓reduceIte] at stopped
    cases stopped
    exact .freed i (Bool.eq_false_iff.mpr alive)

/-- The errors behind which a thread has not touched what is not its own. -/
def Stop.Harmless : Stop → Prop
  | .exited => True
  | .spinning => True
  | .disabled => True
  | _ => False

/-- The scheduler can only spin. -/
theorem schedule_spins (inv : Integrity s) {rounds : Nat} {stop : Stop}
    (stopped : schedule rounds s = .error stop) : stop = .spinning := by
  cases found : pick rounds s with
  | error reason =>
    obtain rfl := pick_error inv.tableLive inv.seated found
    exact (by simpa [schedule, found, bind, Except.bind] using stopped : Stop.spinning = stop).symm
  | ok result => cases (inv.schedule_of_pick found).symm.trans stopped

/-- A test of `co_join` can only stop for an empty slot. -/
theorem coJoin_stops (inv : Integrity s) {cid : Nat} {stop : Stop}
    (stopped : coJoin cid s = .error stop) : s.task cid = none := by
  cases slot : s.task cid with
  | none => rfl
  | some p =>
    obtain ⟨bound, alive, _⟩ := inv.slots cid p slot
    simp only [coJoin, taskAt, bound, slot, State.deref, alive, bind, Except.bind, ↓reduceIte]
      at stopped
    split at stopped
    · contradiction
    · contradiction

namespace Guarded

variable {stop : Stop}

/-- An event that is handled finds its waiter. -/
theorem waiter (guarded : Guarded owner looper queue s) {events : List EpollEvent}
    (there : s.pc s.current = .handle events) {ev : EpollEvent} (member : ev ∈ events) :
    ∃ p call, s.links.first ev.dataFd = some p ∧ owner ev.dataFd = p ∧
      Blocked s p call ev.dataFd := by
  have waits := (guarded.expected events there).2 ev member
  cases first : s.links.first ev.dataFd with
  | none => exact absurd first waits
  | some p =>
    rw [guarded.queueing.spells.first_eq] at first
    have queued := List.mem_of_head? first
    obtain ⟨_, call, blocked⟩ := guarded.queueing.members _ p queued
    exact ⟨p, call, rfl, guarded.sole.owned _ p queued, blocked⟩

/-- The handling of an event does not stop. -/
theorem handles (guarded : Guarded owner looper queue s) {ev : EpollEvent}
    {rest : List EpollEvent} (there : s.pc s.current = .handle (ev :: rest)) :
    handleEvent ev s ≠ .error stop := by
  obtain ⟨p, _, first, _⟩ := guarded.waiter there List.mem_cons_self
  have members (q : TaskPtr) (member : q ∈ queue ev.dataFd) : s.live q = true :=
    (guarded.queueing.members _ q member).1
  have lead := first
  rw [guarded.queueing.spells.first_eq] at lead
  obtain ⟨behind, shape⟩ := List.head?_eq_some_iff.mp lead
  obtain ⟨links, removed, _⟩ := guarded.queueing.spells.removeHead shape members
  rw [handleEvent_ok first (members p (shape ▸ List.mem_cons_self)) removed]
  simp

/-- A pass of the clean-up loop does not stop. -/
theorem cleans (guarded : Guarded owner looper queue s) : startCleanup s ≠ .error stop := by
  unfold startCleanup
  dsimp only
  split
  · rename_i more
    obtain ⟨head, prev⟩ := guarded.sole.queuedBack guarded.wasQueued guarded.inv more
    have removed (fd : Nat) : s.links.remove s.live fd s.current = .ok _ :=
      Links.remove_last guarded.inv.seated.alive (guarded.sole.next s.current) prev
    simp [State.modify, removed, State.relink, bind, Except.bind]
  · simp

/-- A test of `co_join` does not stop. -/
theorem joins (guarded : Guarded owner looper queue s) (joins : JoinsOccupied s) {cid : Nat}
    (there : s.pc s.current = .join cid) : coJoin cid s ≠ .error stop := by
  intro failed
  exact joins s.current cid (by rw [there]; rfl) (coJoin_stops guarded.inv failed)

/-- A blocking call on an own descriptor does not stop. -/
theorem calls (guarded : Guarded owner looper queue s) (run : ThreadRun self clock past s)
    (once : Transition.Throughout StdinOnce past) {call : Call} {fd : Nat} {granted : Bool}
    (user : s.pc s.current = .user) (positive : 0 < fd) (bound : fd < maxFd)
    (own : owner fd = s.current) : coCall call fd granted s ≠ .error stop := by
  obtain ⟨inv, _, queueing, sole, _⟩ := guarded
  have fits : coCall call fd granted s ≠ .error .bounds := by
    refine ((listed_of_run run).fits inv (distinct_of_run run once) bound ?_).1
    rintro ⟨rfl, _⟩
    exact lt_irrefl _ positive
  intro stopped
  simp only [coCall, bound, ↓reduceIte] at stopped fits
  cases added : addQueue fd call.event granted s with
  | ok result =>
    simp only [added, bind, Except.bind] at stopped
    split at stopped
    · cases stopped
    · cases stopped
  | error reason =>
    rcases addQueue_error added with rfl | ⟨tsk, ctl, fault, registers, succeeded, inserted⟩
    · exact fits (by simp [added, bind, Except.bind])
    · have appends : Appends s (.io call fd granted) fd :=
        ⟨call, granted, tsk, ctl, rfl, user, bound, registers, succeeded⟩
      have owned : Owned owner ⟨s, .io call fd granted, s⟩ := by
        rintro fd' ⟨⟩
        exact ⟨positive, bound, own⟩
      obtain ⟨elements, chain, ends⟩ := (sole.orderly inv queueing owned).appends fd appends
      obtain rfl := chain.unique (queueing.spells.chain fd)
      have free := queueing.outside (p := s.current) (by rw [user]; rfl)
      have members (p : TaskPtr) (member : p ∈ queue fd) : s.live p = true :=
        (queueing.members fd p member).1
      obtain ⟨links, ok, _⟩ := queueing.spells.insertTail free inv.seated.alive members ends
      cases ok.symm.trans inserted

end Guarded

/-- A run of a careful program makes no second call on descriptor 0. -/
theorem stdinOnce_of_owned (owned : Along (Owned owner) past) :
    Transition.Throughout StdinOnce past := by
  induction past with
  | nil => trivial
  | cons move past ih =>
    obtain ⟨last, rest⟩ := along_cons.mp owned
    refine ⟨?_, ih rest⟩
    rintro fd passed ⟨rfl, _⟩
    exact absurd (last 0 passed).1 (lt_irrefl 0)

/-- The process ends because the initial task returns or `epoll_wait` fails. -/
def Exits (s : State) (i : Input) : Prop :=
  i = .ret ∧ s.pc s.current = .user ∧ s.current = initTask ∨
    i = .ready none ∧ s.pc s.current = .epollWait

/-- In a run of a careful program that joins each coroutine once, a step that passes on an own
descriptor stops where the process ends, the input does not fit or the scheduler spins. -/
theorem stop_of_run (run : ThreadRun self clock past s)
    (careful : Along (Careful owner looper) past) (once : past.Pairwise JoinedApart) {stop : Stop}
    (owned : s.pc s.current = .user →
      ∀ fd ∈ i.descriptor, 0 < fd ∧ fd < maxFd ∧ owner fd = s.current)
    (stopped : step s i = .error stop) :
    stop = .exited ∧ Exits s i ∨ stop = .disabled ∨
      stop = .spinning ∧ ∃ rounds, i = .pick rounds := by
  obtain ⟨queue, guarded⟩ := guarded_of_run run careful
  cases step_stops stopped with
  | freed _ dead => cases dead.symm.trans guarded.inv.seated.alive
  | calls call fd granted _ user failed =>
    obtain ⟨positive, bound, own⟩ := owned user fd rfl
    have stdin := stdinOnce_of_owned (careful.mono fun _ each => each.owned)
    exact absurd failed (guarded.calls run stdin user positive bound own)
  | joins cid _ there failed =>
    exact absurd failed (guarded.joins (joins_of_run run careful once) there)
  | handles ev rest _ there failed => exact absurd failed (guarded.handles there)
  | cleans _ there failed => exact absurd failed guarded.cleans
  | switches behind rounds _ there failed =>
    exact .inr (.inr ⟨schedule_spins (guarded.inv.behind there) failed, rounds, rfl⟩)
  | returned user initial => exact .inl ⟨rfl, .inl ⟨rfl, user, initial⟩⟩
  | unpolled there => exact .inl ⟨rfl, .inr ⟨rfl, there⟩⟩
  | revived there => exact absurd there guarded.ended.notFinished
  | disabled => exact .inr (.inl rfl)

/-- In every run of a careful program that joins each coroutine once, every event that is
handled finds the owner of its descriptor waiting on it, and a step on an own descriptor can
only stop where the process ends, the scheduler spins or the input does not fit: it never
accesses a null or freed task, leaves an array, or switches to a foreign task. -/
theorem careful_programs_stay_in_memory (run : ThreadRun self clock past s)
    (careful : Along (Careful owner looper) past) (once : past.Pairwise JoinedApart) :
    (∀ events, s.pc s.current = .handle events → ∀ ev ∈ events, ∃ p call,
      s.links.first ev.dataFd = some p ∧ owner ev.dataFd = p ∧ Blocked s p call ev.dataFd) ∧
    ∀ i stop, (∀ fd ∈ i.descriptor, 0 < fd ∧ fd < maxFd ∧ owner fd = s.current) →
      step s i = .error stop → stop.Harmless := by
  obtain ⟨queue, guarded⟩ := guarded_of_run run careful
  refine ⟨fun events there ev member => guarded.waiter there member, ?_⟩
  intro i stop owned stopped
  rcases stop_of_run run careful once (fun _ => owned) stopped with ⟨rfl, _⟩ | rfl | ⟨rfl, _⟩
  · trivial
  · trivial
  · trivial

/-- A coroutine reads from a descriptor while another one joins it, and the read is about to
end. -/
def joinedReader : List Input :=
  [.create none, .create none, .eventloop, .ready (some []), .pick 1,
    .io .read 3 true, .ctl true, .pick 1, .join 1, .run, .pick 1,
    .ready (some [(3, epollIn)])]

/-- The event finds the reader, and handling it leads on. -/
theorem careful_programs_stay_in_memory_joinedReader :
    (replay 3 joinedReader).links.first 3 = some 1 ∧
      step (replay 3 joinedReader) .run ≠ .error (.fault .null) := by
  have run := run_of_replay 3 joinedReader (by decide) (by decide)
    (by decide +kernel)
  have targets : (replayMoves 3 joinedReader).Pairwise fun move other =>
      joinTarget move = none ∨ joinTarget other = none := by decide +kernel
  have once : (replayMoves 3 joinedReader).Pairwise JoinedApart := by
    refine targets.imp ?_
    intro move other one p _ first second
    rcases one with none | none
    · cases none.symm.trans first
    · cases none.symm.trans second
  have safe := @careful_programs_stay_in_memory (fun _ => 1) 0 _ _ _ _ run
    (by unfold Along; decide +kernel) once
  constructor
  · obtain ⟨p, _, first, rfl, _⟩ := safe.1 [⟨epollIn, 3⟩] (by decide +kernel) ⟨epollIn, 3⟩
      List.mem_cons_self
    exact first
  · intro stopped
    exact safe.2 .run _ (by rintro _ ⟨⟩) stopped

end LibcoLite
