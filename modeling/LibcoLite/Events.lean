import LibcoLite.Owner

/-!
# Reported events

`co_eventloop` dequeues the first task of a descriptor for every event without asking
whether there is one. The kernel keeps reporting a descriptor after its wait has ended, and
a task is queued during a blocking call only. So an event finds a task exactly when one has
been queued since the last event for the descriptor.
-/

namespace LibcoLite

open TailQueue
open Transition (Along Move Run)

/-- The descriptor on whose queue a move puts the current task. -/
def queuedFd (move : Move State Input) : Option Nat :=
  if move.after.pc move.before.current = .user then none else move.input.descriptor

/-- The descriptor a move handles an event for. -/
def handledFd (move : Move State Input) : Option Nat :=
  match move.before.pc move.before.current, move.input with
  | .handle (ev :: _), .run => some ev.dataFd
  | _, _ => none

/-- A task has been queued on a descriptor since the last event handled for it. -/
def armed (fd : Nat) : History → Bool
  | [] => false
  | move :: past =>
    if queuedFd move = some fd then true
    else if handledFd move = some fd then false
    else armed fd past

/-- Moves that neither queue a task nor handle an event leave every descriptor as it is. -/
theorem armed_idle {move : Move State Input} {past : History} {fd : Nat}
    (queued : queuedFd move = none) (handled : handledFd move = none) :
    armed fd (move :: past) = armed fd past := by
  simp [armed, queued, handled]

/-- Only handling an event has a descriptor. -/
theorem handledFd_none {s s' : State} {i : Input}
    (out : ∀ ev rest, s.pc s.current ≠ .handle (ev :: rest)) : handledFd ⟨s, i, s'⟩ = none := by
  unfold handledFd
  split
  · rename_i ev rest handles _
    exact absurd handles (out ev rest)
  · rfl

/-- The queue of a descriptor is occupied exactly while the descriptor is armed. -/
theorem armed_step {owner : Nat → TaskPtr} {queue queue' : Nat → List TaskPtr}
    {past : History} {s s' : State} {i : Input} (queueing : Queueing queue s)
    (sole : Sole owner queue s) (occupied : ∀ fd, queue fd ≠ [] ↔ armed fd past = true)
    (changed : QueueStep queue s i s' queue') (fd : Nat) :
    queue' fd ≠ [] ↔ armed fd (⟨s, i, s'⟩ :: past) = true := by
  cases changed with
  | keeps last fields out called =>
    have queued : queuedFd ⟨s, i, s'⟩ = none := by
      by_cases call : i.descriptor = none
      · simp [queuedFd, call]
      · simp [queuedFd, called call]
    rw [armed_idle queued (handledFd_none out)]
    exact occupied fd
  | appends call fd' granted appends blocked =>
    have ⟨_, _, _, _, _, pc, _⟩ := appends
    have waits : s'.pc s.current ≠ .user := fun user => by
      have inside := blocked.inside
      rw [user] at inside
      cases inside
    have queued : queuedFd ⟨s, .io call fd' granted, s'⟩ = some fd' := by
      simp [queuedFd, waits, Input.descriptor]
    have handled : handledFd ⟨s, .io call fd' granted, s'⟩ = none :=
      handledFd_none (by simp [pc])
    by_cases here : fd = fd'
    · subst here; simp [armed, queued]
    · have other : ¬fd' = fd := fun same => here same.symm
      simpa [armed, queued, handled, other, Function.update_of_ne here] using occupied fd
  | removes ev rest p behind pc shape =>
    obtain rfl := sole.alone queueing shape
    have queued : queuedFd ⟨s, .run, s'⟩ = none := by simp [queuedFd, Input.descriptor]
    have handled : handledFd ⟨s, .run, s'⟩ = some ev.dataFd := by simp [handledFd, pc]
    by_cases here : fd = ev.dataFd
    · subst here; simp [armed, queued, handled]
    · have other : ¬ev.dataFd = fd := fun same => here same.symm
      simpa [armed, queued, handled, other, Function.update_of_ne here] using occupied fd
  | clears head releases next prev links =>
    rw [sole.clears queueing releases prev, armed_idle (by simp [queuedFd, Input.descriptor])
      (handledFd_none (by simp [releases.2.1]))]
    exact occupied fd
  | cuts head first rest after releases next => cases (sole.next s.current).symm.trans next

/-- In a thread whose descriptors have single owners, a descriptor's queue is occupied exactly
while the descriptor is armed. -/
theorem armed_of_run {owner : Nat → TaskPtr} {self : EnvPtr} {clock : Nat → Nat}
    {past : History} {s : State} (run : ThreadRun self clock past s)
    (owned : Along (Owned owner) past) :
    Integrity s ∧ Ended s ∧ ∃ queue, Queueing queue s ∧ Sole owner queue s ∧
      ∀ fd, queue fd ≠ [] ↔ armed fd past = true := by
  refine run.history_invariant _ (fun past s => Integrity s ∧ Ended s ∧
      ∃ queue, Queueing queue s ∧ Sole owner queue s ∧
        ∀ fd, queue fd ≠ [] ↔ armed fd past = true)
    ⟨Integrity.init self clock, Ended.init self clock, _, Queueing.init self clock,
      Sole.init self clock, fun fd => by simp [armed]⟩ ?_ owned
  rintro past s i s' _ ⟨inv, ended, queue, queueing, sole, occupied⟩ owned taken
  obtain ⟨queue', changed, queueing'⟩ :=
    queueing.step inv (sole.orderly inv queueing owned) taken
  exact ⟨inv.step taken, ended_step inv queueing ended taken, queue', queueing',
    sole.step inv ended queueing owned taken changed, armed_step queueing sole occupied changed⟩

/-- Handling an event dereferences null exactly when the queue of its descriptor is empty. -/
theorem step_null {queue : Nat → List TaskPtr} {s : State} (inv : Integrity s)
    (queueing : Queueing queue s) {ev : EpollEvent} {rest : List EpollEvent}
    (handles : s.pc s.current = .handle (ev :: rest)) :
    step s .run = .error (.fault .null) ↔ s.links.first ev.dataFd = none := by
  simp only [step, inv.seated.alive, ↓reduceIte, handles]
  cases first : s.links.first ev.dataFd with
  | none => simp [handleEvent, first, bind, Except.bind]
  | some p =>
    have lead := queueing.spells.first_eq ev.dataFd
    rw [first] at lead
    obtain ⟨behind, shape⟩ := List.head?_eq_some_iff.mp lead.symm
    have members (q : TaskPtr) (member : q ∈ queue ev.dataFd) : s.live q = true :=
      (queueing.members ev.dataFd q member).1
    obtain ⟨links, removed, _⟩ := queueing.spells.removeHead shape members
    have alive := members p (shape ▸ List.mem_cons_self)
    simp [handleEvent_ok first alive removed, bind, Except.bind]

/-- When `co_eventloop` is about to handle an event in a thread whose descriptors have single
owners, a task is queued on the descriptor if and only if one was queued since the last event
handled for the descriptor; otherwise null is dereferenced. -/
theorem event_has_waiter {owner : Nat → TaskPtr} {self : EnvPtr} {clock : Nat → Nat}
    {past : History} {s : State} (run : ThreadRun self clock past s)
    (owned : Along (Owned owner) past) (ev : EpollEvent) (rest : List EpollEvent)
    (handles : s.pc s.current = .handle (ev :: rest)) :
    (s.links.first ev.dataFd ≠ none ↔ armed ev.dataFd past = true) ∧
    (step s .run ≠ .error (.fault .null) ↔ armed ev.dataFd past = true) := by
  obtain ⟨inv, _, queue, queueing, _, occupied⟩ := armed_of_run run owned
  have waits : s.links.first ev.dataFd ≠ none ↔ armed ev.dataFd past = true := by
    rw [queueing.spells.first_eq, ← occupied]
    simp
  exact ⟨waits, (not_congr (step_null inv queueing handles)).trans waits⟩

/-- A coroutine reads from a descriptor and waits for its data. -/
def oneRead : List Input :=
  [.create none, .eventloop, .ready (some []), .pick 1, .io .read 3 true, .ctl true, .pick 1,
    .ready (some [(3, epollIn)])]

/-- The event finds the waiting coroutine. -/
theorem event_has_waiter_oneRead : (replay 2 oneRead).links.first 3 ≠ none := by
  have run := run_of_replay 2 oneRead (by decide) (by decide)
    (by decide +kernel)
  exact (@event_has_waiter (fun _ => 1) _ _ _ _ run (by unfold Along; decide +kernel)
    ⟨epollIn, 3⟩ [] (by decide +kernel)).1.mpr (by decide +kernel)

/-- A coroutine that has read part of the pending data sleeps, and the kernel reports the
descriptor again. -/
def readThenSleep : List Input :=
  oneRead ++ [.run, .run, .pick 1, .ctl true, .run, .sleep 0, .pick 1,
    .ready (some [(3, epollIn)])]

/-- Not every event finds a waiting task. -/
theorem event_has_waiter_fails : ¬∀ (owner : Nat → TaskPtr) (past : History) (s : State),
    ThreadRun 0 ticking past s → Along (Owned owner) past →
    ∀ ev rest, s.pc s.current = .handle (ev :: rest) → s.links.first ev.dataFd ≠ none := by
  intro hasWaiter
  have run := run_of_replay 2 readThenSleep (by decide) (by decide)
    (by decide +kernel)
  exact hasWaiter (fun _ => 1) _ _ run (by unfold Along; decide +kernel) ⟨epollIn, 3⟩ []
    (by decide +kernel) (by decide +kernel)

end LibcoLite
