import LibcoLite.BlockQueue
import LibcoLite.Replay

/-!
# Whom an event wakes

Tasks that wait for different bits of a descriptor share its queue. The event loop dequeues
the first one, whatever it waits for, and compares the reported bits with the mask this task
has recorded, not with the bit it awaits. So an event wakes the longest-queued task that
awaits one of its bits exactly when this is the first task and its record meets the event.
-/

namespace LibcoLite

open TailQueue
open Transition (Along)

/-- The tasks queued on a descriptor, in order: the links spell them out, and each is blocked in
a call on the descriptor. -/
structure QueuedOn (s : State) (fd : Nat) (queued : List TaskPtr) : Prop where
  /-- They are the chain of the descriptor. -/
  spells : Chain s.links (.first fd) queued
  /-- They are live and blocked. -/
  members : ∀ p ∈ queued, s.live p = true ∧ ∃ call, Blocked s p call fd

/-- A task waits for a bit of the event. -/
def Wants (ev : EpollEvent) (s : State) (p : TaskPtr) : Prop :=
  ∃ call, (s.pc p).waiting = some (call, ev.dataFd) ∧ ev.events &&& call.event ≠ 0

instance (ev : EpollEvent) (s : State) (p : TaskPtr) : Decidable (Wants ev s p) :=
  inferInstanceAs (Decidable (∃ call, (s.pc p).waiting = some (call, ev.dataFd) ∧
    ev.events &&& call.event ≠ 0))

/-- The event has made a task running with the bit it awaits and has removed it from between the
others, which are unchanged. -/
structure Wakes (ev : EpollEvent) (s s' : State) (before : List TaskPtr) (p : TaskPtr)
    (after : List TaskPtr) : Prop where
  /-- The task is running. -/
  running : (s'.tasks p).status = .running
  /-- It has received the awaited bit. -/
  received : ∀ call, (s.pc p).waiting = some (call, ev.dataFd) →
    (s'.tasks p).revents ev.dataFd &&& call.event = call.event
  /-- The others are queued in the same order. -/
  remains : QueuedOn s' ev.dataFd (before ++ after)
  /-- Their blocks and control points are unchanged. -/
  unchanged : ∀ q ∈ before ++ after, s'.tasks q = s.tasks q ∧ s'.pc q = s.pc q

/-- Handling the event wakes the longest-queued task that waits for one of its bits. -/
def WakesWaiter (ev : EpollEvent) (s : State) (queued : List TaskPtr) : Prop :=
  ∀ before p after, queued = before ++ p :: after → Wants ev s p →
    (∀ q ∈ before, ¬Wants ev s q) →
    ∃ s', handleEvent ev s = .ok s' ∧ Wakes ev s s' before p after

/-- No queued task waits for a bit of the event, or the first one does and has recorded a mask
that meets it. -/
def FitsFirst (ev : EpollEvent) (s : State) (queued : List TaskPtr) : Prop :=
  (∀ p ∈ queued, ¬Wants ev s p) ∨ ∃ p after, queued = p :: after ∧ Wants ev s p ∧
    ((s.tasks p).events ev.dataFd).events &&& ev.events ≠ 0

variable {s : State} {ev : EpollEvent} {queued : List TaskPtr}

/-- In every run of orderly steps each descriptor has its list of tasks queued on it. -/
theorem queued_of_run {self : EnvPtr} {clock : Nat → Nat} {past : History}
    (run : ThreadRun self clock past s)
    (orderly : Along (fun move => Orderly move.before move.input) past) :
    ∃ queue : Nat → List TaskPtr, ∀ fd, QueuedOn s fd (queue fd) := by
  have lists : Integrity s ∧ ∃ queue, Queueing queue s := by
    refine run.invariant _ (fun s => Integrity s ∧ ∃ queue, Queueing queue s)
      ⟨Integrity.init self clock, _, Queueing.init self clock⟩ ?_ orderly
    rintro s i s' ⟨inv, queue, queueing⟩ orderly taken
    obtain ⟨queue', _, kept⟩ := queueing.step inv orderly taken
    exact ⟨inv.step taken, queue', kept⟩
  obtain ⟨_, queue, queueing⟩ := lists
  exact ⟨queue, fun fd => ⟨queueing.spells.chain fd, queueing.members fd⟩⟩

/-- No task is queued twice. -/
theorem QueuedOn.nodup {fd : Nat} (on : QueuedOn s fd queued) : queued.Nodup :=
  on.spells.nodup (by simp)

/-- Handling an event takes the first task off the queue and dispatches it. -/
theorem QueuedOn.handles {p : TaskPtr} {rest : List TaskPtr}
    (on : QueuedOn s ev.dataFd (p :: rest)) :
    ∃ links, handleEvent ev s = .ok { s with
        links
        tasks := Function.update s.tasks p ((s.tasks p).dispatch ev) } ∧
      Chain links (.first ev.dataFd) rest := by
  have first : s.links.first ev.dataFd = some p := on.spells.1
  have alive := (on.members p List.mem_cons_self).1
  obtain ⟨links, removed, chain⟩ :=
    on.spells.removeHead fun member inside => (on.members member inside).1
  exact ⟨links, handleEvent_ok first alive removed, chain⟩

/-- The tasks that are queued contain a first one that waits for a bit of the event, or none. -/
theorem first_wanting (ev : EpollEvent) (s : State) (queued : List TaskPtr) :
    (∀ p ∈ queued, ¬Wants ev s p) ∨ ∃ before p after, queued = before ++ p :: after ∧
      Wants ev s p ∧ ∀ q ∈ before, ¬Wants ev s q := by
  induction queued with
  | nil => simp
  | cons p rest ih =>
    by_cases wants : Wants ev s p
    · exact .inr ⟨[], p, rest, rfl, wants, by simp⟩
    · rcases ih with none | ⟨before, q, after, rfl, found, others⟩
      · left
        simpa [wants] using none
      · right
        refine ⟨p :: before, q, after, rfl, found, ?_⟩
        simpa [wants] using others

/-- An event that fits the first task wakes it. -/
theorem wakes_first {p : TaskPtr} {after : List TaskPtr}
    (on : QueuedOn s ev.dataFd (p :: after)) (wants : Wants ev s p)
    (meets : ((s.tasks p).events ev.dataFd).events &&& ev.events ≠ 0) :
    ∃ s', handleEvent ev s = .ok s' ∧ Wakes ev s s' [] p after := by
  obtain ⟨links, handled, chain⟩ := on.handles
  have absent : p ∉ after := (List.nodup_cons.mp on.nodup).1
  have others : ∀ q ∈ after, q ≠ p := by
    rintro q inside rfl
    exact absent inside
  refine ⟨_, handled, ?_⟩
  constructor
  · simp [TaskStruct.dispatch_meets meets]
  · intro call inside
    obtain ⟨call', inside', bit⟩ := wants
    obtain ⟨rfl, _⟩ := Prod.mk.inj (Option.some.inj (inside.symm.trans inside'))
    simp only [Function.update_self, TaskStruct.dispatch_meets meets]
    exact call.event_of_meets bit
  · refine ⟨chain, ?_⟩
    intro q inside
    obtain ⟨alive, call, blocked⟩ := on.members q (List.mem_cons_of_mem _ inside)
    exact ⟨alive, call, blocked.congr rfl (Function.update_of_ne (others q inside) _ _)⟩
  · intro q inside
    exact ⟨Function.update_of_ne (others q inside) _ _, rfl⟩

/-- A coroutine reads from descriptor 3, and another one comes to write to it at its second
attempt. It can. -/
def readerAndWriter : List Input :=
  [.create none, .create none, .eventloop, .ready (some []), .pick 1,
    .io .read 3 true, .ctl true, .pick 1,
    .io .write 3 true, .io .write 3 true, .ctl true, .pick 1, .ready (some [(3, epollOut)])]

/-- The reader and the writer are queued in this order. -/
theorem queued_readerAndWriter : QueuedOn (replay 3 readerAndWriter) 3 [1, 2] := by
  constructor
  · decide +kernel
  · intro p member
    simp only [List.mem_cons, List.not_mem_nil, or_false] at member
    rcases member with rfl | rfl
    · exact ⟨by decide +kernel, .read, by decide +kernel, by decide +kernel, by decide +kernel⟩
    · exact ⟨by decide +kernel, .write, by decide +kernel, by decide +kernel, by decide +kernel⟩

end LibcoLite
