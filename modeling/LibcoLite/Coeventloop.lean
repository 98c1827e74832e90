import LibcoLite.Lib.Run
import LibcoLite.Epoll

/-!
# The event loop

The body of the loop over events in `coeventloop.c`: the first task queued on the
descriptor is dequeued, then made running if its own record of the descriptor meets the
reported bits.
-/

namespace LibcoLite

/-- Handle one reported event. -/
def handleEvent (ev : EpollEvent) (s : State) : Except Stop State :=
  match s.links.first ev.dataFd with
  | none => .error (.fault .null)
  | some p => do
    let s ← s.relink (s.links.remove s.live ev.dataFd p)
    let tsk ← s.deref p
    if (tsk.events ev.dataFd).events &&& ev.events ≠ 0 then
      .ok (s.modify p fun tsk =>
        { tsk with
          status := .running
          revents := Function.update tsk.revents ev.dataFd ev.events })
    else .ok s

/-- The block of a dequeued task: running with the reported bits if its record of the
descriptor meets them, else unchanged. -/
def TaskStruct.dispatch (ev : EpollEvent) (tsk : TaskStruct) : TaskStruct :=
  if (tsk.events ev.dataFd).events &&& ev.events ≠ 0 then
    { tsk with
      status := .running
      revents := Function.update tsk.revents ev.dataFd ev.events }
  else tsk

/-- An event that meets the record makes the task running and hands it the bits. -/
theorem TaskStruct.dispatch_meets {ev : EpollEvent} {tsk : TaskStruct}
    (meets : (tsk.events ev.dataFd).events &&& ev.events ≠ 0) :
    tsk.dispatch ev = { tsk with
      status := .running
      revents := Function.update tsk.revents ev.dataFd ev.events } :=
  if_pos meets

open Transition (bind_eq_ok) in
/-- Handling an event dequeues the first task of its queue and dispatches it. -/
theorem handleEvent_cases {ev : EpollEvent} {s s' : State} (done : handleEvent ev s = .ok s') :
    ∃ p links, s.links.first ev.dataFd = some p ∧ s.live p = true ∧
      s.links.remove s.live ev.dataFd p = .ok links ∧
      s' = { s with
        links
        tasks := Function.update s.tasks p ((s.tasks p).dispatch ev) } := by
  unfold handleEvent at done
  cases queued : s.links.first ev.dataFd with
  | none => simp [queued] at done
  | some p =>
    simp only [queued] at done
    obtain ⟨after, linked, done⟩ := bind_eq_ok.mp done
    obtain ⟨tsk, found, done⟩ := bind_eq_ok.mp done
    cases removed : s.links.remove s.live ev.dataFd p with
    | error fault => simp [State.relink, removed] at linked
    | ok links =>
      simp only [State.relink, removed, Except.ok.injEq] at linked
      subst linked
      obtain ⟨alive, rfl⟩ := State.deref_ok.mp found
      refine ⟨p, links, rfl, alive, removed, ?_⟩
      unfold TaskStruct.dispatch
      split at done
      · rename_i meets
        simp only [meets, not_false_eq_true, ↓reduceIte, ne_eq]
        exact (Except.ok.inj done).symm
      · rename_i misses
        simp only [misses, ↓reduceIte, Function.update_eq_self]
        exact (Except.ok.inj done).symm

/-- Handling an event succeeds on a live first task that can be removed. -/
theorem handleEvent_ok {ev : EpollEvent} {s : State} {p : TaskPtr}
    {links : TailQueue.Links Nat TaskPtr} (first : s.links.first ev.dataFd = some p)
    (alive : s.live p = true) (removed : s.links.remove s.live ev.dataFd p = .ok links) :
    handleEvent ev s = .ok { s with
      links
      tasks := Function.update s.tasks p ((s.tasks p).dispatch ev) } := by
  simp only [handleEvent, first, State.relink, removed, State.deref, alive, ↓reduceIte, bind,
    Except.bind, TaskStruct.dispatch]
  split
  · rfl
  · rw [Function.update_eq_self]

end LibcoLite
