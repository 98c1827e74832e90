import LibcoLite.Lib.Run
import LibcoLite.Epoll

/-!
# Blocking calls

The functions of `cosyscall.c`. All three calls register the descriptor, queue the current
task and loop until the awaited bit has been received; `co_write` then takes its bit out of
the registration again. The record that decides between adding, modifying and doing nothing
is the task's own.
-/

namespace LibcoLite

/-- The condition of the second branch of `add_queue` as its operators bind: the bit test
applies to the outcome of the comparison. -/
def needsMod (recorded events : Mask) : Bool :=
  recorded &&& (if events ≠ recorded then 1 else 0) ≠ 0

/-- `add_queue`: the state after the call and the returned value. -/
def addQueue (fd : Nat) (events : Mask) (granted : Bool) (s : State) :
    Except Stop (State × Int) := do
  let current := s.current
  let s := s.modify current fun tsk =>
    { tsk with
      status := .wait
      revents := Function.update tsk.revents fd (tsk.revents fd &&& ~~~events) }
  let tsk := s.tasks current
  let (s, ret) ←
    if (tsk.events fd).dataFd ≤ 0 then
      if tsk.fdsIdx < maxFd then
        let s := s.modify current fun tsk =>
          { tsk with
            fds := Function.update tsk.fds tsk.fdsIdx fd
            fdsIdx := tsk.fdsIdx + 1
            events := Function.update tsk.events fd ⟨epollIn, fd⟩ }
        let (interest, ret) := epollCtl granted (.add ⟨events, fd⟩) fd s.interest
        .ok ({ s with interest }, ret)
      else .error .bounds
    else if needsMod (tsk.events fd).events events then
      let s := s.modify current fun tsk =>
        { tsk with
          events := Function.update tsk.events fd
            { tsk.events fd with events := (tsk.events fd).events ||| events } }
      let event := ⟨events ||| ((s.tasks current).events fd).events, fd⟩
      let (interest, ret) := epollCtl granted (.mod event) fd s.interest
      .ok ({ s with interest }, ret)
    else .ok (s, 0)
  if ret < 0 then .ok (s, ret)
  else do
    let s ← s.relink (s.links.insertTail s.live fd current)
    .ok (s, 0)

/-- `co_accept`, `co_read` and `co_write` up to their wait loop. -/
def coCall (call : Call) (fd : Nat) (granted : Bool) (s : State) : Except Stop State :=
  if fd < maxFd then do
    let (s, ret) ← addQueue fd call.event granted s
    if ret < 0 then .ok (s.goto .user) else .ok (s.goto (.wait call fd))
  else .error .bounds

/-- `co_write` behind its wait loop, up to its system call. -/
def coWriteDone (fd : Nat) (granted : Bool) (s : State) : State × Int :=
  let s := s.modify s.current fun tsk =>
    { tsk with
      events := Function.update tsk.events fd
        { tsk.events fd with events := (tsk.events fd).events &&& ~~~epollOut }
      revents := Function.update tsk.revents fd (tsk.revents fd &&& ~~~epollOut) }
  let (interest, ret) :=
    epollCtl granted (.mod ((s.tasks s.current).events fd)) fd s.interest
  ({ s with interest }, ret)

/-- One test of the wait loop of a blocking call: back to waiting while the awaited bit has
not been received, else on to the system call or, in `co_write`, to the failure of
`epoll_ctl`. -/
def coWait (call : Call) (fd : Nat) (granted : Bool) (s : State) : State :=
  if (s.tasks s.current).revents fd &&& call.event = 0 then
    (s.modify s.current fun tsk => { tsk with status := .wait }).goto
      (.schedule (.wait call fd))
  else if call = .write then
    let (s, ret) := coWriteDone fd granted s
    if ret < 0 then s.goto .user else s.goto (.syscall call fd)
  else s.goto (.syscall call fd)

/-! ## What `add_queue` does -/

/-- The fields every call of `add_queue` sets first. -/
def TaskStruct.await (fd : Nat) (events : Mask) (tsk : TaskStruct) : TaskStruct :=
  { tsk with
    status := .wait
    revents := Function.update tsk.revents fd (tsk.revents fd &&& ~~~events) }

/-- The record of a first registration. -/
def TaskStruct.record (fd : Nat) (tsk : TaskStruct) : TaskStruct :=
  { tsk with
    fds := Function.update tsk.fds tsk.fdsIdx fd
    fdsIdx := tsk.fdsIdx + 1
    events := Function.update tsk.events fd ⟨epollIn, fd⟩ }

/-- The record of a changed registration. -/
def TaskStruct.widen (fd : Nat) (events : Mask) (tsk : TaskStruct) : TaskStruct :=
  { tsk with
    events := Function.update tsk.events fd
      { tsk.events fd with events := (tsk.events fd).events ||| events } }

/-- The three ways through `add_queue` up to its insertion: the block of the current task,
the interest list and the result. -/
inductive Registers (fd : Nat) (events : Mask) (granted : Bool) (s : State) :
    TaskStruct → (Nat → Option EpollEvent) × Int → Prop where
  /-- The task has no record of the descriptor. -/
  | add : ((s.tasks s.current).events fd).dataFd = 0 → (s.tasks s.current).fdsIdx < maxFd →
      Registers fd events granted s (((s.tasks s.current).await fd events).record fd)
        (epollCtl granted (.add ⟨events, fd⟩) fd s.interest)
  /-- The record calls for a modification. -/
  | mod : ((s.tasks s.current).events fd).dataFd ≠ 0 →
      needsMod ((s.tasks s.current).events fd).events events = true →
      Registers fd events granted s (((s.tasks s.current).await fd events).widen fd events)
        (epollCtl granted
          (.mod ⟨events ||| (((s.tasks s.current).events fd).events ||| events), fd⟩) fd s.interest)
  /-- The record calls for nothing. -/
  | keep : ((s.tasks s.current).events fd).dataFd ≠ 0 →
      needsMod ((s.tasks s.current).events fd).events events = false →
      Registers fd events granted s ((s.tasks s.current).await fd events) (s.interest, 0)

/-- The state `add_queue` has reached before its insertion. -/
def State.registered (s : State) (tsk : TaskStruct) (interest : Nat → Option EpollEvent) : State :=
  { s with tasks := Function.update s.tasks s.current tsk, interest }

/-- Behind one of the ways, `add_queue` returns the failure of `epoll_ctl` or inserts the
current task. Only a full `fds` stops it before. -/
theorem addQueue_registers (fd : Nat) (events : Mask) (granted : Bool) (s : State) :
    addQueue fd events granted s = .error .bounds ∨
      ∃ tsk ctl, Registers fd events granted s tsk ctl ∧
        addQueue fd events granted s =
          if ctl.2 < 0 then .ok (s.registered tsk ctl.1, ctl.2)
          else (do
            let linked ← (s.registered tsk ctl.1).relink (s.links.insertTail s.live fd s.current)
            .ok (linked, 0)) := by
  unfold addQueue
  simp only [State.modify, Function.update_self, Function.update_idem]
  by_cases unseen : ((s.tasks s.current).events fd).dataFd ≤ 0
  · by_cases room : (s.tasks s.current).fdsIdx < maxFd
    · simp only [unseen, room, ↓reduceIte, bind, Except.bind]
      exact .inr ⟨_, _, .add (Nat.le_zero.mp unseen) room, rfl⟩
    · simp [unseen, room, bind, Except.bind]
  · have seen : ((s.tasks s.current).events fd).dataFd ≠ 0 :=
      fun zero => unseen (zero ▸ Nat.le_refl 0)
    right
    cases needs : needsMod ((s.tasks s.current).events fd).events events with
    | true =>
      simp only [unseen, ↓reduceIte, bind, Except.bind]
      exact ⟨_, _, .mod seen needs, rfl⟩
    | false =>
      simp only [unseen, ↓reduceIte, bind, Except.bind, Bool.false_eq_true]
      exact ⟨_, _, .keep seen needs, rfl⟩

/-- A call of `add_queue` registers, and inserts the task unless `epoll_ctl` failed. -/
theorem addQueue_cases {fd : Nat} {events : Mask} {granted : Bool} {s s' : State} {ret : Int}
    (done : addQueue fd events granted s = .ok (s', ret)) :
    ∃ tsk ctl, Registers fd events granted s tsk ctl ∧
      ((ctl.2 < 0 ∧ ret = ctl.2 ∧ s' = s.registered tsk ctl.1) ∨
        (¬ctl.2 < 0 ∧ ret = 0 ∧ ∃ links,
          s.links.insertTail s.live fd s.current = .ok links ∧
          s' = { s.registered tsk ctl.1 with links })) := by
  rcases addQueue_registers fd events granted s with full | ⟨tsk, ctl, registers, same⟩
  · cases full.symm.trans done
  rw [same] at done
  refine ⟨tsk, ctl, registers, ?_⟩
  split at done
  · rename_i failed
    obtain ⟨rfl, rfl⟩ := Prod.mk.inj (Except.ok.inj done)
    exact .inl ⟨failed, rfl, rfl⟩
  · rename_i succeeded
    cases inserted : s.links.insertTail s.live fd s.current with
    | error fault => simp [State.relink, inserted, bind, Except.bind] at done
    | ok links =>
      simp only [State.relink, inserted, bind, Except.bind, Except.ok.injEq, Prod.mk.injEq] at done
      exact .inr ⟨succeeded, done.2.symm, links, rfl, done.1.symm⟩

/-- `add_queue` can only stop for want of a place in `fds`, or in its insertion. -/
theorem addQueue_error {fd : Nat} {events : Mask} {granted : Bool} {s : State} {stop : Stop}
    (stopped : addQueue fd events granted s = .error stop) :
    stop = .bounds ∨ ∃ tsk ctl fault, Registers fd events granted s tsk ctl ∧ ¬ctl.2 < 0 ∧
      s.links.insertTail s.live fd s.current = .error fault := by
  rcases addQueue_registers fd events granted s with full | ⟨tsk, ctl, registers, same⟩
  · exact .inl (Except.error.inj (stopped.symm.trans full))
  rw [same] at stopped
  right
  split at stopped
  · contradiction
  · rename_i succeeded
    cases inserted : s.links.insertTail s.live fd s.current with
    | error fault => exact ⟨tsk, ctl, fault, registers, succeeded, rfl⟩
    | ok links => simp [State.relink, inserted, bind, Except.bind] at stopped

end LibcoLite
