import LibcoLite.Machine
import Mathlib.Data.List.Perm.Basic

/-!
# Batches of events

One call of `epoll_wait` reports several descriptors at once, in an order the kernel chooses.
Handling an event writes the fields of its own queue and the block of the first task there,
so that the events of a batch, which name pairwise distinct descriptors, commute.
-/

namespace LibcoLite

open TailQueue
open Transition (execute execute_append)

/-- The loop of `co_eventloop` over the reported events. -/
def handleEvents (evs : List EpollEvent) (s : State) : Except Stop State :=
  evs.foldlM (fun s ev => handleEvent ev s) s

/-- The state behind an event on a queue with a given list. -/
def State.handled (queue : Nat → List TaskPtr) (s : State) (ev : EpollEvent) : State :=
  match queue ev.dataFd with
  | [] => s
  | p :: rest => { s with
      links := s.links.dropFirst ev.dataFd rest
      tasks := Function.update s.tasks p ((s.tasks p).dispatch ev) }

variable {queue : Nat → List TaskPtr} {s : State}

/-- An event on a queue with a task is handled exactly if the accessed tasks are live. -/
theorem handleEvent_first (queues : Queues s.links queue) {ev : EpollEvent}
    (waiting : queue ev.dataFd ≠ []) :
    handleEvent ev s =
      if FrontLive s.live (queue ev.dataFd) then .ok (s.handled queue ev)
      else .error (.fault .freed) := by
  obtain ⟨p, rest, shape⟩ := List.exists_cons_of_ne_nil waiting
  have first : s.links.first ev.dataFd = some p := by rw [queues.first_eq, shape]; rfl
  have removed : s.links.remove s.live ev.dataFd p =
      if FrontLive s.live (queue ev.dataFd) then .ok (s.links.dropFirst ev.dataFd rest)
      else .error .freed := queues.remove_first shape
  by_cases lives : FrontLive s.live (queue ev.dataFd)
  · rw [if_pos lives] at removed ⊢
    have alive : s.live p = true := by
      apply lives
      rw [shape]
      exact List.mem_cons_self
    rw [handleEvent_ok first alive removed]
    simp only [State.handled, shape]
  · rw [if_neg lives] at removed ⊢
    simp only [handleEvent, first, removed, State.relink, bind, Except.bind]

/-- Events on two queues commute. -/
theorem State.handled_comm (queues : Queues s.links queue) {ev ev' : EpollEvent}
    (different : ev.dataFd ≠ ev'.dataFd) (t : State) :
    (t.handled queue ev).handled queue ev' = (t.handled queue ev').handled queue ev := by
  cases shape : queue ev.dataFd with
  | nil => simp only [State.handled, shape]
  | cons p rest =>
    cases shape' : queue ev'.dataFd with
    | nil => simp only [State.handled, shape, shape']
    | cons p' rest' =>
      have apart : ∀ element ∈ p :: rest, element ∉ p' :: rest' := by
        intro element member member'
        apply different
        exact queues.apart _ _ element (shape ▸ member) (shape' ▸ member')
      have heads : p ≠ p' := by
        intro same
        exact apart p List.mem_cons_self (same ▸ List.mem_cons_self)
      have tails : ∀ element ∈ rest, element ∉ rest' := by
        intro element member member'
        exact apart element (List.mem_cons_of_mem _ member) (List.mem_cons_of_mem _ member')
      simp only [State.handled, shape, shape', Links.dropFirst_comm t.links different tails,
        Function.update_of_ne heads, Function.update_of_ne heads.symm,
        Function.update_comm heads]

/-- An event reads the list of its own queue only. -/
theorem State.handled_congr {now : Nat → List TaskPtr} {ev : EpollEvent}
    (same : now ev.dataFd = queue ev.dataFd) : s.handled now ev = s.handled queue ev := by
  simp only [State.handled, same]

/-- Handling an event frees no task. -/
theorem State.handled_live (ev : EpollEvent) : (s.handled queue ev).live = s.live := by
  unfold State.handled
  split <;> rfl

/-- Handling an event leaves some tail of the list of its queue, and the other lists. -/
theorem State.handled_queues (queues : Queues s.links queue) (ev : EpollEvent) :
    ∃ now, Queues (s.handled queue ev).links now ∧
      ∀ fd, fd ≠ ev.dataFd → now fd = queue fd := by
  unfold State.handled
  cases shape : queue ev.dataFd with
  | nil => exact ⟨queue, queues, fun _ _ => rfl⟩
  | cons p rest =>
    exact ⟨Function.update queue ev.dataFd rest, queues.dropFirst shape,
      fun fd other => Function.update_of_ne other _ _⟩

/-- A batch on pairwise distinct descriptors with waiting tasks succeeds exactly if the
accessed tasks are live, and has the effects of its events on the lists before it. -/
theorem handleEvents_eq {now : Nat → List TaskPtr} {evs : List EpollEvent}
    (queues : Queues s.links now) (distinct : (evs.map EpollEvent.dataFd).Nodup)
    (same : ∀ ev ∈ evs, now ev.dataFd = queue ev.dataFd)
    (waiting : ∀ ev ∈ evs, queue ev.dataFd ≠ []) :
    handleEvents evs s =
      if ∀ ev ∈ evs, FrontLive s.live (queue ev.dataFd) then
        .ok (evs.foldl (State.handled queue) s)
      else .error (.fault .freed) := by
  induction evs generalizing s now with
  | nil => simp [handleEvents, pure, Except.pure]
  | cons ev rest ih =>
    have here : now ev.dataFd = queue ev.dataFd := same ev List.mem_cons_self
    have first := handleEvent_first queues (here ▸ waiting ev List.mem_cons_self)
    rw [State.handled_congr here, here] at first
    have unfolded : handleEvents (ev :: rest) s = handleEvent ev s >>= handleEvents rest :=
      List.foldlM_cons ..
    obtain ⟨absent, others⟩ := List.nodup_cons.mp distinct
    rw [unfolded, first]
    by_cases lives : FrontLive s.live (queue ev.dataFd)
    · obtain ⟨behind, left, kept⟩ := State.handled_queues queues ev
      rw [State.handled_congr here] at left
      have agree : ∀ later ∈ rest, behind later.dataFd = queue later.dataFd := by
        intro later member
        have other : later.dataFd ≠ ev.dataFd := by
          intro equal
          exact absent (equal ▸ List.mem_map_of_mem member)
        rw [kept _ other, same later (List.mem_cons_of_mem _ member)]
      have later := ih left others agree fun other member =>
        waiting other (List.mem_cons_of_mem _ member)
      simp only [lives, List.forall_mem_cons, true_and, ↓reduceIte, bind, Except.bind, later,
        State.handled_live, List.foldl_cons]
    · simp only [lives, List.forall_mem_cons, false_and, ↓reduceIte, bind, Except.bind]

/-- Permuted batches have one outcome. -/
theorem handleEvents_perm (queues : Queues s.links queue) {evs evs' : List EpollEvent}
    (distinct : (evs.map EpollEvent.dataFd).Nodup)
    (waiting : ∀ ev ∈ evs, queue ev.dataFd ≠ []) (perm : evs.Perm evs') :
    handleEvents evs s = handleEvents evs' s := by
  have distinct' : (evs'.map EpollEvent.dataFd).Nodup := (perm.map _).nodup_iff.mp distinct
  have waiting' : ∀ ev ∈ evs', queue ev.dataFd ≠ [] := by
    intro ev member
    exact waiting ev (perm.mem_iff.mpr member)
  have folds : evs.foldl (State.handled queue) s = evs'.foldl (State.handled queue) s := by
    apply perm.foldl_eq'
    intro ev member ev' member' t
    by_cases same : ev.dataFd = ev'.dataFd
    · rw [List.inj_on_of_nodup_map distinct member member' same]
    · exact State.handled_comm queues same t
  rw [handleEvents_eq queues distinct (fun _ _ => rfl) waiting,
    handleEvents_eq queues distinct' (fun _ _ => rfl) waiting', folds]
  simp only [perm.mem_iff]

/-! ## The batch in the event loop -/

/-- The steps of the loop over as many events and of the way out of it. -/
def batchInputs (evs : List EpollEvent) : List Input :=
  List.replicate (evs.length + 1) .run

/-- The control point does not matter to an event. -/
theorem handleEvent_goto (ev : EpollEvent) (s : State) (pc : Pc) :
    handleEvent ev (s.goto pc) = (handleEvent ev s).map fun s => s.goto pc := by
  unfold handleEvent
  cases first : s.links.first ev.dataFd with
  | none => simp [State.goto, first, Except.map]
  | some p =>
    cases removed : s.links.remove s.live ev.dataFd p with
    | error fault =>
      simp only [State.goto, first, removed, State.relink, bind, Except.bind, Except.map]
    | ok links =>
      by_cases alive : s.live p = true
      · simp only [State.goto, first, removed, State.relink, State.deref, alive, ↓reduceIte, bind,
          Except.bind]
        by_cases meets : ((s.tasks p).events ev.dataFd).events &&& ev.events ≠ 0
        · simp only [if_pos meets]
          rfl
        · simp only [if_neg meets]
          rfl
      · simp [State.goto, first, removed, State.relink, State.deref, alive, bind, Except.bind,
          Except.map]

/-- A freed task cannot go on. -/
theorem execute_freed (freed : ¬s.live s.current = true) (pc : Pc) (i : Input)
    (inputs : List Input) :
    execute step (s.goto pc) (i :: inputs) = .error (.fault .freed) := by
  simp [execute, step, State.goto, freed, Except.bind]

/-- The event loop handles the events of a batch in order and goes on to `schedule`. -/
theorem execute_batch (alive : s.live s.current = true) (evs : List EpollEvent) :
    execute step (s.goto (.handle evs)) (batchInputs evs) =
      (handleEvents evs s).map fun s => s.goto (.schedule .epollWait) := by
  induction evs generalizing s with
  | nil =>
    simp [batchInputs, execute, step, State.goto, alive, handleEvents, Except.bind, Except.map,
      pure, Except.pure]
  | cons ev rest ih =>
    have taken : step (s.goto (.handle (ev :: rest))) .run =
        (handleEvent ev s).map fun s => s.goto (.handle rest) := by
      have unfolded : step (s.goto (.handle (ev :: rest))) .run =
          (handleEvent ev (s.goto (.handle (ev :: rest)))).bind
            fun s => .ok (s.goto (.handle rest)) := by
        simp [step, State.goto, alive, bind]
      rw [unfolded, handleEvent_goto]
      cases handled : handleEvent ev s with
      | error stop => rfl
      | ok middle => simp [Except.map, Except.bind, State.goto]
    have unfolded : handleEvents (ev :: rest) s = (handleEvent ev s).bind (handleEvents rest) :=
      List.foldlM_cons ..
    change (step (s.goto (.handle (ev :: rest))) .run).bind _ = _
    rw [taken, unfolded]
    cases handled : handleEvent ev s with
    | error stop => rfl
    | ok middle =>
      obtain ⟨p, links, first, _, removed, same⟩ := handleEvent_cases handled
      have alive' : middle.live middle.current = true := by
        rw [same]
        exact alive
      exact ih alive'

/-- The order of the events in a batch does not matter. From a state whose queues are well
formed, handling events on pairwise distinct descriptors with waiting tasks leads to the same
state whatever their order, and so does the switch of the `schedule` behind them. While the
queued tasks are live, the batch is handled to its end. -/
theorem batch_order {queue : Nat → List TaskPtr} {s : State} (queues : Queues s.links queue)
    {evs evs' : List EpollEvent} (distinct : (evs.map EpollEvent.dataFd).Nodup)
    (waiting : ∀ ev ∈ evs, queue ev.dataFd ≠ []) (perm : evs.Perm evs') :
    execute step (s.goto (.handle evs)) (batchInputs evs) =
        execute step (s.goto (.handle evs')) (batchInputs evs') ∧
      (∀ rounds, execute step (s.goto (.handle evs)) (batchInputs evs ++ [.pick rounds]) =
        execute step (s.goto (.handle evs')) (batchInputs evs' ++ [.pick rounds])) ∧
      (s.live s.current = true → (∀ fd, ∀ p ∈ queue fd, s.live p = true) →
        ∃ after, execute step (s.goto (.handle evs)) (batchInputs evs) = .ok after) := by
  have same : execute step (s.goto (.handle evs)) (batchInputs evs) =
      execute step (s.goto (.handle evs')) (batchInputs evs') := by
    by_cases alive : s.live s.current = true
    · rw [execute_batch alive, execute_batch alive, handleEvents_perm queues distinct waiting perm]
    · simp only [batchInputs, List.replicate_succ, execute_freed alive]
  refine ⟨same, fun rounds => ?_, fun alive members => ?_⟩
  · rw [execute_append, execute_append, same]
  · have lives : ∀ ev ∈ evs, FrontLive s.live (queue ev.dataFd) := by
      intro ev _
      exact frontLive_of_all (members _)
    have handled := handleEvents_eq queues distinct (fun _ _ => rfl) waiting
    rw [if_pos lives] at handled
    rw [execute_batch alive, handled]
    exact ⟨_, rfl⟩

/-- Two tasks wait on descriptor 3 and one on descriptor 4. -/
def threeWaiting (fd : Nat) : List TaskPtr :=
  if fd = 3 then [1, 2] else if fd = 4 then [3] else []

/-- A thread whose initial task runs the event loop while three tasks wait for input. -/
def threeReaders : State :=
  { State.init 0 fun _ => 0 with
    links := {
      first := fun fd => (threeWaiting fd).head?
      last := fun fd => some (endCell (.first fd) (threeWaiting fd))
      next := fun p => if p = 1 then some 2 else none
      prev := fun p => some (if p = 1 then .first 3 else if p = 2 then .next 1 else .first 4) }
    tasks := fun p => { TaskStruct.calloc with
      id := p
      threadEnv := some 0
      status := if p = 0 then .running else .wait
      events := fun fd => ⟨epollIn, fd⟩ }
    live := fun p => p < 4 }

/-- Where the three tasks wait. -/
theorem mem_threeWaiting {fd p : Nat} :
    p ∈ threeWaiting fd ↔ fd = 3 ∧ (p = 1 ∨ p = 2) ∨ fd = 4 ∧ p = 3 := by
  unfold threeWaiting
  by_cases three : fd = 3
  · simp [three]
  · by_cases four : fd = 4
    · simp [four]
    · simp [three, four]

/-- The links of the three tasks spell out their queues. -/
theorem queues_threeReaders : Queues threeReaders.links threeWaiting where
  chain fd := by
    by_cases three : fd = 3
    · subst three
      decide
    · by_cases four : fd = 4
      · subst four
        decide
      · simp [threeReaders, threeWaiting, three, four, Chain, Links.load]
  apart fd other p member member' := by
    rw [mem_threeWaiting] at member member'
    omega

/-- The three tasks are live. -/
theorem live_threeReaders (fd : Nat) (p : TaskPtr) (member : p ∈ threeWaiting fd) :
    threeReaders.live p = true := by
  rw [mem_threeWaiting] at member
  rcases member with ⟨_, rfl | rfl⟩ | ⟨_, rfl⟩
  · rfl
  · rfl
  · rfl

/-- The two descriptors of the three tasks can be handled in either order. -/
theorem batch_order_threeReaders :
    execute step (threeReaders.goto (.handle [⟨epollIn, 3⟩, ⟨epollIn, 4⟩]))
        (batchInputs [⟨epollIn, 3⟩, ⟨epollIn, 4⟩] ++ [.pick 1]) =
      execute step (threeReaders.goto (.handle [⟨epollIn, 4⟩, ⟨epollIn, 3⟩]))
        (batchInputs [⟨epollIn, 4⟩, ⟨epollIn, 3⟩] ++ [.pick 1]) ∧
    ∃ after, execute step (threeReaders.goto (.handle [⟨epollIn, 3⟩, ⟨epollIn, 4⟩]))
      (batchInputs [⟨epollIn, 3⟩, ⟨epollIn, 4⟩]) = .ok after := by
  have perm : [⟨epollIn, 3⟩, ⟨epollIn, 4⟩].Perm [EpollEvent.mk epollIn 4, ⟨epollIn, 3⟩] :=
    List.Perm.swap _ _ _
  have outcome := batch_order queues_threeReaders (by decide) (by decide) perm
  exact ⟨outcome.2.1 1, outcome.2.2 rfl live_threeReaders⟩

end LibcoLite
