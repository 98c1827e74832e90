import LibcoLite.Demo03

/-!
# The echo server stays in memory

The echo server is a careful program under every interleaving, as long as handled events contain
the awaited bits: its coroutines leave their own code only while they wait on their descriptors. So
it can only be stopped by `exit`, which a task calls behind a call that has failed, and the event
loop behind a failing `epoll_wait`.
-/

namespace LibcoLite.Demo03

open Transition (Along Move along_cons)

variable {listenfd : Nat} {self : EnvPtr} {clock : Nat → Nat} {past : WorldHistory Place}
  {w w' : World Place} {choice : Choice} {p : TaskPtr}

/-! ## The server is careful -/

/-- The current task is about to call `exit`, behind a call that has failed. -/
def Failed (w : World Place) : Prop :=
  w.thread.pc w.thread.current = .user ∧ ∃ fd, w.place = .failed fd

/-- Behind a failed call nothing follows but the end of the process. -/
theorem Failed.stops (failed : Failed w) (choice : Choice) :
    w.step (server listenfd) choice = .error .exited ∨
      w.step (server listenfd) choice = .error .disabled := by
  obtain ⟨user, fd, place⟩ := failed
  cases choice with
  | own granted => simp [World.step, World.stepBy, user, World.act, place, server]
  | answer answer => simp [World.step, World.stepBy, user]
  | library i => simp [World.step, World.stepBy, user]

/-- Each descriptor has its task as the owner. -/
def Agrees (listenfd : Nat) (owner : Nat → TaskPtr) (w : World Place) : Prop :=
  ∀ p fd, w.thread.live p = true → (w.places p).fd listenfd = some fd → owner fd = p

/-- There are such owners. -/
theorem Sound.agrees (sound : Sound listenfd w) : ∃ owner, Agrees listenfd owner w := by
  have each (fd : Nat) : ∃ owner, ∀ p, w.thread.live p = true →
      (w.places p).fd listenfd = some fd → owner = p := by
    by_cases used : ∃ p, w.thread.live p = true ∧ (w.places p).fd listenfd = some fd
    · obtain ⟨p, alive, uses⟩ := used
      exact ⟨p, fun q alive' uses' => sound.apart p q alive alive' (uses.trans uses'.symm)⟩
    · exact ⟨initTask, fun p alive uses => absurd ⟨p, alive, uses⟩ used⟩
  choose owner owns using each
  exact ⟨owner, fun p fd alive uses => owns fd p alive uses⟩

/-- A blocking call of the server is made by the task of its descriptor. -/
theorem Sound.calls (sound : Sound listenfd w) (inv : Integrity w.thread)
    (taken : w.step (server listenfd) choice = .ok w') {fd : Nat}
    (passed : fd ∈ (w.input (server listenfd) choice).descriptor) :
    w.place.fd listenfd = some fd ∧ 0 < fd ∧ fd < maxFd := by
  have user := step_calls (world_thread taken) passed
  have does : ∃ call, (server listenfd).action w.place = .io call fd := by
    cases given : w.input (server listenfd) choice with
    | io call fd' granted =>
      rw [given] at passed
      cases passed
      exact ⟨call, World.origin_own taken user (by rw [given]; rfl)⟩
    | _ =>
      rw [given] at passed
      cases passed
  obtain ⟨call, does⟩ := does
  exact ⟨fd_of_action does, sound.bounded _ fd inv.seated.alive (fd_of_action does)⟩

/-- A task of the server leaves its own code only while it waits on its descriptor. -/
theorem Sound.waits (sound : Sound listenfd w) (inv : Integrity w.thread)
    (emptied : Emptied w.thread) (suspended : Suspended w.thread)
    (located : Located (server listenfd) w) (taken : w.step (server listenfd) choice = .ok w')
    (leaves : (w.input (server listenfd) choice).leaves = true) :
    OnlyWaits w.thread w.thread.current := by
  intro k small _
  have alive := inv.seated.alive
  have uses := sound.recorded _ alive k small
  have stepped := world_thread taken
  -- the event loop is in `main`, which has no descriptor
  have notLooping (calls : (server listenfd).action w.place = .eventloop) : False := by
    have none : w.place.fd listenfd = none := by
      rw [place_of_eventloop calls]
      rfl
    cases none.symm.trans uses
  cases given : w.input (server listenfd) choice with
  | eventloop =>
    have user := step_user stepped (by rw [given]; rfl)
    exact (notLooping (World.origin_own taken user (by rw [given]; rfl))).elim
  | pick rounds =>
    rw [given] at stepped
    obtain ⟨behind, pc, _⟩ := step_switch_frame inv stepped
    have calls := sound.calm _ alive (by simp [pc])
    have resumes := suspended.behind behind pc
    rw [pc] at calls ⊢
    cases behind with
    | wait call fd =>
      have does := located _ alive _ (by rw [pc]; rfl)
      rw [show (w.places w.thread.current).fd listenfd = some fd from fd_of_action does] at uses
      exact uses
    | epollWait => exact (notLooping (located _ alive _ (by rw [pc]; rfl))).elim
    | finished =>
      have none := emptied _ alive (by rw [pc]; trivial)
      omega
    | user => exact absurd rfl calls
    | join => exact absurd rfl calls
    | _ => exact resumes.elim
  | _ =>
    rw [given] at leaves
    cases leaves

/-- A refused blocking call leads to `exit`. -/
theorem failed_of_io {place : Place} {call : Call} {fd : Nat}
    (does : (server listenfd).action place = .io call fd) :
    (server listenfd).answered place .failed = .failed fd := by
  cases place with
  | accepting => cases does; rfl
  | reading => cases does; rfl
  | writing => cases does; rfl
  | _ => cases does

/-- Blocking calls of the server are not refused, or the server comes to its end. -/
theorem succeeds_or_failed (inv : Integrity w.thread) (located : Located (server listenfd) w)
    (taken : w.step (server listenfd) choice = .ok w') :
    CallsSucceed (threadMove (server listenfd) ⟨w, choice, w'⟩) ∨ Failed w' := by
  have stepped := world_thread taken
  have kind := world_cases taken
  have fails {call : Call} {fd : Nat} (does : (server listenfd).action w.place = .io call fd)
      (user : w'.thread.pc w.thread.current = .user)
      (place : w'.places w.thread.current = (server listenfd).answered w.place .failed)
      (other : ∀ rounds, w.input (server listenfd) choice ≠ .pick rounds) : Failed w' := by
    have current := (step_cases stepped).2.current other
    refine ⟨by rw [current]; exact user, fd, ?_⟩
    show w'.places w'.thread.current = _
    rw [current, place, failed_of_io does]
  by_cases returned : w'.thread.pc w.thread.current = .user
  case neg => exact .inl fun _ => returned
  -- a step of the own code other than a blocking call
  have silent (user : w.thread.pc w.thread.current = .user)
      (none : (w.input (server listenfd) choice).descriptor = .none) :
      CallsSucceed (threadMove (server listenfd) ⟨w, choice, w'⟩) := by
    rintro (passes | waits)
    · exact absurd none passes
    · apply absurd _ waits
      show (w.thread.pc w.thread.current).waiting = .none
      rw [user]
      rfl
  cases kind with
  | creates granted thread routine id user does =>
    exact .inl (silent user (by simp [World.input, does, Input.descriptor]))
  | full granted thread routine user does =>
    exact .inl (silent user (by simp [World.input, does, Input.descriptor]))
  | joins granted thread cid user does =>
    exact .inl (silent user (by simp [World.input, does, Input.descriptor]))
  | sleeps granted thread seconds user does =>
    exact .inl (silent user (by simp [World.input, does, Input.descriptor]))
  | loops granted thread user does =>
    exact .inl (silent user (by simp [World.input, does, Input.descriptor]))
  | returns granted thread user does =>
    exact .inl (silent user (by simp [World.input, does, Input.descriptor]))
  | calls granted thread call fd user does inside => exact absurd returned inside
  | refused granted thread call fd user does =>
    exact .inr (fails does returned (Function.update_self ..) (by simp [World.input, does]))
  | answers answer thread call fd pc =>
    left
    rintro (passes | waits)
    · exact absurd rfl passes
    · apply absurd _ waits
      show (w.thread.pc w.thread.current).waiting = none
      rw [pc]
      rfl
  | fails i thread call fd pc =>
    right
    have does := located _ inv.seated.alive _ (by rw [pc]; rfl)
    refine fails does returned (Function.update_self ..) ?_
    rintro rounds switches
    rw [switches] at stepped
    obtain ⟨_, there, _⟩ := step_switch_frame inv stepped
    cases pc.symm.trans there
  | library i thread inside _ waits =>
    left
    rintro (passes | waiting)
    · obtain ⟨fd, passed⟩ := Option.ne_none_iff_exists'.mp passes
      exact absurd (step_calls stepped passed) inside
    · change (w.thread.pc w.thread.current).waiting ≠ none at waiting
      cases pc : w.thread.pc w.thread.current with
      | wait call fd => exact waits call fd pc
      | schedule behind =>
        obtain ⟨rounds, switches⟩ := step_scheduled stepped pc
        rw [switches] at stepped
        obtain ⟨behind', there, control, _⟩ := step_switch_frame inv stepped
        obtain rfl := Pc.schedule.inj (pc.symm.trans there)
        rw [control, Function.update_self] at returned
        rw [pc, returned] at waiting
        exact absurd rfl waiting
      | _ =>
        rw [pc] at waiting
        exact absurd rfl waiting

/-- The server is careful in every run, up to the move that leads to `exit`. -/
theorem careful_of_run (listens : 0 < listenfd ∧ listenfd < maxFd)
    (run : ServerRun listenfd self clock past w) (accepts : Along (Accepts listenfd) past)
    (delivers : Along (Delivers listenfd) past) {owner : Nat → TaskPtr}
    (agrees : Agrees listenfd owner w) :
    Along (Careful owner initTask) (past.map (threadMove (server listenfd))) ∨ Failed w := by
  induction run with
  | start => exact .inl (by simp [Along])
  | @move past w w' choice before taken ih =>
    obtain ⟨_, accepted⟩ := along_cons.mp accepts
    obtain ⟨delivered, rest⟩ := along_cons.mp delivers
    have inv := world_integrity before
    have sound := sound_of_run listens before accepted
    have thread := thread_of_run before
    have located := located_of_run before
    have stepped := world_thread taken
    have agreed : Agrees listenfd owner w := fun p fd alive uses =>
      agrees p fd (live_step sound inv stepped alive)
        ((fd_step (world_cases taken) inv alive).trans uses)
    rcases ih accepted rest agreed with careful | failed
    · rcases succeeds_or_failed inv located taken with succeeds | failed
      · left
        refine along_cons.mpr ⟨⟨?_, ?_, delivered, ?_, succeeds, ?_⟩, careful⟩
        · intro fd passed
          obtain ⟨uses, positive, small⟩ := sound.calls inv taken passed
          exact ⟨positive, small, agreed _ fd inv.seated.alive uses⟩
        · intro loops
          apply (sound.mains _ inv.seated.alive).mp
          have user := step_user stepped (by rw [show w.input _ choice = _ from loops]; rfl)
          have does := World.origin_own taken user
            (by rw [show w.input _ choice = _ from loops]; rfl)
          show w.place.fd listenfd = none
          rw [place_of_eventloop does]
          rfl
        · exact sound.waits inv (emptied_of_run thread) (suspended_of_run thread) located taken
        · intro cid joins
          exact absurd joins ((World.input_lasts action_lasts taken).1 cid)
      · exact .inr failed
    · rcases failed.stops choice with stops | stops
      · cases stops.symm.trans taken
      · cases stops.symm.trans taken

/-- The server joins no coroutine. -/
theorem never_joins (run : ServerRun listenfd self clock past w) :
    ∀ move ∈ past.map (threadMove (server listenfd)), ∀ cid, move.input ≠ .join cid := by
  induction run with
  | start => simp
  | move before taken ih =>
    intro move member
    rcases List.mem_cons.mp member with rfl | member
    · exact (World.input_lasts action_lasts taken).1
    · exact ih move member

/-- So it joins none twice. -/
theorem joins_apart (run : ServerRun listenfd self clock past w) :
    (past.map (threadMove (server listenfd))).Pairwise JoinedApart := by
  apply List.pairwise_of_forall_mem_list
  intro move member other _ p _ target
  cases given : move.input with
  | join cid => exact absurd given (never_joins run move member cid)
  | _ => simp [joinTarget, given] at target

/-- `main` is running in every state. -/
theorem main_runs (listens : 0 < listenfd ∧ listenfd < maxFd)
    (run : ServerRun listenfd self clock past w) (accepts : Along (Accepts listenfd) past) :
    (w.thread.tasks initTask).status = .running := by
  induction run with
  | start => rfl
  | @move past w w' choice before taken ih =>
    obtain ⟨_, rest⟩ := along_cons.mp accepts
    have inv := world_integrity before
    have sound := sound_of_run listens before rest
    have none : (w.places initTask).fd listenfd = none :=
      (sound.mains _ inv.rootLive).mpr rfl
    have stepped := world_thread taken
    refine step_stays_running inv stepped inv.rootLive (ih rest) ?_ ?_
    · cases inside : (w.thread.pc initTask).waiting with
      | none => rfl
      | some wait =>
        obtain ⟨call, fd⟩ := wait
        have does := located_of_run before _ inv.rootLive _ (Pc.origin_of_waiting inside)
        cases none.symm.trans (fd_of_action does)
    · intro own
      have here : w.place.fd listenfd = .none := by
        rw [World.place, show w.thread.current = initTask from own]
        exact none
      refine ⟨(World.input_lasts action_lasts taken).2, ?_, ?_⟩
      · cases passed : (w.input (server listenfd) choice).descriptor with
        | none => rfl
        | some fd => cases here.symm.trans (sound.calls inv taken passed).1
      · intro ret
        have user := step_user stepped (by rw [show w.input _ choice = _ from ret]; rfl)
        have does := World.origin_own taken user (by rw [show w.input _ choice = _ from ret]; rfl)
        cases place : w.place with
        | closed fd =>
          rw [place] at here
          cases here
        | _ =>
          rw [place] at does
          cases does

/-! ## Failed calls -/

/-- Where coroutines start. -/
def Place.initial : Place → Bool
  | .accepting => true
  | .reading _ _ => true
  | _ => false

/-- Who is suspended in its own code has not run since it was created. -/
def Unstarted (w : World Place) : Prop :=
  ∀ p, w.thread.live p = true → p ≠ w.thread.current → w.thread.pc p = .user →
    (w.places p).initial = true

/-- Every step of the server leaves running tasks their calls. -/
theorem Unstarted.step (unstarted : Unstarted w) (sound : Sound listenfd w)
    (inv : Integrity w.thread) (taken : w.step (server listenfd) choice = .ok w') :
    Unstarted w' := by
  have stepped := world_thread taken
  have kind := world_cases taken
  intro p alive away user
  rcases (w.input (server listenfd) choice).switches with ⟨rounds, switches⟩ | other
  · rw [switches] at stepped
    obtain ⟨behind, pc, control, live, _⟩ := step_switch_frame inv stepped
    rw [live] at alive
    rw [kind.switched pc]
    have resumed : p ≠ w.thread.current := by
      rintro rfl
      rw [control, Function.update_self] at user
      apply sound.calm _ alive (by simp [pc])
      rw [pc, user]
      rfl
    rw [control, Function.update_of_ne resumed] at user
    exact unstarted p alive resumed user
  rw [(step_cases stepped).2.current other] at away
  cases old : w.thread.live p with
  | true =>
    rcases step_others inv stepped other away alive with ⟨dead, _⟩ | ⟨_, same, _⟩
    · cases dead.symm.trans old
    rw [kind.other away (inv.notFresh old)]
    exact unstarted p old away (same ▸ user)
  | false =>
    obtain ⟨_, routine, does, there, _⟩ := kind.spawned inv stepped alive old
    rw [there]
    rcases place_of_create does with ⟨_, rfl⟩ | ⟨_, _, rfl⟩ <;> rfl

/-- In every run of the server, suspended tasks are in calls or at their start. -/
theorem unstarted_of_run (listens : 0 < listenfd ∧ listenfd < maxFd)
    (run : ServerRun listenfd self clock past w) (accepts : Along (Accepts listenfd) past) :
    Unstarted w := by
  induction run with
  | start =>
    intro p alive away
    have other : p ≠ initTask := away
    simp [World.init, State.init, Function.update_of_ne other] at alive
  | move before taken ih =>
    obtain ⟨_, rest⟩ := along_cons.mp accepts
    exact (ih rest).step (sound_of_run listens before rest) (world_integrity before) taken

/-- A blocking call of a task fails in a move: its system call returns a negative number, or it
returns without one, since `epoll_ctl` does. -/
def CallFails (listenfd : Nat) (p : TaskPtr) (move : Move (World Place) Choice) : Prop :=
  move.before.thread.current = p ∧
    (∃ call fd, (server listenfd).action move.before.place = .io call fd) ∧
    (move.input = .answer .failed ∨
      (∀ answer, move.input ≠ .answer answer) ∧ move.after.thread.pc p = .user)

/-- An answer that fits its call leads to `exit` only if it is a negative number. -/
theorem answer_of_failed {place : Place} {answer : Answer} {call : Call} {fd fd' : Nat}
    (does : (server listenfd).action place = .io call fd) (fits : answer.fits call = true)
    (failed : (server listenfd).answered place answer = .failed fd') : answer = .failed := by
  cases place with
  | accepting =>
    cases does
    cases answer with
    | failed => rfl
    | accepted => cases failed
    | _ => cases fits
  | reading clifd buf =>
    cases does
    cases answer with
    | failed => rfl
    | data bytes =>
      refine absurd failed (Place.behindRead_rec (P := fun place => place ≠ .failed fd') ?_ ?_ ?_)
      · simp
      · simp
      · simp
    | _ => cases fits
  | writing clifd buf n =>
    cases does
    cases answer with
    | failed => rfl
    | wrote => cases failed
    | _ => cases fits
  | _ => cases does

/-- A creation does not lead to `exit`. -/
theorem created_ne_failed {place routine : Place}
    (does : (server listenfd).action place = .create routine) (id : Option Nat) (fd : Nat) :
    (server listenfd).created place id ≠ .failed fd := by
  rcases place_of_create does with ⟨rfl, _⟩ | ⟨clifd, rfl, _⟩
  · simp [server]
  · simp [server]

/-- Nothing is done before `exit`, neither in the own code nor in the library. -/
theorem Sound.notFailed (sound : Sound listenfd w) (inv : Integrity w.thread)
    (located : Located (server listenfd) w) (taken : w.step (server listenfd) choice = .ok w')
    (fd : Nat) : w.place ≠ .failed fd := by
  intro place
  by_cases user : w.thread.pc w.thread.current = .user
  · have failed : Failed w := ⟨user, fd, place⟩
    rcases failed.stops choice with stops | stops
    · cases stops.symm.trans taken
    · cases stops.symm.trans taken
  · obtain ⟨call, inside⟩ :=
      Option.ne_none_iff_exists'.mp (sound.calm _ inv.seated.alive user)
    have does := located _ inv.seated.alive _ inside
    rw [show w.places w.thread.current = .failed fd from place] at does
    exact (Pc.origin_calls inside).2.1 does.symm

/-- A task that is about to call `exit` has just made the call that has failed. -/
theorem fails_of_run (listens : 0 < listenfd ∧ listenfd < maxFd)
    (run : ServerRun listenfd self clock past w') (accepts : Along (Accepts listenfd) past)
    (failed : Failed w') : ∃ move ∈ past.head?, CallFails listenfd w'.thread.current move := by
  obtain ⟨user, fd, place⟩ := failed
  cases run with
  | start => cases place
  | @move past w _ choice before taken =>
    obtain ⟨_, rest⟩ := along_cons.mp accepts
    have sound := sound_of_run listens before rest
    have inv := world_integrity before
    have alive := inv.seated.alive
    have located := located_of_run before
    have stepped := world_thread taken
    have kind := world_cases taken
    have notFailed := sound.notFailed inv located taken fd
    refine ⟨_, rfl, ?_⟩
    rcases (w.input (server listenfd) choice).switches with ⟨rounds, switches⟩ | other
    · -- whom a switch leads to is in a call or at its start
      rw [switches] at stepped
      obtain ⟨behind, pc, control, live, _⟩ := step_switch_frame inv stepped
      rw [World.place, kind.switched pc] at place
      rw [control] at user
      by_cases own : w'.thread.current = w.thread.current
      · rw [own] at place
        exact absurd place notFailed
      · rw [Function.update_of_ne own] at user
        have next := live ▸ (inv.step stepped).seated.alive
        have starts := unstarted_of_run listens before rest _ next own user
        rw [place] at starts
        cases starts
    · rw [World.place, (step_cases stepped).2.current other] at place
      rw [(step_cases stepped).2.current other] at user ⊢
      cases kind with
      | creates granted thread routine id _ does =>
        have there : (w.spawn thread ((server listenfd).created w.place (some id))
            routine).places w.thread.current = (server listenfd).created w.place (some id) := by
          simp [World.spawn, Function.update_of_ne (inv.notFresh alive)]
        exact absurd (there.symm.trans place) (created_ne_failed does _ fd)
      | full granted thread routine _ does =>
        rw [World.become_places] at place
        exact absurd place (created_ne_failed does _ fd)
      | joins granted thread cid _ does => exact absurd does ((action_lasts _).1 cid)
      | sleeps granted thread seconds _ does => exact absurd does ((action_lasts _).2 seconds)
      | refused granted thread call fd' _ does returned =>
        exact ⟨rfl, ⟨call, fd', does⟩, .inr ⟨by simp, returned⟩⟩
      | answers answer thread call fd' pc fits =>
        rw [World.become_places] at place
        have does := located _ alive _ (by rw [pc]; rfl)
        exact ⟨rfl, ⟨call, fd', does⟩, .inl (by rw [answer_of_failed does fits place])⟩
      | fails i thread call fd' pc returned =>
        have does := located _ alive _ (by rw [pc]; rfl)
        exact ⟨rfl, ⟨call, fd', does⟩, .inr ⟨by simp, returned⟩⟩
      | calls | loops | returns | library => exact absurd place notFailed

/-! ## Where the server stops -/

/-- A coroutine that returns is one of a connection. -/
theorem closed_of_ret {place : Place} (does : (server listenfd).action place = .ret) :
    ∃ clifd, place = .closed clifd := by
  cases place with
  | closed clifd => exact ⟨clifd, rfl⟩
  | _ => cases does

/-- `exit` is called behind a call that has failed. -/
theorem failed_of_exit {place : Place} (does : (server listenfd).action place = .exit) :
    ∃ fd, place = .failed fd := by
  cases place with
  | failed fd => exact ⟨fd, rfl⟩
  | _ => cases does

/-- An array is left at one place only. -/
theorem outside_of_overrun {place : Place} (does : (server listenfd).action place = .overrun) :
    ∃ clifd, place = .outside clifd := by
  cases place with
  | outside clifd => exact ⟨clifd, rfl⟩
  | _ => cases does

/-- The server does not return from `main`, so that only a failing `epoll_wait` ends the process
in the library. -/
theorem Sound.exits (sound : Sound listenfd w) (inv : Integrity w.thread)
    (strays : ¬(w.thread.pc w.thread.current = .user ∧ ∃ i, choice = .library i))
    (exits : Exits w.thread (w.input (server listenfd) choice)) :
    choice = .library (.ready none) ∧ w.thread.pc w.thread.current = .epollWait := by
  rcases exits with ⟨ret, user, initial⟩ | ⟨fails, there⟩
  · have main : w.place.fd listenfd = none := (sound.mains _ inv.seated.alive).mpr initial
    cases choice with
    | own granted =>
      have does : (server listenfd).action w.place = .ret :=
        World.input_origin (by rw [ret]; rfl)
      obtain ⟨clifd, place⟩ := closed_of_ret does
      rw [place] at main
      cases main
    | answer => cases ret
    | library i => exact absurd ⟨user, i, rfl⟩ strays
  · exact ⟨World.chosen_of_input fails rfl (by simp), there⟩

/-- Provided that `accept` returns unused numbers, `read` no more than it was asked for, and handled
events contain the awaited bit, in no interleaving does the echo server access a null or freed
task, leave an array of the library or the buffer of a coroutine, or come to a standstill. What
stops it is `exit`, called by a task behind a failed call of its own, or by the event loop because
`epoll_wait` has failed. -/
theorem echo_server_stays_in_memory (listens : 0 < listenfd ∧ listenfd < maxFd)
    (run : ServerRun listenfd self clock past w) (accepts : Along (Accepts listenfd) past)
    (reads : Along Reads past) (delivers : Along (Delivers listenfd) past)
    {choice : Choice} {stop : Stop} (followed : choice ≠ .library (.pick 0))
    (stopped : w.step (server listenfd) choice = .error stop) :
    stop = .exited ∧
        (Failed w ∧ (∃ move ∈ past.head?, CallFails listenfd w.thread.current move) ∨
          choice = .library (.ready none) ∧ w.thread.pc w.thread.current = .epollWait) ∨
      stop = .disabled := by
  have sound := sound_of_run listens run accepts
  have inv := world_integrity run
  obtain ⟨owner, agrees⟩ := sound.agrees
  rcases careful_of_run listens run accepts delivers agrees with careful | failed
  case inr =>
    rcases failed.stops choice with stops | stops
    · cases stops.symm.trans stopped
      exact .inl ⟨rfl, .inl ⟨failed, fails_of_run listens run accepts failed⟩⟩
    · cases stops.symm.trans stopped
      exact .inr rfl
  rcases stepBy_stops stopped with failed | disabled | ⟨user, ⟨exited, does⟩ | ⟨_, does⟩⟩
  case inr.inl => exact .inr disabled
  case inr.inr.inl =>
    have failed : Failed w := ⟨user, failed_of_exit does⟩
    exact .inl ⟨exited, .inl ⟨failed, fails_of_run listens run accepts failed⟩⟩
  case inr.inr.inr =>
    have buffered : w.place.Buffered := buffered_of_run run reads inv.seated.alive
    obtain ⟨clifd, place⟩ := outside_of_overrun does
    rw [place] at buffered
    exact buffered.elim
  by_cases strays : w.thread.pc w.thread.current = .user ∧ ∃ i, choice = .library i
  · obtain ⟨user, i, rfl⟩ := strays
    simp only [World.step, World.stepBy, user, Except.error.injEq] at stopped
    exact .inr stopped.symm
  have passes (user : w.thread.pc w.thread.current = .user) (fd : Nat)
      (passed : fd ∈ (w.input (server listenfd) choice).descriptor) :
      0 < fd ∧ fd < maxFd ∧ owner fd = w.thread.current := by
    have uses : w.place.fd listenfd = some fd := by
      cases choice with
      | own granted =>
        unfold World.input at passed
        cases does : (server listenfd).action w.place with
        | io call fd' =>
          simp only [does] at passed
          cases passed
          exact fd_of_action does
        | _ => simp [does, Input.descriptor] at passed
      | answer => cases passed
      | library i => exact absurd ⟨user, i, rfl⟩ strays
    obtain ⟨positive, small⟩ := sound.bounded _ fd inv.seated.alive uses
    exact ⟨positive, small, agrees _ fd inv.seated.alive uses⟩
  rcases stop_of_run (thread_of_run run) careful (joins_apart run) passes failed with
    ⟨exited, exits⟩ | disabled | ⟨rfl, rounds, switches⟩
  · exact .inl ⟨exited, .inr (sound.exits inv strays exits)⟩
  · exact .inr disabled
  · have chosen : choice = .library (.pick rounds) :=
      World.chosen_of_input switches rfl (by simp)
    rw [switches] at failed
    obtain ⟨behind, pc⟩ : ∃ behind, w.thread.pc w.thread.current = .schedule behind := by
      cases step_stops failed with
      | switches behind _ _ pc => exact ⟨behind, pc⟩
    -- `main` is running, so that a round finds a task
    obtain ⟨rounds, rfl⟩ := Nat.exists_eq_succ_of_ne_zero fun zero : rounds = 0 =>
      followed (zero ▸ chosen)
    obtain ⟨_, returns⟩ :=
      schedule_returns inv inv.rootLive (main_runs listens run accepts) pc rounds
    cases returns.symm.trans failed

/-- The event for the client is handled without an access to null. -/
theorem echo_server_stays_in_memory_oneClient :
    (replayWorld 3 (server 3) .listening oneClient).step (server 3) (.library .run) ≠
      .error (.fault .null) := by
  have run := run_of_replayWorld 3 (server 3) .listening oneClient (by decide) (by decide)
    (by decide +kernel)
  have accepts : Along (Accepts 3) (replayWorldMoves 3 (server 3) .listening oneClient) :=
    accepts_of_replay 3 oneClient (by decide) (by decide) (by decide +kernel) (by decide +kernel)
  have reads : Along Reads (replayWorldMoves 3 (server 3) .listening oneClient) := by
    unfold Along Reads
    decide +kernel
  have delivers : Along (Delivers 3) (replayWorldMoves 3 (server 3) .listening oneClient) := by
    unfold Along Delivers
    decide +kernel
  intro stopped
  rcases echo_server_stays_in_memory (by decide) run accepts reads delivers (by simp) stopped with
    ⟨exited, _⟩ | disabled
  · cases exited
  · cases disabled

end LibcoLite.Demo03
