import LibcoLite.Agreement
import LibcoLite.Echo
import LibcoLite.Safety

/-!
# Connections that are served

Whenever the event loop of the echo server polls, every accepted connection whose coroutine has
not finished is heard: its coroutine has run, is queued on the descriptor, and waits for a bit
that the kernel's entry asks for. This takes that coroutines which were created run before the next
poll, which the order of the slots gives, and that the masks of a descriptor agree, which
they do because every coroutine reads before it writes. It also takes that every connection gets
a coroutine: no slot is ever given back, but the descriptors run out before the slots.
-/

namespace LibcoLite.Demo03

open Cycle
open Transition (Along Move along_cons along_view)

variable {listenfd : Nat} {self : EnvPtr} {clock : Nat → Nat} {past : WorldHistory Place}
  {w w' : World Place} {choice : Choice} {fd : Nat} {rest : List UInt8} {p : TaskPtr}

/-! ## Turns -/

/-- The task of `my_accept`. -/
def Place.acceptor : Place → Bool
  | .accepting => true
  | .accepted _ => true
  | _ => false

/-- Where the coroutines are in the table, and that those of connections which have not run yet
come before `main`. -/
structure Turns (w : World Place) : Prop where
  /-- The acceptor has slot one. -/
  second : ∀ p, w.thread.live p = true → (w.places p).acceptor = true →
    (w.thread.tasks p).id = 1
  /-- A coroutine that has not run since it was created is running and comes before `main`. -/
  turn : ∀ p, w.thread.live p = true → p ≠ w.thread.current → w.thread.pc p = .user →
    (w.places p).unsent ≠ none → (w.thread.tasks p).status = .running ∧
      w.thread.current ≠ initTask ∧
      ahead nrTasks (w.thread.tasks w.thread.current).id (w.thread.tasks p).id <
        ahead nrTasks (w.thread.tasks w.thread.current).id 0

/-- At the start there is no coroutine. -/
theorem Turns.init (self : EnvPtr) (clock : Nat → Nat) :
    Turns (World.init self clock .listening) where
  second _ _ accepts := by cases accepts
  turn _ _ _ _ serves := absurd rfl serves

/-- Behind `co_read` a coroutine is none. -/
@[simp]
theorem Place.behindRead_acceptor (clifd : Nat) (buf bytes : List UInt8) :
    (behindRead clifd buf bytes).acceptor = false :=
  behindRead_rec (P := fun place => place.acceptor = false) (fun _ => rfl) (fun _ => rfl)
    fun _ => rfl

/-- Only a task of `my_accept` is one behind a step, or the task `main` has created. -/
theorem acceptor_step (kind : WorldCases (server listenfd) w choice w') (inv : Integrity w.thread)
    (alive : w.thread.live p = true) (accepts : (w'.places p).acceptor = true) :
    (w.places p).acceptor = true := by
  rcases kind.place inv alive with
    same | ⟨rfl, ⟨_, id, does, leads⟩ | leads | ⟨answer, leads, _⟩⟩
  · exact same ▸ accepts
  · rw [leads] at accepts
    show w.place.acceptor = true
    rcases place_of_create does with ⟨place, _⟩ | ⟨clifd, place, _⟩
    · rw [place] at accepts
      cases accepts
    · rw [place]
      rfl
  · rw [leads] at accepts
    exact accepts
  · rw [leads] at accepts
    show w.place.acceptor = true
    cases place : w.place with
    | reading clifd buf =>
      rw [place] at accepts
      cases answer with
      | data bytes => cases (Place.behindRead_acceptor clifd buf bytes).symm.trans accepts
      | _ => cases accepts
    | writing clifd buf n =>
      rw [place] at accepts
      cases answer <;> cases accepts
    | accepting => rfl
    | accepted => rfl
    | _ =>
      rw [place] at accepts
      cases accepts

/-- The slot of a new task: slot one if `main` created it, and a higher one if it serves a
connection. -/
theorem slot_of_created (turns : Turns w) (sound : Sound listenfd w) (inv : Integrity w.thread)
    (kind : WorldCases (server listenfd) w choice w')
    (taken : LibcoLite.step w.thread (w.input (server listenfd) choice) = .ok w'.thread)
    (alive : w'.thread.live p = true) (before : w.thread.live p = false) :
    (w'.thread.tasks p).status = .running ∧
    (w'.places p = .accepting ∧ (w'.thread.tasks p).id = 1 ∨
      (∃ clifd, w'.places p = .reading clifd emptyBuf) ∧ w.place.acceptor = true ∧
        1 < (w'.thread.tasks p).id) := by
  obtain ⟨running, free, lowest⟩ := step_created inv taken alive before
  have notRoot : (w'.thread.tasks p).id ≠ 0 := by
    intro zero
    rw [zero, inv.root] at free
    cases free
  obtain ⟨_, routine, does, there, _⟩ := kind.spawned inv taken alive before
  refine ⟨running, ?_⟩
  rcases place_of_create does with ⟨place, rfl⟩ | ⟨clifd, place, rfl⟩
  · -- `main` is alone, so that slot one is free
    refine .inl ⟨there, ?_⟩
    apply Classical.byContradiction
    intro other
    have occupied := lowest 1 (by omega)
    cases slot : w.thread.task 1 with
    | none => exact occupied slot
    | some q =>
      obtain ⟨_, live, number, _⟩ := inv.slots 1 q slot
      have main : w.thread.current = initTask := by
        apply (sound.mains _ inv.seated.alive).mp
        show w.place.fd listenfd = none
        rw [place]
        rfl
      have alone := sound.first q live (main ▸ place)
      rw [alone, (inv.slots 0 initTask inv.root).2.2.1] at number
      cases number
  · have accepts : w.place.acceptor = true := by
      rw [place]
      rfl
    have second := turns.second _ inv.seated.alive accepts
    have notSecond : (w'.thread.tasks p).id ≠ 1 := by
      intro one
      have held := inv.housed _ inv.seated.alive
      rw [second, ← one, free] at held
      cases held
    exact .inr ⟨⟨clifd, there⟩, accepts, by omega⟩

/-- A switch keeps the turns. -/
theorem Turns.switch (turns : Turns w) (sound : Sound listenfd w) (inv : Integrity w.thread)
    {s' : State} {rounds : Nat} (taken : step w.thread (.pick rounds) = .ok s')
    (alive : w.thread.live p = true) (away : p ≠ s'.current) (user : s'.pc p = .user)
    (serves : (w.places p).unsent ≠ none) :
    (s'.tasks p).status = .running ∧ s'.current ≠ initTask ∧
      ahead nrTasks (s'.tasks s'.current).id (s'.tasks p).id <
        ahead nrTasks (s'.tasks s'.current).id 0 := by
  obtain ⟨behind, pc, control, live, _⟩ := step_switch_frame inv taken
  have other : p ≠ w.thread.current := by
    rintro rfl
    rw [control, Function.update_self] at user
    apply sound.calm _ alive (by simp [pc])
    rw [pc, user]
    rfl
  rw [control, Function.update_of_ne other] at user
  obtain ⟨running, _, before⟩ := turns.turn p alive other user serves
  have stays : (s'.tasks p).status = .running :=
    step_stays_running inv taken alive running (by rw [user]; rfl) fun own => absurd own.symm other
  have nearer := step_nearer inv taken alive stays (Ne.symm away)
  have inv' := inv.step taken
  have bound := (inv'.slots _ _ (inv'.housed p (live ▸ alive))).1
  rw [← step_id inv taken alive] at before
  have further := ahead_turn inv.seated.bound inv'.seated.bound bound (by decide) nearer before
  refine ⟨stays, ?_, further⟩
  intro main
  have number := (inv'.slots 0 initTask inv'.root).2.2.1
  rw [← main] at number
  rw [number] at nearer
  omega

/-- Every step of the server keeps the turns. -/
theorem Turns.step (turns : Turns w) (sound : Sound listenfd w) (inv : Integrity w.thread)
    (taken : w.step (server listenfd) choice = .ok w') : Turns w' := by
  have stepped := world_thread taken
  have kind := world_cases taken
  constructor
  · intro p alive accepts
    cases old : w.thread.live p with
    | true =>
      rw [step_id inv stepped old]
      exact turns.second p old (acceptor_step kind inv old accepts)
    | false =>
      rcases (slot_of_created turns sound inv kind stepped alive old).2 with
        ⟨_, second⟩ | ⟨⟨_, serves⟩, _⟩
      · exact second
      · rw [serves] at accepts
        cases accepts
  · intro p alive away user serves
    rcases (w.input (server listenfd) choice).switches with ⟨rounds, switches⟩ | other
    · rw [switches] at stepped
      obtain ⟨behind, pc, _, live, _⟩ := step_switch_frame inv stepped
      rw [kind.switched pc] at serves
      exact turns.switch sound inv stepped (live ▸ alive) away user serves
    have current := (step_cases stepped).2.current other
    rw [current] at away ⊢
    rw [step_id inv stepped inv.seated.alive]
    cases old : w.thread.live p with
    | true =>
      rcases step_others inv stepped other away alive with ⟨dead, _⟩ | ⟨_, same, _⟩
      · cases dead.symm.trans old
      rw [same] at user
      rw [kind.other away (inv.notFresh old)] at serves
      obtain ⟨running, notMain, before⟩ := turns.turn p old away user serves
      refine ⟨?_, notMain, by rwa [step_id inv stepped old]⟩
      exact step_stays_running inv stepped old running (by rw [user]; rfl)
        fun own => absurd own.symm away
    | false =>
      obtain ⟨running, slot⟩ := slot_of_created turns sound inv kind stepped alive old
      rcases slot with ⟨place, _⟩ | ⟨_, accepts, higher⟩
      · rw [place] at serves
        exact absurd rfl serves
      have second := turns.second _ inv.seated.alive accepts
      have bound := ((inv.step stepped).slots _ p ((inv.step stepped).housed p alive)).1
      refine ⟨running, ?_, ?_⟩
      · intro main
        have number := (inv.slots 0 initTask inv.root).2.2.1
        rw [← main, second] at number
        cases number
      · rw [second]
        unfold ahead
        split <;> split <;> omega

/-! ## Masks -/

/-- A coroutine that is to write, and one that is before its system call, has a record of the
descriptor. -/
structure Recorded (w : World Place) : Prop where
  /-- It reads first. -/
  writing : ∀ p fd buf n, w.thread.live p = true → w.places p = .writing fd buf n →
    ((w.thread.tasks p).events fd).dataFd ≠ 0
  /-- It has registered. -/
  calling : ∀ p call fd, w.thread.live p = true → w.thread.pc p = .syscall call fd →
    ((w.thread.tasks p).events fd).dataFd ≠ 0

/-- At the start nobody is to write. -/
theorem Recorded.init (self : EnvPtr) (clock : Nat → Nat) :
    Recorded (World.init self clock .listening) where
  writing _ _ _ _ _ place := by cases place
  calling _ _ _ _ pc := by cases pc

/-- Only an answer to a read brings a coroutine to `co_write`. -/
theorem writing_step (kind : WorldCases (server listenfd) w choice w') (inv : Integrity w.thread)
    (located : Located (server listenfd) w) {buf : List UInt8} {n : Nat}
    (alive : w.thread.live p = true) (writes : w'.places p = .writing fd buf n) :
    w.places p = .writing fd buf n ∨
      p = w.thread.current ∧ w.thread.pc p = .syscall .read fd := by
  rcases kind.place inv alive with
    same | ⟨rfl, ⟨_, id, does, leads⟩ | leads | ⟨answer, leads, given⟩⟩
  · exact .inl (same.symm.trans writes)
  · rw [leads] at writes
    rcases place_of_create does with ⟨place, _⟩ | ⟨clifd, place, _⟩
    · rw [place] at writes
      cases writes
    · rw [place] at writes
      cases writes
  · exact .inl (leads.symm.trans writes)
  · right
    refine ⟨rfl, ?_⟩
    rw [leads] at writes
    cases place : w.place with
    | reading clifd buf' =>
      rw [place] at writes
      cases answer with
      | data bytes =>
        rcases given with failed | given
        · cases failed
        subst given
        cases kind with
        | answers _ thread call fd' pc =>
          have does := located _ alive _ (by rw [pc]; rfl)
          change (server listenfd).action w.place = _ at does
          rw [place] at does
          cases does
          have same := Place.behindRead_fd listenfd clifd buf' bytes
          rw [show Place.behindRead clifd buf' bytes = _ from writes] at same
          cases same
          exact pc
      | _ => cases writes
    | writing clifd buf n =>
      rw [place] at writes
      cases answer <;> cases writes
    | accepting =>
      rw [place] at writes
      cases answer <;> cases writes
    | _ =>
      rw [place] at writes
      cases writes

/-- Every step of the server keeps the records. -/
theorem Recorded.step (recorded : Recorded w) (sound : Sound listenfd w) (inv : Integrity w.thread)
    (located : Located (server listenfd) w) (named : Named w.thread)
    (suspended : Suspended w.thread)
    (taken : w.step (server listenfd) choice = .ok w') : Recorded w' := by
  have stepped := world_thread taken
  have kind := world_cases taken
  constructor
  · intro p fd buf n alive writes
    cases old : w.thread.live p with
    | true =>
      rcases writing_step kind inv located old writes with before | ⟨_, pc⟩
      · exact step_seen inv named stepped old (recorded.writing p fd buf n old before)
      · exact step_seen inv named stepped old (recorded.calling p .read fd old pc)
    | false =>
      obtain ⟨_, routine, does, there, _⟩ := kind.spawned inv stepped alive old
      rw [there] at writes
      rcases place_of_create does with ⟨_, rfl⟩ | ⟨_, _, rfl⟩
      · cases writes
      · cases writes
  · intro p call fd alive pc
    rcases (w.input (server listenfd) choice).switches with ⟨rounds, switches⟩ | other
    · -- no task stops before its system call
      rw [switches] at stepped
      obtain ⟨behind, there, control, live, _⟩ := step_switch_frame inv stepped
      rw [control] at pc
      by_cases own : p = w.thread.current
      · rw [own, Function.update_self] at pc
        have resumes := suspended.behind behind there
        rw [pc] at resumes
        exact resumes.elim
      · rw [Function.update_of_ne own] at pc
        have rests := suspended.others p (live ▸ alive) own
        rw [pc] at rests
        exact rests.elim
    · by_cases own : p = w.thread.current
      · subst own
        obtain ⟨waits, _⟩ := step_through inv stepped other pc
        have does := located _ inv.seated.alive _ (by rw [waits]; rfl)
        have positive := (sound.bounded _ fd inv.seated.alive (fd_of_action does)).1
        have name := named.waits _ call fd inv.seated.alive (by rw [waits]; rfl)
        exact step_seen inv named stepped inv.seated.alive (by omega)
      · rcases step_others inv stepped other own alive with ⟨_, user⟩ | ⟨old, same, _⟩
        · cases user.symm.trans pc
        · have rests := suspended.others p old own
          rw [← same, pc] at rests
          exact rests.elim

/-- In every run of the server coroutines take turns, and read before they write. -/
theorem turns_of_run (listens : 0 < listenfd ∧ listenfd < maxFd)
    (run : ServerRun listenfd self clock past w) (accepts : Along (Accepts listenfd) past) :
    Turns w ∧ Recorded w := by
  induction run with
  | start => exact ⟨.init self clock, .init self clock⟩
  | move before taken ih =>
    obtain ⟨_, rest⟩ := along_cons.mp accepts
    obtain ⟨turns, recorded⟩ := ih rest
    have sound := sound_of_run listens before rest
    have inv := world_integrity before
    have thread := thread_of_run before
    exact ⟨turns.step sound inv taken, recorded.step sound inv (located_of_run before)
      (named_of_run thread) (suspended_of_run thread) taken⟩

/-- In a run in which a descriptor is the user's alone, its calls succeed and the first one is not
a `co_write`, the masks of the descriptor agree. -/
theorem settled_of_run {past : History} {s : State} {user : TaskPtr}
    (run : ThreadRun self clock past s) (undivided : Along (Undivided user fd) past)
    (starts : Along (fun move => ¬FirstWrite user fd move) past) (engaged : Engaged user fd s) :
    Settled user fd s := by
  induction run with
  | start =>
    apply absurd _ engaged.seen
    rw [init_record]
  | move before taken ih =>
    obtain ⟨last, rest⟩ := along_cons.mp undivided
    obtain ⟨notFirst, earlier⟩ := along_cons.mp starts
    exact Settled.step (ih rest earlier) (integrity_of_run before) (masked_of_run before)
      (private_of_run before (rest.mono fun move of => of.used)) last notFirst taken engaged

/-- The coroutines of a careful run of the server do not share their descriptors. -/
theorem undivided_of_run (run : ServerRun listenfd self clock past w) {owner : Nat → TaskPtr}
    (careful : Along (Careful owner initTask) (past.map (threadMove (server listenfd))))
    (own : owner fd = p) : Along (Undivided p fd) (past.map (threadMove (server listenfd))) := by
  rw [along_view] at careful ⊢
  intro move member
  obtain ⟨earlier, before, taken⟩ := run.taken member
  have stepped := world_thread taken
  have keeps := careful move member
  constructor
  · intro call granted input
    exact (keeps.owned fd (by rw [input]; rfl)).2.2.symm.trans own
  · exact World.never_closes taken fd
  · intro call granted input
    have goesOn := keeps.succeeds (.inl (by rw [input]; simp [Input.descriptor]))
    change move.after.thread.pc move.before.thread.current ≠ .user at goesOn
    change move.before.input (server listenfd) move.input = _ at input
    rw [input] at stepped
    exact waits_of_io stepped goesOn
  · intro waits
    exact keeps.succeeds (.inr (by rw [waits]; simp [Pc.waiting]))

/-- A write is made with the bytes that were read. -/
theorem writing_of_action {place : Place}
    (does : (server listenfd).action place = .io .write fd) :
    ∃ buf n, place = .writing fd buf n := by
  cases place with
  | writing clifd buf n => cases does; exact ⟨buf, n, rfl⟩
  | _ => cases does

/-- No coroutine of the server registers a descriptor by a write. -/
theorem starts_of_run (listens : 0 < listenfd ∧ listenfd < maxFd)
    (run : ServerRun listenfd self clock past w) (accepts : Along (Accepts listenfd) past)
    {owner : Nat → TaskPtr}
    (careful : Along (Careful owner initTask) (past.map (threadMove (server listenfd))))
    (own : owner fd = p) :
    Along (fun move => ¬FirstWrite p fd move) (past.map (threadMove (server listenfd))) := by
  induction run with
  | start => simp [Along]
  | move before taken ih =>
    obtain ⟨_, rest⟩ := along_cons.mp accepts
    obtain ⟨last, earlier⟩ := along_cons.mp careful
    refine along_cons.mpr ⟨?_, ih rest earlier⟩
    rintro ⟨⟨granted, input⟩, first⟩
    have inv := world_integrity before
    have mine := (last.owned fd (by rw [input]; rfl)).2.2.symm.trans own
    have stepped := world_thread taken
    have user := step_calls stepped (by rw [show World.input _ _ _ = _ from input]; rfl)
    have does := World.origin_own taken user (by rw [show World.input _ _ _ = _ from input]; rfl)
    obtain ⟨buf, n, place⟩ := writing_of_action does
    subst mine
    exact (turns_of_run listens before rest).2.writing _ fd buf n inv.seated.alive place first

/-! ## Connections -/

/-- The connection a move accepts. -/
def connection (move : Move (World Place) Choice) : Option Nat :=
  match move.before.thread.pc move.before.thread.current, move.input with
  | .syscall .accept _, .answer (.accepted clifd) => some clifd
  | _, _ => none

/-- The connections accepted along a history, latest first. -/
def connections (past : WorldHistory Place) : List Nat := past.filterMap connection

/-- The descriptor of the task in a slot, zero if there is none. -/
def slotFd (listenfd : Nat) (w : World Place) (i : Nat) : Nat :=
  ((w.thread.task i).bind fun p => (w.places p).fd listenfd).getD 0

/-- The slots of the tasks have different descriptors, slot zero without a descriptor included,
so that no more slots are occupied than there are descriptors. -/
theorem occupied_few (sound : Sound listenfd w) (inv : Integrity w.thread) :
    (occupied w.thread.task).card ≤ maxFd := by
  have holds {i : Nat} (member : i ∈ occupied w.thread.task) : ∃ p, w.thread.live p = true ∧
      (w.thread.tasks p).id = i ∧ (slotFd listenfd w i = 0 ∧ p = initTask ∨
        (w.places p).fd listenfd = some (slotFd listenfd w i) ∧ 0 < slotFd listenfd w i ∧
          slotFd listenfd w i < maxFd) := by
    obtain ⟨_, held⟩ := mem_occupied.mp member
    cases slot : w.thread.task i with
    | none => exact absurd slot held
    | some p =>
      obtain ⟨_, alive, number, _⟩ := inv.slots i p slot
      refine ⟨p, alive, number, ?_⟩
      cases uses : (w.places p).fd listenfd with
      | none => exact .inl ⟨by simp [slotFd, slot, uses], (sound.mains p alive).mp uses⟩
      | some fd =>
        have same : slotFd listenfd w i = fd := by simp [slotFd, slot, uses]
        rw [same]
        exact .inr ⟨rfl, sound.bounded p fd alive uses⟩
  have few := Finset.card_le_card_of_injOn (s := occupied w.thread.task) (t := Finset.range maxFd)
    (slotFd listenfd w) ?_ ?_
  · rwa [Finset.card_range] at few
  · intro i member
    obtain ⟨p, _, _, ⟨zero, _⟩ | ⟨_, _, small⟩⟩ := holds member
    · simp [zero, maxFd]
    · simpa using small
  · intro i member k member' same
    obtain ⟨p, alive, number, one⟩ := holds member
    obtain ⟨q, alive', number', other⟩ := holds member'
    have equal : p = q := by
      rcases one with ⟨zero, root⟩ | ⟨uses, positive, _⟩ <;>
        rcases other with ⟨zero', root'⟩ | ⟨uses', positive', _⟩
      · exact root.trans root'.symm
      · omega
      · omega
      · exact sound.apart p q alive alive' (by rw [uses, uses', same])
    rw [← number, ← number', equal]

/-- So `co_create` always finds a slot for the server. -/
theorem created_of_create (sound : Sound listenfd w) (inv : Integrity w.thread) {cid : Option Int}
    {s' : State} (taken : LibcoLite.step w.thread (.create cid) = .ok s') :
    s'.live w.thread.fresh = true := by
  obtain ⟨_, kind⟩ := step_cases taken
  cases kind with
  | create =>
    rcases coCreate_cases cid w.thread with ⟨id, _, _, _, made⟩ | ⟨full, _⟩
    · rw [made]
      exact Function.update_self ..
    · have few := occupied_few sound inv
      rw [occupied, Finset.filter_true_of_mem fun k member => full k (Finset.mem_range.mp member),
        Finset.card_range] at few
      exact absurd few (by decide)

/-- The connection of a coroutine. -/
def Place.client : Place → Option Nat
  | .reading clifd _ => some clifd
  | .writing clifd _ _ => some clifd
  | .closed clifd => some clifd
  | .outside clifd => some clifd
  | .failed fd => some fd
  | _ => none

/-- Behind `co_read` a coroutine is with its connection. -/
@[simp]
theorem Place.behindRead_client (clifd : Nat) (buf bytes : List UInt8) :
    (behindRead clifd buf bytes).client = some clifd :=
  behindRead_rec (P := fun place => place.client = some clifd) (fun _ => rfl) (fun _ => rfl)
    fun _ => rfl

/-- A coroutine serves its connection until a call has failed or its buffer was left. -/
theorem unsent_of_client {place : Place} (serves : place.client = some fd) :
    (∃ rest, place.unsent = some (fd, rest)) ∨ place = .failed fd ∨ place = .outside fd := by
  cases place with
  | reading | writing | closed => cases serves; exact .inl ⟨_, rfl⟩
  | failed => cases serves; exact .inr (.inl rfl)
  | outside => cases serves; exact .inr (.inr rfl)
  | _ => cases serves

/-- A coroutine stays with its connection. -/
theorem client_step (kind : WorldCases (server listenfd) w choice w') (inv : Integrity w.thread)
    (alive : w.thread.live p = true) (serves : (w.places p).client = some fd) :
    (w'.places p).client = some fd := by
  rcases kind.place inv alive with
    same | ⟨rfl, ⟨_, id, does, leads⟩ | leads | ⟨answer, leads, _⟩⟩
  · rw [same, serves]
  · change w.place.client = _ at serves
    rcases place_of_create does with ⟨place, _⟩ | ⟨_, place, _⟩
    · rw [place] at serves
      cases serves
    · rw [place] at serves
      cases serves
  · rw [leads]
    exact serves
  · rw [leads]
    change w.place.client = _ at serves
    cases place : w.place with
    | reading clifd buf =>
      rw [place] at serves
      cases serves
      cases answer with
      | data bytes => exact Place.behindRead_client fd buf bytes
      | _ => rfl
    | writing clifd buf n =>
      rw [place] at serves
      cases serves
      cases answer <;> rfl
    | accepting =>
      rw [place] at serves
      cases serves
    | _ =>
      rw [place] at serves
      exact serves

/-- A connection that was accepted: the acceptor is about to create its coroutine, or has. -/
def Attended (w : World Place) (fd : Nat) : Prop :=
  ∃ p, w.thread.live p = true ∧ (w.places p = .accepted fd ∨ (w.places p).client = some fd)

/-- No step of the server drops a connection. -/
theorem Attended.step (attended : Attended w fd) (sound : Sound listenfd w)
    (inv : Integrity w.thread) (taken : w.step (server listenfd) choice = .ok w') :
    Attended w' fd := by
  have stepped := world_thread taken
  have kind := world_cases taken
  obtain ⟨p, alive, pending | serves⟩ := attended
  case inr =>
    exact ⟨p, live_step sound inv stepped alive, .inr (client_step kind inv alive serves)⟩
  have alive' := live_step sound inv stepped alive
  by_cases own : p = w.thread.current
  case neg => exact ⟨p, alive', .inl ((kind.other own (inv.notFresh alive)).trans pending)⟩
  subst own
  change w.place = _ at pending
  cases choice with
  | own granted =>
    -- the coroutine is created
    have input : w.input (server listenfd) (.own granted) = .create (some 0) := by
      simp [World.input, pending, server]
    have made := created_of_create sound inv (input ▸ stepped)
    have new := Bool.eq_false_iff.mpr fun old => inv.notFresh old rfl
    obtain ⟨_, routine, does, there, _⟩ := kind.spawned inv stepped made new
    rw [pending] at does
    cases does
    exact ⟨_, made, .inr (by rw [there]; rfl)⟩
  | answer answer =>
    cases kind with
    | answers =>
      refine ⟨_, alive', .inl ?_⟩
      rw [World.become_places, pending]
      rfl
  | library i =>
    cases kind with
    | fails =>
      refine ⟨_, alive', .inl ?_⟩
      rw [World.become_places, pending]
      rfl
    | library => exact ⟨_, alive', .inl pending⟩

/-- A connection is accepted at `co_accept`, and behind it the coroutine is still to be created. -/
theorem Attended.accepted (inv : Integrity w.thread) (sound : Sound listenfd w)
    (located : Located (server listenfd) w) (taken : w.step (server listenfd) choice = .ok w')
    (accepts : connection ⟨w, choice, w'⟩ = some fd) : Attended w' fd := by
  have stepped := world_thread taken
  have alive := inv.seated.alive
  refine ⟨_, live_step sound inv stepped alive, .inl ?_⟩
  have kind := world_cases taken
  simp only [connection] at accepts
  split at accepts
  case h_2 => cases accepts
  case h_1 call fd' clifd pc =>
    cases accepts
    have does := located _ alive _ (by rw [pc]; rfl)
    change (server listenfd).action w.place = _ at does
    cases kind with
    | answers =>
      rw [World.become_places]
      cases place : w.place with
      | accepting => rfl
      | _ =>
        rw [place] at does
        cases does

/-- Every accepted connection is attended to. -/
theorem attended_of_run (listens : 0 < listenfd ∧ listenfd < maxFd)
    (run : ServerRun listenfd self clock past w) (accepts : Along (Accepts listenfd) past)
    (accepted : fd ∈ connections past) : Attended w fd := by
  induction run with
  | start => cases accepted
  | @move past w w' choice before taken ih =>
    obtain ⟨_, rest⟩ := along_cons.mp accepts
    have sound := sound_of_run listens before rest
    have inv := world_integrity before
    cases last : connection ⟨w, choice, w'⟩ with
    | none =>
      rw [connections, List.filterMap_cons_none last] at accepted
      exact (ih rest accepted).step sound inv taken
    | some clifd =>
      rw [connections, List.filterMap_cons_some last] at accepted
      rcases List.mem_cons.mp accepted with rfl | earlier
      · exact .accepted inv sound (located_of_run before) taken last
      · exact (ih rest earlier).step sound inv taken

/-! ## Polls -/

/-- A task waits in the queue of its descriptor for a bit that the kernel's entry asks for, so that
the event loop learns of it. -/
def Heard (listenfd : Nat) (w : World Place) (p : TaskPtr) (fd : Nat) : Prop :=
  ∃ call, (server listenfd).action (w.places p) = .io call fd ∧
    w.thread.links.first fd = some p ∧ Blocked w.thread p call fd ∧
    Covered w.thread.interest fd call.event

/-- Whenever the event loop of the server polls, every coroutine of a connection is heard or has
finished. -/
theorem heard_of_run (listens : 0 < listenfd ∧ listenfd < maxFd)
    (run : ServerRun listenfd self clock past w) (accepts : Along (Accepts listenfd) past)
    (delivers : Along (Delivers listenfd) past)
    (polls : w.thread.pc w.thread.current = .epollWait) (alive : w.thread.live p = true)
    (serves : (w.places p).unsent = some (fd, rest)) :
    Heard listenfd w p fd ∨ w.places p = .closed fd ∧ w.thread.pc p = .finished := by
  have sound := sound_of_run listens run accepts
  have inv := world_integrity run
  have thread := thread_of_run run
  have located := located_of_run run
  have uses : (w.places p).fd listenfd = some fd := fd_of_unsent serves
  obtain ⟨turns, _⟩ := turns_of_run listens run accepts
  obtain ⟨owner, agrees⟩ := sound.agrees
  have careful := (careful_of_run listens run accepts delivers agrees).resolve_right
    fun failed => by cases failed.1.symm.trans polls
  -- the event loop is in `main`, which serves no connection
  have main {q : TaskPtr} (live : w.thread.live q = true)
      (loops : w.thread.pc q = .epollWait) : q = initTask := by
    have does := located q live _ (by rw [loops]; rfl)
    apply (sound.mains q live).mp
    rw [place_of_eventloop does]
    rfl
  have notMain : p ≠ initTask := by
    intro root
    cases ((sound.mains p alive).mpr root).symm.trans uses
  have away : p ≠ w.thread.current := by
    rintro rfl
    exact notMain (main alive polls)
  have rests := (suspended_of_run thread).others p alive away
  cases pc : w.thread.pc p with
  | user =>
    obtain ⟨_, passed, _⟩ := turns.turn p alive away pc (by rw [serves]; simp)
    exact absurd (main inv.seated.alive polls) passed
  | wait call fd' =>
    left
    have does := located p alive _ (by rw [pc]; rfl)
    obtain rfl := Option.some.inj ((fd_of_action does).symm.trans uses)
    obtain ⟨queue, guarded⟩ := guarded_of_run thread careful
    have inside : (w.thread.pc p).waiting = some (call, fd') := by rw [pc]; rfl
    have queued := guarded.served.polled inv polls alive inside
    obtain ⟨_, call', blocked⟩ := guarded.queueing.members fd' p queued
    cases blocked.inside.symm.trans inside
    have own := agrees p fd' alive uses
    refine ⟨call, does, ?_, blocked, ?_⟩
    · -- nobody else is in the queue
      rw [guarded.queueing.spells.first_eq]
      cases shape : queue fd' with
      | nil => simp [shape] at queued
      | cons q behind =>
        have lead := guarded.sole.owned fd' q (by simp [shape])
        rw [List.head?_cons, ← lead, own]
    · have named := named_of_run thread
      have positive := (sound.bounded p fd' alive uses).1
      have name := named.waits p call fd' alive inside
      obtain ⟨⟨entry, present, same⟩, contains⟩ := settled_of_run thread
        (undivided_of_run run careful own) (starts_of_run listens run accepts careful own)
        ⟨alive, Pc.not_exiting_of_waiting inside, by omega⟩
      exact ⟨entry, present, by rw [same]; exact contains call inside⟩
  | epollWait => exact absurd (main alive pc) notMain
  | finished =>
    have does := located p alive _ (by rw [pc]; rfl)
    cases place : w.places p with
    | closed clifd =>
      rw [place] at serves
      cases serves
      exact .inr ⟨rfl, rfl⟩
    | _ =>
      rw [place] at does
      cases does
  | join cid => exact absurd (by rw [pc]; rfl) (sound.calm p alive (by simp [pc]))
  | _ =>
    rw [pc] at rests
    exact rests.elim

/-- Provided that `accept` returns unused numbers and handled events contain the awaited bit,
whenever the event loop of the server polls, every connection that was ever accepted has a
coroutine, which has run: it waits in the queue of the connection for a bit that the kernel's entry
asks for, so that the event loop learns of it, or the client has hung up and it has finished. -/
theorem echo_server_hears_every_connection (listens : 0 < listenfd ∧ listenfd < maxFd)
    (run : ServerRun listenfd self clock past w) (accepts : Along (Accepts listenfd) past)
    (delivers : Along (Delivers listenfd) past)
    (polls : w.thread.pc w.thread.current = .epollWait) (accepted : fd ∈ connections past) :
    ∃ p, w.thread.live p = true ∧ (w.places p).client = some fd ∧
      (Heard listenfd w p fd ∨ w.places p = .closed fd ∧ w.thread.pc p = .finished) := by
  have sound := sound_of_run listens run accepts
  have unstarted := unstarted_of_run listens run accepts
  have located := located_of_run run
  obtain ⟨p, alive, attended⟩ := attended_of_run listens run accepts accepted
  -- who is neither in a call nor at its start is running
  have inside (started : (w.places p).initial = false) :
      (∀ routine, (server listenfd).action (w.places p) ≠ .create routine) ∧
        (server listenfd).action (w.places p) ≠ .exit ∧
        (server listenfd).action (w.places p) ≠ .overrun := by
    have called : w.thread.pc p ≠ .user := by
      intro user
      have away : p ≠ w.thread.current := by
        rintro rfl
        cases user.symm.trans polls
      cases started.symm.trans (unstarted p alive away user)
    cases call : (w.thread.pc p).origin Place with
    | none => exact absurd call (sound.calm p alive called)
    | some call' =>
      rw [located p alive call' call]
      exact Pc.origin_calls call
  refine ⟨p, alive, ?_⟩
  rcases attended with pending | serves
  · rw [pending] at inside
    exact absurd rfl ((inside rfl).1 (.reading fd emptyBuf))
  · refine ⟨serves, ?_⟩
    rcases unsent_of_client serves with ⟨rest, unsent⟩ | failed | beyond
    · exact heard_of_run listens run accepts delivers polls alive unsent
    · rw [failed] at inside
      exact absurd rfl (inside rfl).2.1
    · rw [beyond] at inside
      exact absurd rfl (inside rfl).2.2

/-- A client has connected, and its coroutine waits for data. -/
def connected : List Choice := oneClient.dropLast

/-- The connection of the client has its coroutine. -/
theorem echo_server_hears_every_connection_connected :
    ∃ p, ((replayWorld 3 (server 3) .listening connected).places p).client = some 5 ∧
      (Heard 3 (replayWorld 3 (server 3) .listening connected) p 5 ∨
        (replayWorld 3 (server 3) .listening connected).thread.pc p = .finished) := by
  have run := run_of_replayWorld 3 (server 3) .listening connected (by decide) (by decide)
    (by decide +kernel)
  have accepts : Along (Accepts 3) (replayWorldMoves 3 (server 3) .listening connected) :=
    accepts_of_replay 3 connected (by decide) (by decide) (by decide +kernel) (by decide +kernel)
  have delivers : Along (Delivers 3) (replayWorldMoves 3 (server 3) .listening connected) := by
    unfold Along Delivers
    decide +kernel
  have accepted : 5 ∈ connections (replayWorldMoves 3 (server 3) .listening connected) := by
    decide +kernel
  obtain ⟨p, _, serves, heard⟩ := echo_server_hears_every_connection (by decide) run accepts
    delivers (by decide +kernel) accepted
  exact ⟨p, serves, heard.imp_right And.right⟩

end LibcoLite.Demo03
