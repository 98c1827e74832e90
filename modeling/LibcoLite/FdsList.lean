import LibcoLite.Descriptor
import LibcoLite.Replay

/-!
# The list of recorded descriptors

A task appends a descriptor to its list when its record of the descriptor still has the
value `calloc` left there, and nothing but this value keeps a descriptor from being appended
again. Descriptor 0 leaves the value as it is. The list stays free of duplicates, and with it
inside its array, exactly as long as no task makes a second blocking call on descriptor 0.
-/

namespace LibcoLite

open Transition (Along Throughout Run)

/-- The recorded descriptors in the order of registration. -/
def TaskStruct.recorded (tsk : TaskStruct) : List Nat :=
  (List.range tsk.fdsIdx).map tsk.fds

/-- There is one recorded descriptor for each step of the index. -/
@[simp]
theorem TaskStruct.length_recorded (tsk : TaskStruct) : tsk.recorded.length = tsk.fdsIdx := by
  simp [TaskStruct.recorded]

/-- The records determine the list. -/
theorem TaskStruct.SameRecords.recorded {after before : TaskStruct}
    (same : after.SameRecords before) : after.recorded = before.recorded := by
  simp only [TaskStruct.recorded, same.2.1, same.2.2]

/-- A first registration appends its descriptor. -/
theorem TaskStruct.recorded_record (fd : Nat) (tsk : TaskStruct) :
    (tsk.record fd).recorded = tsk.recorded ++ [fd] := by
  have earlier : (List.range tsk.fdsIdx).map (Function.update tsk.fds tsk.fdsIdx fd) =
      (List.range tsk.fdsIdx).map tsk.fds := by
    apply List.map_congr_left
    intro k member
    have below : k < tsk.fdsIdx := List.mem_range.mp member
    exact Function.update_of_ne (by omega) _ _
  simp [TaskStruct.recorded, TaskStruct.record, List.range_succ, earlier]

/-- Taking back a descriptor drops the last one. -/
theorem TaskStruct.recorded_dropLast (tsk : TaskStruct) :
    { tsk with fdsIdx := tsk.fdsIdx - 1 }.recorded = tsk.recorded.dropLast := by
  simp only [TaskStruct.recorded, List.dropLast_eq_take, List.length_map, List.length_range,
    ← List.map_take, List.take_range]
  rw [Nat.min_eq_left (Nat.sub_le _ _)]

variable {s s' : State} {i : Input}

/-- Registering appends a descriptor without a record, and leaves the list otherwise. -/
theorem Registers.appends {fd : Nat} {events : Mask} {granted : Bool} {tsk : TaskStruct}
    {ctl : (Nat → Option EpollEvent) × Int} (registers : Registers fd events granted s tsk ctl) :
    ((s.tasks s.current).events fd).dataFd = 0 ∧ (s.tasks s.current).fdsIdx < maxFd ∧
        tsk.recorded = (s.tasks s.current).recorded ++ [fd] ∨
      ((s.tasks s.current).events fd).dataFd ≠ 0 ∧
        tsk.recorded = (s.tasks s.current).recorded := by
  cases registers with
  | add unseen room => exact .inl ⟨unseen, room, TaskStruct.recorded_record fd _⟩
  | mod seen => exact .inr ⟨seen, rfl⟩
  | keep seen => exact .inr ⟨seen, rfl⟩

/-- What a step does to the list of a task. -/
inductive ListStep (p : TaskPtr) (s : State) : Input → State → Prop where
  /-- Nothing; a call of the task finds a record. -/
  | keeps (i : Input) (s' : State) : s.live p = true →
      (p = s.current → ∀ fd ∈ i.descriptor, ((s.tasks p).events fd).dataFd ≠ 0) →
      (s'.tasks p).recorded = (s.tasks p).recorded → ListStep p s i s'
  /-- A call of the task finds no record and appends its descriptor. -/
  | appends (call : Call) (fd : Nat) (granted : Bool) (s' : State) : p = s.current →
      fd < maxFd → ((s.tasks p).events fd).dataFd = 0 → ((s'.tasks p).events fd).dataFd = fd →
      (s'.tasks p).recorded = (s.tasks p).recorded ++ [fd] →
      ListStep p s (.io call fd granted) s'
  /-- The task exits and takes back its last descriptor. -/
  | drops (s' : State) : s.live p = true → (s'.pc p).exiting →
      (s'.tasks p).recorded = (s.tasks p).recorded.dropLast → ListStep p s .run s'
  /-- The task is created with an empty list. -/
  | starts (i : Input) (s' : State) : s.live p = false → p = s.fresh →
      (s'.tasks p).recorded = [] → ListStep p s i s'

/-- Every step does one of these to the list of a task that is live behind it. -/
theorem step_list (inv : Integrity s) (named : Named s) (taken : step s i = .ok s')
    {p : TaskPtr} (alive : s'.live p = true) : ListStep p s i s' := by
  cases before : s.live p with
  | false =>
    obtain ⟨fresh, none, _⟩ := step_new inv taken alive before
    refine .starts i s' before fresh ?_
    simp [TaskStruct.recorded, none]
  | true =>
    have change := step_records inv taken
    -- a change of the current block, seen from another task
    have other {tsk : TaskStruct} (tasks : s'.tasks = Function.update s.tasks s.current tsk)
        (away : p ≠ s.current) : ListStep p s i s' := by
      refine .keeps i s' before (fun own => absurd own away) ?_
      rw [tasks, Function.update_of_ne away]
    cases change with
    | keeps _ _ quiet _ same =>
      refine .keeps i s' before ?_ (same p before).recorded
      intro _ fd passed
      cases i <;> contradiction
    | registers call fd granted _ tsk ctl pc bound registers tasks =>
      by_cases own : p = s.current
      · subst own
        have block : s'.tasks s.current = tsk := by rw [tasks, Function.update_self]
        rcases registers.appends with ⟨unseen, _, appended⟩ | ⟨seen, kept⟩
        · refine .appends call fd granted s' rfl bound unseen ?_ ?_
          · rw [block]
            exact registers.names (named.records s.current fd before)
          · rw [block, appended]
        · refine .keeps _ s' before ?_ ?_
          · rintro _ fd' ⟨⟩
            exact seen
          · rw [block, kept]
      · exact other tasks own
    | narrows fd granted _ _ _ tasks =>
      refine .keeps _ s' before (fun _ _ passed => by cases passed) ?_
      rw [tasks]
      by_cases own : p = s.current
      · rw [own, Function.update_self]
        rfl
      · rw [Function.update_of_ne own]
    | releases _ pc _ tasks _ control =>
      by_cases own : p = s.current
      · subst own
        refine .drops s' before ?_ ?_
        · rw [control, pc]
          trivial
        · rw [tasks, Function.update_self]
          exact TaskStruct.recorded_dropLast _
      · exact other tasks own
    | closes fd _ tasks =>
      refine .keeps _ s' before (fun _ _ passed => by cases passed) ?_
      rw [tasks]

/-- A task has made a blocking call on a descriptor. -/
def CalledOn (past : History) (p : TaskPtr) (fd : Nat) : Prop :=
  ∃ move ∈ past, move.before.current = p ∧ fd ∈ move.input.descriptor

instance (past : History) (p : TaskPtr) (fd : Nat) : Decidable (CalledOn past p fd) :=
  inferInstanceAs (Decidable (∃ move ∈ past, move.before.current = p ∧
    fd ∈ move.input.descriptor))

/-- A call of a task on a descriptor repeats one on descriptor 0. -/
def StdinAgain (past : History) (p : TaskPtr) (fd : Nat) : Prop :=
  fd = 0 ∧ CalledOn past p 0

instance (past : History) (p : TaskPtr) (fd : Nat) : Decidable (StdinAgain past p fd) :=
  inferInstanceAs (Decidable (fd = 0 ∧ CalledOn past p 0))

/-- No live task lists a descriptor twice, and every list ends inside its array. -/
def ListsDistinct (s : State) : Prop :=
  ∀ p, s.live p = true → (s.tasks p).recorded.Nodup ∧ (s.tasks p).fdsIdx ≤ maxFd

/-- A call stores its descriptor, if it does, inside the array and beside other descriptors. -/
def StoresFits (call : Call) (fd : Nat) (granted : Bool) (s : State) : Prop :=
  coCall call fd granted s ≠ .error .bounds ∧
    (((s.tasks s.current).events fd).dataFd = 0 → fd ∉ (s.tasks s.current).recorded)

/-- What holds of the lists in every run. -/
structure Listed (past : History) (s : State) : Prop where
  /-- A listed descriptor is in range, and has a record unless it is descriptor 0. -/
  members : ∀ p, s.live p = true → ∀ fd ∈ (s.tasks p).recorded, fd < maxFd ∧
    (fd ≠ 0 → ((s.tasks p).events fd).dataFd ≠ 0)
  /-- Descriptor 0 is listed only behind a call on it. -/
  called : ∀ p, s.live p = true → 0 ∈ (s.tasks p).recorded → CalledOn past p 0
  /-- Behind a call on it, descriptor 0 is listed until the task exits. -/
  listed : ∀ p, s.live p = true → CalledOn past p 0 →
    0 ∈ (s.tasks p).recorded ∨ (s.pc p).exiting
  /-- Only tasks that were created have made calls. -/
  created : ∀ p fd, CalledOn past p fd → p < s.fresh

/-- A call is one of the moves before or the last one. -/
theorem calledOn_cons {past : History} {p : TaskPtr} {fd : Nat} :
    CalledOn (⟨s, i, s'⟩ :: past) p fd ↔
      s.current = p ∧ fd ∈ i.descriptor ∨ CalledOn past p fd := by
  simp [CalledOn]

/-- A recorded name stays. -/
theorem step_seen (inv : Integrity s) (named : Named s) (taken : step s i = .ok s')
    {p : TaskPtr} (alive : s.live p = true) {fd : Nat}
    (seen : ((s.tasks p).events fd).dataFd ≠ 0) : ((s'.tasks p).events fd).dataFd ≠ 0 := by
  rcases (step_records inv taken).name alive fd with
    same | ⟨rfl, call, granted, tsk, ctl, _, registers, tasks⟩
  · rw [same]
    exact seen
  · have before := named.records s.current fd alive
    rw [tasks, registers.names before]
    rw [before.resolve_left seen] at seen
    exact seen

/-- At the start of a thread the list is empty. -/
theorem recorded_init (self : EnvPtr) (clock : Nat → Nat) (p : TaskPtr) :
    ((State.init self clock).tasks p).recorded = [] := by
  by_cases root : p = initTask
  · subst root
    rfl
  · simp [State.init, Function.update_of_ne root, TaskStruct.recorded, TaskStruct.calloc]

/-- At the start of a thread nothing is listed. -/
theorem Listed.init (self : EnvPtr) (clock : Nat → Nat) :
    Listed [] (State.init self clock) where
  members p _ fd member := by
    rw [recorded_init] at member
    contradiction
  called p _ member := by
    rw [recorded_init] at member
    contradiction
  listed p _ called := by
    obtain ⟨_, member, _⟩ := called
    contradiction
  created p fd called := by
    obtain ⟨_, member, _⟩ := called
    contradiction

/-- The record of descriptor 0 never names it. -/
theorem Named.stdin (named : Named s) {p : TaskPtr} (alive : s.live p = true) :
    ((s.tasks p).events 0).dataFd = 0 :=
  (named.records p 0 alive).elim id id

/-- A call is made by a task in its own code. -/
theorem step_calls (taken : step s i = .ok s') {fd : Nat} (passed : fd ∈ i.descriptor) :
    s.pc s.current = .user := by
  obtain ⟨_, kind⟩ := step_cases taken
  cases kind with
  | refused call fd granted tsk ctl pc => exact pc
  | queued call fd granted tsk ctl links pc => exact pc
  | _ => cases passed

section

variable {past : History} {p : TaskPtr}

/-- Every step keeps the records of listed descriptors. -/
theorem Listed.members_step (lists : Listed past s) (inv : Integrity s) (named : Named s)
    (taken : LibcoLite.step s i = .ok s') (alive : s'.live p = true) {fd : Nat}
    (member : fd ∈ (s'.tasks p).recorded) :
    fd < maxFd ∧ (fd ≠ 0 → ((s'.tasks p).events fd).dataFd ≠ 0) := by
  have old (before : s.live p = true) (listed : fd ∈ (s.tasks p).recorded) :
      fd < maxFd ∧ (fd ≠ 0 → ((s'.tasks p).events fd).dataFd ≠ 0) := by
    obtain ⟨bound, seen⟩ := lists.members p before fd listed
    exact ⟨bound, fun positive => step_seen inv named taken before (seen positive)⟩
  cases step_list inv named taken alive with
  | keeps _ _ before _ same =>
    rw [same] at member
    exact old before member
  | appends call fd' granted _ own bound' unseen name appended =>
    rw [appended] at member
    rcases List.mem_append.mp member with listed | new
    · exact old (own ▸ inv.seated.alive) listed
    · obtain rfl := List.mem_singleton.mp new
      exact ⟨bound', fun positive => by rw [name]; exact positive⟩
  | drops _ before _ dropped =>
    rw [dropped] at member
    exact old before (List.mem_of_mem_dropLast member)
  | starts _ _ _ _ empty =>
    rw [empty] at member
    contradiction

/-- A step lists descriptor 0 only by a call on it. -/
theorem Listed.called_step (lists : Listed past s) (inv : Integrity s) (named : Named s)
    (taken : LibcoLite.step s i = .ok s') (alive : s'.live p = true)
    (member : 0 ∈ (s'.tasks p).recorded) : CalledOn (⟨s, i, s'⟩ :: past) p 0 := by
  apply calledOn_cons.mpr
  cases step_list inv named taken alive with
  | keeps _ _ before _ same => exact .inr (lists.called p before (same ▸ member))
  | appends call fd granted _ own bound unseen name appended =>
    rw [appended] at member
    rcases List.mem_append.mp member with old | new
    · exact .inr (lists.called p (own ▸ inv.seated.alive) old)
    · exact .inl ⟨own.symm, by rw [List.mem_singleton.mp new]; rfl⟩
  | drops _ before _ dropped =>
    rw [dropped] at member
    exact .inr (lists.called p before (List.mem_of_mem_dropLast member))
  | starts _ _ _ _ empty =>
    rw [empty] at member
    contradiction

/-- A call on descriptor 0 lists it, and no step but the task's exit takes it back. -/
theorem Listed.listed_step (lists : Listed past s) (inv : Integrity s) (named : Named s)
    (taken : LibcoLite.step s i = .ok s') (alive : s'.live p = true)
    (called : CalledOn (⟨s, i, s'⟩ :: past) p 0) :
    0 ∈ (s'.tasks p).recorded ∨ (s'.pc p).exiting := by
  have old (before : s.live p = true) (earlier : CalledOn past p 0) :
      0 ∈ (s.tasks p).recorded ∨ (s'.pc p).exiting := by
    rcases lists.listed p before earlier with listed | exiting
    · exact .inl listed
    · exact .inr (step_exiting_on inv taken before alive exiting)
  cases step_list inv named taken alive with
  | keeps _ _ before finds same =>
    rw [same]
    rcases calledOn_cons.mp called with ⟨own, passed⟩ | earlier
    · -- a call on descriptor 0 finds no record
      exact absurd (named.stdin before) (finds own.symm 0 passed)
    · exact old before earlier
  | appends call fd granted _ own bound unseen name appended =>
    rw [appended]
    rcases calledOn_cons.mp called with ⟨_, passed⟩ | earlier
    · left
      obtain rfl : fd = 0 := Option.some.inj passed
      exact List.mem_append_right _ List.mem_cons_self
    · rcases old (own ▸ inv.seated.alive) earlier with listed | exiting
      · exact .inl (List.mem_append_left _ listed)
      · exact .inr exiting
  | drops _ before exiting => exact .inr exiting
  | starts _ _ dead fresh =>
    rcases calledOn_cons.mp called with ⟨own, _⟩ | earlier
    · rw [← own, inv.seated.alive] at dead
      contradiction
    · exact absurd fresh (Nat.ne_of_lt (lists.created p 0 earlier))

/-- Only tasks that were created make calls. -/
theorem Listed.created_step (lists : Listed past s) (inv : Integrity s)
    (taken : LibcoLite.step s i = .ok s') {fd : Nat}
    (called : CalledOn (⟨s, i, s'⟩ :: past) p fd) : p < s'.fresh := by
  have grows := step_fresh inv taken
  rcases calledOn_cons.mp called with ⟨own, _⟩ | earlier
  · have used := inv.used s.current inv.seated.alive
    rw [own] at used
    exact Nat.lt_of_lt_of_le used grows
  · exact Nat.lt_of_lt_of_le (lists.created p fd earlier) grows

/-- Every step keeps what holds of the lists. -/
theorem Listed.step (lists : Listed past s) (inv : Integrity s) (named : Named s)
    (taken : LibcoLite.step s i = .ok s') : Listed (⟨s, i, s'⟩ :: past) s' where
  members _ alive _ member := lists.members_step inv named taken alive member
  called _ alive member := lists.called_step inv named taken alive member
  listed _ alive called := lists.listed_step inv named taken alive called
  created _ _ called := lists.created_step inv taken called

end

/-- In every run this holds of the lists. -/
theorem listed_of_run {self : EnvPtr} {clock : Nat → Nat} {past : History}
    (run : ThreadRun self clock past s) : Listed past s := by
  induction run with
  | start => exact .init self clock
  | move before taken ih => exact ih.step (integrity_of_run before) (named_of_run before) taken

/-! ## The store of a call -/

/-- Only a first registration in a full array leaves the array. -/
theorem addQueue_bounds {fd : Nat} {events : Mask} {granted : Bool}
    (room : ((s.tasks s.current).events fd).dataFd = 0 → (s.tasks s.current).fdsIdx < maxFd) :
    addQueue fd events granted s ≠ .error .bounds := by
  -- the insertion fails in other ways
  have inserts (t : State) (links : Except TailQueue.Fault (TailQueue.Links Nat TaskPtr)) :
      (t.relink links).bind (fun s => .ok (s, (0 : Int))) ≠ .error .bounds := by
    cases links <;> simp [State.relink, Except.bind]
  unfold addQueue
  simp only [State.modify, Function.update_self, Function.update_idem]
  by_cases unseen : ((s.tasks s.current).events fd).dataFd ≤ 0
  · simp only [unseen, room (Nat.le_zero.mp unseen), ↓reduceIte, bind, Except.bind]
    split
    · simp
    · exact inserts _ _
  · cases needs : needsMod ((s.tasks s.current).events fd).events events with
    | true =>
      simp only [unseen, ↓reduceIte, bind, Except.bind]
      split
      · simp
      · exact inserts _ _
    | false =>
      simp only [unseen, ↓reduceIte, bind, Except.bind, Bool.false_eq_true]
      split
      · simp
      · exact inserts _ _

/-- Neither does a call on a descriptor in range. -/
theorem coCall_bounds {call : Call} {fd : Nat} {granted : Bool} (bound : fd < maxFd)
    (room : ((s.tasks s.current).events fd).dataFd = 0 → (s.tasks s.current).fdsIdx < maxFd) :
    coCall call fd granted s ≠ .error .bounds := by
  unfold coCall
  rw [if_pos bound]
  cases added : addQueue fd call.event granted s with
  | error stop =>
    intro stopped
    have same : stop = .bounds := Except.error.inj stopped
    exact addQueue_bounds room (same ▸ added)
  | ok outcome =>
    obtain ⟨after, ret⟩ := outcome
    simp only [bind, Except.bind]
    split <;> simp

/-- A list of distinct numbers below a bound that lacks one of them is shorter than the
bound. -/
theorem length_lt_of_lacks {fds : List Nat} {size fd : Nat} (distinct : fds.Nodup)
    (inside : ∀ other ∈ fds, other < size) (bound : fd < size) (lacks : fd ∉ fds) :
    fds.length < size := by
  have longer : (fd :: fds).Nodup := List.nodup_cons.mpr ⟨lacks, distinct⟩
  have subset : fd :: fds ⊆ List.range size := by
    intro other member
    apply List.mem_range.mpr
    rcases List.mem_cons.mp member with rfl | old
    · exact bound
    · exact inside other old
  have length := longer.length_le_of_subset subset
  simp only [List.length_cons, List.length_range] at length
  omega

/-- In a distinct list, a call that does not repeat one on descriptor 0 fits. -/
theorem Listed.fits {past : History} (lists : Listed past s) (inv : Integrity s)
    (distinct : ListsDistinct s) {call : Call} {fd : Nat} {granted : Bool} (bound : fd < maxFd)
    (first : ¬StdinAgain past s.current fd) : StoresFits call fd granted s := by
  have alive := inv.seated.alive
  have lacks : ((s.tasks s.current).events fd).dataFd = 0 →
      fd ∉ (s.tasks s.current).recorded := by
    intro unseen member
    by_cases zero : fd = 0
    · subst zero
      exact first ⟨rfl, lists.called s.current alive member⟩
    · exact (lists.members s.current alive fd member).2 zero unseen
  refine ⟨coCall_bounds bound ?_, lacks⟩
  intro unseen
  have length := length_lt_of_lacks (distinct s.current alive).1
    (fun other member => (lists.members s.current alive other member).1) bound (lacks unseen)
  rwa [TaskStruct.length_recorded] at length

/-- A call that repeats one on descriptor 0 does not fit. -/
theorem Listed.not_fits {past : History} (lists : Listed past s) (inv : Integrity s)
    (named : Named s) (user : s.pc s.current = .user) {call : Call} {fd : Nat} {granted : Bool}
    (again : StdinAgain past s.current fd) : ¬StoresFits call fd granted s := by
  obtain ⟨rfl, called⟩ := again
  rintro ⟨_, lacks⟩
  have alive := inv.seated.alive
  have unseen := named.stdin alive
  rcases lists.listed s.current alive called with listed | exiting
  · exact lacks unseen listed
  · rw [user] at exiting
    exact exiting

/-! ## Runs without a second call on descriptor 0 -/

/-- A move makes no second call on descriptor 0. -/
def StdinOnce (past : History) (move : Transition.Move State Input) : Prop :=
  ∀ fd ∈ move.input.descriptor, ¬StdinAgain past move.before.current fd

instance (past : History) (move : Transition.Move State Input) :
    Decidable (StdinOnce past move) :=
  inferInstanceAs (Decidable (∀ fd ∈ move.input.descriptor,
    ¬StdinAgain past move.before.current fd))

/-- A step that makes no second call on descriptor 0 keeps the lists distinct. -/
theorem distinct_step {past : History} (lists : Listed past s) (inv : Integrity s)
    (named : Named s) (distinct : ListsDistinct s) (taken : step s i = .ok s')
    (once : StdinOnce past ⟨s, i, s'⟩) : ListsDistinct s' := by
  intro p alive
  rw [← TaskStruct.length_recorded]
  have before (live : s.live p = true) : (s.tasks p).recorded.Nodup ∧
      (s.tasks p).recorded.length ≤ maxFd := by
    rw [TaskStruct.length_recorded]
    exact distinct p live
  cases step_list inv named taken alive with
  | keeps _ _ live _ same =>
    rw [same]
    exact before live
  | appends call fd granted _ own bound unseen name appended =>
    subst own
    have live := inv.seated.alive
    have fits : StoresFits call fd granted s := lists.fits inv distinct bound (once fd rfl)
    have absent := fits.2 unseen
    have length := length_lt_of_lacks (before live).1
      (fun other member => (lists.members s.current live other member).1) bound absent
    rw [appended]
    constructor
    · apply List.nodup_append.mpr
      refine ⟨(before live).1, List.nodup_singleton fd, ?_⟩
      intro other member new again
      rw [List.mem_singleton.mp again]
      rintro rfl
      exact absent member
    · rw [List.length_append, List.length_singleton]
      omega
  | drops _ live _ dropped =>
    obtain ⟨nodup, length⟩ := before live
    rw [dropped]
    refine ⟨nodup.sublist (List.dropLast_sublist _), ?_⟩
    rw [List.length_dropLast]
    omega
  | starts _ _ _ _ empty =>
    rw [empty]
    exact ⟨List.nodup_nil, Nat.zero_le _⟩

/-- A step that makes a second call on descriptor 0 leaves a list that is not distinct. -/
theorem not_distinct_step {past : History} (lists : Listed past s) (inv : Integrity s)
    (named : Named s) (taken : step s i = .ok s') (again : ¬StdinOnce past ⟨s, i, s'⟩) :
    ¬ListsDistinct s' := by
  intro distinct
  apply again
  rintro fd passed ⟨rfl, called⟩
  have live := inv.seated.alive
  have unseen := named.stdin live
  -- the task is in its own code, where it has not exited
  have user := step_calls taken passed
  have running : (s.tasks s.current).status ≠ .exit := by
    intro exited
    have exiting := inv.exits s.current live exited
    rw [user] at exiting
    exact exiting
  have listed : 0 ∈ (s.tasks s.current).recorded := by
    rcases lists.listed s.current live called with listed | exiting
    · exact listed
    · rw [user] at exiting
      exact exiting.elim
  have alive := step_live inv taken live running
  obtain ⟨nodup, _⟩ := distinct s.current alive
  cases step_list inv named taken alive with
  | keeps _ _ _ finds => exact finds rfl 0 passed unseen
  | appends call fd granted _ own bound _ name appended =>
    obtain rfl : fd = 0 := Option.some.inj passed
    rw [appended] at nodup
    exact (List.nodup_append.mp nodup).2.2 0 listed 0 List.mem_cons_self rfl
  | drops => cases passed
  | starts _ _ dead => cases dead.symm.trans live

/-- In a run without a second call on descriptor 0 the lists are distinct. -/
theorem distinct_of_run {self : EnvPtr} {clock : Nat → Nat} {past : History}
    (run : ThreadRun self clock past s) (once : Throughout StdinOnce past) :
    ListsDistinct s := by
  refine run.throughout_invariant StdinOnce (fun _ s => ListsDistinct s) ?_ ?_ once
  · intro p _
    rw [← TaskStruct.length_recorded, recorded_init]
    exact ⟨List.nodup_nil, Nat.zero_le _⟩
  · intro past s i s' before distinct first taken
    exact distinct_step (listed_of_run before) (integrity_of_run before) (named_of_run before)
      distinct taken first

/-- The lists are distinct in all states of a run exactly if the run makes no second call on
descriptor 0. -/
theorem distinct_iff {self : EnvPtr} {clock : Nat → Nat} {past : History}
    (run : ThreadRun self clock past s) :
    Along (fun move => ListsDistinct move.after) past ↔ Throughout StdinOnce past := by
  induction run with
  | start => simp [Along, Throughout]
  | move before taken ih =>
    rw [Transition.along_cons, ih]
    have lists := listed_of_run before
    have inv := integrity_of_run before
    have named := named_of_run before
    constructor
    · rintro ⟨distinct, once⟩
      refine ⟨?_, once⟩
      apply Classical.byContradiction
      intro again
      exact not_distinct_step lists inv named taken again distinct
    · rintro ⟨first, once⟩
      exact ⟨distinct_step lists inv named (distinct_of_run before once) taken first, once⟩

/-- A task's list of descriptors is free of duplicates, ends inside its array, and has room for
the store of the next call, exactly in the runs in which no task makes a second blocking call on
descriptor 0. -/
theorem fds_stay_distinct {self : EnvPtr} {clock : Nat → Nat} {past : History} {s : State}
    (run : ThreadRun self clock past s) :
    (Along (fun move => ListsDistinct move.after) past ↔ Throughout StdinOnce past) ∧
    ∀ call fd granted, s.pc s.current = .user → fd < maxFd →
      (Along (fun move => ListsDistinct move.after) past ∧ StoresFits call fd granted s ↔
        Throughout StdinOnce past ∧ ¬StdinAgain past s.current fd) := by
  have lists := listed_of_run run
  have inv := integrity_of_run run
  refine ⟨distinct_iff run, fun call fd granted user bound => ?_⟩
  rw [distinct_iff run]
  constructor
  · rintro ⟨once, fits⟩
    exact ⟨once, fun again => lists.not_fits inv (named_of_run run) user again fits⟩
  · rintro ⟨once, first⟩
    exact ⟨once, lists.fits inv (distinct_of_run run once) bound first⟩

/-- A coroutine reads from the standard input and, when that has input, from descriptor 3. -/
def stdinAndSocket : List Input :=
  [.create none, .eventloop, .ready (some []), .pick 1, .io .read 0 true, .ctl true, .pick 1,
    .ready (some [(0, epollIn)]), .run, .run, .pick 1, .ctl true, .run, .io .read 3 true,
    .ctl true, .pick 1, .ready (some [(3, epollIn)]), .run, .run, .pick 1, .ctl true, .run]

/-- Its list stays distinct, and has room for a further descriptor. -/
theorem fds_stay_distinct_stdinAndSocket :
    Along (fun move => ListsDistinct move.after) (replayMoves 2 stdinAndSocket) ∧
      StoresFits .write 4 true (replay 2 stdinAndSocket) := by
  have run := run_of_replay 2 stdinAndSocket (by decide) (by decide) (by decide +kernel)
  exact ((fds_stay_distinct run).2 .write 4 true (by decide +kernel) (by decide)).mpr
    ⟨by decide +kernel, by decide⟩

/-- A coroutine reads from the standard input twice. -/
def stdinTwice : List Input :=
  [.create none, .eventloop, .ready (some []), .pick 1, .io .read 0 true, .ctl true, .pick 1,
    .ready (some [(0, epollIn)]), .run, .run, .pick 1, .ctl true, .run, .io .read 0 true]

/-- Not all lists stay distinct: the second read lists descriptor 0 again. -/
theorem fds_stay_distinct_fails : ¬∀ (past : History) (s : State),
    ThreadRun 0 ticking past s → ListsDistinct s := by
  intro listsDistinct
  have run := run_of_replay 2 stdinTwice (by decide) (by decide) (by decide +kernel)
  obtain ⟨nodup, _⟩ := listsDistinct _ _ run 1 (by decide +kernel)
  have listed : ((replay 2 stdinTwice).tasks 1).recorded = [0, 0] := by decide +kernel
  rw [listed] at nodup
  exact absurd nodup (by decide)

/-- A call on descriptor 0 that the kernel refuses lists it, and the task goes on. -/
theorem refused_stdin (alive : s.live s.current = true) (user : s.pc s.current = .user)
    (unseen : ((s.tasks s.current).events 0).dataFd = 0)
    (room : (s.tasks s.current).fdsIdx < maxFd) :
    step s (.io .read 0 false) = .ok ((s.registered
      (((s.tasks s.current).await 0 epollIn).record 0) s.interest).goto .user) := by
  have refused : epollCtl false (.add ⟨epollIn, 0⟩) 0 s.interest = (s.interest, -1) := by
    unfold epollCtl
    cases s.interest 0 <;> rfl
  have added : addQueue 0 epollIn false s = .ok (s.registered
      (((s.tasks s.current).await 0 epollIn).record 0) s.interest, -1) := by
    rcases addQueue_registers 0 epollIn false s with full | ⟨tsk, ctl, registers, same⟩
    · exact absurd full (addQueue_bounds fun _ => room)
    · cases registers with
      | add =>
        rw [same, refused]
        rfl
      | mod seen => exact absurd unseen seen
      | keep seen => exact absurd unseen seen
  have called : coCall .read 0 false s = .ok ((s.registered
      (((s.tasks s.current).await 0 epollIn).record 0) s.interest).goto .user) := by
    unfold coCall
    rw [if_pos (by decide)]
    change (addQueue 0 epollIn false s).bind _ = _
    rw [added]
    rfl
  simp only [step, alive, user, ↓reduceIte, called]

/-- After so many calls on the standard input as the array has elements, the next one leaves the
array. -/
theorem stdin_leaves_array (self : EnvPtr) (clock : Nat → Nat) :
    ∃ past s, ThreadRun self clock past s ∧ step s (.io .read 0 true) = .error .bounds := by
  have grows : ∀ calls ≤ maxFd, ∃ past s, ThreadRun self clock past s ∧
      s.live s.current = true ∧ s.pc s.current = .user ∧
      (s.tasks s.current).fdsIdx = calls := by
    intro calls
    induction calls with
    | zero =>
      intro _
      exact ⟨[], State.init self clock, .start, rfl, rfl, rfl⟩
    | succ calls ih =>
      intro few
      obtain ⟨past, s, run, alive, user, length⟩ := ih (by omega)
      have unseen := (named_of_run run).stdin alive
      refine ⟨_, _, run.move (refused_stdin alive user unseen (by omega)), alive, ?_, ?_⟩
      · simp [State.goto]
      · simp [State.goto, State.registered, TaskStruct.record, TaskStruct.await, length]
  obtain ⟨past, s, run, alive, user, length⟩ := grows maxFd (Nat.le_refl _)
  have unseen := (named_of_run run).stdin alive
  refine ⟨past, s, run, ?_⟩
  simp [step, alive, user, coCall, addQueue, State.modify, unseen, length, maxFd, bind,
    Except.bind]

end LibcoLite
