import LibcoLite.Records
import LibcoLite.Owner

/-!
# A descriptor with one user

One coroutine passes a descriptor to blocking calls, and no other does. The record of the
descriptor in this task and its entry in the interest list then change only in that task's
own calls, at its exit, and when the descriptor is closed. Both records the code keeps of a
registration, the task's and the kernel's, are followed here through one step.
-/

namespace LibcoLite

open Transition (Along Move Run)

/-- A move passes the descriptor to a blocking call in the one task only. -/
def UsedBy (user : TaskPtr) (fd : Nat) (move : Move State Input) : Prop :=
  ∀ call granted, move.input = .io call fd granted → move.before.current = user

instance (user : TaskPtr) (fd : Nat) (move : Move State Input) :
    Decidable (UsedBy user fd move) :=
  inferInstanceAs (Decidable (∀ call granted, move.input = .io call fd granted →
    move.before.current = user))

/-- No task but the user waits on the descriptor or has recorded it. -/
structure Private (user : TaskPtr) (fd : Nat) (s : State) : Prop where
  /-- The others do not wait on it. -/
  waits : ∀ q call, s.live q = true → q ≠ user → (s.pc q).waiting ≠ some (call, fd)
  /-- The others have not recorded it. -/
  records : ∀ q, s.live q = true → q ≠ user → ∀ k < (s.tasks q).fdsIdx, (s.tasks q).fds k ≠ fd

variable {user : TaskPtr} {fd : Nat} {s s' : State} {i : Input}

/-- At the start of a thread nobody uses the descriptor. -/
theorem Private.init (self : EnvPtr) (clock : Nat → Nat) :
    Private user fd (State.init self clock) where
  waits _ _ _ _ inside := by cases inside
  records q alive _ k recorded := by
    have root : q = initTask := by
      apply Classical.byContradiction
      intro other
      simp [State.init, Function.update_of_ne other] at alive
    subst root
    simp [State.init, TaskStruct.calloc] at recorded

/-- A step in which the user alone passes the descriptor on keeps it to the user. -/
theorem Private.step (only : Private user fd s) (inv : Integrity s)
    (used : UsedBy user fd ⟨s, i, s'⟩) (taken : LibcoLite.step s i = .ok s') :
    Private user fd s' where
  waits q call alive other inside := by
    rcases step_waiting inv taken alive inside with ⟨before, waits⟩ | ⟨own, enters⟩
    · exact only.waits q call before other waits
    · obtain ⟨granted, _, _, input, _⟩ := enters
      exact other (own.trans (used call granted input))
  records q alive other k recorded same := by
    rcases step_recorded inv taken alive recorded with ⟨before, below, kept⟩ | ⟨own, new⟩
    · exact only.records q before other k below (kept.symm.trans same)
    · rw [same] at new
      cases i with
      | io call fd' granted =>
        obtain rfl : fd' = fd := by simpa [Input.descriptor] using new
        exact other (own.trans (used call granted rfl))
      | _ => cases new

/-- In a run in which the user alone passes the descriptor on, it is the user's. -/
theorem private_of_run {self : EnvPtr} {clock : Nat → Nat} {past : History}
    (run : ThreadRun self clock past s) (used : Along (UsedBy user fd) past) :
    Private user fd s := by
  refine (run.invariant (UsedBy user fd) (fun s => Integrity s ∧ Private user fd s)
    ⟨Integrity.init self clock, Private.init self clock⟩ ?_ used).2
  rintro s i s' ⟨inv, only⟩ used taken
  exact ⟨inv.step taken, only.step inv used taken⟩

/-! ## One step -/

/-- What a step does to the user's record of the descriptor and to the descriptor's entry. -/
inductive DescriptorStep (user : TaskPtr) (fd : Nat) (s : State) : Input → State → Prop where
  /-- Nothing. -/
  | keeps (i : Input) (s' : State) : (s'.tasks user).events fd = (s.tasks user).events fd →
      s'.interest fd = s.interest fd → (∀ call granted, i ≠ .io call fd granted) → i ≠ .close fd →
      DescriptorStep user fd s i s'
  /-- The user registers. -/
  | registers (call : Call) (granted : Bool) (s' : State) (tsk : TaskStruct)
      (ctl : (Nat → Option EpollEvent) × Int) : s.current = user → s.pc user = .user →
      Registers fd call.event granted s tsk ctl → s'.tasks user = tsk → s'.interest = ctl.1 →
      s'.pc user = (if ctl.2 < 0 then .user else .wait call fd) →
      DescriptorStep user fd s (.io call fd granted) s'
  /-- The wait of the user's `co_write` ends. -/
  | narrows (granted : Bool) (s' : State) : s.current = user → s.pc user = .wait .write fd →
      (s.tasks user).revents fd &&& epollOut ≠ 0 →
      s'.tasks user = (s.tasks user).narrow fd → s'.interest = (narrowing fd granted s).1 →
      s'.pc user = (if (narrowing fd granted s).2 < 0 then .user else .syscall .write fd) →
      DescriptorStep user fd s (.ctl granted) s'
  /-- The descriptor is closed. -/
  | closes (s' : State) : (s'.tasks user).events fd = (s.tasks user).events fd →
      s'.interest fd = none → DescriptorStep user fd s (.close fd) s'

/-- Registering leaves the entries of other descriptors. -/
theorem Registers.elsewhere {fd fd' : Nat} {events : Mask} {granted : Bool} {tsk : TaskStruct}
    {ctl : (Nat → Option EpollEvent) × Int} (registers : Registers fd events granted s tsk ctl)
    (different : fd' ≠ fd) : ctl.1 fd' = s.interest fd' := by
  cases registers with
  | add => exact epollCtl_other different
  | mod => exact epollCtl_other different
  | keep => rfl

/-- Unless the user is exiting, every step is of one of these kinds. -/
theorem descriptor_step (inv : Integrity s) (only : Private user fd s)
    (used : UsedBy user fd ⟨s, i, s'⟩) (taken : step s i = .ok s') (alive : s.live user = true)
    (more : ¬(s.pc user).exiting) : DescriptorStep user fd s i s' := by
  have change := step_records inv taken
  cases change with
  | keeps _ _ quiet interest same =>
    refine .keeps i s' (by rw [(same user alive).1]) (by rw [interest]) ?_ ?_
    · rintro call granted rfl
      exact quiet
    · rintro rfl
      exact quiet
  | registers call fd' granted _ tsk ctl pc _ registers tasks interest control =>
    by_cases here : fd' = fd
    · subst here
      obtain rfl := used call granted rfl
      exact .registers call granted s' tsk ctl rfl pc registers
        (by rw [tasks, Function.update_self]) interest (by rw [control, Function.update_self])
    · refine .keeps _ s' ?_ ?_ ?_ (by simp)
      · rw [tasks]
        by_cases own : user = s.current
        · rw [own, Function.update_self, registers.other (Ne.symm here)]
        · rw [Function.update_of_ne own]
      · rw [interest]
        exact registers.elsewhere (Ne.symm here)
      · rintro call granted ⟨⟩
        exact here rfl
  | narrows fd' granted _ pc bit tasks interest control =>
    by_cases here : fd' = fd
    · subst here
      have own : s.current = user := by
        apply Classical.byContradiction
        intro other
        exact only.waits s.current .write inv.seated.alive other (by rw [pc]; rfl)
      subst own
      exact .narrows granted s' rfl pc bit (by rw [tasks, Function.update_self]) interest
        (by rw [control, Function.update_self])
    · refine .keeps _ s' ?_ ?_ (by simp) (by simp)
      · rw [tasks]
        by_cases own : user = s.current
        · rw [own, Function.update_self]
          simp [TaskStruct.narrow, Function.update_of_ne (Ne.symm here)]
        · rw [Function.update_of_ne own]
      · rw [interest]
        exact epollCtl_other (Ne.symm here)
  | releases _ pc some tasks interest =>
    have other : user ≠ s.current := by
      rintro rfl
      rw [pc] at more
      exact more trivial
    refine .keeps _ s' ?_ ?_ (by simp) (by simp)
    · rw [tasks, Function.update_of_ne other]
    · rw [interest]
      apply Function.update_of_ne
      intro same
      apply only.records s.current inv.seated.alive (Ne.symm other)
        ((s.tasks s.current).fdsIdx - 1) (by omega)
      exact same.symm
  | closes fd' _ tasks interest =>
    by_cases here : fd' = fd
    · subst here
      exact .closes s' (by rw [tasks]) (by rw [interest, Function.update_self])
    · refine .keeps _ s' (by rw [tasks]) ?_ (by simp) ?_
      · rw [interest, Function.update_of_ne (Ne.symm here)]
      · rintro ⟨⟩
        exact here rfl

/-- A task that is exiting goes on exiting. -/
theorem step_exiting_on (inv : Integrity s) (taken : step s i = .ok s') {p : TaskPtr}
    (alive : s.live p = true) (alive' : s'.live p = true) (exiting : (s.pc p).exiting) :
    (s'.pc p).exiting := by
  rcases i.switches with ⟨rounds, rfl⟩ | other
  · rw [step_switch_pc Pc.exiting (fun _ => rfl) inv taken]
    exact exiting
  by_cases own : p = s.current
  · subst own
    obtain ⟨_, kind⟩ := step_cases taken
    cases kind with
    | create cid pc =>
      rw [pc] at exiting
      exact exiting.elim
    | released links pc more removed => exact exiting
    | cleaned pc none =>
      show (Function.update s.pc s.current (.schedule .finished) s.current).exiting
      rw [Function.update_self]
      trivial
    | scheduled behind rounds => exact absurd rfl (other rounds)
    | _ => simp_all [Pc.exiting]
  · rcases step_others inv taken other own alive' with ⟨dead, _⟩ | ⟨_, same, _⟩
    · cases dead.symm.trans alive
    · rw [same]
      exact exiting

end LibcoLite
