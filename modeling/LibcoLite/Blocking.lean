import LibcoLite.Lib.Cycle
import LibcoLite.Lib.Trace
import LibcoLite.Machine

/-!
# Blocking calls

What the library is for. Coroutines take turns in the order of their slots. A coroutine that
calls `co_accept`, `co_read` or `co_write` is not scheduled before an event comes for its
descriptor, and then performs its system call. Nothing is said of queues, recorded bits,
interest lists or statuses: a descriptor belongs to a coroutine, and an event for it wakes
the coroutine from its call.
-/

namespace LibcoLite

open Transition (Move Trace)

/-- What a coroutine does. -/
inductive Mode where
  /-- It runs its own code. -/
  | own
  /-- It joins the coroutine in a slot. -/
  | joining (cid : Nat)
  /-- It sleeps. -/
  | asleep
  /-- It is in a blocking call, and no event has come since the call. -/
  | blocked (call : Call) (fd : Nat)
  /-- It is in a blocking call, and the event has come. -/
  | woken (call : Call) (fd : Nat)
  /-- It performs the system call. -/
  | calling (call : Call) (fd : Nat)
  /-- It waits for the kernel to report descriptors. -/
  | polling
  /-- It wakes the coroutines of the reported descriptors. -/
  | delivering (fds : List Nat)
  /-- Its routine has returned. -/
  | ended
deriving DecidableEq, Repr

/-- A coroutine takes its turn when it comes. -/
def Mode.runnable : Mode → Bool
  | .asleep => false
  | .blocked _ _ => false
  | .ended => false
  | _ => true

/-- The descriptor of the blocking call a coroutine is in, and whether the event has come. -/
def Mode.inCall : Mode → Option (Nat × Bool)
  | .blocked _ fd => some (fd, false)
  | .woken _ fd => some (fd, true)
  | .calling _ fd => some (fd, true)
  | _ => none

/-- The coroutines of a thread. -/
@[ext]
structure Blocking where
  /-- The coroutine that executes. -/
  current : TaskPtr
  /-- The slots. -/
  table : Nat → Option TaskPtr
  /-- What each coroutine does. -/
  mode : TaskPtr → Mode
  /-- The current coroutine gives up its turn. -/
  yields : Bool

namespace Blocking

/-- What the current coroutine does. -/
def doing (b : Blocking) : Mode := b.mode b.current

/-- The current coroutine goes on with something else. -/
def goes (b : Blocking) (mode : Mode) : Blocking :=
  { b with mode := Function.update b.mode b.current mode }

/-- Going on with the same is no change. -/
@[simp]
theorem goes_doing (b : Blocking) : b.goes b.doing = b := by
  unfold goes doing
  rw [Function.update_eq_self]

/-- The current coroutine gives up its turn. -/
def rests (b : Blocking) : Blocking := { b with yields := true }

/-- At the start there is the initial coroutine. -/
def init : Blocking where
  current := initTask
  table := Function.update (fun _ => none) 0 (some initTask)
  mode _ := .own
  yields := false

/-- What the current coroutine does in its turn, when each descriptor has an owner. -/
inductive Acts (owner : Nat → TaskPtr) (b : Blocking) : Input → Blocking → Prop where
  /-- A new coroutine gets the lowest free slot. -/
  | creates (cid : Option Int) (id : Nat) (p : TaskPtr) : b.doing = .own → id < nrTasks →
      b.table id = none → (∀ k < id, b.table k ≠ none) → (∀ k, b.table k ≠ some p) →
      Acts owner b (.create cid) { b with
        table := Function.update b.table id (some p)
        mode := Function.update b.mode p .own }
  /-- There is no slot for a new coroutine. -/
  | full (cid : Option Int) : b.doing = .own → (∀ k < nrTasks, b.table k ≠ none) →
      Acts owner b (.create cid) b
  /-- It calls `co_join`. -/
  | joins (cid : Nat) : b.doing = .own → Acts owner b (.join cid) (b.goes (.joining cid))
  /-- It calls `co_sleep`. -/
  | sleeps (seconds : Int) : b.doing = .own →
      Acts owner b (.sleep seconds) (b.goes .asleep).rests
  /-- It makes a blocking call on a descriptor of its own. -/
  | blocks (call : Call) (fd : Nat) (granted : Bool) : b.doing = .own → owner fd = b.current →
      Acts owner b (.io call fd granted) (b.goes (.blocked call fd))
  /-- It calls `co_eventloop`. -/
  | loops : b.doing = .own → Acts owner b .eventloop (b.goes .polling)
  /-- It closes a descriptor. -/
  | closes (fd : Nat) : b.doing = .own → Acts owner b (.close fd) b
  /-- Its routine returns. -/
  | ends : b.doing = .own → b.current ≠ initTask → Acts owner b .ret (b.goes .ended)
  /-- The joined coroutine has not ended. -/
  | joinsOn (cid : Nat) (p : TaskPtr) : b.doing = .joining cid → b.table cid = some p →
      b.mode p ≠ .ended → Acts owner b .run b.rests
  /-- The joined coroutine has ended, and its slot is free. -/
  | joined (cid : Nat) (p : TaskPtr) : b.doing = .joining cid → b.table cid = some p →
      b.mode p = .ended →
      Acts owner b .run { b.goes .own with table := Function.update b.table cid none }
  /-- The event has not come. -/
  | waits (call : Call) (fd : Nat) (granted : Bool) : b.doing = .blocked call fd →
      Acts owner b (.ctl granted) b.rests
  /-- The event has come. -/
  | passes (call : Call) (fd : Nat) (granted : Bool) : b.doing = .woken call fd →
      Acts owner b (.ctl granted) (b.goes (.calling call fd))
  /-- The system call returns. -/
  | returns (call : Call) (fd : Nat) : b.doing = .calling call fd →
      Acts owner b .run (b.goes .own)
  /-- No descriptor is reported. -/
  | idles : b.doing = .polling → Acts owner b (.ready (some [])) b.rests
  /-- Some descriptors are reported, each once. -/
  | reports (reports : List (Nat × Mask)) : b.doing = .polling → reports ≠ [] →
      (reports.map Prod.fst).Nodup →
      Acts owner b (.ready (some reports)) (b.goes (.delivering (reports.map Prod.fst)))
  /-- The owner of a reported descriptor is woken from its call. -/
  | wakes (call : Call) (fd : Nat) (fds : List Nat) : b.doing = .delivering (fd :: fds) →
      b.mode (owner fd) = .blocked call fd →
      Acts owner b .run { b with
        mode := Function.update (Function.update b.mode (owner fd) (.woken call fd)) b.current
          (.delivering fds) }
  /-- All reported descriptors are done with. -/
  | drained : b.doing = .delivering [] → Acts owner b .run (b.goes .polling).rests
  /-- It cleans up. -/
  | cleans : b.doing = .ended → Acts owner b .run b
  /-- It has cleaned up. -/
  | leaves : b.doing = .ended → Acts owner b .run b.rests

open Cycle in
/-- One step: the current coroutine acts, or gives up its turn to the runnable coroutine whose
slot comes next, once some of the sleeping ones have got up. -/
inductive Step (owner : Nat → TaskPtr) (b : Blocking) : Input → Blocking → Prop where
  /-- The current coroutine acts. -/
  | acts (i : Input) (b' : Blocking) : b.yields = false → Acts owner b i b' → Step owner b i b'
  /-- Another one takes its turn. -/
  | switches (rounds here there : Nat) (mode : TaskPtr → Mode) (p : TaskPtr) : b.yields = true →
      (∀ q, mode q = b.mode q ∨ b.mode q = .asleep ∧ mode q = .own) →
      here < nrTasks → b.table here = some b.current →
      there < nrTasks → b.table there = some p → (mode p).runnable = true →
      (∀ k < nrTasks, ahead nrTasks here k < ahead nrTasks here there →
        ∀ q, b.table k = some q → (mode q).runnable = false) →
      Step owner b (.pick rounds) { b with current := p, mode, yields := false }

/-- The runs of the coroutines. -/
abbrev BlockingRun (owner : Nat → TaskPtr) : List (Move Blocking Input) → Blocking → Prop :=
  Trace (Step owner) init

/-! ## Calls, events and returns -/

/-- A move makes a blocking call on a descriptor. -/
def calls (fd : Nat) (move : Move Blocking Input) : Bool := move.input.descriptor = some fd

/-- A move wakes the owner of a descriptor. -/
def wakesOn (fd : Nat) (move : Move Blocking Input) : Bool :=
  match move.before.yields, move.before.doing, move.input with
  | false, .delivering (fd' :: _), .run => fd' = fd
  | _, _, _ => false

/-- A move returns from a blocking call on a descriptor. -/
def returnsFrom (fd : Nat) (move : Move Blocking Input) : Bool :=
  match move.before.yields, move.before.doing, move.input with
  | false, .calling _ fd', .run => fd' = fd
  | _, _, _ => false

/-- The calls, the events and the returns along a history fit together. -/
structure Balanced (owner : Nat → TaskPtr) (past : List (Move Blocking Input)) (b : Blocking) :
    Prop where
  /-- The current coroutine has a slot. -/
  seated : ∃ k, b.table k = some b.current
  /-- Coroutines are in calls on their own descriptors. -/
  owned : ∀ p fd came, (b.mode p).inCall = some (fd, came) → owner fd = p
  /-- Who has no slot is in no call. -/
  strangers : ∀ p, (∀ k, b.table k ≠ some p) → (b.mode p).inCall = none
  /-- Every call has had its event, but for the one that waits for it. -/
  events : ∀ fd, past.countP (calls fd) = past.countP (wakesOn fd) +
    if (b.mode (owner fd)).inCall = some (fd, false) then 1 else 0
  /-- Every event has led to a return, but for the one that is about to. -/
  returns : ∀ fd, past.countP (wakesOn fd) = past.countP (returnsFrom fd) +
    if (b.mode (owner fd)).inCall = some (fd, true) then 1 else 0

variable {owner : Nat → TaskPtr} {past : List (Move Blocking Input)} {b b' : Blocking} {i : Input}

/-- A step with nothing to do with calls keeps the balance. -/
theorem Balanced.quiet (balanced : Balanced owner past b)
    (silent : ∀ fd, calls fd ⟨b, i, b'⟩ = false ∧ wakesOn fd ⟨b, i, b'⟩ = false ∧
      returnsFrom fd ⟨b, i, b'⟩ = false)
    (same : ∀ p, (b'.mode p).inCall = (b.mode p).inCall)
    (seated : ∃ k, b'.table k = some b'.current)
    (strangers : ∀ p, (∀ k, b'.table k ≠ some p) → (b.mode p).inCall = none) :
    Balanced owner (⟨b, i, b'⟩ :: past) b' where
  seated := seated
  owned p fd came inside := balanced.owned p fd came (same p ▸ inside)
  strangers p out := (same p).trans (strangers p out)
  events fd := by
    obtain ⟨none, quiet, _⟩ := silent fd
    rw [List.countP_cons, List.countP_cons, none, quiet, same]
    simpa using balanced.events fd
  returns fd := by
    obtain ⟨_, none, quiet⟩ := silent fd
    rw [List.countP_cons, List.countP_cons, none, quiet, same]
    simpa using balanced.returns fd

/-- A step that moves one coroutine on, in or around a call on a descriptor of its own, keeps the
balance if it does for this descriptor. -/
theorem Balanced.moves (balanced : Balanced owner past b) {p : TaskPtr} {fd : Nat}
    (own : owner fd = p)
    (elsewhere : ∀ fd', fd' ≠ fd → calls fd' ⟨b, i, b'⟩ = false ∧ wakesOn fd' ⟨b, i, b'⟩ = false ∧
      returnsFrom fd' ⟨b, i, b'⟩ = false)
    (others : ∀ q, q ≠ p → (b'.mode q).inCall = (b.mode q).inCall)
    (inside : ∀ fd' came, (b.mode p).inCall = some (fd', came) → fd' = fd)
    (inside' : ∀ fd' came, (b'.mode p).inCall = some (fd', came) → fd' = fd)
    (held : ∃ k, b.table k = some p) (table : b'.table = b.table)
    (current : b'.current = b.current)
    (events : (if calls fd ⟨b, i, b'⟩ then 1 else 0) +
        (if (b.mode p).inCall = some (fd, false) then 1 else 0) =
      (if wakesOn fd ⟨b, i, b'⟩ then 1 else 0) +
        if (b'.mode p).inCall = some (fd, false) then 1 else 0)
    (returns : (if wakesOn fd ⟨b, i, b'⟩ then 1 else 0) +
        (if (b.mode p).inCall = some (fd, true) then 1 else 0) =
      (if returnsFrom fd ⟨b, i, b'⟩ then 1 else 0) +
        if (b'.mode p).inCall = some (fd, true) then 1 else 0) :
    Balanced owner (⟨b, i, b'⟩ :: past) b' := by
  -- for another descriptor nothing changes
  have same {fd' : Nat} (other : fd' ≠ fd) (came : Bool) :
      (b'.mode (owner fd')).inCall = some (fd', came) ↔
        (b.mode (owner fd')).inCall = some (fd', came) := by
    by_cases here : owner fd' = p
    · rw [here]
      constructor
      · intro there
        exact absurd (inside' fd' came there) other
      · intro there
        exact absurd (inside fd' came there) other
    · rw [others _ here]
  constructor
  · rw [table, current]
    exact balanced.seated
  · intro q fd' came there
    by_cases here : q = p
    · rw [here] at there ⊢
      rw [inside' fd' came there]
      exact own
    · rw [others q here] at there
      exact balanced.owned q fd' came there
  · intro q out
    have here : q ≠ p := by
      rintro rfl
      obtain ⟨k, slot⟩ := held
      exact out k (table ▸ slot)
    rw [others q here]
    exact balanced.strangers q fun k => table ▸ out k
  · intro fd'
    have before := balanced.events fd'
    rw [List.countP_cons, List.countP_cons]
    by_cases other : fd' = fd
    · subst other
      rw [own] at before ⊢
      omega
    · obtain ⟨none, none', _⟩ := elsewhere fd' other
      simp only [none, none', same other]
      exact before
  · intro fd'
    have before := balanced.returns fd'
    rw [List.countP_cons, List.countP_cons]
    by_cases other : fd' = fd
    · subst other
      rw [own] at before ⊢
      omega
    · obtain ⟨_, none, none'⟩ := elsewhere fd' other
      simp only [none, none', same other]
      exact before

/-- Going on with something of the same call is no change for the calls. -/
theorem goes_inCall {mode : Mode} (same : mode.inCall = b.doing.inCall) (p : TaskPtr) :
    ((b.goes mode).mode p).inCall = (b.mode p).inCall := by
  unfold goes
  by_cases own : p = b.current
  · simpa [own, doing] using same
  · simp [Function.update_of_ne own]

/-- Everything a coroutine does in its turn keeps the balance. -/
theorem Balanced.acts (balanced : Balanced owner past b) (notYields : b.yields = false)
    (acts : Acts owner b i b') : Balanced owner (⟨b, i, b'⟩ :: past) b' := by
  have seated := balanced.seated
  -- a step that leaves the slots and the calls
  have stays {mode : Mode} {yields : Bool}
      (silent : ∀ fd, calls fd ⟨b, i, { b.goes mode with yields }⟩ = false ∧
        wakesOn fd ⟨b, i, { b.goes mode with yields }⟩ = false ∧
        returnsFrom fd ⟨b, i, { b.goes mode with yields }⟩ = false)
      (same : mode.inCall = b.doing.inCall) :
      Balanced owner (⟨b, i, { b.goes mode with yields }⟩ :: past) { b.goes mode with yields } :=
    balanced.quiet silent (goes_inCall same) seated balanced.strangers
  have rests (silent : ∀ fd, calls fd ⟨b, i, b.rests⟩ = false ∧ wakesOn fd ⟨b, i, b.rests⟩ = false ∧
      returnsFrom fd ⟨b, i, b.rests⟩ = false) : Balanced owner (⟨b, i, b.rests⟩ :: past) b.rests :=
    balanced.quiet silent (fun _ => rfl) seated balanced.strangers
  cases acts with
  | creates cid id p does bound free lowest new =>
    have none := balanced.strangers p new
    refine balanced.quiet ?_ ?_ ?_ ?_
    · simp [calls, wakesOn, returnsFrom, Input.descriptor, does]
    · intro q
      by_cases here : q = p
      · rw [here, none]
        simp [Mode.inCall]
      · simp [Function.update_of_ne here]
    · obtain ⟨k, slot⟩ := seated
      have other : k ≠ id := by
        rintro rfl
        cases free.symm.trans slot
      exact ⟨k, by simpa [Function.update_of_ne other] using slot⟩
    · intro q out
      apply balanced.strangers q
      intro k slot
      have other : k ≠ id := by
        rintro rfl
        cases free.symm.trans slot
      exact out k (by simpa [Function.update_of_ne other] using slot)
  | full cid does =>
    refine balanced.quiet ?_ (fun _ => rfl) seated balanced.strangers
    simp [calls, wakesOn, returnsFrom, Input.descriptor, does]
  | joins cid does =>
    exact stays (by simp [calls, wakesOn, returnsFrom, Input.descriptor, does])
      (by simp [does, Mode.inCall])
  | sleeps seconds does =>
    exact stays (by simp [calls, wakesOn, returnsFrom, Input.descriptor, does])
      (by simp [does, Mode.inCall])
  | blocks call fd granted does own =>
    have out : (b.mode b.current).inCall = none := congrArg Mode.inCall does
    have inside : ((b.goes (.blocked call fd)).mode b.current).inCall = some (fd, false) := by
      simp [goes, Mode.inCall]
    refine balanced.moves own ?_ ?_ ?_ ?_ seated rfl rfl ?_ ?_
    · intro fd' other
      simp [calls, wakesOn, returnsFrom, Input.descriptor, does, Ne.symm other]
    · intro q here
      simp [goes, Function.update_of_ne here]
    · simp [out]
    · simp [inside]
    · rw [out, inside]
      simp [calls, wakesOn, Input.descriptor, does]
    · rw [out, inside]
      simp [returnsFrom, wakesOn, does]
  | loops does =>
    exact stays (by simp [calls, wakesOn, returnsFrom, Input.descriptor, does])
      (by simp [does, Mode.inCall])
  | closes fd does =>
    refine balanced.quiet ?_ (fun _ => rfl) seated balanced.strangers
    simp [calls, wakesOn, returnsFrom, Input.descriptor, does]
  | ends does =>
    exact stays (by simp [calls, wakesOn, returnsFrom, Input.descriptor, does])
      (by simp [does, Mode.inCall])
  | joinsOn cid p does =>
    exact rests (by simp [calls, wakesOn, returnsFrom, Input.descriptor, does])
  | joined cid p does slot ended =>
    have other {k : Nat} (held : b.table k = some b.current) : k ≠ cid := by
      rintro rfl
      obtain rfl := Option.some.inj (slot.symm.trans held)
      cases ended.symm.trans does
    refine balanced.quiet ?_ (goes_inCall (by simp [does, Mode.inCall])) ?_ ?_
    · simp [calls, wakesOn, returnsFrom, Input.descriptor, does]
    · obtain ⟨k, held⟩ := seated
      exact ⟨k, (Function.update_of_ne (other held) _ _).trans held⟩
    · intro q out
      by_cases gone : q = p
      · rw [gone, ended]
        rfl
      · apply balanced.strangers q
        intro k held
        have away : k ≠ cid := by
          rintro rfl
          exact gone (Option.some.inj (held.symm.trans slot))
        exact out k ((Function.update_of_ne away _ _).trans held)
  | waits call fd granted does =>
    exact rests (by simp [calls, wakesOn, returnsFrom, Input.descriptor, does])
  | passes call fd granted does =>
    exact stays (by simp [calls, wakesOn, returnsFrom, Input.descriptor, does])
      (by simp [does, Mode.inCall])
  | returns call fd does =>
    have inside : (b.mode b.current).inCall = some (fd, true) := congrArg Mode.inCall does
    have out : ((b.goes .own).mode b.current).inCall = none := by simp [goes, Mode.inCall]
    refine balanced.moves (balanced.owned _ fd true inside) ?_ ?_ ?_ ?_ seated rfl rfl ?_ ?_
    · intro fd' other
      simp [calls, wakesOn, returnsFrom, Input.descriptor, does, notYields, Ne.symm other]
    · intro q here
      simp [goes, Function.update_of_ne here]
    · rw [inside]
      rintro fd' came ⟨⟩
      rfl
    · simp [out]
    · rw [out, inside]
      simp [calls, wakesOn, Input.descriptor, does]
    · rw [out, inside]
      simp [returnsFrom, wakesOn, does, notYields]
  | idles does =>
    exact rests (by simp [calls, wakesOn, returnsFrom, Input.descriptor, does])
  | reports reports does =>
    exact stays (by simp [calls, wakesOn, returnsFrom, Input.descriptor, does])
      (by simp [does, Mode.inCall])
  | wakes call fd fds does blocked =>
    have away : owner fd ≠ b.current := by
      intro own
      rw [own] at blocked
      cases blocked.symm.trans does
    have inside : (b.mode (owner fd)).inCall = some (fd, false) := congrArg Mode.inCall blocked
    have woken : (Function.update (Function.update b.mode (owner fd) (.woken call fd)) b.current
        (.delivering fds) (owner fd)).inCall = some (fd, true) := by
      simp [Function.update_of_ne away, Mode.inCall]
    refine balanced.moves (show owner fd = owner fd from rfl) ?_ ?_ ?_ ?_ ?_ rfl rfl ?_ ?_
    · intro fd' other
      simp [calls, wakesOn, returnsFrom, Input.descriptor, does, notYields, Ne.symm other]
    · intro q here
      by_cases own : q = b.current
      · rw [own, show b.mode b.current = _ from does]
        simp [Mode.inCall]
      · simp [Function.update_of_ne own, Function.update_of_ne here]
    · rw [inside]
      rintro fd' came ⟨⟩
      rfl
    · rw [woken]
      rintro fd' came ⟨⟩
      rfl
    · apply Classical.byContradiction
      intro out
      cases inside.symm.trans (balanced.strangers _ (not_exists.mp out))
    · rw [woken, inside]
      simp [calls, wakesOn, Input.descriptor, does, notYields]
    · rw [woken, inside]
      simp [returnsFrom, wakesOn, does, notYields]
  | drained does =>
    exact stays (by simp [calls, wakesOn, returnsFrom, Input.descriptor, does])
      (by simp [does, Mode.inCall])
  | cleans does =>
    refine balanced.quiet ?_ (fun _ => rfl) seated balanced.strangers
    simp [calls, wakesOn, returnsFrom, Input.descriptor, does]
  | leaves does =>
    exact rests (by simp [calls, wakesOn, returnsFrom, Input.descriptor, does])

/-- At the start nobody has made a call. -/
theorem Balanced.start (owner : Nat → TaskPtr) : Balanced owner [] init where
  seated := ⟨0, rfl⟩
  owned _ _ _ inside := by cases inside
  strangers _ _ := rfl
  events _ := rfl
  returns _ := rfl

/-- Along every run of the coroutines, the calls, the events and the returns of each descriptor
fit together. -/
theorem balanced_of_run (run : BlockingRun owner past b) : Balanced owner past b := by
  refine run.history_invariant (Balanced owner) (.start owner) ?_
  intro past b i b' balanced step
  cases step with
  | acts i b' notYields acts => exact balanced.acts notYields acts
  | switches rounds here there mode p yields woken _ _ _ held =>
    refine balanced.quiet ?_ ?_ ⟨there, held⟩ balanced.strangers
    · simp [calls, wakesOn, returnsFrom, Input.descriptor]
    · intro q
      show (mode q).inCall = (b.mode q).inCall
      rcases woken q with same | ⟨asleep, up⟩
      · rw [same]
      · rw [asleep, up]
        rfl

end Blocking

end LibcoLite
