import LibcoLite.Lib.Run
import LibcoLite.Lib.Cycle
import LibcoLite.Thread

/-!
# Scheduling

The functions of `sched.c`. `pick` wakes the sleepers whose time has come, then walks the
slots from the one behind the current task, and scans again when the walk comes round to
a current task that is not running. Its rounds are counted down, so that a call that would
spin for ever stops at every count. `pick_spec` says once what a returning call has done.
-/

namespace LibcoLite

open Transition (bind_eq_ok)

/-- `getmstime`: the milliseconds of one clock reading, truncated to an `unsigned int`. -/
def getmstime (s : State) : BitVec 32 × State :=
  let now := s.clock s.readings
  (BitVec.ofNat 32 (now / 1000000 * 1000 + now % 1000000 / 1000),
    { s with readings := s.readings + 1 })

/-- Body of the first loop of `pick`: wake the task of a slot when its time has passed. -/
def wakeSlot (s : State) (i : Nat) : Except Stop State :=
  match s.task i with
  | none => .ok s
  | some p => do
    let tsk ← s.deref p
    if tsk.status = .sleep then
      let (ms, s) := getmstime s
      if ms > tsk.wakeuptime then .ok (s.modify p fun tsk => { tsk with status := .running })
      else .ok s
    else .ok s

/-- The first loop of `pick`, over all slots. -/
def scan (s : State) : Except Stop State :=
  (List.range nrTasks).foldlM wakeSlot s

/-- The second loop of `pick`, from slot `i` on; nothing when it comes round to the current
task. The loop ends within `nrTasks` steps. -/
def findNext (s : State) (currentId : Nat) : Nat → Nat → Except Stop (Option TaskPtr)
  | 0, _ => .error .spinning
  | steps + 1, i =>
    let i := (i + 1) % nrTasks
    if i = currentId then .ok none
    else
      match s.task i with
      | none => findNext s currentId steps i
      | some p => do
        let tsk ← s.deref p
        if tsk.status = .running then .ok (some p) else findNext s currentId steps i

/-- `pick`, allowed the given number of rounds from the label `repeat`. -/
def pick : Nat → State → Except Stop (State × TaskPtr)
  | 0, _ => .error .spinning
  | rounds + 1, s => do
    let current ← s.deref s.current
    let s ← scan s
    match ← findNext s current.id nrTasks current.id with
    | some next => .ok (s, next)
    | none =>
      if (s.tasks s.current).status = .running then .ok (s, s.current) else pick rounds s

/-- `co_switch_to`: the task the thread executes next. -/
def coSwitchTo (s : State) (next : TaskPtr) : Except Stop State := do
  let tsk ← s.deref next
  if tsk.threadEnv = some s.self then
    if s.current = next then .ok s else .ok { s with current := next }
  else .error .foreign

/-- `schedule`. -/
def schedule (rounds : Nat) (s : State) : Except Stop State := do
  let (s, next) ← pick rounds s
  coSwitchTo s next

/-- `co_sleep` up to its call of `schedule`. -/
def coSleep (seconds : Int) (s : State) : State :=
  let (ms, s) := getmstime s
  s.modify s.current fun tsk =>
    { tsk with wakeuptime := ms + BitVec.ofInt 32 (1000 * seconds), status := .sleep }

/-! ## What `pick` does -/

/-- Some sleeping tasks became running, and clock readings were taken. -/
structure Woken (s s' : State) : Prop where
  /-- Nothing but task blocks and the count of readings changes. -/
  frame : s' = { s with tasks := s'.tasks, readings := s'.readings }
  /-- A block keeps its contents or turns from sleeping to running. -/
  block : ∀ p, s'.tasks p = s.tasks p ∨
    (s.tasks p).status = .sleep ∧ s'.tasks p = { s.tasks p with status := .running }

namespace Woken

/-- Waking no task. -/
theorem refl (s : State) : Woken s s := ⟨rfl, fun _ => .inl rfl⟩

/-- Wakings compose. -/
theorem trans {s middle s' : State} (first : Woken s middle) (second : Woken middle s') :
    Woken s s' where
  frame := by
    rw [second.frame, first.frame]
  block p := by
    rcases second.block p with same | ⟨asleep, woken⟩
    · rw [same]; exact first.block p
    · rcases first.block p with same | ⟨_, already⟩
      · rw [same] at asleep woken
        exact .inr ⟨asleep, woken⟩
      · rw [already] at asleep
        cases asleep

variable {s s' : State}

theorem env (woken : Woken s s') : s'.toThreadEnv = s.toThreadEnv := by rw [woken.frame]
theorem self (woken : Woken s s') : s'.self = s.self := by rw [woken.frame]
theorem links (woken : Woken s s') : s'.links = s.links := by rw [woken.frame]
theorem live (woken : Woken s s') : s'.live = s.live := by rw [woken.frame]
theorem fresh (woken : Woken s s') : s'.fresh = s.fresh := by rw [woken.frame]
theorem pc (woken : Woken s s') : s'.pc = s.pc := by rw [woken.frame]
theorem interest (woken : Woken s s') : s'.interest = s.interest := by rw [woken.frame]
theorem clock (woken : Woken s s') : s'.clock = s.clock := by rw [woken.frame]

/-- Only the status of a task can change. -/
theorem fields (woken : Woken s s') (p : TaskPtr) :
    s'.tasks p = { s.tasks p with status := (s'.tasks p).status } := by
  rcases woken.block p with same | ⟨_, same⟩ <;> rw [same]

/-- A status other than sleeping stays. -/
theorem status (woken : Woken s s') {p : TaskPtr} (awake : (s.tasks p).status ≠ .sleep) :
    (s'.tasks p).status = (s.tasks p).status := by
  rcases woken.block p with same | ⟨asleep, _⟩
  · rw [same]
  · exact absurd asleep awake

end Woken

/-- Every occupied slot holds a live task. -/
def TableLive (s : State) : Prop := ∀ i p, s.task i = some p → s.live p = true

theorem wakeSlot_spec {s : State} (table : TableLive s) (i : Nat) :
    ∃ s', wakeSlot s i = .ok s' ∧ Woken s s' := by
  unfold wakeSlot
  cases slot : s.task i with
  | none => exact ⟨s, rfl, .refl s⟩
  | some p =>
    have found : s.deref p = .ok (s.tasks p) := by simp [State.deref, table i p slot]
    simp only [found, bind, Except.bind]
    split
    · rename_i asleep
      split
      · refine ⟨_, rfl, rfl, fun q => ?_⟩
        by_cases same : q = p
        · subst same
          exact .inr ⟨asleep, by simp [State.modify, getmstime]⟩
        · exact .inl (by simp [State.modify, getmstime, Function.update_of_ne same])
      · exact ⟨_, rfl, rfl, fun q => .inl rfl⟩
    · exact ⟨s, rfl, .refl s⟩

/-- Waking leaves the table as it is. -/
theorem TableLive.woken {s s' : State} (table : TableLive s) (woken : Woken s s') :
    TableLive s' := by
  intro i p slot
  rw [woken.live]
  exact table i p (by rw [← woken.env]; exact slot)

/-- Scanning slots wakes some sleepers. -/
theorem foldlM_wakeSlot_spec {s : State} (table : TableLive s) (slots : List Nat) :
    ∃ s', slots.foldlM wakeSlot s = .ok s' ∧ Woken s s' := by
  induction slots generalizing s with
  | nil => exact ⟨s, rfl, .refl s⟩
  | cons i rest ih =>
    obtain ⟨middle, ok, woken⟩ := wakeSlot_spec table i
    obtain ⟨s', done, later⟩ := ih (table.woken woken)
    refine ⟨s', ?_, woken.trans later⟩
    rw [List.foldlM_cons, ok]
    exact done

/-- The first loop of `pick` wakes some sleepers. -/
theorem scan_spec {s : State} (table : TableLive s) :
    ∃ s', scan s = .ok s' ∧ Woken s s' :=
  foldlM_wakeSlot_spec table _

/-- A slot holds a running task. -/
def RunningSlot (s : State) (j : Nat) : Prop :=
  ∃ p, s.task j = some p ∧ (s.tasks p).status = .running

section

open Cycle

/-- What a walk finds that has passed the slots up to `walked` steps behind slot `c`: the nearest
running task behind these, or nothing when there is none before slot `c`. -/
def NearestRunning (s : State) (c walked : Nat) : Option TaskPtr → Prop
  | none => ∀ j < nrTasks, walked < ahead nrTasks c j → ahead nrTasks c j < nrTasks →
      ¬RunningSlot s j
  | some p => ∃ j < nrTasks, s.task j = some p ∧ (s.tasks p).status = .running ∧
      walked < ahead nrTasks c j ∧ ahead nrTasks c j < nrTasks ∧
      ∀ k < nrTasks, walked < ahead nrTasks c k → ahead nrTasks c k < ahead nrTasks c j →
        ¬RunningSlot s k

/-- A walk passes a slot that is not running. -/
theorem NearestRunning.pass {s : State} {c walked : Nat} {found : Option TaskPtr}
    (nearest : NearestRunning s c (walked + 1) found)
    (idle : ∀ j < nrTasks, ahead nrTasks c j = walked + 1 → ¬RunningSlot s j) :
    NearestRunning s c walked found := by
  have nearer : ∀ k < nrTasks, walked < ahead nrTasks c k → ¬walked + 1 < ahead nrTasks c k →
      ¬RunningSlot s k := by
    intro k small far near
    exact idle k small (by omega)
  cases found with
  | none =>
    intro j small far near
    by_cases further : walked + 1 < ahead nrTasks c j
    · exact nearest j small further near
    · exact nearer j small far further
  | some p =>
    obtain ⟨j, small, slot, running, far, near, before⟩ := nearest
    refine ⟨j, small, slot, running, by omega, near, ?_⟩
    intro k bound far' near'
    by_cases further : walked + 1 < ahead nrTasks c k
    · exact before k bound further near'
    · exact nearer k bound far' further

/-- From `walked` steps behind the current slot, the walk finds the nearest running slot,
or comes round when there is none before the current slot. -/
theorem findNext_spec {s : State} (table : TableLive s) {c : Nat} (inside : c < nrTasks)
    (steps walked : Nat) (left : 0 < steps) (total : walked + steps = nrTasks) :
    ∃ found, findNext s c steps (reached nrTasks c walked) = .ok found ∧
      NearestRunning s c walked found := by
  induction steps generalizing walked with
  | zero => contradiction
  | succ steps ih =>
    have bound : walked + 1 ≤ nrTasks := by omega
    have here : ahead nrTasks c (reached nrTasks c (walked + 1)) = walked + 1 :=
      ahead_reached inside (by omega) bound
    have slotBound := reached_lt inside bound
    -- a slot at the next distance is the slot the walk looks at
    have only : ∀ j < nrTasks, ahead nrTasks c j = walked + 1 →
        j = reached nrTasks c (walked + 1) := fun j small distance =>
      ahead_inj inside small slotBound (distance.trans here.symm)
    simp only [findNext, reached_succ inside (show walked < nrTasks by omega)]
    by_cases round : reached nrTasks c (walked + 1) = c
    · rw [if_pos round]
      refine ⟨none, rfl, ?_⟩
      intro j small far near
      rw [round, ahead_self] at here
      omega
    · rw [if_neg round]
      have more : walked + 1 < nrTasks := by
        have := ahead_lt inside slotBound round
        omega
      -- when the slot is not running, the rest of the walk decides
      have skip (idle : ¬RunningSlot s (reached nrTasks c (walked + 1))) :
          ∃ found, findNext s c steps (reached nrTasks c (walked + 1)) = .ok found ∧
            NearestRunning s c walked found := by
        obtain ⟨found, ok, nearest⟩ := ih (walked + 1) (by omega) (by omega)
        refine ⟨found, ok, nearest.pass ?_⟩
        intro j small distance
        rw [only j small distance]
        exact idle
      cases slot : s.task (reached nrTasks c (walked + 1)) with
      | none => exact skip (by simp [RunningSlot, slot])
      | some p =>
        have found : s.deref p = .ok (s.tasks p) := by simp [State.deref, table _ p slot]
        simp only [found, bind, Except.bind]
        by_cases running : (s.tasks p).status = .running
        · rw [if_pos running]
          exact ⟨some p, rfl, _, slotBound, slot, running, by omega, by omega,
            fun k small far near => by omega⟩
        · rw [if_neg running]
          apply skip
          rintro ⟨q, held, active⟩
          obtain rfl := Option.some.inj (slot.symm.trans held)
          exact running active

end

/-- The current task is live and sits in the slot of its id. -/
structure Seated (s : State) : Prop where
  /-- The current block is live. -/
  alive : s.live s.current = true
  /-- Its id is a slot. -/
  bound : (s.tasks s.current).id < nrTasks
  /-- That slot holds the current task. -/
  slot : s.task (s.tasks s.current).id = some s.current

/-- Waking leaves the current task in its slot. -/
theorem Seated.woken {s s' : State} (seated : Seated s) (woken : Woken s s') : Seated s' := by
  have current : s'.current = s.current := by rw [woken.env]
  have same : (s'.tasks s'.current).id = (s.tasks s.current).id := by
    rw [current, woken.fields]
  constructor
  · rw [woken.live, current]; exact seated.alive
  · rw [same]; exact seated.bound
  · rw [same, current, woken.env]; exact seated.slot

/-- What a returning `pick` has done: it woke sleepers and found the running task of the
slot that the walk behind the current slot meets first. -/
structure Picked (s s' : State) (p : TaskPtr) : Prop where
  /-- Nothing but sleepers changed. -/
  woken : Woken s s'
  /-- The task found sits in the nearest running slot. -/
  nearest : ∃ j < nrTasks, s'.task j = some p ∧ (s'.tasks p).status = .running ∧
    ∀ k < nrTasks, Cycle.ahead nrTasks (s.tasks s.current).id k <
      Cycle.ahead nrTasks (s.tasks s.current).id j → ¬RunningSlot s' k

open Cycle in
/-- One round of `pick` scans, then ends with the nearest running task or shows that no slot
runs. -/
theorem pick_round {s : State} (table : TableLive s) (seated : Seated s) (rounds : Nat) :
    ∃ middle, scan s = .ok middle ∧ Woken s middle ∧
      ((∃ p, pick (rounds + 1) s = .ok (middle, p) ∧ Picked s middle p) ∨
        pick (rounds + 1) s = pick rounds middle ∧ ∀ j < nrTasks, ¬RunningSlot middle j) := by
  obtain ⟨middle, scanned, woken⟩ := scan_spec table
  refine ⟨middle, scanned, woken, ?_⟩
  have seated' := seated.woken woken
  have current : middle.current = s.current := by rw [woken.env]
  have own : (middle.tasks s.current).id = (s.tasks s.current).id := by rw [woken.fields]
  have start : reached nrTasks (s.tasks s.current).id 0 = (s.tasks s.current).id :=
    reached_zero seated.bound
  obtain ⟨found, walked, outcome⟩ := findNext_spec (table.woken woken) seated.bound nrTasks 0
    (by decide) (Nat.zero_add _)
  rw [start] at walked
  have deref : s.deref s.current = .ok (s.tasks s.current) := by
    simp [State.deref, seated.alive]
  cases found with
  | some p =>
    have unfolded : pick (rounds + 1) s = .ok (middle, p) := by
      simp only [pick, deref, scanned, walked, bind, Except.bind]
    obtain ⟨j, bound, slot, running, _, _, before⟩ := outcome
    exact .inl ⟨p, unfolded, woken, j, bound, slot, running, fun k small near =>
      before k small (ahead_pos seated.bound) near⟩
  | none =>
    have unfolded : pick (rounds + 1) s =
        if (middle.tasks middle.current).status = .running then .ok (middle, middle.current)
        else pick rounds middle := by
      simp only [pick, deref, scanned, walked, bind, Except.bind]
    have idle : ∀ k < nrTasks, k ≠ (s.tasks s.current).id → ¬RunningSlot middle k :=
      fun k small other => outcome k small (ahead_pos seated.bound)
        (ahead_lt seated.bound small other)
    by_cases running : (middle.tasks middle.current).status = .running
    · left
      simp only [running, ↓reduceIte] at unfolded
      refine ⟨_, unfolded, woken, _, seated'.bound, seated'.slot, running,
        fun k small near => idle k small fun same => ?_⟩
      rw [same, current, own] at near
      omega
    · right
      simp only [running, ↓reduceIte] at unfolded
      refine ⟨unfolded, fun j small => ?_⟩
      by_cases other : j = (s.tasks s.current).id
      · rintro ⟨p, held, active⟩
        have slot := seated'.slot
        rw [current, own, ← other] at slot
        rw [current] at running
        exact running (Option.some.inj (slot.symm.trans held) ▸ active)
      · exact idle j small other

/-- A returning `pick` returns the nearest running task. -/
theorem pick_spec {rounds : Nat} {s s' : State} {p : TaskPtr} (table : TableLive s)
    (seated : Seated s) (returned : pick rounds s = .ok (s', p)) : Picked s s' p := by
  induction rounds generalizing s with
  | zero => cases returned
  | succ rounds ih =>
    obtain ⟨middle, _, woken, ⟨_, ok, picked⟩ | ⟨ok, _⟩⟩ := pick_round table seated rounds
    · obtain ⟨rfl, rfl⟩ := Prod.mk.inj (Except.ok.inj (ok.symm.trans returned))
      exact picked
    · obtain ⟨later, nearest⟩ := ih (table.woken woken) (seated.woken woken)
        (ok.symm.trans returned)
      have current : middle.current = s.current := by rw [woken.env]
      have own : (middle.tasks s.current).id = (s.tasks s.current).id := by rw [woken.fields]
      rw [current, own] at nearest
      exact ⟨woken.trans later, nearest⟩

/-- `pick` never accesses a freed task; it can only go on spinning. -/
theorem pick_error {rounds : Nat} {s : State} {stop : Stop} (table : TableLive s)
    (seated : Seated s) (stopped : pick rounds s = .error stop) : stop = .spinning := by
  induction rounds generalizing s with
  | zero => exact (Except.error.inj stopped).symm
  | succ rounds ih =>
    obtain ⟨middle, _, woken, ⟨_, ok, _⟩ | ⟨ok, _⟩⟩ := pick_round table seated rounds
    · cases ok.symm.trans stopped
    · exact ih (table.woken woken) (seated.woken woken) (ok.symm.trans stopped)

/-- While some slot runs, `pick` returns in its first round. -/
theorem pick_returns {s : State} (table : TableLive s) (seated : Seated s) {j : Nat}
    (bound : j < nrTasks) (running : RunningSlot s j) (rounds : Nat) :
    ∃ s' p, pick (rounds + 1) s = .ok (s', p) := by
  obtain ⟨middle, _, woken, ⟨p, ok, _⟩ | ⟨_, idle⟩⟩ := pick_round table seated rounds
  · exact ⟨middle, p, ok⟩
  · obtain ⟨p, held, active⟩ := running
    refine absurd ⟨p, ?_, ?_⟩ (idle j bound)
    · rw [woken.env]; exact held
    · rw [woken.status (by simp [active])]; exact active

end LibcoLite
