import LibcoLite.BlockQueue
import LibcoLite.Replay

/-!
# Well-formed queues

The clean-up loop of `start` removes the finishing task from the queue of every descriptor
it ever recorded, through the link fields of its last wait. The queues stay well formed
exactly as long as those fields describe the queue the removal names.
-/

namespace LibcoLite

open TailQueue
open Transition (Along)

/-- The link fields of a finishing task fit the removal it performs: without a successor,
its back link names the head of the descriptor it takes back. -/
structure FieldsFit (s : State) (i : Input) : Prop where
  /-- A task without successor takes back the descriptor its back link names. -/
  last : Releases s i → s.links.next s.current = none →
    s.links.prev s.current = some (.first (s.tasks s.current).lastFd)
  /-- A successor is queued behind the head the back link names. -/
  successor : Releases s i → SuccessorQueued s

/-- True ends and fitting fields make a step orderly. -/
theorem orderly_of_ends {queue : Nat → List TaskPtr} {s : State} {i : Input}
    (queueing : Queueing queue s) (ends : Ends s.links queue) (fit : FieldsFit s i) :
    Orderly s i :=
  ⟨fit.successor, fun fd _ => ⟨queue fd, queueing.spells.chain fd, ends fd⟩⟩

/-- A step with fitting fields keeps the cached ends true. -/
theorem ends_step {queue queue' : Nat → List TaskPtr} {s s' : State} {i : Input}
    (ends : Ends s.links queue) (fit : FieldsFit s i) (changed : QueueStep queue s i s' queue') :
    Ends s'.links queue' := by
  intro fd
  cases changed with
  | keeps last => rw [last]; exact ends fd
  | appends call fd' granted appends blocked free end_ last =>
    rw [last]
    by_cases here : fd = fd'
    · subst here; simp
    · simpa [Function.update_of_ne here] using ends fd
  | removes ev rest p behind pc shape last =>
    rw [last]
    by_cases here : fd = ev.dataFd
    · subst here
      by_cases empty : behind = []
      · simp [empty, endCell]
      · have old := ends ev.dataFd
        obtain ⟨next, tail, rfl⟩ := List.exists_cons_of_ne_nil empty
        rw [shape] at old
        simpa [endCell] using old
    · by_cases empty : behind = []
      · simpa [empty, Function.update_of_ne here] using ends fd
      · simpa [empty, Function.update_of_ne here] using ends fd
  | clears head releases next prev links =>
    obtain rfl : (s.tasks s.current).lastFd = head :=
      Link.first.inj (Option.some.inj ((fit.last releases next).symm.trans prev))
    rw [links]
    by_cases here : fd = (s.tasks s.current).lastFd
    · subst here; simp [endCell]
    · simpa [Function.update_of_ne here] using ends fd
  | cuts head first rest after releases next prev shape links =>
    rw [links]
    by_cases here : fd = head
    · subst here
      have old := ends fd
      rw [shape, endCell_suffix] at old
      simpa [endCell] using old
    · simpa [Function.update_of_ne here] using ends fd

/-- In every run in which the link fields of finishing tasks fit their removals, the queues
are well formed after every step. -/
theorem queues_well_formed {self : EnvPtr} {clock : Nat → Nat} {past : History} {s : State}
    (run : ThreadRun self clock past s)
    (fits : Along (fun move => FieldsFit move.before move.input) past) : WellFormed s.links := by
  obtain ⟨_, queue, queueing, ends⟩ := run.invariant _
    (fun s => Integrity s ∧ ∃ queue, Queueing queue s ∧ Ends s.links queue)
    ⟨Integrity.init self clock, _, Queueing.init self clock, ends_init⟩
    (fun s i s' ⟨inv, queue, queueing, ends⟩ fit taken => by
      obtain ⟨queue', changed, queueing'⟩ :=
        queueing.step inv (orderly_of_ends queueing ends fit) taken
      exact ⟨inv.step taken, queue', queueing', ends_step ends fit changed⟩) fits
  exact ⟨queue, queueing.spells, ends⟩

/-- A coroutine reads from one descriptor and finishes. -/
def oneDescriptor : List Input :=
  [.create none, .eventloop, .ready (some []), .pick 1, .io .read 3 true, .ctl true, .pick 1,
    .ready (some [(3, epollIn)]), .run, .run, .pick 1, .ctl true, .run, .ret, .run]

/-- The queues are well formed after a coroutine with one descriptor. -/
theorem queues_well_formed_oneDescriptor : WellFormed (replay 2 oneDescriptor).links := by
  have run := run_of_replay 2 oneDescriptor (by decide) (by decide)
    (by decide +kernel)
  have checked : ∀ move ∈ replayMoves 2 oneDescriptor,
      move.before.pc move.before.current = .cleanup →
      move.before.links.next move.before.current = none ∧
      move.before.links.prev move.before.current =
        some (.first (move.before.tasks move.before.current).lastFd) := by decide +kernel
  exact queues_well_formed run fun move member =>
    ⟨fun releases _ => (checked move member releases.2.1).2, fun releases after next => by
      cases next.symm.trans (checked move member releases.2.1).1⟩

/-- A coroutine reads from one descriptor, then from another one, and finishes. -/
def twoDescriptors : List Input :=
  [.create none, .eventloop, .ready (some []), .pick 1, .io .read 3 true, .ctl true, .pick 1,
    .ready (some [(3, epollIn)]), .run, .run, .pick 1, .ctl true, .run,
    .io .read 4 true, .ctl true, .pick 1,
    .ready (some [(4, epollIn)]), .run, .run, .pick 1, .ctl true, .run, .ret, .run, .run]

/-- The queues do not stay well formed in every run: when the coroutine takes back its first
descriptor, the end of that queue becomes the head of the other one. -/
theorem queues_well_formed_fails : ¬∀ (past : History) (s : State),
    ThreadRun 0 ticking past s → Along InRange past →
    WellFormed s.links := by
  intro wellFormed
  have run := run_of_replay 2 twoDescriptors (by decide) (by decide)
    (by decide +kernel)
  obtain ⟨queue, _, ends⟩ := wellFormed _ _ run (by unfold Along; decide +kernel)
  have foreign : (replay 2 twoDescriptors).links.last 3 = some (.first 4) := by decide +kernel
  have same := endCell_first (Option.some.inj ((ends 3).symm.trans foreign))
  contradiction

end LibcoLite
