import LibcoLite.Thread

/-!
# The kernel's interest list

The part of epoll the library relies on. Adding a descriptor that is present fails, and so
does modifying or deleting an absent one. The kernel may also refuse an addition or a
modification for reasons of its own; a deletion of a present descriptor succeeds. Waiting
reports pairwise distinct registered descriptors, each with some of the bits it was
registered for or with an error or a hang-up, which are always reported.
-/

namespace LibcoLite

/-- The operations of `epoll_ctl`, with the event they pass. -/
inductive CtlOp where
  /-- `EPOLL_CTL_ADD`. -/
  | add (event : EpollEvent)
  /-- `EPOLL_CTL_MOD`. -/
  | mod (event : EpollEvent)
  /-- `EPOLL_CTL_DEL`. -/
  | del
deriving DecidableEq, Repr

/-- `epoll_ctl`: the interest list after the call, and what the call returns. The flag tells
whether the kernel grants what it may refuse. -/
def epollCtl (granted : Bool) (op : CtlOp) (fd : Nat) (interest : Nat → Option EpollEvent) :
    (Nat → Option EpollEvent) × Int :=
  match op, interest fd with
  | .add event, none =>
    if granted then (Function.update interest fd (some event), 0) else (interest, -1)
  | .add _, some _ => (interest, -1)
  | .mod event, some _ =>
    if granted then (Function.update interest fd (some event), 0) else (interest, -1)
  | .mod _, none => (interest, -1)
  | .del, some _ => (Function.update interest fd none, 0)
  | .del, none => (interest, -1)

/-- The entry an operation leaves when it succeeds. -/
def CtlOp.entry : CtlOp → Option EpollEvent
  | .add event => some event
  | .mod event => some event
  | .del => none

/-- A call changes the entry of its descriptor, or fails and changes nothing. -/
theorem epollCtl_cases (granted : Bool) (op : CtlOp) (fd : Nat)
    (interest : Nat → Option EpollEvent) :
    epollCtl granted op fd interest = (Function.update interest fd op.entry, 0) ∨
      epollCtl granted op fd interest = (interest, -1) := by
  cases op with
  | add event =>
    cases present : interest fd with
    | none => cases granted <;> simp [epollCtl, present, CtlOp.entry]
    | some entry => simp [epollCtl, present]
  | mod event =>
    cases present : interest fd with
    | none => simp [epollCtl, present]
    | some entry => cases granted <;> simp [epollCtl, present, CtlOp.entry]
  | del =>
    cases present : interest fd with
    | none => simp [epollCtl, present]
    | some entry => simp [epollCtl, present, CtlOp.entry]

/-- A call touches the entry of its own descriptor only. -/
theorem epollCtl_other {granted : Bool} {op : CtlOp} {fd other : Nat}
    {interest : Nat → Option EpollEvent} (different : other ≠ fd) :
    (epollCtl granted op fd interest).1 other = interest other := by
  rcases epollCtl_cases granted op fd interest with done | refused
  · rw [done]
    exact Function.update_of_ne different _ _
  · rw [refused]

/-- A failing call leaves the interest list as it is. -/
theorem epollCtl_failed {granted : Bool} {op : CtlOp} {fd : Nat}
    {interest : Nat → Option EpollEvent} (failed : (epollCtl granted op fd interest).2 < 0) :
    (epollCtl granted op fd interest).1 = interest := by
  rcases epollCtl_cases granted op fd interest with done | refused
  · rw [done] at failed
    contradiction
  · rw [refused]

/-- A successful addition or modification leaves its event as the entry. -/
theorem epollCtl_granted {granted : Bool} {op : CtlOp} {event : EpollEvent} {fd : Nat}
    {interest : Nat → Option EpollEvent} (stores : op = .add event ∨ op = .mod event)
    (succeeded : ¬(epollCtl granted op fd interest).2 < 0) :
    (epollCtl granted op fd interest).1 = Function.update interest fd (some event) := by
  have entry : op.entry = some event := by
    rcases stores with rfl | rfl
    · rfl
    · rfl
  rcases epollCtl_cases granted op fd interest with done | refused
  · rw [done, entry]
  · rw [refused] at succeeded
    have negative : (-1 : Int) < 0 := by decide
    exact absurd negative succeeded

/-- After a deletion the descriptor is absent. -/
theorem epollCtl_del {granted : Bool} {fd : Nat} {interest : Nat → Option EpollEvent} :
    (epollCtl granted .del fd interest).1 = Function.update interest fd none := by
  unfold epollCtl
  cases present : interest fd with
  | some => rfl
  | none => exact (Function.update_eq_self_iff.mpr present.symm).symm

/-- The bits that may be reported for a descriptor. -/
def mayReport (interest : Nat → Option EpollEvent) (fd : Nat) (events : Mask) : Bool :=
  match interest fd with
  | some entry => events ≠ 0 ∧ events &&& ~~~(entry.events ||| epollErr ||| epollHup) = 0
  | none => false

/-- Only registered descriptors are reported. -/
theorem mayReport_registered {interest : Nat → Option EpollEvent} {fd : Nat} {events : Mask}
    (may : mayReport interest fd events = true) : ∃ entry, interest fd = some entry := by
  unfold mayReport at may
  split at may
  · exact ⟨_, ‹_›⟩
  · contradiction

/-- `epoll_wait` on its array of 1024 entries: the events it writes when the listed
descriptors are reported ready with the listed bits, if the kernel may report this. -/
def epollWait (interest : Nat → Option EpollEvent) (ready : List (Nat × Mask)) :
    Option (List EpollEvent) :=
  if (ready.map Prod.fst).Nodup ∧ ready.length ≤ 1024 ∧
      ∀ report ∈ ready, mayReport interest report.1 report.2 then
    some (ready.map fun report =>
      ⟨report.2, (interest report.1).elim 0 EpollEvent.dataFd⟩)
  else none

end LibcoLite
