import Mathlib.Logic.Function.Basic
import Mathlib.Data.List.Nodup

/-!
# Intrusive tail queues

Several doubly linked tail queues share one pair of link fields per element. A cell is
addressed by the head or by the element that holds it; an element keeps the address of
the cell that points to it, so that it can be removed without knowing its queue. The
operations perform the stores of the usual macros one after another and fail on a null or
a freed operand. `Queues` relates the links to one list per head; `Ends` adds the address
of the last cell, which each head caches.
-/

namespace TailQueue

/-- Address of a cell that points to an element. -/
inductive Link (ι α : Type*) where
  /-- The first cell of a head. -/
  | first (head : ι)
  /-- The next cell of an element. -/
  | next (element : α)
deriving DecidableEq

/-- Why an operation cannot be performed. -/
inductive Fault where
  /-- A null pointer is dereferenced. -/
  | null
  /-- A freed element is accessed. -/
  | freed
deriving DecidableEq, Repr

/-- Every link field of the memory: two per head and two per element. -/
structure Links (ι α : Type*) where
  /-- First element of a head. -/
  first : ι → Option α
  /-- Address of the last cell of a head. -/
  last : ι → Option (Link ι α)
  /-- Successor of an element. -/
  next : α → Option α
  /-- Address of the cell that points to an element. -/
  prev : α → Option (Link ι α)

variable {ι α : Type*}

/-- All heads empty, all elements zeroed. -/
def Links.init : Links ι α where
  first _ := none
  last head := some (.first head)
  next _ := none
  prev _ := none

/-- Contents of a cell. -/
def Links.load (links : Links ι α) : Link ι α → Option α
  | .first head => links.first head
  | .next element => links.next element

variable [DecidableEq ι] [DecidableEq α]

/-- Store through the address of a cell. -/
def Links.store (live : α → Bool) (links : Links ι α) (value : Option α) :
    Option (Link ι α) → Except Fault (Links ι α)
  | none => .error .null
  | some (.first head) => .ok { links with first := Function.update links.first head value }
  | some (.next element) =>
    if live element then
      .ok { links with next := Function.update links.next element value }
    else .error .freed

/-- Append an element to a queue. -/
def Links.insertTail (live : α → Bool) (links : Links ι α) (head : ι) (element : α) :
    Except Fault (Links ι α) :=
  if live element then
    let links := { links with next := Function.update links.next element none }
    let links := { links with prev := Function.update links.prev element (links.last head) }
    (links.store live (some element) (links.last head)).map fun links =>
      { links with last := Function.update links.last head (some (.next element)) }
  else .error .freed

/-- Tell the successor of a removed element, or else its head, the cell before it. -/
def Links.bypass (live : α → Bool) (links : Links ι α) (head : ι) (element : α) :
    Except Fault (Links ι α) :=
  match links.next element with
  | some after =>
    if live after then
      .ok { links with prev := Function.update links.prev after (links.prev element) }
    else .error .freed
  | none => .ok { links with last := Function.update links.last head (links.prev element) }

/-- Unlink an element; its own link fields keep their values. -/
def Links.remove (live : α → Bool) (links : Links ι α) (head : ι) (element : α) :
    Except Fault (Links ι α) :=
  if live element then
    (links.bypass live head element).bind fun links =>
      links.store live (links.next element) (links.prev element)
  else .error .freed

/-- Storing through the address of a live cell changes the contents of that cell only. -/
theorem store_spec {live : α → Bool} (links : Links ι α) (value : Option α) {cell : Link ι α}
    (alive : ∀ element, cell = .next element → live element = true) :
    ∃ links', links.store live value (some cell) = .ok links' ∧ links'.prev = links.prev ∧
      links'.last = links.last ∧
      ∀ other, links'.load other = if other = cell then value else links.load other := by
  cases cell with
  | first head =>
    refine ⟨_, rfl, rfl, rfl, fun other => ?_⟩
    cases other <;> simp [Links.load, Function.update_apply]
  | next element =>
    refine ⟨{ links with next := Function.update links.next element value },
      by simp [Links.store, alive element rfl], rfl, rfl, fun other => ?_⟩
    cases other <;> simp [Links.load, Function.update_apply]

/-- Removing an element without successor, whose cell is the first cell of some head, clears
that cell and makes it the cached end of the head the removal names. -/
theorem Links.remove_last {live : α → Bool} {links : Links ι α} {head owner : ι}
    {element : α} (alive : live element = true) (next : links.next element = none)
    (prev : links.prev element = some (.first owner)) :
    links.remove live head element = .ok { links with
      last := Function.update links.last head (some (.first owner))
      first := Function.update links.first owner none } := by
  simp [Links.remove, Links.bypass, alive, next, prev, Except.bind, Links.store]

/-- Removing an element with a live successor, whose cell is the first cell of some head,
makes that successor the first element of that head, whatever head the removal names. -/
theorem Links.remove_before {live : α → Bool} {links : Links ι α} {head owner : ι}
    {element after : α} (alive : live element = true)
    (next : links.next element = some after) (alive' : live after = true)
    (prev : links.prev element = some (.first owner)) :
    links.remove live head element = .ok { links with
      prev := Function.update links.prev after (some (.first owner))
      first := Function.update links.first owner (some after) } := by
  by_cases same : element = after
  · subst same
    simp [Links.remove, Links.bypass, alive, next, prev, Except.bind, Links.store]
  · simp [Links.remove, Links.bypass, alive, alive', next, prev, Except.bind, Links.store,
      Function.update_of_ne same]

/-- The links behind the removal of a first element, the rest of whose list is given. -/
def Links.dropFirst (links : Links ι α) (head : ι) : List α → Links ι α
  | [] => { links with
      last := Function.update links.last head (some (.first head))
      first := Function.update links.first head none }
  | after :: _ => { links with
      prev := Function.update links.prev after (some (.first head))
      first := Function.update links.first head (some after) }

/-- Dropping the first elements of two heads whose lists share no element commutes. -/
theorem Links.dropFirst_comm (links : Links ι α)
    {head other : ι} {rest behind : List α} (different : head ≠ other)
    (apart : ∀ element ∈ rest, element ∉ behind) :
    (links.dropFirst head rest).dropFirst other behind =
      (links.dropFirst other behind).dropFirst head rest := by
  cases rest with
  | nil =>
    cases behind with
    | nil =>
      simp only [Links.dropFirst, Function.update_comm different]
    | cons after behind =>
      simp only [Links.dropFirst, Function.update_comm different]
  | cons first rest =>
    cases behind with
    | nil =>
      simp only [Links.dropFirst, Function.update_comm different]
    | cons after behind =>
      have distinct : first ≠ after := by
        intro same
        exact apart first List.mem_cons_self (same ▸ List.mem_cons_self)
      simp only [Links.dropFirst, Function.update_comm different, Function.update_comm distinct]

/-! ## Chains of cells -/

omit [DecidableEq ι] [DecidableEq α]

/-- From a cell on, the cells hold the listed elements in order and end in null, and every
element knows the cell that points to it. -/
def Chain (links : Links ι α) : Link ι α → List α → Prop
  | cell, [] => links.load cell = none
  | cell, element :: rest =>
    links.load cell = some element ∧ links.prev element = some cell ∧
      Chain links (.next element) rest

instance Chain.decidable (links : Links ι α) :
    (cell : Link ι α) → (elements : List α) → Decidable (Chain links cell elements)
  | cell, [] => inferInstanceAs (Decidable (links.load cell = none))
  | cell, element :: rest =>
    have := Chain.decidable links (.next element) rest
    inferInstanceAs (Decidable (links.load cell = some element ∧
      links.prev element = some cell ∧ Chain links (.next element) rest))

/-- The cell in which a chain of elements ends. -/
def endCell : Link ι α → List α → Link ι α
  | cell, [] => cell
  | _, element :: rest => endCell (.next element) rest

@[simp]
theorem endCell_append_singleton (cell : Link ι α) (elements : List α) (element : α) :
    endCell cell (elements ++ [element]) = .next element := by
  induction elements generalizing cell with
  | nil => rfl
  | cons first rest ih => exact ih (.next first)

/-- A chain ends in its own cell or in the next cell of one of its elements. -/
theorem endCell_cases (cell : Link ι α) (elements : List α) :
    (elements = [] ∧ endCell cell elements = cell) ∨
      ∃ element ∈ elements, endCell cell elements = .next element := by
  induction elements generalizing cell with
  | nil => exact .inl ⟨rfl, rfl⟩
  | cons first rest ih =>
    right
    rcases ih (.next first) with ⟨_, same⟩ | ⟨element, member, same⟩
    · exact ⟨first, List.mem_cons_self, same⟩
    · exact ⟨element, List.mem_cons_of_mem _ member, same⟩

/-- The chain of a head can end in the next cell of one of its elements only. -/
theorem endCell_next {head : ι} {elements : List α} {element : α}
    (same : endCell (.first head) elements = .next element) : element ∈ elements := by
  rcases endCell_cases (.first head) elements with ⟨_, own⟩ | ⟨inside, member, own⟩
  · cases own.symm.trans same
  · exact Link.next.inj (own.symm.trans same) ▸ member

/-- The chain of a head can end in the first cell of that head only. -/
theorem endCell_first {head other : ι} {elements : List α}
    (same : endCell (.first head) elements = .first other) : other = head := by
  rcases endCell_cases (.first head) elements with ⟨_, own⟩ | ⟨inside, member, own⟩
  · exact Link.first.inj (same.symm.trans own)
  · cases own.symm.trans same

/-- The end of a chain is the end of each of its suffixes. -/
theorem endCell_suffix (cell : Link ι α) (before after : List α) (element : α) :
    endCell cell (before ++ element :: after) = endCell (.next element) after := by
  induction before generalizing cell with
  | nil => rfl
  | cons first rest ih => exact ih (.next first)

/-- An element of a chain knows the cell that holds it, the first one or a member's. -/
theorem Chain.prev_mem {links : Links ι α} {cell : Link ι α} {elements : List α}
    (chain : Chain links cell elements) {element : α} (member : element ∈ elements) :
    links.prev element = some cell ∨
      ∃ before ∈ elements, links.prev element = some (.next before) := by
  induction elements generalizing cell with
  | nil => contradiction
  | cons first rest ih =>
    obtain ⟨_, prev, tail⟩ := chain
    rcases List.mem_cons.mp member with rfl | member
    · exact .inl prev
    · right
      rcases ih tail member with prev | ⟨before, member, prev⟩
      · exact ⟨first, List.mem_cons_self, prev⟩
      · exact ⟨before, List.mem_cons_of_mem _ member, prev⟩

/-- A chain that does not start in one of its own elements repeats none of them. -/
theorem Chain.nodup {links : Links ι α} {cell : Link ι α} {elements : List α}
    (chain : Chain links cell elements) (outside : ∀ element ∈ elements, cell ≠ .next element) :
    elements.Nodup := by
  induction elements generalizing cell with
  | nil => exact List.nodup_nil
  | cons first rest ih =>
    obtain ⟨_, prev, tail⟩ := chain
    -- a second occurrence of the head would know a cell inside the chain
    have fresh : first ∉ rest := by
      intro member
      rcases tail.prev_mem member with again | ⟨before, inside, again⟩
      · exact outside first List.mem_cons_self (Option.some.inj (prev.symm.trans again))
      · exact outside before (List.mem_cons_of_mem _ inside)
          (Option.some.inj (prev.symm.trans again))
    refine List.nodup_cons.mpr ⟨fresh, ih tail ?_⟩
    rintro element member same
    obtain rfl := Link.next.inj same
    exact fresh member

/-- The links determine the elements of a chain. -/
theorem Chain.unique {links : Links ι α} {cell : Link ι α} {elements others : List α}
    (chain : Chain links cell elements) (other : Chain links cell others) :
    elements = others := by
  induction elements generalizing cell others with
  | nil =>
    cases others with
    | nil => rfl
    | cons => cases chain.symm.trans other.1
  | cons first rest ih =>
    cases others with
    | nil => cases chain.1.symm.trans other
    | cons again others =>
      obtain rfl := Option.some.inj (chain.1.symm.trans other.1)
      rw [ih chain.2.2 other.2.2]

/-- A chain depends on its first cell and on the link fields of its elements only. -/
theorem Chain.congr {links links' : Links ι α} {cell : Link ι α} {elements : List α}
    (chain : Chain links cell elements) (start : links'.load cell = links.load cell)
    (next : ∀ element ∈ elements, links'.next element = links.next element)
    (prev : ∀ element ∈ elements, links'.prev element = links.prev element) :
    Chain links' cell elements := by
  induction elements generalizing cell with
  | nil => exact start.trans chain
  | cons first rest ih =>
    obtain ⟨load, knows, tail⟩ := chain
    exact ⟨start.trans load, (prev first List.mem_cons_self).trans knows,
      ih tail (next first List.mem_cons_self)
        (fun element member => next element (List.mem_cons_of_mem _ member))
        (fun element member => prev element (List.mem_cons_of_mem _ member))⟩

/-- The part of a chain behind one of its elements is a chain. -/
theorem Chain.behind {links : Links ι α} {cell : Link ι α} {before after : List α} {element : α}
    (chain : Chain links cell (before ++ element :: after)) :
    Chain links (.next element) after := by
  induction before generalizing cell with
  | nil => exact chain.2.2
  | cons first rest ih => exact ih chain.2.2

/-- Storing an element in the cell where a chain ends appends it to the chain. -/
theorem Chain.snoc {links links' : Links ι α} {cell : Link ι α} {elements : List α} {added : α}
    (chain : Chain links cell elements) (nodup : elements.Nodup)
    (outside : ∀ element ∈ elements, cell ≠ .next element)
    (held : ∀ other, other ≠ endCell cell elements → other ≠ .next added →
      links'.load other = links.load other)
    (fresh : cell ≠ .next added ∧ added ∉ elements)
    (prev : ∀ element ∈ elements, links'.prev element = links.prev element)
    (stored : links'.load (endCell cell elements) = some added)
    (knows : links'.prev added = some (endCell cell elements))
    (ended : links'.next added = none) : Chain links' cell (elements ++ [added]) := by
  induction elements generalizing cell with
  | nil => exact ⟨stored, knows, ended⟩
  | cons first rest ih =>
    obtain ⟨load, known, tail⟩ := chain
    obtain ⟨absent, distinct⟩ := List.nodup_cons.mp nodup
    have different : first ≠ added := fun same => fresh.2 (same ▸ List.mem_cons_self)
    refine ⟨?_, (prev first List.mem_cons_self).trans known, ih tail distinct ?_ held ?_
      (fun element member => prev element (List.mem_cons_of_mem _ member)) stored knows⟩
    · -- the chain does not end in its own first cell
      have inside : cell ≠ endCell cell (first :: rest) := by
        rcases endCell_cases cell (first :: rest) with ⟨empty, _⟩ | ⟨element, member, same⟩
        · contradiction
        · rw [same]; exact outside element member
      exact (held cell inside fresh.1).trans load
    · rintro element member same
      obtain rfl := Link.next.inj same
      exact absent member
    · exact ⟨fun same => different (Link.next.inj same),
        fun member => fresh.2 (List.mem_cons_of_mem _ member)⟩

/-- The two elements whose fields the removal of a first element accesses are live. -/
def FrontLive (live : α → Bool) (elements : List α) : Prop :=
  ∀ element ∈ elements.take 2, live element = true

instance (live : α → Bool) (elements : List α) : Decidable (FrontLive live elements) :=
  inferInstanceAs (Decidable (∀ element ∈ elements.take 2, live element = true))

/-- Among live elements these two are live. -/
theorem frontLive_of_all {live : α → Bool} {elements : List α}
    (members : ∀ member ∈ elements, live member = true) : FrontLive live elements := by
  intro element member
  exact members element (List.mem_of_mem_take member)

section

variable [DecidableEq ι] [DecidableEq α] {live : α → Bool} {links : Links ι α} {head : ι}
  {element : α} {rest : List α}

/-- The first element of a chain can be removed exactly if it and its successor are live. -/
theorem Chain.remove_first (chain : Chain links (.first head) (element :: rest)) :
    links.remove live head element =
      if FrontLive live (element :: rest) then .ok (links.dropFirst head rest)
      else .error .freed := by
  have prev := chain.2.1
  unfold FrontLive
  by_cases alive : live element = true
  · cases rest with
    | nil => simpa [alive, Links.dropFirst] using Links.remove_last alive chain.2.2 prev
    | cons after rest =>
      have next : links.next element = some after := chain.2.2.1
      by_cases alive' : live after = true
      · simpa [alive, alive', Links.dropFirst] using Links.remove_before alive next alive' prev
      · simp [Links.remove, Links.bypass, alive, alive', next, Except.bind]
  · simp [Links.remove, alive]

/-- Removing the first element of a chain leaves the rest of it. -/
theorem Chain.removeHead (chain : Chain links (.first head) (element :: rest))
    (members : ∀ member ∈ element :: rest, live member = true) :
    ∃ links', links.remove live head element = .ok links' ∧ Chain links' (.first head) rest := by
  have nodup := chain.nodup (by simp)
  rw [chain.remove_first, if_pos (frontLive_of_all members)]
  refine ⟨_, rfl, ?_⟩
  obtain ⟨_, _, tail⟩ := chain
  cases rest with
  | nil => exact Function.update_self ..
  | cons after rest =>
    have absent : after ∉ rest := (List.nodup_cons.mp (List.nodup_cons.mp nodup).2).1
    refine ⟨Function.update_self .., Function.update_self .., ?_⟩
    refine tail.2.2.congr rfl (fun _ _ => rfl) ?_
    intro member inside
    apply Function.update_of_ne
    rintro rfl
    exact absent inside

end

/-! ## Families of queues -/

/-- Each head starts the chain of its list, and no element is in two lists. -/
structure Queues (links : Links ι α) (queue : ι → List α) : Prop where
  /-- The links of each head spell out its list. -/
  chain : ∀ head, Chain links (.first head) (queue head)
  /-- The lists of two heads share no element. -/
  apart : ∀ head other element, element ∈ queue head → element ∈ queue other → head = other

/-- Each head caches the address of the cell in which its chain ends. -/
def Ends (links : Links ι α) (queue : ι → List α) : Prop :=
  ∀ head, links.last head = some (endCell (.first head) (queue head))

/-- The links are well formed when they spell out some family of lists with their ends. -/
def WellFormed (links : Links ι α) : Prop :=
  ∃ queue : ι → List α, Queues links queue ∧ Ends links queue

/-- Initialised heads are empty queues. -/
theorem queues_init : Queues (Links.init : Links ι α) fun _ => [] where
  chain _ := rfl
  apart _ _ _ member := by cases member

/-- Initialised heads cache their own first cell. -/
theorem ends_init : Ends (Links.init : Links ι α) fun _ => [] := fun _ => rfl

namespace Queues

variable {links : Links ι α} {queue : ι → List α}

/-- No queue repeats an element. -/
theorem nodup (queues : Queues links queue) (head : ι) : (queue head).Nodup :=
  (queues.chain head).nodup (by simp)

/-- The links determine the lists. -/
theorem unique {other : ι → List α} (queues : Queues links queue) (others : Queues links other) :
    queue = other :=
  funext fun head => (queues.chain head).unique (others.chain head)

/-- The first cell of a head holds the first element of its list. -/
theorem first_eq (queues : Queues links queue) (head : ι) :
    links.first head = (queue head).head? := by
  have chain := queues.chain head
  cases shape : queue head with
  | nil => rw [shape] at chain; exact chain
  | cons element rest => rw [shape] at chain; exact chain.1

variable [DecidableEq ι]

/-- Chains of the heads an operation does not reach stay as they are. -/
theorem update_chain {links' : Links ι α} {changed : List α} (queues : Queues links queue)
    {head : ι} (chain : Chain links' (.first head) changed)
    (subset : ∀ element ∈ changed, element ∈ queue head ∨ ∀ other, element ∉ queue other)
    (first : ∀ other, other ≠ head → links'.first other = links.first other)
    (fields : ∀ element, element ∉ queue head → (∃ other, element ∈ queue other) →
      links'.next element = links.next element ∧ links'.prev element = links.prev element) :
    Queues links' (Function.update queue head changed) where
  chain other := by
    by_cases same : other = head
    · subst same
      simpa using chain
    · rw [Function.update_of_ne same]
      have elsewhere : ∀ element ∈ queue other, element ∉ queue head :=
        fun element member inside => same (queues.apart other head element member inside)
      exact (queues.chain other).congr (first other same)
        (fun element member => (fields element (elsewhere element member) ⟨other, member⟩).1)
        (fun element member => (fields element (elsewhere element member) ⟨other, member⟩).2)
  apart one two element := by
    intro inOne inTwo
    have located : ∀ other, element ∈ Function.update queue head changed other →
        other = head ∧ element ∈ changed ∨ other ≠ head ∧ element ∈ queue other := by
      intro other member
      by_cases same : other = head
      · subst same; exact .inl ⟨rfl, by simpa using member⟩
      · exact .inr ⟨same, by simpa [Function.update_of_ne same] using member⟩
    have owned : ∀ other, element ∈ changed → element ∈ queue other → other = head := by
      intro other member elsewhere
      rcases subset element member with inside | outside
      · exact queues.apart other head element elsewhere inside
      · exact absurd elsewhere (outside other)
    rcases located one inOne with ⟨rfl, new⟩ | ⟨far, old⟩ <;>
      rcases located two inTwo with ⟨same, again⟩ | ⟨away, older⟩
    · exact same.symm
    · exact absurd (owned two new older) away
    · exact absurd (owned one again old) (same ▸ far)
    · exact queues.apart one two element old older

variable [DecidableEq α] {live : α → Bool}

/-- Appending a live element that is in no queue appends it to the list of its head, when
that head caches the true end of its chain. -/
theorem insertTail (queues : Queues links queue) {head : ι} {element : α}
    (fresh : ∀ other, element ∉ queue other) (alive : live element = true)
    (members : ∀ member ∈ queue head, live member = true)
    (ends : links.last head = some (endCell (.first head) (queue head))) :
    ∃ links', links.insertTail live head element = .ok links' ∧
      Queues links' (Function.update queue head (queue head ++ [element])) ∧
      links'.last = Function.update links.last head (some (.next element)) ∧
      (∀ other, links'.prev other =
        if other = element then links.last head else links.prev other) ∧
      ∀ other, other ∉ queue head → other ≠ element →
        links'.next other = links.next other := by
  -- the two stores to the fields of the element come before the store to the last cell
  let zeroed : Links ι α := { links with
    next := Function.update links.next element none
    prev := Function.update links.prev element (links.last head) }
  obtain ⟨stored, ok, prev, last, load⟩ := store_spec zeroed
    (some element) fun member same => members member (endCell_next same)
  have kept : ∀ other, other ≠ endCell (.first head) (queue head) → other ≠ .next element →
      stored.load other = links.load other := by
    intro other away apart
    rw [load, if_neg away]
    cases other with
    | first => rfl
    | next other =>
      exact Function.update_of_ne (fun same : other = element => apart (congrArg _ same)) _ _
  have knows : ∀ other, stored.prev other =
      if other = element then links.last head else links.prev other := by
    intro other
    simp only [prev, zeroed, Function.update_apply]
  have elsewhere : ∀ other, other ∉ queue head → other ≠ element →
      stored.next other = links.next other := fun other outside different =>
    kept (.next other) (fun same => outside (endCell_next same.symm))
      fun same => different (Link.next.inj same)
  refine ⟨{ stored with last := Function.update stored.last head (some (.next element)) }, ?_, ?_,
    by rw [last], knows, elsewhere⟩
  · simp only [Links.insertTail, alive, ↓reduceIte, ends]
    simp only [zeroed, ends] at ok
    rw [ok]
    rfl
  · have chain : Chain stored (.first head) (queue head ++ [element]) := by
      refine (queues.chain head).snoc (queues.nodup head) (by simp) kept
        ⟨by simp, fresh head⟩ ?_ ?_ ?_ ?_
      · intro member inside
        rw [knows, if_neg fun same : member = element => fresh head (same ▸ inside)]
      · rw [load, if_pos rfl]
      · rw [knows, if_pos rfl, ends]
      · change stored.load (.next element) = none
        rw [load, if_neg fun same => fresh head (endCell_next same.symm)]
        exact Function.update_self ..
    refine update_chain queues (chain.congr rfl (fun _ _ => rfl) fun _ _ => rfl) ?_ ?_ ?_
    · intro member inside
      rcases List.mem_append.mp inside with inside | inside
      · exact .inl inside
      · exact .inr (List.mem_singleton.mp inside ▸ fresh)
    · exact fun other away =>
        kept (.first other) (fun same => away (endCell_first same.symm)) (by simp)
    · rintro member outside ⟨other, inside⟩
      have different : member ≠ element := fun same => fresh other (same ▸ inside)
      exact ⟨elsewhere member outside different, (knows member).trans (if_neg different)⟩

omit [DecidableEq α] in
/-- Clearing the first cell of a head empties its list. -/
theorem clear (queues : Queues links queue) (head : ι) (last : ι → Option (Link ι α)) :
    Queues { links with last, first := Function.update links.first head none }
      (Function.update queue head []) := by
  refine update_chain queues (Function.update_self ..) (by simp) ?_ fun _ _ _ => ⟨rfl, rfl⟩
  exact fun other away => Function.update_of_ne away _ _

/-- Pointing the first cell of a head at one of its elements drops the elements before it. -/
theorem cut (queues : Queues links queue) {head : ι} (before : List α) {after : List α}
    {element : α} (shape : queue head = before ++ element :: after) :
    Queues { links with
      prev := Function.update links.prev element (some (.first head))
      first := Function.update links.first head (some element) }
      (Function.update queue head (element :: after)) := by
  have nodup := queues.nodup head
  rw [shape] at nodup
  have absent : element ∉ after :=
    (List.nodup_cons.mp (List.nodup_append.mp nodup).2.1).1
  have tail : Chain links (.next element) after := (shape ▸ queues.chain head).behind
  have inside : ∀ member ∈ element :: after, member ∈ queue head := fun member mem =>
    shape ▸ List.mem_append_right _ mem
  refine update_chain queues ⟨Function.update_self .., Function.update_self .., ?_⟩
    (fun member mem => .inl (inside member mem))
    (fun other away => Function.update_of_ne away _ _) ?_
  · exact tail.congr rfl (fun _ _ => rfl) fun member mem =>
      Function.update_of_ne (fun same : member = element => absent (same ▸ mem)) _ _
  · rintro member outside _
    refine ⟨rfl, Function.update_of_ne (fun same : member = element => ?_) _ _⟩
    exact outside (same ▸ inside element List.mem_cons_self)

/-- The first element of a list can be removed exactly if it and its successor are live. -/
theorem remove_first (queues : Queues links queue) {head : ι} {element : α} {rest : List α}
    (shape : queue head = element :: rest) :
    links.remove live head element =
      if FrontLive live (queue head) then .ok (links.dropFirst head rest)
      else .error .freed := by
  have chain : Chain links (.first head) (element :: rest) := shape ▸ queues.chain head
  rw [shape, chain.remove_first]

/-- Dropping a first element leaves the rest of its list. -/
theorem dropFirst (queues : Queues links queue) {head : ι} {element : α} {rest : List α}
    (shape : queue head = element :: rest) :
    Queues (links.dropFirst head rest) (Function.update queue head rest) := by
  cases rest with
  | nil => exact queues.clear head _
  | cons after rest => exact queues.cut [element] shape

/-- Removing the first element of a list leaves the rest of the list. The removed element
keeps its link fields, and the head again caches its first cell when nothing is left. -/
theorem removeHead (queues : Queues links queue) {head : ι} {element : α} {rest : List α}
    (shape : queue head = element :: rest)
    (members : ∀ member ∈ queue head, live member = true) :
    ∃ links', links.remove live head element = .ok links' ∧
      Queues links' (Function.update queue head rest) ∧
      (links'.last = if rest = [] then Function.update links.last head (some (.first head))
        else links.last) ∧
      links'.next = links.next ∧
      ∀ other, other ∉ rest → links'.prev other = links.prev other := by
  rw [queues.remove_first shape, if_pos (frontLive_of_all members)]
  refine ⟨_, rfl, queues.dropFirst shape, ?_⟩
  cases rest with
  | nil => exact ⟨rfl, rfl, fun _ _ => rfl⟩
  | cons after rest =>
    refine ⟨rfl, rfl, fun other outside => Function.update_of_ne (fun same => ?_) _ _⟩
    exact outside (same ▸ List.mem_cons_self)

end Queues

end TailQueue
