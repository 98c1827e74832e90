import Mathlib.Data.List.SplitBy

/-!
# Pieces of a list

Some elements of a list end a piece of it. A list whose last element ends a piece is cut into
pieces in one way only, so that it does not matter how its pieces were put together: a list of
pieces is found again in their concatenation.
-/

namespace Pieces

variable {α β : Type*} {ends : α → Bool}

/-- A list in which the last element, and no other, ends a piece. -/
def Piece (ends : α → Bool) (piece : List α) : Prop :=
  ∃ body last, piece = body ++ [last] ∧ (∀ a ∈ body, ends a = false) ∧ ends last = true

/-- The empty list, or a list whose last element ends a piece. -/
def Ended (ends : α → Bool) (whole : List α) : Prop := ∀ a ∈ whole.getLast?, ends a = true

/-- Cut a list behind each element that ends a piece. -/
def cut (ends : α → Bool) (whole : List α) : List (List α) :=
  whole.splitBy fun a _ => !ends a

/-- A piece is ended. -/
theorem Piece.ended {piece : List α} (one : Piece ends piece) : Ended ends piece := by
  obtain ⟨body, last, rfl, _, stops⟩ := one
  intro a member
  rw [List.getLast?_concat] at member
  rw [← Option.some.inj member]
  exact stops

/-- Lists that are ended are ended together. -/
theorem ended_append {front behind : List α} (first : Ended ends front)
    (second : Ended ends behind) : Ended ends (front ++ behind) := by
  intro a member
  rw [List.getLast?_append] at member
  cases last : behind.getLast? with
  | none =>
    rw [last] at member
    exact first a member
  | some b =>
    rw [last] at member
    exact second a (last.trans member)

/-- The end of a longer list is the end of what is behind. -/
theorem ended_append_of_ne_nil (front : List α) {behind : List α} (nonempty : behind ≠ [])
    (ended : Ended ends behind) : Ended ends (front ++ behind) := by
  intro a member
  rw [List.getLast?_append_of_ne_nil _ nonempty] at member
  exact ended a member

/-- Pieces are ended together. -/
theorem ended_flatten_of_pieces {pieces : List (List α)}
    (all : ∀ piece ∈ pieces, Piece ends piece) : Ended ends pieces.flatten := by
  induction pieces with
  | nil =>
    intro a member
    cases member
  | cons piece rest ih =>
    exact ended_append (all piece List.mem_cons_self).ended
      (ih fun other member => all other (List.mem_cons_of_mem _ member))

/-- The pieces of a list make up the list. -/
@[simp]
theorem flatten_cut (whole : List α) : (cut ends whole).flatten = whole :=
  List.flatten_splitBy _ whole

/-- Behind an ended list the cuts start anew. -/
theorem cut_append {front : List α} (behind : List α) (ended : Ended ends front) :
    cut ends (front ++ behind) = cut ends front ++ cut ends behind := by
  apply List.splitBy_append
  intro a last b _
  simp [ended a last]

/-- A piece is not cut. -/
theorem Piece.cut {piece : List α} (one : Piece ends piece) : Pieces.cut ends piece = [piece] := by
  obtain ⟨body, last, rfl, inside, _⟩ := one
  apply List.splitBy_of_isChain (by simp)
  induction body with
  | nil => exact List.isChain_singleton last
  | cons a rest ih =>
    apply List.isChain_cons.mpr
    constructor
    · intro b _
      simp [inside a List.mem_cons_self]
    · exact ih fun b member => inside b (List.mem_cons_of_mem _ member)

/-- Pieces are found again in their concatenation. -/
theorem cut_flatten {pieces : List (List α)} (all : ∀ piece ∈ pieces, Piece ends piece) :
    cut ends pieces.flatten = pieces := by
  induction pieces with
  | nil => rfl
  | cons piece rest ih =>
    have one : Piece ends piece := all piece List.mem_cons_self
    rw [List.flatten_cons, cut_append _ one.ended, one.cut,
      ih fun other member => all other (List.mem_cons_of_mem _ member)]
    rfl

/-- The concatenation determines the pieces. -/
theorem flatten_inj {pieces others : List (List α)} (all : ∀ piece ∈ pieces, Piece ends piece)
    (all' : ∀ piece ∈ others, Piece ends piece) :
    pieces.flatten = others.flatten ↔ pieces = others := by
  constructor
  · intro same
    rw [← cut_flatten all, ← cut_flatten all', same]
  · intro same
    rw [same]

/-- An ended list is a concatenation of pieces. -/
theorem exists_pieces {whole : List α} (ended : Ended ends whole) :
    ∃ pieces : List (List α), (∀ piece ∈ pieces, Piece ends piece) ∧ whole = pieces.flatten := by
  induction whole with
  | nil => exact ⟨[], by simp, rfl⟩
  | cons a rest ih =>
    cases rest with
    | nil =>
      have single : Piece ends [a] := ⟨[], a, rfl, by simp, ended a rfl⟩
      exact ⟨[[a]], by simpa using single, rfl⟩
    | cons b more =>
      have later : Ended ends (b :: more) := by
        intro c last
        rw [← List.getLast?_cons_cons (a := a)] at last
        exact ended c last
      obtain ⟨pieces, all, same⟩ := ih later
      cases stops : ends a with
      | true =>
        have single : Piece ends [a] := ⟨[], a, rfl, by simp, stops⟩
        exact ⟨[a] :: pieces, List.forall_mem_cons.mpr ⟨single, all⟩, by simp [same]⟩
      | false =>
        cases pieces with
        | nil => cases same
        | cons first others =>
          obtain ⟨⟨body, last, rfl, inside, stop⟩, remaining⟩ := List.forall_mem_cons.mp all
          have longer : Piece ends (a :: (body ++ [last])) :=
            ⟨a :: body, last, rfl, List.forall_mem_cons.mpr ⟨stops, inside⟩, stop⟩
          exact ⟨(a :: (body ++ [last])) :: others, List.forall_mem_cons.mpr ⟨longer, remaining⟩,
            by simp [same]⟩

/-- An ended list is cut into pieces. -/
theorem piece_of_mem_cut {whole piece : List α} (ended : Ended ends whole)
    (member : piece ∈ cut ends whole) : Piece ends piece := by
  obtain ⟨pieces, all, rfl⟩ := exists_pieces ended
  rw [cut_flatten all] at member
  exact all piece member

/-- Behind each of several ended lists the cuts start anew. -/
theorem cut_flatMap {f : β → List α} {whole : List β}
    (ended : ∀ b ∈ whole, Ended ends (f b)) :
    cut ends (whole.flatMap f) = whole.flatMap fun b => cut ends (f b) := by
  induction whole with
  | nil => rfl
  | cons b rest ih =>
    rw [List.flatMap_cons, List.flatMap_cons, cut_append _ (ended b List.mem_cons_self),
      ih fun other member => ended other (List.mem_cons_of_mem _ member)]

/-- The last of several lists without an empty one decides whether they are ended together. -/
theorem ended_flatten {lists : List (List α)} (nonempty : ∀ list ∈ lists, list ≠ [])
    (ended : Ended ends lists.flatten) : Ended (fun list => list.getLast?.any ends) lists := by
  intro list last
  obtain ⟨front, rfl⟩ : ∃ front, lists = front ++ [list] :=
    List.getLast?_eq_some_iff.mp last
  have filled : list ≠ [] := nonempty list (by simp)
  have stops : ends (list.getLast filled) = true := by
    apply ended
    rw [List.flatten_append, List.flatten_singleton, List.getLast?_append_of_ne_nil _ filled]
    exact List.getLast?_eq_some_getLast filled
  have same : list.getLast? = some (list.getLast filled) :=
    List.getLast?_eq_some_getLast filled
  simpa only [same, Option.any_some] using stops

/-- A piece of lists, one of which ends it as its last element ends a piece, is ended. -/
theorem Piece.ended_flatten {lists : List (List α)}
    (one : Piece (fun list => list.getLast?.any ends) lists) : Ended ends lists.flatten := by
  obtain ⟨body, last, rfl, _, stops⟩ := one
  have filled : last ≠ [] := by
    rintro rfl
    cases stops
  rw [List.flatten_append, List.flatten_singleton]
  apply ended_append_of_ne_nil _ filled
  intro a member
  have stop : last.getLast?.any ends = true := stops
  rw [member] at stop
  exact stop

/-- Reversing an ended list reverses each of its pieces exactly if the pieces read the same from
their other end. -/
theorem reverse_eq_flatMap_iff {whole : List α} (ended : Ended ends whole) :
    whole.reverse = (cut ends whole).flatMap List.reverse ↔
      (cut ends whole).reverse = cut ends whole := by
  have all : ∀ piece ∈ cut ends whole, Piece ends piece := fun piece member =>
    piece_of_mem_cut ended member
  have all' : ∀ piece ∈ (cut ends whole).reverse, Piece ends piece := fun piece member =>
    all piece (List.mem_reverse.mp member)
  have turned : ((cut ends whole).flatMap List.reverse).reverse =
      (cut ends whole).reverse.flatten := by
    rw [List.flatMap_def, List.reverse_flatten, List.map_map]
    simp
  rw [List.reverse_eq_iff, turned, ← flatten_inj all' all, flatten_cut]
  exact eq_comm

/-- A function that keeps the lengths of lists keeps the length of their concatenation. -/
theorem length_flatMap_of_length {f : List α → List β} {lists : List (List α)}
    (lengths : ∀ list ∈ lists, (f list).length = list.length) :
    (lists.flatMap f).length = lists.flatten.length := by
  induction lists with
  | nil => rfl
  | cons list rest ih =>
    rw [List.flatMap_cons, List.flatten_cons, List.length_append, List.length_append,
      lengths list List.mem_cons_self,
      ih fun other member => lengths other (List.mem_cons_of_mem _ member)]

/-- Where two functions yield lists of equal lengths, the results make up the same list exactly
if they are the same for each element. -/
theorem flatMap_eq_iff {f g : α → List β} {whole : List α}
    (lengths : ∀ a ∈ whole, (f a).length = (g a).length) :
    whole.flatMap f = whole.flatMap g ↔ ∀ a ∈ whole, f a = g a := by
  induction whole with
  | nil => simp
  | cons a rest ih =>
    have later := ih fun b member => lengths b (List.mem_cons_of_mem _ member)
    rw [List.flatMap_cons, List.flatMap_cons, List.forall_mem_cons, ← later]
    constructor
    · exact fun same => List.append_inj same (lengths a List.mem_cons_self)
    · rintro ⟨first, others⟩
      rw [first, others]

end Pieces
