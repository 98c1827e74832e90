import LibcoLite.Demo03

/-!
# What the echo server writes back

The bytes the server reads from a connection and the bytes it writes to it, over whole runs.
A `co_write` that writes less than it was given is not repeated, so that the rest is lost;
otherwise every connection gets its own bytes back in their order, whatever the other
connections do in between.
-/

namespace LibcoLite.Demo03

open Transition (Along Move along_cons)

/-- What a move reads from a descriptor. -/
def readBytes (fd : Nat) (move : Move (World Place) Choice) : List UInt8 :=
  match move.before.thread.pc move.before.thread.current, move.input with
  | .syscall .read fd', .answer (.data bytes) => if fd' = fd then bytes else []
  | _, _ => []

/-- What a move writes to a descriptor. -/
def wroteBytes (fd : Nat) (move : Move (World Place) Choice) : List UInt8 :=
  match move.before.thread.pc move.before.thread.current, move.input, move.before.place with
  | .syscall .write fd', .answer (.wrote count), .writing _ buf n =>
    if fd' = fd then (buf.take n).take count else []
  | _, _, _ => []

/-- A move writes less to a descriptor than it was given. -/
def Short (fd : Nat) (move : Move (World Place) Choice) : Prop :=
  ∃ count buf n, move.before.thread.pc move.before.thread.current = .syscall .write fd ∧
    move.input = .answer (.wrote count) ∧ move.before.place = .writing fd buf n ∧
    count < (buf.take n).length

/-- The bytes read from a descriptor along a history. -/
def received (fd : Nat) (past : WorldHistory Place) : List UInt8 :=
  past.reverse.flatMap (readBytes fd)

/-- The bytes written to a descriptor along a history. -/
def sent (fd : Nat) (past : WorldHistory Place) : List UInt8 :=
  past.reverse.flatMap (wroteBytes fd)

variable {listenfd : Nat} {self : EnvPtr} {clock : Nat → Nat} {past : WorldHistory Place}
  {w w' : World Place} {choice : Choice} {move : Move (World Place) Choice} {fd : Nat}
  {rest : List UInt8}

/-- The last move reads behind the others. -/
@[simp]
theorem received_cons : received fd (move :: past) = received fd past ++ readBytes fd move := by
  simp [received]

/-- The last move writes behind the others. -/
@[simp]
theorem sent_cons : sent fd (move :: past) = sent fd past ++ wroteBytes fd move := by
  simp [sent]

/-- What is written back along a history, when some bytes are still to be written: part of what
was read, and all of it if and only if no write was short. -/
structure Echoed (fd : Nat) (past : WorldHistory Place) (rest : List UInt8) : Prop where
  /-- What was written, and is to be written, was read in this order. -/
  part : (sent fd past ++ rest).Sublist (received fd past)
  /-- Nothing is left out exactly when no write was short. -/
  whole : sent fd past ++ rest = received fd past ↔ Along (fun move => ¬Short fd move) past

/-- A move that has nothing to do with a descriptor. -/
structure Quiet (fd : Nat) (move : Move (World Place) Choice) : Prop where
  /-- It reads nothing from it. -/
  reads : readBytes fd move = []
  /-- It writes nothing to it. -/
  writes : wroteBytes fd move = []
  /-- It does not write less than it was given. -/
  complete : ¬Short fd move

/-- A quiet move changes nothing. -/
theorem Echoed.quiet (echoed : Echoed fd past rest) (quiet : Quiet fd move) :
    Echoed fd (move :: past) rest := by
  constructor
  · rw [received_cons, sent_cons, quiet.reads, quiet.writes, List.append_nil, List.append_nil]
    exact echoed.part
  · rw [received_cons, sent_cons, quiet.reads, quiet.writes, List.append_nil, List.append_nil,
      along_cons, echoed.whole]
    exact ⟨fun along => ⟨quiet.complete, along⟩, And.right⟩

/-- Nothing is to be echoed on a descriptor nobody has used. -/
theorem Echoed.unused (quiet : Along (Quiet fd) past) : Echoed fd past [] := by
  induction past with
  | nil => exact ⟨List.Sublist.refl _, by simp [Along, sent, received]⟩
  | cons move past ih =>
    obtain ⟨last, before⟩ := along_cons.mp quiet
    exact (ih before).quiet last

/-- What is read is to be written. -/
theorem Echoed.read (echoed : Echoed fd past []) {bytes : List UInt8}
    (reads : readBytes fd move = bytes) (writes : wroteBytes fd move = [])
    (complete : ¬Short fd move) : Echoed fd (move :: past) bytes := by
  obtain ⟨part, whole⟩ := echoed
  rw [List.append_nil] at part whole
  constructor
  · rw [received_cons, sent_cons, reads, writes, List.append_nil]
    exact part.append (List.Sublist.refl bytes)
  · rw [received_cons, sent_cons, reads, writes, List.append_nil, List.append_cancel_right_eq,
      along_cons, whole]
    exact ⟨fun along => ⟨complete, along⟩, And.right⟩

/-- What is written is no longer to be written, and what is not written is lost. -/
theorem Echoed.write {buf : List UInt8} (echoed : Echoed fd past buf) {count : Nat}
    (reads : readBytes fd move = []) (writes : wroteBytes fd move = buf.take count)
    (short : Short fd move ↔ count < buf.length) : Echoed fd (move :: past) [] := by
  obtain ⟨part, whole⟩ := echoed
  have fewer : (sent fd past ++ buf.take count).Sublist (sent fd past ++ buf) :=
    (List.Sublist.refl _).append (List.take_sublist count buf)
  constructor
  · rw [received_cons, sent_cons, reads, writes, List.append_nil, List.append_nil]
    exact fewer.trans part
  · rw [received_cons, sent_cons, reads, writes, List.append_nil, List.append_nil, along_cons,
      ← whole, short, Nat.not_lt]
    constructor
    · intro same
      have length := part.length_le
      rw [← same] at length
      simp only [List.length_append, List.length_take] at length
      have all : buf.length ≤ count := by omega
      rw [List.take_of_length_le all] at same
      exact ⟨all, same⟩
    · rintro ⟨all, same⟩
      rw [List.take_of_length_le all]
      exact same

/-! ## The connections of a run -/

/-- The descriptor and the unwritten bytes of a coroutine that serves a connection. -/
def Place.unsent : Place → Option (Nat × List UInt8)
  | .reading clifd _ => some (clifd, [])
  | .writing clifd buf n => some (clifd, buf.take n)
  | .closed clifd => some (clifd, [])
  | _ => none

/-- A connection that is served is the descriptor of its coroutine. -/
theorem fd_of_unsent {place : Place} (serves : place.unsent = some (fd, rest)) :
    place.fd listenfd = some fd := by
  cases place with
  | reading => cases serves; rfl
  | writing => cases serves; rfl
  | closed => cases serves; rfl
  | _ => cases serves

/-- What was read is to be written, since the zero is stored behind it. -/
theorem unsent_of_behindRead {clifd : Nat} {buf bytes : List UInt8}
    (serves : (Place.behindRead clifd buf bytes).unsent = some (fd, rest)) :
    fd = clifd ∧ rest = bytes := by
  revert serves
  refine Place.behindRead_rec (P := fun place => place.unsent = some (fd, rest) → _) ?_ ?_ ?_
  · rintro rfl ⟨⟩
    exact ⟨rfl, rfl⟩
  · rintro _ ⟨⟩
    rw [List.take_set_of_le (Nat.le_refl _), List.take_left]
    exact ⟨rfl, rfl⟩
  · rintro _ ⟨⟩

/-- A choice that is no answer has nothing to do with any descriptor. -/
theorem quiet_of_input (silent : ∀ answer, move.input ≠ .answer answer) : Quiet fd move := by
  constructor
  · unfold readBytes
    split
    · rename_i input
      exact absurd input (silent _)
    · rfl
  · unfold wroteBytes
    split
    · rename_i input _
      exact absurd input (silent _)
    · rfl
  · rintro ⟨count, buf, n, _, input, _⟩
    exact silent _ input

/-- A task has nothing to do with the descriptors of others. -/
theorem quiet_elsewhere (inv : Integrity w.thread) (located : Located (server listenfd) w)
    (other : w.place.fd listenfd ≠ some fd) : Quiet fd ⟨w, choice, w'⟩ := by
  have away {call : Call} {fd' : Nat}
      (pc : w.thread.pc w.thread.current = .syscall call fd') : fd' ≠ fd := by
    rintro rfl
    exact other (fd_of_action (located _ inv.seated.alive _ (by rw [pc]; rfl)))
  constructor
  · unfold readBytes
    split
    · rename_i fd' bytes pc input
      exact if_neg (away pc)
    · rfl
  · unfold wroteBytes
    split
    · rename_i fd' count there buf n pc input place
      exact if_neg (away pc)
    · rfl
  · rintro ⟨count, buf, n, pc, _⟩
    exact away pc rfl

/-- What a run has done to the connections. -/
structure Echoes (listenfd : Nat) (past : WorldHistory Place) (w : World Place) : Prop where
  /-- What a coroutine has read it has written, or is about to write. -/
  serving : ∀ p fd rest, w.thread.live p = true → (w.places p).unsent = some (fd, rest) →
    Echoed fd past rest
  /-- A descriptor that no task uses has not been used. -/
  idle : ∀ fd, Unused listenfd w fd → Along (Quiet fd) past

/-- An answer to the coroutine of a connection keeps its account. -/
theorem Echoes.answer (echoes : Echoes listenfd past w) (inv : Integrity w.thread)
    (located : Located (server listenfd) w) {answer : Answer} {call : Call} {fd' : Nat}
    (pc : w.thread.pc w.thread.current = .syscall call fd')
    (serves : ((server listenfd).answered w.place answer).unsent = some (fd, rest)) :
    Echoed fd (⟨w, .answer answer, w'⟩ :: past) rest := by
  have does := located _ inv.seated.alive _ (by rw [pc]; rfl)
  have before {bytes : List UInt8} (unsent : w.place.unsent = some (fd, bytes)) :
      Echoed fd past bytes := echoes.serving _ fd bytes inv.seated.alive unsent
  change (server listenfd).action w.place = _ at does
  cases place : w.place with
  | reading clifd buf =>
    rw [place] at does serves before
    cases does
    cases answer with
    | data bytes =>
      have reads : readBytes fd' ⟨w, .answer (.data bytes), w'⟩ = bytes := by
        simp [readBytes, pc]
      have writes : wroteBytes fd' ⟨w, .answer (.data bytes), w'⟩ = [] := by
        simp [wroteBytes, pc]
      have complete : ¬Short fd' ⟨w, .answer (.data bytes), w'⟩ := by
        rintro ⟨_, _, _, _, input, _⟩
        cases input
      obtain ⟨rfl, rfl⟩ := unsent_of_behindRead serves
      exact (before rfl).read reads writes complete
    | _ => cases serves
  | writing clifd buf n =>
    rw [place] at does serves before
    cases does
    cases answer with
    | wrote count =>
      cases serves
      have reads : readBytes fd ⟨w, .answer (.wrote count), w'⟩ = [] := by
        simp [readBytes, pc]
      have writes : wroteBytes fd ⟨w, .answer (.wrote count), w'⟩ =
          (buf.take n).take count := by
        simp only [wroteBytes, pc, place, ↓reduceIte]
      have short : Short fd ⟨w, .answer (.wrote count), w'⟩ ↔ count < (buf.take n).length := by
        constructor
        · rintro ⟨_, _, _, _, input, there, less⟩
          cases input
          cases place.symm.trans there
          exact less
        · intro less
          exact ⟨count, buf, n, pc, rfl, place, less⟩
      exact (before rfl).write reads writes short
    | _ => cases serves
  | accepting =>
    rw [place] at serves
    cases answer <;> cases serves
  | _ =>
    rw [place] at does
    cases does

/-- Without an answer, only a failed call takes a coroutine from its connection. -/
theorem unsent_step (kind : WorldCases (server listenfd) w choice w') (inv : Integrity w.thread)
    (silent : ∀ answer, choice ≠ .answer answer) {p : TaskPtr} (alive : w.thread.live p = true)
    (serves : (w'.places p).unsent = some (fd, rest)) : (w.places p).unsent = some (fd, rest) := by
  rcases kind.place inv alive with
    same | ⟨rfl, ⟨_, id, does, leads⟩ | leads | ⟨answer, leads, given⟩⟩
  · exact same ▸ serves
  · rw [leads] at serves
    rcases place_of_create does with ⟨place, _⟩ | ⟨clifd, place, _⟩
    · rw [place] at serves
      cases serves
    · rw [place] at serves
      cases serves
  · rw [leads] at serves
    exact serves
  · rcases given with rfl | given
    · rw [leads] at serves
      show w.place.unsent = _
      cases place : w.place with
      | closed => rwa [place] at serves
      | _ =>
        rw [place] at serves
        cases serves
    · exact absurd given (silent answer)

/-- Every step of the server keeps the accounts of the connections. -/
theorem Echoes.step (echoes : Echoes listenfd past w) (sound : Sound listenfd w)
    (inv : Integrity w.thread) (located : Located (server listenfd) w)
    (listens : 0 < listenfd ∧ listenfd < maxFd)
    (taken : w.step (server listenfd) choice = .ok w') :
    Echoes listenfd (⟨w, choice, w'⟩ :: past) w' := by
  have stepped := world_thread taken
  have kind := world_cases taken
  have current := inv.seated.alive
  constructor
  · intro p fd rest alive serves
    cases old : w.thread.live p with
    | true =>
      by_cases own : p = w.thread.current
      · subst own
        cases choice with
        | answer answer =>
          cases kind with
          | answers _ thread call fd' pc =>
            apply echoes.answer inv located pc
            exact (congrArg Place.unsent (Function.update_self ..)).symm.trans serves
        | own granted =>
          have before := unsent_step kind inv (by simp) old serves
          exact (echoes.serving _ fd rest old before).quiet (quiet_of_input (by simp))
        | library i =>
          have before := unsent_step kind inv (by simp) old serves
          exact (echoes.serving _ fd rest old before).quiet (quiet_of_input (by simp))
      · rw [kind.other own (inv.notFresh old)] at serves
        apply (echoes.serving p fd rest old serves).quiet
        apply quiet_elsewhere inv located
        intro same
        exact own (sound.apart p _ old current ((fd_of_unsent serves).trans same.symm))
    | false =>
      -- the descriptor of a new coroutine has not been used
      obtain ⟨_, routine, does, there, _⟩ := kind.spawned inv stepped alive old
      obtain ⟨_, _, _, fd', uses, _, _, unused, _⟩ :=
        sound.created inv listens kind stepped alive old
      obtain rfl := Option.some.inj (uses.symm.trans (fd_of_unsent serves))
      have empty : rest = [] := by
        rw [there] at serves
        rcases place_of_create does with ⟨_, rfl⟩ | ⟨clifd, _, rfl⟩
        · cases serves
        · cases serves
          rfl
      subst empty
      exact (Echoed.unused (echoes.idle fd' unused)).quiet
        (quiet_elsewhere inv located (unused _ current))
  · intro fd unused
    have before : Unused listenfd w fd := by
      intro p alive uses
      apply unused p (live_step sound inv stepped alive)
      rw [fd_step kind inv alive]
      exact uses
    exact along_cons.mpr ⟨quiet_elsewhere inv located (before _ current), echoes.idle fd before⟩

/-- The server writes the two bytes of its client back. -/
def twoBytes : List Choice :=
  oneClient ++ [.library .run, .library .run, .library (.pick 1), .library (.ctl true),
    .answer (.data [104, 105]), .own true, .library (.ctl true), .library (.pick 1),
    .library (.ready (some [(5, epollOut)])), .library .run, .library .run, .library (.pick 1),
    .library (.ctl true), .answer (.wrote 2)]

end LibcoLite.Demo03
