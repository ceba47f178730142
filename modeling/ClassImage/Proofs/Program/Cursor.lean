import ClassImage.Proofs.Program.Revisions

/-!
Walks over the uses of a symbol while a client goes on editing. A cursor compares
the revision of its list with the one that it started from. As long as no
operation touches the symbol, it yields the uses that were there when it was
started, one after the other, and then nothing; once the symbol is touched it
refuses to go on, for ever.
-/

namespace ClassImage

/-- What happens while a cursor is in use: an operation, or a step of the cursor. -/
inductive Move where
  | perform (operation : Operation)
  | next

namespace Move

def isNext : Move → Bool
  | .perform _ => false
  | .next => true

end Move

namespace Program

/-- The uses of a symbol, of one kind or of all. -/
def usesOfKind (program : Program) (symbol : Symbol) (kind : Option UseKind) : List Use :=
  (program.useList symbol).filter fun use => kind = none ∨ kind = some use.kind

end Program

namespace UseCursor

theorem accepts_iff (cursor : UseCursor) (use : Use) :
    cursor.accepts use ↔ cursor.kind = none ∨ cursor.kind = some use.kind := by
  unfold accepts
  cases cursor.kind with
  | none => simp
  | some kind => simp [eq_comm]

/-- The uses of a list that a cursor will yield. -/
def remaining (cursor : UseCursor) (list : List Use) : List Use :=
  (list.drop cursor.position).filter cursor.accepts

theorem remaining_start (program : Program) (symbol : Symbol) (kind : Option UseKind) :
    (start program.uses symbol kind).remaining (program.useList symbol) = program.usesOfKind symbol kind := by
  apply List.filter_congr
  intro use _
  rw [Bool.eq_iff_iff, accepts_iff, decide_eq_true_iff]
  rfl

/-- A step yields the first use that is accepted, and passes it. -/
theorem walk_spec (cursor : UseCursor) (list : List Use) :
    (cursor.walk list).1 = (list.filter cursor.accepts).head? ∧
      ∃ passed, (cursor.walk list).2 = { cursor with position := cursor.position + passed } ∧
        (list.drop passed).filter cursor.accepts = (list.filter cursor.accepts).tail := by
  induction list generalizing cursor with
  | nil => exact ⟨rfl, 0, rfl, rfl⟩
  | cons use rest ih =>
    by_cases accepted : cursor.accepts use
    · rw [walk, if_pos accepted, List.filter_cons_of_pos accepted]
      exact ⟨rfl, 1, rfl, rfl⟩
    · rw [walk, if_neg accepted, List.filter_cons_of_neg accepted]
      obtain ⟨found, passed, moved, left⟩ := ih { cursor with position := cursor.position + 1 }
      refine ⟨found, passed + 1, ?_, left⟩
      rw [moved, Nat.add_assoc, Nat.add_comm 1]

end UseCursor

namespace Program

variable {program : Program} {cursor : UseCursor}

/-- A cursor whose list is unchanged goes on to the next of the uses that remain. -/
theorem nextUse_current (current : cursor.revision = program.revision cursor.symbol) :
    ∃ moved, program.nextUse cursor =
        .ok ((cursor.remaining (program.useList cursor.symbol)).head?, moved) ∧
      moved.symbol = cursor.symbol ∧ moved.revision = cursor.revision ∧
      moved.remaining (program.useList cursor.symbol) =
        (cursor.remaining (program.useList cursor.symbol)).tail := by
  obtain ⟨found, passed, moved, left⟩ :=
    cursor.walk_spec ((program.useList cursor.symbol).drop cursor.position)
  refine ⟨{ cursor with position := cursor.position + passed }, ?_, rfl, rfl, ?_⟩
  · have fresh : ¬program.revision cursor.symbol ≠ cursor.revision := not_not.mpr current.symm
    have answer : program.nextUse cursor =
        .ok (cursor.walk ((program.useList cursor.symbol).drop cursor.position)) := if_neg fresh
    rw [answer, ← moved]
    exact congrArg Except.ok (Prod.ext found rfl)
  · rw [List.drop_drop] at left
    exact left

theorem nextUse_stale (stale : program.revision cursor.symbol ≠ cursor.revision) :
    program.nextUse cursor = .error (.concurrentModification cursor.symbol) :=
  if_pos stale

end Program

namespace Session

open Program

/-- The session after the operations among some moves. -/
def after (session : Session) : List Move → Session
  | [] => session
  | .perform operation :: rest => (session.perform operation).after rest
  | .next :: rest => session.after rest

/-- Each operation is allowed when its turn comes. -/
def Permits (session : Session) : List Move → Prop
  | [] => True
  | .perform operation :: rest => session.Allows operation ∧ (session.perform operation).Permits rest
  | .next :: rest => session.Permits rest

/-- No operation attaches or detaches an instruction that refers to the symbol. -/
def Avoids (session : Session) (symbol : Symbol) : List Move → Prop
  | [] => True
  | .perform operation :: rest =>
    ¬session.program.Touches (session.perform operation).program symbol ∧
      (session.perform operation).Avoids symbol rest
  | .next :: rest => session.Avoids symbol rest

/-- The answers of a cursor in the course of some moves. A refusal leaves the cursor where it is. -/
def walk (session : Session) (cursor : UseCursor) : List Move → List (Except Fault (Option Use))
  | [] => []
  | .perform operation :: rest => (session.perform operation).walk cursor rest
  | .next :: rest =>
    match session.program.nextUse cursor with
    | .ok (use, moved) => .ok use :: session.walk moved rest
    | .error fault => .error fault :: session.walk cursor rest

theorem permits_append {session : Session} {front rest : List Move} :
    session.Permits (front ++ rest) ↔ session.Permits front ∧ (session.after front).Permits rest := by
  induction front generalizing session with
  | nil => exact (and_iff_right trivial).symm
  | cons move front ih =>
    cases move with
    | perform operation =>
      change _ ∧ Permits _ (front ++ rest) ↔ (_ ∧ _) ∧ _
      rw [ih, and_assoc]
      rfl
    | next => exact ih

/-- A step of a cursor keeps its symbol and its revision, so the walk goes on with a like cursor. -/
theorem walk_append (session : Session) (cursor : UseCursor) (front : List Move) :
    ∃ moved : UseCursor, moved.symbol = cursor.symbol ∧ moved.revision = cursor.revision ∧
      ∀ rest, session.walk cursor (front ++ rest) =
        session.walk cursor front ++ (session.after front).walk moved rest := by
  induction front generalizing session cursor with
  | nil => exact ⟨cursor, rfl, rfl, fun _ => rfl⟩
  | cons move front ih =>
    cases move with
    | perform operation => exact ih (session.perform operation) cursor
    | next =>
      by_cases current : cursor.revision = session.program.revision cursor.symbol
      · obtain ⟨moved, answer, symbol, revision, -⟩ := nextUse_current current
        obtain ⟨last, sameSymbol, sameRevision, onward⟩ := ih session moved
        refine ⟨last, sameSymbol.trans symbol, sameRevision.trans revision, ?_⟩
        intro rest
        simp only [List.cons_append, walk, answer, onward, after]
      · obtain ⟨last, symbol, revision, onward⟩ := ih session cursor
        refine ⟨last, symbol, revision, ?_⟩
        intro rest
        simp only [List.cons_append, walk, nextUse_stale (Ne.symm current), onward, after]

section

variable {session : Session} (reached : session.Reachable) {moves : List Move}
  (permitted : session.Permits moves)

include reached permitted

theorem Reachable.after : (session.after moves).Reachable := by
  induction moves generalizing session with
  | nil => exact reached
  | cons move rest ih =>
    cases move with
    | perform operation => exact ih (.next reached permitted.1) permitted.2
    | next => exact ih reached permitted

theorem Reachable.revision_le (symbol : Symbol) :
    session.program.revision symbol ≤ (session.after moves).program.revision symbol := by
  induction moves generalizing session with
  | nil => exact le_rfl
  | cons move rest ih =>
    cases move with
    | perform operation =>
      have first := (reached.tells permitted.1 symbol).revision_le
      exact first.trans (ih (.next reached permitted.1) permitted.2)
    | next => exact ih reached permitted

/-- While the symbol is avoided, the answers are what remained of the list at the beginning. -/
theorem walk_avoided {cursor : UseCursor} (avoided : session.Avoids cursor.symbol moves)
    (current : cursor.revision = session.program.revision cursor.symbol) :
    session.walk cursor moves = (List.range (moves.countP Move.isNext)).map fun place =>
      .ok (cursor.remaining (session.program.useList cursor.symbol))[place]? := by
  induction moves generalizing session cursor with
  | nil => rfl
  | cons move rest ih =>
    cases move with
    | perform operation =>
      have onward := Reachable.next reached permitted.1
      obtain ⟨lists, counts⟩ := (reached.tells permitted.1 cursor.symbol).untouched
        reached.steps.usesExact onward.steps.usesExact avoided.1
      rw [← lists]
      exact ih onward permitted.2 avoided.2 (current.trans counts.symm)
    | next =>
      obtain ⟨moved, answer, symbol, revision, left⟩ := nextUse_current current
      have later := ih reached permitted (symbol ▸ avoided) (by rw [revision, symbol, current])
      rw [walk, answer, List.countP_cons_of_pos rfl, List.range_succ_eq_map, List.map_cons,
        List.head?_eq_getElem?]
      simp only [later, symbol, left, List.map_map, List.getElem?_tail, Function.comp_def]

theorem walk_stale {cursor : UseCursor}
    (stale : cursor.revision < session.program.revision cursor.symbol) :
    session.walk cursor moves = List.replicate (moves.countP Move.isNext)
      (.error (.concurrentModification cursor.symbol)) := by
  induction moves generalizing session with
  | nil => rfl
  | cons move rest ih =>
    cases move with
    | perform operation =>
      have told := reached.tells permitted.1 cursor.symbol
      exact ih (.next reached permitted.1) permitted.2 (stale.trans_le told.revision_le)
    | next =>
      rw [walk, nextUse_stale stale.ne', List.countP_cons_of_pos rfl, List.replicate_succ]
      exact congrArg _ (ih reached permitted stale)

/-- A cursor yields the uses of its symbol as they were when it was started, and then nothing, as
long as no operation touches the symbol; after the first that does it refuses every step. -/
theorem Reachable.cursor_fails_fast (symbol : Symbol) (kind : Option UseKind) :
    (session.Avoids symbol moves →
      session.walk (.start session.program.uses symbol kind) moves =
        (List.range (moves.countP Move.isNext)).map fun place =>
          .ok (session.program.usesOfKind symbol kind)[place]?) ∧
    ∀ front operation rest, moves = front ++ .perform operation :: rest →
      (session.after front).program.Touches ((session.after front).perform operation).program symbol →
      session.walk (.start session.program.uses symbol kind) moves =
        session.walk (.start session.program.uses symbol kind) front ++
          List.replicate (rest.countP Move.isNext) (.error (.concurrentModification symbol)) := by
  constructor
  · intro avoided
    have answers := walk_avoided reached permitted
      (show session.Avoids (UseCursor.start session.program.uses symbol kind).symbol moves from avoided) rfl
    rw [answers, show (UseCursor.start session.program.uses symbol kind).symbol = symbol from rfl,
      UseCursor.remaining_start]
  · intro front operation rest split touched
    subst split
    obtain ⟨allowedFront, allowed, allowedRest⟩ := permits_append.mp permitted
    have before := reached.after allowedFront
    have behind := Reachable.next before allowed
    obtain ⟨moved, sameSymbol, sameRevision, onward⟩ :=
      session.walk_append (.start session.program.uses symbol kind) front
    have grown := (before.tells allowed symbol).touched before.steps.usesExact behind.steps.usesExact touched
    have stale : moved.revision <
        ((session.after front).perform operation).program.revision moved.symbol := by
      calc
        moved.revision = session.program.revision symbol := sameRevision
        _ ≤ (session.after front).program.revision symbol := reached.revision_le allowedFront symbol
        _ < ((session.after front).perform operation).program.revision symbol := grown
        _ = _ := by rw [sameSymbol]; rfl
    rw [onward]
    change _ ++ ((session.after front).perform operation).walk moved rest = _
    rw [walk_stale behind allowedRest stale, sameSymbol]
    rfl

end

/-- The call is removed after it was yielded and the end was met. -/
theorem cursor_fails_fast_recursive :
    recursive.walk (.start recursive.program.uses (.method ⟨0⟩) none)
        [.next, .next, .perform (.remove ⟨0⟩), .next] =
      [.ok (some ⟨.invoke, ⟨0⟩⟩), .ok none, .error (.concurrentModification (.method ⟨0⟩))] := by
  have whole := recursive_reachable.cursor_fails_fast
    (show recursive.Permits [.next, .next, .perform (.remove ⟨0⟩), .next] from ⟨trivial, trivial⟩)
    (.method ⟨0⟩) none
  have front := recursive_reachable.cursor_fails_fast
    (show recursive.Permits [.next, .next] from trivial) (.method ⟨0⟩) none
  have removed : recursive.program.Touches (recursive.perform (.remove ⟨0⟩)).program (.method ⟨0⟩) := by
    have attached : recursive.program.instruction? ⟨0⟩ =
        some (.invoke ⟨.normal, ⟨0⟩, ⟨0⟩, [], none⟩) := by decide +kernel
    have detached : (recursive.perform (.remove ⟨0⟩)).program.slot? ⟨0⟩ = none := by decide +kernel
    obtain ⟨slot, there, call⟩ := Option.map_eq_some_iff.mp attached
    refine ⟨⟨.invoke, ⟨0⟩⟩, ?_⟩
    intro agree
    obtain ⟨other, left, -⟩ := agree.mp ⟨slot, there, by rw [call]; decide⟩
    rw [detached] at left
    cases left
  have uses : recursive.program.usesOfKind (.method ⟨0⟩) none = [⟨.invoke, ⟨0⟩⟩] := by decide +kernel
  rw [whole.2 [.next, .next] (.remove ⟨0⟩) [.next] rfl removed, front.1 trivial, uses]
  rfl

end Session

end ClassImage
