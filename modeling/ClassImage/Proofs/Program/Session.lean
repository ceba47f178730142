import ClassImage.Proofs.Program.Loading

/-!
What a client can do to a program. A session is a program together with what the
program has handed out: locals and instructions. Operations take symbols that
the program knows, locals that the client holds and instructions that it was
given, and each may fail; the program that a failed operation leaves is reached
as well. A program that some session reaches is one that steps lead to.
-/

namespace ClassImage

/-- A program, and the locals and instructions that its client holds. -/
structure Session where
  program : Program := {}
  locals : List Local := []
  instructions : List Instruction := []

inductive Operation where
  | type (descriptor : Descriptor)
  | setInterface (type : TypeId) (interface : Bool)
  | define (descriptor : Descriptor) (header : Header)
  | method (owner : TypeId) (name : String) (signature : Signature) (hint : Marker)
  | field (owner : TypeId) (name : String) (type : Descriptor) (hint : Marker)
  | declareMethod (owner : TypeId) (name : String) (signature : Signature) (access : UInt32)
  | declareField (owner : TypeId) (name : String) (type : Descriptor) (access : UInt32)
  | createBody (method : MethodId)
  | freshLocal (kind : ValueKind)
  /-- Builds a call. -/
  | call (request : CallRequest)
  /-- Builds a field access. -/
  | access (request : AccessRequest)
  /-- Makes an instruction of any other form. -/
  | make (instruction : Instruction)
  /-- Copies an attached instruction. -/
  | copy (id : InstructionId)
  | append (method : MethodId) (instruction : Instruction)
  | insertBefore (anchor : InstructionId) (instruction : Instruction)
  | insertAfter (anchor : InstructionId) (instruction : Instruction)
  | remove (id : InstructionId)
  | replace (old : InstructionId) (instruction : Instruction)
  | addImage (image : Image)

/-- What an operation hands out beside handles. -/
structure Yield where
  locals : List Local := []
  instructions : List Instruction := []

namespace Operation

def run : Operation → Edit Yield
  | .type descriptor => (fun _ => {}) <$> Edit.type descriptor
  | .setInterface id interface => (fun _ => {}) <$> Edit.setInterface id interface
  | .define descriptor header => (fun _ => {}) <$> Edit.define descriptor header
  | .method owner name signature hint => (fun _ => {}) <$> Edit.method owner name signature hint
  | .field owner name held hint => (fun _ => {}) <$> Edit.field owner name held hint
  | .declareMethod owner name signature flags =>
    (fun _ => {}) <$> Edit.declareMethod owner name signature flags
  | .declareField owner name held flags =>
    (fun _ => {}) <$> Edit.declareField owner name held flags
  | .createBody id => (fun parameters => { locals := parameters }) <$> Edit.createBody id
  | .freshLocal kind => (fun slot => { locals := [slot] }) <$> Edit.freshLocal kind
  | .call request => (fun call => { instructions := [.invoke call] }) <$> Edit.check request.build
  | .access request => (fun use => { instructions := [.access use] }) <$> Edit.check request.build
  | .make instruction => pure { instructions := [instruction] }
  | .copy id => (fun program => { instructions := (program.instruction? id).toList }) <$> get
  | .append holder instruction => (fun _ => {}) <$> Edit.append holder instruction
  | .insertBefore anchor instruction => (fun _ => {}) <$> Edit.insertBefore anchor instruction
  | .insertAfter anchor instruction => (fun _ => {}) <$> Edit.insertAfter anchor instruction
  | .remove id => (fun instruction => { instructions := [instruction] }) <$> Edit.remove id
  | .replace old instruction =>
    (fun (_, removed) => { instructions := [removed] }) <$> Edit.replace old instruction
  | .addImage image => (fun _ => {}) <$> Edit.addImage image

end Operation

namespace Session

/-- The client has been given a local, or finds it in a body. -/
def Holds (session : Session) (slot : Local) : Prop :=
  slot ∈ session.locals ∨
    ∃ method body, session.program.body? method = some body ∧ slot ∈ body.locals

/-- The symbols of an operation are known, its locals are held and its instructions were given. -/
def Allows (session : Session) : Operation → Prop
  | .type _ | .freshLocal _ | .copy _ | .remove _ | .addImage _ => True
  | .setInterface type _ => (session.program.descriptor? type).isSome
  | .define _ header => session.program.Knows header
  | .method owner _ _ _ | .field owner _ _ _ | .declareMethod owner _ _ _
  | .declareField owner _ _ _ => (session.program.descriptor? owner).isSome
  | .createBody method => (session.program.methodKey? method).isSome
  | .call request =>
    (∀ method, request.method = some method → (session.program.methodKey? method).isSome) ∧
      ∀ slot ∈ request.arguments ++ request.result.toList, session.Holds slot
  | .access request =>
    (∀ field, request.field = some field → (session.program.fieldKey? field).isSome) ∧
      ∀ slot ∈ request.value.toList ++ request.object.toList, session.Holds slot
  | .make instruction =>
    (∀ call, instruction ≠ .invoke call) ∧ (∀ use, instruction ≠ .access use) ∧
      session.program.Admits instruction ∧ ∀ slot ∈ instruction.locals, session.Holds slot
  | .append method instruction =>
    (session.program.methodKey? method).isSome ∧ instruction ∈ session.instructions
  | .insertBefore _ instruction | .insertAfter _ instruction | .replace _ instruction =>
    instruction ∈ session.instructions

/-- Runs an operation. One that fails hands out nothing, but may leave the program changed. -/
def perform (session : Session) (operation : Operation) : Session :=
  match operation.run.run session.program with
  | (.ok yield, program) =>
    ⟨program, session.locals ++ yield.locals, session.instructions ++ yield.instructions⟩
  | (.error _, program) => { session with program }

/-- The sessions that start with the empty program. -/
inductive Reachable : Session → Prop
  | start : Reachable {}
  | next {session : Session} {operation : Operation} (reached : Reachable session)
      (allowed : session.Allows operation) : Reachable (session.perform operation)

open Edit Program

/-- The locals that the client holds, by themselves or in instructions. -/
def held (session : Session) : List Local :=
  session.locals ++ session.instructions.flatMap Instruction.locals

/-- What an operation does to a program, in one go: a step that leaves code alone, an edit of code
with an instruction that the client was given, or the whole of an image. -/
inductive Change (held : List Local) : Program → Program → Prop
  | quiet {before after : Program} (step : Step before after) (code : after.code = before.code) :
      Change held before after
  | rewrite {instruction : Option Instruction} {before after : Program}
      (given : ∀ joining, instruction = some joining → before.Admits joining ∧
        ∀ slot ∈ joining.locals, before.Shows held slot)
      (rewrite : Rewrite instruction before after) : Change held before after
  | load {image : Image} {before after : Program} (verified : image.verify = .ok ())
      (sound : after.LocalsSound held)
      (moved : Relation.ReflTransGen (Loading.Context.mk image before).Loads before after)
      (loaded : (Loading.Context.mk image before).Loaded before after) : Change held before after

/-- An edit of code that brings no instruction needs nothing of the client. -/
theorem Change.removal {held : List Local} {before after : Program} (rewrite : Rewrite none before after) :
    Change held before after :=
  .rewrite (by rintro _ ⟨⟩) rewrite

theorem Change.steps {held : List Local} {before after : Program} (change : Change held before after) :
    Steps before after := by
  cases change with
  | quiet step => exact .single step
  | rewrite given rewrite => exact rewrite.steps fun joining same => (given joining same).1
  | load _ _ moved => exact Loading.Context.Loads.steps moved

theorem Change.locals {held : List Local} {before after : Program} (change : Change held before after)
    (sound : before.LocalsSound held) : after.LocalsSound held := by
  cases change with
  | quiet step code => exact sound.quiet step code
  | rewrite given rewrite => exact sound.rewrite rewrite fun joining same => (given joining same).2
  | load _ sound => exact sound

section Changes

variable {held : List Local} {before after : Program}
  (moved : Relation.ReflTransGen (Change held) before after)

include moved

theorem Change.all_steps : Steps before after := by
  induction moved with
  | refl => exact .refl
  | tail _ change ih => exact ih.trans change.steps

theorem Change.all_locals (sound : before.LocalsSound held) : after.LocalsSound held := by
  induction moved with
  | refl => exact sound
  | tail _ change ih => exact change.locals ih

end Changes

/-- What holds of a session: its program is reached by steps, what the client was given is admitted,
and the locals that it holds are those that the program has issued. -/
structure Sound (session : Session) : Prop where
  steps : Steps {} session.program
  given : ∀ instruction ∈ session.instructions, session.program.Admits instruction
  locals : session.program.LocalsSound session.held

theorem shows_of_holds {session : Session} {slot : Local} (holds : session.Holds slot) :
    session.program.Shows session.held slot := by
  rcases holds with member | listed
  · exact .inl (List.mem_append_left _ member)
  · exact .inr listed

/-- What an operation hands out is admitted, and the client may hold its locals. -/
def Hands (held : List Local) (yield : Yield) (program : Program) : Prop :=
  (∀ instruction ∈ yield.instructions, program.Admits instruction) ∧
    program.LocalsSound (yield.locals ++ yield.instructions.flatMap Instruction.locals ++ held)

section

variable {session : Session} (sound : session.Sound)

include sound

/-- An edit of code with an instruction that the client was given. -/
theorem Sound.rewrite {instruction : Instruction} (member : instruction ∈ session.instructions)
    {after : Program} (rewrite : Rewrite (some instruction) session.program after) :
    Change session.held session.program after := by
  refine .rewrite ?_ rewrite
  rintro joining ⟨⟩
  refine ⟨sound.given _ member, ?_⟩
  intro slot uses
  exact .inl (List.mem_append_right _ (List.mem_flatMap.mpr ⟨_, member, uses⟩))

section Yields

variable {after : Program} (moved : Relation.ReflTransGen (Change session.held) session.program after)

include moved

/-- The client may be handed what it can see already. -/
theorem Sound.hands {yield : Yield}
    (admitted : ∀ instruction ∈ yield.instructions, after.Admits instruction)
    (shown : ∀ slot ∈ yield.locals ++ yield.instructions.flatMap Instruction.locals,
      after.Shows session.held slot) : Hands session.held yield after := by
  refine ⟨admitted, (Change.all_locals moved sound.locals).hold ?_⟩
  intro slot member
  rcases List.mem_append.mp member with new | old
  · exact shown slot new
  · exact .inl old

theorem Sound.hands_nothing : Hands session.held {} after :=
  sound.hands moved (by simp) (by simp)

theorem Sound.hands_instruction {instruction : Instruction} (admitted : after.Admits instruction)
    (shown : ∀ slot ∈ instruction.locals, session.program.Shows session.held slot) :
    Hands session.held { instructions := [instruction] } after := by
  apply sound.hands moved
  · simpa using admitted
  · intro slot member
    exact (Change.all_steps moved).shows (shown slot (by simpa using member))

theorem Sound.hands_attached {id : InstructionId} {slot : Slot}
    (attached : session.program.slot? id = some slot) :
    Hands session.held { instructions := [slot.instruction] } after := by
  apply sound.hands_instruction moved
  · exact (Change.all_steps moved).extends.admits (sound.steps.codeAdmitted id slot attached)
  · exact fun operand uses => sound.locals.shows_of_used attached uses

end Yields

theorem Sound.reaches_nothing {edit : Edit α} {goal : α → Program → Prop}
    (reached : Reaches (Change session.held) edit session.program goal) :
    Reaches (Change session.held) ((fun _ => ({} : Yield)) <$> edit) session.program
      (Hands session.held) :=
  .map (reached.imp fun _ _ moved _ => sound.hands_nothing moved)

theorem Sound.reaches_addImage (image : Image) :
    Reaches (Change session.held) (addImage image) session.program fun _ _ => True := by
  have indexed := sound.steps.indexed .empty
  rcases addImage_loaded indexed sound.locals with same | ⟨verified, locals, moved, loaded⟩
  · apply Reaches.leave
    · rw [same]
      exact fun kept => kept
    · rw [same]
    · exact fun _ _ => trivial
  · have steps := Loading.Context.Loads.steps moved
    exact .leave steps.indexed (.single (.load verified locals moved loaded)) fun _ _ => trivial

/-- An allowed operation changes the program in these ways only. -/
theorem Sound.reaches_run {operation : Operation} (allowed : session.Allows operation) :
    Reaches (Change session.held) operation.run session.program (Hands session.held) := by
  have grow : ∀ {after}, Growth session.program after → Change session.held session.program after :=
    fun growth => .quiet (.grow growth) growth.code
  cases operation with
  | type => exact sound.reaches_nothing (Edit.reaches_type grow)
  | setInterface => exact sound.reaches_nothing (reaches_setInterface grow)
  | define =>
    exact sound.reaches_nothing (reaches_define allowed grow fun _ _ _ step => .quiet step rfl)
  | method => exact sound.reaches_nothing (Edit.reaches_method allowed grow fun _ _ => grow)
  | field => exact sound.reaches_nothing (Edit.reaches_field allowed grow fun _ _ => grow)
  | declareMethod =>
    exact sound.reaches_nothing (Edit.reaches_declareMethod allowed grow (fun _ _ => grow)
      fun step => .quiet step rfl)
  | declareField =>
    exact sound.reaches_nothing (Edit.reaches_declareField allowed grow (fun _ _ => grow)
      fun step => .quiet step rfl)
  | createBody method =>
    refine .map ((reaches_createBody fun step => .quiet step rfl).imp ?_)
    rintro parameters after moved ⟨rfl, -, -, -⟩
    apply sound.hands moved (by simp)
    intro slot member
    have opened := body?_addBody session.program (methodKey?_isSome.mp allowed) parameters method
    rw [if_pos rfl] at opened
    exact .inr ⟨method, _, opened, List.mem_toArray.mpr (by simpa using member)⟩
  | freshLocal kind =>
    refine .map ((reaches_freshLocal grow).imp ?_)
    rintro slot after - ⟨rfl, rfl⟩
    exact ⟨by simp, by simpa using sound.locals.addLocal kind⟩
  | call request =>
    refine .map ((reaches_call allowed.1).imp ?_)
    rintro call after moved ⟨rfl, rfl, admitted⟩
    apply sound.hands_instruction moved admitted
    intro slot uses
    exact shows_of_holds (allowed.2 slot (List.mem_append.mpr (List.mem_append.mp uses).symm))
  | access request =>
    refine .map ((reaches_access allowed.1).imp ?_)
    rintro use after moved ⟨rfl, rfl, admitted⟩
    apply sound.hands_instruction moved admitted
    intro slot uses
    apply shows_of_holds (allowed.2 slot _)
    obtain ⟨kind, _, _, _⟩ := use
    cases kind <;> simpa [Instruction.locals, Instruction.writes, Instruction.reads] using uses
  | make instruction =>
    exact .pure (sound.hands_instruction .refl allowed.2.2.1
      fun slot uses => shows_of_holds (allowed.2.2.2 slot uses))
  | copy id =>
    refine .map (.leave (fun kept => kept) .refl ?_)
    rintro _ ⟨⟩
    change Hands _ { instructions := ((session.program.slot? id).map Slot.instruction).toList } _
    cases attached : session.program.slot? id with
    | none => exact sound.hands_nothing .refl
    | some slot => exact sound.hands_attached .refl attached
  | append => exact sound.reaches_nothing (reaches_append (sound.rewrite allowed.2))
  | insertBefore => exact sound.reaches_nothing (reaches_insertBefore (sound.rewrite allowed))
  | insertAfter => exact sound.reaches_nothing (reaches_insertAfter (sound.rewrite allowed))
  | remove id =>
    refine .map ((reaches_remove Change.removal).imp ?_)
    rintro instruction after moved ⟨slot, attached, rfl⟩
    exact sound.hands_attached moved attached
  | replace old instruction =>
    refine .map ((reaches_replace (sound.rewrite allowed)).imp ?_)
    rintro result after moved ⟨slot, body, position, attached, -, -, rfl, -⟩
    exact sound.hands_attached moved attached
  | addImage image => exact sound.reaches_nothing (sound.reaches_addImage image)

/-- The changes of an operation, and what holds of the session after it. -/
theorem Sound.perform {operation : Operation} (allowed : session.Allows operation) :
    Relation.ReflTransGen (Change session.held) session.program (session.perform operation).program ∧
      (session.perform operation).Sound := by
  obtain ⟨-, moved, handed⟩ := sound.reaches_run allowed (sound.steps.indexed .empty)
  have steps := Change.all_steps moved
  have locals := Change.all_locals moved sound.locals
  unfold Session.perform
  rw [show operation.run.run session.program = outcome operation.run session.program from rfl]
  revert moved handed steps locals
  rcases outcome operation.run session.program with ⟨fault | yield, after⟩ <;>
    intro moved handed steps locals
  · refine ⟨moved, sound.steps.trans steps, ?_, locals⟩
    exact fun instruction here => steps.extends.admits (sound.given instruction here)
  · obtain ⟨admitted, shown⟩ := handed yield rfl
    refine ⟨moved, sound.steps.trans steps, ?_, shown.hold ?_⟩
    · intro instruction here
      rcases List.mem_append.mp here with here | here
      · exact steps.extends.admits (sound.given instruction here)
      · exact admitted instruction here
    · intro slot member
      left
      simp only [Session.held, List.flatMap_append, List.mem_append] at member ⊢
      tauto

end

theorem Reachable.sound {session : Session} (reached : session.Reachable) : session.Sound := by
  induction reached with
  | start =>
    have bodies : ({} : Program).body? = fun _ => none := rfl
    have owners : ({} : Program).owner? = fun _ => none := by
      funext slot
      simp [owner?]
    have slots : ({} : Program).slot? = fun _ => none := rfl
    refine ⟨.refl, by simp, ?_⟩
    constructor <;> simp [Shows, Session.held, bodies, owners, slots]
  | next _ allowed ih => exact (ih.perform allowed).2

/-- The program of a session is reached by steps. -/
theorem Reachable.steps {session : Session} (reached : session.Reachable) :
    Steps {} session.program :=
  reached.sound.steps

/-- A class with one static method, which calls itself and returns. -/
def recursive : Session :=
  [.define (.object "A") { access := 1 }, .declareMethod ⟨0⟩ "f" ⟨[], .void⟩ 8, .createBody ⟨0⟩,
    .call ⟨.normal, some ⟨0⟩, [], none⟩, .make (.ret none),
    .append ⟨0⟩ (.invoke ⟨.normal, ⟨0⟩, ⟨0⟩, [], none⟩), .append ⟨0⟩ (.ret none)].foldl perform {}

theorem recursive_reachable : recursive.Reachable := by
  rw [recursive]
  simp only [List.foldl_cons, List.foldl_nil]
  refine .next (.next (.next (.next (.next (.next (.next .start ?_) ?_) ?_) ?_) ?_) ?_) ?_
  · exact ⟨by simp, by simp⟩
  · change Option.isSome _ = true
    decide +kernel
  · change Option.isSome _ = true
    decide +kernel
  · refine ⟨?_, by simp⟩
    rintro _ ⟨⟩
    decide +kernel
  · exact ⟨by simp, by simp, trivial, by simp [Instruction.locals, Instruction.writes, Instruction.reads]⟩
  · exact ⟨by decide +kernel, by decide +kernel⟩
  · exact ⟨by decide +kernel, by decide +kernel⟩

end Session

end ClassImage
