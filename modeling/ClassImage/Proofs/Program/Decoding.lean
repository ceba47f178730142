import ClassImage.Proofs.Program.Provenance
import ClassImage.Proofs.Program.Targets

/-!
What the code of an image becomes. Without what is idle, its raw instructions
fall into units in exactly one way, and the body that is loaded has one
instruction for each unit, in the same order, which is what the unit means.
Branches lead to the instruction of the unit that starts where the first
instruction from their position on is that is not idle.
-/

namespace ClassImage

open Program Edit

namespace Loading.Context

variable {context : Context} {before after : Program}

/-- The code is the body of the method, unit by unit: its raw instructions are laid out and grouped in this way
alone, its registers have their locals, the body has the instruction that each unit means, and the position of
a branch stands for the first unit that does something from there on. -/
structure Decodes (context : Context) (method : MethodId) (code : CodeItem) (body : Body) (frame : Frame)
    (program : Program) : Prop where
  laid : CodeUnit.Laid 0 code.instructions.toList frame.units
  groups : ∀ units, CodeUnit.Groups code.instructions.toList units ↔ units = frame.units.map Prod.snd
  allocates : ∀ dst type constructor arguments,
    .allocation dst type constructor arguments ∈ frame.units.map Prod.snd →
      arguments.head? = some dst ∧ context.image.pool.isConstructor constructor
  assigned : code.Assigns body.parameters frame.registers.toList
  made : List.Forall₂ (fun unit handle => ∃ instruction, program.slot? handle = some ⟨method, instruction⟩ ∧
    context.Means frame program unit.2 instruction) frame.units body.instructions.toList
  branches : ∀ unit ∈ frame.units, ∀ position, unit.2.target? = some position →
    ∃ (place start : Nat) (other : CodeUnit), frame.units[place]? = some (start, other) ∧
      CodeUnit.FirstActive code.instructions.toList position.toNat start ∧
      body.instructions[place]? = some (frame.target position)

/-- Only one method has the name that an index stands for. -/
theorem NamesMethod.unique {index : UInt32} {id other : MethodId} {program : Program} (sound : program.KeysSound)
    (one : context.NamesMethod index id program) (another : context.NamesMethod index other program) :
    id = other := by
  obtain ⟨owner, descriptor, name, signature, key, known, read⟩ := one
  obtain ⟨owner', descriptor', name', signature', key', known', read'⟩ := another
  obtain ⟨rfl, rfl, rfl⟩ := read.unique read'
  cases sound.types known known'
  exact sound.methods key key'

/-- What is called after an allocation is a constructor, on the object that was allocated. -/
theorem allocation_verified {code : CodeItem} {pool : Pool} (verified : code.Verified pool) {start : Nat}
    {dst : UInt16} {type constructor : UInt32} {arguments : List UInt16}
    (listed : (start, .allocation dst type constructor arguments) ∈
      CodeUnit.split 0 code.instructions.toList) :
    arguments.head? = some dst ∧ pool.isConstructor constructor := by
  have first : code.instruction? start = some (.newInstance dst type) := verified.reads listed 0 rfl
  have second : code.instruction? (start + 1) = some (.invoke .direct constructor arguments) :=
    verified.reads listed 1 rfl
  obtain ⟨_, _, called, head, constructs⟩ := (verified.instructions start _ first).allocation dst type rfl
  cases called.symm.trans second
  exact ⟨head, constructs⟩

/-- What was filled stays what the code means. -/
theorem Fills.decodes {method : MethodId} {code : CodeItem} {between : Program}
    (fills : context.Fills method code before between) (verified : code.Verified context.image.pool)
    (moved : Relation.ReflTransGen context.Loads between after)
    (kept : ∀ body, between.body? method = some body → after.body? method = some body) :
    ∃ body frame, after.body? method = some body ∧ context.Decodes method code body frame after := by
  obtain ⟨held, frame, parameters, units, assigned, -, filled⟩ := fills
  obtain ⟨locals, opened⟩ := filled.body
  have made : ∀ place entry, frame.units[place]? = some entry → ∃ instruction,
      after.slot? ⟨frame.firstUnit.index + place⟩ = some ⟨method, instruction⟩ ∧
        context.Means frame after entry.2 instruction := by
    intro place entry listed
    obtain ⟨instruction, attached, makes⟩ := filled.made place (List.getElem?_eq_some_iff.mp listed).1 entry listed
    rw [filled.first]
    exact ⟨instruction, Loads.all_slot_kept moved attached, makes.means.kept moved⟩
  have laid : CodeUnit.Laid 0 code.instructions.toList frame.units := units ▸ verified.laid
  -- Verification lets through what belongs to no unit; that loading has not refused it says more.
  have proper : ∀ entry ∈ frame.units, entry.2.Proper := by
    intro entry listed
    obtain ⟨place, listed⟩ := List.mem_iff_getElem?.mp listed
    obtain ⟨_, -, means⟩ := made place entry listed
    exact means.proper
  have grouped := laid.groups proper
  refine ⟨_, frame, kept _ opened, laid, ?_, ?_, assigned, ?_, ?_⟩
  · intro others
    exact ⟨fun groups => groups.unique grouped, fun same => same ▸ grouped⟩
  · intro dst type constructor arguments member
    obtain ⟨⟨start, _⟩, listed, rfl⟩ := List.mem_map.mp member
    exact allocation_verified verified (units ▸ listed)
  · rw [List.forall₂_iff_get]
    refine ⟨by simp [handlesFrom], ?_⟩
    intro place inside inside'
    have listed : frame.units[place]? = some (frame.units.get ⟨place, inside⟩) := List.getElem?_eq_getElem inside
    simpa [handlesFrom] using made place _ listed
  · intro entry listed position branches
    obtain ⟨inside, apart⟩ := CodeUnit.apart_of_branch verified (units ▸ listed) branches
    have bound := CodeUnit.indexOf_inside verified inside
    rw [← units] at apart bound
    obtain ⟨start, other, there, active⟩ := laid.firstActive (by simpa using inside.le) apart bound
    refine ⟨_, start, other, there, active, ?_⟩
    rw [List.getElem?_toArray, getElem?_handlesFrom bound, Frame.target]

theorem Bodies.body_kept {coded : List (MethodId × CodeItem)} (bodies : context.Bodies coded before after)
    {method : MethodId} {body : Body} (here : before.body? method = some body) :
    after.body? method = some body := by
  induction bodies with
  | nil => exact here
  | @cons other code rest first second third fills moved others ih =>
    obtain ⟨held, frame, parameters, -, -, fresh, filled⟩ := fills
    refine ih ((filled.others method ?_).trans here)
    rintro rfl
    rw [fresh] at here
    cases here

/-- Every code that is listed has filled the body of its method, and that body stays. -/
theorem Bodies.filled {coded : List (MethodId × CodeItem)} (bodies : context.Bodies coded before after)
    {method : MethodId} {code : CodeItem} (member : (method, code) ∈ coded) :
    ∃ first second, context.Fills method code first second ∧
      Relation.ReflTransGen context.Loads second after ∧
      ∀ body, second.body? method = some body → after.body? method = some body := by
  induction bodies with
  | nil => cases member
  | @cons other item rest first second third fills moved others ih =>
    rcases List.mem_cons.mp member with same | member
    · cases same
      exact ⟨first, second, fills, others.moved, fun _ here => others.body_kept here⟩
    · exact ih member

/-- Every code of an image that is loaded is the body of its method. -/
theorem Loaded.decodes (loaded : context.Loaded before after) (verified : context.image.verify = .ok ())
    {definition : ClassDef} (defined : definition ∈ context.image.classes) {method : MethodDef}
    (declared : method ∈ definition.methods) {code : CodeItem} (coded : code ∈ method.code) :
    ∃ id body frame, context.NamesMethod method.method id after ∧ after.body? id = some body ∧
      context.Decodes id code body frame after := by
  obtain ⟨listed, middle, -, defines, -, codes, bodies⟩ := loaded
  obtain ⟨id, named, items⟩ := (defines definition defined).2 method declared
  have member := items code coded
  obtain ⟨first, second, fills, moved, kept⟩ := bodies.filled member
  have accepted := Image.verified_codes verified (codes ▸ List.mem_map_of_mem member)
  obtain ⟨body, frame, here, decodes⟩ := fills.decodes accepted moved kept
  exact ⟨id, body, frame, named.kept (Loads.steps bodies.moved), here, decodes⟩

end Loading.Context

namespace Session

open Loading

/-- Decoding keeps the program. When an image is added, every code in it becomes the body of the one method that
its index names. Without what is idle, the raw instructions of the code fall in exactly one way into allocations
with their constructor calls, calls with what takes their results, and single instructions. The body has one
instruction for each of these units, in the same order: that of the unit's meaning, with the locals of its
registers. A branch leads to the instruction of the unit that starts where the first instruction from its raw
target on is that is not idle. -/
theorem Reachable.addImage_decodes {session : Session} (reached : session.Reachable) {image : Image}
    {after : Program} (added : Edit.addImage image session.program = (.ok (), after)) {definition : ClassDef}
    (defined : definition ∈ image.classes) {method : MethodDef} (declared : method ∈ definition.methods)
    {code : CodeItem} (coded : code ∈ method.code) :
    ∃ id body frame,
      (∀ other, (Context.mk image session.program).NamesMethod method.method other after ↔ other = id) ∧
      after.body? id = some body ∧
      (Context.mk image session.program).Decodes id code body frame after := by
  obtain ⟨verified, -, ran⟩ := Edit.addImage_ok.mp added
  have loading := @Context.reaches_load ⟨image, session.program⟩ session.program session.held
    (Image.verify_ok.mp verified).2 reached.sound.locals
  obtain ⟨moved, -, loaded⟩ := loading.ran (reached.steps.indexed .empty) ran
  have steps : Steps {} after := reached.steps.trans (Context.Loads.steps moved)
  obtain ⟨id, body, frame, named, here, decodes⟩ := loaded.decodes verified defined declared coded
  refine ⟨id, body, frame, fun other => ⟨fun another => ?_, fun same => same ▸ named⟩, here, decodes⟩
  exact another.unique steps.keysSound named

/-- Branches over an idle instruction to where an object is made. -/
def making : CodeItem := ⟨1, 0, [0], #[.goto 1, .nop, .newInstance 0 0, .invoke .direct 1 [0], .returnVoid]⟩

/-- A class with one static method, which makes an object of the class. -/
def maker : Image where
  flags := 0
  pool := ⟨#["LB;", "run", "V", "<init>"], #[0, 2], #[⟨1, []⟩], #[], #[⟨0, 0, 1⟩, ⟨0, 0, 3⟩]⟩
  classes := [⟨0, 1, none, [], none, [], [⟨0, 8, some making⟩]⟩]

/-- The five raw instructions become three. -/
theorem addImage_decodes_maker :
    recursive.Reachable ∧ ∃ after id body frame, Edit.addImage maker recursive.program = (.ok (), after) ∧
      after.body? id = some body ∧ (Context.mk maker recursive.program).Decodes id making body frame after ∧
      frame.units.map Prod.snd = [.single (.goto 1), .allocation 0 0 1 [0], .single .returnVoid] := by
  have done : (Edit.addImage maker recursive.program).1 = .ok () := by decide +kernel
  have added : Edit.addImage maker recursive.program = (.ok (), (Edit.addImage maker recursive.program).2) :=
    Prod.fst_eq_iff.mp done
  obtain ⟨id, body, frame, -, here, decodes⟩ := recursive_reachable.addImage_decodes added
    List.mem_cons_self List.mem_cons_self rfl
  refine ⟨recursive_reachable, _, id, body, frame, added, here, decodes, ?_⟩
  exact ((decodes.groups _).mp ⟨by simp [CodeUnit.Proper, RawInstruction.Single], by decide⟩).symm

end Session

end ClassImage
