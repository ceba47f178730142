import Mathlib.Tactic
import ClassImage.Proofs.Copy.Interfaces
import ClassImage.Proofs.Merge.Order
import ClassImage.Proofs.Program.Decoding

/-!
How calls are dispatched in an image that is loaded and written again. A program
does not keep the dispatch of a call, but only whether it looks for its target from
the receiver on; the rest is chosen when code is written, from what the target is
and from the class around the call. Calls that were dispatched as this choice asks
come out as they were, and every other call comes out with the dispatch that the
choice asks for. The methods that are called stay the same, one for one.
-/

namespace ClassImage

open Program

/-- What a call is dispatched as if the choice goes the other way. -/
def Dispatch.partner : Dispatch → Dispatch
  | .virtual => .interface
  | .interface => .virtual
  | .direct => .super
  | .super => .direct
  | .static => .static

/-- The dispatch and the target of a call. -/
def RawInstruction.call? : RawInstruction → Option (Dispatch × UInt32)
  | .invoke dispatch method _ => some (dispatch, method)
  | _ => none

/-- The calls of a code, in order. -/
def CodeItem.calls (code : CodeItem) : List (Dispatch × UInt32) :=
  code.instructions.toList.filterMap RawInstruction.call?

namespace CodeUnit

def calls (unit : CodeUnit) : List (Dispatch × UInt32) := unit.raws.filterMap RawInstruction.call?

theorem calls_call (dispatch : Dispatch) (method : UInt32) (arguments : List UInt16)
    (result : Option UInt16) : (call dispatch method arguments result).calls = [(dispatch, method)] := by
  cases result <;> rfl

theorem calls_single {raw : RawInstruction} (proper : (single raw).Proper) : (single raw).calls = [] := by
  cases raw with
  | invoke => exact proper.elim
  | _ => rfl

theorem filterMap_call? (units : List CodeUnit) :
    (units.flatMap raws).filterMap RawInstruction.call? = units.flatMap calls :=
  List.filterMap_flatMap

/-- Idle instructions call nothing, so the calls of a code are those of its units. -/
theorem Groups.calls {code : CodeItem} {units : List CodeUnit}
    (groups : Groups code.instructions.toList units) : code.calls = units.flatMap CodeUnit.calls := by
  have idle : code.calls = (code.instructions.toList.filter (· ≠ .nop)).filterMap RawInstruction.call? := by
    rw [CodeItem.calls, List.filterMap_filter]
    apply List.filterMap_congr
    intro raw _
    cases raw <;> rfl
  rw [idle, ← groups.whole, filterMap_call?]

end CodeUnit

namespace Loading.Context

/-- The image has the code for the method with an owner, a name and a signature. -/
def Codes (context : Context) (owner : Descriptor) (name : String) (signature : Signature)
    (code : CodeItem) : Prop :=
  ∃ definition ∈ context.image.classes, ∃ method ∈ definition.methods, method.code = some code ∧
    context.ReadsMethod method.method owner name signature

/-- What an image takes for an interface: a class that it defines as one, and a type that it does not
define but lists as an interface of a class or calls through. -/
def TakesForInterface (context : Context) (descriptor : Descriptor) : Prop :=
  (∃ definition ∈ context.image.classes, context.Reads definition.type descriptor ∧
    Access.isSet definition.access Access.interface) ∨
  (∀ definition ∈ context.image.classes, ¬context.Reads definition.type descriptor) ∧
    (context.Lists descriptor ∨ context.CallsThrough descriptor)

/-- The dispatch of a call is the one that its target and the class around it ask for. -/
def Befits (context : Context) (enclosing owner : Descriptor) (name : String) : Dispatch → Prop
  | .static => True
  | .virtual => ¬context.TakesForInterface owner
  | .interface => context.TakesForInterface owner
  | .direct => name = Pool.constructorName ∨ owner = enclosing
  | .super => ¬(name = Pool.constructorName ∨ owner = enclosing)

/-- Two calls, in two images, of one method, the second with the dispatch that befits the first. -/
def Redispatched (context rebuilt : Context) (enclosing : Descriptor) (call again : Dispatch × UInt32) :
    Prop :=
  ∃ owner name signature, context.ReadsMethod call.2 owner name signature ∧
    rebuilt.ReadsMethod again.2 owner name signature ∧
    (context.Befits enclosing owner name call.1 → again.1 = call.1) ∧
    (¬context.Befits enclosing owner name call.1 → again.1 = call.1.partner)

section Interfaces

variable {context : Context} {program : Program} (loaded : context.Loaded {} program)
  {type : TypeId} {descriptor : Descriptor} (known : program.descriptor? type = some descriptor)

include loaded known

/-- A class of the image is defined with the flags that it has there. -/
theorem Loaded.access_of_class {definition : ClassDef} (member : definition ∈ context.image.classes)
    (read : context.Reads definition.type descriptor) :
    ∃ found, program.definition? type = some found ∧ found.access = definition.access := by
  obtain ⟨other, header, outline, ⟨_, read', known'⟩, access, -⟩ := loaded.defines member
  cases read.unique read'
  cases loaded.steps.keysSound.types known known'
  obtain ⟨found, here, rfl⟩ := Option.map_eq_some_iff.mp outline
  exact ⟨found, here, access⟩

theorem Loaded.takesForInterface_external (external : program.definition? type = none) :
    (program.typeAt type).isInterface ↔ context.TakesForInterface descriptor := by
  have undefined : ∀ definition ∈ context.image.classes, ¬context.Reads definition.type descriptor := by
    intro definition member read
    obtain ⟨found, here, -⟩ := loaded.access_of_class known member read
    cases external.symm.trans here
  have apart : ¬(program.typeAt type).isDefined := by
    rw [TypeEntry.isDefined, ← Program.definition?, external]
    exact Bool.false_ne_true
  rw [isInterface_iff_flagged external, loaded.flagged_iff loaded.steps.keysSound known apart]
  constructor
  · exact fun inferred => .inr ⟨undefined, inferred⟩
  · rintro (⟨definition, member, read, -⟩ | ⟨-, inferred⟩)
    · exact absurd read (undefined definition member)
    · exact inferred

theorem Loaded.takesForInterface_defined {definition : ClassDef}
    (member : definition ∈ context.image.classes) (read : context.Reads definition.type descriptor) :
    (program.typeAt type).isInterface ↔ context.TakesForInterface descriptor := by
  obtain ⟨found, here, access⟩ := loaded.access_of_class known member read
  rw [isInterface_of_definition here, Definition.isInterface]
  constructor
  · intro flagged
    exact .inl ⟨definition, member, read, access ▸ flagged⟩
  · rintro (⟨other, listed, read', flagged⟩ | ⟨undefined, -⟩)
    · obtain ⟨found', here', access'⟩ := loaded.access_of_class known listed read'
      cases here.symm.trans here'
      exact access' ▸ flagged
    · exact absurd read (undefined definition member)

end Interfaces

end Loading.Context

/-- An image that is loaded by itself takes for an interface what the program knows as one. -/
theorem Edit.isInterface_iff {image : Image} {program : Program}
    (added : addImage image {} = (.ok (), program)) {type : TypeId} {descriptor : Descriptor}
    (known : program.descriptor? type = some descriptor) :
    (program.typeAt type).isInterface ↔ (Loading.Context.mk image {}).TakesForInterface descriptor := by
  obtain ⟨-, loaded⟩ := loaded_of_addImage added
  cases defined : program.definition? type with
  | none => exact loaded.takesForInterface_external known defined
  | some =>
    have readable : Descriptor.parse descriptor.text = .ok descriptor := by
      obtain ⟨index, read⟩ := loaded.grounded.types known
      exact read.readable
    have listed : descriptor.text ∈ image.classNames := by
      by_contra absent
      cases defined.symm.trans ((lacksClass_of_addImage added).mpr absent descriptor type readable known)
    obtain ⟨definition, member, named⟩ := List.mem_filterMap.mp listed
    exact loaded.takesForInterface_defined known member ⟨_, named, readable⟩

namespace Loading.Context

section Calls

variable {context rebuilt : Context} {frame : Frame} {surroundings : CodeContext} {enclosing : Descriptor}
  (enclosed : surroundings.program.descriptor?
    (surroundings.program.methodAt surroundings.method).owner = some enclosing)
  (sound : surroundings.program.KeysSound)
  (taken : ∀ {type descriptor}, surroundings.program.descriptor? type = some descriptor →
    ((surroundings.program.typeAt type).isInterface ↔ context.TakesForInterface descriptor))

include enclosed sound taken

/-- A call is written with the dispatch that befits it. -/
theorem dispatch_eq {call : Call} {dispatch : Dispatch} {owner : Descriptor} {name : String}
    {signature : Signature}
    (kind : call.kind = if dispatch = .direct ∨ dispatch = .super then .special else .normal)
    (key : surroundings.program.methodKey? call.method = some (call.owner, name, signature))
    (owned : surroundings.program.descriptor? call.owner = some owner)
    (marked : (surroundings.program.methodAt call.method).marker = some (decide (dispatch = .static))) :
    (context.Befits enclosing owner name dispatch → surroundings.dispatch call = dispatch) ∧
      (¬context.Befits enclosing owner name dispatch → surroundings.dispatch call = dispatch.partner) := by
  obtain ⟨holder, named, -⟩ := methodKey?_methodAt key
  have interface := taken owned
  have within : call.owner = (surroundings.program.methodAt surroundings.method).owner ↔
      owner = enclosing := by
    constructor
    · intro same
      rw [same, enclosed] at owned
      exact (Option.some.inj owned).symm
    · rintro rfl
      exact sound.types owned enclosed
  have special : call.kind = .special → surroundings.dispatch call =
      if name = Pool.constructorName ∨ owner = enclosing then .direct else .super := by
    intro special
    simp only [CodeContext.dispatch, special, MethodEntry.isConstructor, named, holder, within,
      decide_eq_true_eq]
  have plain : call.kind = .normal → dispatch ≠ .static → surroundings.dispatch call =
      if (surroundings.program.typeAt call.owner).isInterface then .interface else .virtual := by
    intro normal other
    simp [CodeContext.dispatch, normal, marked, other, holder]
  cases dispatch with
  | static => simp [CodeContext.dispatch, kind, marked, Befits]
  | virtual | interface => simp [plain kind (by decide), Befits, Dispatch.partner, interface]
  | direct | super =>
    by_cases own : name = Pool.constructorName ∨ owner = enclosing <;>
      simp [special kind, Befits, Dispatch.partner, own]

/-- The calls of a unit are the calls of what its instruction is lowered to, one for one. -/
theorem Means.redispatched {unit other : CodeUnit} {instruction : Instruction}
    (means : context.Means frame surroundings.program unit instruction)
    (admitted : surroundings.program.Admits instruction)
    (legible : rebuilt.Legible surroundings.program)
    (lowered : Lowered rebuilt.image.pool surroundings instruction other) :
    List.Forall₂ (context.Redispatched rebuilt enclosing) unit.calls other.calls := by
  have proper := means.proper
  have proper' := lowered.proper
  cases means with
  | allocation kind target =>
    obtain ⟨owner, descriptor, name, signature, key, owned, read, -⟩ := target
    obtain ⟨name', signature', key', constructs, -⟩ := admitted
    cases key.symm.trans key'
    cases lowered with
    | call other => exact absurd kind other
    | construct _ _ _ _ _ named =>
      have read' := readsMethod_of_names legible named key owned
      have own : context.Befits enclosing descriptor name .direct := .inl (constructs kind).1
      refine .cons ⟨descriptor, name, signature, read, read', fun _ => rfl, ?_⟩ .nil
      exact fun odd => absurd own odd
  | @call dispatch index arguments result call name signature kind key target =>
    obtain ⟨_, descriptor, _, _, key', owned, read, marked⟩ := target
    cases key.symm.trans key'
    cases lowered with
    | construct construct =>
      rw [construct] at kind
      split at kind <;> cases kind
    | call _ _ _ named =>
      have read' := readsMethod_of_names legible named key owned
      rw [CodeUnit.calls_call, CodeUnit.calls_call]
      refine .cons ⟨descriptor, name, signature, read, read', ?_⟩ .nil
      exact dispatch_eq enclosed sound taken kind key owned marked
  | _ =>
    -- Nothing but a call is lowered to a call.
    cases lowered
    all_goals simp [CodeUnit.calls_single proper, CodeUnit.calls_single proper']

end Calls

section Bodies

variable {context rebuilt : Context} {program : Program} {limits : Limits}

/-- A body comes from a code that was listed, unless it was there before. -/
theorem Bodies.of_body {coded : List (MethodId × CodeItem)} {before after : Program}
    (bodies : context.Bodies coded before after) {method : MethodId} {body : Body}
    (here : after.body? method = some body) :
    before.body? method = some body ∨ ∃ code, (method, code) ∈ coded := by
  induction bodies with
  | nil => exact .inl here
  | @cons other code rest first second third fills moved others ih =>
    rcases ih here with here | ⟨code, listed⟩
    · obtain ⟨held, frame, parameters, -, -, fresh, filled⟩ := fills
      by_cases same : method = other
      · exact .inr ⟨code, same ▸ List.mem_cons_self⟩
      · exact .inl ((filled.others method same).symm.trans here)
    · exact .inr ⟨code, List.mem_cons_of_mem _ listed⟩

/-- A method that has a body has code in the image. -/
theorem Loaded.codes_of_body (loaded : context.Loaded {} program) {method : MethodId} {body : Body}
    (here : program.body? method = some body) {type : TypeId} {owner : Descriptor} {name : String}
    {signature : Signature} (key : program.methodKey? method = some (type, name, signature))
    (owned : program.descriptor? type = some owner) :
    ∃ code, context.Codes owner name signature code := by
  obtain ⟨coded, middle, declared, -, sourced, -, bodies⟩ := loaded
  rcases bodies.of_body here with here | ⟨code, listed⟩
  · rw [(Declares.all_kept declared).2.2] at here
    cases here
  · obtain ⟨definition, inside, written, member, found, named⟩ := sourced _ listed
    obtain ⟨_, _, _, _, key', owned', read⟩ := named.kept (Loads.steps bodies.moved)
    cases key.symm.trans key'
    cases owned.symm.trans owned'
    exact ⟨code, definition, inside, written, member, found, read⟩

section Rebuilt

variable (bodies : program.BodiesSound) (legible : rebuilt.Legible program)
  (lowered : List.Forall₂ (program.LoweredClass rebuilt.image.pool limits) program.defined.toList
    rebuilt.image.classes)

include bodies legible lowered

/-- A method of the rebuilt image that has code is one that has a body. -/
theorem lowered_of_method (sound : program.KeysSound) {written : ClassDef}
    (inside : written ∈ rebuilt.image.classes) {coded : MethodDef} (member : coded ∈ written.methods)
    {code : CodeItem} (found : coded.code = some code) :
    ∃ method type owner name signature body, program.methodKey? method = some (type, name, signature) ∧
      program.descriptor? type = some owner ∧ rebuilt.ReadsMethod coded.method owner name signature ∧
      program.body? method = some body ∧ program.LoweredBody rebuilt.image.pool limits method body code := by
  obtain ⟨method, lowered⟩ := loweredMethod_of_mem lowered inside member
  obtain ⟨body, here, becomes⟩ := lowered.of_code found
  obtain ⟨type, name, signature, _, key, -⟩ := bodies.declared here
  obtain ⟨owner, owned⟩ := Option.isSome_iff_exists.mp (sound.methodOwners key)
  have read := readsMethod_of_names legible lowered.named key owned
  exact ⟨method, type, owner, name, signature, body, key, owned, read, here, becomes⟩

/-- A method that has a body has code in the rebuilt image. -/
theorem codes_of_lowered (defined : program.DefinitionsSound) {method : MethodId} {body : Body}
    (here : program.body? method = some body) {type : TypeId} {owner : Descriptor} {name : String}
    {signature : Signature} (key : program.methodKey? method = some (type, name, signature))
    (owned : program.descriptor? type = some owner) :
    ∃ code, rebuilt.Codes owner name signature code := by
  obtain ⟨written, inside, coded, member, lowered⟩ := loweredMethod_of_body lowered defined bodies here
  obtain ⟨code, found, -⟩ := lowered.of_body here
  exact ⟨code, written, inside, coded, member, found, readsMethod_of_names legible lowered.named key owned⟩

end Rebuilt

/-- The calls of a code and of the code that its body is lowered to correspond, one for one. -/
theorem Decodes.redispatched {method : MethodId} {code again : CodeItem} {body : Body} {frame : Frame}
    (decodes : context.Decodes method code body frame program) (steps : Steps {} program)
    (legible : rebuilt.Legible program)
    (lowered : program.LoweredBody rebuilt.image.pool limits method body again)
    (taken : ∀ {type descriptor}, program.descriptor? type = some descriptor →
      ((program.typeAt type).isInterface ↔ context.TakesForInterface descriptor))
    {enclosing : Descriptor}
    (enclosed : program.descriptor? (program.methodAt method).owner = some enclosing) :
    List.Forall₂ (context.Redispatched rebuilt enclosing) code.calls again.calls := by
  obtain ⟨listed, lists, lowered⟩ := lowered
  obtain ⟨units, same, each⟩ := lowered.units
  have calls : code.calls = (frame.units.map Prod.snd).flatMap CodeUnit.calls :=
    ((decodes.groups _).mpr rfl).calls
  rw [calls, List.flatMap_map, CodeItem.calls, same, CodeUnit.filterMap_call?]
  apply List.rel_flatMap (forall₂_comp decodes.made (forall₂_comp lists each))
  rintro unit other ⟨handle, ⟨instruction, slot, means⟩, entry, ⟨-, attached⟩, lowered⟩
  have found : program.instruction? handle = some instruction := instruction?_of_slot? slot
  cases attached.symm.trans found
  have admitted : program.Admits entry.2 := steps.codeAdmitted _ _ slot
  exact means.redispatched enclosed steps.keysSound taken admitted legible lowered

end Bodies

end Loading.Context

open Loading

/-- When an image is loaded and written again, every method with code in one of the images has code in the
other one, too, and the calls of the two codes correspond, one for one and in order: they are of the same
methods, and those whose dispatch befits their target have the same dispatch again. -/
theorem Edit.calls_rebuilt {image rebuilt : Image} {program : Program} {limits : Limits}
    (added : addImage image {} = (.ok (), program)) (built : program.toImage limits = .ok rebuilt) :
    (∀ definition ∈ image.classes, ∀ method ∈ definition.methods, method.code.isSome →
      ∃ owner name signature again, (Context.mk image {}).ReadsMethod method.method owner name signature ∧
        (Context.mk rebuilt {}).Codes owner name signature again) ∧
    (∀ definition ∈ rebuilt.classes, ∀ method ∈ definition.methods, method.code.isSome →
      ∃ owner name signature code, (Context.mk rebuilt {}).ReadsMethod method.method owner name signature ∧
        (Context.mk image {}).Codes owner name signature code) ∧
    ∀ owner name signature code again, (Context.mk image {}).Codes owner name signature code →
      (Context.mk rebuilt {}).Codes owner name signature again →
      List.Forall₂ ((Context.mk image {}).Redispatched (Context.mk rebuilt {}) owner) code.calls
        again.calls := by
  obtain ⟨verified, loaded⟩ := loaded_of_addImage added
  have steps := loaded.steps
  have sound := steps.keysSound
  have bodies := steps.bodiesSound
  obtain ⟨-, lowered, -⟩ := toImage_lowered steps.codeAdmitted built
  have legible : (Context.mk rebuilt {}).Legible program :=
    Context.legible_of_readable _ (loaded.grounded.readable sound)
  refine ⟨?_, ?_, ?_⟩
  · intro definition inside written member coded
    obtain ⟨code, found⟩ := Option.isSome_iff_exists.mp coded
    obtain ⟨method, body, frame, ⟨type, owner, name, signature, key, owned, read⟩, here, -⟩ :=
      loaded.decodes verified inside member found
    obtain ⟨again, codes⟩ :=
      Context.codes_of_lowered bodies legible lowered steps.definitionsSound here key owned
    exact ⟨owner, name, signature, again, read, codes⟩
  · intro definition inside written member coded
    obtain ⟨again, found⟩ := Option.isSome_iff_exists.mp coded
    obtain ⟨method, type, owner, name, signature, body, key, owned, read, here, -⟩ :=
      Context.lowered_of_method bodies legible lowered sound inside member found
    obtain ⟨code, codes⟩ := loaded.codes_of_body here key owned
    exact ⟨owner, name, signature, code, read, codes⟩
  · rintro owner name signature code again ⟨definition, inside, written, member, found, read⟩
      ⟨definition', inside', written', member', found', read'⟩
    obtain ⟨method, body, frame, ⟨type, _, _, _, key, owned, named⟩, here, decodes⟩ :=
      loaded.decodes verified inside member found
    obtain ⟨_, _, _, _, _, _, key', owned', named', here', becomes⟩ :=
      Context.lowered_of_method bodies legible lowered sound inside' member' found'
    obtain ⟨rfl, rfl, rfl⟩ := read.unique named
    obtain ⟨rfl, rfl, rfl⟩ := read'.unique named'
    cases sound.types owned owned'
    cases sound.methods key key'
    cases here.symm.trans here'
    refine decodes.redispatched steps legible becomes (isInterface_iff added) ?_
    rw [(methodKey?_methodAt key).1, owned]

/-- Calls a method of the receiver twice. -/
def CodeItem.callingTwice (dispatch : Dispatch) : CodeItem :=
  ⟨1, 1, [0], #[.invoke dispatch 0 [0], .invoke .virtual 0 [0], .returnVoid]⟩

/-- A class with one method, which calls itself twice. -/
def Image.callingTwice (dispatch : Dispatch) : Image where
  flags := 0
  pool := ⟨#["LA;", "V", "run"], #[0, 1], #[⟨1, []⟩], #[], #[⟨0, 0, 2⟩]⟩
  classes := [⟨0, 1, none, [], none, [], [⟨0, 1, some (.callingTwice dispatch)⟩]⟩]

namespace Edit

theorem callingTwice_rebuilt : ∃ program, addImage (.callingTwice .super) {} = (.ok (), program) ∧
    program.toImage {} = .ok (.callingTwice .direct) :=
  ⟨_, Prod.fst_eq_iff.mp (by decide +kernel), by decide +kernel⟩

theorem callingTwice_codes (dispatch : Dispatch) : (Context.mk (.callingTwice dispatch) {}).Codes
    (.object "A") "run" ⟨[], .void⟩ (.callingTwice dispatch) := by
  refine ⟨_, List.mem_cons_self, _, List.mem_cons_self, rfl, ⟨0, 0, 2⟩, ⟨1, []⟩, rfl, rfl, ?_, .nil, rfl, ?_⟩
  · exact ⟨"V", rfl, rfl⟩
  · exact ⟨"LA;", rfl, by decide +kernel⟩

/-- The second call stays as it is. -/
theorem calls_rebuilt_callingTwice :
    List.Forall₂ ((Context.mk (.callingTwice .super) {}).Redispatched
        (Context.mk (.callingTwice .direct) {}) (.object "A"))
      [(.super, 0), (.virtual, 0)] [(.direct, 0), (.virtual, 0)] := by
  obtain ⟨program, added, built⟩ := callingTwice_rebuilt
  obtain ⟨-, -, calls⟩ := calls_rebuilt added built
  exact calls (.object "A") "run" ⟨[], .void⟩ _ _ (callingTwice_codes .super) (callingTwice_codes .direct)

/-- A class that looks for a method of its own above itself looks for it in itself when it is written
again. -/
theorem super_becomes_direct : ¬∀ (image rebuilt : Image) (program : Program) (limits : Limits)
    (owner : Descriptor) (name : String) (signature : Signature) (code again : CodeItem),
    addImage image {} = (.ok (), program) → program.toImage limits = .ok rebuilt →
    (Context.mk image {}).Codes owner name signature code →
    (Context.mk rebuilt {}).Codes owner name signature again →
    again.calls.map Prod.fst = code.calls.map Prod.fst := by
  intro always
  obtain ⟨program, added, built⟩ := callingTwice_rebuilt
  have same := always _ _ _ _ _ _ _ _ _ added built (callingTwice_codes .super)
    (callingTwice_codes .direct)
  cases same

end Edit

end ClassImage
