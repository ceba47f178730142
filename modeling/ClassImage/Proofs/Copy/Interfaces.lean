import ClassImage.Proofs.Copy.Decoded
import ClassImage.Proofs.Copy.Image

/-!
Interfaces of a copy. That a type is an interface is written nowhere if the type
is external: it is told from the classes that list it and from the calls that
are dispatched through it. An image has the same classes list a type as the
program has, and dispatches a call through a type if the type is known to be an
interface, so the types of a copy are the interfaces that the original has.
-/

namespace ClassImage

open Program

theorem CodeContext.dispatch_eq_interface {context : CodeContext} {call : Call} :
    context.dispatch call = .interface ↔
      call.kind = .normal ∧ context.program.marker (.method call.method) ≠ some true ∧
        (context.program.typeAt (context.program.methodAt call.method).owner).isInterface := by
  unfold dispatch
  cases call.kind with
  | construct => simp
  | special =>
    simp only
    split <;> simp
  | normal =>
    simp only [marker]
    split_ifs with static through
    · simp [static]
    · simp [static, through]
    · simp [through]

theorem Lowered.of_call {final : Pool} {context : CodeContext} {instruction : Instruction}
    {dispatch : Dispatch} {method : UInt32} {arguments : List UInt16} {result : Option UInt16}
    (lowered : Lowered final context instruction (.call dispatch method arguments result)) :
    ∃ call, instruction = .invoke call ∧ dispatch = context.dispatch call ∧
      (context.program.marker (.method call.method)).isSome ∧
      final.NamesMethod context.program method call.method := by
  cases lowered with
  | @call call _ _ _ _ marked _ target _ => exact ⟨call, rfl, rfl, marked, target⟩

namespace Program

variable {final : Pool} {program : Program} {limits : Limits}

theorem length_startsFrom (start : Nat) (listed : List (InstructionId × Instruction)) :
    (startsFrom start listed).length = listed.length := by
  induction listed generalizing start with
  | nil => rfl
  | cons entry listed ih => exact congrArg Nat.succ (ih _)

section Body

variable {method : MethodId} {body : Body} {code : CodeItem}
  (lowered : program.LoweredBody final limits method body code)

include lowered

/-- A unit of the code was an instruction of the body. -/
theorem LoweredBody.of_mem_split {entry : Nat × CodeUnit}
    (member : entry ∈ CodeUnit.split 0 code.instructions.toList) :
    ∃ context id instruction, context.program = program ∧
      program.instruction? id = some instruction ∧ Lowered final context instruction entry.2 := by
  obtain ⟨listed, lists, lowered⟩ := lowered
  obtain ⟨units, same, each⟩ := lowered.units
  rw [same, split_flatMap each] at member
  obtain ⟨⟨id, instruction⟩, inside, becomes⟩ := forall₂_exists_left each (List.of_mem_zip member).2
  obtain ⟨_, -, rfl, attached⟩ := forall₂_exists_left lists inside
  exact ⟨_, id, instruction, rfl, attached, becomes⟩

/-- An instruction of the body is a unit of the code. -/
theorem LoweredBody.mem_split {id : InstructionId} {instruction : Instruction}
    (member : id ∈ body.instructions) (attached : program.instruction? id = some instruction) :
    ∃ context entry, context.program = program ∧
      entry ∈ CodeUnit.split 0 code.instructions.toList ∧ Lowered final context instruction entry.2 := by
  obtain ⟨listed, lists, lowered⟩ := lowered
  obtain ⟨units, same, each⟩ := lowered.units
  obtain ⟨⟨_, found⟩, inside, rfl, here⟩ :=
    forall₂_exists_right lists (Array.mem_toList_iff.mpr member)
  cases attached.symm.trans here
  obtain ⟨unit, placed, becomes⟩ := forall₂_exists_right each inside
  have length : units.length ≤ (startsFrom 0 listed).length := by
    rw [length_startsFrom, each.length_eq]
  rw [← List.map_snd_zip length] at placed
  obtain ⟨entry, zipped, rfl⟩ := List.mem_map.mp placed
  rw [same, split_flatMap each]
  exact ⟨_, entry, rfl, zipped, becomes⟩

end Body

section Method

variable {method : MethodId} {coded : MethodDef} (lowered : program.LoweredMethod final limits method coded)

include lowered

theorem LoweredMethod.of_code {code : CodeItem} (found : coded.code = some code) :
    ∃ body, program.body? method = some body ∧ program.LoweredBody final limits method body code := by
  have related := lowered.code
  rw [found] at related
  generalize program.body? method = source at related
  cases related with
  | some becomes => exact ⟨_, rfl, becomes⟩

theorem LoweredMethod.of_body {body : Body} (here : program.body? method = some body) :
    ∃ code, coded.code = some code ∧ program.LoweredBody final limits method body code := by
  have related := lowered.code
  rw [here] at related
  generalize coded.code = target at related
  cases related with
  | some becomes => exact ⟨_, rfl, becomes⟩

end Method

section Image

variable {image : Image}
  (lowered : List.Forall₂ (program.LoweredClass image.pool limits) program.defined.toList image.classes)

include lowered

/-- A method of the image is a method of the program. -/
theorem loweredMethod_of_mem {written : ClassDef} (inside : written ∈ image.classes) {coded : MethodDef}
    (listed : coded ∈ written.methods) :
    ∃ method, program.LoweredMethod image.pool limits method coded := by
  obtain ⟨type, -, definition, -, lowered⟩ := forall₂_exists_left lowered inside
  obtain ⟨method, -, lowered⟩ := forall₂_exists_left lowered.methods listed
  exact ⟨method, lowered⟩

/-- A method with a body is a method of the image. -/
theorem loweredMethod_of_body (defined : program.DefinitionsSound) (bodies : program.BodiesSound)
    {method : MethodId} {body : Body} (here : program.body? method = some body) :
    ∃ written ∈ image.classes, ∃ coded ∈ written.methods,
      program.LoweredMethod image.pool limits method coded := by
  obtain ⟨owner, _, _, access, -, declared, -⟩ := bodies.declared here
  obtain ⟨definition, found⟩ := Option.isSome_iff_exists.mp (defined.methodOwners declared)
  have member : owner ∈ program.defined := (defined.defined owner).mpr (by rw [found]; rfl)
  have listed := ((defined.methods found).2 method).mpr ⟨access, declared⟩
  obtain ⟨written, inside, _, found', lowered⟩ :=
    forall₂_exists_right lowered (Array.mem_toList_iff.mpr member)
  cases found.symm.trans found'
  obtain ⟨coded, within, lowered⟩ :=
    forall₂_exists_right lowered.methods (Array.mem_toList_iff.mpr listed)
  exact ⟨written, inside, coded, within, lowered⟩

/-- Code of the image is the code of a body. -/
theorem loweredBody_of_code {code : CodeItem} (member : code ∈ image.codes) :
    ∃ method body, program.body? method = some body ∧
      program.LoweredBody image.pool limits method body code := by
  obtain ⟨written, inside, member⟩ := List.mem_flatMap.mp member
  obtain ⟨declared, listed, coded⟩ := List.mem_flatMap.mp member
  obtain ⟨method, lowered⟩ := loweredMethod_of_mem lowered inside listed
  obtain ⟨body, here, becomes⟩ := lowered.of_code (Option.mem_toList.mp coded)
  exact ⟨method, body, here, becomes⟩

/-- The code of a body is code of the image. -/
theorem code_of_body (defined : program.DefinitionsSound) (bodies : program.BodiesSound)
    {method : MethodId} {body : Body} (here : program.body? method = some body) :
    ∃ code ∈ image.codes, program.LoweredBody image.pool limits method body code := by
  obtain ⟨written, inside, coded, within, lowered⟩ := loweredMethod_of_body lowered defined bodies here
  obtain ⟨code, found, becomes⟩ := lowered.of_body here
  refine ⟨code, List.mem_flatMap.mpr ⟨written, inside, List.mem_flatMap.mpr ⟨coded, within, ?_⟩⟩, becomes⟩
  exact Option.mem_toList.mpr found

end Image

end Program

namespace Loading.Context

variable {context : Context} {program : Program} {limits : Limits}

section Image

variable (sound : program.KeysSound) (legible : context.Legible program) (defined : program.DefinitionsSound)
  (lowered : List.Forall₂ (program.LoweredClass context.image.pool limits) program.defined.toList
    context.image.classes)
  {type : TypeId} {descriptor : Descriptor} (known : program.descriptor? type = some descriptor)

include sound legible defined lowered known

/-- An image lists the interfaces that the program lists. -/
theorem lists_iff : context.Lists descriptor ↔ program.ListsInterface type := by
  constructor
  · rintro ⟨written, member, index, inside, read⟩
    obtain ⟨other, -, definition, found, lowered⟩ := forall₂_exists_left lowered member
    obtain ⟨interface, listed, named⟩ := forall₂_exists_left lowered.interfaces inside
    obtain ⟨_, known'⟩ := Option.isSome_iff_exists.mp ((defined.headers found).2 interface listed)
    cases read.unique (reads_of_names legible named known')
    cases sound.types known known'
    exact ⟨other, definition.toHeader, by rw [header?, found, Option.map_some], listed⟩
  · rintro ⟨other, header, outline, listed⟩
    obtain ⟨definition, found, rfl⟩ := Option.map_eq_some_iff.mp outline
    have member := (defined.defined other).mpr (by rw [found]; rfl)
    obtain ⟨written, inside, _, found', lowered⟩ :=
      forall₂_exists_right lowered (Array.mem_toList_iff.mpr member)
    cases found.symm.trans found'
    obtain ⟨index, there, named⟩ := forall₂_exists_right lowered.interfaces listed
    exact ⟨written, inside, index, there, reads_of_names legible named known⟩

/-- An image calls through a type exactly if the program knows that the type is an interface, and
calls one of its methods. -/
theorem callsThrough_iff (bodies : program.BodiesSound) (admitted : program.CodeAdmitted) :
    context.CallsThrough descriptor ↔
      program.CallsInstance type ∧ (program.typeAt type).isInterface := by
  have admits : ∀ {id call}, program.instruction? id = some (.invoke call) →
      program.Admits (.invoke call) := by
    intro id call attached
    obtain ⟨slot, there, same⟩ := slot_of_instruction? attached
    exact same ▸ admitted _ _ there
  constructor
  · rintro ⟨code, member, start, index, arguments, result, inside, name, signature, read⟩
    obtain ⟨method, body, here, lowered⟩ := loweredBody_of_code lowered member
    obtain ⟨_, id, _, rfl, attached, becomes⟩ := lowered.of_mem_split inside
    obtain ⟨call, rfl, through, marked, named⟩ := becomes.of_call
    obtain ⟨normal, instance', interface⟩ := CodeContext.dispatch_eq_interface.mp through.symm
    obtain ⟨_, _, key, -⟩ := admits attached
    obtain ⟨_, owned⟩ := Option.isSome_iff_exists.mp (sound.methodOwners key)
    obtain ⟨rfl, -⟩ := read.unique (readsMethod_of_names legible named key owned)
    cases sound.types known owned
    rw [(methodKey?_methodAt key).1] at interface
    refine ⟨⟨id, call, attached, normal, rfl, ?_⟩, interface⟩
    obtain ⟨static, here⟩ := Option.isSome_iff_exists.mp marked
    cases static with
    | false => exact here
    | true => exact absurd here instance'
  · rintro ⟨⟨id, call, attached, normal, rfl, marked⟩, interface⟩
    obtain ⟨slot, there, same⟩ := slot_of_instruction? attached
    have held : program.holder? id = some slot.method := holder?_of_slot? there
    obtain ⟨body, here⟩ := Option.isSome_iff_exists.mp (bodies.held held)
    obtain ⟨code, member, lowered⟩ := code_of_body lowered defined bodies here
    obtain ⟨surroundings, ⟨start, unit⟩, rfl, inside, becomes⟩ :=
      lowered.mem_split ((bodies.attached here id).mpr held) attached
    obtain ⟨name, signature, key, -⟩ := admits attached
    have through : surroundings.dispatch call = .interface := by
      rw [CodeContext.dispatch_eq_interface, (methodKey?_methodAt key).1, marked]
      exact ⟨normal, by simp, interface⟩
    cases becomes with
    | construct kind => cases normal.symm.trans kind
    | @call _ index arguments result _ _ _ target _ =>
      rw [through] at inside
      refine ⟨code, member, start, index, arguments, result, inside, name, signature, ?_⟩
      exact readsMethod_of_names legible target key known

end Image

end Loading.Context

namespace Program

theorem isInterface_iff_flagged {program : Program} {type : TypeId}
    (external : program.definition? type = none) :
    (program.typeAt type).isInterface ↔ program.Flagged type := by
  rw [definition?, TypeEntry.definition?] at external
  rw [Flagged, TypeEntry.isInterface]
  cases status : (program.typeAt type).status with
  | external interface => simp
  | defined definition =>
    rw [status] at external
    cases external

theorem isInterface_of_definition {program : Program} {type : TypeId} {definition : Definition}
    (found : program.definition? type = some definition) :
    (program.typeAt type).isInterface = definition.isInterface := by
  rw [definition?, TypeEntry.definition?] at found
  rw [TypeEntry.isInterface]
  cases status : (program.typeAt type).status with
  | external interface =>
    rw [status] at found
    cases found
  | defined _ =>
    rw [status] at found
    cases found
    rfl

section Copied

variable {program copy : Program} (steps : Steps {} program) (copied : program.Copied copy)
  {type other : TypeId} (same : program.Same copy (.type type) (.type other))

include steps copied same

/-- What is defined in one is defined in the other, and like it. -/
theorem Copied.classLike_of_same
    (defined : (program.definition? type).isSome ∨ (copy.definition? other).isSome) :
    program.ClassLike copy type other := by
  rcases defined with here | there
  · have member := (steps.definitionsSound.defined type).mpr here
    obtain ⟨holder, -, like⟩ := forall₂_exists_right copied.classes (Array.mem_toList_iff.mpr member)
    cases Same.copy_eq copied.follows.keysSound like.1 same
    exact like
  · have member := (copied.follows.orderly.definitions.defined other).mpr there
    obtain ⟨source, -, like⟩ := forall₂_exists_left copied.classes (Array.mem_toList_iff.mpr member)
    cases Same.source_eq steps.keysSound like.1 same
    exact like

end Copied

end Program

namespace Loading.Context

variable {first second : Context} {program copy : Program} {limits : Limits}
  (reloaded : second.Loaded {} copy) (readable : program.Readable)
  (lowered : List.Forall₂ (program.LoweredClass second.image.pool limits) program.defined.toList
    second.image.classes)
  (copied : program.Copied copy) {type other : TypeId}
  (same : program.Same copy (.type type) (.type other))

include reloaded readable lowered copied same

/-- An external type is an interface in a copy if some class lists it as one, or if it is an interface
and code calls one of its methods. -/
theorem Loaded.isInterface_external (steps : Steps {} program) (external : program.definition? type = none) :
    (copy.typeAt other).isInterface ↔
      program.ListsInterface type ∨ program.CallsInstance type ∧ (program.typeAt type).isInterface := by
  obtain ⟨descriptor, known, found⟩ := same_type.mp same
  have external' : copy.definition? other = none := by
    by_contra defined
    obtain ⟨-, definition, here, -⟩ :=
      copied.classLike_of_same steps same (.inr (Option.isSome_iff_ne_none.mpr defined))
    cases external.symm.trans here
  have apart : ¬(copy.typeAt other).isDefined := by
    rw [TypeEntry.isDefined, ← Program.definition?, external']
    exact Bool.false_ne_true
  have legible := legible_of_readable second readable
  rw [isInterface_iff_flagged external', reloaded.flagged_iff copied.follows.keysSound found apart,
    lists_iff steps.keysSound legible steps.definitionsSound lowered known,
    callsThrough_iff steps.keysSound legible steps.definitionsSound lowered known steps.bodiesSound
      steps.codeAdmitted]

end Loading.Context

end ClassImage
