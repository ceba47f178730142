import ClassImage.Proofs.Program.Targets

/-!
What a program has from an image. In a program that was empty before an image
was loaded, every type and every member is read from the pool, external types
are interfaces only because a class lists them or code calls them as such, and
texts of code and headers are texts of the pool. Different symbols are read at
different indices, so there are no more symbols than entries of the pool.
-/

namespace ClassImage

open Program

theorem Program.Flagged.known {program : Program} {type : TypeId} (flagged : program.Flagged type) :
    (program.descriptor? type).isSome := by
  apply descriptor?_isSome.mpr
  by_contra outside
  rw [Flagged, typeAt, Array.getD_eq_getD_getElem?, Array.getElem?_eq_none (by omega)] at flagged
  cases flagged

namespace Loading.Context

/-- All that the program has comes from the image. -/
structure Grounded (context : Context) (program : Program) : Prop where
  types : ∀ {id descriptor}, program.descriptor? id = some descriptor →
    ∃ index, context.Reads index descriptor
  methods : ∀ {id owner name signature descriptor},
    program.methodKey? id = some (owner, name, signature) →
    program.descriptor? owner = some descriptor →
    ∃ index, context.ReadsMethod index descriptor name signature
  fields : ∀ {id owner name type descriptor}, program.fieldKey? id = some (owner, name, type) →
    program.descriptor? owner = some descriptor →
    ∃ index, context.ReadsField index descriptor name type
  flags : ∀ {type descriptor}, program.Flagged type → program.descriptor? type = some descriptor →
    context.Lists descriptor ∨ context.CallsThrough descriptor
  headers : ∀ {type header}, program.header? type = some header →
    (∃ definition ∈ context.image.classes,
      header.interfaces.length = definition.interfaces.length) ∧
    (∀ text, header.source = some text → ∃ index, context.image.pool.text? index = some text) ∧
    ∀ interface ∈ header.interfaces, program.Noted interface
  constants : ∀ {id target text}, program.instruction? id = some (.const target (.text text)) →
    ∃ index, context.image.pool.text? index = some text
  marked : program.CodeMarked

variable {context : Context} {before after : Program}

theorem grounded_empty (context : Context) : context.Grounded {} := by
  have types : ({} : Program).descriptor? = fun _ => none := rfl
  have methods : ({} : Program).methodKey? = fun _ => none := rfl
  have fields : ({} : Program).fieldKey? = fun _ => none := rfl
  have headers : ({} : Program).header? = fun _ => none := rfl
  have code : ({} : Program).instruction? = fun _ => none := rfl
  constructor <;> simp [types, methods, fields, headers, code, CodeMarked]

section Cases

variable (loads : context.Loads before after)

include loads

theorem Loads.descriptor?_cases {id : TypeId} {descriptor : Descriptor}
    (found : after.descriptor? id = some descriptor) :
    before.descriptor? id = some descriptor ∨ ∃ index, context.Reads index descriptor := by
  cases loads with
  | plain _ keys => exact .inl (keys.types ▸ found)
  | type _ read =>
    rw [descriptor?_addType] at found
    split at found
    · cases found
      exact .inr ⟨_, read⟩
    · exact .inl found
  | interface => exact .inl ((sameKeys_setExternal _ _ _).types ▸ found)
  | define => exact .inl ((sameKeys_addDefinition _ _ _).types ▸ found)
  | method | field | attach => exact .inl found

theorem Loads.methodKey?_cases {id : MethodId} {owner : TypeId} {name : String} {signature : Signature}
    (found : after.methodKey? id = some (owner, name, signature)) :
    before.methodKey? id = some (owner, name, signature) ∨
      ∃ descriptor, before.descriptor? owner = some descriptor ∧
        ∃ index, context.ReadsMethod index descriptor name signature := by
  cases loads with
  | plain _ keys => exact .inl (keys.methods ▸ found)
  | method _ known read =>
    rw [methodKey?_addMethod] at found
    split at found
    · cases found
      exact .inr ⟨_, known, _, read⟩
    · exact .inl found
  | attach =>
    left
    rw [← methodKey?_modifyBody before]
    exact found
  | type | field | interface | define => exact .inl found

theorem Loads.fieldKey?_cases {id : FieldId} {owner : TypeId} {name : String} {type : Descriptor}
    (found : after.fieldKey? id = some (owner, name, type)) :
    before.fieldKey? id = some (owner, name, type) ∨
      ∃ descriptor, before.descriptor? owner = some descriptor ∧
        ∃ index, context.ReadsField index descriptor name type := by
  cases loads with
  | plain _ keys => exact .inl (keys.fields ▸ found)
  | field _ known read =>
    rw [fieldKey?_addField] at found
    split at found
    · cases found
      exact .inr ⟨_, known, _, read⟩
    · exact .inl found
  | attach => exact .inl found
  | type | method | interface | define => exact .inl found

theorem Loads.flagged_cases {type : TypeId} {descriptor : Descriptor} (flagged : after.Flagged type)
    (known : after.descriptor? type = some descriptor) :
    before.Flagged type ∨ context.Lists descriptor ∨ context.CallsThrough descriptor := by
  cases loads with
  | plain _ _ statuses => exact .inl (statuses.flags ▸ flagged)
  | type => exact .inl ((sameStatuses_addType _ _).flags ▸ flagged)
  | interface _ named claimed =>
    rcases (flagged_setExternal (by rw [named]; rfl) type).mp flagged with rfl | flagged
    · rw [(sameKeys_setExternal _ _ _).types, named] at known
      cases known
      exact .inr claimed
    · exact .inl flagged
  | define _ there => exact .inl ((flagged_addDefinition there type).mp flagged).2
  | method | field | attach => exact .inl flagged

theorem Loads.header?_cases {type : TypeId} {header : Header} (defined : after.header? type = some header) :
    before.header? type = some header ∨
      (∃ definition ∈ context.image.classes,
        header.interfaces.length = definition.interfaces.length) ∧
      (∀ text, header.source = some text → ∃ index, context.image.pool.text? index = some text) ∧
      ∀ interface ∈ header.interfaces, before.Noted interface := by
  cases loads with
  | plain _ _ statuses => exact .inl (statuses.headers ▸ defined)
  | type => exact .inl ((sameStatuses_addType _ _).headers ▸ defined)
  | interface growth =>
    left
    rw [header?, Program.definition?, growth.definition?] at defined
    exact defined
  | define _ known _ member length noted source =>
    rw [header?_addDefinition _ known] at defined
    split at defined
    · cases defined
      exact .inr ⟨⟨_, member, length⟩, source, noted⟩
    · exact .inl defined
  | method | field | attach => exact .inl defined

theorem Loads.instruction?_cases {id : InstructionId} {instruction : Instruction}
    (attached : after.instruction? id = some instruction) :
    before.instruction? id = some instruction ∨ before.Admits instruction ∧ before.Marked instruction ∧
      ∀ target text, instruction = .const target (.text text) →
        ∃ index, context.image.pool.text? index = some text := by
  cases loads with
  | plain _ _ _ slots =>
    rw [instruction?, slots] at attached
    exact .inl attached
  | attach _ issued _ admitted marked constant =>
    rw [instruction?, slot?_attach before issued] at attached
    split at attached
    · cases attached
      exact .inr ⟨admitted, marked, constant⟩
    · exact .inl attached
  | type | method | field | interface | define => exact .inl attached

/-- A step of loading takes what it adds from the image. -/
theorem Loads.grounded (sound : before.KeysSound) (admitted : before.CodeAdmitted)
    (grounded : context.Grounded before) : context.Grounded after := by
  have more := loads.step.extends
  have owner : ∀ {id descriptor}, (before.descriptor? id).isSome →
      after.descriptor? id = some descriptor → before.descriptor? id = some descriptor := by
    intro id descriptor known found
    obtain ⟨earlier, named⟩ := Option.isSome_iff_exists.mp known
    cases (more.types named).symm.trans found
    exact named
  constructor
  · intro id descriptor found
    exact (loads.descriptor?_cases found).elim grounded.types fun read => read
  · intro id holder name signature descriptor found held
    rcases loads.methodKey?_cases found with found | ⟨_, known, read⟩
    · exact grounded.methods found (owner (sound.methodOwners found) held)
    · cases (more.types known).symm.trans held
      exact read
  · intro id holder name type descriptor found held
    rcases loads.fieldKey?_cases found with found | ⟨_, known, read⟩
    · exact grounded.fields found (owner (sound.fieldOwners found) held)
    · cases (more.types known).symm.trans held
      exact read
  · intro type descriptor flagged found
    rcases loads.flagged_cases flagged found with flagged | claimed
    · exact grounded.flags flagged (owner flagged.known found)
    · exact claimed
  · intro type header defined
    rcases loads.header?_cases defined with defined | ⟨length, source, noted⟩
    · obtain ⟨length, source, noted⟩ := grounded.headers defined
      exact ⟨length, source, fun interface listed => loads.noted (noted interface listed)⟩
    · exact ⟨length, source, fun interface listed => loads.noted (noted interface listed)⟩
  · intro id target text attached
    rcases loads.instruction?_cases attached with attached | ⟨-, -, constant⟩
    · exact grounded.constants attached
    · exact constant target text rfl
  · intro id instruction attached symbol used shape
    have known : before.Admits instruction ∧ before.Marked instruction := by
      rcases loads.instruction?_cases attached with attached | ⟨admits, marked, -⟩
      · obtain ⟨slot, here, rfl⟩ := Option.map_eq_some_iff.mp attached
        exact ⟨admitted _ _ here, grounded.marked _ _ attached⟩
      · exact ⟨admits, marked⟩
    rw [more.memberShape?_eq known.1] at shape
    obtain ⟨static, marked⟩ := Option.isSome_iff_exists.mp (known.2 symbol used shape)
    rw [Steps.marker_kept (.single loads.step) marked]
    rfl

end Cases

/-- A program that was empty before an image has everything from the image. -/
theorem Loads.all_grounded (moved : Relation.ReflTransGen context.Loads {} after) :
    context.Grounded after := by
  induction moved with
  | refl => exact grounded_empty context
  | tail earlier loads ih =>
    have steps : Steps {} _ := Loads.steps earlier
    exact loads.grounded steps.keysSound steps.codeAdmitted ih

section Indices

variable {index : UInt32}

theorem Reads.lt {descriptor : Descriptor} (read : context.Reads index descriptor) :
    index.toNat < context.image.pool.types.size := by
  obtain ⟨text, found, -⟩ := read
  obtain ⟨_, there, -⟩ := Option.bind_eq_some_iff.mp found
  exact (Array.getElem?_eq_some_iff.mp there).1

theorem Reads.unique {first second : Descriptor} (one : context.Reads index first)
    (other : context.Reads index second) : first = second := by
  obtain ⟨text, found, read⟩ := one
  obtain ⟨_, found', read'⟩ := other
  cases found.symm.trans found'
  exact Except.ok.inj (read.symm.trans read')

theorem reads_unique {indices : List UInt32} {first second : List Descriptor}
    (one : List.Forall₂ context.Reads indices first) (other : List.Forall₂ context.Reads indices second) :
    first = second := by
  have unique : Relator.RightUnique context.Reads := fun _ _ _ here there => here.unique there
  exact List.right_unique_forall₂' unique one other

theorem ReadsMethod.lt {owner : Descriptor} {name : String} {signature : Signature}
    (read : context.ReadsMethod index owner name signature) :
    index.toNat < context.image.pool.methods.size := by
  obtain ⟨method, _, found, -⟩ := read
  exact (Array.getElem?_eq_some_iff.mp found).1

theorem ReadsMethod.unique {owner owner' : Descriptor} {name name' : String}
    {signature signature' : Signature} (one : context.ReadsMethod index owner name signature)
    (other : context.ReadsMethod index owner' name' signature') :
    owner = owner' ∧ name = name' ∧ signature = signature' := by
  obtain ⟨method, proto, found, listed, result, parameters, named, owned⟩ := one
  obtain ⟨_, _, found', listed', result', parameters', named', owned'⟩ := other
  cases found.symm.trans found'
  cases listed.symm.trans listed'
  refine ⟨owned.unique owned', Option.some.inj (named.symm.trans named'), ?_⟩
  cases signature
  cases signature'
  rw [Signature.mk.injEq]
  exact ⟨reads_unique parameters parameters', result.unique result'⟩

theorem ReadsField.lt {owner : Descriptor} {name : String} {type : Descriptor}
    (read : context.ReadsField index owner name type) :
    index.toNat < context.image.pool.fields.size := by
  obtain ⟨field, found, -⟩ := read
  exact (Array.getElem?_eq_some_iff.mp found).1

theorem ReadsField.unique {owner owner' : Descriptor} {name name' : String} {type type' : Descriptor}
    (one : context.ReadsField index owner name type)
    (other : context.ReadsField index owner' name' type') :
    owner = owner' ∧ name = name' ∧ type = type' := by
  obtain ⟨field, found, held, named, owned⟩ := one
  obtain ⟨_, found', held', named', owned'⟩ := other
  cases found.symm.trans found'
  exact ⟨owned.unique owned', Option.some.inj (named.symm.trans named'), held.unique held'⟩

end Indices

namespace Grounded

variable {program : Program} (grounded : context.Grounded program) (sound : program.KeysSound)

include grounded sound

theorem size_types : program.types.size ≤ context.image.pool.types.size := by
  refine @count_le_of_indices _ _ (fun place index => ∃ descriptor,
    program.descriptor? ⟨place⟩ = some descriptor ∧ context.Reads index descriptor) ?_ ?_
  · intro place inside
    obtain ⟨descriptor, found⟩ := Option.isSome_iff_exists.mp
      ((@descriptor?_isSome program ⟨place⟩).mpr inside)
    obtain ⟨index, read⟩ := grounded.types found
    exact ⟨index, read.lt, descriptor, found, read⟩
  · rintro one other index ⟨_, found, read⟩ ⟨_, found', read'⟩
    cases read.unique read'
    exact congrArg TypeId.index (sound.types found found')

theorem size_methods : program.methods.size ≤ context.image.pool.methods.size := by
  refine @count_le_of_indices _ _ (fun place index => ∃ owner name signature descriptor,
    program.methodKey? ⟨place⟩ = some (owner, name, signature) ∧
      program.descriptor? owner = some descriptor ∧
      context.ReadsMethod index descriptor name signature) ?_ ?_
  · intro place inside
    obtain ⟨⟨owner, name, signature⟩, key⟩ := Option.isSome_iff_exists.mp
      ((@methodKey?_isSome program ⟨place⟩).mpr inside)
    obtain ⟨descriptor, owned⟩ := Option.isSome_iff_exists.mp (sound.methodOwners key)
    obtain ⟨index, read⟩ := grounded.methods key owned
    exact ⟨index, read.lt, owner, name, signature, descriptor, key, owned, read⟩
  · rintro one other index ⟨_, _, _, _, key, owned, read⟩ ⟨_, _, _, _, key', owned', read'⟩
    obtain ⟨rfl, rfl, rfl⟩ := read.unique read'
    cases sound.types owned owned'
    exact congrArg MethodId.index (sound.methods key key')

theorem size_fields : program.fields.size ≤ context.image.pool.fields.size := by
  refine @count_le_of_indices _ _ (fun place index => ∃ owner name type descriptor,
    program.fieldKey? ⟨place⟩ = some (owner, name, type) ∧
      program.descriptor? owner = some descriptor ∧
      context.ReadsField index descriptor name type) ?_ ?_
  · intro place inside
    obtain ⟨⟨owner, name, type⟩, key⟩ := Option.isSome_iff_exists.mp
      ((@fieldKey?_isSome program ⟨place⟩).mpr inside)
    obtain ⟨descriptor, owned⟩ := Option.isSome_iff_exists.mp (sound.fieldOwners key)
    obtain ⟨index, read⟩ := grounded.fields key owned
    exact ⟨index, read.lt, owner, name, type, descriptor, key, owned, read⟩
  · rintro one other index ⟨_, _, _, _, key, owned, read⟩ ⟨_, _, _, _, key', owned', read'⟩
    obtain ⟨rfl, rfl, rfl⟩ := read.unique read'
    cases sound.types owned owned'
    exact congrArg FieldId.index (sound.fields key key')

end Grounded

theorem Bodies.moved {coded : List (MethodId × CodeItem)} (bodies : context.Bodies coded before after) :
    Relation.ReflTransGen context.Loads before after := by
  induction bodies with
  | nil => exact .refl
  | cons _ moved _ ih => exact moved.trans ih

theorem Loaded.moved (loaded : context.Loaded before after) :
    Relation.ReflTransGen context.Loads before after := by
  obtain ⟨coded, middle, declared, -, -, -, bodies⟩ := loaded
  exact (Declares.all_loads declared).trans bodies.moved

theorem Loads.all_slot_kept (moved : Relation.ReflTransGen context.Loads before after)
    {id : InstructionId} {slot : Slot} (attached : before.slot? id = some slot) :
    after.slot? id = some slot := by
  induction moved with
  | refl => exact attached
  | tail _ loads ih => exact loads.slot_kept ih

/-- Every unit of the code was made into an attached instruction. -/
theorem Bodies.made {coded : List (MethodId × CodeItem)} (bodies : context.Bodies coded before after)
    {entry : MethodId × CodeItem} (member : entry ∈ coded) {unit : Nat × CodeUnit}
    (listed : unit ∈ CodeUnit.split 0 entry.2.instructions.toList) :
    ∃ frame id instruction, after.instruction? id = some instruction ∧
      context.Makes frame unit.2 instruction after := by
  induction bodies with
  | nil => cases member
  | @cons method code rest first second third fills moved others ih =>
    rcases List.mem_cons.mp member with rfl | member
    · obtain ⟨held, frame, parameters, units, -, -, filled⟩ := fills
      rw [← units] at listed
      obtain ⟨place, there⟩ := List.mem_iff_getElem?.mp listed
      have inside := (List.getElem?_eq_some_iff.mp there).1
      obtain ⟨instruction, attached, makes⟩ := filled.made place inside unit there
      refine ⟨frame, ⟨first.code.size + place⟩, instruction, ?_, makes.kept others.moved⟩
      rw [instruction?, Loads.all_slot_kept others.moved attached, Option.map_some]
    · exact ih member

theorem Loaded.made (loaded : context.Loaded before after) {code : CodeItem}
    (member : code ∈ context.image.codes) {unit : Nat × CodeUnit}
    (listed : unit ∈ CodeUnit.split 0 code.instructions.toList) :
    ∃ frame id instruction, after.instruction? id = some instruction ∧
      context.Makes frame unit.2 instruction after := by
  obtain ⟨coded, middle, -, -, -, codes, bodies⟩ := loaded
  rw [← codes] at member
  obtain ⟨entry, inside, rfl⟩ := List.mem_map.mp member
  exact bodies.made inside listed

theorem Loaded.defines (loaded : context.Loaded before after) {definition : ClassDef}
    (member : definition ∈ context.image.classes) : context.Defines definition after := by
  obtain ⟨coded, middle, -, defines, -, -, bodies⟩ := loaded
  exact (defines definition member).1.kept bodies.moved

end Loading.Context

namespace Program

/-- A defined type lists the type among its interfaces. -/
def ListsInterface (program : Program) (type : TypeId) : Prop :=
  ∃ other header, program.header? other = some header ∧ type ∈ header.interfaces

/-- An attached call names a method of the type that is not static, and nothing else. -/
def CallsInstance (program : Program) (type : TypeId) : Prop :=
  ∃ id call, program.instruction? id = some (.invoke call) ∧ call.kind = .normal ∧
    call.owner = type ∧ program.marker (.method call.method) = some false

end Program

namespace Loading.Context

variable {context : Context} {program : Program}

/-- What the image lists as an interface is listed as one. -/
theorem Loaded.lists (loaded : context.Loaded {} program) {descriptor : Descriptor}
    (listed : context.Lists descriptor) :
    ∃ type, program.descriptor? type = some descriptor ∧ program.ListsInterface type := by
  obtain ⟨definition, member, index, inside, read⟩ := listed
  obtain ⟨other, header, defined, -, -, interfaces⟩ := loaded.defines member
  obtain ⟨type, here, _, read', known⟩ := forall₂_exists_right interfaces inside
  cases read.unique read'
  exact ⟨type, known, other, header, defined, here⟩

/-- What the image calls through an interface is called, and known as an interface. -/
theorem Loaded.calls (loaded : context.Loaded {} program) {descriptor : Descriptor}
    (called : context.CallsThrough descriptor) :
    ∃ type, program.descriptor? type = some descriptor ∧ program.CallsInstance type ∧
      program.Noted type := by
  obtain ⟨code, member, start, index, arguments, result, listed, name, signature, read⟩ := called
  obtain ⟨frame, id, instruction, attached, makes⟩ := loaded.made member listed
  obtain ⟨call, rfl, normal, ⟨owner, found, _, _, key, owned, read', marked⟩, noted⟩ :=
    makes.means.called
  obtain ⟨name', signature', key', -⟩ := makes.admitted
  cases key.symm.trans key'
  obtain ⟨rfl, -, -⟩ := read.unique read'
  exact ⟨call.owner, owned, ⟨id, call, attached, normal, rfl, marked⟩, noted⟩

theorem Loaded.grounded (loaded : context.Loaded {} program) : context.Grounded program :=
  Loads.all_grounded loaded.moved

theorem Loaded.noted_of_lists (loaded : context.Loaded {} program) {type : TypeId}
    (listed : program.ListsInterface type) : program.Noted type := by
  obtain ⟨other, header, defined, here⟩ := listed
  exact (loaded.grounded.headers defined).2.2 type here

/-- An external type is an interface exactly if the image lists it as one or calls it as one. -/
theorem Loaded.flagged_iff (loaded : context.Loaded {} program) (sound : program.KeysSound)
    {type : TypeId} {descriptor : Descriptor} (known : program.descriptor? type = some descriptor)
    (external : ¬(program.typeAt type).isDefined) :
    program.Flagged type ↔ context.Lists descriptor ∨ context.CallsThrough descriptor := by
  refine ⟨fun flagged => loaded.grounded.flags flagged known, ?_⟩
  have noted : ∀ {other}, program.descriptor? other = some descriptor → program.Noted other →
      program.Flagged type := by
    intro other there noted
    cases sound.types there known
    exact noted.resolve_left external
  rintro (listed | called)
  · obtain ⟨other, there, listed⟩ := loaded.lists listed
    exact noted there (loaded.noted_of_lists listed)
  · obtain ⟨other, there, -, flagged⟩ := loaded.calls called
    exact noted there flagged

end Loading.Context

end ClassImage
