import ClassImage.Program.Loading
import ClassImage.Proofs.Program.Locals

/-!
The steps that loading an image is made of, with what the image says for each of
them: a type or a member is added because the pool names it, an external type
becomes an interface because a class lists it as one or because code calls it as
one, and the instructions that are attached have members of known markers.
Looking up the pool is growth.
-/

namespace ClassImage

namespace Program

/-- The type is assumed to be an interface elsewhere. -/
def Flagged (program : Program) (type : TypeId) : Prop :=
  (program.typeAt type).status = .external true

/-- The type is defined here, or assumed to be an interface elsewhere. -/
def Noted (program : Program) (type : TypeId) : Prop :=
  (program.typeAt type).isDefined ∨ program.Flagged type

/-- The header of a defined type. -/
def header? (program : Program) (type : TypeId) : Option Header :=
  (program.definition? type).map Definition.toHeader

/-- The member that decides the operands of the instruction has a known marker. -/
def Marked (program : Program) (instruction : Instruction) : Prop :=
  ∀ symbol used, program.memberShape? instruction = some (symbol, used) →
    (program.marker symbol).isSome

/-- Members that attached instructions use have known markers. -/
def CodeMarked (program : Program) : Prop :=
  ∀ id instruction, program.instruction? id = some instruction → program.Marked instruction

structure SameStatuses (before after : Program) : Prop where
  flags : after.Flagged = before.Flagged
  headers : after.header? = before.header?

theorem isDefined_iff {program : Program} {type : TypeId} :
    (program.typeAt type).isDefined ↔ (program.header? type).isSome := by
  rw [header?, Option.isSome_map]
  rfl

theorem SameStatuses.noted {before after : Program} (same : before.SameStatuses after) {type : TypeId} :
    after.Noted type ↔ before.Noted type := by
  rw [Noted, Noted, isDefined_iff, isDefined_iff, same.flags, same.headers]

theorem flagged_modifyDefinition (program : Program) (owner : TypeId)
    (change : Definition → Definition) :
    (program.modifyDefinition owner change).Flagged = program.Flagged := by
  funext type
  simp only [Flagged, typeAt, modifyDefinition, Array.getD_modify]
  split
  · rcases program.types.getD type.index default with ⟨_, _ | _⟩ <;> simp
  · rfl

theorem header?_modifyDefinition (program : Program) (owner : TypeId)
    (change : Definition → Definition)
    (same : ∀ definition, (change definition).toHeader = definition.toHeader) :
    (program.modifyDefinition owner change).header? = program.header? := by
  funext type
  rw [header?, definition?_modifyDefinition, header?]
  split
  · rw [Option.map_map]
    congr 1
    funext definition
    exact same definition
  · rfl

theorem sameStatuses_listMethod (program : Program) (owner : TypeId) (id : MethodId)
    (access : UInt32) : program.SameStatuses (program.listMethod owner id access) :=
  ⟨flagged_modifyDefinition _ _ _, header?_modifyDefinition _ _ _ fun _ => rfl⟩

theorem sameStatuses_listField (program : Program) (owner : TypeId) (id : FieldId)
    (access : UInt32) : program.SameStatuses (program.listField owner id access) :=
  ⟨flagged_modifyDefinition _ _ _, header?_modifyDefinition _ _ _ fun _ => rfl⟩

theorem sameStatuses_addType (program : Program) (descriptor : Descriptor) :
    program.SameStatuses (program.addType descriptor) := by
  have statuses : ∀ type, ((program.addType descriptor).typeAt type).status =
      (program.typeAt type).status := by
    intro type
    simp only [typeAt, addType, Array.getD_push]
    split
    · rename_i last
      simp [last]
      rfl
    · rfl
  constructor
  · funext type
    rw [Flagged, statuses, Flagged]
  · funext type
    simp only [header?, definition?, TypeEntry.definition?, statuses]

theorem flagged_setExternal {program : Program} {type : TypeId}
    (known : (program.descriptor? type).isSome) (other : TypeId) :
    (program.setExternal type true).Flagged other ↔ other = type ∨ program.Flagged other := by
  have inside := descriptor?_isSome.mp known
  simp only [Flagged, typeAt, setExternal, Array.getD_modify]
  by_cases here : other = type
  · simp [here, inside]
  · have apart : type.index ≠ other.index := fun same => here (congrArg TypeId.mk same.symm)
    simp [here, apart]

theorem flagged_addDefinition {program : Program} {id : TypeId} {header : Header}
    (known : (program.descriptor? id).isSome) (type : TypeId) :
    (program.addDefinition id header).Flagged type ↔ type ≠ id ∧ program.Flagged type := by
  have inside := descriptor?_isSome.mp known
  simp only [Flagged, typeAt, addDefinition, Array.getD_modify]
  by_cases here : type = id
  · simp [here, inside]
  · have apart : id.index ≠ type.index := fun same => here (congrArg TypeId.mk same.symm)
    simp [here, apart]

theorem header?_addDefinition {program : Program} {id : TypeId} (header : Header)
    (known : (program.descriptor? id).isSome) (type : TypeId) :
    (program.addDefinition id header).header? type =
      if type = id then some header else program.header? type := by
  rw [header?, definition?_addDefinition _ _ (descriptor?_isSome.mp known), header?]
  split <;> rfl

end Program

/-- The code of every method of an image, in order. -/
def Image.codes (image : Image) : List CodeItem :=
  image.classes.flatMap fun definition => definition.methods.flatMap fun method => method.code.toList

open Program Edit

namespace Loading

namespace Context

/-- The type at an index is read as a descriptor. -/
def Reads (context : Context) (index : UInt32) (descriptor : Descriptor) : Prop :=
  ∃ text, context.image.pool.type? index = some text ∧ Descriptor.parse text = .ok descriptor

/-- The method at an index is read as one of an owner, with a name and a signature. -/
def ReadsMethod (context : Context) (index : UInt32) (owner : Descriptor) (name : String)
    (signature : Signature) : Prop :=
  ∃ method proto, context.image.pool.method? index = some method ∧
    context.image.pool.proto? method.proto = some proto ∧
    context.Reads proto.result signature.result ∧
    List.Forall₂ context.Reads proto.parameters signature.parameters ∧
    context.image.pool.text? method.name = some name ∧ context.Reads method.owner owner

def ReadsField (context : Context) (index : UInt32) (owner : Descriptor) (name : String)
    (type : Descriptor) : Prop :=
  ∃ field, context.image.pool.field? index = some field ∧ context.Reads field.type type ∧
    context.image.pool.text? field.name = some name ∧ context.Reads field.owner owner

theorem ReadsMethod.owned {context : Context} {index type : UInt32} {other owner : Descriptor}
    {name : String} {signature : Signature} (read : context.ReadsMethod index other name signature)
    (same : (context.image.pool.method? index).map (·.owner) = some type)
    (owned : context.Reads type owner) : context.ReadsMethod index owner name signature := by
  obtain ⟨method, proto, found, rest⟩ := read
  rw [found, Option.map_some, Option.some.injEq] at same
  exact ⟨method, proto, found, rest.1, rest.2.1, rest.2.2.1, rest.2.2.2.1, same ▸ owned⟩

theorem ReadsField.owned {context : Context} {index type : UInt32} {other owner : Descriptor}
    {name : String} {held : Descriptor} (read : context.ReadsField index other name held)
    (same : (context.image.pool.field? index).map (·.owner) = some type)
    (owned : context.Reads type owner) : context.ReadsField index owner name held := by
  obtain ⟨field, found, rest⟩ := read
  rw [found, Option.map_some, Option.some.injEq] at same
  exact ⟨field, found, rest.1, rest.2.1, same ▸ owned⟩

/-- Some class lists the type among its interfaces. -/
def Lists (context : Context) (descriptor : Descriptor) : Prop :=
  ∃ definition ∈ context.image.classes, ∃ index ∈ definition.interfaces,
    context.Reads index descriptor

/-- Some code calls a method of the type through an interface. -/
def CallsThrough (context : Context) (descriptor : Descriptor) : Prop :=
  ∃ code ∈ context.image.codes, ∃ start index arguments result,
    (start, CodeUnit.call .interface index arguments result) ∈
      CodeUnit.split 0 code.instructions.toList ∧
    ∃ name signature, context.ReadsMethod index descriptor name signature

/-- A step of loading. Plain steps neither add to the tables nor change the status of a type, and
attach nothing. -/
inductive Loads (context : Context) : Program → Program → Prop
  | plain {before after : Program} (step : Step before after) (keys : before.SameKeys after)
      (statuses : before.SameStatuses after) (slots : after.slot? = before.slot?) :
      Loads context before after
  | type {program : Program} {index : UInt32} {descriptor : Descriptor}
      (growth : Growth program (program.addType descriptor)) (read : context.Reads index descriptor) :
      Loads context program (program.addType descriptor)
  | method {program : Program} {index : UInt32} {owner : TypeId} {descriptor : Descriptor}
      {name : String} {signature : Signature} {static : Bool}
      (growth : Growth program (program.addMethod owner name signature (some static)))
      (known : program.descriptor? owner = some descriptor)
      (read : context.ReadsMethod index descriptor name signature) :
      Loads context program (program.addMethod owner name signature (some static))
  | field {program : Program} {index : UInt32} {owner : TypeId} {descriptor : Descriptor}
      {name : String} {type : Descriptor} {static : Bool}
      (growth : Growth program (program.addField owner name type (some static)))
      (known : program.descriptor? owner = some descriptor)
      (read : context.ReadsField index descriptor name type) :
      Loads context program (program.addField owner name type (some static))
  | interface {program : Program} {type : TypeId} {descriptor : Descriptor}
      (growth : Growth program (program.setExternal type true))
      (known : program.descriptor? type = some descriptor)
      (claimed : context.Lists descriptor ∨ context.CallsThrough descriptor) :
      Loads context program (program.setExternal type true)
  | define {program : Program} {id : TypeId} {header : Header} {definition : ClassDef}
      (step : Step program (program.addDefinition id header))
      (known : (program.descriptor? id).isSome) (external : ¬(program.typeAt id).isDefined)
      (member : definition ∈ context.image.classes)
      (length : header.interfaces.length = definition.interfaces.length)
      (noted : ∀ type ∈ header.interfaces, program.Noted type)
      (source : ∀ text, header.source = some text →
        ∃ index, context.image.pool.text? index = some text) :
      Loads context program (program.addDefinition id header)
  | attach {program : Program} {method : MethodId} {position : Nat} {id : InstructionId}
      {instruction : Instruction} (step : Step program (program.attach method position id instruction))
      (issued : id.index < program.code.size) (vacant : program.slot? id = none)
      (admitted : program.Admits instruction) (marked : program.Marked instruction)
      (constant : ∀ target text, instruction = .const target (.text text) →
        ∃ index, context.image.pool.text? index = some text) :
      Loads context program (program.attach method position id instruction)

theorem Loads.step {context : Context} {before after : Program} (loads : context.Loads before after) :
    Step before after := by
  cases loads with
  | plain step => exact step
  | type growth | method growth | field growth | interface growth => exact .grow growth
  | define step => exact step
  | attach step => exact step

theorem Loads.steps {context : Context} {before after : Program}
    (moved : Relation.ReflTransGen context.Loads before after) : Steps before after :=
  Relation.ReflTransGen.mono (fun _ _ => Loads.step) _ _ moved

/-- The status of types, after steps that touch neither types nor definitions. -/
theorem noted_of_types {before after : Program} (types : after.types = before.types) {type : TypeId}
    (noted : before.Noted type) : after.Noted type := by
  simpa only [Noted, Flagged, typeAt, types] using noted

/-- An interface stays one, unless it becomes a defined type. -/
theorem Loads.noted {context : Context} {before after : Program} (loads : context.Loads before after)
    {type : TypeId} (noted : before.Noted type) : after.Noted type := by
  cases loads with
  | plain step keys statuses => exact statuses.noted.mpr noted
  | type => exact (sameStatuses_addType _ _).noted.mpr noted
  | method | field | attach => exact noted_of_types rfl noted
  | interface growth known =>
    rcases noted with defined | flagged
    · left
      rw [TypeEntry.isDefined, growth.definition?]
      exact defined
    · exact .inr ((flagged_setExternal (by rw [known]; rfl) type).mpr (.inr flagged))
  | define step known =>
    rw [Noted, isDefined_iff, header?_addDefinition _ known]
    rcases noted with defined | flagged
    · left
      split
      · rfl
      · exact isDefined_iff.mp defined
    · split
      · exact .inl rfl
      · rename_i elsewhere
        exact .inr ((flagged_addDefinition known type).mpr ⟨elsewhere, flagged⟩)

/-- A definition keeps its header. -/
theorem Loads.header_kept {context : Context} {before after : Program}
    (loads : context.Loads before after) {type : TypeId} {header : Header}
    (defined : before.header? type = some header) : after.header? type = some header := by
  cases loads with
  | plain _ _ statuses => rw [statuses.headers, defined]
  | type => rw [(sameStatuses_addType _ _).headers, defined]
  | interface growth =>
    rw [header?, Program.definition?, growth.definition?]
    exact defined
  | define _ known external =>
    rw [header?_addDefinition _ known, if_neg, defined]
    rintro rfl
    exact external (isDefined_iff.mpr (by rw [defined]; rfl))
  | method | field | attach => exact defined

/-- An instruction stays where it was attached. -/
theorem Loads.slot_kept {context : Context} {before after : Program}
    (loads : context.Loads before after) {id : InstructionId} {slot : Slot}
    (attached : before.slot? id = some slot) : after.slot? id = some slot := by
  cases loads with
  | plain _ _ _ slots => rw [slots, attached]
  | attach _ issued vacant =>
    rw [slot?_attach before issued, if_neg, attached]
    rintro rfl
    rw [vacant] at attached
    cases attached
  | type growth | method growth | field growth | interface growth | define => exact attached

/-- Growth in the course of loading. -/
def Learns (context : Context) (before after : Program) : Prop :=
  Growth before after ∧ context.Loads before after

theorem Learns.growths {context : Context} {before after : Program}
    (moved : Relation.ReflTransGen context.Learns before after) : Growths before after :=
  Relation.ReflTransGen.mono (fun _ _ => And.left) _ _ moved

theorem Learns.loads {context : Context} {before after : Program}
    (moved : Relation.ReflTransGen context.Learns before after) :
    Relation.ReflTransGen context.Loads before after :=
  Relation.ReflTransGen.mono (fun _ _ => And.right) _ _ moved

/-- What looking up the pool does: growth that issues no locals. -/
def Looks (context : Context) (before after : Program) : Prop :=
  context.Learns before after ∧ after.owners = before.owners

theorem Looks.owners {context : Context} {before after : Program}
    (moved : Relation.ReflTransGen context.Looks before after) : after.owners = before.owners := by
  induction moved with
  | refl => rfl
  | tail _ looks ih => rw [looks.2, ih]

theorem Looks.learns {context : Context} {before after : Program}
    (moved : Relation.ReflTransGen context.Looks before after) :
    Relation.ReflTransGen context.Learns before after :=
  Relation.ReflTransGen.mono (fun _ _ => And.left) _ _ moved

theorem Looks.growths {context : Context} {before after : Program}
    (moved : Relation.ReflTransGen context.Looks before after) : Growths before after :=
  Learns.growths (Looks.learns moved)

theorem looks_mark {context : Context} {program : Program} (symbol : Symbol) (static : Bool)
    (growth : Growth program (program.setMarker symbol static)) :
    context.Looks program (program.setMarker symbol static) := by
  refine ⟨⟨growth, .plain (.grow growth) (sameKeys_setMarker _ _ _) ?_ ?_⟩, ?_⟩
  · cases symbol <;> exact ⟨rfl, rfl⟩
  · cases symbol <;> rfl
  · cases symbol <;> rfl

theorem learns_addLocal {context : Context} {program : Program} (growth : Growth program program.addLocal) :
    context.Learns program program.addLocal :=
  ⟨growth, .plain (.grow growth) (sameKeys_addLocal program) ⟨rfl, rfl⟩ rfl⟩

variable {context : Context} {before : Program} {step : Program → Program → Prop}

theorem require_bind {table : PoolTable} {index : UInt32} {entry : Option α} {next : α → Edit β}
    {goal : β → Program → Prop}
    (second : ∀ value, entry = some value → Reaches step (next value) before goal) :
    Reaches step (require table index entry >>= next) before goal := by
  cases entry with
  | none => exact .throw
  | some value => exact second value rfl

theorem text_bind {index : UInt32} {next : String → Edit α} {goal : α → Program → Prop}
    (second : ∀ text, context.image.pool.text? index = some text →
      Reaches step (next text) before goal) :
    Reaches step (context.text index >>= next) before goal :=
  require_bind second

theorem descriptor_bind {index : UInt32} {next : Descriptor → Edit α} {goal : α → Program → Prop}
    (second : ∀ descriptor, context.Reads index descriptor → Reaches step (next descriptor) before goal) :
    Reaches step (context.descriptor index >>= next) before goal := by
  unfold descriptor
  rw [bind_assoc]
  apply require_bind
  intro text found
  have parsed : Reaches step (ExceptT.adapt Fault.blameImage (Edit.check fun _ => Descriptor.parse text))
      before fun descriptor after => after = before ∧ Descriptor.parse text = .ok descriptor :=
    .adapt (.leave id .refl fun _ same => ⟨rfl, same⟩)
  apply parsed.bind
  rintro descriptor middle - ⟨rfl, same⟩
  exact second descriptor ⟨text, found, same⟩

theorem require_ran {table : PoolTable} {index : UInt32} {entry : Option α} {value : α} {after : Program}
    (ran : outcome (require table index entry) before = (.ok value, after)) :
    entry = some value ∧ after = before := by
  cases entry with
  | none => cases ran
  | some found =>
    cases ran
    exact ⟨rfl, rfl⟩

/-- Reading a descriptor does not look at the program. -/
theorem descriptor_ran {index : UInt32} {descriptor : Descriptor} {after : Program}
    (ran : outcome (context.descriptor index) before = (.ok descriptor, after)) :
    context.Reads index descriptor ∧ after = before := by
  obtain ⟨text, middle, required, parsed⟩ := outcome_bind_ok.mp ran
  obtain ⟨found, rfl⟩ := require_ran required
  have checked := outcome_adapt_ok.mp parsed
  exact ⟨⟨text, found, congrArg Prod.fst checked⟩, (congrArg Prod.snd checked).symm⟩

theorem descriptors_bind {indices : List UInt32} {next : List Descriptor → Edit α}
    {goal : α → Program → Prop}
    (second : ∀ descriptors, List.Forall₂ context.Reads indices descriptors →
      Reaches step (next descriptors) before goal) :
    Reaches step (indices.mapM context.descriptor >>= next) before goal := by
  induction indices generalizing next with
  | nil => exact second [] .nil
  | cons index indices ih =>
    simp only [List.mapM_cons, bind_assoc, pure_bind]
    apply descriptor_bind
    intro descriptor read
    apply ih
    intro descriptors all
    exact second (descriptor :: descriptors) (.cons read all)

theorem looks_type (index : UInt32) :
    Reaches context.Looks (context.type index) before fun id after =>
      ∃ descriptor, context.Reads index descriptor ∧ after.descriptor? id = some descriptor := by
  apply descriptor_bind
  intro descriptor read
  apply (Edit.reaches_type fun growth => ⟨⟨growth, .type growth read⟩, rfl⟩).adapt.imp
  rintro id after - ⟨-, found⟩
  exact ⟨descriptor, read, found⟩

/-- A type of the program is the one at an index. -/
def FindsType (context : Context) (index : UInt32) (id : TypeId) (program : Program) : Prop :=
  ∃ descriptor, context.Reads index descriptor ∧ program.descriptor? id = some descriptor

theorem reaches_type (index : UInt32) :
    Reaches context.Learns (context.type index) before (context.FindsType index) :=
  (looks_type index).mono fun _ _ => And.left

theorem looks_methodKey (index : UInt32) :
    Reaches context.Looks (context.methodKey index) before fun key after =>
      ∃ descriptor, after.descriptor? key.1 = some descriptor ∧
        context.ReadsMethod index descriptor key.2.1 key.2.2 := by
  apply require_bind
  intro method found
  apply require_bind
  intro proto listed
  apply descriptor_bind
  intro result read
  apply descriptors_bind
  intro parameters all
  apply text_bind
  intro name named
  apply (looks_type _).bind
  rintro owner after - ⟨descriptor, owned, known⟩
  exact .pure ⟨descriptor, known, method, proto, found, listed, read, all, named, owned⟩

theorem looks_fieldKey (index : UInt32) :
    Reaches context.Looks (context.fieldKey index) before fun key after =>
      ∃ descriptor, after.descriptor? key.1 = some descriptor ∧
        context.ReadsField index descriptor key.2.1 key.2.2 := by
  apply require_bind
  intro field found
  apply descriptor_bind
  intro type read
  apply text_bind
  intro name named
  apply (looks_type _).bind
  rintro owner after - ⟨descriptor, owned, known⟩
  exact .pure ⟨descriptor, known, field, found, read, named, owned⟩

theorem reaches_blame {known : Bool} {edit : Edit α} {goal : α → Program → Prop}
    (reached : Reaches step edit before goal) : Reaches step (blame known edit) before goal := by
  cases known with
  | false => exact reached.adapt
  | true => exact reached

/-- A method of the program is the one at an index, with a known marker. -/
def FindsMethod (context : Context) (index : UInt32) (static : Bool) (id : MethodId)
    (program : Program) : Prop :=
  ∃ owner descriptor name signature, program.methodKey? id = some (owner, name, signature) ∧
    program.descriptor? owner = some descriptor ∧
    context.ReadsMethod index descriptor name signature ∧
    program.marker (.method id) = some static

theorem looks_method (index : UInt32) (static : Bool) :
    Reaches context.Looks (context.method index static) before
      (context.FindsMethod index static) := by
  apply (looks_methodKey index).bind
  rintro ⟨owner, name, signature⟩ middle - ⟨descriptor, known, read⟩
  refine .get_bind (reaches_blame ?_)
  apply (Edit.reaches_method (by rw [known]; rfl)
    (fun growth => ⟨⟨growth, .method growth known read⟩, rfl⟩) looks_mark).imp
  rintro id after - ⟨grown, key, marked⟩
  exact ⟨owner, descriptor, name, signature, key, grown.extends.types known, read, marked static rfl⟩

theorem reaches_method (index : UInt32) (static : Bool) :
    Reaches context.Learns (context.method index static) before (context.FindsMethod index static) :=
  (looks_method index static).mono fun _ _ => And.left

/-- A field of the program is the one at an index, with a known marker. -/
def FindsField (context : Context) (index : UInt32) (static : Bool) (id : FieldId)
    (program : Program) : Prop :=
  ∃ owner descriptor name type, program.fieldKey? id = some (owner, name, type) ∧
    program.descriptor? owner = some descriptor ∧
    context.ReadsField index descriptor name type ∧
    program.marker (.field id) = some static

theorem looks_field (index : UInt32) (static : Bool) :
    Reaches context.Looks (context.field index static) before (context.FindsField index static) := by
  apply (looks_fieldKey index).bind
  rintro ⟨owner, name, type⟩ middle - ⟨descriptor, known, read⟩
  refine .get_bind (reaches_blame ?_)
  apply (Edit.reaches_field (by rw [known]; rfl)
    (fun growth => ⟨⟨growth, .field growth known read⟩, rfl⟩) looks_mark).imp
  rintro id after - ⟨grown, key, marked⟩
  exact ⟨owner, descriptor, name, type, key, grown.extends.types known, read, marked static rfl⟩

theorem reaches_field (index : UInt32) (static : Bool) :
    Reaches context.Learns (context.field index static) before (context.FindsField index static) :=
  (looks_field index static).mono fun _ _ => And.left

theorem looks_markInterface {type : TypeId} {descriptor : Descriptor}
    (known : before.descriptor? type = some descriptor)
    (claimed : context.Lists descriptor ∨ context.CallsThrough descriptor) :
    Reaches context.Looks (markInterface type) before fun _ after => after.Noted type := by
  refine .get_bind ?_
  split
  · rename_i external
    have external : ¬(before.typeAt type).isDefined := by simpa using external
    apply (reaches_setInterface fun growth => ⟨⟨growth, .interface growth known claimed⟩, rfl⟩).imp
    rintro _ after - rfl
    rw [if_neg external]
    exact .inr ((flagged_setExternal (by rw [known]; rfl) type).mpr (.inl rfl))
  · rename_i defined
    exact .pure (.inl (by simpa using defined))

theorem looks_interface {index : UInt32}
    (listed : ∀ descriptor, context.Reads index descriptor → context.Lists descriptor) :
    Reaches context.Looks (context.interface index) before fun id after =>
      (after.descriptor? id).isSome ∧ after.Noted id ∧
        ∃ descriptor, context.Reads index descriptor ∧ after.descriptor? id = some descriptor := by
  apply (looks_type index).bind
  rintro type middle - ⟨descriptor, read, known⟩
  apply (looks_markInterface known (.inl (listed descriptor read))).bind
  intro _ after moved noted
  have known := (Looks.growths moved).extends.types known
  exact .pure ⟨by rw [known]; rfl, noted, descriptor, read, known⟩

end Context

end Loading

end ClassImage
