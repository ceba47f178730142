import ClassImage.Proofs.Program.Keys

/-!
Definitions and declarations agree. The defined types are listed once each, in
the order of their definitions; a definition lists exactly the members that are
declared for its type, once each, and a declared member has the static marker of
its access flags.
-/

namespace ClassImage

namespace Program

def definition? (program : Program) (type : TypeId) : Option Definition :=
  (program.typeAt type).definition?

/-- The owner and the access flags of a declared method. -/
def declaredMethod? (program : Program) (method : MethodId) : Option (TypeId × UInt32) :=
  (program.methodAt method).declaration.map fun access => ((program.methodAt method).owner, access)

/-- The owner and the access flags of a declared field. -/
def declaredField? (program : Program) (field : FieldId) : Option (TypeId × UInt32) :=
  (program.fieldAt field).declaration.map fun access => ((program.fieldAt field).owner, access)

theorem declaredMethod?_eq_some {program : Program} {method : MethodId} {owner : TypeId} {access : UInt32} :
    program.declaredMethod? method = some (owner, access) ↔
      (program.methodAt method).declaration = some access ∧ (program.methodAt method).owner = owner := by
  rw [declaredMethod?, Option.map_eq_some_iff]
  simp [and_comm]

theorem declaredField?_eq_some {program : Program} {field : FieldId} {owner : TypeId} {access : UInt32} :
    program.declaredField? field = some (owner, access) ↔
      (program.fieldAt field).declaration = some access ∧ (program.fieldAt field).owner = owner := by
  rw [declaredField?, Option.map_eq_some_iff]
  simp [and_comm]

theorem knowsMethod_of_declared {program : Program} {method : MethodId} {entry : TypeId × UInt32}
    (declared : program.declaredMethod? method = some entry) : (program.methodKey? method).isSome := by
  apply methodKey?_isSome.mpr
  by_contra outside
  rw [declaredMethod?, methodAt, Array.getD_eq_getD_getElem?, Array.getElem?_eq_none (by omega)] at declared
  cases declared

theorem knowsField_of_declared {program : Program} {field : FieldId} {entry : TypeId × UInt32}
    (declared : program.declaredField? field = some entry) : (program.fieldKey? field).isSome := by
  apply fieldKey?_isSome.mpr
  by_contra outside
  rw [declaredField?, fieldAt, Array.getD_eq_getD_getElem?, Array.getElem?_eq_none (by omega)] at declared
  cases declared

theorem known_of_declaration {program : Program} {method : MethodId} {access : UInt32}
    (declared : (program.methodAt method).declaration = some access) :
    method.index < program.methods.size :=
  methodKey?_isSome.mp (knowsMethod_of_declared (declaredMethod?_eq_some.mpr ⟨declared, rfl⟩))

structure SameDefinitions (before after : Program) : Prop where
  defined : after.defined = before.defined
  definitions : after.definition? = before.definition?
  methods : after.declaredMethod? = before.declaredMethod?
  fields : after.declaredField? = before.declaredField?

theorem SameDefinitions.trans {first second third : Program} (left : first.SameDefinitions second)
    (right : second.SameDefinitions third) : first.SameDefinitions third :=
  ⟨right.defined.trans left.defined, right.definitions.trans left.definitions,
    right.methods.trans left.methods, right.fields.trans left.fields⟩

theorem declaredMethod?_modify (program : Program) (place : Nat) (change : MethodEntry → MethodEntry)
    (same : ∀ entry, (change entry).owner = entry.owner ∧
      (change entry).declaration = entry.declaration) :
    { program with methods := program.methods.modify place change }.declaredMethod? =
      program.declaredMethod? := by
  funext method
  simp only [declaredMethod?, methodAt, Array.getD_modify]
  split
  · simp only [same]
  · rfl

theorem declaredField?_modify (program : Program) (place : Nat) (change : FieldEntry → FieldEntry)
    (same : ∀ entry, (change entry).owner = entry.owner ∧
      (change entry).declaration = entry.declaration) :
    { program with fields := program.fields.modify place change }.declaredField? =
      program.declaredField? := by
  funext field
  simp only [declaredField?, fieldAt, Array.getD_modify]
  split
  · simp only [same]
  · rfl

theorem sameDefinitions_addBody (program : Program) (method : MethodId) (parameters : List Local) :
    program.SameDefinitions (program.addBody method parameters) :=
  ⟨rfl, rfl, declaredMethod?_modify _ _ _ fun _ => ⟨rfl, rfl⟩, rfl⟩

theorem sameDefinitions_attach (program : Program) (method : MethodId) (position : Nat)
    (id : InstructionId) (instruction : Instruction) :
    program.SameDefinitions (program.attach method position id instruction) :=
  ⟨rfl, rfl, declaredMethod?_modify _ _ _ fun _ => ⟨rfl, rfl⟩, rfl⟩

theorem sameDefinitions_detach (program : Program) (id : InstructionId) (slot : Slot) :
    program.SameDefinitions (program.detach id slot) :=
  ⟨rfl, rfl, declaredMethod?_modify _ _ _ fun _ => ⟨rfl, rfl⟩, rfl⟩

theorem Growth.sameDefinitions {before after : Program} (growth : Growth before after) :
    before.SameDefinitions after := by
  have definitions : after.definition? = before.definition? := funext growth.definition?
  cases growth with
  | type => exact ⟨rfl, definitions, rfl, rfl⟩
  | interface => exact ⟨rfl, definitions, rfl, rfl⟩
  | method =>
    refine ⟨rfl, definitions, ?_, rfl⟩
    funext method
    simp only [declaredMethod?, methodAt, addMethod, Array.getD_push]
    split
    · rename_i last
      simp [last]
      rfl
    · rfl
  | field =>
    refine ⟨rfl, definitions, rfl, ?_⟩
    funext field
    simp only [declaredField?, fieldAt, addField, Array.getD_push]
    split
    · rename_i last
      simp [last]
      rfl
    · rfl
  | @marker symbol static =>
    cases symbol with
    | type => exact ⟨rfl, rfl, rfl, rfl⟩
    | method => exact ⟨rfl, rfl, declaredMethod?_modify _ _ _ fun _ => ⟨rfl, rfl⟩, rfl⟩
    | field => exact ⟨rfl, rfl, rfl, declaredField?_modify _ _ _ fun _ => ⟨rfl, rfl⟩⟩
  | slot => exact ⟨rfl, rfl, rfl, rfl⟩

theorem Growths.sameDefinitions {before after : Program} (growths : Growths before after) :
    before.SameDefinitions after := by
  induction growths with
  | refl => exact ⟨rfl, rfl, rfl, rfl⟩
  | tail _ growth ih => exact ih.trans growth.sameDefinitions

section Changes

variable (program : Program)

theorem definition?_addDefinition {id : TypeId} (header : Header)
    (known : id.index < program.types.size) (type : TypeId) :
    (program.addDefinition id header).definition? type =
      if type = id then some { header with } else program.definition? type := by
  simp only [definition?, typeAt, addDefinition, Array.getD_modify]
  by_cases here : type = id
  · simp [here, known, TypeEntry.definition?]
  · have apart : id.index ≠ type.index := fun same => here (congrArg TypeId.mk same.symm)
    simp [apart, here]

theorem definition?_modifyDefinition (owner : TypeId) (change : Definition → Definition)
    (type : TypeId) :
    (program.modifyDefinition owner change).definition? type =
      if type = owner then (program.definition? type).map change else program.definition? type := by
  simp only [definition?, typeAt, modifyDefinition, Array.getD_modify]
  by_cases here : type = owner
  · subst here
    by_cases inside : type.index < program.types.size
    · simp only [inside, and_self, if_true]
      obtain ⟨descriptor, _ | _⟩ := program.types.getD type.index default <;> rfl
    · simp [inside, Array.getD_eq_getD_getElem?, TypeEntry.definition?]
      rfl
  · have apart : owner.index ≠ type.index := fun same => here (congrArg TypeId.mk same.symm)
    simp [apart, here]

theorem declaredMethod?_listMethod {id : MethodId} {owner : TypeId} {name : String}
    {signature : Signature} (key : program.methodKey? id = some (owner, name, signature))
    (access : UInt32) (method : MethodId) :
    (program.listMethod owner id access).declaredMethod? method =
      if method = id then some (owner, access) else program.declaredMethod? method := by
  have known := methodKey?_isSome.mp (Option.isSome_iff_exists.mpr ⟨_, key⟩)
  have same := (methodKey?_methodAt key).1
  simp only [methodAt] at same
  simp only [declaredMethod?, methodAt, listMethod, modifyDefinition, Array.getD_modify]
  by_cases here : method = id
  · subst here
    rw [if_pos ⟨rfl, known⟩, if_pos rfl, same]
    rfl
  · have apart : id.index ≠ method.index := fun same => here (congrArg MethodId.mk same.symm)
    simp [apart, here]

theorem declaredField?_listField {id : FieldId} {owner : TypeId} {name : String} {type : Descriptor}
    (key : program.fieldKey? id = some (owner, name, type)) (access : UInt32) (field : FieldId) :
    (program.listField owner id access).declaredField? field =
      if field = id then some (owner, access) else program.declaredField? field := by
  have known := fieldKey?_isSome.mp (Option.isSome_iff_exists.mpr ⟨_, key⟩)
  have same := (fieldKey?_fieldAt key).1
  simp only [fieldAt] at same
  simp only [declaredField?, fieldAt, listField, modifyDefinition, Array.getD_modify]
  by_cases here : field = id
  · subst here
    rw [if_pos ⟨rfl, known⟩, if_pos rfl, same]
    rfl
  · have apart : id.index ≠ field.index := fun same => here (congrArg FieldId.mk same.symm)
    simp [apart, here]

end Changes

/-- A list has exactly the members declared for a type, once each. -/
def Listed {ι : Type} (declared : ι → Option (TypeId × UInt32)) (type : TypeId) (list : Array ι) : Prop :=
  list.toList.Nodup ∧ ∀ member, member ∈ list ↔ ∃ access, declared member = some (type, access)

theorem listed_empty {ι : Type} {declared : ι → Option (TypeId × UInt32)} {type : TypeId}
    (absent : ∀ member access, declared member ≠ some (type, access)) : Listed declared type #[] := by
  refine ⟨List.nodup_nil, ?_⟩
  intro member
  simp [absent]

structure DefinitionsSound (program : Program) : Prop where
  defined : ∀ type, type ∈ program.defined ↔ (program.definition? type).isSome
  distinct : program.defined.toList.Nodup
  objects : ∀ {type definition}, program.definition? type = some definition →
    ∃ name, program.descriptor? type = some (.object name)
  headers : ∀ {type definition}, program.definition? type = some definition →
    program.Knows definition.toHeader
  methods : ∀ {type definition}, program.definition? type = some definition →
    Listed program.declaredMethod? type definition.methods
  fields : ∀ {type definition}, program.definition? type = some definition →
    Listed program.declaredField? type definition.fields
  methodOwners : ∀ {method type access}, program.declaredMethod? method = some (type, access) →
    (program.definition? type).isSome
  fieldOwners : ∀ {field type access}, program.declaredField? field = some (type, access) →
    (program.definition? type).isSome

theorem DefinitionsSound.of_same {before after : Program} (sound : before.DefinitionsSound)
    (more : before.Extends after) (same : before.SameDefinitions after) : after.DefinitionsSound := by
  obtain ⟨defined, definitions, methods, fields⟩ := same
  constructor
  all_goals
    simp only [defined, definitions, methods, fields]
  · exact sound.defined
  · exact sound.distinct
  · intro type definition found
    obtain ⟨name, object⟩ := sound.objects found
    exact ⟨name, more.types object⟩
  · intro type definition found
    exact more.knowsHeader (sound.headers found)
  · exact sound.methods
  · exact sound.fields
  · exact sound.methodOwners
  · exact sound.fieldOwners

theorem DefinitionsSound.define {program : Program} (sound : program.DefinitionsSound) {id : TypeId}
    {name : String} {header : Header} (object : program.descriptor? id = some (.object name))
    (external : ¬(program.typeAt id).isDefined) (known : program.Knows header) :
    (program.addDefinition id header).DefinitionsSound := by
  have more : program.Extends (program.addDefinition id header) := (Step.define object external known).extends
  have inside := descriptor?_isSome.mp (Option.isSome_iff_exists.mpr ⟨_, object⟩)
  have view := definition?_addDefinition program header inside
  have undefined : program.definition? id = none := Option.not_isSome_iff_eq_none.mp external
  have elsewhere : ∀ {type definition}, (program.addDefinition id header).definition? type = some definition →
      (type = id ∧ definition = { header with }) ∨ program.definition? type = some definition := by
    intro type definition found
    rw [view] at found
    split at found
    · cases found
      exact .inl ⟨‹_›, rfl⟩
    · exact .inr found
  constructor
  · intro type
    rw [view]
    change type ∈ program.defined.push id ↔ _
    rw [Array.mem_push, sound.defined]
    by_cases here : type = id
    · simp [here]
    · simp [here]
  · change (program.defined.push id).toList.Nodup
    apply Array.nodup_push sound.distinct
    rw [sound.defined, undefined]
    simp
  · intro type definition found
    rcases elsewhere found with ⟨rfl, -⟩ | found
    · exact ⟨name, more.types object⟩
    · obtain ⟨other, object⟩ := sound.objects found
      exact ⟨other, more.types object⟩
  · intro type definition found
    rcases elsewhere found with ⟨-, rfl⟩ | found
    · exact more.knowsHeader known
    · exact more.knowsHeader (sound.headers found)
  · intro type definition found
    rcases elsewhere found with ⟨rfl, rfl⟩ | found
    · apply listed_empty
      intro method access declared
      have listed := sound.methodOwners declared
      rw [undefined] at listed
      cases listed
    · exact sound.methods found
  · intro type definition found
    rcases elsewhere found with ⟨rfl, rfl⟩ | found
    · apply listed_empty
      intro field access declared
      have listed := sound.fieldOwners declared
      rw [undefined] at listed
      cases listed
    · exact sound.fields found
  · intro method type access declared
    rw [view]
    split
    · rfl
    · exact sound.methodOwners declared
  · intro field type access declared
    rw [view]
    split
    · rfl
    · exact sound.fieldOwners declared

section Listing

variable {ι : Type} [DecidableEq ι] {before after : ι → Option (TypeId × UInt32)} {id : ι}
  {owner : TypeId} {access : UInt32}
  (view : ∀ member, after member = if member = id then some (owner, access) else before member)
  (fresh : before id = none) {list : Array ι} {type : TypeId} (listed : Listed before type list)

include view fresh listed

theorem Listed.push (here : type = owner) : Listed after type (list.push id) := by
  subst here
  obtain ⟨distinct, exact⟩ := listed
  constructor
  · apply Array.nodup_push distinct
    rw [exact, fresh]
    simp
  · intro member
    rw [Array.mem_push, exact, view]
    by_cases last : member = id
    · simp [last]
    · simp [last]

theorem Listed.other (elsewhere : type ≠ owner) : Listed after type list := by
  refine ⟨listed.1, ?_⟩
  intro member
  rw [listed.2, view]
  by_cases last : member = id
  · subst last
    simp [fresh, elsewhere.symm]
  · simp [last]

end Listing

/-- Definitions stay sound when members are listed as they are declared. -/
theorem DefinitionsSound.of_listed {before after : Program} (sound : before.DefinitionsSound)
    (more : before.Extends after) (defined : after.defined = before.defined)
    (origin : ∀ {type definition}, after.definition? type = some definition →
      ∃ old, before.definition? type = some old ∧ definition.toHeader = old.toHeader ∧
        Listed after.declaredMethod? type definition.methods ∧
        Listed after.declaredField? type definition.fields)
    (kept : ∀ {type}, (before.definition? type).isSome → (after.definition? type).isSome)
    (methodOwners : ∀ {method type access}, after.declaredMethod? method = some (type, access) →
      (before.definition? type).isSome)
    (fieldOwners : ∀ {field type access}, after.declaredField? field = some (type, access) →
      (before.definition? type).isSome) : after.DefinitionsSound := by
  constructor
  · intro type
    rw [defined, sound.defined]
    refine ⟨kept, ?_⟩
    intro found
    obtain ⟨definition, found⟩ := Option.isSome_iff_exists.mp found
    obtain ⟨old, there, -⟩ := origin found
    exact Option.isSome_iff_exists.mpr ⟨old, there⟩
  · rw [defined]
    exact sound.distinct
  · intro type definition found
    obtain ⟨old, there, -⟩ := origin found
    obtain ⟨name, object⟩ := sound.objects there
    exact ⟨name, more.types object⟩
  · intro type definition found
    obtain ⟨old, there, header, -⟩ := origin found
    rw [header]
    exact more.knowsHeader (sound.headers there)
  · intro type definition found
    obtain ⟨old, -, -, methods, -⟩ := origin found
    exact methods
  · intro type definition found
    obtain ⟨old, -, -, -, fields⟩ := origin found
    exact fields
  · exact fun declared => kept (methodOwners declared)
  · exact fun declared => kept (fieldOwners declared)

theorem definition?_isSome_modifyDefinition {program : Program} {owner type : TypeId}
    {change : Definition → Definition} (found : (program.definition? type).isSome) :
    ((program.modifyDefinition owner change).definition? type).isSome := by
  rw [definition?_modifyDefinition]
  split
  · rw [Option.isSome_map]
    exact found
  · exact found

theorem DefinitionsSound.declareMethod {program : Program} (sound : program.DefinitionsSound)
    {id : MethodId} {owner : TypeId} {name : String} {signature : Signature} {access : UInt32}
    (key : program.methodKey? id = some (owner, name, signature))
    (defined : (program.typeAt owner).isDefined) (fresh : (program.methodAt id).declaration = none)
    (more : program.Extends (program.listMethod owner id access)) :
    (program.listMethod owner id access).DefinitionsSound := by
  have view := declaredMethod?_listMethod program key access
  have undeclared : program.declaredMethod? id = none := by
    rw [declaredMethod?, fresh, Option.map_none]
  refine sound.of_listed more rfl ?_ definition?_isSome_modifyDefinition ?_ sound.fieldOwners
  · intro type definition found
    rw [listMethod, definition?_modifyDefinition] at found
    split at found
    · rename_i here
      obtain ⟨old, there, rfl⟩ := Option.map_eq_some_iff.mp found
      have there : program.definition? type = some old := there
      exact ⟨old, there, rfl, (sound.methods there).push view undeclared here, (sound.fields there :)⟩
    · rename_i elsewhere
      have there : program.definition? type = some definition := found
      exact ⟨definition, there, rfl, (sound.methods there).other view undeclared elsewhere,
        sound.fields there⟩
  · intro method type flags declared
    rw [view] at declared
    split at declared
    · cases declared
      exact defined
    · exact sound.methodOwners declared

theorem DefinitionsSound.declareField {program : Program} (sound : program.DefinitionsSound)
    {id : FieldId} {owner : TypeId} {name : String} {held : Descriptor} {access : UInt32}
    (key : program.fieldKey? id = some (owner, name, held))
    (defined : (program.typeAt owner).isDefined) (fresh : (program.fieldAt id).declaration = none)
    (more : program.Extends (program.listField owner id access)) :
    (program.listField owner id access).DefinitionsSound := by
  have view := declaredField?_listField program key access
  have undeclared : program.declaredField? id = none := by
    rw [declaredField?, fresh, Option.map_none]
  refine sound.of_listed more rfl ?_ definition?_isSome_modifyDefinition sound.methodOwners ?_
  · intro type definition found
    rw [listField, definition?_modifyDefinition] at found
    split at found
    · rename_i here
      obtain ⟨old, there, rfl⟩ := Option.map_eq_some_iff.mp found
      have there : program.definition? type = some old := there
      exact ⟨old, there, rfl, (sound.methods there :), (sound.fields there).push view undeclared here⟩
    · rename_i elsewhere
      have there : program.definition? type = some definition := found
      exact ⟨definition, there, rfl, sound.methods there,
        (sound.fields there).other view undeclared elsewhere⟩
  · intro field type flags declared
    rw [view] at declared
    split at declared
    · cases declared
      exact defined
    · exact sound.fieldOwners declared

theorem DefinitionsSound.step {before after : Program} (sound : before.DefinitionsSound)
    (step : Step before after) : after.DefinitionsSound := by
  have more := step.extends
  cases step with
  | grow growth => exact sound.of_same more growth.sameDefinitions
  | define object external known => exact sound.define object external known
  | declareMethod key defined fresh _ => exact sound.declareMethod key defined fresh more
  | declareField key defined fresh _ => exact sound.declareField key defined fresh more
  | body => exact sound.of_same more (sameDefinitions_addBody _ _ _)
  | handles => exact sound.of_same more ⟨rfl, rfl, rfl, rfl⟩
  | attach => exact sound.of_same more (sameDefinitions_attach _ _ _ _ _)
  | detach => exact sound.of_same more (sameDefinitions_detach _ _ _)
  | retarget =>
    rw [retarget_eq] at more ⊢
    exact sound.of_same more ⟨rfl, rfl, rfl, rfl⟩

theorem Steps.definitionsSound {program : Program} (steps : Steps {} program) :
    program.DefinitionsSound := by
  induction steps with
  | refl =>
    have definitions : ({} : Program).definition? = fun _ => none := rfl
    have methods : ({} : Program).declaredMethod? = fun _ => none := rfl
    have fields : ({} : Program).declaredField? = fun _ => none := rfl
    constructor <;> simp [definitions, methods, fields]
  | tail _ step ih => exact ih.step step

/-- A declared method was declared before, or the step found its marker to fit. -/
theorem Step.declaredMethod?_cases {before after : Program} (step : Step before after)
    {method : MethodId} {type : TypeId} {access : UInt32}
    (declared : after.declaredMethod? method = some (type, access)) :
    before.declaredMethod? method = some (type, access) ∨
      before.marker (.method method) = some (Access.isSet access Access.static) := by
  cases step with
  | grow growth =>
    rw [growth.sameDefinitions.methods] at declared
    exact .inl declared
  | declareMethod key _ _ marked =>
    rw [declaredMethod?_listMethod _ key] at declared
    split at declared
    · rename_i here
      cases declared
      exact .inr (here ▸ marked)
    · exact .inl declared
  | body =>
    rw [(sameDefinitions_addBody _ _ _).methods] at declared
    exact .inl declared
  | attach =>
    rw [(sameDefinitions_attach _ _ _ _ _).methods] at declared
    exact .inl declared
  | detach =>
    rw [(sameDefinitions_detach _ _ _).methods] at declared
    exact .inl declared
  | retarget =>
    rw [retarget_eq] at declared
    exact .inl declared
  | define | declareField | handles => exact .inl declared

theorem Step.declaredField?_cases {before after : Program} (step : Step before after)
    {field : FieldId} {type : TypeId} {access : UInt32}
    (declared : after.declaredField? field = some (type, access)) :
    before.declaredField? field = some (type, access) ∨
      before.marker (.field field) = some (Access.isSet access Access.static) := by
  cases step with
  | grow growth =>
    rw [growth.sameDefinitions.fields] at declared
    exact .inl declared
  | declareField key _ _ marked =>
    rw [declaredField?_listField _ key] at declared
    split at declared
    · rename_i here
      cases declared
      exact .inr (here ▸ marked)
    · exact .inl declared
  | retarget =>
    rw [retarget_eq] at declared
    exact .inl declared
  | define | declareMethod | body | handles | attach | detach => exact .inl declared

/-- Declarations last. -/
theorem Step.declaredMethod?_kept {before after : Program} (step : Step before after)
    {method : MethodId} {entry : TypeId × UInt32} (declared : before.declaredMethod? method = some entry) :
    after.declaredMethod? method = some entry := by
  cases step with
  | grow growth => rw [growth.sameDefinitions.methods, declared]
  | declareMethod key _ fresh _ =>
    rw [declaredMethod?_listMethod _ key, if_neg, declared]
    rintro rfl
    rw [declaredMethod?, fresh] at declared
    cases declared
  | body => rw [(sameDefinitions_addBody _ _ _).methods, declared]
  | attach => rw [(sameDefinitions_attach _ _ _ _ _).methods, declared]
  | detach => rw [(sameDefinitions_detach _ _ _).methods, declared]
  | retarget =>
    rw [retarget_eq]
    exact declared
  | define | declareField | handles => exact declared

theorem Step.declaredField?_kept {before after : Program} (step : Step before after)
    {field : FieldId} {entry : TypeId × UInt32} (declared : before.declaredField? field = some entry) :
    after.declaredField? field = some entry := by
  cases step with
  | grow growth => rw [growth.sameDefinitions.fields, declared]
  | declareField key _ fresh _ =>
    rw [declaredField?_listField _ key, if_neg, declared]
    rintro rfl
    rw [declaredField?, fresh] at declared
    cases declared
  | retarget =>
    rw [retarget_eq]
    exact declared
  | define | declareMethod | body | handles | attach | detach => exact declared

end Program

end ClassImage
