import ClassImage.Proofs.Program.Operands

/-!
The single changes that edits are made of, with what holds before each of them.
Growth adds to the tables of symbols, or says more about a symbol, and leaves
definitions and code alone. The other steps define types, declare members, open
bodies, and attach, detach and turn instructions. What every step preserves
holds in every program that edits lead to.
-/

namespace ClassImage

namespace Program

/-- The types that a header refers to are known. -/
def Knows (program : Program) (header : Header) : Prop :=
  (∀ type, header.superclass = some type → (program.descriptor? type).isSome) ∧
    ∀ type ∈ header.interfaces, (program.descriptor? type).isSome

/-- The kinds of a body's parameters: the receiver, unless the method is static, and the signature's. -/
def entryKinds (access : UInt32) (signature : Signature) : List ValueKind :=
  (if Access.isSet access Access.static then [] else [ValueKind.reference]) ++ signature.parameterKinds

inductive Growth : Program → Program → Prop
  | type {program : Program} {descriptor : Descriptor} (reference : descriptor.isReference)
      (fresh : program.findType? descriptor = none) : Growth program (program.addType descriptor)
  | interface {program : Program} {type : TypeId} {interface : Bool}
      (external : ¬(program.typeAt type).isDefined) :
      Growth program (program.setExternal type interface)
  | method {program : Program} {owner : TypeId} {name : String} {signature : Signature}
      {marker : Marker} (known : (program.descriptor? owner).isSome)
      (fresh : program.findMethod? owner name signature = none) :
      Growth program (program.addMethod owner name signature marker)
  | field {program : Program} {owner : TypeId} {name : String} {type : Descriptor} {marker : Marker}
      (known : (program.descriptor? owner).isSome) (value : ¬type.isVoid)
      (fresh : program.findField? owner name type = none) :
      Growth program (program.addField owner name type marker)
  | marker {program : Program} {symbol : Symbol} {static : Bool}
      (unknown : program.marker symbol = none)
      (fits : program.checkUses symbol static = .ok ()) :
      Growth program (program.setMarker symbol static)
  | slot {program : Program} : Growth program program.addLocal

inductive Step : Program → Program → Prop
  | grow {before after : Program} (growth : Growth before after) : Step before after
  | define {program : Program} {id : TypeId} {name : String} {header : Header}
      (object : program.descriptor? id = some (.object name))
      (external : ¬(program.typeAt id).isDefined) (known : program.Knows header) :
      Step program (program.addDefinition id header)
  | declareMethod {program : Program} {id : MethodId} {owner : TypeId} {name : String}
      {signature : Signature} {access : UInt32}
      (key : program.methodKey? id = some (owner, name, signature))
      (defined : (program.typeAt owner).isDefined)
      (fresh : (program.methodAt id).declaration = none)
      (marker : (program.methodAt id).marker = some (Access.isSet access Access.static)) :
      Step program (program.listMethod owner id access)
  | declareField {program : Program} {id : FieldId} {owner : TypeId} {name : String}
      {type : Descriptor} {access : UInt32}
      (key : program.fieldKey? id = some (owner, name, type))
      (defined : (program.typeAt owner).isDefined)
      (fresh : (program.fieldAt id).declaration = none)
      (marker : (program.fieldAt id).marker = some (Access.isSet access Access.static)) :
      Step program (program.listField owner id access)
  | body {program : Program} {method : MethodId} {access : UInt32}
      (declared : (program.methodAt method).declaration = some access)
      (coded : ¬Access.isSet access (Access.abstract ||| Access.native))
      (fresh : program.body? method = none) :
      Step program (program.addBody method
        (program.newLocals (entryKinds access (program.methodAt method).signature)))
  | handles {program : Program} {count : Nat} : Step program (program.addHandles count)
  | attach {program : Program} {method : MethodId} {body : Body} {position : Nat}
      {instruction : Instruction} (id : InstructionId) (here : program.body? method = some body)
      (place : position ≤ body.instructions.size) (issued : id.index < program.code.size)
      (latest : ∀ other slot, program.slot? other = some slot → other.index < id.index)
      (admitted : program.Admits instruction) (fits : program.Fits instruction)
      (locals : program.checkLocals method instruction = .ok ()) :
      Step program (program.attach method position id instruction)
  | detach {program : Program} {id : InstructionId} {slot : Slot}
      (attached : program.slot? id = some slot) : Step program (program.detach id slot)
  | retarget {program : Program} {branches : List InstructionId} {old new : InstructionId} :
      Step program (program.retarget branches old new)

section Keys

variable (program : Program)

theorem descriptor?_modify (place : Nat) (change : TypeEntry → TypeEntry)
    (same : ∀ entry, (change entry).descriptor = entry.descriptor) :
    { program with types := program.types.modify place change }.descriptor? = program.descriptor? := by
  funext id
  simp only [descriptor?, Array.getElem?_modify]
  split <;> cases program.types[id.index]? <;> simp [same]

theorem methodKey?_modify (place : Nat) (change : MethodEntry → MethodEntry)
    (same : ∀ entry, (change entry).owner = entry.owner ∧ (change entry).name = entry.name ∧
      (change entry).signature = entry.signature) :
    { program with methods := program.methods.modify place change }.methodKey? =
      program.methodKey? := by
  funext id
  simp only [methodKey?, Array.getElem?_modify]
  split <;> cases program.methods[id.index]? <;> simp [same]

theorem fieldKey?_modify (place : Nat) (change : FieldEntry → FieldEntry)
    (same : ∀ entry, (change entry).owner = entry.owner ∧ (change entry).name = entry.name ∧
      (change entry).type = entry.type) :
    { program with fields := program.fields.modify place change }.fieldKey? = program.fieldKey? := by
  funext id
  simp only [fieldKey?, Array.getElem?_modify]
  split <;> cases program.fields[id.index]? <;> simp [same]

theorem descriptor?_addType (descriptor : Descriptor) (id : TypeId) :
    (program.addType descriptor).descriptor? id =
      if id.index = program.types.size then some descriptor else program.descriptor? id := by
  simp only [descriptor?, addType, Array.getElem?_push]
  split <;> simp

theorem methodKey?_addMethod (owner : TypeId) (name : String) (signature : Signature)
    (marker : Marker) (id : MethodId) :
    (program.addMethod owner name signature marker).methodKey? id =
      if id.index = program.methods.size then some (owner, name, signature)
      else program.methodKey? id := by
  simp only [methodKey?, addMethod, Array.getElem?_push]
  split <;> simp

theorem fieldKey?_addField (owner : TypeId) (name : String) (type : Descriptor) (marker : Marker)
    (id : FieldId) :
    (program.addField owner name type marker).fieldKey? id =
      if id.index = program.fields.size then some (owner, name, type) else program.fieldKey? id := by
  simp only [fieldKey?, addField, Array.getElem?_push]
  split <;> simp

end Keys

theorem extends_addType (program : Program) (descriptor : Descriptor) :
    program.Extends (program.addType descriptor) := by
  refine ⟨?_, id, id⟩
  intro id other found
  have known := descriptor?_isSome.mp (Option.isSome_iff_exists.mpr ⟨other, found⟩)
  rw [descriptor?_addType, if_neg (by omega), found]

theorem extends_addMethod (program : Program) (owner : TypeId) (name : String) (signature : Signature)
    (marker : Marker) : program.Extends (program.addMethod owner name signature marker) := by
  refine ⟨id, ?_, id⟩
  intro id key found
  have known := methodKey?_isSome.mp (Option.isSome_iff_exists.mpr ⟨key, found⟩)
  rw [methodKey?_addMethod, if_neg (by omega), found]

theorem extends_addField (program : Program) (owner : TypeId) (name : String) (type : Descriptor)
    (marker : Marker) : program.Extends (program.addField owner name type marker) := by
  refine ⟨id, id, ?_⟩
  intro id key found
  have known := fieldKey?_isSome.mp (Option.isSome_iff_exists.mpr ⟨key, found⟩)
  rw [fieldKey?_addField, if_neg (by omega), found]

theorem sameKeys_setMarker (program : Program) (symbol : Symbol) (static : Bool) :
    program.SameKeys (program.setMarker symbol static) := by
  cases symbol with
  | type id => exact ⟨rfl, rfl, rfl, rfl⟩
  | method id =>
    refine ⟨rfl, ?_, rfl, rfl⟩
    exact methodKey?_modify program _ _ fun _ => ⟨rfl, rfl, rfl⟩
  | field id =>
    refine ⟨rfl, rfl, ?_, rfl⟩
    exact fieldKey?_modify program _ _ fun _ => ⟨rfl, rfl, rfl⟩

theorem sameKeys_setExternal (program : Program) (type : TypeId) (interface : Bool) :
    program.SameKeys (program.setExternal type interface) :=
  ⟨descriptor?_modify _ _ _ fun _ => rfl, rfl, rfl, rfl⟩

theorem sameKeys_addDefinition (program : Program) (type : TypeId) (header : Header) :
    program.SameKeys (program.addDefinition type header) :=
  ⟨descriptor?_modify _ _ _ fun _ => rfl, rfl, rfl, rfl⟩

theorem descriptor?_modifyDefinition (program : Program) (owner : TypeId)
    (change : Definition → Definition) :
    (program.modifyDefinition owner change).descriptor? = program.descriptor? := by
  apply descriptor?_modify
  intro entry
  split <;> rfl

theorem methodKey?_modifyBody (program : Program) (method : MethodId) (change : Body → Body) :
    (program.modifyBody method change).methodKey? = program.methodKey? :=
  methodKey?_modify _ _ _ fun _ => ⟨rfl, rfl, rfl⟩

/-- Turning branches touches nothing but code. -/
theorem retarget_eq (program : Program) (branches : List InstructionId) (old new : InstructionId) :
    program.retarget branches old new =
      { program with code := (program.retarget branches old new).code } := by
  induction branches generalizing program with
  | nil => rfl
  | cons branch branches ih =>
    unfold retarget at ih ⊢
    rw [List.foldl_cons, ih]

theorem sameKeys_listMethod (program : Program) (owner : TypeId) (id : MethodId) (access : UInt32) :
    program.SameKeys (program.listMethod owner id access) :=
  ⟨descriptor?_modifyDefinition _ _ _, methodKey?_modify _ _ _ fun _ => ⟨rfl, rfl, rfl⟩, rfl, rfl⟩

theorem sameKeys_listField (program : Program) (owner : TypeId) (id : FieldId) (access : UInt32) :
    program.SameKeys (program.listField owner id access) :=
  ⟨descriptor?_modifyDefinition _ _ _, rfl, fieldKey?_modify _ _ _ fun _ => ⟨rfl, rfl, rfl⟩, rfl⟩

theorem sameKeys_addBody (program : Program) (method : MethodId) (parameters : List Local) :
    program.SameKeys (program.addBody method parameters) :=
  ⟨rfl, methodKey?_modify _ _ _ fun _ => ⟨rfl, rfl, rfl⟩, rfl, rfl⟩

theorem sameKeys_addLocal (program : Program) : program.SameKeys program.addLocal :=
  ⟨rfl, rfl, rfl, rfl⟩

theorem sameKeys_addHandles (program : Program) (count : Nat) :
    program.SameKeys (program.addHandles count) :=
  ⟨rfl, rfl, rfl, rfl⟩

theorem sameKeys_attach (program : Program) (method : MethodId) (position : Nat) (id : InstructionId)
    (instruction : Instruction) : program.SameKeys (program.attach method position id instruction) :=
  ⟨rfl, methodKey?_modifyBody _ _ _, rfl, rfl⟩

theorem sameKeys_detach (program : Program) (id : InstructionId) (slot : Slot) :
    program.SameKeys (program.detach id slot) :=
  ⟨rfl, methodKey?_modifyBody _ _ _, rfl, rfl⟩

theorem sameKeys_retarget (program : Program) (branches : List InstructionId) (old new : InstructionId) :
    program.SameKeys (program.retarget branches old new) := by
  rw [retarget_eq]
  exact ⟨rfl, rfl, rfl, rfl⟩

theorem Growth.extends {before after : Program} (growth : Growth before after) :
    before.Extends after := by
  cases growth with
  | type => exact extends_addType _ _
  | interface => exact (sameKeys_setExternal _ _ _).extends
  | method => exact extends_addMethod _ _ _ _ _
  | field => exact extends_addField _ _ _ _ _
  | marker => exact (sameKeys_setMarker _ _ _).extends
  | slot => exact (sameKeys_addLocal _).extends

/-- Only growth adds handles. -/
theorem Step.growth_or_sameKeys {before after : Program} (step : Step before after) :
    Growth before after ∨ before.SameKeys after := by
  cases step with
  | grow growth => exact .inl growth
  | define => exact .inr (sameKeys_addDefinition _ _ _)
  | declareMethod => exact .inr (sameKeys_listMethod _ _ _ _)
  | declareField => exact .inr (sameKeys_listField _ _ _ _)
  | body => exact .inr (sameKeys_addBody _ _ _)
  | handles => exact .inr (sameKeys_addHandles _ _)
  | attach => exact .inr (sameKeys_attach _ _ _ _ _)
  | detach => exact .inr (sameKeys_detach _ _ _)
  | retarget => exact .inr (sameKeys_retarget _ _ _ _)

theorem Step.extends {before after : Program} (step : Step before after) : before.Extends after := by
  rcases step.growth_or_sameKeys with growth | same
  · exact growth.extends
  · exact same.extends

/-- The changes of a whole edit. -/
def Steps : Program → Program → Prop := Relation.ReflTransGen Step

def Growths : Program → Program → Prop := Relation.ReflTransGen Growth

theorem Extends.knowsHeader {before after : Program} (more : before.Extends after) {header : Header}
    (known : before.Knows header) : after.Knows header :=
  ⟨fun type here => more.knows (known.1 type here), fun type here => more.knows (known.2 type here)⟩

theorem Steps.extends {before after : Program} (steps : Steps before after) :
    before.Extends after := by
  induction steps with
  | refl => exact .refl before
  | tail _ step ih => exact ih.trans step.extends

theorem Growths.steps {before after : Program} (growths : Growths before after) :
    Steps before after := by
  induction growths with
  | refl => exact .refl
  | tail _ growth ih => exact ih.tail (.grow growth)

theorem Growths.extends {before after : Program} (growths : Growths before after) :
    before.Extends after :=
  growths.steps.extends

section Frame

variable {before after : Program}

theorem Growth.code (growth : Growth before after) : after.code = before.code := by
  cases growth with
  | @marker symbol static => cases symbol <;> rfl
  | _ => rfl

theorem Growth.uses (growth : Growth before after) : after.uses = before.uses := by
  cases growth with
  | @marker symbol static => cases symbol <;> rfl
  | _ => rfl

theorem Growth.body? (growth : Growth before after) (method : MethodId) :
    after.body? method = before.body? method := by
  cases growth with
  | @marker symbol static =>
    cases symbol with
    | method id =>
      simp only [Program.body?, methodAt, setMarker, Array.getD_modify]
      split <;> rfl
    | _ => rfl
  | method =>
    simp only [Program.body?, methodAt, addMethod, Array.getD_push]
    split
    · rename_i last
      simp [last]
      rfl
    · rfl
  | _ => rfl

theorem Growth.definition? (growth : Growth before after) (id : TypeId) :
    (after.typeAt id).definition? = (before.typeAt id).definition? := by
  cases growth with
  | type =>
    simp only [typeAt, addType, Array.getD_push]
    split
    · rename_i last
      simp [last]
      rfl
    · rfl
  | @interface type interface external =>
    simp only [typeAt, setExternal, Array.getD_modify]
    split
    · rename_i here
      have same : id = type := congrArg TypeId.mk here.1.symm
      simp only [TypeEntry.isDefined, Option.not_isSome_iff_eq_none, typeAt] at external
      rw [same, external]
      rfl
    · rfl
  | @marker symbol static => cases symbol <;> rfl
  | _ => rfl

theorem Growths.code (growths : Growths before after) : after.code = before.code := by
  induction growths with
  | refl => rfl
  | tail _ growth ih => rw [growth.code, ih]

theorem Growths.body? (growths : Growths before after) (method : MethodId) :
    after.body? method = before.body? method := by
  induction growths with
  | refl => rfl
  | tail _ growth ih => rw [growth.body?, ih]

theorem Growths.definition? (growths : Growths before after) (id : TypeId) :
    (after.typeAt id).definition? = (before.typeAt id).definition? := by
  induction growths with
  | refl => rfl
  | tail _ growth ih => rw [growth.definition?, ih]

theorem Growths.isDefined (growths : Growths before after) {id : TypeId}
    (defined : (before.typeAt id).isDefined) : (after.typeAt id).isDefined := by
  rw [TypeEntry.isDefined, growths.definition?]
  exact defined

end Frame

end Program

end ClassImage
