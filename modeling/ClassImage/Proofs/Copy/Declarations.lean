import ClassImage.Proofs.Copy.Members

/-!
Declaring the members of a copy. A member is declared with the access flags of
the original, at the end of the list of its owner, and no member is declared a
second time as long as those of the original are distinct.
-/

namespace ClassImage

namespace Program

/-- Declarations stay, and so do the definitions that are to be kept. -/
structure Keeps (kept : TypeId → Prop) (before after : Program) : Prop where
  more : before.Extends after
  definitions : ∀ type, kept type → after.definition? type = before.definition? type
  methods : ∀ {method entry}, before.declaredMethod? method = some entry →
    after.declaredMethod? method = some entry
  fields : ∀ {field entry}, before.declaredField? field = some entry →
    after.declaredField? field = some entry

theorem Keeps.refl (kept : TypeId → Prop) (program : Program) : Keeps kept program program :=
  ⟨.refl program, fun _ _ => rfl, id, id⟩

theorem Keeps.trans {first second third : Program} {kept wider : TypeId → Prop}
    (left : Keeps kept first second) (right : Keeps wider second third)
    (within : ∀ type, kept type → wider type) : Keeps kept first third where
  more := left.more.trans right.more
  definitions type here := (right.definitions type (within type here)).trans (left.definitions type here)
  methods := right.methods ∘ left.methods
  fields := right.fields ∘ left.fields

/-- Changes that declare types and members of a copy and leave code alone. -/
structure Adds (program : Program) (kept : TypeId → Prop) (before after : Program) : Prop
    extends Keeps kept before after where
  follows : program.Follows before → program.Follows after
  bodies : after.body? = before.body?

theorem Adds.of_moved {program before after : Program} {kept : TypeId → Prop}
    (moved : Relation.ReflTransGen (program.Adds kept) before after) :
    program.Adds kept before after := by
  induction moved with
  | refl => exact ⟨.refl kept before, id, rfl⟩
  | tail _ adds ih =>
    exact ⟨ih.toKeeps.trans adds.toKeeps fun _ same => same, adds.follows ∘ ih.follows,
      adds.bodies.trans ih.bodies⟩

theorem Gains.adds {program before after : Program} (kept : TypeId → Prop)
    (gains : program.Gains before after) : program.Adds kept before after where
  follows := gains.2
  more := gains.1.extends
  bodies := funext gains.1.body?
  definitions type _ := congrFun gains.1.sameDefinitions.definitions type
  methods := by
    rw [gains.1.sameDefinitions.methods]
    exact id
  fields := by
    rw [gains.1.sameDefinitions.fields]
    exact id

/-- A method of the copy is declared as the original is. -/
structure MethodDeclared (program copy : Program) (method other : MethodId) : Prop where
  same : program.Same copy (.method method) (.method other)
  access : ∃ owner holder access, program.declaredMethod? method = some (owner, access) ∧
    copy.declaredMethod? other = some (holder, access)

structure FieldDeclared (program copy : Program) (field other : FieldId) : Prop where
  same : program.Same copy (.field field) (.field other)
  access : ∃ owner holder access, program.declaredField? field = some (owner, access) ∧
    copy.declaredField? other = some (holder, access)

theorem MethodDeclared.declaration {program copy : Program} {method other : MethodId}
    (declared : program.MethodDeclared copy method other) :
    ∃ access, (program.methodAt method).declaration = some access ∧
      (copy.methodAt other).declaration = some access := by
  obtain ⟨_, _, access, original, there⟩ := declared.access
  exact ⟨access, (declaredMethod?_eq_some.mp original).1, (declaredMethod?_eq_some.mp there).1⟩

theorem FieldDeclared.declaration {program copy : Program} {field other : FieldId}
    (declared : program.FieldDeclared copy field other) :
    ∃ access, (program.fieldAt field).declaration = some access ∧
      (copy.fieldAt other).declaration = some access := by
  obtain ⟨_, _, access, original, there⟩ := declared.access
  exact ⟨access, (declaredField?_eq_some.mp original).1, (declaredField?_eq_some.mp there).1⟩

theorem MethodDeclared.kept {program before after : Program} {kept : TypeId → Prop}
    (keeps : Keeps kept before after) {method other : MethodId}
    (declared : program.MethodDeclared before method other) : program.MethodDeclared after method other := by
  obtain ⟨owner, holder, access, original, there⟩ := declared.access
  exact ⟨declared.same.extends keeps.more, owner, holder, access, original, keeps.methods there⟩

theorem FieldDeclared.kept {program before after : Program} {kept : TypeId → Prop}
    (keeps : Keeps kept before after) {field other : FieldId}
    (declared : program.FieldDeclared before field other) : program.FieldDeclared after field other := by
  obtain ⟨owner, holder, access, original, there⟩ := declared.access
  exact ⟨declared.same.extends keeps.more, owner, holder, access, original, keeps.fields there⟩

section Listing

variable {program copy : Program} {kept : TypeId → Prop} {owner : TypeId} {access : UInt32}

theorem adds_listMethod {id : MethodId} {name : String} {signature : Signature}
    (key : copy.methodKey? id = some (owner, name, signature))
    (defined : (copy.definition? owner).isSome) (fresh : copy.declaredMethod? id = none)
    (marked : copy.marker (.method id) = some (Access.isSet access Access.static))
    (free : ¬kept owner) : program.Adds kept copy (copy.listMethod owner id access) := by
  have undeclared : (copy.methodAt id).declaration = none := Option.map_eq_none_iff.mp fresh
  have step : Step copy (copy.listMethod owner id access) := .declareMethod key defined undeclared marked
  refine ⟨⟨step.extends, ?_, step.declaredMethod?_kept, fun same => same⟩, ?_, body?_listMethod _ _ _ _⟩
  · intro type here
    rw [listMethod, definition?_modifyDefinition, if_neg]
    · rfl
    · rintro rfl
      exact free here
  · intro follows
    refine follows.of_members (.single step) ?_ rfl (marker_listMethod _ _ _ _)
    exact methodKey?_modify _ _ _ fun _ => ⟨rfl, rfl, rfl⟩

theorem adds_listField {id : FieldId} {name : String} {type : Descriptor}
    (key : copy.fieldKey? id = some (owner, name, type))
    (defined : (copy.definition? owner).isSome) (fresh : copy.declaredField? id = none)
    (marked : copy.marker (.field id) = some (Access.isSet access Access.static))
    (free : ¬kept owner) : program.Adds kept copy (copy.listField owner id access) := by
  have undeclared : (copy.fieldAt id).declaration = none := Option.map_eq_none_iff.mp fresh
  have step : Step copy (copy.listField owner id access) := .declareField key defined undeclared marked
  refine ⟨⟨step.extends, ?_, fun same => same, ?_⟩, ?_, rfl⟩
  · intro other here
    rw [listField, definition?_modifyDefinition, if_neg]
    · rfl
    · rintro rfl
      exact free here
  · intro field entry declared
    rw [declaredField?_listField _ key, if_neg, declared]
    rintro rfl
    rw [fresh] at declared
    cases declared
  · intro follows
    refine follows.of_members (.single step) rfl ?_ (marker_listField _ _ _ _)
    exact fieldKey?_modify _ _ _ fun _ => ⟨rfl, rfl, rfl⟩

end Listing

end Program

namespace Edit

open Program

theorem Meets.adds {program before : Program} {edit : Edit α} {goal : α → Program → Prop}
    (meets : Meets program.Gains edit before goal) (kept : TypeId → Prop) :
    Meets (program.Adds kept) edit before fun value after =>
      Relation.ReflTransGen program.Gains before after ∧ goal value after :=
  meets.with_moves.mono fun _ _ gains => gains.adds kept

variable {program before : Program} {kept : TypeId → Prop} {owner holder : TypeId} {name : String}
  {access : UInt32} {definition : Definition}

theorem gives_requireDefined (defined : (before.definition? holder).isSome) :
    Gives (requireDefined holder) before () := by
  unfold Gives requireDefined
  rw [ClassImage.get_bind]
  exact outcome_refuse_ok.mpr ⟨not_not.mpr defined, rfl⟩

theorem meets_declareMethod (sound : program.KeysSound) (markers : program.MarkersSound)
    (follows : program.Follows before) {method : MethodId} {signature : Signature}
    (key : program.methodKey? method = some (owner, name, signature))
    (declared : program.declaredMethod? method = some (owner, access))
    (owned : program.Same before (.type owner) (.type holder))
    (found : before.definition? holder = some definition)
    (earlier : ∀ other ∈ definition.methods,
      ∃ first, first ≠ method ∧ program.Same before (.method first) (.method other))
    (free : ¬kept holder) :
    Meets (program.Adds kept) (declareMethod holder name signature access) before fun id after =>
      program.MethodDeclared after method id ∧ after.defined = before.defined ∧
        after.definition? holder = some { definition with methods := definition.methods.push id } := by
  have marked := markers.methods declared
  refine .gives_bind (gives_requireDefined (by rw [found]; rfl)) ?_
  apply ((meets_method sound follows key marked owned).adds kept).bind
  rintro id middle - ⟨moved, same, there⟩
  have growths := Gains.growths moved
  have reached := Gains.follows moved follows
  have here : middle.definition? holder = some definition :=
    (congrFun growths.sameDefinitions.definitions holder).trans found
  have fresh : middle.declaredMethod? id = none := by
    by_contra already
    obtain ⟨⟨other, flags⟩, listed⟩ := Option.ne_none_iff_exists'.mp already
    have own : other = holder := by
      rw [← (declaredMethod?_eq_some.mp listed).2, (methodKey?_methodAt there).1]
    have member := ((reached.orderly.definitions.methods here).2 id).mpr ⟨flags, own ▸ listed⟩
    obtain ⟨first, apart, twin⟩ := earlier id member
    exact apart (Symbol.method.inj (Same.source_eq sound (twin.extends growths.extends) same))
  refine .get_bind (.refuse_bind ?_ ?_)
  · rw [Option.map_eq_none_iff.mp fresh]
    simp
  · have twin : middle.marker (.method id) = some (Access.isSet access Access.static) := by
      rw [reached.markers same, marked]
    have adds : program.Adds kept middle (middle.listMethod holder id access) :=
      adds_listMethod there (by rw [here]; rfl) fresh twin free
    refine .set_bind adds (.pure ⟨⟨same.extends adds.more, owner, holder, access, declared, ?_⟩, ?_, ?_⟩)
    · rw [declaredMethod?_listMethod _ there, if_pos rfl]
    · exact growths.sameDefinitions.defined
    · rw [listMethod, definition?_modifyDefinition, if_pos rfl]
      exact congrArg (Option.map _) here

theorem meets_declareField (sound : program.KeysSound) (markers : program.MarkersSound)
    (follows : program.Follows before) {field : FieldId} {type : Descriptor}
    (key : program.fieldKey? field = some (owner, name, type))
    (declared : program.declaredField? field = some (owner, access))
    (owned : program.Same before (.type owner) (.type holder))
    (found : before.definition? holder = some definition)
    (earlier : ∀ other ∈ definition.fields,
      ∃ first, first ≠ field ∧ program.Same before (.field first) (.field other))
    (free : ¬kept holder) :
    Meets (program.Adds kept) (declareField holder name type access) before fun id after =>
      program.FieldDeclared after field id ∧ after.defined = before.defined ∧
        after.definition? holder = some { definition with fields := definition.fields.push id } := by
  have marked := markers.fields declared
  refine .gives_bind (gives_requireDefined (by rw [found]; rfl)) ?_
  apply ((meets_field sound follows key marked owned).adds kept).bind
  rintro id middle - ⟨moved, same, there⟩
  have growths := Gains.growths moved
  have reached := Gains.follows moved follows
  have here : middle.definition? holder = some definition :=
    (congrFun growths.sameDefinitions.definitions holder).trans found
  have fresh : middle.declaredField? id = none := by
    by_contra already
    obtain ⟨⟨other, flags⟩, listed⟩ := Option.ne_none_iff_exists'.mp already
    have own : other = holder := by
      rw [← (declaredField?_eq_some.mp listed).2, (fieldKey?_fieldAt there).1]
    have member := ((reached.orderly.definitions.fields here).2 id).mpr ⟨flags, own ▸ listed⟩
    obtain ⟨first, apart, twin⟩ := earlier id member
    exact apart (Symbol.field.inj (Same.source_eq sound (twin.extends growths.extends) same))
  refine .get_bind (.refuse_bind ?_ ?_)
  · rw [Option.map_eq_none_iff.mp fresh]
    simp
  · have twin : middle.marker (.field id) = some (Access.isSet access Access.static) := by
      rw [reached.markers same, marked]
    have adds : program.Adds kept middle (middle.listField holder id access) :=
      adds_listField there (by rw [here]; rfl) fresh twin free
    refine .set_bind adds (.pure ⟨⟨same.extends adds.more, owner, holder, access, declared, ?_⟩, ?_, ?_⟩)
    · rw [declaredField?_listField _ there, if_pos rfl]
    · exact growths.sameDefinitions.defined
    · rw [listField, definition?_modifyDefinition, if_pos rfl]
      exact congrArg (Option.map _) here

end Edit

end ClassImage
