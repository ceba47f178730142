import ClassImage.Proofs.Merge.Lasting
import ClassImage.Proofs.Program.Targets

/-!
The tables of a program agree with each other, and what they say stays. A lookup
is the inverse of its table, so a symbol is found under its key and under no
other. The order of definitions lists the
defined types, and a definition lists the declared members of its type; only a
method that may have code has a body. Every step adds to this and takes nothing
back: a handle keeps its key, a type stays defined, and a marker, a declaration
or a body that is there remains.
-/

namespace ClassImage

namespace Access

theorem isSet_or (flags left right : UInt32) :
    isSet flags (left ||| right) = (isSet flags left || isSet flags right) := by
  have spread : flags &&& (left ||| right) = flags &&& left ||| flags &&& right :=
    UInt32.eq_of_toBitVec_eq BitVec.and_or_distrib_left
  unfold isSet
  rw [spread, Bool.eq_iff_iff]
  simp only [bne_iff_ne, ne_eq, UInt32.or_eq_zero_iff, Bool.or_eq_true]
  exact not_and_or

end Access

namespace Program

/-- Lookups, lists and entries agree. -/
structure Registered (program : Program) : Prop where
  lookups : program.Indexed
  types : ∀ descriptor id,
    program.findType? descriptor = some id ↔ program.descriptor? id = some descriptor
  methods : ∀ owner name signature id, program.findMethod? owner name signature = some id ↔
    program.methodKey? id = some (owner, name, signature)
  fields : ∀ owner name type id, program.findField? owner name type = some id ↔
    program.fieldKey? id = some (owner, name, type)
  oneType : ∀ {first second descriptor}, program.descriptor? first = some descriptor →
    program.descriptor? second = some descriptor → first = second
  oneMethod : ∀ {first second key}, program.methodKey? first = some key →
    program.methodKey? second = some key → first = second
  oneField : ∀ {first second key}, program.fieldKey? first = some key →
    program.fieldKey? second = some key → first = second
  defined : ∀ id, id ∈ program.defined ↔ (program.typeAt id).isDefined
  definedOnce : program.defined.toList.Nodup
  /-- A definition lists the methods of its type that are declared, each once. -/
  listedMethods : ∀ {id definition}, program.definition? id = some definition →
    definition.methods.toList.Nodup ∧ ∀ method, method ∈ definition.methods ↔
      (program.methodAt method).owner = id ∧ (program.methodAt method).declaration.isSome
  listedFields : ∀ {id definition}, program.definition? id = some definition →
    definition.fields.toList.Nodup ∧ ∀ field, field ∈ definition.fields ↔
      (program.fieldAt field).owner = id ∧ (program.fieldAt field).declaration.isSome
  bodies : ∀ {method body}, program.body? method = some body →
    ∃ access, (program.methodAt method).declaration = some access ∧
      ¬Access.isSet access Access.abstract ∧ ¬Access.isSet access Access.native

theorem declaredMethod?_exists {program : Program} {method : MethodId} {owner : TypeId} :
    (∃ access, program.declaredMethod? method = some (owner, access)) ↔
      (program.methodAt method).owner = owner ∧ (program.methodAt method).declaration.isSome := by
  unfold declaredMethod?
  cases (program.methodAt method).declaration <;> simp

theorem declaredField?_exists {program : Program} {field : FieldId} {owner : TypeId} :
    (∃ access, program.declaredField? field = some (owner, access)) ↔
      (program.fieldAt field).owner = owner ∧ (program.fieldAt field).declaration.isSome := by
  unfold declaredField?
  cases (program.fieldAt field).declaration <;> simp

theorem Steps.registered_all {program : Program} (steps : Steps {} program) : program.Registered := by
  have keys := steps.keysSound
  have definitions := steps.definitionsSound
  have bodies := steps.bodiesSound
  constructor
  · exact keys.indexed
  · exact keys.indexed.types
  · exact fun owner name signature => keys.indexed.methods (owner, name, signature)
  · exact fun owner name type => keys.indexed.fields (owner, name, type)
  · exact keys.types
  · exact keys.methods
  · exact keys.fields
  · exact definitions.defined
  · exact definitions.distinct
  · intro id definition found
    obtain ⟨distinct, exact⟩ := definitions.methods found
    refine ⟨distinct, ?_⟩
    intro method
    rw [exact, declaredMethod?_exists]
  · intro id definition found
    obtain ⟨distinct, exact⟩ := definitions.fields found
    refine ⟨distinct, ?_⟩
    intro field
    rw [exact, declaredField?_exists]
  · intro method body here
    obtain ⟨owner, -, -, access, -, declared, coded, -⟩ := bodies.declared here
    obtain ⟨flags, found, same⟩ := Option.map_eq_some_iff.mp declared
    have accessed : flags = access := congrArg Prod.snd same
    rw [Access.isSet_or, Bool.or_eq_true, not_or] at coded
    exact ⟨access, accessed ▸ found, coded⟩

/-- What a program says of its symbols, it still says later. -/
structure Retains (before after : Program) : Prop where
  types : ∀ {id descriptor}, before.descriptor? id = some descriptor →
    after.descriptor? id = some descriptor
  methods : ∀ {id key}, before.methodKey? id = some key → after.methodKey? id = some key
  fields : ∀ {id key}, before.fieldKey? id = some key → after.fieldKey? id = some key
  defined : ∀ {id}, (before.typeAt id).isDefined → (after.typeAt id).isDefined
  markers : ∀ {symbol static}, before.marker symbol = some static → after.marker symbol = some static
  methodDeclarations : ∀ {id access}, (before.methodAt id).declaration = some access →
    (after.methodAt id).declaration = some access
  fieldDeclarations : ∀ {id access}, (before.fieldAt id).declaration = some access →
    (after.fieldAt id).declaration = some access
  bodies : ∀ {method body}, before.body? method = some body →
    ∃ later, after.body? method = some later ∧ later.parameters = body.parameters

theorem Step.isDefined_kept {before after : Program} (step : Step before after) {id : TypeId}
    (defined : (before.definition? id).isSome) : (after.definition? id).isSome := by
  cases step with
  | grow growth =>
    rw [growth.sameDefinitions.definitions]
    exact defined
  | @define type name header object external known =>
    have inside := descriptor?_isSome.mp (Option.isSome_iff_exists.mpr ⟨_, object⟩)
    rw [definition?_addDefinition before header inside]
    split
    · rfl
    · exact defined
  | declareMethod => exact definition?_isSome_modifyDefinition defined
  | declareField => exact definition?_isSome_modifyDefinition defined
  | retarget =>
    rw [retarget_eq]
    exact defined
  | _ => exact defined

theorem Step.body?_kept {before after : Program} (step : Step before after) {method : MethodId}
    {body : Body} (here : before.body? method = some body) :
    ∃ later, after.body? method = some later ∧ later.parameters = body.parameters := by
  cases step with
  | grow growth => exact ⟨body, (growth.body? method).trans here, rfl⟩
  | declareMethod => exact ⟨body, by rw [body?_listMethod, here], rfl⟩
  | @body other access declared coded fresh =>
    have apart : method ≠ other := by
      intro same
      rw [same, fresh] at here
      cases here
    have known := methodKey?_isSome.mp (knowsMethod_of_declared
      (show before.declaredMethod? other = some (_, access) by rw [declaredMethod?, declared]; rfl))
    exact ⟨body, by rw [body?_addBody before known, if_neg apart, here], rfl⟩
  | attach =>
    rw [body?_attach, here]
    split
    · exact ⟨_, rfl, rfl⟩
    · exact ⟨_, rfl, rfl⟩
  | detach =>
    rw [body?_detach, here]
    split
    · exact ⟨_, rfl, rfl⟩
    · exact ⟨_, rfl, rfl⟩
  | retarget => exact ⟨body, by rw [body?_retarget, here], rfl⟩
  | _ => exact ⟨body, here, rfl⟩

theorem Steps.retains {before after : Program} (steps : Steps before after) : before.Retains after := by
  have lasts := steps.lasts
  constructor
  · exact lasts.more.types
  · exact lasts.more.methods
  · exact lasts.more.fields
  · intro id defined
    induction steps with
    | refl => exact defined
    | tail earlier step ih => exact step.isDefined_kept (ih (Steps.lasts earlier))
  · exact lasts.markers
  · intro id access declared
    have kept := lasts.methods (show before.declaredMethod? id = some (_, access) by
      rw [declaredMethod?, declared]; rfl)
    obtain ⟨flags, found, same⟩ := Option.map_eq_some_iff.mp kept
    exact found.trans (congrArg (some ∘ Prod.snd) same)
  · intro id access declared
    have kept := lasts.fields (show before.declaredField? id = some (_, access) by
      rw [declaredField?, declared]; rfl)
    obtain ⟨flags, found, same⟩ := Option.map_eq_some_iff.mp kept
    exact found.trans (congrArg (some ∘ Prod.snd) same)
  · intro method body here
    induction steps with
    | refl => exact ⟨body, here, rfl⟩
    | tail earlier step ih =>
      obtain ⟨middle, there, same⟩ := ih (Steps.lasts earlier)
      obtain ⟨last, found, kept⟩ := step.body?_kept there
      exact ⟨last, found, kept.trans same⟩

end Program

namespace Session

open Program

theorem Leads.steps {session later : Session} (leads : session.Leads later)
    (reached : session.Reachable) : Steps session.program later.program := by
  induction leads with
  | refl => exact .refl
  | next earlier allowed ih =>
    have moved := ((earlier.reachable reached).sound.perform allowed).1
    exact ih.trans (Change.all_steps moved)

/-- In every reachable session the lookups are the inverses of the tables and the lists of types and
members are complete, and whatever a client does later, nothing of it is taken back. -/
theorem Reachable.registered {session : Session} (reached : session.Reachable) :
    session.program.Registered ∧
      ∀ later, session.Leads later → session.program.Retains later.program :=
  ⟨reached.steps.registered_all, fun _ leads => (leads.steps reached).retains⟩

/-- The only instruction that ends the method is removed; the method keeps its body and its key. -/
theorem registered_recursive :
    recursive.program.methodLookup.find? (⟨0⟩, "f", ⟨[], .void⟩) = some ⟨0⟩ ∧
      (recursive.program.body? ⟨0⟩).isSome ∧
      ((recursive.perform (.remove ⟨1⟩)).program.body? ⟨0⟩).isSome ∧
      (recursive.perform (.remove ⟨1⟩)).program.methodKey? ⟨0⟩ = some (⟨0⟩, "f", ⟨[], .void⟩) := by
  obtain ⟨registered, retained⟩ := Reachable.registered recursive_reachable
  have key : recursive.program.methodKey? ⟨0⟩ = some (⟨0⟩, "f", ⟨[], .void⟩) := by decide +kernel
  have coded : (recursive.program.body? ⟨0⟩).isSome := by decide +kernel
  have removed : recursive.Leads (recursive.perform (.remove ⟨1⟩)) := .next .refl trivial
  obtain ⟨body, here⟩ := Option.isSome_iff_exists.mp coded
  obtain ⟨later, there, -⟩ := (retained _ removed).bodies here
  exact ⟨(registered.lookups.methods _ _).mpr key, coded, Option.isSome_iff_exists.mpr ⟨later, there⟩,
    (retained _ removed).methods key⟩

end Session

end ClassImage
