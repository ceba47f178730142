import ClassImage.Proofs.Copy.Classes
import ClassImage.Proofs.Merge.Symbols

/-!
Declaring a member twice. What the first run declares is declared in the final
program, so the second run can declare it as well, with the same access flags and
in the same order, in a class that is the counterpart of the first run's.
-/

namespace ClassImage

namespace Program

theorem known_of_definition? {program : Program} {type : TypeId} {definition : Definition}
    (found : program.definition? type = some definition) : (program.descriptor? type).isSome := by
  apply descriptor?_isSome.mpr
  by_contra outside
  rw [definition?, typeAt, Array.getD_eq_getD_getElem?, Array.getElem?_eq_none (by omega)] at found
  cases found

section Declared

variable {ι : Type} {before after : ι → Option (TypeId × UInt32)}
  (kept : ∀ {member entry}, before member = some entry → after member = some entry)
  {related again : ι → ι → Prop} {members others : List ι}
  (listed : List.Forall₂ (fun member id => (before member).isSome ∧ related member id) members others)

include kept listed

/-- Members that were declared still are. -/
theorem forall₂_declared (more : ∀ member id, related member id → again member id) :
    List.Forall₂ (fun member id => (after member).isSome ∧ again member id) members others := by
  apply listed.imp
  rintro member id ⟨declared, twin⟩
  obtain ⟨entry, declared⟩ := Option.isSome_iff_exists.mp declared
  exact ⟨by rw [kept declared]; rfl, more member id twin⟩

/-- A member that is not declared is none of those that are listed. -/
theorem apart_of_undeclared {new : ι} (fresh : after new = none) :
    ∀ id ∈ others, ∃ member, member ≠ new ∧ related member id := by
  intro id inside
  obtain ⟨member, -, declared, twin⟩ := forall₂_exists_left listed inside
  refine ⟨member, ?_, twin⟩
  rintro rfl
  obtain ⟨entry, declared⟩ := Option.isSome_iff_exists.mp declared
  rw [kept declared] at fresh
  cases fresh

end Declared

/-- A class that the first run is declaring, and its counterpart in the second run. -/
structure Matches (final source copy : Program) (type holder : TypeId) : Prop where
  same : final.Same copy (.type type) (.type holder)
  like : ∃ definition other, source.definition? type = some definition ∧
    copy.definition? holder = some other ∧
    final.HeaderLike copy definition.toHeader other.toHeader ∧
    List.Forall₂ (fun field id => (source.declaredField? field).isSome ∧ final.FieldDeclared copy field id)
      definition.fields.toList other.fields.toList ∧
    List.Forall₂ (fun method id => (source.declaredMethod? method).isSome ∧
        final.MethodDeclared copy method id)
      definition.methods.toList other.methods.toList

/-- One of these types declares the method. -/
def DeclaredIn (program : Program) (types : List TypeId) (method : MethodId) : Prop :=
  ∃ type ∈ types, ∃ access, program.declaredMethod? method = some (type, access)

/-- Code that the first run lists for a method of these types, and the second for its counterpart. -/
def CodedLike (final copy : Program) (types : List TypeId) (entry other : MethodId × CodeItem) : Prop :=
  other.2 = entry.2 ∧ final.MethodDeclared copy entry.1 other.1 ∧ final.DeclaredIn types entry.1

section Kept

variable {final source copy later after : Program} {free : TypeId → Prop} {type holder : TypeId}

theorem Matches.lasts (matched : Matches final source copy type holder) (lasts : source.Lasts later)
    (same : later.definition? type = source.definition? type) (keeps : Keeps free copy after)
    (there : after.definition? holder = copy.definition? holder) :
    Matches final later after type holder := by
  obtain ⟨definition, other, found, found', header, fields, methods⟩ := matched.like
  refine ⟨matched.same.extends keeps.more, definition, other, by rw [same, found], by rw [there, found'],
    header.extends keeps.more, ?_, ?_⟩
  · exact forall₂_declared lasts.fields fields fun _ _ declared => declared.kept keeps
  · exact forall₂_declared lasts.methods methods fun _ _ declared => declared.kept keeps

theorem CodedLike.lasts {types others : List TypeId} {entry other : MethodId × CodeItem}
    (like : CodedLike final copy types entry other) (keeps : Keeps free copy after)
    (more : ∀ type ∈ types, type ∈ others) : CodedLike final after others entry other := by
  obtain ⟨code, declared, type, member, owned⟩ := like
  exact ⟨code, declared.kept keeps, type, more type member, owned⟩

end Kept

/-- What declaring members of one class changes in the two programs. -/
structure Furnishes (final : Program) (kept : TypeId → Prop) (owner : TypeId)
    (source copy later after : Program) : Prop where
  lasts : source.Lasts later
  defined : later.defined = source.defined
  others : ∀ other, other ≠ owner → later.definition? other = source.definition? other
  adds : final.Adds kept copy after
  copyDefined : after.defined = copy.defined

section Furnishes

variable {final source copy later after last again : Program} {kept : TypeId → Prop} {owner : TypeId}

theorem Adds.refl (final : Program) (kept : TypeId → Prop) (copy : Program) : final.Adds kept copy copy :=
  .of_moved .refl

theorem Adds.trans (first : final.Adds kept copy after) (second : final.Adds kept after again) :
    final.Adds kept copy again :=
  .of_moved (.head first (.single second))

theorem Furnishes.refl : Furnishes final kept owner source copy source copy :=
  ⟨.refl source, rfl, fun _ _ => rfl, .refl _ _ _, rfl⟩

theorem Furnishes.trans (first : Furnishes final kept owner source copy later after)
    (second : Furnishes final kept owner later after last again) :
    Furnishes final kept owner source copy last again := by
  refine ⟨first.lasts.trans second.lasts, second.defined.trans first.defined, ?_,
    first.adds.trans second.adds, second.copyDefined.trans first.copyDefined⟩
  intro other apart
  rw [second.others other apart, first.others other apart]

theorem Grows.adds (grows : final.Grows source copy later after) (kept : TypeId → Prop) :
    final.Adds kept copy after :=
  .of_moved (Relation.ReflTransGen.mono (fun _ _ gains => gains.adds kept) _ _ grows.gained)

theorem Grows.furnishes (grows : final.Grows source copy later after) :
    Furnishes final kept owner source copy later after where
  lasts := grows.grown.lasts
  defined := grows.grown.sameDefinitions.defined
  others other _ := congrFun grows.grown.sameDefinitions.definitions other
  adds := grows.adds kept
  copyDefined := (Gains.growths grows.gained).sameDefinitions.defined

theorem Grows.matches (grows : final.Grows source copy later after) {type holder : TypeId}
    (matched : Matches final source copy type holder) : Matches final later after type holder :=
  matched.lasts grows.grown.lasts (congrFun grows.grown.sameDefinitions.definitions type)
    (grows.adds fun _ => True).toKeeps (congrFun (Gains.growths grows.gained).sameDefinitions.definitions holder)

end Furnishes

end Program

namespace Edit

open Program

variable {source : Program}

/-- What has happened when a class is defined. -/
theorem define_ran (indexed : source.Indexed) {descriptor : Descriptor} {header : Header} {id : TypeId} {later : Program}
    (ran : outcome (Edit.define descriptor header) source = (.ok id, later)) :
    ∃ name middle, descriptor = .object name ∧ Growths source middle ∧
      middle.descriptor? id = some descriptor ∧ middle.definition? id = none ∧
      later = middle.addDefinition id header := by
  have reached : Reaches (fun _ _ => True) (Edit.define descriptor header) source fun id after =>
      ∃ name middle, descriptor = .object name ∧ Growths source middle ∧
        middle.descriptor? id = some descriptor ∧ middle.definition? id = none ∧
        after = middle.addDefinition id header := by
    unfold Edit.define
    cases descriptor with
    | object name =>
      apply (reaches_type fun _ => trivial).bind
      rintro id middle - ⟨grown, found⟩
      refine .get_bind (.refuse_bind fun external => ?_)
      have absent := Option.not_isSome_iff_eq_none.mp external
      have keys := sameKeys_addDefinition middle id header
      exact .set_bind (fun indexed => indexed.of_sameKeys keys) (.single trivial) (.pure ⟨name, middle, rfl, grown, found, absent, rfl⟩)
    | _ => exact .throw
  exact (reached.ran indexed ran).2

theorem declareMethod_ran (indexed : source.Indexed) {owner : TypeId} {name : String} {signature : Signature} {access : UInt32}
    {id : MethodId} {later : Program} (known : (source.descriptor? owner).isSome)
    (ran : outcome (Edit.declareMethod owner name signature access) source = (.ok id, later)) :
    ∃ middle, Growths source middle ∧ middle.methodKey? id = some (owner, name, signature) ∧
      middle.declaredMethod? id = none ∧ later = middle.listMethod owner id access := by
  have reached : Reaches (fun _ _ => True) (Edit.declareMethod owner name signature access) source
      fun id after => ∃ middle, Growths source middle ∧
        middle.methodKey? id = some (owner, name, signature) ∧ middle.declaredMethod? id = none ∧
        after = middle.listMethod owner id access := by
    unfold Edit.declareMethod
    apply requireDefined_bind
    intro _
    apply (reaches_method known (fun _ => trivial) fun _ _ _ => trivial).bind
    rintro id middle - ⟨grown, key, -⟩
    refine .get_bind (.refuse_bind fun fresh => ?_)
    have absent : middle.declaredMethod? id = none :=
      Option.map_eq_none_iff.mpr (Option.not_isSome_iff_eq_none.mp fresh)
    have keys := sameKeys_listMethod middle owner id access
    exact .set_bind (fun indexed => indexed.of_sameKeys keys) (.single trivial) (.pure ⟨middle, grown, key, absent, rfl⟩)
  exact (reached.ran indexed ran).2

theorem declareField_ran (indexed : source.Indexed) {owner : TypeId} {name : String} {type : Descriptor} {access : UInt32}
    {id : FieldId} {later : Program} (known : (source.descriptor? owner).isSome)
    (ran : outcome (Edit.declareField owner name type access) source = (.ok id, later)) :
    ∃ middle, Growths source middle ∧ middle.fieldKey? id = some (owner, name, type) ∧
      middle.declaredField? id = none ∧ later = middle.listField owner id access := by
  have reached : Reaches (fun _ _ => True) (Edit.declareField owner name type access) source
      fun id after => ∃ middle, Growths source middle ∧
        middle.fieldKey? id = some (owner, name, type) ∧ middle.declaredField? id = none ∧
        after = middle.listField owner id access := by
    unfold Edit.declareField
    apply requireDefined_bind
    intro _
    apply (reaches_field known (fun _ => trivial) fun _ _ _ => trivial).bind
    rintro id middle - ⟨grown, key, -⟩
    refine .get_bind (.refuse_bind fun fresh => ?_)
    have absent : middle.declaredField? id = none :=
      Option.map_eq_none_iff.mpr (Option.not_isSome_iff_eq_none.mp fresh)
    have keys := sameKeys_listField middle owner id access
    exact .set_bind (fun indexed => indexed.of_sameKeys keys) (.single trivial) (.pure ⟨middle, grown, key, absent, rfl⟩)
  exact (reached.ran indexed ran).2

section Declare

variable {final copy : Program} {kept : TypeId → Prop} {owner holder : TypeId} {name : String}
  {access : UInt32} (sound : final.KeysSound) (markers : final.MarkersSound)
  (follows : final.Follows copy) (matched : Matches final source copy owner holder)
  (free : ¬kept holder)

include sound markers follows matched free

theorem repeats_declareField {type : Descriptor} :
    Repeats final (Edit.declareField owner name type access) (Edit.declareField holder name type access)
      source copy fun _ _ later after =>
        Furnishes final kept owner source copy later after ∧ Matches final later after owner holder := by
  intro indexed id later ran lasts
  obtain ⟨definition, other, here, there, header, fields, methods⟩ := matched.like
  obtain ⟨middle, grown, key, fresh, rfl⟩ := declareField_ran indexed (known_of_definition? here) ran
  have undeclared : (middle.fieldAt id).declaration = none := Option.map_eq_none_iff.mp fresh
  have onward := grown.lasts.trans (lasts_listField middle undeclared owner access)
  have listed := declaredField?_listField _ key access
  have named := (lasts_listField middle undeclared owner access).more.fields key
  have earlier : ∀ entry ∈ other.fields,
      ∃ first, first ≠ id ∧ final.Same copy (.field first) (.field entry) := by
    intro entry member
    obtain ⟨first, apart, twin⟩ :=
      apart_of_undeclared grown.lasts.fields fields fresh entry (Array.mem_toList_iff.mpr member)
    exact ⟨first, apart, twin.same⟩
  have declared : final.declaredField? id = some (owner, access) :=
    lasts.fields ((listed id).trans (if_pos rfl))
  obtain ⟨again, after, done, moved, new, unchanged, found⟩ := Edit.meets_declareField sound markers follows
    (lasts.more.fields named) declared matched.same there earlier free
  have adds := Adds.of_moved moved
  have view := definition?_modifyDefinition { middle with
    fields := middle.fields.modify id.index fun entry => { entry with declaration := some access } }
    owner fun definition => { definition with fields := definition.fields.push id }
  have same : ∀ type, middle.definition? type = source.definition? type :=
    congrFun grown.sameDefinitions.definitions
  have keys := sameKeys_listField middle owner id access
  refine ⟨(grown.steps.indexed indexed).of_sameKeys keys, again, after, done, ⟨onward, grown.sameDefinitions.defined, ?_, adds, unchanged⟩,
    matched.same.extends adds.more, { definition with fields := definition.fields.push id }, _, ?_, found,
    header.extends adds.more, ?_, ?_⟩
  · intro type apart
    exact ((view type).trans (if_neg apart)).trans (same type)
  · refine (view owner).trans ((if_pos rfl).trans ?_)
    exact congrArg (Option.map _) ((same owner).trans here)
  · rw [Array.toList_push, Array.toList_push]
    refine List.rel_append ?_ (.cons ⟨by rw [listed, if_pos rfl]; rfl, new⟩ .nil)
    exact forall₂_declared onward.fields fields fun _ _ twin => twin.kept adds.toKeeps
  · exact forall₂_declared onward.methods methods fun _ _ twin => twin.kept adds.toKeeps

theorem repeats_declareMethod {signature : Signature} :
    Repeats final (Edit.declareMethod owner name signature access)
      (Edit.declareMethod holder name signature access) source copy fun method id later after =>
        Furnishes final kept owner source copy later after ∧ Matches final later after owner holder ∧
          final.MethodDeclared after method id ∧ final.declaredMethod? method = some (owner, access) := by
  intro indexed id later ran lasts
  obtain ⟨definition, other, here, there, header, fields, methods⟩ := matched.like
  obtain ⟨middle, grown, key, fresh, rfl⟩ := declareMethod_ran indexed (known_of_definition? here) ran
  have undeclared : (middle.methodAt id).declaration = none := Option.map_eq_none_iff.mp fresh
  have onward := grown.lasts.trans (lasts_listMethod middle undeclared owner access)
  have listed := declaredMethod?_listMethod _ key access
  have named := (lasts_listMethod middle undeclared owner access).more.methods key
  have earlier : ∀ entry ∈ other.methods,
      ∃ first, first ≠ id ∧ final.Same copy (.method first) (.method entry) := by
    intro entry member
    obtain ⟨first, apart, twin⟩ :=
      apart_of_undeclared grown.lasts.methods methods fresh entry (Array.mem_toList_iff.mpr member)
    exact ⟨first, apart, twin.same⟩
  have declared : final.declaredMethod? id = some (owner, access) :=
    lasts.methods ((listed id).trans (if_pos rfl))
  obtain ⟨again, after, done, moved, new, unchanged, found⟩ := Edit.meets_declareMethod sound markers follows
    (lasts.more.methods named) declared matched.same there earlier free
  have adds := Adds.of_moved moved
  have view := definition?_modifyDefinition { middle with
    methods := middle.methods.modify id.index fun entry => { entry with declaration := some access } }
    owner fun definition => { definition with methods := definition.methods.push id }
  have same : ∀ type, middle.definition? type = source.definition? type :=
    congrFun grown.sameDefinitions.definitions
  have keys := sameKeys_listMethod middle owner id access
  refine ⟨(grown.steps.indexed indexed).of_sameKeys keys, again, after, done, ⟨onward, grown.sameDefinitions.defined, ?_, adds, unchanged⟩,
    ⟨matched.same.extends adds.more, { definition with methods := definition.methods.push id }, _, ?_, found,
    header.extends adds.more, ?_, ?_⟩, new, declared⟩
  · intro type apart
    exact ((view type).trans (if_neg apart)).trans (same type)
  · refine (view owner).trans ((if_pos rfl).trans ?_)
    exact congrArg (Option.map _) ((same owner).trans here)
  · exact forall₂_declared onward.fields fields fun _ _ twin => twin.kept adds.toKeeps
  · rw [Array.toList_push, Array.toList_push]
    refine List.rel_append ?_ (.cons ⟨by rw [listed, if_pos rfl]; rfl, new⟩ .nil)
    exact forall₂_declared onward.methods methods fun _ _ twin => twin.kept adds.toKeeps

end Declare

end Edit

end ClassImage
