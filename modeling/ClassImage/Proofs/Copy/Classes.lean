import ClassImage.Proofs.Copy.Bodies
import ClassImage.Proofs.Copy.Declarations

/-!
Classes of a copy. All classes are declared before any code is loaded, each with
a header and members like those of the original and in the same order. Along the
way the methods that have code are listed, each of them once.
-/

namespace ClassImage

namespace Program

/-- The header of a class of the copy names the same types. -/
structure HeaderLike (program copy : Program) (header other : Header) : Prop where
  access : other.access = header.access
  superclass : Option.Rel (fun type id => program.Same copy (.type type) (.type id))
    header.superclass other.superclass
  interfaces : List.Forall₂ (fun type id => program.Same copy (.type type) (.type id))
    header.interfaces other.interfaces
  source : other.source = header.source

theorem HeaderLike.extends {program copy later : Program} {header other : Header}
    (like : program.HeaderLike copy header other) (more : copy.Extends later) :
    program.HeaderLike later header other where
  access := like.access
  superclass := rel_imp like.superclass fun _ _ same => same.extends more
  interfaces := like.interfaces.imp fun _ _ same => same.extends more
  source := like.source

theorem HeaderLike.knows {program copy : Program} {header other : Header}
    (like : program.HeaderLike copy header other) : copy.Knows other := by
  constructor
  · intro id here
    have related := like.superclass
    rw [here] at related
    generalize header.superclass = expected at related
    cases related with
    | some same => exact same.known
  · intro id member
    obtain ⟨type, -, same⟩ := forall₂_exists_left like.interfaces member
    exact same.known

/-- The copy has no definition of a type. -/
def Unclaimed (program copy : Program) (type : TypeId) : Prop :=
  ∀ id, program.Same copy (.type type) (.type id) → copy.definition? id = none

theorem Unclaimed.growths {program before after : Program} {type : TypeId}
    (unclaimed : program.Unclaimed before type) (follows : program.Follows before)
    (growths : Growths before after) : program.Unclaimed after type := by
  intro id same
  rw [growths.sameDefinitions.definitions]
  cases here : before.definition? id with
  | none => rfl
  | some definition =>
    obtain ⟨name, object⟩ := follows.orderly.definitions.objects here
    obtain ⟨_, named, found⟩ := same_type.mp same
    cases found.symm.trans (growths.extends.types object)
    rw [← here]
    exact unclaimed id (same_type.mpr ⟨_, named, object⟩)

/-- A class of the copy is like a definition, as far as these members go. -/
def Resembles (program copy : Program) (definition : Definition) (fields : List FieldId)
    (methods : List MethodId) (holder : TypeId) : Prop :=
  ∃ other, copy.definition? holder = some other ∧
    program.HeaderLike copy definition.toHeader other.toHeader ∧
    List.Forall₂ (program.FieldDeclared copy) fields other.fields.toList ∧
    List.Forall₂ (program.MethodDeclared copy) methods other.methods.toList

theorem Resembles.kept {program before after : Program} {kept : TypeId → Prop} {definition : Definition}
    {fields : List FieldId} {methods : List MethodId} {holder : TypeId}
    (keeps : Keeps kept before after) (here : kept holder)
    (like : program.Resembles before definition fields methods holder) :
    program.Resembles after definition fields methods holder := by
  obtain ⟨other, found, header, held, listed⟩ := like
  refine ⟨other, (keeps.definitions holder here).trans found, header.extends keeps.more, ?_, ?_⟩
  · exact held.imp fun _ _ declared => declared.kept keeps
  · exact listed.imp fun _ _ declared => declared.kept keeps

/-- A class of the copy is like a class of the original. -/
def ClassLike (program copy : Program) (type holder : TypeId) : Prop :=
  program.Same copy (.type type) (.type holder) ∧ ∃ definition,
    program.definition? type = some definition ∧
      program.Resembles copy definition definition.fields.toList definition.methods.toList holder

theorem ClassLike.kept {program before after : Program} {kept : TypeId → Prop} {type holder : TypeId}
    (keeps : Keeps kept before after)
    (defined : ∀ id, (before.definition? id).isSome → kept id)
    (like : program.ClassLike before type holder) : program.ClassLike after type holder := by
  obtain ⟨same, definition, found, resembles⟩ := like
  obtain ⟨other, there, -⟩ := id resembles
  refine ⟨same.extends keeps.more, definition, found, resembles.kept keeps (defined holder ?_)⟩
  rw [there]
  rfl

/-- The methods that a type declares. -/
def methodsOf (program : Program) (type : TypeId) : List MethodId :=
  match program.definition? type with
  | some definition => definition.methods.toList
  | none => []

theorem mem_methodsOf {program : Program} (sound : program.DefinitionsSound) {type : TypeId}
    {method : MethodId} :
    method ∈ program.methodsOf type ↔ ∃ access, program.declaredMethod? method = some (type, access) := by
  unfold methodsOf
  cases found : program.definition? type with
  | none =>
    simp only [List.not_mem_nil, false_iff, not_exists]
    intro access declared
    have defined := sound.methodOwners declared
    rw [found] at defined
    cases defined
  | some definition => exact Array.mem_toList_iff.trans ((sound.methods found).2 method)

/-- No method is declared twice. -/
theorem nodup_methodsOf {program : Program} (sound : program.DefinitionsSound) {types : List TypeId}
    (distinct : types.Nodup) : (types.flatMap program.methodsOf).Nodup := by
  refine List.nodup_flatMap.mpr ⟨?_, ?_⟩
  · intro type _
    unfold methodsOf
    cases found : program.definition? type with
    | none => exact .nil
    | some definition => exact (sound.methods found).1
  · apply distinct.imp
    intro first second apart method left right
    obtain ⟨_, here⟩ := (mem_methodsOf sound).mp left
    obtain ⟨_, there⟩ := (mem_methodsOf sound).mp right
    rw [here] at there
    exact apart (Prod.mk.inj (Option.some.inj there)).1

/-- The listed code is that of these methods. -/
structure Coded (program : Program) (final : Pool) (limits : Limits) (methods : List MethodId)
    (coded : List (MethodId × CodeItem)) (copy : Program) : Prop where
  bodies : ∀ entry ∈ coded, ∃ method ∈ methods, ∃ body, program.MethodDeclared copy method entry.1 ∧
    program.body? method = some body ∧ program.LoweredBody final limits method body entry.2
  complete : ∀ method ∈ methods, ∀ body, program.body? method = some body →
    ∃ entry ∈ coded, program.Same copy (.method method) (.method entry.1)
  distinct : (coded.map Prod.fst).Nodup

section Coded

variable {program : Program} {final : Pool} {limits : Limits} {methods others : List MethodId}
  {coded more : List (MethodId × CodeItem)} {copy later : Program}

theorem coded_nil (copy : Program) : program.Coded final limits [] [] copy :=
  ⟨by simp, by simp, .nil⟩

theorem Coded.kept {kept : TypeId → Prop} (keeps : Keeps kept copy later)
    (listed : program.Coded final limits methods coded copy) :
    program.Coded final limits methods coded later := by
  refine ⟨?_, ?_, listed.distinct⟩
  · intro entry member
    obtain ⟨method, inside, body, declared, here, lowered⟩ := listed.bodies entry member
    exact ⟨method, inside, body, declared.kept keeps, here, lowered⟩
  · intro method inside body here
    obtain ⟨entry, member, same⟩ := listed.complete method inside body here
    exact ⟨entry, member, same.extends keeps.more⟩

theorem Coded.append (sound : program.KeysSound) (distinct : (methods ++ others).Nodup)
    (left : program.Coded final limits methods coded copy)
    (right : program.Coded final limits others more copy) :
    program.Coded final limits (methods ++ others) (coded ++ more) copy := by
  refine ⟨?_, ?_, ?_⟩
  · intro entry member
    rcases List.mem_append.mp member with member | member
    · obtain ⟨method, inside, found⟩ := left.bodies entry member
      exact ⟨method, List.mem_append_left _ inside, found⟩
    · obtain ⟨method, inside, found⟩ := right.bodies entry member
      exact ⟨method, List.mem_append_right _ inside, found⟩
  · intro method inside body here
    rcases List.mem_append.mp inside with inside | inside
    · obtain ⟨entry, member, same⟩ := left.complete method inside body here
      exact ⟨entry, List.mem_append_left _ member, same⟩
    · obtain ⟨entry, member, same⟩ := right.complete method inside body here
      exact ⟨entry, List.mem_append_right _ member, same⟩
  · rw [List.map_append]
    refine List.nodup_append.mpr ⟨left.distinct, right.distinct, ?_⟩
    rintro id first _ second rfl
    obtain ⟨entry, member, same⟩ := List.mem_map.mp first
    obtain ⟨entry', member', same'⟩ := List.mem_map.mp second
    obtain ⟨method, inside, _, declared, -⟩ := left.bodies entry member
    obtain ⟨method', inside', _, declared', -⟩ := right.bodies entry' member'
    have twin := declared'.same
    rw [same', ← same] at twin
    cases Same.source_eq sound declared.same twin
    exact (List.nodup_append.mp distinct).2.2 method inside method inside' rfl

end Coded

end Program

namespace Edit

open Program

/-- A class that the copy does not have yet is defined. -/
theorem meets_define {program before : Program} {kept : TypeId → Prop} (sound : program.KeysSound)
    (follows : program.Follows before) {type : TypeId} {name : String} {header : Header}
    (named : program.descriptor? type = some (.object name))
    (unclaimed : program.Unclaimed before type) (known : before.Knows header)
    (free : ∀ id, kept id → (before.definition? id).isSome) :
    Meets (program.Adds kept) (define (.object name) header) before fun id after =>
      program.Same after (.type type) (.type id) ∧ before.definition? id = none ∧
        after.defined = before.defined.push id ∧ after.definition? id = some { header with } := by
  unfold define
  apply ((meets_type sound follows named).adds kept).bind
  rintro id middle - ⟨moved, same⟩
  have growths := Gains.growths moved
  obtain ⟨_, original, found⟩ := same_type.mp same
  cases named.symm.trans original
  have undefined : middle.definition? id = none := unclaimed.growths follows growths id same
  have earlier : before.definition? id = none :=
    (congrFun growths.sameDefinitions.definitions id).symm.trans undefined
  have outside : ¬(middle.typeAt id).isDefined := by
    change ¬(middle.definition? id).isSome = true
    rw [undefined]
    simp
  have step : Step middle (middle.addDefinition id header) :=
    .define found outside (growths.extends.knowsHeader known)
  have view := definition?_addDefinition middle header
    (descriptor?_isSome.mp (Option.isSome_iff_exists.mpr ⟨_, found⟩))
  refine .get_bind (.refuse_bind outside (.set_bind ?_ (.pure ?_)))
  · refine ⟨⟨step.extends, ?_, fun same => same, fun same => same⟩, ?_, rfl⟩
    · intro other here
      rw [view, if_neg]
      rintro rfl
      have defined := free other here
      rw [earlier] at defined
      cases defined
    · intro follows
      exact follows.of_members (.single step) rfl rfl rfl
  · refine ⟨same.extends step.extends, earlier, ?_, (view id).trans (if_pos rfl)⟩
    exact congrArg (Array.push · id) growths.sameDefinitions.defined

end Edit

namespace Loading.Context

open Program Edit

variable {context : Context} {program before : Program} {limits : Limits} {kept : TypeId → Prop}
  {type holder : TypeId} {definition : Definition} {written : ClassDef}

theorem meets_interface (sound : program.KeysSound) (legible : context.Legible program)
    (follows : program.Follows before) {index : UInt32} (named : context.image.pool.NamesType program index type)
    (known : (program.descriptor? type).isSome) :
    Meets program.Gains (context.interface index) before fun id after =>
      program.Same after (.type type) (.type id) := by
  apply (meets_type sound legible follows named known).bind
  intro id middle _ same
  apply (meets_markInterface id).bind
  rintro _ after moved -
  exact .pure (same.extends (Gains.extends moved))

theorem gives_source {index : Option UInt32} {text : Option String}
    (related : Option.Rel (fun text index => context.image.pool.text? index = some text) text index) :
    Gives (index.mapM context.text) before text := by
  cases related with
  | none => rfl
  | some meant => exact (gives_text meant).map some

section Headers

variable (sound : program.KeysSound) (legible : context.Legible program) (follows : program.Follows before)

include sound legible follows

theorem meets_superclass {type : Option TypeId} {index : Option UInt32}
    (lowered : Option.Rel (fun type index => context.image.pool.NamesType program index type) type index)
    (known : ∀ superclass, type = some superclass → (program.descriptor? superclass).isSome) :
    Meets program.Gains (index.mapM context.type) before fun found after =>
      Option.Rel (fun type id => program.Same after (.type type) (.type id)) type found :=
  .optional (rel_and_left lowered known) fun _ _ meant => meets_type sound legible follows meant.2 meant.1

theorem meets_interfaces {types : List TypeId} {indices : List UInt32}
    (lowered : List.Forall₂ (fun type index => context.image.pool.NamesType program index type) types indices)
    (known : ∀ type ∈ types, (program.descriptor? type).isSome) :
    Meets program.Gains (indices.mapM context.interface) before fun found after =>
      List.Forall₂ (fun type id => program.Same after (.type type) (.type id)) types found := by
  refine .mapM_each ((List.forall₂_and_left _ _).mpr ⟨known, lowered⟩) ?_ ?_
  · intro type id first last moved same
    exact same.extends (Gains.extends moved)
  · intro type index later meant moved
    exact meets_interface sound legible (Gains.follows moved follows) meant.2 meant.1

end Headers

theorem meets_defineClass (sound : program.KeysSound) (legible : context.Legible program)
    (defined : program.DefinitionsSound) (follows : program.Follows before)
    (found : program.definition? type = some definition)
    (lowered : program.LoweredDefinition context.image.pool limits type definition written)
    (unclaimed : program.Unclaimed before type) (free : ∀ id, kept id → (before.definition? id).isSome) :
    Meets (program.Adds kept) (context.defineClass written) before fun id after =>
      program.Same after (.type type) (.type id) ∧ before.definition? id = none ∧
        after.defined = before.defined.push id ∧ program.Resembles after definition [] [] id := by
  obtain ⟨extended, implemented⟩ := defined.headers found
  obtain ⟨name, object⟩ := defined.objects found
  refine .gives_bind (reads_of_names legible lowered.named object).gives ?_
  apply ((meets_superclass sound legible follows lowered.superclass extended).adds kept).bind
  rintro extends' first - ⟨moved, sameSuper⟩
  apply ((meets_interfaces sound legible (Gains.follows moved follows) lowered.interfaces implemented).adds kept).bind
  rintro implements second - ⟨onward, sameInterfaces⟩
  have growths := Gains.growths (moved.trans onward)
  have reached := Gains.follows (moved.trans onward) follows
  have more := Gains.extends onward
  have same : ∀ {type id}, program.Same first (.type type) (.type id) →
      program.Same second (.type type) (.type id) := fun here => here.extends more
  refine .gives_bind (gives_source lowered.source) ?_
  have header : program.HeaderLike second definition.toHeader
      ⟨written.access, extends', implements, definition.source⟩ :=
    ⟨lowered.access, rel_imp sameSuper fun _ _ => same, sameInterfaces, rfl⟩
  refine (Edit.meets_define sound reached object (unclaimed.growths follows growths) header.knows ?_).adapt.imp ?_
  · intro id here
    rw [growths.sameDefinitions.definitions]
    exact free id here
  · rintro id after moved ⟨self, absent, pushed, there⟩
    refine ⟨self, ?_, ?_, _, there, ?_, .nil, .nil⟩
    · rw [← growths.sameDefinitions.definitions, absent]
    · rw [pushed, growths.sameDefinitions.defined]
    · exact header.extends (Adds.of_moved moved).more

/-- A class of the copy is defined, and these of its members are declared. -/
structure Begun (program : Program) (type holder : TypeId) (definition : Definition)
    (defined : Array TypeId) (fields : List FieldId) (methods : List MethodId) (copy : Program) : Prop where
  follows : program.Follows copy
  same : program.Same copy (.type type) (.type holder)
  defined : copy.defined = defined
  like : program.Resembles copy definition fields methods holder

section Members

variable {defined : Array TypeId} {fields : List FieldId} {methods : List MethodId}

theorem Begun.gains {after : Program}
    (begun : Begun program type holder definition defined fields methods before)
    (moved : Relation.ReflTransGen program.Gains before after) :
    Begun program type holder definition defined fields methods after := by
  have adds : program.Adds (fun _ => True) before after :=
    Adds.of_moved (Relation.ReflTransGen.mono (fun _ _ gains => gains.adds _) _ _ moved)
  exact ⟨adds.follows begun.follows, begun.same.extends adds.more,
    (Gains.growths moved).sameDefinitions.defined.trans begun.defined, begun.like.kept adds.toKeeps trivial⟩

theorem meets_declareField (sound : program.KeysSound) (legible : context.Legible program)
    (markers : program.MarkersSound) {field : FieldId} {entry : FieldDef} {access : UInt32}
    (declared : program.declaredField? field = some (type, access))
    (lowered : program.LoweredField context.image.pool field entry) (absent : field ∉ fields)
    (begun : Begun program type holder definition defined fields methods before)
    (free : ¬kept holder) :
    Meets (program.Adds kept) (context.declareField holder entry) before fun _ after =>
      Begun program type holder definition defined (fields ++ [field]) methods after := by
  obtain ⟨⟨owner, name, held⟩, key⟩ := Option.isSome_iff_exists.mp (knowsField_of_declared declared)
  obtain ⟨declaration, own⟩ := declaredField?_eq_some.mp declared
  rw [(fieldKey?_fieldAt key).1] at own
  have flags : entry.access = access := by
    rw [lowered.access, declaration]
    rfl
  subst own
  apply ((meets_fieldKey sound legible begun.follows lowered.named key).adds kept).bind
  rintro ⟨_, _, _⟩ middle - ⟨moved, same, -⟩
  cases same
  have begun := begun.gains moved
  obtain ⟨other, here, header, listed, coded⟩ := begun.like
  have earlier : ∀ id ∈ other.fields,
      ∃ first, first ≠ field ∧ program.Same middle (.field first) (.field id) := by
    intro id member
    obtain ⟨first, inside, twin⟩ := forall₂_exists_left listed (Array.mem_toList_iff.mpr member)
    exact ⟨first, fun same => absent (same ▸ inside), twin.same⟩
  simp only [flags]
  refine (Edit.meets_declareField sound markers begun.follows key declared begun.same here earlier
    free).adapt.bind ?_
  rintro id after moved ⟨new, unchanged, there⟩
  have adds := Adds.of_moved moved
  refine .pure ⟨adds.follows begun.follows, begun.same.extends adds.more,
    unchanged.trans begun.defined, _, there, header.extends adds.more, ?_, ?_⟩
  · rw [Array.toList_push]
    exact List.rel_append (listed.imp fun _ _ declared => declared.kept adds.toKeeps) (.cons new .nil)
  · exact coded.imp fun _ _ declared => declared.kept adds.toKeeps

/-- The code that one method adds to the list. -/
theorem coded_single {method id : MethodId} {code : Option CodeItem} {copy : Program}
    (declared : program.MethodDeclared copy method id)
    (lowered : Option.Rel (program.LoweredBody context.image.pool limits method)
      (program.body? method) code) :
    program.Coded context.image.pool limits [method] (code.toList.map fun code => (id, code)) copy := by
  generalize here : program.body? method = body at lowered
  cases lowered with
  | none =>
    refine ⟨by simp, ?_, .nil⟩
    intro other member body found
    rw [List.mem_singleton.mp member, here] at found
    cases found
  | some lowered =>
    refine ⟨?_, ?_, List.nodup_singleton _⟩
    · intro entry member
      rw [List.mem_singleton.mp member]
      exact ⟨method, List.mem_singleton_self _, _, declared, here, lowered⟩
    · intro other member body found
      rw [List.mem_singleton.mp member]
      exact ⟨_, List.mem_singleton_self _, declared.same⟩

theorem meets_declareMethod (sound : program.KeysSound) (legible : context.Legible program)
    (markers : program.MarkersSound) {method : MethodId} {entry : MethodDef} {access : UInt32}
    {listed : List (MethodId × CodeItem)}
    (declared : program.declaredMethod? method = some (type, access))
    (lowered : program.LoweredMethod context.image.pool limits method entry)
    (distinct : (methods ++ [method]).Nodup)
    (begun : Begun program type holder definition defined fields methods before)
    (coded : program.Coded context.image.pool limits methods listed before) (free : ¬kept holder) :
    Meets (program.Adds kept) (context.declareMethod holder entry) before fun list after =>
      Begun program type holder definition defined fields (methods ++ [method]) after ∧
        program.Coded context.image.pool limits (methods ++ [method]) (listed ++ list) after := by
  obtain ⟨⟨owner, name, signature⟩, key⟩ := Option.isSome_iff_exists.mp (knowsMethod_of_declared declared)
  obtain ⟨declaration, own⟩ := declaredMethod?_eq_some.mp declared
  rw [(methodKey?_methodAt key).1] at own
  have flags : entry.access = access := by
    rw [lowered.access, declaration]
    rfl
  subst own
  apply ((meets_methodKey sound legible begun.follows lowered.named key).adds kept).bind
  rintro ⟨_, _, _⟩ middle before' ⟨moved, same, -⟩
  cases same
  have begun := begun.gains moved
  have coded := coded.kept (Adds.of_moved before').toKeeps
  obtain ⟨other, here, header, held, others⟩ := begun.like
  have absent : method ∉ methods := by
    intro inside
    exact (List.nodup_append.mp distinct).2.2 method inside method (List.mem_singleton_self _) rfl
  have earlier : ∀ id ∈ other.methods,
      ∃ first, first ≠ method ∧ program.Same middle (.method first) (.method id) := by
    intro id member
    obtain ⟨first, inside, twin⟩ := forall₂_exists_left others (Array.mem_toList_iff.mpr member)
    exact ⟨first, fun same => absent (same ▸ inside), twin.same⟩
  simp only [flags]
  refine (Edit.meets_declareMethod sound markers begun.follows key declared begun.same here earlier
    free).adapt.bind ?_
  rintro id after moved ⟨new, unchanged, there⟩
  have adds := Adds.of_moved moved
  refine .pure ⟨⟨adds.follows begun.follows, begun.same.extends adds.more,
    unchanged.trans begun.defined, _, there, header.extends adds.more, ?_, ?_⟩, ?_⟩
  · exact held.imp fun _ _ declared => declared.kept adds.toKeeps
  · rw [Array.toList_push]
    exact List.rel_append (others.imp fun _ _ declared => declared.kept adds.toKeeps) (.cons new .nil)
  · exact (coded.kept adds.toKeeps).append sound distinct (coded_single new lowered.code)

end Members

/-- A class that the copy does not have yet is declared like the original. -/
theorem meets_declareClass (sound : program.KeysSound) (legible : context.Legible program)
    (defined : program.DefinitionsSound) (markers : program.MarkersSound)
    (follows : program.Follows before)
    (lowered : program.LoweredClass context.image.pool limits type written)
    (unclaimed : program.Unclaimed before type) :
    Meets (program.Adds fun id => (before.definition? id).isSome) (context.declareClass written) before
      fun coded after => ∃ holder, after.defined = before.defined.push holder ∧
        program.ClassLike after type holder ∧
        program.Coded context.image.pool limits (program.methodsOf type) coded after := by
  obtain ⟨definition, found, lowered⟩ := lowered
  have declaredFields := (defined.fields found).2
  have declaredMethods := (defined.methods found).2
  apply (meets_defineClass sound legible defined follows found lowered unclaimed fun _ same => same).bind
  rintro holder first moved ⟨same, absent, pushed, like⟩
  have free : ¬(before.definition? holder).isSome := by simp [absent]
  have start : Begun program type holder definition (before.defined.push holder) [] [] first :=
    ⟨(Adds.of_moved moved).follows follows, same, pushed, like⟩
  refine (Meets.forM
    (fun done => Begun program type holder definition (before.defined.push holder) done [])
    lowered.fields start ?_).bind ?_
  · intro done field rest entry middle whole here _ begun
    obtain ⟨member, -, absent⟩ := notMem_of_split (defined.fields found).1 whole
    obtain ⟨access, declared⟩ := (declaredFields field).mp (Array.mem_toList_iff.mp member)
    exact meets_declareField sound legible markers declared here absent begun free
  · intro _ second _ begun
    refine (Meets.mapM (fun done values copy =>
      Begun program type holder definition (before.defined.push holder) definition.fields.toList done copy ∧
        program.Coded context.image.pool limits done values.flatten copy)
      lowered.methods ⟨begun, coded_nil second⟩ ?_).bind ?_
    · rintro done method rest values entry middle whole here _ ⟨begun, coded⟩
      obtain ⟨member, distinct, -⟩ := notMem_of_split (defined.methods found).1 whole
      obtain ⟨access, declared⟩ := (declaredMethods method).mp (Array.mem_toList_iff.mp member)
      apply (meets_declareMethod sound legible markers declared here distinct begun coded free).imp
      rintro list after - ⟨begun, coded⟩
      refine ⟨begun, ?_⟩
      rw [List.flatten_append, List.flatten_singleton]
      exact coded
    · rintro values after - ⟨begun, coded⟩
      have methods : program.methodsOf type = definition.methods.toList := by rw [methodsOf, found]
      refine .pure ⟨holder, begun.defined, ⟨begun.same, definition, found, begun.like⟩, ?_⟩
      rw [methods]
      exact coded

end Loading.Context

end ClassImage
