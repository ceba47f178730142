import ClassImage.Proofs.Copy.Classes

/-!
Copies of programs. An image of a program that is loaded into an empty one is
loaded without a fault, and the program that it leaves is a copy of the original:
its classes and their code are like those of the original, in the same order.
-/

namespace ClassImage

namespace Program

theorem Confined.keeps {before after : Program} {method : MethodId} (confined : Confined method before after) :
    Keeps (fun _ => True) before after where
  more := confined.more
  definitions type _ := congrFun confined.definitions.definitions type
  methods := by
    rw [confined.definitions.methods]
    exact id
  fields := by
    rw [confined.definitions.fields]
    exact id

/-- The program was made by steps and has classes and code like those of another, in the same order. -/
structure Copied (program copy : Program) : Prop where
  steps : Steps {} copy
  follows : program.Follows copy
  classes : List.Forall₂ (program.ClassLike copy) program.defined.toList copy.defined.toList
  bodies : ∀ {method other}, program.MethodDeclared copy method other →
    Option.Rel (fun body another => ∃ used, BodyLike program copy body another used)
      (program.body? method) (copy.body? other)

/-- Classes of a program that another has again, with bodies that are alike. -/
structure Echoes (program copy : Program) (alike : Body → Body → Prop) (types holders : List TypeId) :
    Prop where
  classes : List.Forall₂ (program.ClassLike copy) types holders
  bodies : ∀ {method other}, program.MethodDeclared copy method other →
    method ∈ types.flatMap program.methodsOf → Option.Rel alike (program.body? method) (copy.body? other)

theorem Copied.echoes {program copy : Program} (copied : program.Copied copy) :
    program.Echoes copy (fun body another => ∃ used, BodyLike program copy body another used)
      program.defined.toList copy.defined.toList :=
  ⟨copied.classes, fun declared _ => copied.bodies declared⟩

theorem follows_empty (program : Program) : program.Follows {} := by
  refine ⟨Steps.orderly .refl, ?_⟩
  rintro symbol other ⟨key, -, found⟩
  cases other with
  | type =>
    obtain ⟨descriptor, named, -⟩ := key?_type.mp found
    cases named
  | method =>
    obtain ⟨_, _, _, _, named, -⟩ := key?_method.mp found
    cases named
  | field =>
    obtain ⟨_, _, _, _, named, -⟩ := key?_field.mp found
    cases named

/-- The classes of some types are declared, and no code is loaded. -/
structure Announced (program : Program) (final : Pool) (limits : Limits) (types : List TypeId)
    (coded : List (MethodId × CodeItem)) (copy : Program) : Prop where
  follows : program.Follows copy
  classes : List.Forall₂ (program.ClassLike copy) types copy.defined.toList
  bodies : ∀ method, copy.body? method = none
  coded : program.Coded final limits (types.flatMap program.methodsOf) coded copy

/-- All classes are declared, and some of the code is loaded. -/
structure Loaded (program : Program) (final : Pool) (limits : Limits)
    (coded done : List (MethodId × CodeItem)) (copy : Program) : Prop where
  follows : program.Follows copy
  classes : List.Forall₂ (program.ClassLike copy) program.defined.toList copy.defined.toList
  coded : program.Coded final limits (program.defined.toList.flatMap program.methodsOf) coded copy
  filled : ∀ entry ∈ done, ∃ method body other used,
    program.Same copy (.method method) (.method entry.1) ∧ program.body? method = some body ∧
      copy.body? entry.1 = some other ∧ BodyLike program copy body other used
  empty : ∀ method, method ∉ done.map Prod.fst → copy.body? method = none

/-- The code of one method more is loaded. -/
theorem Loaded.snoc {program : Program} {final : Pool} {limits : Limits}
    {coded done : List (MethodId × CodeItem)} {copy after : Program} {method original : MethodId}
    {code : CodeItem} {body other : Body} {used : List Local}
    (loaded : program.Loaded final limits coded done copy) (fills : program.Fills method copy after)
    (absent : method ∉ done.map Prod.fst) (same : program.Same copy (.method original) (.method method))
    (here : program.body? original = some body) (there : after.body? method = some other)
    (like : BodyLike program after body other used) :
    program.Loaded final limits coded (done ++ [(method, code)]) after := by
  refine ⟨fills.follows loaded.follows, ?_, loaded.coded.kept fills.toConfined.keeps, ?_, ?_⟩
  · rw [fills.definitions.defined]
    exact loaded.classes.imp fun _ _ earlier => earlier.kept fills.toConfined.keeps fun _ _ => trivial
  · intro entry member
    rcases List.mem_append.mp member with earlier | last
    · obtain ⟨first, source, another, others, same, found, there, resembles⟩ := loaded.filled entry earlier
      have apart : entry.1 ≠ method := by
        rintro rfl
        exact absent (List.mem_map_of_mem earlier)
      exact ⟨first, source, another, others, same.extends fills.more, found,
        (fills.bodies _ apart).trans there, resembles.extends fills.more fills.slots⟩
    · rw [List.mem_singleton.mp last]
      exact ⟨original, body, other, used, same.extends fills.more, here, there, like⟩
  · intro another outside
    rw [List.map_append, List.mem_append, not_or] at outside
    rw [fills.bodies another]
    · exact loaded.empty another outside.1
    · rintro rfl
      exact outside.2 (by simp)

theorem Loaded.copied {program : Program} {final : Pool} {limits : Limits}
    {coded : List (MethodId × CodeItem)} {copy : Program} (sound : program.KeysSound)
    (defined : program.DefinitionsSound) (loaded : program.Loaded final limits coded coded copy)
    (steps : Steps {} copy) : program.Copied copy := by
  refine ⟨steps, loaded.follows, loaded.classes, ?_⟩
  intro method other declared
  cases here : program.body? method with
  | none =>
    rw [loaded.empty other]
    · exact .none
    · intro member
      obtain ⟨entry, inside, rfl⟩ := List.mem_map.mp member
      obtain ⟨first, body, _, _, same, found, -⟩ := loaded.filled entry inside
      cases Same.source_eq sound same declared.same
      rw [here] at found
      cases found
  | some body =>
    obtain ⟨owner, -, access, listed, -⟩ := declared.access
    have inside : method ∈ program.defined.toList.flatMap program.methodsOf := by
      refine List.mem_flatMap.mpr ⟨owner, ?_, (mem_methodsOf defined).mpr ⟨access, listed⟩⟩
      exact Array.mem_toList_iff.mpr ((defined.defined owner).mpr (defined.methodOwners listed))
    obtain ⟨entry, member, twin⟩ := loaded.coded.complete method inside body here
    cases Same.copy_eq loaded.follows.keysSound twin declared.same
    obtain ⟨first, _, another, used, same, found, there, like⟩ := loaded.filled entry member
    cases Same.source_eq sound same declared.same
    cases here.symm.trans found
    rw [there]
    exact .some ⟨used, like⟩

end Program

namespace Loading

open Program Edit

namespace Context

variable {context : Context} {program before : Program} {limits : Limits}

/-- A type that no declared class is like is unclaimed. -/
theorem unclaimed_of_classes {done : List TypeId} {type : TypeId} (sound : program.KeysSound)
    (follows : program.Follows before)
    (classes : List.Forall₂ (program.ClassLike before) done before.defined.toList)
    (absent : type ∉ done) : program.Unclaimed before type := by
  intro id same
  cases here : before.definition? id with
  | none => rfl
  | some definition =>
    have member := (follows.orderly.definitions.defined id).mpr (by rw [here]; rfl)
    obtain ⟨first, inside, like⟩ := forall₂_exists_left classes (Array.mem_toList_iff.mpr member)
    cases Same.source_eq sound like.1 same
    exact absurd inside absent

theorem meets_declareClasses (sound : program.KeysSound) (legible : context.Legible program)
    (defined : program.DefinitionsSound) (markers : program.MarkersSound)
    (lowered : List.Forall₂ (program.LoweredClass context.image.pool limits) program.defined.toList
      context.image.classes) :
    Meets (fun _ _ => True) (context.image.classes.mapM context.declareClass) {} fun coded after =>
      program.Announced context.image.pool limits program.defined.toList coded.flatten after := by
  have start : program.Announced context.image.pool limits [] [] {} :=
    ⟨follows_empty program, .nil, fun _ => rfl, coded_nil _⟩
  refine Meets.mapM (fun done values => program.Announced context.image.pool limits done values.flatten)
    lowered start ?_
  intro done type rest values written middle whole here _ announced
  obtain ⟨-, distinct, absent⟩ := notMem_of_split defined.distinct whole
  have unclaimed := unclaimed_of_classes sound announced.follows announced.classes absent
  have declaring := meets_declareClass sound legible defined markers announced.follows here unclaimed
  apply (declaring.with_moves.mono fun _ _ _ => trivial).imp
  rintro coded after - ⟨moved, holder, pushed, like, listed⟩
  have adds := Adds.of_moved moved
  refine ⟨adds.follows announced.follows, ?_, ?_, ?_⟩
  · rw [pushed, Array.toList_push]
    refine List.rel_append (announced.classes.imp ?_) (.cons like .nil)
    exact fun _ _ earlier => earlier.kept adds.toKeeps fun _ same => same
  · rw [adds.bodies]
    exact announced.bodies
  · have whole := nodup_methodsOf defined distinct
    rw [List.flatMap_append, List.flatMap_singleton] at whole ⊢
    rw [List.flatten_append, List.flatten_singleton]
    exact (announced.coded.kept adds.toKeeps).append sound whole listed

theorem meets_loadBodies (sound : program.KeysSound) (legible : context.Legible program)
    (admitted : program.CodeAdmitted) (markers : program.MarkersSound) (bodies : program.BodiesSound)
    {coded : List (MethodId × CodeItem)}
    (announced : program.Announced context.image.pool limits program.defined.toList coded before) :
    Meets (fun _ _ => True) (coded.forM fun (method, code) =>
        ExceptT.adapt Fault.blameImage (context.loadBody method code)) before fun _ after =>
      program.Loaded context.image.pool limits coded coded after := by
  have start : program.Loaded context.image.pool limits coded [] before :=
    ⟨announced.follows, announced.classes, announced.coded, by simp, fun method _ => announced.bodies method⟩
  refine Meets.forM (program.Loaded context.image.pool limits coded)
    (List.forall₂_refl coded : List.Forall₂ Eq coded coded) start ?_
  rintro done ⟨method, code⟩ rest _ middle whole rfl _ loaded
  have distinct : (done.map Prod.fst ++ method :: rest.map Prod.fst).Nodup := by
    have names := loaded.coded.distinct
    rw [whole, List.map_append] at names
    exact names
  obtain ⟨-, -, absent⟩ := notMem_of_split distinct rfl
  obtain ⟨original, -, body, declared, here, lowered⟩ := loaded.coded.bodies (method, code) (by simp [whole])
  obtain ⟨owner, name, signature, access, key, listed, plain, kinds⟩ := bodies.declared here
  obtain ⟨_, holder, _, original', copied⟩ := declared.access
  cases listed.symm.trans original'
  obtain ⟨_, _, _, _, named, found, -⟩ := same_method.mp declared.same
  cases key.symm.trans named
  obtain ⟨declaration, -⟩ := declaredMethod?_eq_some.mp copied
  rw [← (methodKey?_methodAt found).2.2] at kinds
  have loading := meets_loadBody sound legible admitted markers loaded.follows lowered declaration plain
    (loaded.empty method absent) kinds
  apply (loading.adapt.with_moves.mono fun _ _ _ => trivial).imp
  rintro _ after - ⟨moved, other, used, opened, like⟩
  exact loaded.snoc (Fills.of_moved moved) absent declared.same here opened like

theorem meets_load (sound : program.KeysSound) (legible : context.Legible program)
    (defined : program.DefinitionsSound) (admitted : program.CodeAdmitted)
    (markers : program.MarkersSound) (bodies : program.BodiesSound)
    (lowered : List.Forall₂ (program.LoweredClass context.image.pool limits) program.defined.toList
      context.image.classes) :
    Meets (fun _ _ => True) context.load {} fun _ after => Steps {} after → program.Copied after := by
  apply (meets_declareClasses sound legible defined markers lowered).bind
  intro coded middle _ announced
  apply (meets_loadBodies sound legible admitted markers bodies announced).imp
  exact fun _ after _ loaded => loaded.copied sound defined

end Context

/-- No class of an image of a program is there twice. -/
theorem checkDuplicates_image {program : Program} {pool : Pool} {limits : Limits} {seen : List String}
    {types : List TypeId} {classes : List ClassDef} (sound : program.KeysSound)
    (defined : program.DefinitionsSound) (distinct : types.Nodup)
    (fresh : ∀ type ∈ types, program.typeText type ∉ seen)
    (lowered : List.Forall₂ (program.LoweredClass pool limits) types classes) :
    checkDuplicates {} pool seen classes = .ok () := by
  have known : ∀ {type written}, program.LoweredClass pool limits type written →
      program.descriptor? type = some (program.typeAt type).descriptor := by
    rintro type written ⟨definition, found, -⟩
    obtain ⟨name, object⟩ := defined.objects found
    rw [object, descriptor?_typeAt object]
  induction lowered generalizing seen with
  | nil => rfl
  | @cons type written types classes first others ih =>
    obtain ⟨absent, rest⟩ := List.nodup_cons.mp distinct
    rw [List.forall_mem_cons] at fresh
    obtain ⟨definition, -, lowered⟩ := id first
    have named : pool.type? written.type = some (program.typeText type) := lowered.named
    have nothing : ∀ descriptor, ({} : Program).findType? descriptor = none := by
      simp [findType?]
    unfold checkDuplicates
    simp only [named, nothing, Option.any_none, Bool.or_false,
      List.contains_eq_mem, decide_eq_true_eq, if_neg fresh.1, Option.bind_fun_none]
    apply ih rest
    intro other member again
    rcases List.mem_cons.mp again with same | seen
    · obtain ⟨written', -, twin⟩ := forall₂_exists_right others member
      have twins := known twin
      rw [Descriptor.text_injective same] at twins
      cases sound.types twins (known first)
      exact absent member
    · exact fresh.2 other member seen

end Loading

namespace Program

theorem ofBytes_encode_image {image : Image} {program : Program} (encodable : image.Encodable) :
    ofBytes image.encode = .ok program ↔ Edit.addImage image {} = (.ok (), program) := by
  have read : Image.decode image.encode = .ok image := Image.decode_eq_ok.mpr ⟨encodable, rfl⟩
  simp only [ofBytes, Edit.addBytes, read]
  constructor
  · intro loaded
    split at loaded
    · rename_i added
      cases loaded
      exact added
    · cases loaded
  · intro added
    rw [added]

theorem ofBytes_of_addImage {image : Image} {program : Program} (encodable : image.Encodable)
    (added : Edit.addImage image {} = (.ok (), program)) : ofBytes image.encode = .ok program :=
  (ofBytes_encode_image encodable).mpr added

/-- An image of a program loads as a copy of the program, if its descriptors are read as such. -/
theorem addImage_lowered {program : Program} {limits : Limits} {image : Image} (steps : Steps {} program)
    (lowered : List.Forall₂ (program.LoweredClass image.pool limits) program.defined.toList image.classes)
    (verified : image.verify = .ok ()) (legible : (Loading.Context.mk image {}).Legible program) :
    ∃ copy, Edit.addImage image {} = (.ok (), copy) ∧ program.Copied copy := by
  have sound := steps.keysSound
  have defined := steps.definitionsSound
  have distinct : Loading.checkDuplicates {} image.pool [] image.classes = .ok () :=
    Loading.checkDuplicates_image sound defined defined.distinct (by simp) lowered
  have loading : Edit.Meets (fun _ _ => True) (Loading.Context.mk image {}).load {}
      fun _ after => Steps {} after → program.Copied after :=
    Loading.Context.meets_load sound legible defined steps.codeAdmitted steps.markersSound
      steps.bodiesSound lowered
  obtain ⟨_, copy, loaded, -, copied⟩ := loading
  have reached : Edit.Reaches (Loading.Context.mk image {}).Loads (Loading.Context.mk image {}).load {} _ :=
    Loading.Context.reaches_load (Image.verify_ok.mp verified).2 Session.Reachable.start.sound.locals
  have moved := Loading.Context.Loads.steps (reached.ran .empty loaded).1
  exact ⟨copy, Edit.addImage_ok.mpr ⟨verified, distinct, loaded⟩, copied moved⟩

theorem ofBytes_encode {program : Program} {limits : Limits} {bytes : Bytes} (steps : Steps {} program)
    (bounded : program.Bounded) (readable : program.Readable) (valid : limits.validate = .ok ())
    (encoded : program.encode limits = .ok bytes) :
    ∃ copy, ofBytes bytes = .ok copy ∧ program.Copied copy := by
  obtain ⟨image, built, same⟩ := Except.bind_ok.mp encoded
  cases same
  obtain ⟨lowered, verified, encodable⟩ :=
    toImage_ok bounded steps.keysSound steps.definitionsSound steps.codeAdmitted valid built
  obtain ⟨copy, added, copied⟩ :=
    addImage_lowered steps lowered verified (Loading.Context.legible_of_readable _ readable)
  exact ⟨copy, ofBytes_of_addImage encodable added, copied⟩

end Program

end ClassImage
