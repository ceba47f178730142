import ClassImage.Proofs.Copy.Image
import ClassImage.Proofs.Merge.Bodies
import ClassImage.Proofs.Merge.Classes

/-!
Loading an image twice. When the first run succeeds, so does a second one from
any program that agrees with the first about the markers of members and has none
of the image's classes; the classes that it adds are like those of the first run.
-/

namespace ClassImage

open Program Edit

namespace Program

/-- A method of the copy was declared before if its declaration was there before. -/
theorem MethodDeclared.back {final copy after : Program} {method other : MethodId} (sound : copy.KeysSound)
    (more : copy.Extends after) (same : after.declaredMethod? = copy.declaredMethod?)
    (declared : final.MethodDeclared after method other) : final.MethodDeclared copy method other := by
  obtain ⟨owner, holder, access, original, there⟩ := declared.access
  obtain ⟨key, named, found⟩ := declared.same
  rw [same] at there
  have known := sound.key?_isSome_method (knowsMethod_of_declared there)
  exact ⟨⟨key, named, more.key?_back known found⟩, owner, holder, access, original, there⟩

theorem owner_of_declared {program : Program} {method : MethodId} {owner type : TypeId} {access : UInt32}
    {name : String} {signature : Signature} (declared : program.declaredMethod? method = some (type, access))
    (key : program.methodKey? method = some (owner, name, signature)) : owner = type := by
  rw [← (methodKey?_methodAt key).1]
  exact (declaredMethod?_eq_some.mp declared).2

end Program

namespace Loading.Context

variable {image : Image} {first second final source copy later after : Program} {types holders : List TypeId}
  {written : List ClassDef} {coded recoded : List (MethodId × CodeItem)}

section Abreast

variable (abreast : Abreast final first second image written types holders coded recoded source copy)

include abreast

/-- A type that the first run has defined was not defined before. -/
theorem Abreast.fresh_source (sound : source.DefinitionsSound) {type : TypeId} (member : type ∈ types) :
    type ∉ first.defined.toList := by
  intro earlier
  have distinct := sound.distinct
  rw [abreast.defined] at distinct
  exact (List.nodup_append.mp distinct).2.2 type earlier type member rfl

theorem Abreast.fresh_copy {holder : TypeId} (member : holder ∈ holders) :
    holder ∉ second.defined.toList := by
  intro earlier
  have distinct := abreast.follows.orderly.definitions.distinct
  rw [abreast.copyDefined] at distinct
  exact (List.nodup_append.mp distinct).2.2 holder earlier holder member rfl

/-- The owners of a new method are new classes. -/
theorem Abreast.holder {method other : MethodId} (declared : final.MethodDeclared copy method other)
    (new : final.DeclaredIn types method) :
    ∃ holder ∈ holders, ∃ access, copy.declaredMethod? other = some (holder, access) := by
  obtain ⟨type, member, access, owned⟩ := new
  obtain ⟨_, holder, access', original, there⟩ := declared.access
  obtain ⟨place, inside, matched⟩ := forall₂_exists_right abreast.classes member
  obtain ⟨_, _, _, _, named, found, twin⟩ := same_method.mp declared.same
  cases owner_of_declared owned named
  cases owner_of_declared there found
  cases Same.copy_eq abreast.follows.keysSound twin matched.same
  exact ⟨_, inside, access', there⟩

/-- A new method was not declared before. -/
theorem Abreast.undeclared (started : second.Orderly) {method other : MethodId}
    (declared : final.MethodDeclared copy method other) (new : final.DeclaredIn types method) :
    second.declaredMethod? other = none := by
  cases listed : second.declaredMethod? other with
  | none => rfl
  | some entry =>
    obtain ⟨holder, member, access, there⟩ := abreast.holder declared new
    cases (abreast.keeps.methods listed).symm.trans there
    have defined := (started.definitions.defined _).mpr (started.definitions.methodOwners listed)
    exact absurd (Array.mem_toList_iff.mpr defined) (abreast.fresh_copy member)

/-- Neither run has given a new method a body before the classes were declared. -/
theorem Abreast.empty (begun : Steps {} first) (started : second.Orderly) (steps : Steps first source)
    (lasts : source.Lasts final) {method other : MethodId}
    (declared : final.MethodDeclared copy method other) (new : final.DeclaredIn types method) :
    first.body? method = none ∧ second.body? other = none := by
  constructor
  · cases here : first.body? method with
    | none => rfl
    | some body =>
      obtain ⟨owner, _, _, access, -, listed, -⟩ := begun.bodiesSound.declared here
      obtain ⟨type, member, access', owned⟩ := new
      have whole : Steps {} source := begun.trans steps
      cases (lasts.methods (steps.lasts.methods listed)).symm.trans owned
      have defined := (begun.definitionsSound.defined _).mpr (begun.definitionsSound.methodOwners listed)
      exact absurd (Array.mem_toList_iff.mpr defined)
        (abreast.fresh_source whole.definitionsSound member)
  · cases here : second.body? other with
    | none => rfl
    | some body =>
      obtain ⟨owner, _, _, access, -, listed, -⟩ := started.bodies.declared here
      rw [abreast.undeclared started declared new] at listed
      cases listed

theorem Abreast.loaded {method other : MethodId} (lasts : source.Lasts later)
    (confined : Confined method source later) (fills : final.Fills other copy after) :
    Abreast final first second image written types holders coded recoded later after where
  follows := fills.follows abreast.follows
  classes := abreast.classes.imp fun type holder matched => matched.lasts lasts
    (congrFun confined.definitions.definitions type) fills.toConfined.keeps
    (congrFun fills.definitions.definitions holder)
  named := abreast.named.imp fun _ _ ⟨descriptor, read, known⟩ => ⟨descriptor, read, lasts.more.types known⟩
  defined := by rw [confined.definitions.defined, abreast.defined]
  copyDefined := by rw [fills.definitions.defined, abreast.copyDefined]
  keeps := abreast.keeps.trans fills.toConfined.keeps fun _ _ => trivial
  coded := abreast.coded.imp fun _ _ like => like.lasts fills.toConfined.keeps fun _ member => member

end Abreast

/-- All classes are declared in both runs, and the bodies that are loaded are alike. -/
structure Merging (final first second : Program) (image : Image) (types holders : List TypeId)
    (coded recoded : List (MethodId × CodeItem)) (source copy : Program) : Prop
    extends Abreast final first second image image.classes types holders coded recoded source copy where
  level : Level first.code.size second.code.size source.code.size copy.code.size
  bodies : ∀ {method other}, final.MethodDeclared copy method other → final.DeclaredIn types method →
    Option.Rel (BodyTwins final source copy first.code.size second.code.size) (source.body? method)
      (copy.body? other)
  kept : ∀ {method entry}, second.declaredMethod? method = some entry → copy.body? method = second.body? method
  slots : ∀ {id slot}, second.slot? id = some slot → copy.slot? id = some slot

theorem Merging.loaded {method other : MethodId} (sound : final.KeysSound) (started : second.Orderly)
    (merging : Merging final first second image types holders coded recoded source copy)
    (lasts : source.Lasts later) (declared : final.MethodDeclared copy method other)
    (new : final.DeclaredIn types method)
    (loaded : LoadedTwice final first.code.size second.code.size method other source copy later after) :
    Merging final first second image types holders coded recoded later after where
  toAbreast := merging.toAbreast.loaded lasts loaded.confined loaded.fills
  level := loaded.level
  bodies := by
    intro one another met new
    have earlier := met.back merging.follows.keysSound loaded.fills.more loaded.fills.definitions.methods
    by_cases here : one = method
    · subst here
      cases Same.copy_eq merging.follows.keysSound earlier.same declared.same
      obtain ⟨body, twin, opened, opened', twins⟩ := loaded.twins
      rw [opened, opened']
      exact .some twins
    · have apart : another ≠ other := by
        rintro rfl
        exact here (Symbol.method.inj (Same.source_eq sound earlier.same declared.same))
      rw [loaded.confined.bodies one here, loaded.fills.bodies another apart]
      exact rel_imp (merging.bodies earlier new) fun _ _ twins =>
        twins.kept loaded.confined.slots loaded.fills.slots loaded.fills.more
  kept := by
    intro one entry listed
    rw [loaded.fills.bodies, merging.kept listed]
    rintro rfl
    rw [merging.undeclared started declared new] at listed
    cases listed
  slots := loaded.fills.slots ∘ merging.slots

/-- Once the classes are declared in both runs, the bodies remain. -/
theorem Abreast.merging (begun : Steps {} first) (follows : final.Follows second)
    (abreast : Abreast final first second image image.classes types holders coded recoded source copy)
    (moved : Relation.ReflTransGen (Context.mk image first).Declares first source)
    (moved' : Relation.ReflTransGen (Context.mk image second).Declares second copy)
    (lasts : source.Lasts final) :
    Merging final first second image types holders coded recoded source copy := by
  have same := Declares.all_kept moved
  have same' := Declares.all_kept moved'
  refine ⟨abreast, ⟨0, by rw [same.1]; rfl, by rw [same'.1]; rfl⟩, ?_, ?_, ?_⟩
  · intro method other declared new
    obtain ⟨none, none'⟩ := abreast.empty begun follows.orderly (Loads.steps (Declares.all_loads moved)) lasts
      declared new
    rw [same.2.2, same'.2.2, none, none']
    exact .none
  · intro method entry _
    rw [same'.2.2]
  · intro id slot held
    rw [slot?, same'.1]
    exact held

theorem repeats_loadBodies (sound : final.KeysSound) (started : second.Orderly)
    (merging : Merging final first second image types holders coded recoded source copy) :
    Repeats final (coded.forM fun entry =>
        ExceptT.adapt Fault.blameImage ((Context.mk image first).loadBody entry.1 entry.2))
      (recoded.forM fun entry =>
        ExceptT.adapt Fault.blameImage ((Context.mk image second).loadBody entry.1 entry.2)) source copy
      fun _ _ later after => Merging final first second image types holders coded recoded later after := by
  refine (Repeats.forM (fun _ later after => Keeps (fun _ => True) copy after ∧
      Merging final first second image types holders coded recoded later after)
    merging.coded (fun entry => .adapt (lasting_loadBody _ entry.1 entry.2))
    ⟨.refl _ copy, merging⟩ ?_).imp fun _ _ _ _ loaded => loaded.2
  rintro done ⟨method, code⟩ rest ⟨other, code'⟩ later after - ⟨same, listed, new⟩ ⟨keeps, merging⟩
  cases (same : code' = code)
  have declared : final.MethodDeclared after method other := listed.kept keeps
  have fresh : later.body? method = none → after.body? other = none := by
    intro empty
    have related := merging.bodies declared new
    rw [empty] at related
    generalize after.body? other = body at related ⊢
    cases related
    rfl
  have loading : Repeats final ((Context.mk image first).loadBody method code)
      ((Context.mk image second).loadBody other code) later after _ :=
    repeats_loadBody sound merging.follows declared fresh merging.level code
  apply (loading.with_lasts (lasting_loadBody _ method code)).adapt.imp
  rintro _ _ last again ⟨onward, loaded⟩
  exact ⟨keeps.trans loaded.fills.toConfined.keeps fun _ _ => trivial,
    merging.loaded sound started onward declared new loaded⟩

theorem repeats_load (verified : ∀ definition ∈ image.classes, definition.Verified image.pool)
    (sound : final.KeysSound) (markers : final.MarkersSound) (begun : Steps {} first)
    (follows : final.Follows second) (vacant : (Context.mk image second).Vacant second) :
    Repeats final (Context.mk image first).load (Context.mk image second).load first second
      fun _ _ later after => ∃ types holders coded recoded,
        Merging final first second image types holders coded recoded later after := by
  have here : Reaches (Context.mk image first).Declares
      (image.classes.mapM (Context.mk image first).declareClass) first _ := reaches_declareClasses verified
  have there : Reaches (Context.mk image second).Declares
      (image.classes.mapM (Context.mk image second).declareClass) second _ := reaches_declareClasses verified
  have declaring : Repeats final (image.classes.mapM (Context.mk image first).declareClass)
      (image.classes.mapM (Context.mk image second).declareClass) first second _ :=
    repeats_declareClasses sound markers follows vacant
  have lasting : ∀ coded : List (List (MethodId × CodeItem)), Lasting (coded.flatten.forM fun entry =>
      ExceptT.adapt Fault.blameImage ((Context.mk image first).loadBody entry.1 entry.2)) :=
    fun _ => Lasting.forM fun entry => .adapt (lasting_loadBody _ entry.1 entry.2)
  unfold load
  apply (declaring.reached here there follows.keysSound.indexed).bind
  · exact lasting
  rintro coded recoded middle between ⟨⟨types, holders, abreast⟩, ⟨moved, -⟩, moved', -⟩
  refine .given_lasts (lasting coded) fun lasts => ?_
  have merging := abreast.merging begun follows moved moved' lasts
  exact (repeats_loadBodies sound follows.orderly merging).imp
    fun _ _ _ _ loaded => ⟨types, holders, coded.flatten, recoded.flatten, loaded⟩

end Loading.Context

end ClassImage
