import ClassImage.Proofs.Copy.Decoded
import ClassImage.Proofs.Merge.Joined

/-!
The order in which images are added. Two images that load by themselves load one
after the other exactly if they define no class in common and agree about the
markers of the members that both know; which of them comes first does not matter.
What is loaded then is the one program and behind it the other.
-/

namespace ClassImage

open Program Edit

/-- The names of the classes of an image. -/
def Image.classNames (image : Image) : List String :=
  image.classes.filterMap fun definition => image.pool.type? definition.type

namespace Program

/-- No class of the name is defined. -/
def LacksClass (program : Program) (name : String) : Prop :=
  ∀ descriptor id, Descriptor.parse name = .ok descriptor → program.descriptor? id = some descriptor →
    program.definition? id = none

/-- A member that both programs know has the same marker in both. -/
def MarkersAgree (left right : Program) : Prop :=
  ∀ key symbol other, left.find? key = some symbol → right.find? key = some other →
    left.marker symbol = right.marker other

theorem MarkersAgree.symm {left right : Program} (agree : left.MarkersAgree right) : right.MarkersAgree left :=
  fun key symbol other here there => (agree key other symbol there here).symm

theorem MarkersAgree.follows {left right : Program} (agree : left.MarkersAgree right) (steps : Steps {} left)
    (steps' : Steps {} right) : right.Follows left := by
  refine ⟨steps.orderly, ?_⟩
  rintro symbol other ⟨key, named, found⟩
  exact agree key other symbol (steps.keysSound.find?_eq found) (steps'.keysSound.find?_eq named)

/-- What is known of members that all have known markers goes on being what is known. -/
theorem Lasts.marker_eq {before after : Program} (lasts : before.Lasts after) (decided : before.Decided)
    {symbol : Symbol} {key : SymbolKey} (named : before.key? symbol = some key) :
    after.marker symbol = before.marker symbol := by
  have kept : before.HasMember symbol → after.marker symbol = before.marker symbol := by
    intro member
    obtain ⟨static, known⟩ := Option.isSome_iff_exists.mp (decided symbol member)
    rw [lasts.markers known, known]
  cases symbol with
  | type => rfl
  | method id =>
    obtain ⟨_, _, _, _, found, -⟩ := key?_method.mp named
    exact kept (by rw [HasMember, found]; rfl)
  | field id =>
    obtain ⟨_, _, _, _, found, -⟩ := key?_field.mp named
    exact kept (by rw [HasMember, found]; rfl)

end Program

namespace Loading

section Duplicates

variable {program : Program} (sound : program.KeysSound)

include sound

theorem lacksClass_iff {name : String} :
    ((Descriptor.ofText? name).bind program.findType?).any (fun id => (program.typeAt id).isDefined) = false ↔
      program.LacksClass name := by
  have undefined : ∀ id, (program.typeAt id).isDefined = false ↔ program.definition? id = none :=
    fun _ => Option.isSome_eq_false_iff.trans Option.isNone_iff_eq_none
  simp only [LacksClass, Descriptor.parse_ok]
  cases Descriptor.ofText? name with
  | none => simp
  | some descriptor =>
    simp only [Option.bind_some, Option.some.injEq]
    constructor
    · rintro absent _ id rfl named
      rw [sound.findType?_eq named, Option.any_some, undefined] at absent
      exact absent
    · intro absent
      cases found : program.findType? descriptor with
      | none => rfl
      | some id =>
        rw [Option.any_some, undefined]
        exact absent descriptor id rfl ((sound.indexed.types _ _).mp found)

/-- Classes can be added to a program if they can be added at all and the program has none of them. -/
theorem checkDuplicates_iff {pool : Pool} {seen : List String} {classes : List ClassDef} :
    checkDuplicates program pool seen classes = .ok () ↔ checkDuplicates {} pool seen classes = .ok () ∧
      ∀ definition ∈ classes, ∀ name, pool.type? definition.type = some name → program.LacksClass name := by
  have nothing : ∀ descriptor, ({} : Program).findType? descriptor = none := Lookup.find?_empty
  induction classes generalizing seen with
  | nil => simp [checkDuplicates]
  | cons definition classes ih =>
    unfold checkDuplicates
    rw [List.forall_mem_cons]
    cases pool.type? definition.type with
    | none => simp
    | some name =>
      simp only [nothing, Option.bind_fun_none, Option.any_none, Bool.or_false, Option.some.injEq, forall_eq']
      rw [← lacksClass_iff sound]
      cases seen.contains name with
      | true => simp
      | false =>
        cases ((Descriptor.ofText? name).bind program.findType?).any fun id => (program.typeAt id).isDefined with
        | true => simp
        | false => simpa using ih

end Duplicates

end Loading

/-- What an image makes is the program of a session. -/
theorem Session.Reachable.addImage {session : Session} (reached : session.Reachable) {image : Image}
    {after : Program} (added : Edit.addImage image session.program = (.ok (), after)) :
    ∃ later : Session, later.Reachable ∧ later.program = after := by
  refine ⟨session.perform (.addImage image), .next reached trivial, ?_⟩
  have ran : (Operation.addImage image).run.run session.program = (.ok {}, after) := by
    change outcome ((fun _ => ({} : Yield)) <$> Edit.addImage image) session.program = _
    rw [← bind_pure_comp]
    exact outcome_bind_ok.mpr ⟨(), after, added, rfl⟩
  rw [perform, ran]

namespace Edit

section Alone

variable {image : Image} {program : Program} (added : addImage image {} = (.ok (), program))

include added

/-- Every member of an image that is added by itself has a known marker. -/
theorem decided_of_addImage : program.Decided :=
  Loading.Context.Loads.all_decided (loaded_of_addImage added).2.moved decided_empty

end Alone

/-- An image that can be added to one program can be added to another that follows the result and
has none of its classes. -/
theorem addImage_again {image : Image} {first second final : Program} (begun : Steps {} first)
    (steps : Steps {} final) (added : addImage image first = (.ok (), final)) (follows : final.Follows second)
    (lacks : ∀ name ∈ image.classNames, second.LacksClass name) :
    ∃ copy types holders coded recoded, addImage image second = (.ok (), copy) ∧
      Loading.Context.Merging final first second image types holders coded recoded final copy := by
  obtain ⟨verified, distinct, ran⟩ := addImage_ok.mp added
  have named : ∀ definition ∈ image.classes, ∀ name, image.pool.type? definition.type = some name →
      second.LacksClass name :=
    fun definition member name found => lacks name (List.mem_filterMap.mpr ⟨definition, member, found⟩)
  have vacant : (Loading.Context.mk image second).Vacant second := by
    rintro definition member descriptor id ⟨name, found, parsed⟩ known
    exact named definition member name found descriptor id parsed known
  have again := Loading.Context.repeats_load (Image.verify_ok.mp verified).2 steps.keysSound steps.markersSound
    begun follows vacant
  obtain ⟨-, _, copy, ran', types, holders, coded, recoded, merging⟩ :=
    again (begun.indexed .empty) () final ran (.refl final)
  refine ⟨copy, types, holders, coded, recoded, addImage_ok.mpr ⟨verified, ?_, ran'⟩, merging⟩
  exact (Loading.checkDuplicates_iff follows.keysSound).mpr
    ⟨((Loading.checkDuplicates_iff begun.keysSound).mp distinct).1, named⟩

section Alone

variable {image : Image} {program : Program} (added : addImage image {} = (.ok (), program))

include added

theorem reachable_of_addImage : ∃ session : Session, session.Reachable ∧ session.program = program :=
  Session.Reachable.start.addImage added

/-- The program has the classes of the image and no others. -/
theorem lacksClass_of_addImage {name : String} : program.LacksClass name ↔ name ∉ image.classNames := by
  obtain ⟨session, reached, rfl⟩ := reachable_of_addImage added
  have definitions := reached.steps.definitionsSound
  have nothing : ∀ name ∈ image.classNames, ({} : Program).LacksClass name := by
    intro name _ descriptor id _ known
    cases known
  obtain ⟨_, types, _, _, _, -, merging⟩ := addImage_again .refl reached.steps added (follows_empty _) nothing
  have all : session.program.defined.toList = types := merging.defined
  constructor
  · intro lacks member
    obtain ⟨definition, listed, found⟩ := List.mem_filterMap.mp member
    obtain ⟨type, inside, descriptor, ⟨text, found', parsed⟩, known⟩ := forall₂_exists_right merging.named listed
    cases found.symm.trans found'
    rw [← all, Array.mem_toList_iff, definitions.defined, lacks descriptor type parsed known] at inside
    cases inside
  · intro absent descriptor id parsed known
    by_contra present
    have defined := (definitions.defined id).mpr (Option.isSome_iff_ne_none.mpr present)
    rw [← Array.mem_toList_iff, all] at defined
    obtain ⟨definition, listed, _, ⟨text, found, parsed'⟩, known'⟩ := forall₂_exists_left merging.named defined
    cases known.symm.trans known'
    have same := (Descriptor.text_of_parse parsed').symm.trans (Descriptor.text_of_parse parsed)
    exact absent (List.mem_filterMap.mpr ⟨definition, listed, same ▸ found⟩)

end Alone

section Pair

variable {one other : Image} {left right : Program} (added : addImage one {} = (.ok (), left))
  (added' : addImage other {} = (.ok (), right))

include added added'

/-- Images that agree are joined when one is added after the other. -/
theorem joined_of_agree (disjoint : one.classNames.Disjoint other.classNames)
    (agree : left.MarkersAgree right) :
    ∃ program, addImage other left = (.ok (), program) ∧ Joined left right program := by
  obtain ⟨session, reached, rfl⟩ := reachable_of_addImage added
  obtain ⟨session', reached', rfl⟩ := reachable_of_addImage added'
  have lacks : ∀ name ∈ other.classNames, session.program.LacksClass name :=
    fun name member => (lacksClass_of_addImage added).mpr fun listed => disjoint listed member
  obtain ⟨program, _, _, _, _, ran, merging⟩ := addImage_again .refl reached'.steps added'
    (agree.follows reached.steps reached'.steps) lacks
  obtain ⟨later, joined, rfl⟩ := reached.addImage ran
  exact ⟨later.program, ran, merging.joined reached.steps reached'.steps joined.steps⟩

/-- Images that are added one after the other agree. -/
theorem agree_of_addImage {program : Program} (both : addImage other left = (.ok (), program)) :
    one.classNames.Disjoint other.classNames ∧ left.MarkersAgree right := by
  obtain ⟨session, reached, rfl⟩ := reachable_of_addImage added
  obtain ⟨later, reached', rfl⟩ := reached.addImage both
  obtain ⟨-, distinct, ran⟩ := addImage_ok.mp both
  have steps := reached.steps
  constructor
  · intro name here there
    obtain ⟨definition, member, found⟩ := List.mem_filterMap.mp there
    have lacks := ((Loading.checkDuplicates_iff steps.keysSound).mp distinct).2 definition member name found
    exact (lacksClass_of_addImage added).mp lacks here
  · have nothing : ∀ name ∈ other.classNames, ({} : Program).LacksClass name := by
      intro name _ descriptor id _ known
      cases known
    obtain ⟨copy, _, _, _, _, again, merging⟩ := addImage_again steps reached'.steps both (follows_empty _) nothing
    cases added'.symm.trans again
    have lasts := (Loading.Context.mk other session.program).lasting_load.lasts session.program
    rw [ran] at lasts
    intro key symbol twin here there
    have named := (steps.indexed .empty).key?_of_find? here
    have found := merging.follows.keysSound.indexed.key?_of_find? there
    have same : later.program.Same right symbol twin := ⟨key, lasts.more.key? named, found⟩
    rw [merging.follows.markers same, lasts.marker_eq (decided_of_addImage added) named]

end Pair

/-- Adds one image and then another. -/
def addBoth (one other : Image) : Edit Unit := do
  addImage one
  addImage other

theorem addBoth_ok {one other : Image} {left program : Program} (added : addImage one {} = (.ok (), left)) :
    (addBoth one other).run {} = (.ok (), program) ↔ addImage other left = (.ok (), program) := by
  refine outcome_bind_ok.trans ⟨?_, fun ran => ⟨(), left, added, ran⟩⟩
  rintro ⟨_, middle, first, ran⟩
  cases added.symm.trans first
  exact ran

/-- Two images that load by themselves load one after the other in either order or in neither: they do
exactly if they define no class in common and agree about the markers of the members that both know.
The listing is then the one listing followed by the other, and so is the list of the uses of a symbol,
with the handles of the second behind those of the first. -/
theorem addBoth_joins {one other : Image} {left right : Program}
    (added : (addImage one).run {} = (.ok (), left)) (added' : (addImage other).run {} = (.ok (), right)) :
    ((∃ program, (addBoth one other).run {} = (.ok (), program)) ↔
      ∃ program, (addBoth other one).run {} = (.ok (), program)) ∧
    ((∃ program, (addBoth one other).run {} = (.ok (), program)) ↔
      one.classNames.Disjoint other.classNames ∧ left.MarkersAgree right) ∧
    ∀ program, (addBoth one other).run {} = (.ok (), program) →
      program.listing = left.listing ++ right.listing ∧
        ∀ key, program.usesOf key =
          left.usesOf key ++ (right.usesOf key).map (Use.moved left.code.size) := by
  have forward : ∀ {program}, (addBoth one other).run {} = (.ok (), program) ↔
      addImage other left = (.ok (), program) := addBoth_ok added
  have backward : ∀ {program}, (addBoth other one).run {} = (.ok (), program) ↔
      addImage one right = (.ok (), program) := addBoth_ok added'
  have first : (∃ program, addImage other left = (.ok (), program)) ↔
      one.classNames.Disjoint other.classNames ∧ left.MarkersAgree right := by
    constructor
    · exact fun ⟨_, both⟩ => agree_of_addImage added added' both
    · rintro ⟨disjoint, agree⟩
      obtain ⟨program, both, -⟩ := joined_of_agree added added' disjoint agree
      exact ⟨program, both⟩
  have second : (∃ program, addImage one right = (.ok (), program)) ↔
      one.classNames.Disjoint other.classNames ∧ left.MarkersAgree right := by
    constructor
    · rintro ⟨_, both⟩
      obtain ⟨disjoint, agree⟩ := agree_of_addImage added' added both
      exact ⟨disjoint.symm, agree.symm⟩
    · rintro ⟨disjoint, agree⟩
      obtain ⟨program, both, -⟩ := joined_of_agree added' added disjoint.symm agree.symm
      exact ⟨program, both⟩
  simp only [forward, backward]
  refine ⟨first.trans second.symm, first, ?_⟩
  intro program both
  obtain ⟨disjoint, agree⟩ := agree_of_addImage added added' both
  obtain ⟨_, both', joined⟩ := joined_of_agree added added' disjoint agree
  cases both.symm.trans both'
  obtain ⟨session, reached, rfl⟩ := reachable_of_addImage added
  obtain ⟨session', reached', rfl⟩ := reachable_of_addImage added'
  exact ⟨joined.listing_eq reached.steps reached'.steps reached.targets reached'.targets,
    joined.usesOf_eq reached.steps reached'.steps⟩

/-- A class with a static method. -/
def callee : Image where
  flags := 0
  pool := ⟨#["LA;", "f", "V"], #[0, 2], #[⟨1, []⟩], #[], #[⟨0, 0, 1⟩]⟩
  classes := [⟨0, 1, none, [], none, [], [⟨0, 8, some ⟨0, 0, [], #[.returnVoid]⟩⟩]⟩]

/-- A class with a static method that calls that of the other class. -/
def caller : Image where
  flags := 0
  pool := ⟨#["LB;", "g", "V", "LA;", "f"], #[0, 2, 3], #[⟨1, []⟩], #[], #[⟨0, 0, 1⟩, ⟨2, 0, 4⟩]⟩
  classes := [⟨0, 1, none, [], none, [],
    [⟨0, 8, some ⟨0, 0, [], #[.invoke .static 1 [], .returnVoid]⟩⟩]⟩]

/-- The caller may come first; the class that it refers to is external until the other is added. -/
theorem addBoth_joins_caller :
    ∃ left right program, (addImage caller).run {} = (.ok (), left) ∧
      (addImage callee).run {} = (.ok (), right) ∧ (addBoth caller callee).run {} = (.ok (), program) ∧
      left.MarkersAgree right ∧ program.listing = left.listing ++ right.listing ∧
      ∀ key, program.usesOf key =
        left.usesOf key ++ (right.usesOf key).map (Use.moved left.code.size) := by
  have added : (addImage caller).run {} = (.ok (), ((addImage caller).run {}).2) :=
    Prod.fst_eq_iff.mp (by decide +kernel)
  have added' : (addImage callee).run {} = (.ok (), ((addImage callee).run {}).2) :=
    Prod.fst_eq_iff.mp (by decide +kernel)
  have both : (addBoth caller callee).run {} = (.ok (), ((addBoth caller callee).run {}).2) :=
    Prod.fst_eq_iff.mp (by decide +kernel)
  obtain ⟨-, agree, joins⟩ := addBoth_joins added added'
  obtain ⟨listing, uses⟩ := joins _ both
  exact ⟨_, _, _, added, added', both, (agree.mp ⟨_, both⟩).2, listing, uses⟩

end Edit

end ClassImage
