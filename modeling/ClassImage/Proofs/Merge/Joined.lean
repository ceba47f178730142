import ClassImage.Proofs.Copy.Counts
import ClassImage.Proofs.Copy.Listing
import ClassImage.Proofs.Merge.Images
import ClassImage.Proofs.Program.Targets

/-!
Programs that are put together. The classes of one program come first and those
of another after them, with the bodies of each as they were up to the handles, so
the listing is the one listing and then the other, and so is every use list.
-/

namespace ClassImage

open Program

theorem biUnique_levelLocal (first second : Nat) : Relator.BiUnique (LevelLocal first second) := by
  constructor
  · rintro ⟨id, kind⟩ ⟨_, _⟩ other ⟨rfl, count, rfl, here⟩ ⟨rfl, more, rfl, there⟩
    obtain rfl : count = more := by omega
    rfl
  · rintro slot ⟨_, _⟩ ⟨_, _⟩ ⟨rfl, count, here, rfl⟩ ⟨rfl, more, there, rfl⟩
    obtain rfl : count = more := by omega
    rfl

theorem biUnique_levelHandle (first second : Nat) : Relator.BiUnique (LevelHandle first second) := by
  constructor
  · rintro ⟨id⟩ ⟨_⟩ other ⟨count, rfl, here⟩ ⟨more, rfl, there⟩
    obtain rfl : count = more := by omega
    rfl
  · rintro id ⟨_⟩ ⟨_⟩ ⟨count, here, rfl⟩ ⟨more, there, rfl⟩
    obtain rfl : count = more := by omega
    rfl

theorem Level.same (place : Nat) : Level 0 0 place place := ⟨place, by omega, by omega⟩

/-- Only a branch has a target, which may be said to lie where all targets lie. -/
theorem Alike.targeted {program copy : Program} {slots : Local → Local → Prop}
    {targets : InstructionId → InstructionId → Prop} {within : InstructionId → Prop}
    {first second : Instruction} (alike : Alike program copy slots targets first second)
    (inside : ∀ target, first.target? = some target → within target) :
    Alike program copy slots (fun id place => within id ∧ targets id place) first second := by
  cases alike with
  | invoke kind method owner arguments result => exact .invoke kind method owner arguments result
  | const placed same => exact .const placed same
  | access kind field value object => exact .access kind field value object
  | move placed read => exact .move placed read
  | ret read => exact .ret read
  | branch tests found => exact .branch tests ⟨inside _ rfl, found⟩
  | binary placed left right => exact .binary placed left right
  | newArray placed read same => exact .newArray placed read same
  | arrayLength placed read => exact .arrayLength placed read
  | checkCast placed read same => exact .checkCast placed read same
  | instanceOf placed read same => exact .instanceOf placed read same
  | throwValue read => exact .throwValue read

namespace Program

/-- Bodies whose instructions are alike, with the locals and the handles of the second at a distance. -/
theorem BodyTwins.mirrored {program copy : Program} {first second : Nat} {body other : Body}
    (twins : BodyTwins program program copy first second body other) :
    ∃ a b, Mirrored program copy (LevelLocal a b) (LevelHandle first second) body other := by
  obtain ⟨a, b, parameters, code⟩ := twins
  exact ⟨a, b, parameters, code.imp fun _ _ twin => twin.1, code.imp fun _ _ twin => twin.2⟩

section Same

variable {program : Program}

theorem same_self {symbol : Symbol} (known : (program.key? symbol).isSome) :
    program.Same program symbol symbol := by
  obtain ⟨key, named⟩ := Option.isSome_iff_exists.mp known
  exact ⟨key, named, named⟩

theorem same_self_type {type : TypeId} (known : (program.descriptor? type).isSome) :
    program.Same program (.type type) (.type type) :=
  same_self (by rw [key?, Option.isSome_map, known])

theorem headerLike_self {header : Header} (known : program.Knows header) :
    program.HeaderLike program header header where
  access := rfl
  superclass := by
    cases above : header.superclass with
    | none => exact .none
    | some type => exact .some (same_self_type (known.1 type above))
  interfaces := List.forall₂_same.mpr fun type member => same_self_type (known.2 type member)
  source := rfl

variable (keys : program.KeysSound)

include keys

theorem classLike_self (definitions : program.DefinitionsSound) {type : TypeId} (member : type ∈ program.defined) :
    program.ClassLike program type type := by
  obtain ⟨definition, found⟩ := Option.isSome_iff_exists.mp ((definitions.defined type).mp member)
  obtain ⟨name, object⟩ := definitions.objects found
  refine ⟨same_self_type (by rw [object]; rfl), definition, found, definition, found,
    headerLike_self (definitions.headers found), ?_, ?_⟩
  · apply List.forall₂_same.mpr
    intro field listed
    obtain ⟨access, declared⟩ := ((definitions.fields found).2 field).mp (Array.mem_toList_iff.mp listed)
    exact ⟨same_self (keys.key?_isSome_field (knowsField_of_declared declared)), type, type, access,
      declared, declared⟩
  · apply List.forall₂_same.mpr
    intro method listed
    obtain ⟨access, declared⟩ := ((definitions.methods found).2 method).mp (Array.mem_toList_iff.mp listed)
    exact ⟨same_self (keys.key?_isSome_method (knowsMethod_of_declared declared)), type, type, access,
      declared, declared⟩

theorem alike_self {slots : Local → Local → Prop} {targets : InstructionId → InstructionId → Prop}
    (same : ∀ slot, slots slot slot) (here : ∀ id, targets id id) {instruction : Instruction}
    (admitted : program.Admits instruction) :
    Alike program program slots targets instruction instruction := by
  have optional : ∀ value : Option Local, Option.Rel slots value value := by
    rintro (_ | slot)
    · exact .none
    · exact .some (same slot)
  cases instruction with
  | invoke call =>
    obtain ⟨name, signature, found, -⟩ := admitted
    exact .invoke rfl (same_self (keys.key?_isSome_method (by rw [found]; rfl)))
      (same_self_type (keys.methodOwners found))
      (List.forall₂_same.mpr fun slot _ => same slot) (optional _)
  | const target value =>
    refine .const (same target) ?_
    cases value with
    | classOf type => exact ⟨type, rfl, same_self_type admitted⟩
    | _ => rfl
  | access use =>
    obtain ⟨owner, name, type, found, -⟩ := admitted
    exact .access rfl (same_self (keys.key?_isSome_field (by rw [found]; rfl))) (same use.value) (optional _)
  | move => exact .move (same _) (same _)
  | ret => exact .ret (optional _)
  | branch test target =>
    refine .branch ?_ (here target)
    cases test with
    | none => exact .none
    | some test => exact .some ⟨rfl, same test.left, optional test.right⟩
  | binary => exact .binary (same _) (same _) (same _)
  | newArray => exact .newArray (same _) (same _) (same_self_type admitted)
  | arrayLength => exact .arrayLength (same _) (same _)
  | checkCast => exact .checkCast (same _) (same _) (same_self_type admitted)
  | instanceOf => exact .instanceOf (same _) (same _) (same_self_type admitted)
  | throwValue => exact .throwValue (same _)

omit keys in
theorem bodyTwins_self (steps : Steps {} program) {method : MethodId} {body : Body}
    (here : program.body? method = some body) : BodyTwins program program program 0 0 body body := by
  refine ⟨0, 0, List.forall₂_same.mpr fun slot _ => ⟨rfl, .same _⟩, List.forall₂_same.mpr fun id member => ?_⟩
  obtain ⟨slot, attached, -⟩ := steps.bodiesSound.slot_of_listed here (Array.mem_toList_iff.mp member)
  have found : program.instruction? id = some slot.instruction := instruction?_of_slot? attached
  exact ⟨.same _, slot.instruction, slot.instruction, found, found, alike_self steps.keysSound
    (fun _ => ⟨rfl, .same _⟩) (fun _ => .same _) (steps.codeAdmitted id slot attached)⟩

end Same

section Echoes

variable {program copy : Program} {distance : Nat} {types holders : List TypeId}

/-- Classes that a program has again are listed with the same texts. -/
theorem Echoes.texts {first second : Nat}
    (echoes : program.Echoes copy (BodyTwins program program copy first second) types holders)
    (bodies : program.BodiesSound) (targets : program.TargetsSound) :
    holders.map (fun type => Listing.typeText copy type ++ "\n") =
      types.map fun type => Listing.typeText program type ++ "\n" := by
  apply echoes.text
  intro method other body another here _ twins
  obtain ⟨a, b, mirrored⟩ := twins.mirrored
  have inside : ∀ {id instruction}, id ∈ body.instructions.toList → program.instruction? id = some instruction →
      ∀ target, instruction.target? = some target → target ∈ body.instructions := by
    intro id instruction member found target leads
    obtain ⟨slot, attached, rfl⟩ := slot_of_instruction? found
    have held := (bodies.attached here id).mp (Array.mem_toList_iff.mp member)
    rw [holder?, attached, Option.map_some, Option.some.injEq] at held
    rw [bodies.attached here, ← held]
    exact targets id slot target attached leads
  have within : Mirrored program copy (LevelLocal a b)
      (fun id place => id ∈ body.instructions ∧ LevelHandle first second id place) body another := by
    refine ⟨mirrored.parameters, ?_, ?_⟩
    · exact (List.forall₂_and_left _ _).mpr ⟨fun _ => Array.mem_toList_iff.mp, mirrored.handles⟩
    · apply ((List.forall₂_and_left _ _).mpr ⟨fun _ => id, mirrored.code⟩).imp
      rintro id place ⟨member, instruction, built, found, there, alike⟩
      exact ⟨instruction, built, found, there, alike.targeted (inside member found)⟩
  have handles := biUnique_levelHandle first second
  have unique : Relator.BiUnique fun id place => id ∈ body.instructions ∧ LevelHandle first second id place :=
    ⟨fun _ _ _ left right => handles.1 left.2 right.2, fun _ _ _ left right => handles.2 left.2 right.2⟩
  exact Listing.bodyText_eq within (biUnique_levelLocal a b) And.left unique And.left "  "

/-- The instructions of such classes refer to a symbol where those of the original do. -/
theorem Echoes.mentions (steps : Steps {} program)
    (echoes : program.Echoes copy (BodyTwins program program copy 0 distance) program.defined.toList holders)
    (key : SymbolKey) (kind : UseKind) (place : InstructionId) :
    place ∈ (holders.flatMap copy.methodsOf).flatMap copy.codeOf ∧ copy.Mentions key kind place ↔
      ∃ id, program.Mentions key kind id ∧ LevelHandle 0 distance id place := by
  have code : List.Forall₂ (fun id place => LevelHandle 0 distance id place ∧ program.SameReferences copy id place)
      program.listed ((holders.flatMap copy.methodsOf).flatMap copy.codeOf) := by
    apply echoes.code
    intro body other twins
    obtain ⟨a, b, -, code⟩ := twins
    apply code.imp
    rintro id place ⟨level, instruction, built, here, there, alike⟩
    exact ⟨level, instruction, built, here, there, alike.references⟩
  constructor
  · rintro ⟨member, mentions⟩
    obtain ⟨id, -, level, same⟩ := forall₂_exists_left code member
    exact ⟨id, (same.mentions key kind).mpr mentions, level⟩
  · rintro ⟨id, mentions, level⟩
    have found := mentions
    obtain ⟨instruction, _, attached, -⟩ := found
    have listed := mem_listed steps.definitionsSound steps.bodiesSound attached
    obtain ⟨other, member, level', same⟩ := forall₂_exists_right code listed
    cases (biUnique_levelHandle 0 distance).2 level level'
    exact ⟨member, (same.mentions key kind).mp mentions⟩

end Echoes

end Program

/-- The use by an instruction whose handle stands at a distance. -/
def Use.moved (distance : Nat) (use : Use) : Use := ⟨use.kind, ⟨distance + use.instruction.index⟩⟩

namespace Program

/-- The classes of one program and then those of another, whose handles stand behind those of the first. -/
structure Joined (left right program : Program) : Prop where
  steps : Steps {} program
  first : left.Echoes program (BodyTwins left left program 0 0) left.defined.toList left.defined.toList
  second : ∃ holders, program.defined.toList = left.defined.toList ++ holders ∧
    right.Echoes program (BodyTwins right right program 0 left.code.size) right.defined.toList holders

section Joined

variable {left right program : Program} (joined : Joined left right program) (steps : Steps {} left)
  (steps' : Steps {} right)

include joined steps steps'

theorem Joined.listing_eq (targets : left.TargetsSound) (targets' : right.TargetsSound) :
    program.listing = left.listing ++ right.listing := by
  obtain ⟨holders, defined, second⟩ := joined.second
  unfold listing
  rw [defined, List.map_append, String.join_append, joined.first.texts steps.bodiesSound targets,
    second.texts steps'.bodiesSound targets']

omit joined in
/-- The uses that moved come after the others, and each part keeps its order. -/
theorem ordered_moved (key : SymbolKey) :
    (left.usesOf key ++ (right.usesOf key).map (Use.moved left.code.size)).Pairwise
      fun earlier later => earlier.instruction.index < later.instruction.index := by
  have early : ∀ use ∈ left.usesOf key, use.instruction.index < left.code.size := by
    intro use member
    obtain ⟨instruction, _, attached, -⟩ := (mem_usesOf steps).mp member
    obtain ⟨slot, here, -⟩ := slot_of_instruction? attached
    exact slot?_lt here
  refine List.pairwise_append.mpr ⟨ordered_usesOf steps key, ?_, ?_⟩
  · rw [List.pairwise_map]
    exact (ordered_usesOf steps' key).imp fun less => Nat.add_lt_add_left less _
  · intro use member other moved
    obtain ⟨use', -, rfl⟩ := List.mem_map.mp moved
    exact (early use member).trans_le (Nat.le_add_right _ _)

theorem Joined.mem_usesOf_iff (key : SymbolKey) (use : Use) : use ∈ program.usesOf key ↔
    use ∈ left.usesOf key ++ (right.usesOf key).map (Use.moved left.code.size) := by
  obtain ⟨kind, place⟩ := use
  obtain ⟨holders, defined, second⟩ := joined.second
  have listed : program.Mentions key kind place →
      place ∈ (left.defined.toList.flatMap program.methodsOf).flatMap program.codeOf ∨
        place ∈ (holders.flatMap program.methodsOf).flatMap program.codeOf := by
    rintro ⟨instruction, _, attached, -⟩
    have member := mem_listed joined.steps.definitionsSound joined.steps.bodiesSound attached
    rw [Program.listed, defined, List.flatMap_append, List.flatMap_append] at member
    exact List.mem_append.mp member
  have here := joined.first.mentions steps key kind place
  have there := second.mentions steps' key kind place
  rw [List.mem_append, List.mem_map, mem_usesOf joined.steps, mem_usesOf steps]
  constructor
  · intro mentions
    rcases listed mentions with old | new
    · obtain ⟨id, found, level⟩ := here.mp ⟨old, mentions⟩
      cases (biUnique_levelHandle 0 0).2 level (.same id.index)
      exact .inl found
    · obtain ⟨⟨id⟩, found, count, rfl, moved⟩ := there.mp ⟨new, mentions⟩
      refine .inr ⟨⟨kind, _⟩, (mem_usesOf steps').mpr found, ?_⟩
      rw [Use.moved, Nat.zero_add, ← moved]
  · rintro (mentions | ⟨⟨form, id⟩, member, moved⟩)
    · exact (here.mpr ⟨place, mentions, .same _⟩).2
    · cases moved
      exact (there.mpr ⟨id, (mem_usesOf steps').mp member, _, (Nat.zero_add _).symm, rfl⟩).2

theorem Joined.usesOf_eq (key : SymbolKey) :
    program.usesOf key = left.usesOf key ++ (right.usesOf key).map (Use.moved left.code.size) := by
  have antisymm : Std.Antisymm fun earlier later : Use => earlier.instruction.index < later.instruction.index :=
    ⟨fun _ _ left right => absurd right left.asymm⟩
  have irrefl : Std.Irrefl fun earlier later : Use => earlier.instruction.index < later.instruction.index :=
    ⟨fun _ => lt_irrefl _⟩
  exact (ordered_usesOf joined.steps key).eq_of_mem_iff (ordered_moved steps steps' key)
    (joined.mem_usesOf_iff steps steps' key)

end Joined

end Program

namespace Loading.Context

theorem Matches.classLike {program copy : Program} {type holder : TypeId}
    (matched : Matches program program copy type holder) : program.ClassLike copy type holder := by
  obtain ⟨definition, other, here, there, header, fields, methods⟩ := matched.like
  exact ⟨matched.same, definition, here, other, there, header, fields.imp fun _ _ => And.right,
    methods.imp fun _ _ => And.right⟩

/-- An image that is loaded by itself and after another program joins the two programs. -/
theorem Merging.joined {left right program : Program} {image : Image} {types holders : List TypeId}
    {coded recoded : List (MethodId × CodeItem)} (steps : Steps {} left) (steps' : Steps {} right)
    (joined : Steps {} program) (merging : Merging right {} left image types holders coded recoded right program) :
    Joined left right program where
  steps := joined
  first := by
    refine ⟨List.forall₂_same.mpr ?_, ?_⟩
    · intro type member
      have like := classLike_self steps.keysSound steps.definitionsSound (Array.mem_toList_iff.mp member)
      exact like.kept merging.keeps fun _ => id
    · intro method other declared _
      obtain ⟨owner, _, access, listed, -⟩ := declared.access
      have self := same_self (steps.keysSound.key?_isSome_method (knowsMethod_of_declared listed))
      cases Same.copy_eq merging.follows.keysSound (self.extends merging.keeps.more) declared.same
      rw [merging.kept listed]
      cases here : left.body? method with
      | none => exact .none
      | some body =>
        have twins := bodyTwins_self steps here
        exact .some (twins.kept id merging.slots merging.keeps.more)
  second := by
    have all : right.defined.toList = types := merging.defined
    refine ⟨holders, merging.copyDefined, ?_, ?_⟩
    · rw [all]
      exact merging.classes.imp fun _ _ => Matches.classLike
    · intro method other declared member
      rw [all] at member
      obtain ⟨type, inside, listed⟩ := List.mem_flatMap.mp member
      obtain ⟨access, owned⟩ := (mem_methodsOf steps'.definitionsSound).mp listed
      exact merging.bodies declared ⟨type, inside, access, owned⟩

end Loading.Context

end ClassImage
