import ClassImage.Proofs.Copy.Image
import ClassImage.Proofs.Copy.Used
import ClassImage.Program.Listing

/-!
The listing of a copy. A listing names symbols by their keys, locals by their
numbers and targets by their positions, and a copy has all of these in common
with the original.
-/

namespace ClassImage

open Program

namespace Program.Same

variable {program copy : Program}

theorem typeText {type other : TypeId} (same : program.Same copy (.type type) (.type other)) :
    copy.typeText other = program.typeText type := by
  obtain ⟨descriptor, named, found⟩ := same_type.mp same
  rw [Program.typeText, Program.typeText, descriptor?_typeAt named, descriptor?_typeAt found]

theorem methodText {method other : MethodId} (same : program.Same copy (.method method) (.method other)) :
    copy.methodText other = program.methodText method := by
  obtain ⟨owner, holder, name, signature, named, found, owned⟩ := same_method.mp same
  obtain ⟨rfl, rfl, rfl⟩ := methodKey?_methodAt named
  obtain ⟨rfl, sameName, sameSignature⟩ := methodKey?_methodAt found
  simp only [Program.methodText, sameName, sameSignature, owned.typeText]

theorem fieldText {field other : FieldId} (same : program.Same copy (.field field) (.field other)) :
    copy.fieldText other = program.fieldText field := by
  obtain ⟨owner, holder, name, type, named, found, owned⟩ := same_field.mp same
  obtain ⟨rfl, rfl, rfl⟩ := fieldKey?_fieldAt named
  obtain ⟨rfl, sameName, sameType⟩ := fieldKey?_fieldAt found
  simp only [Program.fieldText, sameName, sameType, owned.typeText]

end Program.Same

namespace Listing

/-- Frames that list corresponding locals and targets with the same texts. -/
structure Frame.Mirrors (frame other : Frame) (slots : Local → Local → Prop)
    (targets : InstructionId → InstructionId → Prop) : Prop where
  slot : ∀ {slot place}, slots slot place → other.slot place = frame.slot slot
  label : ∀ {target place}, targets target place → other.label place = frame.label target

namespace Frame.Mirrors

variable {frame other : Frame} {slots : Local → Local → Prop}
  {targets : InstructionId → InstructionId → Prop} (mirrors : frame.Mirrors other slots targets)

include mirrors

theorem callText {call another : Call} (kind : another.kind = call.kind)
    (method : frame.program.Same other.program (.method call.method) (.method another.method))
    (arguments : List.Forall₂ slots call.arguments another.arguments)
    (result : Option.Rel slots call.result another.result) :
    other.callText another = frame.callText call := by
  have operands : another.arguments.map other.slot = call.arguments.map frame.slot :=
    map_eq_of_forall₂ arguments fun _ _ stands => mirrors.slot stands
  unfold Frame.callText
  rw [kind, method.methodText, operands]
  generalize call.result = expected at result ⊢
  generalize another.result = given at result ⊢
  cases result with
  | none => rfl
  | some stands =>
    dsimp only
    rw [mirrors.slot stands]

omit mirrors in
theorem constantText {value constant : Constant}
    (same : SameConstant frame.program other.program value constant) :
    other.constantText constant = frame.constantText value := by
  cases value with
  | classOf type =>
    obtain ⟨id, rfl, same⟩ := same
    simp only [Frame.constantText, same.typeText]
  | _ =>
    cases same
    rfl

theorem accessText {use another : FieldAccess} (kind : another.kind = use.kind)
    (field : frame.program.Same other.program (.field use.field) (.field another.field))
    (value : slots use.value another.value) (object : Option.Rel slots use.object another.object) :
    other.accessText another = frame.accessText use := by
  unfold Frame.accessText
  rw [kind, field.fieldText, mirrors.slot value]
  generalize use.object = expected at object ⊢
  generalize another.object = given at object ⊢
  cases object with
  | none => rfl
  | some stands =>
    dsimp only
    rw [mirrors.slot stands]

/-- Like instructions have the same text. -/
theorem instructionText {instruction built : Instruction}
    (alike : Alike frame.program other.program slots targets instruction built) :
    other.instructionText built = frame.instructionText instruction := by
  cases alike with
  | invoke kind method owner arguments result => exact mirrors.callText kind method arguments result
  | const placed same =>
    simp only [Frame.instructionText, mirrors.slot placed, constantText same]
  | access kind field value object => exact mirrors.accessText kind field value object
  | move placed read =>
    simp only [Frame.instructionText, mirrors.slot placed, mirrors.slot read]
  | ret read =>
    cases read with
    | none => rfl
    | some stands =>
      simp only [Frame.instructionText, mirrors.slot stands]
  | branch tests found =>
    cases tests with
    | none =>
      simp only [Frame.instructionText, mirrors.label found]
    | @some test another same =>
      obtain ⟨comparison, left, right⟩ := test
      obtain ⟨comparison', left', right'⟩ := another
      obtain ⟨rfl, first, second⟩ := same
      dsimp only at first second
      cases second with
      | none =>
        simp only [Frame.instructionText, mirrors.slot first, mirrors.label found]
      | some stands =>
        simp only [Frame.instructionText, mirrors.slot first, mirrors.slot stands, mirrors.label found]
  | binary placed left right =>
    simp only [Frame.instructionText, mirrors.slot placed, mirrors.slot left, mirrors.slot right]
  | newArray placed read same | checkCast placed read same | instanceOf placed read same =>
    simp only [Frame.instructionText, mirrors.slot placed, mirrors.slot read, same.typeText]
  | arrayLength placed read =>
    simp only [Frame.instructionText, mirrors.slot placed, mirrors.slot read]
  | throwValue read =>
    simp only [Frame.instructionText, mirrors.slot read]

end Frame.Mirrors

theorem Frame.label_of_mem {frame : Frame} {target : InstructionId} (member : target ∈ frame.instructions) :
    frame.label target = s!"@{frame.instructions.toList.idxOf target}" := by
  obtain ⟨program, locals, ⟨list⟩⟩ := frame
  rw [← Array.mem_toList_iff] at member
  unfold Frame.label
  simp only [List.idxOf?_toArray, List.idxOf_eq_getD_idxOf?]
  cases found : list.idxOf? target with
  | none => exact absurd member (List.idxOf?_eq_none_iff.mp found)
  | some place => rfl

section Mirrored

variable {program copy : Program} {slots : Local → Local → Prop}
  {targets : InstructionId → InstructionId → Prop} {body other : Body}
  (mirrored : Mirrored program copy slots targets body other) (unique : Relator.BiUnique slots)
  (kinds : ∀ {slot place}, slots slot place → place.kind = slot.kind) (handles : Relator.BiUnique targets)
  (inside : ∀ {target place}, targets target place → target ∈ body.instructions)

include mirrored unique kinds handles inside

theorem mirrors_ofBody : (Frame.ofBody program body).Mirrors (Frame.ofBody copy other) slots targets where
  slot {slot place} stands := by
    have locals : List.Forall₂ slots (body.parameters ++ program.usedLocals body)
        (other.parameters ++ copy.usedLocals other) :=
      List.rel_append mirrored.parameters (mirrored.usedLocals unique)
    unfold Frame.slot Frame.ofBody
    rw [kinds stands, idxOf_eq_of_forall₂ locals unique stands]
  label {target place} leads := by
    have here := inside leads
    have there : place ∈ other.instructions := by
      rw [← Array.mem_toList_iff] at here ⊢
      exact (List.rel_mem handles leads mirrored.handles).mp here
    have left : (Frame.ofBody program body).label target = _ := Frame.label_of_mem here
    have right : (Frame.ofBody copy other).label place = _ := Frame.label_of_mem there
    rw [left, right]
    dsimp only [Frame.ofBody]
    rw [idxOf_eq_of_forall₂ mirrored.handles handles leads]

/-- Bodies of alike instructions have the same text. -/
theorem bodyText_eq (indent : String) : bodyText copy indent other = bodyText program indent body := by
  have mirrors := mirrors_ofBody mirrored unique kinds handles inside
  have entries : other.parameters.map (Frame.ofBody copy other).slot =
      body.parameters.map (Frame.ofBody program body).slot :=
    map_eq_of_forall₂ mirrored.parameters fun _ _ stands => mirrors.slot stands
  have lines : other.instructions.toList.zipIdx.map (fun entry => (copy.instruction? entry.1).map fun built =>
        indent ++ "  " ++ position entry.2 ++ ": " ++ (Frame.ofBody copy other).instructionText built ++ "\n") =
      body.instructions.toList.zipIdx.map (fun entry => (program.instruction? entry.1).map fun instruction =>
        indent ++ "  " ++ position entry.2 ++ ": " ++
          (Frame.ofBody program body).instructionText instruction ++ "\n") := by
    apply map_eq_of_forall₂ (forall₂_zipIdx mirrored.code)
    rintro ⟨id, place⟩ ⟨id', place'⟩ ⟨⟨instruction, built, original, attached, alike⟩, same⟩
    cases same
    dsimp only at original attached
    rw [original, attached, Option.map_some, Option.map_some, mirrors.instructionText alike]
  have joined := congrArg (List.filterMap id) lines
  rw [List.filterMap_map, List.filterMap_map] at joined
  dsimp only [bodyText]
  rw [entries]
  exact congrArg (fun text => _ ++ String.join text ++ indent ++ "\x7d\n") joined

end Mirrored

section Classes

variable {program copy : Program}

/-- Declarations have the same text if their bodies have. -/
theorem methodText_eq {alike : Body → Body → Prop} (indent : String) {method other : MethodId}
    (declared : program.MethodDeclared copy method other)
    (related : Option.Rel alike (program.body? method) (copy.body? other))
    (each : ∀ {body another}, program.body? method = some body → copy.body? other = some another →
      alike body another → bodyText copy indent another = bodyText program indent body) :
    methodText copy indent other = methodText program indent method := by
  obtain ⟨owner, holder, name, signature, named, found, owned⟩ := same_method.mp declared.same
  obtain ⟨-, rfl, rfl⟩ := methodKey?_methodAt named
  obtain ⟨-, sameName, sameSignature⟩ := methodKey?_methodAt found
  obtain ⟨access, flags, flags'⟩ := declared.declaration
  simp only [methodText, flags, flags', sameName, sameSignature]
  rw [← Program.body?, ← Program.body?]
  generalize program.body? method = expected at related each ⊢
  generalize copy.body? other = given at related each ⊢
  cases related with
  | none => rfl
  | some like =>
    dsimp only
    rw [each rfl rfl like]

theorem fieldText_eq {field other : FieldId} (declared : program.FieldDeclared copy field other) :
    fieldText copy other = fieldText program field := by
  obtain ⟨owner, holder, name, type, named, found, owned⟩ := same_field.mp declared.same
  obtain ⟨-, rfl, rfl⟩ := fieldKey?_fieldAt named
  obtain ⟨-, sameName, sameType⟩ := fieldKey?_fieldAt found
  obtain ⟨access, flags, flags'⟩ := declared.declaration
  simp only [fieldText, flags, flags', sameName, sameType]

theorem typeText_eq {type other : TypeId} (like : program.ClassLike copy type other)
    (each : ∀ {method id}, program.MethodDeclared copy method id → method ∈ program.methodsOf type →
      methodText copy "  " id = methodText program "  " method) :
    typeText copy other = typeText program type := by
  obtain ⟨same, definition, here, another, there, header, fields, methods⟩ := like
  obtain ⟨descriptor, named, found⟩ := same_type.mp same
  have interfaces : another.interfaces.map (fun type => " implements " ++ copy.typeText type) =
      definition.interfaces.map (fun type => " implements " ++ program.typeText type) := by
    apply map_eq_of_forall₂ header.interfaces
    intro type id same
    rw [same.typeText]
  have listed := map_eq_of_forall₂ fields fun _ _ declared => fieldText_eq declared
  have coded : another.methods.toList.map (methodText copy "  ") =
      definition.methods.toList.map (methodText program "  ") := by
    unfold methodsOf at each
    rw [here] at each
    have held := (List.forall₂_and_left _ _).mpr ⟨fun _ => id, methods⟩
    exact map_eq_of_forall₂ held fun _ _ declared => each declared.2 declared.1
  have related := header.superclass
  rw [definition?] at here there
  simp only [typeText, here, there, interfaces, listed, coded, header.access, header.source,
    descriptor?_typeAt named, descriptor?_typeAt found]
  generalize definition.superclass = expected at related ⊢
  generalize another.superclass = given at related ⊢
  cases related with
  | none => rfl
  | some same =>
    dsimp only
    rw [same.typeText]

end Classes

end Listing

/-- Classes that a program has again are listed with the same texts if their bodies are. -/
theorem Program.Echoes.text {program copy : Program} {alike : Body → Body → Prop} {types holders : List TypeId}
    (echoes : program.Echoes copy alike types holders)
    (each : ∀ {method other body another}, program.body? method = some body → copy.body? other = some another →
      alike body another → Listing.bodyText copy "  " another = Listing.bodyText program "  " body) :
    holders.map (fun type => Listing.typeText copy type ++ "\n") =
      types.map fun type => Listing.typeText program type ++ "\n" := by
  have held := (List.forall₂_and_left _ _).mpr ⟨fun _ => id, echoes.classes⟩
  apply map_eq_of_forall₂ held
  rintro type other ⟨member, like⟩
  refine congrArg (· ++ "\n") (Listing.typeText_eq like fun declared listed => ?_)
  exact Listing.methodText_eq "  " declared (echoes.bodies declared (List.mem_flatMap.mpr ⟨type, member, listed⟩))
    each

/-- A copy has the listing of the original. -/
theorem Program.Copied.listing_eq {program copy : Program} (copied : program.Copied copy)
    (steps : Steps {} program) : copy.listing = program.listing := by
  refine congrArg String.join (copied.echoes.text ?_)
  rintro method other body another here there ⟨used, like⟩
  have sound := steps.bodiesSound
  have whole := nodup_usedLocals program (sound.parameters here)
  have kinds : (used ++ another.parameters).map Local.kind =
      (program.usedLocals body ++ body.parameters).map Local.kind := by
    rw [List.map_append, List.map_append, like.parameters, like.kinds]
  refine Listing.bodyText_eq like.mirrored (biUnique_paired whole like.distinct) (Paired.kind kinds)
    (biUnique_paired (sound.distinct here) (copied.follows.orderly.bodies.distinct there)) ?_ "  "
  exact fun leads => Array.mem_toList_iff.mp leads.mem_left

end ClassImage
