import ClassImage.Proofs.Copy.Locals
import ClassImage.Proofs.Merge.Symbols

/-!
Building an instruction twice. The frames of the two runs hold locals that were
issued at the same distance from the starts of the bodies, and the runs issue
locals in step, so the operands stand for each other. What the first run finds
about the marker of a member lasts, so the checks of the second run pass.
-/

namespace ClassImage

namespace Program

/-- Locals of one kind that were issued as far from two starts. -/
def LevelLocal (first second : Nat) (slot place : Local) : Prop :=
  place.kind = slot.kind ∧ Level first second slot.id place.id

/-- Handles that were issued as far from two starts. -/
def LevelHandle (first second : Nat) (id place : InstructionId) : Prop :=
  Level first second id.index place.index

/-- What fits a known marker goes on fitting it. -/
theorem Lasts.fits {before after : Program} (lasts : before.Lasts after) {instruction : Instruction}
    (admitted : before.Admits instruction) (marked : before.Marked instruction)
    (fits : before.Fits instruction) : after.Fits instruction := by
  intro symbol used shape known found
  rw [lasts.more.memberShape?_eq admitted] at shape
  obtain ⟨static, earlier⟩ := Option.isSome_iff_exists.mp (marked symbol used shape)
  cases (lasts.markers earlier).symm.trans found
  exact fits symbol used shape known earlier

/-- Instructions that both runs have built: alike, and accepted by the final program. -/
structure Builds (final : Program) (slots : Local → Local → Prop)
    (targets : InstructionId → InstructionId → Prop) (source copy : Program)
    (instruction built : Instruction) (later after : Program) : Prop where
  grows : final.Grows source copy later after
  alike : Alike final after slots targets instruction built
  admitted : final.Admits instruction
  fits : final.Fits instruction

theorem Grows.builds {final source copy later after last again : Program}
    {slots : Local → Local → Prop} {targets : InstructionId → InstructionId → Prop}
    {instruction built : Instruction} (grows : final.Grows source copy later after)
    (builds : final.Builds slots targets later after instruction built last again) :
    final.Builds slots targets source copy instruction built last again :=
  { builds with grows := grows.trans builds.grows }

/-- An instruction whose operands no member decides. -/
theorem builds_plain {final : Program} {slots : Local → Local → Prop}
    {targets : InstructionId → InstructionId → Prop} {source copy : Program} {instruction built : Instruction}
    (admitted : final.Admits instruction) (shape : final.memberShape? instruction = none)
    (alike : Alike final copy slots targets instruction built) :
    final.Builds slots targets source copy instruction built source copy where
  grows := .refl _ _ _
  alike := alike
  admitted := admitted
  fits := by
    intro symbol used found
    rw [shape] at found
    cases found

end Program

namespace Loading.Context

open Program Edit

/-- Frames of two runs: the same units, with operands that stand for each other. -/
structure Frame.Agrees (frame other : Frame) (slots : Local → Local → Prop)
    (targets : InstructionId → InstructionId → Prop) : Prop where
  registers : List.Forall₂ (Option.Rel slots) frame.registers.toList other.registers.toList
  units : other.units = frame.units
  handles : ∀ place, targets ⟨frame.firstUnit.index + place⟩ ⟨other.firstUnit.index + place⟩

section Frame

variable {frame other : Frame} {slots : Local → Local → Prop}
  {targets : InstructionId → InstructionId → Prop} (agrees : frame.Agrees other slots targets)
  {final source copy : Program} {α : Type} {goal : α → α → Program → Program → Prop}

include agrees

theorem Frame.Agrees.target (position : UInt32) :
    targets (frame.target position) (other.target position) := by
  unfold Frame.target
  rw [agrees.units]
  exact agrees.handles _

theorem Frame.Agrees.slot_bind {register : UInt16} {next following : Local → Edit α}
    (onward : ∀ slot place, slots slot place →
      Repeats final (next slot) (following place) source copy goal) :
    Repeats final (frame.slot register >>= next) (other.slot register >>= following) source copy goal := by
  have placed : Option.Rel slots frame.registers[register.toNat]?.join
      other.registers[register.toNat]?.join := by
    rw [← Array.getElem?_toList, ← Array.getElem?_toList]
    have all := agrees.registers
    generalize frame.registers.toList = list at all ⊢
    generalize other.registers.toList = others at all ⊢
    generalize register.toNat = position
    induction all generalizing position with
    | nil => exact .none
    | cons first _ ih =>
      cases position with
      | zero => simpa using first
      | succ position => simpa using ih position
  unfold Frame.slot
  generalize frame.registers[register.toNat]?.join = slot at placed ⊢
  generalize other.registers[register.toNat]?.join = place at placed ⊢
  cases placed with
  | none => exact .throw
  | some stands => exact onward _ _ stands

theorem Frame.Agrees.slots_bind {registers : List UInt16} {next following : List Local → Edit α}
    (onward : ∀ list others, List.Forall₂ slots list others →
      Repeats final (next list) (following others) source copy goal) :
    Repeats final (registers.mapM frame.slot >>= next) (registers.mapM other.slot >>= following)
      source copy goal := by
  induction registers generalizing next following with
  | nil => exact onward [] [] .nil
  | cons register registers ih =>
    simp only [List.mapM_cons, bind_assoc, pure_bind]
    refine agrees.slot_bind fun slot place stands => ih fun list others all => ?_
    exact onward _ _ (.cons stands all)

/-- The object of a field access, if there is one. -/
theorem Frame.Agrees.optional_bind {register : Option UInt16} {next following : Option Local → Edit α}
    (onward : ∀ slot place, slot.isNone = register.isNone → Option.Rel slots slot place →
      Repeats final (next slot) (following place) source copy goal) :
    Repeats final (register.mapM frame.slot >>= next) (register.mapM other.slot >>= following)
      source copy goal := by
  cases register with
  | none => exact onward none none rfl .none
  | some register =>
    simp only [Option.mapM_some, ← bind_pure_comp, bind_assoc, pure_bind]
    exact agrees.slot_bind fun slot place stands => onward _ _ rfl (.some stands)

end Frame

section Build

variable {image : Image} {first second final source copy : Program} {a b : Nat} {frame other : Frame}
  {targets : InstructionId → InstructionId → Prop}
  (sound : final.KeysSound) (follows : final.Follows copy)

section Checks

include follows

theorem repeats_buildCall {kind : CallKind} {method id : MethodId} {arguments others : List Local}
    {result place : Option Local} {static : Bool}
    (met : MethodFound final source copy static method id)
    (all : List.Forall₂ (LevelLocal a b) arguments others) (bound : Option.Rel (LevelLocal a b) result place) :
    Repeats final (buildCall ⟨kind, some method, arguments, result⟩) (buildCall ⟨kind, some id, others, place⟩)
      source copy fun instruction built later after =>
        final.Builds (LevelLocal a b) targets source copy instruction built later after := by
  intro indexed instruction later ran lasts
  obtain ⟨call, middle, checked, made⟩ := outcome_bind_ok.mp ran
  cases made
  have checked := outcome_adapt_ok.mp checked
  obtain rfl : source = later := congrArg Prod.snd checked
  have passed : (CallRequest.mk kind (some method) arguments result).build source = .ok call :=
    congrArg Prod.fst checked
  obtain ⟨request, owner, suits, agreed⟩ := CallRequest.build_ok.mp passed
  simp only [CallRequest.mk.injEq, Option.some.injEq] at request
  obtain ⟨rfl, rfl, rfl, rfl⟩ := request
  obtain ⟨_, _, name, signature, named, -⟩ := same_method.mp met.same
  obtain ⟨rfl, rfl, rfl⟩ := methodKey?_methodAt (met.key.trans named)
  have admitted : source.Admits (.invoke call) := ⟨_, _, owner ▸ met.key.trans named, suits⟩
  have shaped : source.Fits (.invoke call) := by
    intro symbol used shape known recorded
    rw [memberShape?_invoke] at shape
    cases shape
    exact agreed known recorded
  have noted : source.Marked (.invoke call) := by
    intro symbol used shape
    rw [memberShape?_invoke] at shape
    cases shape
    rw [met.marked]
    rfl
  have accepted := lasts.more.admits admitted
  have fits := lasts.fits admitted noted shaped
  have alike : Alike final copy (LevelLocal a b) targets (.invoke call)
      (.invoke ⟨call.kind, id, (copy.methodAt id).owner, others, place⟩) :=
    .invoke rfl met.same (owner ▸ met.entry.2) all bound
  have built := build_of_admits (alike.admits follows.keysSound (fun stands => stands.1) accepted)
    (alike.fits follows fits)
  have given : Gives (Edit.check (CallRequest.mk call.kind (some id) others place).build) copy
      ⟨call.kind, id, (copy.methodAt id).owner, others, place⟩ := Prod.ext built rfl
  refine ⟨indexed, _, copy, given.adapt.bind rfl, .refl _ _ _, alike, accepted, fits⟩

theorem repeats_buildAccess {kind : AccessKind} {field id : FieldId} {value taken : Local}
    {object place : Option Local} {static : Bool} (same : final.Same copy (.field field) (.field id))
    (marked : source.marker (.field field) = some static)
    (key : source.fieldKey? field = final.fieldKey? field)
    (read : LevelLocal a b value taken) (held : Option.Rel (LevelLocal a b) object place) :
    Repeats final (buildAccess ⟨kind, some field, some value, object⟩)
      (buildAccess ⟨kind, some id, some taken, place⟩) source copy fun instruction built later after =>
        final.Builds (LevelLocal a b) targets source copy instruction built later after := by
  intro indexed instruction later ran lasts
  obtain ⟨use, middle, checked, made⟩ := outcome_bind_ok.mp ran
  cases made
  have checked := outcome_adapt_ok.mp checked
  obtain rfl : source = later := congrArg Prod.snd checked
  have passed : (AccessRequest.mk kind (some field) (some value) object).build source = .ok use :=
    congrArg Prod.fst checked
  obtain ⟨request, suits, agreed⟩ := AccessRequest.build_ok.mp passed
  simp only [AccessRequest.mk.injEq, Option.some.injEq] at request
  obtain ⟨rfl, rfl, rfl, rfl⟩ := request
  obtain ⟨owner, _, name, type, named, -, -⟩ := same_field.mp same
  obtain ⟨rfl, rfl, rfl⟩ := fieldKey?_fieldAt (key.trans named)
  have admitted : source.Admits (.access use) := ⟨_, _, _, key.trans named, suits⟩
  have shaped : source.Fits (.access use) := by
    rintro symbol used ⟨⟩ known recorded
    exact agreed known recorded
  have noted : source.Marked (.access use) := by
    rintro symbol used ⟨⟩
    rw [marked]
    rfl
  have accepted := lasts.more.admits admitted
  have fits := lasts.fits admitted noted shaped
  have alike : Alike final copy (LevelLocal a b) targets (.access use)
      (.access ⟨use.kind, id, taken, place⟩) := .access rfl same read held
  have built := buildAccess_of_admits (alike.admits follows.keysSound (fun stands => stands.1) accepted)
    (alike.fits follows fits)
  have given : Gives (Edit.check (AccessRequest.mk use.kind (some id) (some taken) place).build) copy
      ⟨use.kind, id, taken, place⟩ := Prod.ext built rfl
  refine ⟨indexed, _, copy, given.adapt.bind rfl, .refl _ _ _, alike, accepted, fits⟩

end Checks

theorem repeats_noteDispatch (twin : copy.Indexed) {dispatch : Dispatch} {owner holder : TypeId} :
    Repeats final (noteDispatch dispatch owner) (noteDispatch dispatch holder) source copy
      fun _ _ later after => final.Grows source copy later after := by
  unfold noteDispatch
  split
  · exact repeats_markInterface twin owner holder
  · exact .pure (.refl _ _ _)

theorem repeats_freshLocal (level : Level a b source.owners.size copy.owners.size) (kind : ValueKind) :
    Repeats final (Edit.freshLocal kind) (Edit.freshLocal kind) source copy fun slot place later after =>
      final.Grows source copy later after ∧ LevelLocal a b slot place := by
  intro indexed slot later ran _
  cases ran
  have grown : Growth source source.addLocal := .slot
  have sizes : Level source.owners.size copy.owners.size source.addLocal.owners.size
      copy.addLocal.owners.size := ⟨1, Array.size_push _, Array.size_push _⟩
  exact ⟨grown.indexed indexed, ⟨copy.owners.size, kind⟩, copy.addLocal, rfl,
    ⟨.single grown, .single gains_addLocal, sizes⟩, rfl, level⟩

theorem repeats_resultSlot (level : Level a b source.owners.size copy.owners.size)
    (agrees : frame.Agrees other (LevelLocal a b) targets) (signature : Signature) (result : Option UInt16) :
    Repeats final (resultSlot frame signature result) (resultSlot other signature result) source copy
      fun slot place later after => final.Grows source copy later after ∧
        Option.Rel (LevelLocal a b) slot place := by
  cases result with
  | some dst =>
    rw [resultSlot, resultSlot, ← bind_pure_comp, ← bind_pure_comp]
    exact agrees.slot_bind fun slot place stands => .pure ⟨.refl _ _ _, .some stands⟩
  | none =>
    apply Repeats.optional
    · exact fun _ => ⟨.refl _ _ _, .none⟩
    intro kind _
    exact (repeats_freshLocal level kind).imp fun slot place _ _ met => ⟨met.1, .some met.2⟩

theorem isSome_of_same_type {type id : TypeId} (same : final.Same copy (.type type) (.type id)) :
    (final.descriptor? type).isSome := by
  obtain ⟨descriptor, named, -⟩ := same_type.mp same
  rw [named]
  rfl

include sound follows in
/-- An instruction that names a type beside its operands. -/
theorem repeats_typed {index : UInt32} {instruction built : TypeId → Instruction}
    (each : ∀ type id after, final.Same after (.type type) (.type id) →
      final.Admits (instruction type) ∧ final.memberShape? (instruction type) = none ∧
      Alike final after (LevelLocal a b) targets (instruction type) (built id)) :
    Repeats final ((Context.mk image first).type index >>= fun type => pure (instruction type))
      ((Context.mk image second).type index >>= fun id => pure (built id)) source copy
      fun instruction built later after =>
        final.Builds (LevelLocal a b) targets source copy instruction built later after := by
  apply (repeats_type sound follows).bind
  · exact fun _ => .pure
  rintro type id later after ⟨grows, same⟩
  obtain ⟨admitted, shape, alike⟩ := each type id after same
  exact .pure (grows.builds (builds_plain admitted shape alike))

include sound follows

theorem repeats_buildAllocation (agrees : frame.Agrees other (LevelLocal a b) targets) {dst : UInt16}
    {type constructor : UInt32} {arguments : List UInt16} :
    Repeats final ((Context.mk image first).buildAllocation frame dst type constructor arguments)
      ((Context.mk image second).buildAllocation other dst type constructor arguments) source copy
      fun instruction built later after =>
        final.Builds (LevelLocal a b) targets source copy instruction built later after := by
  apply (repeats_method sound follows).bind
  · exact fun _ => (lasting_type _ _).bind fun _ => .get_bind fun _ => Lasting.refuse.bind fun _ =>
      (lasting_slot _ _).bind fun _ => (Lasting.mapM (lasting_slot _)).bind fun _ => lasting_buildCall _
  rintro method id later after ⟨found, met⟩
  apply (repeats_type sound (found.follows follows)).bind
  · exact fun _ => .get_bind fun _ => Lasting.refuse.bind fun _ => (lasting_slot _ _).bind fun _ =>
      (Lasting.mapM (lasting_slot _)).bind fun _ => lasting_buildCall _
  rintro allocated holder later after ⟨onward, same⟩
  have grows := found.trans onward
  have met := met.grows onward
  have reached := grows.follows follows
  refine .get_bind (.refuse_bind ?_ fun _ => ?_)
  · intro owned
    have twin := met.entry.2
    rw [not_not.mp owned] at twin
    exact not_not.mpr (Symbol.type.inj (Same.copy_eq reached.keysSound twin same))
  · refine agrees.slot_bind fun result place stands => agrees.slots_bind fun list others all => ?_
    apply (repeats_buildCall reached met all (.some stands)).imp
    exact fun instruction built last again builds => grows.builds builds

theorem repeats_buildInvoke (level : Level a b source.owners.size copy.owners.size)
    (agrees : frame.Agrees other (LevelLocal a b) targets) {dispatch : Dispatch} {method : UInt32}
    {arguments : List UInt16} {result : Option UInt16} :
    Repeats final ((Context.mk image first).buildInvoke frame dispatch method arguments result)
      ((Context.mk image second).buildInvoke other dispatch method arguments result) source copy
      fun instruction built later after =>
        final.Builds (LevelLocal a b) targets source copy instruction built later after := by
  apply (repeats_method sound follows).bind
  · exact fun _ => .get_bind fun _ => (lasting_noteDispatch _ _).bind fun _ =>
      (Lasting.mapM (lasting_slot _)).bind fun _ => (lasting_resultSlot _ _ _).bind fun _ =>
        lasting_buildCall _
  rintro target id later after ⟨found, met⟩
  refine .get_bind ?_
  dsimp only
  rw [met.entry.1]
  apply (repeats_noteDispatch (found.follows follows).keysSound.indexed).bind
  · exact fun _ => (Lasting.mapM (lasting_slot _)).bind fun _ => (lasting_resultSlot _ _ _).bind fun _ =>
      lasting_buildCall _
  intro _ _ later' after' noted
  refine agrees.slots_bind fun list others all => ?_
  have begun := found.trans noted
  apply (repeats_resultSlot (level.trans begun.issued) agrees _ _).bind
  · exact fun _ => lasting_buildCall _
  rintro slot place last again ⟨onward, bound⟩
  have grows := begun.trans onward
  apply (repeats_buildCall (grows.follows follows) ((met.grows noted).grows onward) all bound).imp
  exact fun instruction built _ _ builds => grows.builds builds

theorem repeats_buildSingle_access (agrees : frame.Agrees other (LevelLocal a b) targets)
    (kind : AccessKind) (value : UInt16) (field : UInt32) (object : Option UInt16) :
    Repeats final ((Context.mk image first).buildSingle frame (kind.raw value field object))
      ((Context.mk image second).buildSingle other (kind.raw value field object)) source copy
      fun instruction built later after =>
        final.Builds (LevelLocal a b) targets source copy instruction built later after := by
  rw [buildSingle_access, buildSingle_access]
  apply (repeats_field sound follows).bind
  · exact fun _ => (lasting_slot _ _).bind fun _ => (Lasting.optional (lasting_slot _)).bind fun _ =>
      lasting_buildAccess _
  rintro found id later after ⟨grows, same, marked, key⟩
  refine agrees.slot_bind fun slot place stands => agrees.optional_bind fun held holder _ related => ?_
  apply (repeats_buildAccess (grows.follows follows) same marked key stands related).imp
  exact fun instruction built _ _ builds => grows.builds builds

theorem repeats_buildSingle (agrees : frame.Agrees other (LevelLocal a b) targets) (raw : RawInstruction) :
    Repeats final ((Context.mk image first).buildSingle frame raw)
      ((Context.mk image second).buildSingle other raw) source copy fun instruction built later after =>
        final.Builds (LevelLocal a b) targets source copy instruction built later after := by
  cases raw with
  | move | arrayLength =>
    refine agrees.slot_bind fun _ _ stands => agrees.slot_bind fun _ _ read => .pure ?_
    exact builds_plain trivial rfl (by constructor <;> assumption)
  | binary =>
    refine agrees.slot_bind fun _ _ stands => agrees.slot_bind fun _ _ read =>
      agrees.slot_bind fun _ _ taken => .pure ?_
    exact builds_plain trivial rfl (.binary stands read taken)
  | returnVoid => exact .pure (builds_plain trivial rfl (.ret .none))
  | goto => exact .pure (builds_plain trivial rfl (.branch .none (agrees.target _)))
  | returnValue =>
    exact agrees.slot_bind fun _ _ read => .pure (builds_plain trivial rfl (.ret (.some read)))
  | throwValue =>
    exact agrees.slot_bind fun _ _ read => .pure (builds_plain trivial rfl (.throwValue read))
  | constInt | constWide | constFloat | constDouble | constNull =>
    exact agrees.slot_bind fun _ _ stands => .pure (builds_plain trivial rfl (.const stands rfl))
  | ifZero =>
    refine agrees.slot_bind fun _ _ read => .pure (builds_plain trivial rfl ?_)
    exact .branch (.some ⟨rfl, read, .none⟩) (agrees.target _)
  | ifCompare =>
    refine agrees.slot_bind fun _ _ read => agrees.slot_bind fun _ _ taken =>
      .pure (builds_plain trivial rfl ?_)
    exact .branch (.some ⟨rfl, read, .some taken⟩) (agrees.target _)
  | constText dst index =>
    refine agrees.slot_bind fun _ _ stands => repeats_text.bind (fun _ => .pure) ?_
    rintro _ text _ _ ⟨rfl, rfl, rfl⟩
    exact .pure (builds_plain trivial rfl (.const stands rfl))
  | constClass =>
    refine agrees.slot_bind fun _ _ stands => repeats_typed sound follows fun type id after same => ?_
    exact ⟨isSome_of_same_type same, rfl, .const stands ⟨id, rfl, same⟩⟩
  | newArray =>
    refine agrees.slot_bind fun _ _ stands => agrees.slot_bind fun _ _ read =>
      repeats_typed sound follows fun type id after same => ?_
    exact ⟨isSome_of_same_type same, rfl, .newArray stands read same⟩
  | checkCast =>
    refine agrees.slot_bind fun _ _ stands => agrees.slot_bind fun _ _ read =>
      repeats_typed sound follows fun type id after same => ?_
    exact ⟨isSome_of_same_type same, rfl, .checkCast stands read same⟩
  | instanceOf =>
    refine agrees.slot_bind fun _ _ stands => agrees.slot_bind fun _ _ read =>
      repeats_typed sound follows fun type id after same => ?_
    exact ⟨isSome_of_same_type same, rfl, .instanceOf stands read same⟩
  | instanceGet dst object field =>
    exact repeats_buildSingle_access sound follows agrees .load dst field (some object)
  | instancePut src object field =>
    exact repeats_buildSingle_access sound follows agrees .store src field (some object)
  | staticGet dst field => exact repeats_buildSingle_access sound follows agrees .load dst field none
  | staticPut src field => exact repeats_buildSingle_access sound follows agrees .store src field none
  | nop | moveResult | newInstance | invoke => exact .throw

/-- Both runs make like instructions of a unit. -/
theorem repeats_buildUnit (level : Level a b source.owners.size copy.owners.size)
    (agrees : frame.Agrees other (LevelLocal a b) targets) (unit : CodeUnit) :
    Repeats final ((Context.mk image first).buildUnit frame unit) ((Context.mk image second).buildUnit other unit)
      source copy fun instruction built later after =>
        final.Builds (LevelLocal a b) targets source copy instruction built later after := by
  cases unit with
  | allocation => exact repeats_buildAllocation sound follows agrees
  | call => exact repeats_buildInvoke sound follows level agrees
  | single raw => exact repeats_buildSingle sound follows agrees raw

end Build

end Loading.Context

end ClassImage
