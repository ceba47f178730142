import ClassImage.Proofs.Copy.Instructions

/-!
Building the instructions of a copy. A unit that an instruction of the original
was lowered to is built into a like instruction of the copy, provided that the
registers and positions of the unit are resolved to locals and instructions of
the copy that stand for those of the original.
-/

namespace ClassImage

namespace Loading.Context

open Program Edit

/-- What a frame finds under a register or a position stands for what was lowered to it. -/
structure Frame.Serves (frame : Frame) (code : CodeContext) (slots : Local → Local → Prop)
    (targets : InstructionId → InstructionId → Prop) : Prop where
  places : ∀ {slot register}, code.Places slot register →
    ∃ other, frame.registers[register.toNat]?.join = some other ∧ slots slot other
  reaches : ∀ {target position}, code.Reaches target position →
    targets target (frame.target position)
  kinds : ∀ {slot other}, slots slot other → other.kind = slot.kind

section Frame

variable {frame : Frame} {code : CodeContext} {slots : Local → Local → Prop}
  {targets : InstructionId → InstructionId → Prop} (serves : frame.Serves code slots targets)
  {step : Program → Program → Prop} {before : Program} {α : Type} {goal : α → Program → Prop}

include serves

theorem Frame.Serves.gives {slot : Local} {register : UInt16} (placed : code.Places slot register) :
    ∃ other, Gives (frame.slot register) before other ∧ slots slot other := by
  obtain ⟨other, found, same⟩ := serves.places placed
  refine ⟨other, ?_, same⟩
  rw [Frame.slot, found]
  rfl

theorem Frame.Serves.slot_bind {slot : Local} {register : UInt16} {next : Local → Edit α}
    (placed : code.Places slot register)
    (second : ∀ other, slots slot other → Meets step (next other) before goal) :
    Meets step (frame.slot register >>= next) before goal := by
  obtain ⟨other, given, same⟩ := serves.gives placed
  exact .gives_bind given (second other same)

theorem Frame.Serves.gives_all {list : List Local} {registers : List UInt16}
    (placed : List.Forall₂ code.Places list registers) :
    ∃ others, Gives (registers.mapM frame.slot) before others ∧ List.Forall₂ slots list others := by
  induction placed with
  | nil => exact ⟨[], rfl, .nil⟩
  | cons first _ ih =>
    obtain ⟨other, given, same⟩ := serves.gives first
    obtain ⟨others, rest, all⟩ := ih
    refine ⟨other :: others, ?_, .cons same all⟩
    rw [List.mapM_cons]
    exact given.bind (rest.bind rfl)

theorem Frame.Serves.slots_bind {list : List Local} {registers : List UInt16}
    {next : List Local → Edit α} (placed : List.Forall₂ code.Places list registers)
    (second : ∀ others, List.Forall₂ slots list others → Meets step (next others) before goal) :
    Meets step (registers.mapM frame.slot >>= next) before goal := by
  obtain ⟨others, given, all⟩ := serves.gives_all placed
  exact .gives_bind given (second others all)

theorem Frame.Serves.gives_optional {slot : Option Local} {register : Option UInt16}
    (placed : Option.Rel code.Places slot register) :
    ∃ other, Gives (register.mapM frame.slot) before other ∧ Option.Rel slots slot other := by
  cases placed with
  | none => exact ⟨none, rfl, .none⟩
  | some placed =>
    obtain ⟨other, given, same⟩ := serves.gives placed
    exact ⟨some other, given.map some, .some same⟩

/-- A call that hands its result on has a register for it, and one without a result has none. -/
theorem Frame.Serves.gives_resultSlot {slot : Option Local} {register : Option UInt16}
    {signature : Signature} (produced : ResultFits signature.result.kind? slot)
    (placed : Option.Rel code.Places slot register) :
    ∃ other, Gives (resultSlot frame signature register) before other ∧ Option.Rel slots slot other := by
  cases placed with
  | none =>
    refine ⟨none, ?_, .none⟩
    unfold resultSlot
    generalize signature.result.kind? = value at produced
    cases produced
    rfl
  | some placed =>
    obtain ⟨other, given, same⟩ := serves.gives placed
    exact ⟨some other, given.map some, .some same⟩

end Frame

/-- The call goes to a static method exactly if the marker says so. -/
theorem static_of_dispatch {code : CodeContext} {call : Call} (kind : call.kind ≠ .construct)
    (marked : (code.program.marker (.method call.method)).isSome)
    (fits : code.program.Fits (.invoke call)) :
    code.program.marker (.method call.method) = some (decide (code.dispatch call = .static)) := by
  obtain ⟨known, found⟩ := Option.isSome_iff_exists.mp marked
  have used := fits _ _ (memberShape?_invoke _ _) known found
  have entry : (code.program.methodAt call.method).marker = some known := found
  rw [found]
  cases form : call.kind with
  | construct => exact absurd form kind
  | special =>
    have plain : known = false := by
      rw [used, Call.implied, form]
      rfl
    unfold CodeContext.dispatch
    rw [form, plain]
    simp only
    split <;> rfl
  | normal =>
    unfold CodeContext.dispatch
    rw [form]
    simp only [entry]
    cases known with
    | true => rfl
    | false =>
      rw [if_neg (by simp)]
      split <;> rfl

theorem kind_of_dispatch {code : CodeContext} {call : Call} (kind : call.kind ≠ .construct) :
    (if code.dispatch call = .direct ∨ code.dispatch call = .super then CallKind.special
      else .normal) = call.kind := by
  unfold CodeContext.dispatch
  cases form : call.kind with
  | construct => exact absurd form kind
  | special =>
    simp only
    split <;> simp
  | normal =>
    simp only
    split
    · simp
    · split <;> simp

theorem meets_markInterface {program before : Program} (type : TypeId) :
    Meets program.Gains (markInterface type) before fun _ _ => True := by
  unfold markInterface
  refine .get_bind ?_
  cases defined : (before.typeAt type).isDefined with
  | true => exact .pure trivial
  | false =>
    have external : ¬(before.typeAt type).isDefined := by simp [defined]
    have growth : Growth before (before.setExternal type true) := .interface external
    change Meets program.Gains (Edit.setInterface type true) before _
    unfold Edit.setInterface
    refine .get_bind ?_
    cases status : (before.typeAt type).status with
    | external known =>
      have gains : program.Gains before (before.setExternal type true) := by
        refine ⟨growth, ?_⟩
        intro follows
        exact follows.of_members (.single (.grow growth)) rfl rfl rfl
      simp only [status]
      exact ⟨(), _, rfl, .single gains, trivial⟩
    | defined definition =>
      simp [TypeEntry.isDefined, TypeEntry.definition?, status] at defined

theorem meets_noteDispatch {program before : Program} (dispatch : Dispatch) (owner : TypeId) :
    Meets program.Gains (noteDispatch dispatch owner) before fun _ _ => True := by
  unfold noteDispatch
  split
  · exact meets_markInterface owner
  · exact .pure trivial

section Build

variable {context : Context} {frame : Frame} {code : CodeContext} {slots : Local → Local → Prop}
  {targets : InstructionId → InstructionId → Prop} {before : Program}
  (sound : code.program.KeysSound) (legible : context.Legible code.program)
  (serves : frame.Serves code slots targets)

include sound legible serves

omit sound legible in
theorem meets_buildCall {call other : Call} (follows : code.program.Follows before)
    (alike : Alike code.program before slots targets (.invoke call) (.invoke other))
    (admitted : code.program.Admits (.invoke call)) (fits : code.program.Fits (.invoke call)) :
    Meets code.program.Gains
      (buildCall ⟨other.kind, some other.method, other.arguments, other.result⟩) before
      fun built after => Alike code.program after slots targets (.invoke call) built := by
  have built := build_of_admits (alike.admits follows.keysSound serves.kinds admitted)
    (alike.fits follows fits)
  have given : Gives (Edit.check (CallRequest.mk other.kind (some other.method) other.arguments
      other.result).build) before other := Prod.ext built rfl
  exact .gives_bind given.adapt (.pure alike)

omit sound legible in
theorem meets_buildAccess {use other : FieldAccess} (follows : code.program.Follows before)
    (alike : Alike code.program before slots targets (.access use) (.access other))
    (admitted : code.program.Admits (.access use)) (fits : code.program.Fits (.access use)) :
    Meets code.program.Gains
      (buildAccess ⟨other.kind, some other.field, some other.value, other.object⟩) before
      fun built after => Alike code.program after slots targets (.access use) built := by
  have built := buildAccess_of_admits (alike.admits follows.keysSound serves.kinds admitted)
    (alike.fits follows fits)
  have given : Gives (Edit.check (AccessRequest.mk other.kind (some other.field) (some other.value)
      other.object).build) before other := Prod.ext built rfl
  exact .gives_bind given.adapt (.pure alike)

theorem meets_buildAllocation {call : Call} {result : Local} {dst : UInt16}
    {type constructor : UInt32} {arguments : List UInt16} (follows : code.program.Follows before)
    (admitted : code.program.Admits (.invoke call)) (fits : code.program.Fits (.invoke call))
    (kind : call.kind = .construct)
    (marked : (code.program.marker (.method call.method)).isSome) (bound : call.result = some result)
    (placed : code.Places result dst) (operands : List.Forall₂ code.Places call.arguments arguments)
    (target : context.image.pool.NamesMethod code.program constructor call.method)
    (allocated : context.image.pool.NamesType code.program type
      (code.program.methodAt call.method).owner) :
    Meets code.program.Gains (context.buildAllocation frame dst type constructor (dst :: arguments))
      before fun built after => Alike code.program after slots targets (.invoke call) built := by
  obtain ⟨known, found⟩ := Option.isSome_iff_exists.mp marked
  have instance' : known = false := by
    rw [fits _ _ (memberShape?_invoke _ _) known found, Call.implied, kind]
    rfl
  obtain ⟨name, signature, key, -⟩ := id admitted
  rw [(methodKey?_methodAt key).1] at allocated
  apply (meets_method sound legible follows target (instance' ▸ found)).bind
  intro method middle moved same
  apply (meets_type sound legible (Gains.follows moved follows) allocated (sound.methodOwners key)).bind
  intro owner after onward owned
  have reached := Gains.follows onward (Gains.follows moved follows)
  have same := same.extends (Gains.extends onward)
  obtain ⟨_, holder, _, _, named, there, held⟩ := same_method.mp same
  cases key.symm.trans named
  cases Same.copy_eq reached.keysSound held owned
  refine .get_bind (.refuse_bind ?_ ?_)
  · rw [(methodKey?_methodAt there).1]
    exact not_not.mpr rfl
  · apply serves.slot_bind placed
    intro place stands
    apply serves.slots_bind (by simpa using operands)
    intro others all
    have alike : Alike code.program after slots targets (.invoke call)
        (.invoke ⟨.construct, method, owner, others, some place⟩) :=
      .invoke kind.symm same held all (bound ▸ .some stands)
    have built := meets_buildCall serves reached alike admitted fits
    exact built

theorem meets_buildInvoke {call : Call} {method : UInt32} {arguments : List UInt16}
    {result : Option UInt16} (follows : code.program.Follows before)
    (admitted : code.program.Admits (.invoke call)) (fits : code.program.Fits (.invoke call))
    (kind : call.kind ≠ .construct)
    (marked : (code.program.marker (.method call.method)).isSome)
    (operands : List.Forall₂ code.Places call.arguments arguments)
    (target : context.image.pool.NamesMethod code.program method call.method)
    (bound : Option.Rel code.Places call.result result) :
    Meets code.program.Gains
      (context.buildInvoke frame (code.dispatch call) method arguments result) before
      fun built after => Alike code.program after slots targets (.invoke call) built := by
  obtain ⟨name, signature, key, suits⟩ := id admitted
  apply (meets_method sound legible follows target (static_of_dispatch kind marked fits)).bind
  intro found middle moved same
  refine .get_bind ?_
  obtain ⟨_, holder, _, _, named, there, held⟩ := same_method.mp same
  cases key.symm.trans named
  apply (meets_noteDispatch _ _).bind
  rintro _ after onward -
  apply serves.slots_bind operands
  intro others all
  have reached := Gains.follows onward (Gains.follows moved follows)
  have more := Gains.extends onward
  have produced := suits.result
  rw [if_neg kind, ← (methodKey?_methodAt there).2.2] at produced
  obtain ⟨place, given, stands⟩ := serves.gives_resultSlot produced bound
  refine .gives_bind given ?_
  rw [kind_of_dispatch kind]
  have alike : Alike code.program after slots targets (.invoke call)
      (.invoke ⟨call.kind, found, holder, others, place⟩) :=
    .invoke rfl (same.extends more) (held.extends more) all stands
  have built := meets_buildCall serves reached alike admitted fits
  exact built

omit sound legible serves in
theorem buildSingle_access (kind : AccessKind) (value : UInt16) (field : UInt32) (object : Option UInt16) :
    context.buildSingle frame (kind.raw value field object) =
      (context.field field object.isNone >>= fun found => frame.slot value >>= fun place =>
        object.mapM frame.slot >>= fun other => buildAccess ⟨kind, some found, some place, other⟩) := by
  cases kind <;> cases object <;> simp [AccessKind.raw, buildSingle]

theorem meets_buildSingle_access {use : FieldAccess} {field : UInt32} {value : UInt16}
    {object : Option UInt16} (follows : code.program.Follows before)
    (admitted : code.program.Admits (.access use)) (fits : code.program.Fits (.access use))
    (marked : (code.program.marker (.field use.field)).isSome)
    (target : context.image.pool.NamesField code.program field use.field)
    (placed : code.Places use.value value) (held : Option.Rel code.Places use.object object) :
    Meets code.program.Gains (context.buildSingle frame (use.kind.raw value field object)) before
      fun built after => Alike code.program after slots targets (.access use) built := by
  obtain ⟨known, marker⟩ := Option.isSome_iff_exists.mp marked
  have used : known = object.isNone := by
    rw [fits _ _ rfl known marker, isNone_of_rel held]
  rw [buildSingle_access]
  apply (meets_field sound legible follows target (used ▸ marker)).bind
  intro found after moved same
  have reached := Gains.follows moved follows
  refine serves.slot_bind placed fun place stands => ?_
  obtain ⟨other, given, related⟩ : ∃ other, Gives (object.mapM frame.slot) after other ∧
      Option.Rel slots use.object other := serves.gives_optional held
  refine .gives_bind given ?_
  have alike : Alike code.program after slots targets (.access use)
      (.access ⟨use.kind, found, place, other⟩) := .access rfl same stands related
  have built := meets_buildAccess serves reached alike admitted fits
  exact built

theorem meets_buildSingle_const {target : Local} {dst : UInt16} {value : Constant}
    {raw : RawInstruction} (follows : code.program.Follows before)
    (admitted : code.program.Admits (.const target value)) (placed : code.Places target dst) (loads : context.image.pool.Loads code.program dst value raw) :
    Meets code.program.Gains (context.buildSingle frame raw) before
      fun built after => Alike code.program after slots targets (.const target value) built := by
  cases value with
  | text text =>
    obtain ⟨index, meant, rfl⟩ := loads
    refine serves.slot_bind placed fun place stands => ?_
    exact .gives_bind (gives_text meant) (.pure (.const stands rfl))
  | classOf type =>
    obtain ⟨index, meant, rfl⟩ := loads
    refine serves.slot_bind placed fun place stands => ?_
    refine (meets_type sound legible follows meant admitted).bind ?_
    intro id after moved same
    exact .pure (.const stands ⟨id, rfl, same⟩)
  | _ =>
    cases loads
    exact serves.slot_bind placed fun place stands => .pure (.const stands rfl)

/-- A unit is built into an instruction like the one that it was lowered from. -/
theorem meets_buildUnit {instruction : Instruction} {unit : CodeUnit}
    (follows : code.program.Follows before) (admitted : code.program.Admits instruction)
    (fits : code.program.Fits instruction)
    (lowered : Lowered context.image.pool code instruction unit) :
    Meets code.program.Gains (context.buildUnit frame unit) before
      fun built after => Alike code.program after slots targets instruction built := by
  have bind {slot register} {next : Local → Edit Instruction} {goal} :=
    @Frame.Serves.slot_bind frame code slots targets serves code.program.Gains before _ goal slot register next
  cases lowered with
  | construct kind marked bound placed operands target allocated =>
    exact meets_buildAllocation sound legible serves follows admitted fits kind marked bound placed operands
      target allocated
  | call kind marked operands target bound =>
    exact meets_buildInvoke sound legible serves follows admitted fits kind marked operands target bound
  | access marked target placed held =>
    exact meets_buildSingle_access sound legible serves follows admitted fits marked target placed held
  | const placed loads => exact meets_buildSingle_const sound legible serves follows admitted placed loads
  | move placed taken =>
    exact bind placed fun place stands => bind taken fun other read => .pure (.move stands read)
  | returnVoid => exact .pure (.ret .none)
  | returnValue taken => exact bind taken fun other read => .pure (.ret (.some read))
  | goto found => exact .pure (.branch .none (serves.reaches found))
  | ifCompare first second found =>
    refine bind first fun left read => bind second fun right taken => .pure ?_
    exact .branch (.some ⟨rfl, read, .some taken⟩) (serves.reaches found)
  | ifZero first found =>
    refine bind first fun left read => .pure ?_
    exact .branch (.some ⟨rfl, read, .none⟩) (serves.reaches found)
  | binary placed first second =>
    refine bind placed fun place stands => bind first fun left read => bind second fun right taken => ?_
    exact .pure (.binary stands read taken)
  | newArray placed taken meant =>
    refine bind placed fun place stands => bind taken fun other read => ?_
    refine (meets_type sound legible follows meant admitted).bind ?_
    exact fun id after _ same => .pure (.newArray stands read same)
  | arrayLength placed taken =>
    exact bind placed fun place stands => bind taken fun other read => .pure (.arrayLength stands read)
  | checkCast placed taken meant =>
    refine bind placed fun place stands => bind taken fun other read => ?_
    refine (meets_type sound legible follows meant admitted).bind ?_
    exact fun id after _ same => .pure (.checkCast stands read same)
  | instanceOf placed taken meant =>
    refine bind placed fun place stands => bind taken fun other read => ?_
    refine (meets_type sound legible follows meant admitted).bind ?_
    exact fun id after _ same => .pure (.instanceOf stands read same)
  | throwValue taken => exact bind taken fun other read => .pure (.throwValue read)

end Build

end Loading.Context

end ClassImage
