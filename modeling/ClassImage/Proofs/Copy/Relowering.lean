import ClassImage.Proofs.Copy.Listing
import ClassImage.Proofs.Lowering.Success

/-!
Lowering a copy. A copy differs from the original in its handles and its locals,
and neither is written: registers follow from the order of first use and from
kinds, positions from the order of instructions, and symbols are written by name.
Of what a program knows about symbols, only the markers of members that code
refers to and the interfaces among the owners of called methods are looked at. So
a copy that has the same interfaces is lowered to the same image, or is refused
with the same fault.
-/

namespace ClassImage

open Program

namespace Program.Same

variable {program copy : Program}

theorem typeRef {type other : TypeId} (same : program.Same copy (.type type) (.type other)) :
    Lower.typeRef copy other = Lower.typeRef program type := by
  rw [Lower.typeRef, same.typeText, Lower.typeRef]

theorem methodRef {method other : MethodId} (same : program.Same copy (.method method) (.method other)) :
    Lower.methodRef copy other = Lower.methodRef program method := by
  obtain ⟨owner, holder, name, signature, named, found, owned⟩ := same_method.mp same
  obtain ⟨rfl, rfl, rfl⟩ := methodKey?_methodAt named
  obtain ⟨rfl, sameName, sameSignature⟩ := methodKey?_methodAt found
  simp only [Lower.methodRef, sameName, sameSignature, owned.typeText]

theorem fieldRef {field other : FieldId} (same : program.Same copy (.field field) (.field other)) :
    Lower.fieldRef copy other = Lower.fieldRef program field := by
  obtain ⟨owner, holder, name, type, named, found, owned⟩ := same_field.mp same
  obtain ⟨rfl, rfl, rfl⟩ := fieldKey?_fieldAt named
  obtain ⟨rfl, sameName, sameType⟩ := fieldKey?_fieldAt found
  simp only [Lower.fieldRef, sameName, sameType, owned.typeText]

theorem owner {method other : MethodId} (same : program.Same copy (.method method) (.method other)) :
    program.Same copy (.type (program.methodAt method).owner) (.type (copy.methodAt other).owner) := by
  obtain ⟨owner, holder, _, _, named, found, owned⟩ := same_method.mp same
  rw [(methodKey?_methodAt named).1, (methodKey?_methodAt found).1]
  exact owned

theorem isConstructor {method other : MethodId}
    (same : program.Same copy (.method method) (.method other)) :
    (copy.methodAt other).isConstructor = (program.methodAt method).isConstructor := by
  obtain ⟨_, _, _, _, named, found, -⟩ := same_method.mp same
  simp only [MethodEntry.isConstructor, (methodKey?_methodAt named).2.1, (methodKey?_methodAt found).2.1]

end Program.Same

namespace Program

/-- The copy takes the same types for interfaces. -/
def SameInterfaces (program copy : Program) : Prop :=
  ∀ {type other}, program.Same copy (.type type) (.type other) →
    (copy.typeAt other).isInterface = (program.typeAt type).isInterface

/-- An attached instruction refers to the symbol. -/
def RefersTo (program : Program) (symbol : Symbol) : Prop :=
  ∃ id instruction kind, program.instruction? id = some instruction ∧
    (symbol, kind) ∈ instruction.references

/-- What code refers to has the same markers in the copy, and the owners of its methods are interfaces
alike. Nothing else that a program knows about its symbols bears on how code is lowered. -/
structure Concurs (program copy : Program) : Prop where
  marker : ∀ {symbol other}, program.RefersTo symbol → program.Same copy symbol other →
    copy.marker other = program.marker symbol
  interface : ∀ {method other}, program.RefersTo (.method method) →
    program.Same copy (.method method) (.method other) →
    (copy.typeAt (copy.methodAt other).owner).isInterface =
      (program.typeAt (program.methodAt method).owner).isInterface

theorem Follows.concurs {program copy : Program} (follows : program.Follows copy)
    (interfaces : program.SameInterfaces copy) : program.Concurs copy where
  marker _ same := follows.markers same
  interface _ same := interfaces same.owner

end Program

namespace CodeContext

/-- Surroundings that place corresponding locals and targets alike. -/
structure Mirrors (context other : CodeContext) (slots : Local → Local → Prop)
    (targets : InstructionId → InstructionId → Prop) : Prop where
  sound : context.program.KeysSound
  keys : other.program.KeysSound
  concurs : context.program.Concurs other.program
  method : context.program.Same other.program (.method context.method) (.method other.method)
  limit : other.argumentLimit = context.argumentLimit
  slot : ∀ {slot place}, slots slot place → other.register place = context.register slot
  target : ∀ {target place}, targets target place → other.target place = context.target target

namespace Mirrors

variable {context other : CodeContext} {slots : Local → Local → Prop}
  {targets : InstructionId → InstructionId → Prop} (mirrors : context.Mirrors other slots targets)

include mirrors

theorem requireMarker {symbol twin : Symbol} (known : context.program.RefersTo symbol)
    (same : context.program.Same other.program symbol twin)
    (text : other.program.symbolText twin = context.program.symbolText symbol) :
    other.requireMarker twin = context.requireMarker symbol := by
  unfold CodeContext.requireMarker
  rw [mirrors.concurs.marker known same, text]

theorem dispatch {call another : Call} (known : context.program.RefersTo (.method call.method))
    (kind : another.kind = call.kind)
    (method : context.program.Same other.program (.method call.method) (.method another.method)) :
    other.dispatch another = context.dispatch call := by
  have marked : (other.program.methodAt another.method).marker =
      (context.program.methodAt call.method).marker := mirrors.concurs.marker known method
  have own : (other.program.methodAt another.method).owner = (other.program.methodAt other.method).owner ↔
      (context.program.methodAt call.method).owner = (context.program.methodAt context.method).owner := by
    constructor
    · intro equal
      have twin := method.owner
      rw [equal] at twin
      exact Symbol.type.inj (Same.source_eq mirrors.sound twin mirrors.method.owner)
    · intro equal
      have twin := method.owner
      rw [equal] at twin
      exact Symbol.type.inj (Same.copy_eq mirrors.keys twin mirrors.method.owner)
  simp only [CodeContext.dispatch, kind, marked, own, method.isConstructor,
    mirrors.concurs.interface known method]

theorem lowerCall {call another : Call} (known : context.program.RefersTo (.method call.method))
    (kind : another.kind = call.kind)
    (method : context.program.Same other.program (.method call.method) (.method another.method))
    (arguments : List.Forall₂ slots call.arguments another.arguments)
    (result : Option.Rel slots call.result another.result) :
    other.lowerCall another = context.lowerCall call := by
  have operands : ((if call.kind = .construct then another.result.toList else []) ++
        another.arguments).mapM other.register =
      ((if call.kind = .construct then call.result.toList else []) ++
        call.arguments).mapM context.register := by
    refine mapM_eq_of_forall₂ (List.rel_append ?_ arguments) fun _ _ stands => mirrors.slot stands
    split
    · exact forall₂_toList result
    · exact .nil
  simp only [CodeContext.lowerCall, mirrors.requireMarker known method method.methodText, kind, operands,
    mirrors.limit, method.methodRef, mirrors.dispatch known kind method, method.methodText,
    method.owner.typeRef]
  generalize call.result = expected at result ⊢
  generalize another.result = given at result ⊢
  cases result with
  | none => rfl
  | some stands =>
    dsimp only
    rw [mirrors.slot stands]

theorem lowerAccess {use another : FieldAccess} (known : context.program.RefersTo (.field use.field))
    (kind : another.kind = use.kind)
    (field : context.program.Same other.program (.field use.field) (.field another.field))
    (value : slots use.value another.value) (object : Option.Rel slots use.object another.object) :
    other.lowerAccess another = context.lowerAccess use := by
  unfold CodeContext.lowerAccess
  rw [mirrors.requireMarker known field field.fieldText, kind, field.fieldRef, mirrors.slot value]
  generalize use.object = expected at object ⊢
  generalize another.object = given at object ⊢
  cases object with
  | none => cases use.kind <;> rfl
  | some stands => cases use.kind <;> simp only [mirrors.slot stands]

omit mirrors in
theorem lowerConstant {value constant : Constant} (dst : UInt16)
    (same : SameConstant context.program other.program value constant) :
    other.lowerConstant dst constant = context.lowerConstant dst value := by
  cases value with
  | classOf type =>
    obtain ⟨id, rfl, same⟩ := same
    simp only [CodeContext.lowerConstant, same.typeRef]
  | _ =>
    cases same
    rfl

/-- Like instructions are lowered alike. -/
theorem lower {id : InstructionId} {instruction built : Instruction}
    (attached : context.program.instruction? id = some instruction)
    (alike : Alike context.program other.program slots targets instruction built) :
    other.lower built = context.lower instruction := by
  cases alike with
  | @invoke call _ kind method owner arguments result =>
    have known : context.program.RefersTo (.method call.method) := by
      obtain ⟨form, _, _, _, _⟩ := call
      cases form <;> exact ⟨id, _, _, attached, by simp [Instruction.references]; rfl⟩
    exact mirrors.lowerCall known kind method arguments result
  | @access use _ kind field value object =>
    have known : context.program.RefersTo (.field use.field) := by
      obtain ⟨form, _, _, _⟩ := use
      cases form <;> exact ⟨id, _, _, attached, by simp [Instruction.references]; rfl⟩
    simp only [CodeContext.lower, mirrors.lowerAccess known kind field value object]
  | const placed same =>
    simp only [CodeContext.lower, mirrors.slot placed, lowerConstant _ same]
  | move placed read | arrayLength placed read =>
    simp only [CodeContext.lower, mirrors.slot placed, mirrors.slot read]
  | ret read =>
    cases read with
    | none => rfl
    | some stands => simp only [CodeContext.lower, mirrors.slot stands]
  | branch tests found =>
    cases tests with
    | none => simp only [CodeContext.lower, mirrors.target found]
    | @some test another same =>
      obtain ⟨comparison, left, right⟩ := test
      obtain ⟨comparison', left', right'⟩ := another
      obtain ⟨rfl, first, second⟩ := same
      dsimp only at first second
      cases second with
      | none => simp only [CodeContext.lower, mirrors.slot first, mirrors.target found]
      | some stands =>
        simp only [CodeContext.lower, mirrors.slot first, mirrors.slot stands, mirrors.target found]
  | binary placed left right =>
    simp only [CodeContext.lower, mirrors.slot placed, mirrors.slot left, mirrors.slot right]
  | newArray placed read same | checkCast placed read same | instanceOf placed read same =>
    simp only [CodeContext.lower, mirrors.slot placed, mirrors.slot read, same.typeRef]
  | throwValue read => simp only [CodeContext.lower, mirrors.slot read]

end Mirrors

end CodeContext

theorem Alike.rawLength {program copy : Program} {slots : Local → Local → Prop}
    {targets : InstructionId → InstructionId → Prop} {instruction built : Instruction}
    (alike : Alike program copy slots targets instruction built) :
    built.rawLength = instruction.rawLength := by
  cases alike with
  | invoke kind _ _ _ result =>
    have bound := isNone_of_rel result
    rw [← Option.not_isSome, ← Option.not_isSome, Bool.not_inj_iff] at bound
    simp only [Instruction.rawLength, kind, bound]
  | _ => rfl

namespace Program

/-- Locals of the same kinds have their registers in the same places. -/
theorem find?_of_paired {list others : List Local} (kinds : others.map Local.kind = list.map Local.kind)
    (distinct : list.Nodup) (distinct' : others.Nodup) {slot place : Local}
    (paired : Paired list others slot place) (first : Nat) :
    RegisterPlan.find? place first others = RegisterPlan.find? slot first list := by
  induction list generalizing others first with
  | nil => cases paired
  | cons head list ih =>
    cases others with
    | nil => cases paired
    | cons head' others =>
      rw [List.nodup_cons] at distinct distinct'
      rw [List.map_cons, List.map_cons, List.cons.injEq] at kinds
      unfold RegisterPlan.find?
      rcases List.mem_cons.mp paired with same | paired
      · cases same
        rw [if_pos rfl, if_pos rfl]
      · have inner : Paired list others slot place := paired
        have apart : head ≠ slot := by
          rintro rfl
          exact distinct.1 inner.mem_left
        have apart' : head' ≠ place := by
          rintro rfl
          exact distinct'.1 inner.mem_right
        rw [if_neg apart, if_neg apart', kinds.1]
        exact ih kinds.2 distinct.2 distinct'.2 inner _

/-- Targets in the same place start at the same raw position. -/
theorem lookup_of_paired {listed others : List (InstructionId × Instruction)}
    (lengths : List.Forall₂ (fun entry other => other.2.rawLength = entry.2.rawLength) listed others)
    (distinct : (listed.map Prod.fst).Nodup) (distinct' : (others.map Prod.fst).Nodup)
    {target place : InstructionId}
    (paired : Paired (listed.map Prod.fst) (others.map Prod.fst) target place) (start : Nat) :
    (rawStarts start others).lookup place = (rawStarts start listed).lookup target := by
  induction lengths generalizing start with
  | nil => cases paired
  | @cons entry other listed others length _ ih =>
    rw [List.map_cons, List.nodup_cons] at distinct distinct'
    rw [rawStarts, rawStarts, List.lookup_cons, List.lookup_cons]
    rcases List.mem_cons.mp paired with same | paired
    · cases same
      rw [beq_self_eq_true, beq_self_eq_true]
    · have inner : Paired (listed.map Prod.fst) (others.map Prod.fst) target place := paired
      have apart : target ≠ entry.1 := by
        rintro rfl
        exact distinct.1 inner.mem_left
      have apart' : place ≠ other.1 := by
        rintro rfl
        exact distinct'.1 inner.mem_right
      rw [beq_eq_false_iff_ne.mpr apart, beq_eq_false_iff_ne.mpr apart', length]
      exact ih distinct.2 distinct'.2 inner _

/-- Lowering a body whose instructions are attached. -/
theorem lowerBody_eq {program : Program} {body : Body} {listed : List (InstructionId × Instruction)}
    (found : program.listBody body = .ok listed) (limits : Limits) (method : MethodId) :
    program.lowerBody limits method body =
      if RegisterPlan.slots (program.plan body).order > limits.registers.toNat ∨
          RegisterPlan.slots (program.plan body).order > 65535 then
        throw (.capacityExceeded .registers (RegisterPlan.slots (program.plan body).order)
          limits.registers.toNat)
      else do
        refuse (rawTotal listed > limits.instructions.toNat)
          (Fault.capacityExceeded .instructions (rawTotal listed) limits.instructions.toNat)
        let raws ← listed.mapM fun entry =>
          (program.surroundings limits method body listed).lower entry.2
        return ⟨UInt16.ofNat (program.plan body).tags.length,
          UInt16.ofNat (program.plan body).parameterRegisters, (program.plan body).tags,
          raws.flatten.toArray⟩ := by
  unfold lowerBody RegisterPlan.ofBody
  rw [found]
  by_cases full : RegisterPlan.slots (program.plan body).order > limits.registers.toNat ∨
      RegisterPlan.slots (program.plan body).order > 65535
  · rw [if_pos full]
    simp only [plan] at full
    rw [if_pos full]
    rfl
  · rw [if_neg full]
    simp only [plan] at full
    rw [if_neg full]
    rfl

theorem Lists.map_fst {program : Program} {body : Body} {listed : List (InstructionId × Instruction)}
    (lists : program.Lists body listed) : listed.map Prod.fst = body.instructions.toList := by
  have same := map_eq_of_forall₂ lists fun _ _ entry => entry.1
  rwa [List.map_id'] at same

end Program

namespace BodyLike

variable {program copy : Program} {body other : Body} {used : List Local}
  (like : BodyLike program copy body other used)

include like

/-- Like bodies have like instructions under their handles. -/
theorem listBody : ∃ listed others, program.listBody body = .ok listed ∧ copy.listBody other = .ok others ∧
    listed.map Prod.fst = body.instructions.toList ∧ others.map Prod.fst = other.instructions.toList ∧
    List.Forall₂ (fun entry another => Alike program copy
      (Paired (program.usedLocals body ++ body.parameters) (used ++ other.parameters))
      (Paired body.instructions.toList other.instructions.toList) entry.2 another.2) listed others := by
  obtain ⟨listed, found⟩ := @listBody_of_attached program body fun id member => by
    obtain ⟨_, -, _, _, attached, -⟩ := forall₂_exists_right like.code (Array.mem_toList_iff.mpr member)
    rw [attached]
    rfl
  obtain ⟨others, found'⟩ := @listBody_of_attached copy other fun id member => by
    obtain ⟨_, -, _, _, -, attached, -⟩ := forall₂_exists_left like.code (Array.mem_toList_iff.mpr member)
    rw [attached]
    rfl
  have lists := listBody_ok found
  have lists' := listBody_ok found'
  refine ⟨listed, others, found, found', lists.map_fst, lists'.map_fst, ?_⟩
  apply (forall₂_comp lists.flip (forall₂_comp like.code lists')).imp
  rintro entry another ⟨id, ⟨rfl, here⟩, place, ⟨_, _, here', there', alike⟩, rfl, there⟩
  cases here.symm.trans here'
  cases there.symm.trans there'
  exact alike

theorem orderKinds (distinct : body.parameters.Nodup) :
    (copy.usedLocals other ++ other.parameters).map Local.kind =
      (program.usedLocals body ++ body.parameters).map Local.kind := by
  rw [like.usedLocals distinct, List.map_append, List.map_append, like.kinds, like.parameters]

variable {method twin : MethodId} (parameters : body.parameters.Nodup)
  (instructions : body.instructions.toList.Nodup) (instructions' : other.instructions.toList.Nodup)
  (sound : program.KeysSound) (keys : copy.KeysSound) (concurs : program.Concurs copy)
  (same : program.Same copy (.method method) (.method twin))

include parameters instructions instructions' sound keys concurs same

theorem mirrors (limits : Limits) {listed others : List (InstructionId × Instruction)}
    (handles : listed.map Prod.fst = body.instructions.toList)
    (handles' : others.map Prod.fst = other.instructions.toList)
    (lengths : List.Forall₂ (fun entry another => another.2.rawLength = entry.2.rawLength) listed others) :
    (program.surroundings limits method body listed).Mirrors (copy.surroundings limits twin other others)
      (Paired (program.usedLocals body ++ body.parameters) (used ++ other.parameters))
      (Paired body.instructions.toList other.instructions.toList) where
  sound := sound
  keys := keys
  concurs := concurs
  method := same
  limit := rfl
  slot {slot place} stands := by
    have kinds := like.orderKinds parameters
    rw [← like.usedLocals parameters] at stands
    have distinct := nodup_usedLocals program parameters
    have distinct' := like.distinct
    rw [← like.usedLocals parameters] at distinct'
    obtain ⟨position, found⟩ := RegisterPlan.find?_of_mem stands.mem_left 0
    have found' := (find?_of_paired kinds distinct distinct' stands 0).trans found
    have placed : (program.plan body).register? slot = some (UInt16.ofNat position) :=
      Option.map_eq_some_iff.mpr ⟨position, found, rfl⟩
    have placed' : (copy.plan other).register? place = some (UInt16.ofNat position) :=
      Option.map_eq_some_iff.mpr ⟨position, found', rfl⟩
    simp only [CodeContext.register, surroundings, placed, placed']
  target {target place} paired := by
    rw [← handles, ← handles'] at paired
    rw [← handles] at instructions
    rw [← handles'] at instructions'
    obtain ⟨position, found⟩ := lookup_rawStarts_of_mem paired.mem_left 0
    have found' := (lookup_of_paired lengths instructions instructions' paired 0).trans found
    simp only [CodeContext.target, surroundings, found, found']

/-- Like bodies are lowered to the same code. -/
theorem lowerBody (limits : Limits) :
    copy.lowerBody limits twin other = program.lowerBody limits method body := by
  obtain ⟨listed, others, found, found', handles, handles', alike⟩ := like.listBody
  have lengths := alike.imp fun _ _ => Alike.rawLength
  have attached : ∀ entry ∈ listed, program.instruction? entry.1 = some entry.2 := by
    intro entry member
    obtain ⟨_, -, rfl, here⟩ := forall₂_exists_left (listBody_ok found) member
    exact here
  have total : rawTotal others = rawTotal listed := by
    rw [rawTotal_eq_sum, rawTotal_eq_sum, map_eq_of_forall₂ lengths fun _ _ length => length]
  have kinds : (copy.plan other).order.map Local.kind = (program.plan body).order.map Local.kind :=
    like.orderKinds parameters
  have slots : RegisterPlan.slots (copy.plan other).order = RegisterPlan.slots (program.plan body).order := by
    rw [← length_kindTags, kinds, length_kindTags]
  have entries : (copy.plan other).parameterRegisters = (program.plan body).parameterRegisters := by
    rw [plan, plan, ← length_kindTags, like.parameters, length_kindTags]
  have tags : (copy.plan other).tags = (program.plan body).tags := by
    rw [tags_eq, kinds, tags_eq]
  have mirrors := like.mirrors parameters instructions instructions' sound keys concurs same
    limits handles handles' lengths
  have raws : others.mapM (fun entry => (copy.surroundings limits twin other others).lower entry.2) =
      listed.mapM (fun entry => (program.surroundings limits method body listed).lower entry.2) :=
    mapM_eq_of_forall₂ ((List.forall₂_and_left _ _).mpr ⟨attached, alike⟩)
      fun _ _ entry => mirrors.lower entry.1 entry.2
  rw [lowerBody_eq found, lowerBody_eq found', slots, total, raws, tags, entries]

end BodyLike

namespace Program

variable {program copy : Program}

theorem FieldDeclared.lowerField {field other : FieldId} (declared : program.FieldDeclared copy field other) :
    copy.lowerField other = program.lowerField field := by
  obtain ⟨access, flags, flags'⟩ := declared.declaration
  rw [Program.lowerField, Program.lowerField, declared.same.fieldRef, flags, flags']

section Echoes

variable {alike : Body → Body → Prop} {types holders : List TypeId} (steps : Steps {} program)
  (again : Steps {} copy) (concurs : program.Concurs copy) (limits : Limits)
  (each : ∀ {method other body another}, program.body? method = some body →
    copy.body? other = some another → alike body another → ∃ used, BodyLike program copy body another used)

include steps again concurs each

theorem MethodDeclared.lowerMethod {method other : MethodId}
    (declared : program.MethodDeclared copy method other)
    (related : Option.Rel alike (program.body? method) (copy.body? other)) :
    copy.lowerMethod limits other = program.lowerMethod limits method := by
  have code : (copy.body? other).mapM (copy.lowerBody limits other) =
      (program.body? method).mapM (program.lowerBody limits method) := by
    generalize here : program.body? method = expected at related ⊢
    generalize there : copy.body? other = given at related ⊢
    cases related with
    | none => rw [Option.mapM_none, Option.mapM_none]
    | some like =>
      obtain ⟨used, like⟩ := each here there like
      rw [Option.mapM_some, Option.mapM_some, like.lowerBody (steps.bodiesSound.parameters here)
        (steps.bodiesSound.distinct here) (again.bodiesSound.distinct there)
        steps.keysSound again.keysSound concurs declared.same]
  obtain ⟨access, flags, flags'⟩ := declared.declaration
  rw [Program.body?, Program.body?] at code
  rw [Program.lowerMethod, Program.lowerMethod, code, declared.same.methodRef, flags, flags']

theorem ClassLike.lowerClass {type other : TypeId} (like : program.ClassLike copy type other)
    (bodies : ∀ {method other}, program.MethodDeclared copy method other →
      method ∈ program.methodsOf type → Option.Rel alike (program.body? method) (copy.body? other)) :
    copy.lowerClass limits other = program.lowerClass limits type := by
  obtain ⟨same, definition, here, another, there, header, fields, methods⟩ := like
  have listed : ∀ method ∈ definition.methods.toList, method ∈ program.methodsOf type := by
    intro method member
    rw [methodsOf, here]
    exact member
  have members := mapM_eq_of_forall₂ fields fun _ _ declared => FieldDeclared.lowerField declared
  have coded := mapM_eq_of_forall₂ ((List.forall₂_and_left _ _).mpr ⟨listed, methods⟩)
    fun _ _ entry => MethodDeclared.lowerMethod steps again concurs limits each entry.2
      (bodies entry.2 entry.1)
  have extend := mapM_eq_of_rel header.superclass fun _ _ same => Same.typeRef same
  have implements := mapM_eq_of_forall₂ header.interfaces fun _ _ same => Same.typeRef same
  rw [definition?] at here there
  simp only [Program.lowerClass, here, there, members, coded, same.typeRef, extend, implements,
    header.access, header.source]

/-- Classes that are alike, with bodies that are, are lowered alike. -/
theorem Echoes.lowerClasses (echoes : program.Echoes copy alike types holders) :
    holders.mapM (copy.lowerClass limits) = types.mapM (program.lowerClass limits) :=
  mapM_eq_of_forall₂ ((List.forall₂_and_left _ _).mpr ⟨fun _ => id, echoes.classes⟩) fun type _ entry =>
    ClassLike.lowerClass steps again concurs limits each entry.2 fun declared listed =>
      echoes.bodies declared (List.mem_flatMap.mpr ⟨type, entry.1, listed⟩)

/-- Programs whose classes are alike have the same image, or are refused with the same fault. -/
theorem Echoes.toImage_eq
    (echoes : program.Echoes copy alike program.defined.toList copy.defined.toList) :
    copy.toImage limits = program.toImage limits := by
  rw [toImage, toImage, echoes.lowerClasses steps again concurs limits each]

end Echoes

/-- A copy with the same interfaces has the same image. -/
theorem Copied.toImage_eq (steps : Steps {} program) (copied : program.Copied copy)
    (interfaces : program.SameInterfaces copy) (limits : Limits) :
    copy.toImage limits = program.toImage limits :=
  copied.echoes.toImage_eq steps copied.steps (copied.follows.concurs interfaces) limits
    fun _ _ => id

end Program

end ClassImage
