import ClassImage.Program.Operands
import ClassImage.Proofs.Outcome
import ClassImage.Proofs.Program.Tables

/-!
What the checks of calls and field accesses decide. A call suits a method by the
number and the kinds of its operands alone, and so does an access a field; both
imply a static marker for the member, which has to be the known one as far as it
is known. Keys never change, so an instruction that was admitted once always is.
-/

namespace ClassImage

/-- The kind of each operand fits the one expected in its place. -/
def KindsFit (operands : List Local) (kinds : List ValueKind) : Prop :=
  ∀ pair ∈ operands.zip kinds, pair.1.kind.fits pair.2

/-- A result is bound exactly when a value is produced, and its kind fits. -/
def ResultFits (produced : Option ValueKind) (result : Option Local) : Prop :=
  Option.Rel (fun kind slot => slot.kind.fits kind) produced result

/-- The number and the kinds of a call's operands are those of a method. -/
structure Call.Suits (call : Call) (name : String) (signature : Signature) : Prop where
  constructor : call.kind = .construct →
    name = Pool.constructorName ∧ signature.result.isVoid ∧ call.arguments.length = signature.arity
  special : call.kind = .special → call.arguments.length = signature.arity + 1
  count : call.arguments.length = signature.arity ∨ call.arguments.length = signature.arity + 1
  operands : KindsFit call.arguments
    ((if call.arguments.length = signature.arity + 1 then [ValueKind.reference] else []) ++
      signature.parameterKinds)
  result : ResultFits (if call.kind = .construct then some .reference else signature.result.kind?)
    call.result

/-- The marker that a call implies for its target. -/
def Call.implied (call : Call) (signature : Signature) : Bool :=
  call.kind = .normal ∧ call.arguments.length = signature.arity

structure FieldAccess.Suits (use : FieldAccess) (type : Descriptor) : Prop where
  object : ∀ object, use.object = some object → object.kind = .reference
  value : ∀ held, type.kind? = some held → use.value.kind.fits held

namespace CallRequest

theorem checkKinds_ok {name : String} {position : Nat} {operands : List Local}
    {kinds : List ValueKind} {done : Unit} :
    checkKinds name position operands kinds = .ok done ↔ KindsFit operands kinds := by
  induction operands generalizing position kinds with
  | nil => simp [checkKinds, KindsFit]
  | cons given operands ih =>
    cases kinds with
    | nil => simp [checkKinds, KindsFit]
    | cons expected kinds =>
      unfold checkKinds
      by_cases fits : given.kind.fits expected = true
      · rw [if_pos fits, ih]
        simp [KindsFit, fits]
      · rw [if_neg fits]
        simp [KindsFit, fits]

theorem checkResult_ok {name : String} {produced : Option ValueKind} {result : Option Local}
    {done : Unit} :
    checkResult name produced result = .ok done ↔ ResultFits produced result := by
  cases produced with
  | none => cases result <;> simp [checkResult, ResultFits]
  | some kind => cases result <;> simp [checkResult, ResultFits]

/-- The number of operands decides the shape of a call, and implies the marker. -/
theorem shapes_iff {kind : CallKind} {marker : Marker} {given arity : Nat} :
    ((kind ≠ .normal → marker ≠ some true) ∧
      (given = arity ∧ (shapes kind marker).1 ∨ given = arity + 1 ∧ (shapes kind marker).2)) ↔
      (kind = .construct → given = arity) ∧ (kind = .special → given = arity + 1) ∧
        (given = arity ∨ given = arity + 1) ∧
        ∀ known, marker = some known → known = decide (kind = .normal ∧ given = arity) := by
  cases kind with
  | normal =>
    rcases marker with _ | _ | _
    · simp [shapes]
    · simp [shapes]
      omega
    · simp [shapes]
      omega
  | special =>
    rcases marker with _ | _ | _
    · simp [shapes]
      omega
    · simp [shapes]
      omega
    · simp [shapes]
  | construct =>
    rcases marker with _ | _ | _
    · simp [shapes]
      omega
    · simp [shapes]
      omega
    · simp [shapes]

theorem shapes_bound {kind : CallKind} {marker : Marker} {given arity : Nat}
    (shaped : given = arity ∧ (shapes kind marker).1 ∨ given = arity + 1 ∧ (shapes kind marker).2) :
    (given = arity + 1 ∧ (shapes kind marker).2) ↔ given = arity + 1 := by
  constructor
  · exact And.left
  · intro bound
    rcases shaped with ⟨plain, -⟩ | shaped
    · omega
    · exact shaped

/-- Building succeeds exactly for a call that suits its target and implies no other marker than the
known one. -/
theorem build_ok {request : CallRequest} {program : Program} {call : Call} :
    request.build program = .ok call ↔
      request = ⟨call.kind, some call.method, call.arguments, call.result⟩ ∧
      call.owner = (program.methodAt call.method).owner ∧
      call.Suits (program.methodAt call.method).name (program.methodAt call.method).signature ∧
      ∀ known, (program.methodAt call.method).marker = some known →
        known = call.implied (program.methodAt call.method).signature := by
  rcases request with ⟨kind, _ | method, arguments, result⟩
  · simp [build]
  · simp only [build, Except.bind_ok, Except.refuse_ok, exists_const, checkKinds_ok, checkResult_ok,
      pure, Except.pure, Except.ok.injEq, Bool.and_eq_true, decide_eq_true_eq,
      not_and_not_right, MethodEntry.isConstructor]
    constructor
    · rintro ⟨constructor, known, shaped, operands, fits, rfl⟩
      have shaped := or_iff_not_imp_left.mpr shaped
      obtain ⟨plain, bound, count, implied⟩ := shapes_iff.mp ⟨not_and.mp known, shaped⟩
      rw [if_congr (shapes_bound shaped) rfl rfl] at operands
      refine ⟨rfl, rfl, ⟨?_, bound, count, operands, fits⟩, implied⟩
      intro here
      exact ⟨(constructor here).1, (constructor here).2, plain here⟩
    · rintro ⟨same, owner, ⟨constructor, bound, count, operands, fits⟩, implied⟩
      cases same
      have plain : call.kind = .construct → _ := fun here => (constructor here).2.2
      obtain ⟨known, shaped⟩ := shapes_iff.mpr ⟨plain, bound, count, implied⟩
      rw [if_congr (shapes_bound shaped).symm rfl rfl] at operands
      refine ⟨?_, not_and.mpr known, or_iff_not_imp_left.mp shaped, operands, fits, ?_⟩
      · intro here
        exact ⟨(constructor here).1, (constructor here).2.1⟩
      · rw [← owner]

end CallRequest

namespace AccessRequest

theorem checkObject_ok {name : String} {marker : Marker} {object : Option Local} {done : Unit} :
    checkObject name marker object = .ok done ↔
      (∀ slot, object = some slot → slot.kind = .reference) ∧
        ∀ known, marker = some known → known = object.isNone := by
  rcases marker with _ | _ | _ <;> rcases object with _ | object <;> simp [checkObject]

theorem build_ok {request : AccessRequest} {program : Program} {use : FieldAccess} :
    request.build program = .ok use ↔
      request = ⟨use.kind, some use.field, some use.value, use.object⟩ ∧
      use.Suits (program.fieldAt use.field).type ∧
      ∀ known, (program.fieldAt use.field).marker = some known → known = use.object.isNone := by
  rcases request with ⟨kind, _ | field, _ | value, object⟩
  · simp [build]
  · simp [build]
  · simp [build]
  · simp only [build, Except.bind_ok, checkObject_ok, exists_const]
    constructor
    · rintro ⟨⟨reference, implied⟩, checked⟩
      split at checked
      · rename_i held kind
        obtain ⟨done, fits, built⟩ := Except.bind_ok.mp checked
        cases built
        refine ⟨rfl, ⟨reference, ?_⟩, implied⟩
        intro other same
        cases kind.symm.trans same
        exact not_not.mp (Except.refuse_ok.mp fits)
      · rename_i kind
        cases checked
        refine ⟨rfl, ⟨reference, ?_⟩, implied⟩
        intro other same
        cases kind.symm.trans same
    · rintro ⟨same, ⟨reference, fits⟩, implied⟩
      cases same
      refine ⟨⟨reference, implied⟩, ?_⟩
      split
      · rename_i held kind
        exact Except.bind_ok.mpr ⟨(), Except.refuse_ok.mpr (not_not.mpr (fits held kind)), rfl⟩
      · rfl

end AccessRequest

namespace Program

/-- The symbols of an instruction are known, and its operands suit its member. -/
def Admits (program : Program) : Instruction → Prop
  | .invoke call => ∃ name signature,
    program.methodKey? call.method = some (call.owner, name, signature) ∧ call.Suits name signature
  | .access use => ∃ owner name type,
    program.fieldKey? use.field = some (owner, name, type) ∧ use.Suits type
  | .const _ (.classOf type) | .newArray _ _ type | .checkCast _ _ type | .instanceOf _ _ type =>
    (program.descriptor? type).isSome
  | _ => True

/-- The instruction implies no other marker for its member than the known one. -/
def Fits (program : Program) (instruction : Instruction) : Prop :=
  ∀ symbol used, program.memberShape? instruction = some (symbol, used) →
    ∀ known, program.marker symbol = some known → known = used

theorem Extends.knows {before after : Program} (more : before.Extends after) {type : TypeId}
    (known : (before.descriptor? type).isSome) : (after.descriptor? type).isSome := by
  obtain ⟨descriptor, found⟩ := Option.isSome_iff_exists.mp known
  rw [more.types found]
  rfl

theorem Extends.admits {before after : Program} (more : before.Extends after)
    {instruction : Instruction} (admitted : before.Admits instruction) : after.Admits instruction := by
  cases instruction with
  | invoke call =>
    obtain ⟨name, signature, found, suits⟩ := admitted
    exact ⟨name, signature, more.methods found, suits⟩
  | access use =>
    obtain ⟨owner, name, type, found, suits⟩ := admitted
    exact ⟨owner, name, type, more.fields found, suits⟩
  | const target value =>
    cases value
    case classOf => exact more.knows admitted
    all_goals trivial
  | newArray => exact more.knows admitted
  | checkCast => exact more.knows admitted
  | instanceOf => exact more.knows admitted
  | _ => trivial

theorem memberShape?_invoke (program : Program) (call : Call) :
    program.memberShape? (.invoke call) =
      some (.method call.method, call.implied (program.methodAt call.method).signature) := by
  obtain ⟨kind, method, owner, arguments, result⟩ := call
  cases kind <;> simp [memberShape?, Call.implied]

/-- The marker that an admitted instruction implies depends on keys alone. -/
theorem Extends.memberShape?_eq {before after : Program} (more : before.Extends after)
    {instruction : Instruction} (admitted : before.Admits instruction) :
    after.memberShape? instruction = before.memberShape? instruction := by
  cases instruction with
  | invoke call =>
    obtain ⟨name, signature, found, -⟩ := admitted
    rw [memberShape?_invoke, memberShape?_invoke, (methodKey?_methodAt found).2.2,
      (methodKey?_methodAt (more.methods found)).2.2]
  | _ => rfl

theorem checkShape_ok {program : Program} {assumed : Option (Symbol × Bool)}
    {instruction : Instruction} :
    program.checkShape assumed instruction = .ok () ↔
      ∀ symbol used, program.memberShape? instruction = some (symbol, used) →
        ∀ known, program.markerAssuming assumed symbol = some known → known = used := by
  unfold checkShape
  rcases program.memberShape? instruction with _ | ⟨symbol, used⟩
  · simp
  · constructor
    · intro checked other implied same known found
      cases same
      simp only [found] at checked
      by_contra differ
      rw [if_neg differ] at checked
      cases checked
    · intro agree
      have agree := agree symbol used rfl
      cases found : program.markerAssuming assumed symbol with
      | none => simp only [found]
      | some known => simp only [found, agree known found, if_true]

theorem checkUses_ok {program : Program} {symbol : Symbol} {static : Bool}
    (checked : program.checkUses symbol static = .ok ()) {use : Use}
    (used : use ∈ program.useList symbol) {instruction : Instruction}
    (attached : program.instruction? use.instruction = some instruction) {implied : Bool}
    (shape : program.memberShape? instruction = some (symbol, implied)) : static = implied := by
  have each := Except.forM_ok.mp checked use used
  rw [attached] at each
  apply checkShape_ok.mp each symbol implied shape static
  simp [markerAssuming]

end Program

end ClassImage
