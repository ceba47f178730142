import ClassImage.Program.Declare

/-!
Calls and field accesses that agree with their target. A call's operands are an
optional receiver and one value for each parameter; which of the two shapes is
meant follows from their number, as far as the target's marker leaves it open.
-/

namespace ClassImage

/-- A call to be checked against its target. -/
structure CallRequest where
  kind : CallKind
  method : Option MethodId
  arguments : List Local
  result : Option Local

namespace CallRequest

/-- Whether the operands may come without and with a receiver. -/
def shapes (kind : CallKind) (marker : Marker) : Bool × Bool :=
  match kind with
  | .construct => (true, false)
  | .special => (false, true)
  | .normal => (marker != some false, marker != some true)

/-- The first operand whose kind does not fit. -/
def checkKinds (method : String) : Nat → List Local → List ValueKind → Except Fault Unit
  | position, given :: arguments, expected :: kinds =>
    if given.kind.fits expected then checkKinds method (position + 1) arguments kinds
    else .error (.flaw (.operands (.kind method position given.kind expected)))
  | _, _, _ => .ok ()

/-- A result is bound exactly when there is a value, and its kind fits. -/
def checkResult (method : String) : Option ValueKind → Option Local → Except Fault Unit
  | none, none => .ok ()
  | none, some _ => .error (.conflict (.voidResult method))
  | some _, none => .error (.conflict (.missingResult method))
  | some produced, some result =>
    if result.kind.fits produced then .ok ()
    else .error (.conflict (.resultKind method produced result.kind))

def build (request : CallRequest) (program : Program) : Except Fault Call := do
  let some method := request.method | throw (.unresolved .method)
  let entry := program.methodAt method
  let name := program.methodText method
  refuse (request.kind = .construct ∧ ¬(entry.isConstructor ∧ entry.signature.result.isVoid))
    (Fault.flaw (.notConstructor name))
  refuse (request.kind ≠ .normal ∧ entry.marker = some true) (Fault.conflict (.staticTarget name))
  let (plain, bound) := shapes request.kind entry.marker
  let arity := entry.signature.arity
  let given := request.arguments.length
  let isPlain := given = arity && plain
  let isBound := given = arity + 1 && bound
  refuse (¬isPlain ∧ ¬isBound)
    (Fault.flaw (.operands (.count name (if plain then arity else arity + 1) given)))
  let receiver := if isBound then [ValueKind.reference] else []
  checkKinds name 0 request.arguments (receiver ++ entry.signature.parameterKinds)
  let produced :=
    if request.kind = .construct then some .reference else entry.signature.result.kind?
  checkResult name produced request.result
  return ⟨request.kind, method, entry.owner, request.arguments, request.result⟩

end CallRequest

/-- A field access to be checked against its field. -/
structure AccessRequest where
  kind : AccessKind
  field : Option FieldId
  value : Option Local
  object : Option Local

namespace AccessRequest

/-- An object is given unless the field is static, and it is a reference. -/
def checkObject (field : String) : Marker → Option Local → Except Fault Unit
  | some true, some _ => .error (.flaw (.operands (.unexpectedObject field)))
  | some false, none => .error (.flaw (.operands (.missingObject field)))
  | _, some object =>
    if object.kind = .reference then .ok ()
    else .error (.flaw (.operands (.objectKind field object.kind)))
  | _, none => .ok ()

def build (request : AccessRequest) (program : Program) : Except Fault FieldAccess := do
  let some field := request.field | throw (.unresolved .field)
  let entry := program.fieldAt field
  let name := program.fieldText field
  let some value := request.value | throw (.flaw (.operands (.missingValue name)))
  checkObject name entry.marker request.object
  match entry.type.kind? with
  | some held =>
    refuse (¬value.kind.fits held) (Fault.conflict (.fieldKind name held value.kind))
  | none => pure ()
  return ⟨request.kind, field, value, request.object⟩

end AccessRequest

end ClassImage
