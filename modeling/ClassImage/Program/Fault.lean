import ClassImage.Limits.Basic
import ClassImage.Program.Symbol

/-!
What can go wrong with a program, by cause, and the text of each cause. A `Flaw`
is a request that is ill-formed on its own or misses what it refers to; when an
image makes such a request, the image is malformed.
-/

namespace ClassImage

inductive DescriptorFlaw where
  | unreadable (text : String)
  | notReference (text : String)
  | notDefinable (text : String)
  | voidField (name : String)
deriving DecidableEq

inductive OperandFlaw where
  | count (method : String) (expected given : Nat)
  | kind (method : String) (position : Nat) (given expected : ValueKind)
  | missingValue (field : String)
  | unexpectedObject (field : String)
  | missingObject (field : String)
  | objectKind (field : String) (given : ValueKind)
  | missingInstance (method : String)
deriving DecidableEq

inductive TargetFlaw where
  | stillTargeted (instruction branch : InstructionId) (method : String)
  | notAttached (target : InstructionId) (method : String)
  | outside (target : InstructionId) (method : String)
deriving DecidableEq

inductive Missing where
  | definition (type : String)
  | declaration (method : String)
  | code (method : String)
deriving DecidableEq

inductive Duplicate where
  | member (member : String)
  | code (method : String)
deriving DecidableEq

inductive Flaw where
  | descriptor (flaw : DescriptorFlaw)
  | operands (flaw : OperandFlaw)
  | notConstructor (method : String)
  | foreignLocal (slot : Local)
  | target (flaw : TargetFlaw)
  | notLocal (missing : Missing)
  | duplicate (duplicate : Duplicate)
deriving DecidableEq

/-- A contradiction with what is already known of a symbol. -/
inductive Conflict where
  | interfaceFlag (type : String) (requested : Bool)
  | marker (member : String) (known requested : Bool)
  | use (member : String) (known used : Bool)
  | noCode (method : String)
  | staticTarget (method : String)
  | voidResult (method : String)
  | missingResult (method : String)
  | resultKind (method : String) (produced given : ValueKind)
  | fieldKind (field : String) (held given : ValueKind)
deriving DecidableEq

inductive Malformed where
  | undecodable (fault : ImageFault)
  | unverified (fault : VerifyFault)
  | flaw (flaw : Flaw)
  | conflict (conflict : Conflict)
  | missingEntry (table : PoolTable) (index : UInt32)
  | parameterKinds (method : String)
  | parameterCount (method : String) (declared needed : Nat)
  | highHalf (register : UInt16)
  | foreignConstructor (method : String)
  | misplaced (opcode : Opcode)
deriving DecidableEq

inductive Unresolved where
  | method
  | field
  | marker (member : String)
deriving DecidableEq

inductive Capacity where
  | registers
  | instructions
  | arguments
  | texts
  | types
  | fields
  | methods
deriving DecidableEq

inductive Fault where
  | flaw (flaw : Flaw)
  | conflict (conflict : Conflict)
  | malformedImage (cause : Malformed)
  | duplicateType (type : String)
  | concurrentModification (symbol : Symbol)
  | unresolved (symbol : Unresolved)
  | capacityExceeded (capacity : Capacity) (count limit : Nat)
  | invalidBody (fault : VerifyFault)
  | unknownInstruction (id : InstructionId)
  | limits (fault : LimitsFault)
  | unreadableFile
deriving DecidableEq

def DescriptorFlaw.message : DescriptorFlaw → String
  | .unreadable text => text
  | .notReference text => text ++ " is not a class or array type"
  | .notDefinable text => text ++ " cannot be defined"
  | .voidField name => s!"field {name} of type V"

def OperandFlaw.message : OperandFlaw → String
  | .count method expected given => s!"{method} expects {expected} operands, got {given}"
  | .kind method position given expected =>
    s!"{method} operand {position} is {given.name}, expected {expected.name}"
  | .missingValue field => field ++ " access without value"
  | .unexpectedObject field => field ++ " is static but an instance was given"
  | .missingObject field => field ++ " is an instance field but no instance was given"
  | .objectKind field given => s!"{field} instance operand is {given.name}"
  | .missingInstance method => s!"new-instance of {method} has no instance local"

def TargetFlaw.message : TargetFlaw → String
  | .stillTargeted instruction branch method =>
    s!"{instruction.text} is targeted by {branch.text} in {method}"
  | .notAttached target method => s!"{target.text} is not attached to {method}"
  | .outside target method => s!"{target.text} is not in {method}"

def Missing.message : Missing → String
  | .definition type => type
  | .declaration method => method
  | .code method => method ++ " has no code"

def Duplicate.message : Duplicate → String
  | .member text => text
  | .code method => "code of " ++ method

def Flaw.message : Flaw → String
  | .descriptor flaw => "Invalid descriptor: " ++ flaw.message
  | .operands flaw => "Arity mismatch: " ++ flaw.message
  | .notConstructor method => "Not a constructor: " ++ method
  | .foreignLocal slot => s!"Local variable {slot.text} belongs to another method body"
  | .target flaw => "Branch target: " ++ flaw.message
  | .notLocal missing => "Not a local type: " ++ missing.message
  | .duplicate what => "Duplicate member: " ++ what.message

def staticWord : Bool → String
  | true => "static"
  | false => "an instance member"

def Conflict.message : Conflict → String
  | .interfaceFlag type requested =>
    type ++ " is defined " ++ (if requested then "as not" else "as") ++ " an interface"
  | .marker member known requested =>
    s!"{member} is {staticWord known}, requested as {staticWord requested}"
  | .use member known used => s!"{member} is {staticWord known} but is used as {staticWord used}"
  | .noCode method => method ++ " is abstract or native and cannot have code"
  | .staticTarget method => method ++ " is static and cannot be invoked non-virtually"
  | .voidResult method => method ++ " returns void but a result is bound"
  | .missingResult method => method ++ " produces a value but no result is bound"
  | .resultKind method produced given =>
    s!"{method} produces {produced.name}, result local is {given.name}"
  | .fieldKind field held given => s!"{field} holds {held.name}, value local is {given.name}"

def Malformed.message : Malformed → String
  | .undecodable fault => fault.message
  | .unverified fault => fault.message
  | .flaw cause => cause.message
  | .conflict cause => cause.message
  | .missingEntry table index => s!"{table.name} index {index.toNat}"
  | .parameterKinds method => s!"parameter registers of {method} do not match its signature"
  | .parameterCount method declared needed =>
    s!"{method} declares {declared} parameter registers, signature needs {needed}"
  | .highHalf register => s!"v{register.toNat} is the high half of a register pair"
  | .foreignConstructor method => "new-instance type does not own " ++ method
  | .misplaced opcode => "unexpected " ++ opcode.name

def Unresolved.message : Unresolved → String
  | .method => "invoke without target method"
  | .field => "field access without target field"
  | .marker member => s!"static marker of {member} is unknown"

def Capacity.name : Capacity → String
  | .registers => "registers"
  | .instructions => "instructions per method"
  | .arguments => "invoke arguments"
  | .texts => "strings"
  | .types => "types"
  | .fields => "field references"
  | .methods => "method references"

def Fault.message : Fault → String
  | .flaw cause => cause.message
  | .conflict cause => "Signature conflict: " ++ cause.message
  | .malformedImage cause => "Malformed image: " ++ cause.message
  | .duplicateType type => "Duplicate type: " ++ type
  | .concurrentModification symbol => "Concurrent modification of references to " ++ symbol.longText
  | .unresolved symbol => "Unresolved symbol: " ++ symbol.message
  | .capacityExceeded capacity count limit =>
    s!"Capacity exceeded: {capacity.name} ({count} > {limit})"
  | .invalidBody fault => "Invalid body: " ++ fault.message
  | .unknownInstruction id => "Unknown instruction: " ++ id.text
  | .limits fault => "Configuration error: " ++ fault.message
  | .unreadableFile => "I/O error"

/-- Reads a text that is exactly one descriptor. -/
def Descriptor.parse (text : String) : Except Fault Descriptor :=
  match Descriptor.ofText? text with
  | some descriptor => .ok descriptor
  | none => .error (.flaw (.descriptor (.unreadable text)))

/-- Reads a text that is exactly one signature. -/
def Signature.parse (text : String) : Except Fault Signature :=
  match Signature.ofText? text with
  | some signature => .ok signature
  | none => .error (.flaw (.descriptor (.unreadable text)))

end ClassImage
