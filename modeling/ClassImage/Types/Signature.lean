import ClassImage.Types.Descriptor

/-!
Method signatures: the parameter types in parentheses, then the result type.
Only the result may be `void`.
-/

namespace ClassImage

structure Signature where
  parameters : List Descriptor
  result : Descriptor
deriving DecidableEq, Inhabited

namespace Signature

def text (signature : Signature) : String :=
  "(" ++ String.join (signature.parameters.map Descriptor.text) ++ ")" ++ signature.result.text

/-- Number of parameters, the receiver not counted. -/
def arity (signature : Signature) : Nat := signature.parameters.length

/-- Kinds of the parameters that hold a value. -/
def parameterKinds (signature : Signature) : List ValueKind :=
  signature.parameters.filterMap Descriptor.kind?

/-- Reads parameters up to the closing parenthesis, and what follows it. -/
def parameters? (input : List Char) : Option (List Descriptor × List Char) :=
  if input.head? = some ')' then some ([], input.tail)
  else
    match _read : Descriptor.front? input with
    | none => none
    | some (descriptor, rest) =>
      if descriptor.isVoid then none
      else
        match parameters? rest with
        | none => none
        | some (descriptors, after) => some (descriptor :: descriptors, after)
termination_by input.length
decreasing_by exact Descriptor.front?_shorter _read

/-- Reads a text that is exactly one signature. -/
def ofText? (text : String) : Option Signature :=
  match text.toList with
  | '(' :: input =>
    match parameters? input with
    | none => none
    | some (parameters, rest) =>
      match Descriptor.front? rest with
      | some (result, []) => some ⟨parameters, result⟩
      | _ => none
  | _ => none

end Signature

end ClassImage
