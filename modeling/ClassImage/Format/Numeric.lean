import ClassImage.Format.Image

/-!
Comparing images by the numbers they hold. As numbers, the two zeros are equal
and a value that is not a number equals nothing, itself included. All other
parts compare as they are.
-/

namespace ClassImage

namespace FloatBits

def isNaN32 (bits : UInt32) : Bool := bits &&& 0x7FFFFFFF > 0x7F800000

def isNaN64 (bits : UInt64) : Bool := bits &&& 0x7FFFFFFFFFFFFFFF > 0x7FF0000000000000

/-- One pattern for each number, and none for what is not a number. -/
def number32? (bits : UInt32) : Option UInt32 :=
  if isNaN32 bits then none else some (if bits = 0x80000000 then 0 else bits)

/-- One pattern for each number, and none for what is not a number. -/
def number64? (bits : UInt64) : Option UInt64 :=
  if isNaN64 bits then none else some (if bits = 0x8000000000000000 then 0 else bits)

end FloatBits

/-- The instruction up to the sign of zero; none when it holds a value that is not a number. -/
def RawInstruction.numeric? : RawInstruction → Option RawInstruction
  | .constFloat dst bits => (FloatBits.number32? bits).map (.constFloat dst)
  | .constDouble dst bits => (FloatBits.number64? bits).map (.constDouble dst)
  | instruction => some instruction

namespace Image

def numeric? (image : Image) : Option Image := do
  let classes ← image.classes.mapM fun definition => do
    let methods ← definition.methods.mapM fun method => do
      match method.code with
      | none => return method
      | some code =>
        let instructions ← code.instructions.mapM RawInstruction.numeric?
        return { method with code := some { code with instructions } }
    return { definition with methods }
  return { image with classes }

def sameNumbers (left right : Image) : Bool :=
  match left.numeric?, right.numeric? with
  | some left, some right => left = right
  | _, _ => false

end Image

end ClassImage
