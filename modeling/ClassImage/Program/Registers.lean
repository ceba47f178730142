import ClassImage.Program.Basic

/-!
Registers of a body. Locals that are not parameters take the low registers in
the order of their first use; parameters take the highest registers in their
own order. A wide local takes a pair.
-/

namespace ClassImage

namespace Program

/-- The attached instructions of a body, in order. -/
def instructionsOf (program : Program) (body : Body) : List Instruction :=
  body.instructions.toList.filterMap program.instruction?

/-- Locals other than parameters, in order of first use. -/
def usedLocals (program : Program) (body : Body) : List Local :=
  let found := (program.instructionsOf body).foldl (fun found instruction =>
    instruction.locals.foldl (fun (found : Array Local) slot =>
      if body.parameters.contains slot || found.contains slot then found else found.push slot)
      found) #[]
  found.toList

end Program

/-- The locals of a body in register order, and how many registers hold parameters. -/
structure RegisterPlan where
  order : List Local
  parameterRegisters : Nat

namespace RegisterPlan

def slots (locals : List Local) : Nat := locals.foldr (fun slot total => slot.kind.slots + total) 0

/-- The register at which a local starts, if the locals from register `first` on include it. -/
def find? (wanted : Local) : Nat → List Local → Option Nat
  | _, [] => none
  | first, slot :: rest =>
    if slot = wanted then some first else find? wanted (first + slot.kind.slots) rest

def register? (plan : RegisterPlan) (slot : Local) : Option UInt16 :=
  (find? slot 0 plan.order).map UInt16.ofNat

/-- The tag of every register. -/
def tags (plan : RegisterPlan) : List UInt8 := plan.order.flatMap fun slot => slot.kind.registerTags

/-- Places all locals of a body, within a limit on registers. -/
def ofBody (program : Program) (body : Body) (limit : UInt32) : Except Fault RegisterPlan :=
  let order := program.usedLocals body ++ body.parameters
  let total := slots order
  if total > limit.toNat ∨ total > 65535 then
    .error (.capacityExceeded .registers total limit.toNat)
  else .ok ⟨order, slots body.parameters⟩

end RegisterPlan

end ClassImage
