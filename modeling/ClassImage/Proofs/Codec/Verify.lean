import ClassImage.Format.Verify
import ClassImage.Proofs.Outcome

/-!
What verification decides, check by check. Indices are within the pool, members
belong to the class that declares them, registers exist and wide ones come in
pairs, branches go to places where control may arrive, the parts of calls and
allocations stand side by side, and control does not run off the end of code.
-/

namespace ClassImage

namespace Pool

theorem checkIndex_ok {pool : Pool} {table : PoolTable} {index : UInt32} :
    pool.checkIndex table index = .ok () ↔ index.toNat < pool.size table := by
  unfold checkIndex
  split <;> simp [*]

/-- Every index inside the pool resolves. -/
structure Verified (pool : Pool) : Prop where
  types : ∀ text ∈ pool.types, text.toNat < pool.size .text
  protos : ∀ proto ∈ pool.protos, proto.result.toNat < pool.size .type ∧
    ∀ parameter ∈ proto.parameters, parameter.toNat < pool.size .type
  fields : ∀ field ∈ pool.fields, field.owner.toNat < pool.size .type ∧
    field.type.toNat < pool.size .type ∧ field.name.toNat < pool.size .text
  methods : ∀ method ∈ pool.methods, method.owner.toNat < pool.size .type ∧
    method.proto.toNat < pool.size .proto ∧ method.name.toNat < pool.size .text

theorem verify_ok {pool : Pool} : pool.verify = .ok () ↔ pool.Verified := by
  simp only [verify, Except.check_bind_ok, Except.forM_array_ok, Except.forM_ok, checkIndex_ok]
  constructor
  · rintro ⟨types, protos, fields, methods⟩
    exact ⟨types, protos, fields, methods⟩
  · rintro ⟨types, protos, fields, methods⟩
    exact ⟨types, protos, fields, methods⟩

end Pool

namespace CodeItem

/-- Every kind is known, and a wide register is followed by its high half. -/
def Paired : List UInt8 → Prop
  | [] => True
  | tag :: rest => RegisterTag.isValid tag ∧
    (RegisterTag.isWide tag → rest.head? = some RegisterTag.highHalf) ∧ Paired rest

theorem checkKinds_ok {method : String} {tags : List UInt8} :
    checkKinds method tags = .ok () ↔ Paired tags := by
  induction tags with
  | nil => simp [checkKinds, Paired]
  | cons tag rest ih =>
    unfold checkKinds
    by_cases valid : RegisterTag.isValid tag = true
    · by_cases wide : RegisterTag.isWide tag = true
      · by_cases half : rest.head? = some RegisterTag.highHalf
        · simp [Paired, valid, wide, half, ih]
        · simp [Paired, valid, wide, half]
      · simp [Paired, valid, wide, ih]
    · simp [Paired, valid]

/-- An instruction of the code is in its place, and what it refers to exists. -/
structure Accepts (code : CodeItem) (pool : Pool) (offset : Nat) (raw : RawInstruction) : Prop where
  registers : ∀ register ∈ raw.registers, register < code.registers
  entry : ∀ table index, raw.poolEntry? = some (table, index) → index.toNat < pool.size table
  target : ∀ target, raw.target? = some target → code.isStart target.toNat
  result : ∀ dst, raw = .moveResult dst → ∃ dispatch method arguments,
    code.before? offset = some (.invoke dispatch method arguments)
  allocation : ∀ dst type, raw = .newInstance dst type → ∃ constructor arguments,
    code.instruction? (offset + 1) = some (.invoke .direct constructor arguments) ∧
      arguments.head? = some dst ∧ pool.isConstructor constructor

theorem checkPairing_ok {code : CodeItem} {pool : Pool} {method : String} {offset : Nat}
    {raw : RawInstruction} :
    code.checkPairing pool method offset raw = .ok () ↔
      (∀ dst, raw = .moveResult dst → ∃ dispatch method arguments,
        code.before? offset = some (.invoke dispatch method arguments)) ∧
      ∀ dst type, raw = .newInstance dst type → ∃ constructor arguments,
        code.instruction? (offset + 1) = some (.invoke .direct constructor arguments) ∧
          arguments.head? = some dst ∧ pool.isConstructor constructor := by
  cases raw with
  | moveResult dst =>
    simp only [checkPairing]
    split
    · rename_i found
      simp [found]
    · rename_i other
      simp only [reduceCtorEq, false_iff, not_and]
      intro result
      obtain ⟨_, _, _, found⟩ := result dst rfl
      exact absurd found (other _ _ _)
  | newInstance dst type =>
    simp only [checkPairing]
    split
    · rename_i constructor arguments found
      split
      · rename_i fits
        simp [found, fits]
      · rename_i differs
        simp only [reduceCtorEq, false_iff, not_and]
        intro _ allocation
        obtain ⟨_, _, there, fits⟩ := allocation dst type rfl
        rw [found] at there
        cases there
        exact differs fits
    · rename_i other
      simp only [reduceCtorEq, false_iff, not_and]
      intro _ allocation
      obtain ⟨_, _, there, -⟩ := allocation dst type rfl
      exact absurd there (other _ _)
  | _ => simp [checkPairing]

theorem checkInstruction_ok {code : CodeItem} {pool : Pool} {method : String} {offset : Nat}
    {raw : RawInstruction} :
    code.checkInstruction pool method offset raw = .ok () ↔ code.Accepts pool offset raw := by
  have registers : (raw.registers.forM fun register =>
      if register < code.registers then Except.ok ()
      else .error (VerifyFault.invalidRegister register code.registers method offset)) = .ok () ↔
      ∀ register ∈ raw.registers, register < code.registers := by
    rw [Except.forM_ok]
    apply forall₂_congr
    intro register _
    split <;> simp [*]
  have steps : code.checkInstruction pool method offset raw = .ok () ↔
      (∀ register ∈ raw.registers, register < code.registers) ∧
      (∀ table index, raw.poolEntry? = some (table, index) → index.toNat < pool.size table) ∧
      (∀ target, raw.target? = some target → code.isStart target.toNat) ∧
      code.checkPairing pool method offset raw = .ok () := by
    rw [checkInstruction, Except.check_bind_ok, registers]
    rcases raw.poolEntry? with _ | ⟨table, index⟩ <;> rcases raw.target? with _ | target
    · simp
    · simp [Except.check_bind_ok, Except.refuse_ok]
    · simp [Except.check_bind_ok, Pool.checkIndex_ok]
    · simp [Except.check_bind_ok, Except.refuse_ok, Pool.checkIndex_ok]
  rw [steps, checkPairing_ok]
  constructor
  · rintro ⟨registers, entry, target, result, allocation⟩
    exact ⟨registers, entry, target, result, allocation⟩
  · rintro ⟨registers, entry, target, result, allocation⟩
    exact ⟨registers, entry, target, result, allocation⟩

structure Verified (code : CodeItem) (pool : Pool) : Prop where
  length : code.kinds.length = code.registers.toNat
  parameters : code.parameterRegisters ≤ code.registers
  kinds : Paired code.kinds
  instructions : ∀ offset raw, code.instruction? offset = some raw → code.Accepts pool offset raw
  closed : ∀ last, code.instructions.back? = some last → last.opcode.isTerminator

theorem verify_ok {code : CodeItem} {pool : Pool} {method : String} :
    code.verify pool method = .ok () ↔ code.Verified pool := by
  have instructions : (code.instructions.toList.zipIdx.forM fun entry =>
      code.checkInstruction pool method entry.2 entry.1) = .ok () ↔
      ∀ offset raw, code.instruction? offset = some raw → code.Accepts pool offset raw := by
    rw [Except.forM_ok]
    simp only [checkInstruction_ok, Prod.forall, List.mem_zipIdx_iff_getElem?, instruction?,
      Array.getElem?_toList]
    exact forall_comm
  simp only [verify, Except.check_bind_ok, Except.refuse_ok, instructions, checkKinds_ok, ne_eq,
    not_not]
  constructor
  · rintro ⟨length, parameters, kinds, instructions, closed⟩
    refine ⟨length, UInt16.not_lt.mp parameters, kinds, instructions, ?_⟩
    intro last found
    simpa only [found, Except.refuse_ok, not_not] using closed
  · rintro ⟨length, parameters, kinds, instructions, closed⟩
    refine ⟨length, UInt16.not_lt.mpr parameters, kinds, instructions, ?_⟩
    cases found : code.instructions.back? with
    | none => rfl
    | some last => exact Except.refuse_ok.mpr (not_not.mpr (closed last found))

end CodeItem

structure ClassDef.Verified (definition : ClassDef) (pool : Pool) : Prop where
  type : definition.type.toNat < pool.size .type
  superclass : ∀ index ∈ definition.superclass, index.toNat < pool.size .type
  interfaces : ∀ index ∈ definition.interfaces, index.toNat < pool.size .type
  source : ∀ index ∈ definition.source, index.toNat < pool.size .text
  fields : ∀ field ∈ definition.fields, field.field.toNat < pool.size .field ∧
    (pool.field? field.field).map (·.owner) = some definition.type
  methods : ∀ method ∈ definition.methods, method.method.toNat < pool.size .method ∧
    (pool.method? method.method).map (·.owner) = some definition.type ∧
    ∀ code ∈ method.code, code.Verified pool

theorem ClassDef.verify_ok {definition : ClassDef} {pool : Pool} :
    definition.verify pool = .ok () ↔ definition.Verified pool := by
  simp only [ClassDef.verify, Except.check_bind_ok, Pool.checkIndex_ok, Except.forM_option_ok,
    Except.forM_ok, Except.refuse_ok, not_not, ne_eq]
  constructor
  · rintro ⟨type, superclass, interfaces, source, fields, methods⟩
    refine ⟨type, superclass, interfaces, source, fields, ?_⟩
    intro method member
    obtain ⟨known, owned, verified⟩ := methods method member
    refine ⟨known, owned, ?_⟩
    intro code here
    rw [Option.mem_def.mp here] at verified
    exact CodeItem.verify_ok.mp verified
  · rintro ⟨type, superclass, interfaces, source, fields, methods⟩
    refine ⟨type, superclass, interfaces, source, fields, ?_⟩
    intro method member
    obtain ⟨known, owned, verified⟩ := methods method member
    refine ⟨known, owned, ?_⟩
    cases here : method.code with
    | none => rfl
    | some code => exact CodeItem.verify_ok.mpr (verified code here)

theorem Image.verify_ok {image : Image} :
    image.verify = .ok () ↔ image.pool.Verified ∧
      ∀ definition ∈ image.classes, definition.Verified image.pool := by
  simp only [Image.verify, Except.check_bind_ok, Pool.verify_ok, Except.forM_ok, ClassDef.verify_ok]

end ClassImage
