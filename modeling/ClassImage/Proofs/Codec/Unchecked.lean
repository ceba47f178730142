import ClassImage.Proofs.Codec.Prefixes
import ClassImage.Proofs.Codec.Verify

/-!
Operations that are not defined everywhere. Decoding takes what follows the
header, and verification looks into tables and takes numbers apart, where nothing
is checked on the spot: that the operation is defined there follows from earlier
checks. Here these operations stop the whole run outside their domain, and no run
is ever stopped, whatever the bytes or the image.
-/

namespace ClassImage

/-- An action that can be stopped. A run that is stopped has neither a result nor a fault. -/
abbrev Unchecked (ε σ α : Type) := ExceptT ε (StateT σ Option) α

namespace Unchecked

/-- An operation that stops the run where it is not defined. -/
def demand {m : Type → Type} [MonadLiftT Option m] (operation : Option α) : m α := liftM operation

section Rules

variable {ε ε' σ α β : Type}

/-- An action that cannot be stopped. -/
def act (action : ExceptT ε (StateM σ) α) : Unchecked ε σ α := fun state => some (outcome action state)

/-- The action is not stopped from this state on, and does what the other one does. -/
def Runs (action : Unchecked ε σ α) (safe : ExceptT ε (StateM σ) α) (state : σ) : Prop :=
  action state = some (outcome safe state)

namespace Runs

variable {state : σ}

theorem act (action : ExceptT ε (StateM σ) α) : Runs (act action) action state := rfl

theorem pure (value : α) : Runs (pure value : Unchecked ε σ α) (pure value) state := rfl

theorem throw (fault : ε) : Runs (throw fault : Unchecked ε σ α) (throw fault) state := rfl

/-- What comes second has to run only where the first arrives. -/
theorem bind {action : Unchecked ε σ α} {safe : ExceptT ε (StateM σ) α} {next : α → Unchecked ε σ β}
    {following : α → ExceptT ε (StateM σ) β} (first : Runs action safe state)
    (second : ∀ value middle, outcome safe state = (.ok value, middle) →
      Runs (next value) (following value) middle) : Runs (action >>= next) (safe >>= following) state := by
  have split : (action >>= next) state = (action state).bind fun reached =>
      ExceptT.bindCont next reached.1 reached.2 := rfl
  unfold Runs at first
  rw [Runs, split, first, Option.bind_some, outcome_bind]
  rcases reached : outcome safe state with ⟨_ | value, middle⟩
  · rfl
  · exact second value middle reached

theorem get_bind {action : Unchecked ε σ α} {next : σ → ExceptT ε (StateM σ) α}
    (second : Runs action (next state) state) : Runs action (get >>= next) state := second

/-- An operation that is defined. -/
theorem defined {value : α} {next : α → Unchecked ε σ β} {safe : ExceptT ε (StateM σ) β}
    {operation : Option α} (inside : operation = some value) (second : Runs (next value) safe state) :
    Runs ((demand operation : Unchecked ε σ α) >>= next) safe state := by
  rw [inside]
  exact second

theorem refuse {condition : Prop} [Decidable condition] (fault : ε) :
    Runs (refuse condition fault : Unchecked ε σ Unit) (refuse condition fault) state := by
  unfold ClassImage.refuse
  split
  · exact throw fault
  · exact pure ()

end Runs

/-- A test that cannot be stopped. -/
def test (safe : Except ε α) : ExceptT ε Option α := some safe

/-- What comes second has to be tested only where the first succeeds. -/
theorem test_bind {action : ExceptT ε Option α} {safe : Except ε α} {next : α → ExceptT ε Option β}
    {following : α → Except ε β} (first : action = some safe)
    (second : ∀ value, safe = .ok value → next value = some (following value)) :
    (action >>= next) = some (safe >>= following) := by
  subst first
  cases safe with
  | error => rfl
  | ok value => exact second value rfl

/-- An operation that is defined. -/
theorem defined_bind {value : α} {next : α → ExceptT ε Option β} {safe : Option (Except ε β)}
    {operation : Option α} (inside : operation = some value) (second : next value = safe) :
    ((demand operation : ExceptT ε Option α) >>= next) = safe := by
  rw [inside]
  exact second

theorem test_refuse {condition other : Prop} [Decidable condition] [Decidable other]
    (same : condition ↔ other) (fault : ε) :
    (refuse condition fault : ExceptT ε Option Unit) = some (refuse other fault) := by
  unfold refuse
  by_cases holds : condition
  · rw [if_pos holds, if_pos (same.mp holds)]
    rfl
  · rw [if_neg holds, if_neg (mt same.mpr holds)]
    rfl

theorem test_forM {list : List α} {action : α → ExceptT ε Option Unit} {safe : α → Except ε Unit}
    (each : ∀ entry ∈ list, action entry = some (safe entry)) : list.forM action = some (list.forM safe) := by
  induction list with
  | nil => rfl
  | cons entry rest ih =>
    rw [List.forall_mem_cons] at each
    exact test_bind each.1 fun _ _ => ih each.2

end Rules

/-- An entry of a table, which must have one there. -/
def entry (table : Array α) (index : Nat) : Option α := table[index]?

/-- What is left of bytes behind a position, which must not lie behind their end. -/
def since (bytes : Bytes) (start : Nat) : Option Bytes :=
  if start ≤ bytes.length then some (bytes.drop start) else none

/-- A difference of numbers, of which the first must not be the smaller one. -/
def minus (number less : Nat) : Option Nat := if less ≤ number then some (number - less) else none

section Verification

/-- The instruction before a position, if there is a position before it. -/
def before (code : CodeItem) : Nat → Option (Option RawInstruction)
  | 0 => some none
  | index + 1 => (entry code.instructions index).map some

/-- Control may arrive at this position, which must hold an instruction. -/
def isStart (code : CodeItem) (index : Nat) : Option Bool :=
  (entry code.instructions index).bind fun
    | .moveResult _ => some false
    | .invoke .direct _ _ =>
      (before code index).map fun
        | some (.newInstance _ _) => false
        | _ => true
    | _ => some true

/-- Only a position inside the code is asked for what it holds. -/
def reaches (code : CodeItem) (target : Nat) : Option Bool :=
  if target < code.instructions.size then isStart code target else some false

def checkPairing (code : CodeItem) (pool : Pool) (method : String) (offset : Nat)
    (previous : Option RawInstruction) : RawInstruction → Except VerifyFault Unit
  | .moveResult _ =>
    match previous with
    | some (.invoke _ _ _) => .ok ()
    | _ => .error (.malformedCode method offset .orphanResult)
  | instruction => code.checkPairing pool method offset instruction

def checkInstruction (code : CodeItem) (pool : Pool) (method : String) (offset : Nat)
    (instruction : RawInstruction) : ExceptT VerifyFault Option Unit := do
  test (instruction.registers.forM fun register =>
    if register < code.registers then .ok ()
    else .error (.invalidRegister register code.registers method offset))
  match instruction.poolEntry? with
  | some (table, index) => test (pool.checkIndex table index)
  | none => pure ()
  match instruction.target? with
  | some target =>
    let valid ← demand (reaches code target.toNat)
    refuse (¬valid) (VerifyFault.invalidTarget target method offset)
  | none => pure ()
  let previous ← demand (before code offset)
  test (checkPairing code pool method offset previous instruction)

def verifyCode (code : CodeItem) (pool : Pool) (method : String) : ExceptT VerifyFault Option Unit := do
  refuse (code.kinds.length ≠ code.registers.toNat)
    (VerifyFault.malformedCode method 0 .kindTableSize)
  refuse (code.parameterRegisters > code.registers)
    (VerifyFault.malformedCode method 0 .parameterRegisters)
  test (CodeItem.checkKinds method code.kinds)
  code.instructions.toList.zipIdx.forM fun (instruction, offset) =>
    checkInstruction code pool method offset instruction
  match code.instructions.back? with
  | some last =>
    if last.opcode.isTerminator then pure ()
    else
      let offset ← demand (minus code.instructions.size 1)
      throw (VerifyFault.malformedCode method offset .openEnd)
  | none => pure ()

def verifyClass (definition : ClassDef) (pool : Pool) : ExceptT VerifyFault Option Unit := do
  test (pool.checkIndex .type definition.type)
  test (definition.superclass.forM (pool.checkIndex .type))
  test (definition.interfaces.forM (pool.checkIndex .type))
  test (definition.source.forM (pool.checkIndex .text))
  definition.fields.forM fun field => do
    test (pool.checkIndex .field field.field)
    let declared ← demand (entry pool.fields field.field.toNat)
    refuse (declared.owner ≠ definition.type) (VerifyFault.foreignField field.field)
  definition.methods.forM fun method => do
    test (pool.checkIndex .method method.method)
    let declared ← demand (entry pool.methods method.method.toNat)
    refuse (declared.owner ≠ definition.type) (VerifyFault.foreignMethod method.method)
    match method.code with
    | some code => verifyCode code pool (pool.methodText method.method)
    | none => pure ()

def verify (image : Image) : ExceptT VerifyFault Option Unit := do
  test image.pool.verify
  image.classes.forM fun definition => verifyClass definition image.pool

variable {code : CodeItem} {pool : Pool}

theorem before_eq {index : Nat} (inside : index < code.instructions.size) :
    before code index = some (code.before? index) := by
  cases index with
  | zero => rfl
  | succ index =>
    have held : code.instructions[index]? = some code.instructions[index] :=
      Array.getElem?_eq_getElem (Nat.lt_of_succ_lt inside)
    rw [before, entry, CodeItem.before?, CodeItem.instruction?, held, Option.map_some]

theorem isStart_eq {index : Nat} (inside : index < code.instructions.size) :
    isStart code index = some (code.isStart index) := by
  have held : code.instructions[index]? = some code.instructions[index] := Array.getElem?_eq_getElem inside
  rw [isStart, entry, CodeItem.isStart, CodeItem.instruction?, held, Option.bind_some, before_eq inside,
    Option.map_some]
  generalize code.instructions[index] = raw
  cases raw with
  | invoke dispatch =>
    cases dispatch with
    | direct =>
      rcases code.before? index with _ | previous
      · rfl
      · cases previous <;> rfl
    | _ => rfl
  | _ => rfl

theorem reaches_eq (code : CodeItem) (target : Nat) : reaches code target = some (code.isStart target) := by
  unfold reaches
  split
  · rename_i inside
    exact isStart_eq inside
  · rename_i outside
    rw [CodeItem.isStart, CodeItem.instruction?, Array.getElem?_eq_none (Nat.not_lt.mp outside)]

theorem checkPairing_eq (method : String) (offset : Nat) (raw : RawInstruction) :
    checkPairing code pool method offset (code.before? offset) raw = code.checkPairing pool method offset raw := by
  cases raw <;> rfl

theorem checkInstruction_eq {method : String} {offset : Nat} {raw : RawInstruction}
    (inside : offset < code.instructions.size) :
    checkInstruction code pool method offset raw = some (code.checkInstruction pool method offset raw) := by
  have paired : (demand (before code offset) >>= fun previous =>
      test (checkPairing code pool method offset previous raw) : ExceptT VerifyFault Option Unit) =
      some (code.checkPairing pool method offset raw) :=
    defined_bind (before_eq inside) (congrArg some (checkPairing_eq method offset raw))
  refine test_bind rfl fun _ _ => ?_
  rcases raw.poolEntry? with _ | ⟨table, index⟩ <;> rcases raw.target? with _ | target
  · exact paired
  · exact defined_bind (reaches_eq code _) (test_bind (test_refuse .rfl _) fun _ _ => paired)
  · exact test_bind rfl fun _ _ => paired
  · exact test_bind rfl fun _ _ => defined_bind (reaches_eq code _) (test_bind (test_refuse .rfl _) fun _ _ => paired)

theorem verifyCode_eq (method : String) : verifyCode code pool method = some (code.verify pool method) := by
  refine test_bind (test_refuse .rfl _) fun _ _ => test_bind (test_refuse .rfl _) fun _ _ => test_bind rfl fun _ _ => ?_
  refine test_bind (test_forM ?_) fun _ _ => ?_
  · rintro ⟨raw, offset⟩ member
    have inside := List.snd_lt_of_mem_zipIdx member
    exact checkInstruction_eq (by simpa using inside)
  · cases ends : code.instructions.back? with
    | none => rfl
    | some last =>
      by_cases closing : last.opcode.isTerminator
      · simp only [closing, refuse, if_true, not_true, if_false]
        rfl
      · have filled : 1 ≤ code.instructions.size := by
          by_contra empty
          have none := Array.eq_empty_of_size_eq_zero (Nat.lt_one_iff.mp (Nat.not_le.mp empty))
          rw [none] at ends
          cases ends
        have offset : minus code.instructions.size 1 = some (code.instructions.size - 1) := if_pos filled
        simp only [closing, refuse, if_false, not_false_eq_true, if_true, Bool.false_eq_true]
        exact defined_bind offset rfl

theorem verifyClass_eq (definition : ClassDef) (pool : Pool) :
    verifyClass definition pool = some (definition.verify pool) := by
  refine test_bind rfl fun _ _ => test_bind rfl fun _ _ => test_bind rfl fun _ _ => test_bind rfl fun _ _ => ?_
  refine test_bind (test_forM fun field _ => test_bind rfl fun _ found => ?_) fun _ _ =>
    test_forM fun method _ => test_bind rfl fun _ found => ?_
  · have inside : field.field.toNat < pool.fields.size := Pool.checkIndex_ok.mp found
    have held : pool.fields[field.field.toNat]? = some pool.fields[field.field.toNat] :=
      Array.getElem?_eq_getElem inside
    rw [Pool.field?, held, Option.map_some]
    exact defined_bind held (test_refuse (by rw [ne_eq, ne_eq, Option.some.injEq]) _)
  · have inside : method.method.toNat < pool.methods.size := Pool.checkIndex_ok.mp found
    have held : pool.methods[method.method.toNat]? = some pool.methods[method.method.toNat] :=
      Array.getElem?_eq_getElem inside
    rw [Pool.method?, held, Option.map_some]
    refine defined_bind held (test_bind (test_refuse (by rw [ne_eq, ne_eq, Option.some.injEq]) _) fun _ _ => ?_)
    cases method.code with
    | none => rfl
    | some code => exact verifyCode_eq _

/-- Verification is never stopped. -/
theorem verify_eq (image : Image) : verify image = some image.verify :=
  test_bind rfl fun _ _ => test_forM fun definition _ => verifyClass_eq definition image.pool

end Verification

section Decoding

/-- Reads a header, takes what follows it for the payload, and reads the payload when it is intact. -/
def read (bytes : Bytes) : Unchecked ImageFault Cursor Image := do
  let magic ← act (ExceptT.adapt .unreadable (Reader.bytes 4))
  refuse (magic ≠ Image.magic) (ImageFault.invalidMagic magic)
  let version ← act (ExceptT.adapt .unreadable Reader.u32)
  refuse (version ≠ Image.version) (ImageFault.unsupportedVersion version)
  let flags ← act (ExceptT.adapt .unreadable Reader.u32)
  let checksum ← act (ExceptT.adapt .unreadable Reader.u32)
  let digest ← act (ExceptT.adapt .unreadable (Reader.bytes 32))
  let payload ← demand (since bytes 48)
  refuse (checksum ≠ Checksum.crc32 payload)
    (ImageFault.checksumMismatch checksum (Checksum.crc32 payload))
  refuse (digest ≠ Digest.sha256 payload) (ImageFault.digestMismatch digest (Digest.sha256 payload))
  let pool ← act (ExceptT.adapt .unreadable Reader.pool)
  let classes ← act (ExceptT.adapt .unreadable (Reader.table 4 Reader.classDef))
  let cursor ← act get
  refuse cursor.hasMore (ImageFault.trailingData cursor.remaining)
  return ⟨flags, pool, classes⟩

def decode (bytes : Bytes) : Option (Except ImageFault Image) :=
  (read bytes (Cursor.ofBytes bytes)).map Prod.fst

/-- The cursor has passed that many of the bytes. -/
def Passed (bytes : Bytes) (count : Nat) (cursor : Cursor) : Prop :=
  count ≤ bytes.length ∧ cursor.rest = bytes.drop count

theorem Passed.advance {bytes piece : Bytes} {count : Nat} {cursor after : Cursor}
    (passed : Passed bytes count cursor) (moved : cursor.Advances piece after) :
    Passed bytes (count + piece.length) after := by
  have rest := passed.2.symm.trans moved.1
  have size := congrArg List.length rest
  rw [List.length_drop, List.length_append] at size
  refine ⟨by have := passed.1; omega, ?_⟩
  rw [← List.drop_drop, rest, List.drop_left]

/-- A field of the header, and then the rest. -/
theorem runs_field {reader : Reader α} {write : α → Bytes} {valid : α → Prop}
    (reads : Reader.Reads reader write valid) {width : Nat} (sized : ∀ value, valid value → (write value).length = width)
    {bytes : Bytes} {count : Nat} {cursor : Cursor} (passed : Passed bytes count cursor)
    {next : α → Unchecked ImageFault Cursor Image} {following : α → ExceptT ImageFault (StateM Cursor) Image}
    (second : ∀ value middle, Passed bytes (count + width) middle → Runs (next value) (following value) middle) :
    Runs (act (ExceptT.adapt ImageFault.unreadable reader) >>= next)
      (ExceptT.adapt ImageFault.unreadable reader >>= following) cursor := by
  refine (Runs.act _).bind fun value middle found => second value middle ?_
  obtain ⟨fits, moved⟩ := (reads _ _ _).mp (outcome_adapt_ok.mp found)
  rw [← sized value fits]
  exact passed.advance moved

/-- A check of the header, and then the rest. -/
theorem runs_check {condition : Prop} [Decidable condition] {fault : ImageFault} {cursor : Cursor}
    {next : Unit → Unchecked ImageFault Cursor Image} {following : Unit → ExceptT ImageFault (StateM Cursor) Image}
    (second : Runs (next ()) (following ()) cursor) :
    Runs (refuse condition fault >>= next) (refuse condition fault >>= following) cursor := by
  refine (Runs.refuse _).bind fun _ middle found => ?_
  obtain ⟨-, rfl⟩ := outcome_refuse_ok.mp found
  exact second

/-- Decoding is never stopped. -/
theorem decode_eq (bytes : Bytes) : decode bytes = some (Image.decode bytes) := by
  have runs : Runs (read bytes) Image.read (Cursor.ofBytes bytes) := by
    have word : ∀ value : UInt32, True → (Bytes.ofUInt32 value).length = 4 :=
      fun value _ => Bytes.length_ofUInt32 value
    refine runs_field (Reader.reads_bytes 4) (fun _ => id) ⟨Nat.zero_le _, rfl⟩ fun _ _ passed => runs_check ?_
    refine runs_field Reader.reads_u32 word passed fun _ _ passed => runs_check ?_
    refine runs_field Reader.reads_u32 word passed fun _ _ passed => ?_
    refine runs_field Reader.reads_u32 word passed fun _ _ passed => ?_
    refine runs_field (Reader.reads_bytes 32) (fun _ => id) passed fun _ _ passed => .get_bind ?_
    have payload : since bytes 48 = some (bytes.drop 48) := if_pos passed.1
    rw [passed.2]
    refine .defined payload (runs_check (runs_check ?_))
    refine (Runs.act _).bind fun _ _ _ => (Runs.act _).bind fun _ _ _ => (Runs.act _).bind fun _ _ _ => ?_
    exact runs_check (.pure _)
  rw [decode, runs, Option.map_some]
  rfl

end Decoding

end Unchecked

end ClassImage
