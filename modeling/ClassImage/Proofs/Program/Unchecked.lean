import ClassImage.Proofs.Codec.Unchecked
import ClassImage.Proofs.Program.Targets

/-!
Operations of loading that are not defined everywhere. The registers of a body
and the handles of its instructions are found in tables that are indexed by what
the image says: by the registers that parameters are to take, and by the raw
positions that branches lead to. Verification has compared both with the sizes of
the tables, in other terms and long before, and so no run of loading is stopped.
-/

namespace ClassImage

namespace Unchecked

variable {σ ε ε' α β : Type} {state : σ}

theorem Runs.adapt {action : Unchecked ε σ α} {safe : ExceptT ε (StateM σ) α} (relabel : ε → ε')
    (runs : Runs action safe state) :
    Runs (ExceptT.adapt relabel action) (ExceptT.adapt relabel safe) state := by
  have split : (ExceptT.adapt relabel action : Unchecked ε' σ α) state =
      (action state).bind fun reached => some (reached.1.mapError relabel, reached.2) := rfl
  rw [Runs, split, runs, Option.bind_some, outcome_adapt]

theorem Runs.bind_pure {action : Unchecked ε σ α} {value : α} {next : α → Unchecked ε σ β}
    {safe : ExceptT ε (StateM σ) β} (first : Runs action (Pure.pure value) state)
    (second : Runs (next value) safe state) : Runs (action >>= next) safe state := by
  have both : Runs (action >>= next) (Pure.pure value >>= fun _ => safe) state :=
    first.bind fun _ _ done => by
      cases done
      exact second
  exact both

theorem Runs.bind_throw {action : Unchecked ε σ α} {fault : ε} {next : α → Unchecked ε σ β}
    (first : Runs action (MonadExcept.throw fault) state) :
    Runs (action >>= next) (MonadExcept.throw fault) state := by
  have both : Runs (action >>= next) (MonadExcept.throw fault >>= fun _ => MonadExcept.throw fault) state :=
    first.bind fun _ _ done => by cases done
  exact both

/-- A check that is passed. -/
theorem Runs.passed {condition : Prop} [Decidable condition] {fault : ε} {next : Unit → Unchecked ε σ α}
    {safe : ExceptT ε (StateM σ) α} (holds : ¬condition) (second : Runs (next ()) safe state) :
    Runs (ClassImage.refuse condition fault >>= next) safe state := by
  rw [ClassImage.refuse, if_neg holds]
  exact second

/-- A check that is passed, and that the other run makes alone. -/
theorem Runs.safe_passed {condition : Prop} [Decidable condition] {fault : ε} {action : Unchecked ε σ α}
    {next : Unit → ExceptT ε (StateM σ) α} (holds : ¬condition) (second : Runs action (next ()) state) :
    Runs action (ClassImage.refuse condition fault >>= next) state := by
  rw [ClassImage.refuse, if_neg holds]
  exact second

/-- A check that the other run alone makes, and fails. -/
theorem Runs.safe_refused {condition : Prop} [Decidable condition] {fault : ε} {action : Unchecked ε σ α}
    {next : Unit → ExceptT ε (StateM σ) α} (holds : condition)
    (second : Runs action (MonadExcept.throw fault) state) :
    Runs action (ClassImage.refuse condition fault >>= next) state := by
  rw [ClassImage.refuse, if_pos holds]
  exact second

theorem Runs.forM {list : List α} {action : α → Unchecked ε σ Unit} {safe : α → ExceptT ε (StateM σ) Unit}
    (each : ∀ entry ∈ list, ∀ state, Runs (action entry) (safe entry) state) :
    Runs (list.forM action) (list.forM safe) state := by
  induction list generalizing state with
  | nil => exact .pure ()
  | cons entry rest ih =>
    rw [List.forall_mem_cons] at each
    exact (each.1 state).bind fun _ middle _ => ih each.2

/-- A list with another entry in a place, which the list must have. -/
def update (list : List α) (place : Nat) (entry : α) : Option (List α) :=
  if place < list.length then some (list.set place entry) else none

/-- A parameter can begin at a register of this kind and does not reach over the last register. Only a
register below the last is asked for its kind. -/
def fits (kinds : List UInt8) (size register : Nat) (parameter : Local) : Option Bool :=
  if register + parameter.kind.slots ≤ size then
    kinds[register]?.map fun tag => RegisterTag.isWide tag = parameter.kind.isWide
  else some false

/-- Gives registers to parameters, from one register on, and tells where the last one ends. -/
def place (kinds : List UInt8) (size : Nat) (mismatch : Fault) :
    List Local → Nat → List (Option Local) → Unchecked Fault Program (List (Option Local) × Nat)
  | [], register, registers => return (registers, register)
  | parameter :: parameters, register, registers => do
    let suits ← demand (fits kinds size register parameter)
    refuse (¬suits) mismatch
    let registers ← demand (update registers register (some parameter))
    place kinds size mismatch parameters (register + parameter.kind.slots) registers

def assignRegisters (method : MethodId) (code : CodeItem) : Unchecked Fault Program (Array (Option Local)) := do
  let parameters ← act (ExceptT.adapt Fault.blameImageFully (Edit.createBody method))
  let name := (← act get).methodText method
  let size := code.registers.toNat
  let first ← demand (minus size code.parameterRegisters.toNat)
  let (registers, stop) ← place code.kinds size (.malformedImage (.parameterKinds name)) parameters first
    (List.replicate size none)
  if stop = size then
    let low ← act ((code.kinds.take first).mapM fun tag => (ValueKind.ofTag? tag).mapM Edit.freshLocal)
    return (low ++ registers.drop first).toArray
  else
    let placed ← demand (minus stop first)
    throw (.malformedImage (.parameterCount name code.parameterRegisters.toNat placed))

/-- For every raw position the number of the unit that it stands for, counted from a first number: the
unit that it is part of, or the next one where nothing is to be done. -/
def unitNumbers : Nat → List RawInstruction → List Nat
  | _, [] => []
  | count, .nop :: rest => count :: unitNumbers count rest
  | count, .newInstance _ _ :: .invoke _ _ _ :: rest => count :: count :: unitNumbers (count + 1) rest
  | count, .invoke _ _ _ :: .moveResult _ :: rest => count :: count :: unitNumbers (count + 1) rest
  | count, _ :: rest => count :: unitNumbers (count + 1) rest

open Loading.Context (Frame)

/-- The handle that a raw position stands for. The position must be one of the code, and the handle one
of those that are reserved for the body. -/
def target (frame : Frame) (numbers : List Nat) (position : UInt32) : Option InstructionId :=
  numbers[position.toNat]?.bind fun number =>
    if number < frame.units.length then some ⟨frame.firstUnit.index + number⟩ else none

def buildUnit (context : Loading.Context) (frame : Frame) (numbers : List Nat) :
    CodeUnit → Unchecked Fault Program Instruction
  | .single (.goto position) => do
    let handle ← demand (target frame numbers position)
    return .branch none handle
  | .single (.ifCompare comparison a b position) => do
    let left ← act (frame.slot a)
    let right ← act (frame.slot b)
    let handle ← demand (target frame numbers position)
    return .branch (some ⟨comparison, left, some right⟩) handle
  | .single (.ifZero comparison a position) => do
    let left ← act (frame.slot a)
    let handle ← demand (target frame numbers position)
    return .branch (some ⟨comparison, left, none⟩) handle
  | unit => act (context.buildUnit frame unit)

def loadUnit (context : Loading.Context) (frame : Frame) (numbers : List Nat) (method : MethodId) :
    (Nat × CodeUnit) × Nat → Unchecked Fault Program Unit
  | ((_, unit), index) => do
    let instruction ← buildUnit context frame numbers unit
    act (Edit.appendReserved method ⟨frame.firstUnit.index + index⟩ instruction)

def loadBody (context : Loading.Context) (method : MethodId) (code : CodeItem) :
    Unchecked Fault Program Unit := do
  let registers ← assignRegisters method code
  let units := CodeUnit.split 0 code.instructions.toList
  let numbers := unitNumbers 0 code.instructions.toList
  let first ← act (Edit.reserve units.length)
  units.zipIdx.forM (loadUnit context ⟨registers, units, first⟩ numbers method)

def load (context : Loading.Context) : Unchecked Fault Program Unit := do
  let coded ← act (context.image.classes.mapM context.declareClass)
  coded.flatten.forM fun (method, code) =>
    ExceptT.adapt Fault.blameImage (loadBody context method code)

def addImage (image : Image) : Unchecked Fault Program Unit := fun before =>
  (verify image).run.bind fun
    | .error fault => some (.error (.malformedImage (.unverified fault)), before)
    | .ok () =>
      match Loading.checkDuplicates before image.pool [] image.classes with
      | .error fault => some (.error fault, before)
      | .ok () =>
        (load ⟨image, before⟩ before).map fun
          | (.ok (), after) => (.ok (), after)
          | (.error fault, _) => (.error fault, before)

def addBytes (bytes : Bytes) : Unchecked Fault Program Unit := fun before =>
  (decode bytes).bind fun
    | .error fault => some (.error (.malformedImage (.undecodable fault)), before)
    | .ok image => addImage image before

section Registers

/-- A parameter takes the first register that is left, and the second of a pair holds none. -/
theorem placeParameters_cons (parameter : Local) (parameters : List Local) (tags : List UInt8) :
    placeParameters (parameter :: parameters) tags =
      if parameter.kind.slots ≤ tags.length ∧
          tags.head?.map RegisterTag.isWide = some parameter.kind.isWide then
        (placeParameters parameters (tags.drop parameter.kind.slots)).map fun (placed, rest) =>
          (some parameter :: (List.replicate (parameter.kind.slots - 1) none ++ placed), rest)
      else none := by
  unfold ValueKind.slots
  rcases tags with _ | ⟨tag, tags⟩
  · simp [placeParameters]
  · by_cases suits : RegisterTag.isWide tag = parameter.kind.isWide
    · by_cases wide : parameter.kind.isWide = true
      · rcases tags with _ | ⟨high, tags⟩
        · simp [placeParameters, suits, wide]
        · simp [placeParameters, suits, wide]
      · simp [placeParameters, suits, wide]
    · simp [placeParameters, suits]

theorem fits_eq {kinds : List UInt8} {register : Nat} (parameter : Local) :
    fits kinds kinds.length register parameter =
      some (decide (parameter.kind.slots ≤ (kinds.drop register).length ∧
        (kinds.drop register).head?.map RegisterTag.isWide = some parameter.kind.isWide)) := by
  have some' : 0 < parameter.kind.slots := by
    unfold ValueKind.slots
    split <;> omega
  unfold fits
  rw [List.length_drop, List.head?_drop]
  by_cases room : register + parameter.kind.slots ≤ kinds.length
  · have held : kinds[register]? = some kinds[register] := List.getElem?_eq_getElem (by omega)
    have room' : parameter.kind.slots ≤ kinds.length - register := by omega
    simp [room, room', held]
  · have full : ¬parameter.kind.slots ≤ kinds.length - register := by omega
    simp [room, full]

theorem update_replicate (front : List (Option Local)) {count : Nat} (parameter : Local) (slots : Nat)
    (some' : 0 < slots) (room : slots ≤ count) :
    update (front ++ List.replicate count none) front.length (some parameter) =
      some (front ++ some parameter :: List.replicate (slots - 1) none ++ List.replicate (count - slots) none) := by
  obtain ⟨more, rfl⟩ : ∃ more, slots = more + 1 := ⟨slots - 1, by omega⟩
  obtain ⟨rest, rfl⟩ : ∃ rest, count = more + 1 + rest := ⟨count - (more + 1), by omega⟩
  rw [update, if_pos (by simp), List.set_append_right _ _ (Nat.le_refl _), Nat.sub_self, Nat.add_sub_cancel_left,
    Nat.add_sub_cancel, Nat.add_right_comm, List.replicate_succ, List.set_cons_zero, List.replicate_add,
    List.append_assoc, List.cons_append]

/-- Placing parameters register by register does what placing them tag by tag does. -/
theorem runs_place {kinds : List UInt8} (mismatch : Fault) (parameters : List Local)
    (front : List (Option Local)) (room : front.length ≤ kinds.length) {program : Program} :
    Runs (place kinds kinds.length mismatch parameters front.length
        (front ++ List.replicate (kinds.length - front.length) none))
      (match placeParameters parameters (kinds.drop front.length) with
        | none => throw mismatch
        | some (placed, rest) =>
          pure (front ++ placed ++ List.replicate rest.length none, front.length + placed.length)) program := by
  induction parameters generalizing front with
  | nil =>
    simp only [placeParameters, List.length_drop, List.append_nil, List.length_nil, Nat.add_zero]
    exact .pure _
  | cons parameter parameters ih =>
    have some' : 0 < parameter.kind.slots := by
      unfold ValueKind.slots
      split <;> omega
    refine .defined (fits_eq parameter) ?_
    rw [placeParameters_cons]
    by_cases suits : parameter.kind.slots ≤ (kinds.drop front.length).length ∧
        (kinds.drop front.length).head?.map RegisterTag.isWide = some parameter.kind.isWide
    · rw [if_pos suits, decide_eq_true suits]
      have fitting : parameter.kind.slots ≤ kinds.length - front.length := by simpa using suits.1
      have size : (front ++ some parameter :: List.replicate (parameter.kind.slots - 1) none).length =
          front.length + parameter.kind.slots := by
        rw [List.length_append, List.length_cons, List.length_replicate, Nat.sub_add_cancel some']
      have updated := update_replicate front parameter parameter.kind.slots some' fitting
      have later := ih (front ++ some parameter :: List.replicate (parameter.kind.slots - 1) none)
        (by rw [size]; omega)
      rw [size, ← Nat.sub_sub, ← List.drop_drop] at later
      refine .passed (by simp) (.defined updated ?_)
      generalize placeParameters parameters ((kinds.drop front.length).drop parameter.kind.slots) = tail at later ⊢
      cases tail with
      | none => exact later
      | some pair =>
        obtain ⟨placed, rest⟩ := pair
        have total : front.length + (some parameter :: (List.replicate (parameter.kind.slots - 1) none ++
            placed)).length = front.length + parameter.kind.slots + placed.length := by
          simp only [List.length_cons, List.length_append, List.length_replicate]
          omega
        simp only [Option.map_some, total]
        simpa only [List.append_assoc, List.cons_append] using later
    · rw [if_neg suits, decide_eq_false suits]
      exact .throw _

end Registers

section Targets

open CodeUnit

/-- The positions of a unit have its number, and those behind it are counted from the next. -/
theorem numbers_unit {unit : CodeUnit} {units : List (Nat × CodeUnit)} {numbers : List Nat}
    {start count position size : Nat} (inside : position < unit.raws.length + size)
    (apart : Apart ((start, unit) :: units) (start + position))
    (behind : ∀ {further}, further < size → Apart units (start + unit.raws.length + further) →
      numbers[further]? = some (count + 1 + indexOf units (start + unit.raws.length + further))) :
    (List.replicate unit.raws.length count ++ numbers)[position]? =
      some (count + indexOf ((start, unit) :: units) (start + position)) := by
  have some' : 0 < unit.raws.length := List.length_pos_iff.mpr unit.raws_ne_nil
  rcases apart _ List.mem_cons_self with early | late
  · obtain rfl : position = 0 := by
      dsimp only at early
      omega
    have here : indexOf ((start, unit) :: units) (start + 0) = 0 := by
      rw [indexOf, List.takeWhile_cons_of_neg (by simp), List.length_nil]
    rw [here, List.getElem?_append_left (by simpa using some'), List.getElem?_replicate, if_pos some',
      Nat.add_zero]
  · obtain ⟨further, rfl⟩ : ∃ further, position = unit.raws.length + further :=
      ⟨position - unit.raws.length, by dsimp only at late; omega⟩
    have rest : Apart units (start + unit.raws.length + further) := fun entry member => by
      rw [Nat.add_assoc]
      exact apart entry (List.mem_cons_of_mem _ member)
    have found := behind (by omega) rest
    rw [List.getElem?_append_right (by simp), List.length_replicate, Nat.add_sub_cancel_left, found,
      ← Nat.add_assoc, indexOf_cons_of_lt (by omega), Nat.add_assoc, Nat.add_comm 1]

/-- A position that is not inside a unit has the number of the units before it. -/
theorem unitNumbers_eq {raws : List RawInstruction} (direct : Direct raws) {start position : Nat} (count : Nat)
    (inside : position < raws.length) (apart : Apart (split start raws) (start + position)) :
    (unitNumbers count raws)[position]? = some (count + indexOf (split start raws) (start + position)) := by
  fun_induction split start raws generalizing count position with
  | case1 => cases inside
  | case2 start rest ih =>
    cases position with
    | zero =>
      have none := (laid_split (direct.drop 1) (start + 1)).indexOf_eq_zero (Nat.le_succ start)
      exact congrArg (fun number => some (count + number)) none.symm
    | succ position =>
      rw [← Nat.add_assoc, Nat.add_right_comm] at apart ⊢
      exact ih (direct.drop 1) count (by simpa using inside) apart
  | case3 start dst type dispatch constructor arguments rest ih =>
    refine numbers_unit ?_ apart fun below => ih (direct.drop 2) _ below
    simp only [raws, List.length_cons, List.length_nil] at inside ⊢
    omega
  | case4 start dispatch method arguments dst rest ih =>
    refine numbers_unit ?_ apart fun below => ih (direct.drop 2) _ below
    simp only [raws, List.length_cons, List.length_nil] at inside ⊢
    omega
  | case5 start dispatch method arguments rest other ih =>
    have same : unitNumbers count (.invoke dispatch method arguments :: rest) =
        count :: unitNumbers (count + 1) rest := by
      rcases rest with _ | ⟨next, rest⟩
      · rfl
      · cases next with
        | moveResult dst => exact (other dst rest rfl).elim
        | _ => rfl
    rw [same]
    refine numbers_unit ?_ apart fun below => ih (direct.drop 1) _ below
    simp only [raws, List.length_cons, List.length_nil] at inside ⊢
    omega
  | case6 start raw rest idle pair taken _ ih =>
    have same : unitNumbers count (raw :: rest) = count :: unitNumbers (count + 1) rest := by
      rw [unitNumbers]
      · exact idle
      · exact pair
      · exact taken
    rw [same]
    refine numbers_unit ?_ apart fun below => ih (direct.drop 1) _ below
    simp only [raws, List.length_cons, List.length_nil] at inside ⊢
    omega

end Targets

section Loading

open CodeUnit

variable {context : Loading.Context} {frame : Frame} {code : CodeItem} {pool : Pool} {program : Program}

theorem runs_assignRegisters (verified : code.Verified pool) (method : MethodId) :
    Runs (assignRegisters method code) (Loading.Context.assignRegisters method code) program := by
  refine (Runs.act _).bind fun parameters middle _ => (Runs.act _).bind fun _ _ got => ?_
  cases got
  have low : code.parameterRegisters.toNat ≤ code.registers.toNat := verified.parameters
  have first : minus code.registers.toNat code.parameterRegisters.toNat =
      some (code.registers.toNat - code.parameterRegisters.toNat) := if_pos low
  generalize begins : code.registers.toNat - code.parameterRegisters.toNat = start at first ⊢
  have inside : start ≤ code.kinds.length := by
    rw [verified.length]
    omega
  refine .defined first ?_
  have placing := @runs_place code.kinds (.malformedImage (.parameterKinds (middle.methodText method))) parameters
    (List.replicate start none) (by simpa using inside) middle
  rw [List.length_replicate, List.replicate_append_replicate, Nat.add_sub_cancel' inside, verified.length] at placing
  cases found : placeParameters parameters (code.kinds.drop start) with
  | none =>
    rw [found] at placing
    dsimp only
    rw [found]
    exact .bind_throw placing
  | some pair =>
    obtain ⟨placed, rest⟩ := pair
    rw [found] at placing
    dsimp only
    rw [found]
    have total := placeParameters_length found
    rw [List.length_drop, verified.length] at total
    refine .bind_pure placing ?_
    dsimp only
    by_cases done : rest = []
    · subst done
      have stop : start + placed.length = code.registers.toNat := by
        rw [List.length_nil] at total
        omega
      rw [if_pos stop, List.length_nil, List.replicate_zero, List.append_nil,
        List.drop_append_of_le_length (by simp), List.drop_replicate, Nat.sub_self, List.replicate_zero,
        List.nil_append]
      exact .safe_passed (by simp) ((Runs.act _).bind fun low _ _ => .pure _)
    · have short : start + placed.length ≠ code.registers.toNat := by
        have := List.length_pos_iff.mpr done
        omega
      have size : minus (start + placed.length) start = some placed.length := by
        rw [minus, if_pos (Nat.le_add_right _ _), Nat.add_sub_cancel_left]
      rw [if_neg short]
      exact .safe_refused (by simpa using done) (.defined size (.throw _))

/-- A position that is not inside a unit has the number of the unit that it stands for. -/
theorem number_of_apart (verified : code.Verified pool) {position : Nat} (inside : position < code.instructions.size)
    (apart : Apart (split 0 code.instructions.toList) position) :
    (unitNumbers 0 code.instructions.toList)[position]? =
        some (indexOf (split 0 code.instructions.toList) position) ∧
      indexOf (split 0 code.instructions.toList) position < (split 0 code.instructions.toList).length := by
  refine ⟨?_, indexOf_inside verified inside⟩
  rw [← Nat.zero_add position] at apart
  have number := unitNumbers_eq verified.direct 0 (by simpa using inside) apart
  rwa [Nat.zero_add, Nat.zero_add] at number

/-- A branch that is built leads to a handle that is reserved for the body. -/
theorem target_eq (verified : code.Verified pool) {unit : Nat × CodeUnit}
    (units : frame.units = split 0 code.instructions.toList) (listed : unit ∈ frame.units)
    {position : UInt32} (branches : unit.2.target? = some position) :
    target frame (unitNumbers 0 code.instructions.toList) position = some (frame.target position) := by
  rw [units] at listed
  obtain ⟨inside, apart⟩ := apart_of_branch verified listed branches
  obtain ⟨number, below⟩ := number_of_apart verified inside apart
  rw [target, number, Option.bind_some, units, if_pos below, Frame.target, units]

theorem runs_buildUnit {numbers : List Nat} {unit : CodeUnit}
    (leads : ∀ position, unit.target? = some position → target frame numbers position = some (frame.target position)) :
    Runs (buildUnit context frame numbers unit) (context.buildUnit frame unit) program := by
  cases unit with
  | allocation | call => exact .act _
  | single raw =>
    cases raw with
    | goto position => exact .defined (leads position rfl) (.pure _)
    | ifCompare comparison a b position =>
      exact (Runs.act _).bind fun _ _ _ => (Runs.act _).bind fun _ _ _ => .defined (leads position rfl) (.pure _)
    | ifZero comparison a position =>
      exact (Runs.act _).bind fun _ _ _ => .defined (leads position rfl) (.pure _)
    | _ => exact .act _

theorem runs_loadBody (verified : code.Verified pool) (method : MethodId) :
    Runs (loadBody context method code) (context.loadBody method code) program := by
  refine (runs_assignRegisters verified method).bind fun registers _ _ => (Runs.act _).bind fun first _ _ => ?_
  refine .forM ?_
  rintro ⟨⟨start, unit⟩, index⟩ member state
  have listed := List.fst_mem_of_mem_zipIdx member
  refine (runs_buildUnit fun position branches => ?_).bind fun _ _ _ => .act _
  exact target_eq verified rfl listed branches

theorem runs_load (accepted : context.image.verify = .ok ()) :
    Runs (load context) context.load program := by
  refine (Runs.act _).bind fun coded middle declared => .forM ?_
  rintro ⟨method, code⟩ member state
  have listed : code ∈ context.image.codes := by
    rw [← Loading.Context.codes_of_declared declared]
    exact List.mem_map_of_mem member
  exact .adapt _ (runs_loadBody (Image.verified_codes accepted listed) method)

/-- Adding an image is never stopped. -/
theorem addImage_eq (image : Image) (before : Program) :
    addImage image before = some (Edit.addImage image before) := by
  rw [addImage, verify_eq, ExceptT.run, Option.bind_some, Edit.addImage]
  cases checked : image.verify with
  | error fault => rfl
  | ok =>
    dsimp only
    cases Loading.checkDuplicates before image.pool [] image.classes with
    | error fault => rfl
    | ok =>
      have runs : Runs (load ⟨image, before⟩) (Loading.Context.load ⟨image, before⟩) before :=
        runs_load checked
      dsimp only
      rw [runs, Option.map_some, outcome]
      rcases Loading.Context.load ⟨image, before⟩ before with ⟨_ | _, _⟩ <;> rfl

theorem addBytes_eq (bytes : Bytes) (before : Program) :
    addBytes bytes before = some (Edit.addBytes bytes before) := by
  rw [addBytes, decode_eq, Option.bind_some, Edit.addBytes]
  cases Image.decode bytes with
  | error fault => rfl
  | ok image => exact addImage_eq image before

/-- The decoder does not go out of range. Whatever the bytes, the image and the program before it, no
operation of decoding, verification or loading is applied where it is not defined: each run comes to what
the run with total operations comes to. The position that a branch of accepted code leads to is in the
table of unit numbers, and the number there is that of one of the units that handles are reserved for. -/
theorem never_stopped :
    (∀ bytes, decode bytes = some (Image.decode bytes)) ∧
    (∀ image : Image, verify image = some image.verify) ∧
    (∀ image before, addImage image before = some (Edit.addImage image before)) ∧
    (∀ bytes before, addBytes bytes before = some (Edit.addBytes bytes before)) ∧
    ∀ image : Image, image.verify = .ok () → ∀ code ∈ image.codes, ∀ raw ∈ code.instructions,
      ∀ position, raw.target? = some position →
        ∃ number, (unitNumbers 0 code.instructions.toList)[position.toNat]? = some number ∧
          number < (CodeUnit.split 0 code.instructions.toList).length := by
  refine ⟨decode_eq, verify_eq, addImage_eq, addBytes_eq, ?_⟩
  intro image verified code member raw listed position branches
  have accepted := Image.verified_codes verified member
  obtain ⟨inside, apart⟩ := accepted.apart_target listed branches
  exact ⟨_, number_of_apart accepted inside apart⟩

/-- A class with one method, which goes on for ever: it branches to an instruction that does nothing. -/
def looping : Image where
  flags := 0
  pool := ⟨#["LMain;", "run", "V"], #[0, 2], #[⟨1, []⟩], #[], #[⟨0, 0, 1⟩]⟩
  classes := [⟨0, 1, none, [], none, [], [⟨0, 8, some ⟨0, 0, [], #[.nop, .goto 0]⟩⟩]⟩]

/-- The position of the idle instruction stands for the branch itself. -/
theorem never_stopped_looping :
    looping.verify = .ok () ∧ (Edit.addImage looping {}).1 = .ok () ∧
      addImage looping {} = some (Edit.addImage looping {}) ∧
      ∃ number, (unitNumbers 0 [.nop, .goto 0])[0]? = some number ∧ number = 0 ∧
        number < (CodeUnit.split 0 [.nop, .goto 0]).length := by
  have verified : looping.verify = .ok () := by decide +kernel
  have loaded : (Edit.addImage looping {}).1 = .ok () := by decide +kernel
  obtain ⟨-, -, adds, -, branches⟩ := never_stopped
  obtain ⟨number, found, below⟩ := branches looping verified ⟨0, 0, [], #[.nop, .goto 0]⟩ List.mem_cons_self
    (.goto 0) (by simp) 0 rfl
  refine ⟨verified, loaded, adds looping {}, number, found, ?_, below⟩
  exact (Option.some.inj found).symm

end Loading

end Unchecked

end ClassImage
