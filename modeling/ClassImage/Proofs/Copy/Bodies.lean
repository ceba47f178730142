import ClassImage.Proofs.Copy.Locals
import ClassImage.Proofs.Copy.Positions

/-!
Bodies of a copy. The units of a body are built and attached one after the
other, under handles that were reserved for them, so when all are attached the
body of the copy has like instructions in the same order.
-/

namespace ClassImage

namespace Program

/-- What is free for a method is still so when one of its instructions is attached. -/
theorem free_attach {program : Program} {method : MethodId} {slot : Local}
    (free : program.owner? slot = none ∨ program.owner? slot = some method) (position : Nat)
    (id : InstructionId) (instruction : Instruction) :
    (program.attach method position id instruction).owner? slot = none ∨
      (program.attach method position id instruction).owner? slot = some method := by
  rw [owner?_attach]
  split
  · exact .inr rfl
  · exact free

theorem confined_attach {program : Program} {method : MethodId} {id : InstructionId}
    {instruction : Instruction} (issued : id.index < program.code.size)
    (latest : ∀ other slot, program.slot? other = some slot → other.index < id.index) (position : Nat) :
    Confined method program (program.attach method position id instruction) := by
  refine ⟨(sameKeys_attach _ _ _ _ _).extends, sameDefinitions_attach _ _ _ _ _, ?_, ?_⟩
  · intro other apart
    rw [body?_attach, if_neg apart]
  · intro other slot attached
    rw [slot?_attach program issued, if_neg, attached]
    rintro rfl
    exact lt_irrefl _ (latest other slot attached)

/-- A body whose first instructions are attached, under the first of the handles reserved for it. -/
structure Attached (method : MethodId) (parameters : List Local) (first : InstructionId) (count : Nat)
    (done : List Instruction) (program : Program) : Prop where
  body : ∃ locals, program.body? method =
    some ⟨parameters, locals, (handlesFrom first done.length).toArray⟩
  slots : List.Forall₂ (fun instruction id => program.slot? id = some ⟨method, instruction⟩) done
    (handlesFrom first done.length)
  size : program.code.size = first.index + count
  latest : ∀ other slot, program.slot? other = some slot → other.index < first.index + done.length

section Attached

variable {method : MethodId} {parameters : List Local} {first : InstructionId} {count : Nat}
  {done : List Instruction} {program : Program}

theorem Attached.growths {later : Program} (attached : Attached method parameters first count done program)
    (growths : Growths program later) : Attached method parameters first count done later := by
  have places : later.slot? = program.slot? := by
    funext id
    rw [slot?, growths.code, slot?]
  constructor
  · obtain ⟨locals, here⟩ := attached.body
    exact ⟨locals, by rw [growths.body?, here]⟩
  · rw [places]
    exact attached.slots
  · rw [growths.code]
    exact attached.size
  · rw [places]
    exact attached.latest

theorem size_handlesFrom (first : InstructionId) (count : Nat) :
    (handlesFrom first count).toArray.size = count := by simp [handlesFrom]

theorem Attached.issued (attached : Attached method parameters first count done program)
    (room : done.length < count) : first.index + done.length < program.code.size := by
  rw [attached.size]
  omega

/-- Handles are reserved for a body without instructions. -/
theorem attached_nil {locals : Array Local} (opened : program.body? method = some ⟨parameters, locals, #[]⟩)
    (count : Nat) :
    Attached method parameters ⟨program.code.size⟩ count [] (program.addHandles count) := by
  refine ⟨⟨locals, opened⟩, .nil, by simp [addHandles], ?_⟩
  intro other slot held
  rw [slot?_addHandles] at held
  exact slot?_lt held

/-- The next instruction is attached under the next handle. -/
theorem Attached.attach (attached : Attached method parameters first count done program)
    (room : done.length < count) (instruction : Instruction) :
    Attached method parameters first count (done ++ [instruction])
      (program.attach method done.length ⟨first.index + done.length⟩ instruction) := by
  have places : ∀ other, (program.attach method done.length ⟨first.index + done.length⟩ instruction).slot?
      other = if other = ⟨first.index + done.length⟩ then some ⟨method, instruction⟩ else program.slot? other :=
    slot?_attach program (attached.issued room)
  have length : (done ++ [instruction]).length = done.length + 1 := List.length_append
  have listed : (handlesFrom first done.length).toArray.insertIdxIfInBounds done.length
      ⟨first.index + done.length⟩ = (handlesFrom first (done.length + 1)).toArray := by
    have pushed := insertIdxIfInBounds_size (handlesFrom first done.length).toArray
      ⟨first.index + done.length⟩
    rw [size_handlesFrom, List.push_toArray] at pushed
    rw [pushed, handlesFrom_succ]
  obtain ⟨locals, here⟩ := attached.body
  constructor
  · rw [body?_attach, if_pos rfl, here, Option.map_some, length, ← listed]
    exact ⟨_, rfl⟩
  · rw [length, handlesFrom_succ]
    refine List.rel_append (attached.slots.imp ?_) (.cons (by rw [places, if_pos rfl]) .nil)
    intro earlier id held
    rw [places, if_neg, held]
    rintro rfl
    exact lt_irrefl _ (attached.latest _ _ held)
  · rw [size_attach, attached.size]
  · intro other slot held
    rw [places] at held
    split at held
    · rename_i here
      rw [here, length]
      simp only
      omega
    · have earlier := attached.latest other slot held
      omega

end Attached

end Program

namespace Loading.Context

open Program Edit

variable {program before : Program} {method : MethodId} {id : InstructionId} {built : Instruction}

theorem fills_attach {body : Body} (here : before.body? method = some body)
    (issued : id.index < before.code.size)
    (latest : ∀ other slot, before.slot? other = some slot → other.index < id.index)
    (admitted : before.Admits built) (fits : before.Fits built)
    (locals : before.checkLocals method built = .ok ()) :
    program.Fills method before (before.attach method body.instructions.size id built) := by
  have step := Step.attach id here le_rfl issued latest admitted fits locals
  refine ⟨confined_attach issued latest _, ?_⟩
  intro follows
  exact follows.of_members (.single step) (methodKey?_modifyBody _ _ _) rfl (marker_attach _ _ _ _ _)

theorem meets_appendReserved {body : Body} (here : before.body? method = some body)
    (issued : id.index < before.code.size)
    (latest : ∀ other slot, before.slot? other = some slot → other.index < id.index)
    (admitted : before.Admits built) (fits : before.Fits built)
    (free : ∀ slot ∈ built.locals, before.owner? slot = none ∨ before.owner? slot = some method) :
    Meets (program.Fills method) (Edit.appendReserved method id built) before fun _ after =>
      after = before.attach method body.instructions.size id built := by
  have locals := checkLocals_ok.mpr free
  have length : before.bodyLength method = .ok body.instructions.size := by
    rw [bodyLength, here]
  have shape : before.checkShape none built = .ok () := checkShape_ok.mpr fits
  refine .check_bind length (.check_bind locals (.check_bind shape ?_))
  exact ⟨(), _, rfl, .single (fills_attach here issued latest admitted fits locals), rfl⟩

/-- What holds of the copy when the first units of a body are attached. -/
structure Filled (program : Program) (method : MethodId) (slots : Local → Local → Prop)
    (targets : InstructionId → InstructionId → Prop) (parameters : List Local) (free : List Local)
    (first : InstructionId) (count : Nat) (done : List Instruction) (copy : Program) : Prop where
  follows : program.Follows copy
  code : ∃ builts, Attached method parameters first count builts copy ∧
    List.Forall₂ (Alike program copy slots targets) done builts
  free : ∀ slot ∈ free, copy.owner? slot = none ∨ copy.owner? slot = some method

section

variable {slots : Local → Local → Prop} {targets : InstructionId → InstructionId → Prop}
  {parameters free : List Local} {first : InstructionId} {count : Nat} {done : List Instruction}
  {copy : Program}

theorem Filled.growths {later : Program}
    (filled : Filled program method slots targets parameters free first count done copy)
    (moved : Relation.ReflTransGen program.Gains copy later) :
    Filled program method slots targets parameters free first count done later := by
  have growths := Gains.growths moved
  obtain ⟨builts, attached, alike⟩ := filled.code
  refine ⟨Gains.follows moved filled.follows, ⟨builts, attached.growths growths, ?_⟩, ?_⟩
  · exact alike.imp fun _ _ same => same.extends growths.extends
  · rw [growths.owner?]
    exact filled.free

end

section Units

variable {context : Context} {frame : Frame} {code : CodeContext} {slots : Local → Local → Prop}
  {targets : InstructionId → InstructionId → Prop} {parameters free : List Local} {count : Nat}
  {done : List Instruction}

theorem meets_loadUnit (sound : code.program.KeysSound) (legible : context.Legible code.program)
    (serves : frame.Serves code slots targets)
    (inside : ∀ {slot other}, slots slot other → other ∈ free)
    (filled : Filled code.program method slots targets parameters free frame.firstUnit count done before)
    {instruction : Instruction} {unit : CodeUnit}
    (lowered : Lowered context.image.pool code instruction unit)
    (admitted : code.program.Admits instruction) (fits : code.program.Fits instruction)
    (room : done.length < count) (start : Nat) :
    Meets (code.program.Fills method) (context.loadUnit frame method ((start, unit), done.length)) before
      fun _ after => Filled code.program method slots targets parameters free frame.firstUnit count
        (done ++ [instruction]) after := by
  have building := meets_buildUnit sound legible serves filled.follows admitted fits lowered
  apply (building.fills method).bind
  rintro built middle - ⟨moved, alike⟩
  have kept := filled.growths moved
  obtain ⟨builts, attached, others⟩ := kept.code
  have length := others.length_eq
  rw [length] at room ⊢
  obtain ⟨locals, here⟩ := attached.body
  have accepted := alike.admits kept.follows.keysSound serves.kinds admitted
  have shaped := alike.fits kept.follows fits
  have free : ∀ slot ∈ built.locals, middle.owner? slot = none ∨ middle.owner? slot = some method := by
    intro slot member
    obtain ⟨original, -, related⟩ := forall₂_exists_left alike.locals member
    exact kept.free slot (inside related)
  have issued := attached.issued room
  apply (meets_appendReserved here issued attached.latest accepted shaped free).imp
  rintro _ after moved rfl
  have added := Fills.of_moved moved
  simp only [size_handlesFrom] at added ⊢
  refine ⟨added.follows kept.follows, ⟨builts ++ [built], attached.attach room built, ?_⟩, ?_⟩
  · exact List.rel_append (others.imp fun _ _ same => same.extends added.more)
      (.cons (alike.extends added.more) .nil)
  · intro slot member
    exact free_attach (kept.free slot member) _ _ _

end Units

end Loading.Context

open Program

/-- A body of a copy has like instructions in the same order; its locals are used in the places of
those of the original, and `used` are those that are not parameters. -/
structure BodyLike (program copy : Program) (body other : Body) (used : List Local) : Prop where
  kinds : used.map Local.kind = (program.usedLocals body).map Local.kind
  parameters : other.parameters.map Local.kind = body.parameters.map Local.kind
  distinct : (used ++ other.parameters).Nodup
  code : List.Forall₂ (fun id place => ∃ instruction built, program.instruction? id = some instruction ∧
      copy.instruction? place = some built ∧
      Alike program copy
        (Paired (program.usedLocals body ++ body.parameters) (used ++ other.parameters))
        (Paired body.instructions.toList other.instructions.toList) instruction built)
    body.instructions.toList other.instructions.toList

theorem BodyLike.extends {program copy later : Program} {body other : Body} {used : List Local}
    (like : BodyLike program copy body other used) (more : copy.Extends later)
    (slots : ∀ {id slot}, copy.slot? id = some slot → later.slot? id = some slot) :
    BodyLike program later body other used := by
  refine { like with code := like.code.imp ?_ }
  rintro id place ⟨instruction, built, original, attached, alike⟩
  obtain ⟨slot, here, rfl⟩ := slot_of_instruction? attached
  refine ⟨instruction, slot.instruction, original, ?_, alike.extends more⟩
  rw [instruction?, slots here, Option.map_some]

namespace Loading.Context

open Edit

section Body

variable {context : Context} {program before : Program} {limits : Limits} {original method : MethodId}
  {body : Body} {listed : List (InstructionId × Instruction)} {code : CodeItem}

/-- The units that splitting finds, with the instructions that they were lowered from. -/
theorem forall₂_split {final : Pool} {surroundings : CodeContext} {units : List CodeUnit}
    (each : List.Forall₂ (fun entry unit => Lowered final surroundings entry.2 unit) listed units)
    (start : Nat) :
    List.Forall₂ (fun entry pair => Lowered final surroundings entry.2 pair.2) listed
      ((startsFrom start listed).zip units) := by
  induction each generalizing start with
  | nil => exact .nil
  | cons first _ ih => exact .cons first (ih _)

/-- The locals and handles of a body that is being filled serve its lowered code. -/
theorem serves_spread {used parameters : List Local} {units : List CodeUnit} {first : InstructionId}
    (lowered : LoweredCode context.image.pool (program.surroundings limits original body listed) listed code)
    (length : units.length = listed.length)
    (kinds : used.map Local.kind = (program.usedLocals body).map Local.kind)
    (sameKinds : parameters.map Local.kind = body.parameters.map Local.kind) :
    Frame.Serves ⟨(spread (used ++ parameters)).toArray, (startsFrom 0 listed).zip units, first⟩
      (program.surroundings limits original body listed)
      (Paired (program.usedLocals body ++ body.parameters) (used ++ parameters))
      (Paired (listed.map Prod.fst) (handlesFrom first listed.length)) := by
  have all : (used ++ parameters).map Local.kind =
      (program.usedLocals body ++ body.parameters).map Local.kind := by
    rw [List.map_append, List.map_append, kinds, sameKinds]
  constructor
  · intro slot register placed
    exact register?_spread lowered.room all placed
  · intro target position reached
    exact target_paired length lowered.size rfl reached
  · intro slot other paired
    exact paired.kind all

/-- The first instructions of a listed body are attached under the handles from `first` on. -/
def Filling (program : Program) (method : MethodId) (body : Body)
    (listed : List (InstructionId × Instruction)) (used parameters : List Local) (first : InstructionId)
    (done : List ((InstructionId × Instruction) × Nat)) (copy : Program) : Prop :=
  Filled program method (Paired (program.usedLocals body ++ body.parameters) (used ++ parameters))
    (Paired (listed.map Prod.fst) (handlesFrom first listed.length)) parameters (used ++ parameters)
    first listed.length (done.map fun entry => entry.1.2) copy

theorem fills_addHandles (count : Nat) : program.Fills method before (before.addHandles count) :=
  ⟨confined_addHandles before method count,
    fun follows => follows.of_members (.single .handles) rfl rfl rfl⟩

theorem meets_reserve (count : Nat) :
    Meets (program.Fills method) (Edit.reserve count) before fun first after =>
      first = ⟨before.code.size⟩ ∧ after = before.addHandles count :=
  ⟨_, _, rfl, .single (fills_addHandles count), rfl, rfl⟩

theorem meets_fillBody (sound : program.KeysSound) (legible : context.Legible program)
    (admitted : program.CodeAdmitted) (markers : program.MarkersSound) {used parameters : List Local}
    {locals : Array Local} {units : List CodeUnit} (follows : program.Follows before)
    (lists : program.Lists body listed)
    (lowered : LoweredCode context.image.pool (program.surroundings limits original body listed) listed code)
    (each : List.Forall₂ (fun entry unit => Lowered context.image.pool
      (program.surroundings limits original body listed) entry.2 unit) listed units)
    (kinds : used.map Local.kind = (program.usedLocals body).map Local.kind)
    (sameKinds : parameters.map Local.kind = body.parameters.map Local.kind)
    (opened : before.body? method = some ⟨parameters, locals, #[]⟩)
    (free : ∀ slot ∈ used ++ parameters, before.owner? slot = none ∨ before.owner? slot = some method) :
    Meets (program.Fills method) (Edit.reserve units.length >>= fun first =>
        ((startsFrom 0 listed).zip units).zipIdx.forM (context.loadUnit
          ⟨(spread (used ++ parameters)).toArray, (startsFrom 0 listed).zip units, first⟩ method)) before
      fun _ after => ∃ first,
        Filling program method body listed used parameters first listed.zipIdx after := by
  have length : units.length = listed.length := each.length_eq.symm
  apply (meets_reserve units.length).bind
  rintro _ _ moved ⟨rfl, rfl⟩
  have serves : Frame.Serves ⟨(spread (used ++ parameters)).toArray, (startsFrom 0 listed).zip units,
      ⟨before.code.size⟩⟩ (program.surroundings limits original body listed) _ _ :=
    serves_spread lowered length kinds sameKinds
  have start : Filling program method body listed used parameters ⟨before.code.size⟩ []
      (before.addHandles units.length) := by
    refine ⟨(Fills.of_moved moved).follows follows, ⟨[], ?_, .nil⟩, free⟩
    rw [length]
    exact attached_nil opened _
  refine (Meets.forM (Filling program method body listed used parameters ⟨before.code.size⟩)
    (forall₂_zipIdx (forall₂_split each 0)) start ?_).imp fun _ after _ filled => ⟨⟨before.code.size⟩, filled⟩
  rintro done ⟨⟨id, instruction⟩, index⟩ rest ⟨⟨position, unit⟩, place⟩ middle whole ⟨here, same⟩ _ filled
  obtain ⟨number, member⟩ := place_of_zipIdx whole
  have room : done.length < listed.length := by
    have size := congrArg List.length whole
    simp at size
    omega
  obtain ⟨_, -, rfl, attached⟩ := forall₂_exists_left lists member
  obtain ⟨slot, held, rfl⟩ := slot_of_instruction? attached
  cases same
  cases number
  have step := meets_loadUnit sound legible serves (fun paired => paired.mem_right) filled here
    (admitted _ _ held) (markers.code held) (by simpa using room) position
  rw [List.length_map] at step
  apply step.imp
  intro _ after _ reached
  unfold Filling
  rw [List.map_append]
  exact reached

theorem Filling.bodyLike {used parameters : List Local} {first : InstructionId} {copy : Program}
    (lists : program.Lists body listed)
    (kinds : used.map Local.kind = (program.usedLocals body).map Local.kind)
    (sameKinds : parameters.map Local.kind = body.parameters.map Local.kind)
    (distinct : (used ++ parameters).Nodup)
    (filling : Filling program method body listed used parameters first listed.zipIdx copy) :
    ∃ other, copy.body? method = some other ∧ BodyLike program copy body other used := by
  have names : listed.map Prod.fst = body.instructions.toList := by
    have same : List.Forall₂ Eq (listed.map Prod.fst) body.instructions.toList := by
      rw [List.forall₂_map_left_iff]
      exact lists.flip.imp fun _ _ here => here.1
    rwa [List.forall₂_eq_eq_eq] at same
  have instructions : listed.zipIdx.map (fun entry => entry.1.2) = listed.map Prod.snd := by
    have split := List.map_map (l := listed.zipIdx) (f := Prod.fst) (g := Prod.snd)
    rw [List.zipIdx_map_fst] at split
    exact split.symm
  obtain ⟨builts, attached, alike⟩ := filling.code
  rw [instructions] at alike
  have size : listed.length = builts.length := by simpa using alike.length_eq
  rw [List.forall₂_map_left_iff, size] at alike
  obtain ⟨locals, here⟩ := attached.body
  refine ⟨_, here, kinds, sameKinds, distinct, ?_⟩
  apply (forall₂_comp lists (forall₂_comp alike attached.slots)).imp
  rintro id place ⟨entry, ⟨-, original⟩, built, like, held⟩
  refine ⟨entry.2, built, original, ?_, ?_⟩
  · exact instruction?_of_slot? held
  · rw [← names]
    exact like

/-- The code of a method becomes a body of the copy that is like the original's. -/
theorem meets_loadBody (sound : program.KeysSound) (legible : context.Legible program)
    (admitted : program.CodeAdmitted) (markers : program.MarkersSound)
    (follows : program.Follows before)
    (lowered : program.LoweredBody context.image.pool limits original body code) {access : UInt32}
    (declared : (before.methodAt method).declaration = some access)
    (coded : ¬Access.isSet access (Access.abstract ||| Access.native))
    (fresh : before.body? method = none)
    (kinds : body.parameters.map Local.kind = entryKinds access (before.methodAt method).signature) :
    Meets (program.Fills method) (context.loadBody method code) before fun _ after =>
      ∃ other used, after.body? method = some other ∧ BodyLike program after body other used := by
  obtain ⟨listed, lists, lowered⟩ := lowered
  obtain ⟨units, raws, each⟩ := lowered.units
  have split : CodeUnit.split 0 code.instructions.toList = (startsFrom 0 listed).zip units := by
    rw [raws, split_flatMap each]
  have count : ((startsFrom 0 listed).zip units).length = units.length :=
    ((forall₂_split each 0).length_eq.symm).trans each.length_eq
  apply (meets_assignRegisters lowered declared coded fresh kinds).bind
  rintro _ middle moved ⟨used, parameters, rfl, usedKinds, sameKinds, distinct, opened, free⟩
  rw [split]
  simp only [count]
  have reached := (Fills.of_moved moved).follows follows
  refine (meets_fillBody sound legible admitted markers reached lists lowered each usedKinds sameKinds
    opened free).imp ?_
  rintro _ after - ⟨first, filling⟩
  obtain ⟨other, here, like⟩ := filling.bodyLike lists usedKinds sameKinds distinct
  exact ⟨other, used, here, like⟩

end Body

end Loading.Context

end ClassImage
