import ClassImage.Proofs.Program.Definitions

/-!
Bodies and places agree. A body lists exactly the instructions whose places name
its method, once each. Only a declared method that may have code has a body, and
its parameters are distinct locals of the kinds that the declaration asks for.
-/

namespace ClassImage

namespace Program

structure BodiesSound (program : Program) : Prop where
  declared : ∀ {method body}, program.body? method = some body →
    ∃ owner name signature access, program.methodKey? method = some (owner, name, signature) ∧
      program.declaredMethod? method = some (owner, access) ∧
      ¬Access.isSet access (Access.abstract ||| Access.native) ∧
      body.parameters.map Local.kind = entryKinds access signature
  parameters : ∀ {method body}, program.body? method = some body → body.parameters.Nodup
  distinct : ∀ {method body}, program.body? method = some body → body.instructions.toList.Nodup
  attached : ∀ {method body}, program.body? method = some body →
    ∀ id, id ∈ body.instructions ↔ program.holder? id = some method
  held : ∀ {id method}, program.holder? id = some method → (program.body? method).isSome

theorem BodiesSound.slot_of_listed {program : Program} (bodies : program.BodiesSound) {method : MethodId}
    {body : Body} (here : program.body? method = some body) {id : InstructionId}
    (member : id ∈ body.instructions) : ∃ slot, program.slot? id = some slot ∧ slot.method = method :=
  Option.map_eq_some_iff.mp ((bodies.attached here id).mp member)

theorem kinds_newLocals (program : Program) (kinds : List ValueKind) :
    (program.newLocals kinds).map Local.kind = kinds := by
  simp [newLocals, Function.comp_def, List.zipIdx_map_fst]

theorem ids_newLocals (program : Program) (kinds : List ValueKind) :
    (program.newLocals kinds).map Local.id = List.range' program.owners.size kinds.length := by
  have shifted : (program.newLocals kinds).map Local.id =
      (List.range' 0 kinds.length).map (program.owners.size + ·) := by
    simp [newLocals, Function.comp_def, ← List.zipIdx_map_snd]
  rw [shifted, List.map_add_range', Nat.add_zero]

theorem nodup_ids_newLocals (program : Program) (kinds : List ValueKind) :
    ((program.newLocals kinds).map Local.id).Nodup := by
  rw [ids_newLocals]
  exact List.nodup_range'

theorem nodup_newLocals (program : Program) (kinds : List ValueKind) :
    (program.newLocals kinds).Nodup :=
  (nodup_ids_newLocals program kinds).of_map Local.id

theorem mem_ids_newLocals {program : Program} {kinds : List ValueKind} {id : Nat} :
    id ∈ (program.newLocals kinds).map Local.id ↔
      program.owners.size ≤ id ∧ id < program.owners.size + kinds.length := by
  rw [ids_newLocals, List.mem_range'_1]

@[simp] theorem length_newLocals (program : Program) (kinds : List ValueKind) :
    (program.newLocals kinds).length = kinds.length := by
  rw [← List.length_map Local.id, ids_newLocals, List.length_range']

theorem body?_addBody (program : Program) {method : MethodId} (known : method.index < program.methods.size)
    (parameters : List Local) (other : MethodId) :
    (program.addBody method parameters).body? other =
      if other = method then some ⟨parameters, parameters.toArray, #[]⟩ else program.body? other := by
  simp only [body?, methodAt, addBody, Array.getD_modify]
  by_cases here : other = method
  · simp [here, known]
  · have apart : method.index ≠ other.index := fun same => here (congrArg MethodId.mk same.symm)
    simp [apart, here]

theorem body?_listMethod (program : Program) (owner : TypeId) (id : MethodId) (access : UInt32) :
    (program.listMethod owner id access).body? = program.body? := by
  funext method
  simp only [body?, methodAt, listMethod, modifyDefinition, Array.getD_modify]
  split <;> rfl

theorem size_attach (program : Program) (method : MethodId) (position : Nat) (id : InstructionId)
    (instruction : Instruction) :
    (program.attach method position id instruction).code.size = program.code.size :=
  Array.size_setIfInBounds

/-- What is declared about a body holds after a step as well, if its parameters are the same. -/
theorem BodiesSound.declared_kept {before after : Program} (sound : before.BodiesSound)
    (step : Step before after) {method : MethodId} {old body : Body}
    (here : before.body? method = some old) (same : body.parameters = old.parameters) :
    ∃ owner name signature access, after.methodKey? method = some (owner, name, signature) ∧
      after.declaredMethod? method = some (owner, access) ∧
      ¬Access.isSet access (Access.abstract ||| Access.native) ∧
      body.parameters.map Local.kind = entryKinds access signature := by
  obtain ⟨owner, name, signature, access, key, declared, coded, kinds⟩ := sound.declared here
  rw [same]
  exact ⟨owner, name, signature, access, step.extends.methods key, step.declaredMethod?_kept declared,
    coded, kinds⟩

theorem BodiesSound.of_same {before after : Program} (sound : before.BodiesSound)
    (step : Step before after) (bodies : after.body? = before.body?)
    (holders : after.holder? = before.holder?) : after.BodiesSound := by
  constructor
  all_goals
    simp only [bodies, holders]
  · intro method body here
    exact sound.declared_kept step here rfl
  · exact sound.parameters
  · exact sound.distinct
  · exact sound.attached
  · exact sound.held

theorem BodiesSound.body {program : Program} (sound : program.BodiesSound) {method : MethodId}
    {access : UInt32} (declared : (program.methodAt method).declaration = some access)
    (coded : ¬Access.isSet access (Access.abstract ||| Access.native))
    (fresh : program.body? method = none) :
    (program.addBody method
      (program.newLocals (entryKinds access (program.methodAt method).signature))).BodiesSound := by
  have step := Step.body declared coded fresh
  have listed := declaredMethod?_eq_some.mpr ⟨declared, rfl⟩
  have known := knowsMethod_of_declared listed
  obtain ⟨⟨owner, name, signature⟩, key⟩ := Option.isSome_iff_exists.mp known
  obtain ⟨rfl, rfl, rfl⟩ := methodKey?_methodAt key
  have view := body?_addBody program (methodKey?_isSome.mp known)
    (program.newLocals (entryKinds access (program.methodAt method).signature))
  constructor
  · intro other body here
    rw [view] at here
    split at here
    · rename_i same
      cases here
      subst same
      exact ⟨_, _, _, access, step.extends.methods key, step.declaredMethod?_kept listed, coded,
        kinds_newLocals _ _⟩
    · exact sound.declared_kept step here rfl
  · intro other body here
    rw [view] at here
    split at here
    · cases here
      exact nodup_newLocals _ _
    · exact sound.parameters here
  · intro other body here
    rw [view] at here
    split at here
    · cases here
      exact List.nodup_nil
    · exact sound.distinct here
  · intro other body here id
    rw [view] at here
    split at here
    · rename_i same
      cases here
      subst same
      simp only [Array.not_mem_empty, false_iff]
      intro held
      have opened := sound.held (held : program.holder? id = some other)
      rw [fresh] at opened
      cases opened
    · exact sound.attached here id
  · intro id other held
    rw [view]
    split
    · rfl
    · exact sound.held held

/-- After attaching, one body has one instruction more. -/
theorem body?_of_attach {program : Program} {method : MethodId} {body : Body} {position : Nat}
    {id : InstructionId} {instruction : Instruction} (here : program.body? method = some body)
    (place : position ≤ body.instructions.size) {other : MethodId} {listed : Body}
    (found : (program.attach method position id instruction).body? other = some listed) :
    ∃ old, program.body? other = some old ∧ listed.parameters = old.parameters ∧
      listed.instructions.toList.Perm
        (if other = method then id :: old.instructions.toList else old.instructions.toList) := by
  rw [body?_attach] at found
  by_cases same : other = method
  · subst same
    rw [if_pos rfl, here] at found
    cases found
    refine ⟨body, here, rfl, ?_⟩
    rw [if_pos rfl]
    exact perm_insertIdxIfInBounds id place
  · rw [if_neg same] at found
    refine ⟨listed, found, rfl, ?_⟩
    rw [if_neg same]

theorem BodiesSound.attach {program : Program} (sound : program.BodiesSound) {method : MethodId}
    {body : Body} {position : Nat} {id : InstructionId} {instruction : Instruction}
    (step : Step program (program.attach method position id instruction))
    (here : program.body? method = some body) (place : position ≤ body.instructions.size)
    (issued : id.index < program.code.size)
    (latest : ∀ other slot, program.slot? other = some slot → other.index < id.index) :
    (program.attach method position id instruction).BodiesSound := by
  have vacant : program.holder? id = none := by
    cases attached : program.slot? id with
    | none => rw [holder?, attached, Option.map_none]
    | some slot => exact absurd (latest id slot attached) (lt_irrefl _)
  have holders := @holder?_attach program method position id instruction issued
  have origin := @body?_of_attach program method body position id instruction here place
  constructor
  · intro other listed found
    obtain ⟨old, there, same, -⟩ := origin found
    exact sound.declared_kept step there same
  · intro other listed found
    obtain ⟨old, there, same, -⟩ := origin found
    rw [same]
    exact sound.parameters there
  · intro other listed found
    obtain ⟨old, there, -, perm⟩ := origin found
    rw [perm.nodup_iff]
    split
    · refine List.nodup_cons.mpr ⟨?_, sound.distinct there⟩
      rw [Array.mem_toList_iff, sound.attached there, vacant]
      simp
    · exact sound.distinct there
  · intro other listed found new
    obtain ⟨old, there, -, perm⟩ := origin found
    rw [← Array.mem_toList_iff, perm.mem_iff, holders]
    by_cases same : other = method
    · subst same
      rw [if_pos rfl, List.mem_cons, Array.mem_toList_iff, sound.attached there]
      by_cases last : new = id
      · simp [last]
      · simp [last]
    · rw [if_neg same, Array.mem_toList_iff, sound.attached there]
      by_cases last : new = id
      · subst last
        simp [vacant, Ne.symm same]
      · simp [last]
  · intro other holder held
    rw [holders] at held
    rw [body?_attach]
    split
    · rename_i same
      rw [Option.isSome_map, same, here]
      rfl
    · rename_i elsewhere
      split at held
      · cases held
        exact absurd rfl elsewhere
      · exact sound.held held

/-- After detaching, no body has the instruction. -/
theorem body?_of_detach {program : Program} (sound : program.BodiesSound) {id : InstructionId}
    {slot : Slot} (attached : program.slot? id = some slot) {other : MethodId} {listed : Body}
    (found : (program.detach id slot).body? other = some listed) :
    ∃ old, program.body? other = some old ∧ listed.parameters = old.parameters ∧
      listed.instructions.toList = old.instructions.toList.filter (· ≠ id) := by
  rw [body?_detach] at found
  split at found
  · obtain ⟨old, there, rfl⟩ := Option.map_eq_some_iff.mp found
    exact ⟨old, there, rfl, Array.toList_filter⟩
  · rename_i elsewhere
    have held : program.holder? id = some slot.method := holder?_of_slot? attached
    have absent : id ∉ listed.instructions.toList := by
      rw [Array.mem_toList_iff, sound.attached found, held]
      intro same
      exact elsewhere (Option.some.inj same).symm
    refine ⟨listed, found, rfl, ?_⟩
    rw [eq_comm, List.filter_eq_self]
    intro entry member
    apply decide_eq_true
    intro same
    exact absent (same ▸ member)

theorem BodiesSound.detach {program : Program} (sound : program.BodiesSound) {id : InstructionId}
    {slot : Slot} (attached : program.slot? id = some slot) : (program.detach id slot).BodiesSound := by
  have step := Step.detach attached
  have origin := @body?_of_detach program sound id slot attached
  constructor
  · intro other listed found
    obtain ⟨old, there, same, -⟩ := origin found
    exact sound.declared_kept step there same
  · intro other listed found
    obtain ⟨old, there, same, -⟩ := origin found
    rw [same]
    exact sound.parameters there
  · intro other listed found
    obtain ⟨old, there, -, list⟩ := origin found
    rw [list]
    exact (sound.distinct there).filter _
  · intro other listed found entry
    obtain ⟨old, there, -, list⟩ := origin found
    rw [← Array.mem_toList_iff, list, List.mem_filter, Array.mem_toList_iff, sound.attached there,
      holder?_detach]
    by_cases last : entry = id
    · simp [last]
    · simp [last]
  · intro entry holder found
    rw [holder?_detach] at found
    split at found
    · cases found
    · rw [body?_detach]
      split
      · rw [Option.isSome_map]
        exact sound.held found
      · exact sound.held found

theorem BodiesSound.step {before after : Program} (sound : before.BodiesSound)
    (step : Step before after) : after.BodiesSound := by
  have copy := step
  cases step with
  | grow growth =>
    apply sound.of_same copy (funext growth.body?)
    funext id
    rw [holder?, slot?, growth.code, holder?, slot?]
  | define => exact sound.of_same copy rfl rfl
  | declareMethod => exact sound.of_same copy (body?_listMethod _ _ _ _) rfl
  | declareField => exact sound.of_same copy rfl rfl
  | body declared coded fresh => exact sound.body declared coded fresh
  | handles => exact sound.of_same copy rfl (holder?_addHandles _ _)
  | attach id here place issued latest => exact sound.attach copy here place issued latest
  | detach attached => exact sound.detach attached
  | retarget => exact sound.of_same copy (body?_retarget _ _ _ _) (holder?_retarget _ _ _ _)

theorem Steps.bodiesSound {program : Program} (steps : Steps {} program) : program.BodiesSound := by
  induction steps with
  | refl =>
    have bodies : ({} : Program).body? = fun _ => none := rfl
    have holders : ({} : Program).holder? = fun _ => none := rfl
    constructor <;> simp [bodies, holders]
  | tail _ step ih => exact ih.step step

/-- Keys, definitions and bodies are in order, whatever the program says about markers. -/
structure Orderly (program : Program) : Prop where
  keys : program.KeysSound
  definitions : program.DefinitionsSound
  bodies : program.BodiesSound

theorem Steps.orderly {program : Program} (steps : Steps {} program) : program.Orderly :=
  ⟨steps.keysSound, steps.definitionsSound, steps.bodiesSound⟩

theorem Orderly.steps {before after : Program} (orderly : before.Orderly) (steps : Steps before after) :
    after.Orderly := by
  induction steps with
  | refl => exact orderly
  | tail _ step ih => exact ⟨ih.keys.step step, ih.definitions.step step, ih.bodies.step step⟩

end Program

end ClassImage
