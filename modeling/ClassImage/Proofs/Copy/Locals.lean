import ClassImage.Proofs.Copy.Registers

/-!
Opening a body of a copy. The parameters are made first and then one local for
each other register, all of them new and of the kinds of the original's locals.
None of them belongs to another body, and none ever will.
-/

namespace ClassImage

namespace Program

/-- Changes that fill the body of one method and leave all other code alone. -/
structure Confined (method : MethodId) (before after : Program) : Prop where
  more : before.Extends after
  definitions : before.SameDefinitions after
  bodies : ∀ other, other ≠ method → after.body? other = before.body? other
  slots : ∀ {id slot}, before.slot? id = some slot → after.slot? id = some slot

theorem Confined.refl (method : MethodId) (program : Program) : Confined method program program :=
  ⟨.refl program, ⟨rfl, rfl, rfl, rfl⟩, fun _ _ => rfl, id⟩

theorem Confined.trans {first second third : Program} {method : MethodId}
    (left : Confined method first second) (right : Confined method second third) :
    Confined method first third where
  more := left.more.trans right.more
  definitions := left.definitions.trans right.definitions
  bodies other apart := (right.bodies other apart).trans (left.bodies other apart)
  slots := right.slots ∘ left.slots

theorem Growths.confined {before after : Program} (growths : Growths before after) (method : MethodId) :
    Confined method before after where
  more := growths.extends
  definitions := growths.sameDefinitions
  bodies other _ := growths.body? other
  slots := by
    intro id slot attached
    rw [slot?, growths.code]
    exact attached

theorem confined_addBody {program : Program} {method : MethodId}
    (known : method.index < program.methods.size) (parameters : List Local) :
    Confined method program (program.addBody method parameters) := by
  refine ⟨(sameKeys_addBody _ _ _).extends, sameDefinitions_addBody _ _ _, ?_, id⟩
  intro other apart
  exact (body?_addBody program known parameters other).trans (if_neg apart)

theorem confined_addHandles (program : Program) (method : MethodId) (count : Nat) :
    Confined method program (program.addHandles count) := by
  refine ⟨(sameKeys_addHandles _ _).extends, ⟨rfl, rfl, rfl, rfl⟩, fun _ _ => rfl, ?_⟩
  intro id slot attached
  rw [slot?_addHandles, attached]

/-- Changes of a copy that fill the body of one of its methods. -/
structure Fills (program : Program) (method : MethodId) (before after : Program) : Prop
    extends Confined method before after where
  follows : program.Follows before → program.Follows after

theorem Fills.refl (program : Program) (method : MethodId) (copy : Program) :
    program.Fills method copy copy :=
  ⟨.refl method copy, id⟩

theorem Fills.trans {program first second third : Program} {method : MethodId}
    (left : program.Fills method first second) (right : program.Fills method second third) :
    program.Fills method first third :=
  ⟨left.toConfined.trans right.toConfined, right.follows ∘ left.follows⟩

theorem Fills.of_moved {program before after : Program} {method : MethodId}
    (moved : Relation.ReflTransGen (program.Fills method) before after) :
    program.Fills method before after := by
  induction moved with
  | refl => exact .refl program method before
  | tail _ fills ih => exact ih.trans fills

theorem Gains.fills {program before after : Program} (method : MethodId)
    (gains : program.Gains before after) : program.Fills method before after :=
  ⟨Growths.confined (.single gains.1) method, gains.2⟩

end Program

theorem Edit.Meets.fills {program before : Program} {edit : Edit α} {goal : α → Program → Prop}
    (meets : Edit.Meets program.Gains edit before goal) (method : MethodId) :
    Edit.Meets (program.Fills method) edit before fun value after =>
      Relation.ReflTransGen program.Gains before after ∧ goal value after :=
  meets.with_moves.mono fun _ _ gains => gains.fills method

namespace Loading.Context

open Program Edit

variable {program before : Program} {method : MethodId}

theorem gains_addLocal : program.Gains before before.addLocal := by
  refine ⟨.slot, ?_⟩
  intro follows
  exact follows.of_members (.single (.grow .slot)) rfl rfl rfl

section CreateBody

variable {access : UInt32} (declared : (before.methodAt method).declaration = some access)
  (coded : ¬Access.isSet access (Access.abstract ||| Access.native)) (fresh : before.body? method = none)

include declared coded fresh

theorem fills_addBody : program.Fills method before
    (before.addBody method (before.newLocals (entryKinds access (before.methodAt method).signature))) := by
  refine ⟨confined_addBody (known_of_declaration declared) _, ?_⟩
  intro follows
  refine follows.of_members (.single (.body declared coded fresh)) ?_ rfl (marker_addBody _ _ _)
  exact methodKey?_modify _ _ _ fun _ => ⟨rfl, rfl, rfl⟩

theorem outcome_createBody : outcome (Edit.createBody method) before =
    (.ok (before.newLocals (entryKinds access (before.methodAt method).signature)),
      before.addBody method (before.newLocals (entryKinds access (before.methodAt method).signature))) := by
  unfold Edit.createBody
  rw [ClassImage.get_bind]
  simp only [declared]
  refine refuse_bind_ok.mpr ⟨coded, refuse_bind_ok.mpr ⟨?_, rfl⟩⟩
  change ¬(before.body? method).isSome = true
  rw [fresh]
  simp

theorem meets_createBody :
    Meets (program.Fills method) (Edit.createBody method) before fun parameters after =>
      parameters.map Local.kind = entryKinds access (before.methodAt method).signature ∧
        parameters.Nodup ∧ after.body? method = some ⟨parameters, parameters.toArray, #[]⟩ ∧
        ∀ slot ∈ parameters, slot.id < after.owners.size ∧ after.owner? slot = some method := by
  have view := body?_addBody before (known_of_declaration declared)
    (before.newLocals (entryKinds access (before.methodAt method).signature))
  refine ⟨_, _, outcome_createBody declared coded fresh, .single (fills_addBody declared coded fresh),
    kinds_newLocals _ _, nodup_newLocals _ _, (view method).trans (if_pos rfl), ?_⟩
  intro slot member
  have new := List.mem_map_of_mem (f := Local.id) member
  refine ⟨?_, (owner?_newBody _ _ _ _).trans (if_pos new)⟩
  rw [size_addBody, length_newLocals]
  exact (mem_ids_newLocals.mp new).2

end CreateBody

/-- The local for one value, and nothing for the second register of a pair. -/
theorem outcome_freshTags (kind : ValueKind) :
    outcome (kind.registerTags.mapM fun tag => (ValueKind.ofTag? tag).mapM Edit.freshLocal) before =
      (.ok (if kind.isWide then [some ⟨before.owners.size, kind⟩, none] else [some ⟨before.owners.size, kind⟩]),
        before.addLocal) := by
  cases kind <;> rfl

theorem meets_lowRegisters (kinds : List ValueKind) :
    Meets program.Gains ((kindTags kinds).mapM fun tag => (ValueKind.ofTag? tag).mapM Edit.freshLocal)
      before fun placed after => ∃ fresh, placed = spread fresh ∧ fresh.map Local.kind = kinds ∧
        fresh.Nodup ∧ before.owners.size ≤ after.owners.size ∧
        ∀ slot ∈ fresh, before.owners.size ≤ slot.id ∧ slot.id < after.owners.size := by
  induction kinds generalizing before with
  | nil => exact .pure ⟨[], rfl, rfl, .nil, le_rfl, by simp⟩
  | cons kind kinds ih =>
    rw [kindTags, List.flatMap_cons, ← kindTags, List.mapM_append]
    have first : Meets program.Gains
        (kind.registerTags.mapM fun tag => (ValueKind.ofTag? tag).mapM Edit.freshLocal) before
        fun placed after => placed = spread [⟨before.owners.size, kind⟩] ∧ after = before.addLocal := by
      refine ⟨_, _, outcome_freshTags kind, .single gains_addLocal, ?_, rfl⟩
      rw [spread_cons]
      exact (List.append_nil _).symm
    apply first.bind
    rintro _ middle - ⟨rfl, rfl⟩
    apply ih.bind
    rintro _ after - ⟨fresh, rfl, kinds, distinct, grown, range⟩
    have size : before.addLocal.owners.size = before.owners.size + 1 := by simp [addLocal]
    refine .pure ⟨⟨before.owners.size, kind⟩ :: fresh, ?_, ?_, ?_, by omega, ?_⟩
    · rw [← spread_append]
      rfl
    · rw [List.map_cons, kinds]
    · refine List.nodup_cons.mpr ⟨?_, distinct⟩
      intro member
      have low := (range _ member).1
      rw [size] at low
      exact absurd low (by simp)
    · rw [List.forall_mem_cons]
      refine ⟨⟨le_rfl, by simp only; omega⟩, ?_⟩
      intro slot member
      have bounds := range slot member
      omega

/-- The registers of lowered code are those of the locals that are used, and then those of the parameters. -/
theorem registers_split {source : Program} {limits : Limits} {original : MethodId} {body : Body}
    {listed : List (InstructionId × Instruction)} {final : Pool} {code : CodeItem}
    (lowered : LoweredCode final (source.surroundings limits original body listed) listed code) :
    let low := code.registers.toNat - code.parameterRegisters.toNat
    low = RegisterPlan.slots (source.usedLocals body) ∧
      code.kinds.take low = kindTags ((source.usedLocals body).map Local.kind) ∧
      code.kinds.drop low = kindTags (body.parameters.map Local.kind) := by
  have order : (source.surroundings limits original body listed).plan.order =
      source.usedLocals body ++ body.parameters := rfl
  have room := lowered.room
  rw [order, RegisterPlan.slots_append] at room
  have first : code.registers.toNat - code.parameterRegisters.toNat =
      RegisterPlan.slots (source.usedLocals body) := by
    rw [lowered.registers, lowered.parameterRegisters, RegisterPlan.length_tags, order,
      RegisterPlan.slots_append, UInt16.toNat_ofNat', UInt16.toNat_ofNat', Nat.mod_eq_of_lt (by omega)]
    change _ - RegisterPlan.slots body.parameters % _ = _
    rw [Nat.mod_eq_of_lt (by omega)]
    omega
  have tags : code.kinds = kindTags ((source.usedLocals body).map Local.kind) ++
      kindTags (body.parameters.map Local.kind) := by
    rw [lowered.kinds, tags_eq, order, List.map_append, kindTags, List.flatMap_append]
    rfl
  simp only [first]
  refine ⟨trivial, ?_, ?_⟩
  · rw [tags, List.take_left' (length_kindTags _)]
  · rw [tags, List.drop_left' (length_kindTags _)]

/-- Every register gets a local that stands for the one it was given to. -/
theorem meets_assignRegisters {source : Program} {limits : Limits} {original : MethodId} {body : Body}
    {listed : List (InstructionId × Instruction)} {final : Pool} {code : CodeItem}
    (lowered : LoweredCode final (source.surroundings limits original body listed) listed code)
    {access : UInt32} (declared : (before.methodAt method).declaration = some access)
    (coded : ¬Access.isSet access (Access.abstract ||| Access.native))
    (fresh : before.body? method = none)
    (kinds : body.parameters.map Local.kind = entryKinds access (before.methodAt method).signature) :
    Meets (program.Fills method) (assignRegisters method code) before fun registers after =>
      ∃ used parameters, registers = (spread (used ++ parameters)).toArray ∧
        used.map Local.kind = (source.usedLocals body).map Local.kind ∧
        parameters.map Local.kind = body.parameters.map Local.kind ∧
        (used ++ parameters).Nodup ∧ after.body? method = some ⟨parameters, parameters.toArray, #[]⟩ ∧
        ∀ slot ∈ used ++ parameters, after.owner? slot = none ∨ after.owner? slot = some method := by
  obtain ⟨-, low, high⟩ := registers_split lowered
  apply (meets_createBody declared coded fresh).adapt.bind
  rintro parameters middle - ⟨same, distinct, opened, owned⟩
  have placed : placeParameters parameters (kindTags (body.parameters.map Local.kind)) =
      some (spread parameters, []) := by rw [kinds, ← same, placeParameters_spread]
  refine .get_bind ?_
  simp only [low, high, placed]
  refine .refuse_bind (by simp) ?_
  apply ((meets_lowRegisters _).fills method).bind
  rintro _ after - ⟨moved, used, rfl, sameUsed, distinctUsed, -, range⟩
  have growths := Gains.growths moved
  refine .pure ⟨used, parameters, ?_, sameUsed, same.trans kinds.symm, ?_, ?_, ?_⟩
  · rw [spread_append]
  · refine List.nodup_append.mpr ⟨distinctUsed, distinct, ?_⟩
    rintro slot new _ old rfl
    have before := (owned slot old).1
    have later := (range slot new).1
    omega
  · rw [growths.body?, opened]
  · intro slot member
    rw [growths.owner?]
    rcases List.mem_append.mp member with new | old
    · exact .inl (owner?_of_new (range slot new).1)
    · exact .inr (owned slot old).2

end Loading.Context

end ClassImage
