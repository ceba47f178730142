import ClassImage.Proofs.Lowering.Success

/-!
Images of programs under verification. Registers of what was lowered are among
those of its body, indices are within the pool, and branches lead to starts of
units. The parts of a call or an allocation stand side by side, since they are
made together. So verification finds one fault only: a body whose last
instruction lets control run on.
-/

namespace ClassImage

namespace Pool

variable {pool : Pool} {index : UInt32}

theorem text?_lt {text : String} (found : pool.text? index = some text) :
    index.toNat < pool.size .text :=
  (Array.getElem?_eq_some_iff.mp found).1

theorem type?_lt {descriptor : String} (found : pool.type? index = some descriptor) :
    index.toNat < pool.size .type := by
  obtain ⟨text, there, -⟩ := Option.bind_eq_some_iff.mp found
  exact (Array.getElem?_eq_some_iff.mp there).1

theorem MethodIs.lt {owner name result : String} {parameters : List String}
    (named : pool.MethodIs index owner name result parameters) : index.toNat < pool.size .method := by
  obtain ⟨method, found, -⟩ := named
  exact (Array.getElem?_eq_some_iff.mp found).1

theorem FieldIs.lt {owner name type : String} (named : pool.FieldIs index owner name type) :
    index.toNat < pool.size .field := by
  obtain ⟨field, found, -⟩ := named
  exact (Array.getElem?_eq_some_iff.mp found).1

theorem MethodIs.isConstructor {owner result : String} {parameters : List String}
    (named : pool.MethodIs index owner constructorName result parameters) : pool.isConstructor index := by
  obtain ⟨method, found, -, -, name⟩ := named
  rw [Pool.isConstructor, found, Option.bind_some, name]
  rfl

theorem Enters.getElem?_inj {entries : Array α} {listed : List α} (enters : Enters entries listed)
    {one other : UInt32} {entry : α} (here : entries[one.toNat]? = some entry)
    (there : entries[other.toNat]? = some entry) : one = other := by
  rw [← Array.getElem?_toList] at here there
  have inside := (List.getElem?_eq_some_iff.mp here).1
  exact UInt32.toNat_inj.mp ((List.getElem?_inj inside enters.1).mp (here.trans there.symm))

/-- Two indices that stand for one descriptor are the same. -/
theorem Holds.type?_inj {entries : Entries} (holds : pool.Holds entries) {other : UInt32}
    {descriptor : String} (here : pool.type? index = some descriptor)
    (there : pool.type? other = some descriptor) : index = other := by
  obtain ⟨text, first, named⟩ := Option.bind_eq_some_iff.mp here
  obtain ⟨text', second, named'⟩ := Option.bind_eq_some_iff.mp there
  cases holds.texts.getElem?_inj named named'
  exact holds.types.getElem?_inj first second

end Pool

namespace CodeUnit

variable {units front back : List CodeUnit} {unit : CodeUnit} {raw : RawInstruction}

/-- A raw instruction of some units belongs to one of them. -/
theorem of_getElem?_flatMap {offset : Nat} (found : (units.flatMap raws)[offset]? = some raw) :
    ∃ front unit back place, units = front ++ unit :: back ∧
      offset = (front.flatMap raws).length + place ∧ unit.raws[place]? = some raw := by
  induction units generalizing offset with
  | nil => cases found
  | cons unit units ih =>
    rw [List.flatMap_cons] at found
    by_cases inside : offset < unit.raws.length
    · rw [List.getElem?_append_left inside] at found
      exact ⟨[], unit, units, offset, rfl, (Nat.zero_add _).symm, found⟩
    · rw [List.getElem?_append_right (Nat.le_of_not_lt inside)] at found
      obtain ⟨front, other, back, place, rfl, same, there⟩ := ih found
      refine ⟨unit :: front, other, back, place, rfl, ?_, there⟩
      rw [List.flatMap_cons, List.length_append]
      omega

theorem getElem?_flatMap {place : Nat} (there : unit.raws[place]? = some raw) :
    ((front ++ unit :: back).flatMap raws)[(front.flatMap raws).length + place]? = some raw := by
  have inside := (List.getElem?_eq_some_iff.mp there).1
  rw [List.flatMap_append, List.flatMap_cons, List.getElem?_append_right (by omega),
    Nat.add_sub_cancel_left, List.getElem?_append_left inside, there]

/-- An allocation is never the last part of a unit. -/
theorem Proper.getLast? (proper : unit.Proper) {dst : UInt16} {type : UInt32} :
    unit.raws.getLast? ≠ some (.newInstance dst type) := by
  cases unit with
  | allocation => simp [raws]
  | call dispatch method arguments result => cases result <;> simp [raws]
  | single raw =>
    intro same
    cases Option.some.inj same
    exact proper

theorem Proper.of_moveResult (proper : unit.Proper) {place : Nat} {dst : UInt16}
    (there : unit.raws[place]? = some (.moveResult dst)) :
    ∃ dispatch method arguments, place = 1 ∧ unit.raws[0]? = some (.invoke dispatch method arguments) := by
  cases unit with
  | allocation =>
    rcases place with _ | _ | place <;> cases there
  | call dispatch method arguments result =>
    cases result with
    | none => rcases place with _ | place <;> cases there
    | some dst =>
      rcases place with _ | _ | place
      · cases there
      · exact ⟨dispatch, method, arguments, rfl, rfl⟩
      · cases there
  | single raw =>
    rcases place with _ | place
    · cases there
      exact proper.elim
    · cases there

theorem Proper.of_newInstance (proper : unit.Proper) {place : Nat} {dst : UInt16} {type : UInt32}
    (there : unit.raws[place]? = some (.newInstance dst type)) :
    ∃ constructor arguments, place = 0 ∧ unit = .allocation dst type constructor arguments := by
  cases unit with
  | allocation dst type constructor arguments =>
    rcases place with _ | _ | place
    · cases there
      exact ⟨constructor, arguments, rfl, rfl⟩
    · cases there
    · cases there
  | call dispatch method arguments result =>
    cases result with
    | none => rcases place with _ | place <;> cases there
    | some dst => rcases place with _ | _ | place <;> cases there
  | single raw =>
    rcases place with _ | place
    · cases there
      exact proper.elim
    · cases there

end CodeUnit

namespace CodeItem

variable {code : CodeItem} {units front back : List CodeUnit} {unit : CodeUnit}

theorem instruction?_unit (whole : code.instructions.toList = (front ++ unit :: back).flatMap CodeUnit.raws)
    {place : Nat} {raw : RawInstruction} (there : unit.raws[place]? = some raw) :
    code.instruction? ((front.flatMap CodeUnit.raws).length + place) = some raw := by
  rw [instruction?, ← Array.getElem?_toList, whole, CodeUnit.getElem?_flatMap there]

/-- What stands before a unit does not begin an allocation. -/
theorem before?_unit (whole : code.instructions.toList = (front ++ unit :: back).flatMap CodeUnit.raws)
    (proper : ∀ one ∈ front, one.Proper) {dst : UInt16} {type : UInt32} :
    code.before? (front.flatMap CodeUnit.raws).length ≠ some (.newInstance dst type) := by
  rcases List.eq_nil_or_concat' front with rfl | ⟨earlier, previous, rfl⟩
  · nofun
  · obtain ⟨init, last, same⟩ := (List.eq_nil_or_concat' _).resolve_left previous.raws_ne_nil
    have ends : previous.raws.getLast? = some last := by rw [same, List.getLast?_concat]
    have there : previous.raws[init.length]? = some last := by
      rw [same, List.getElem?_concat_length]
    have size : ((earlier ++ [previous]).flatMap CodeUnit.raws).length =
        (earlier.flatMap CodeUnit.raws).length + init.length + 1 := by
      rw [List.flatMap_append, List.flatMap_singleton, List.length_append, same, List.length_append]
      rfl
    rw [List.append_assoc] at whole
    rw [size, before?, instruction?_unit whole there, ← ends]
    exact (proper previous (by simp)).getLast?

/-- Control may arrive at the start of a unit. -/
theorem isStart_unit (whole : code.instructions.toList = (front ++ unit :: back).flatMap CodeUnit.raws)
    (proper : ∀ one ∈ front ++ unit :: back, one.Proper) :
    code.isStart (front.flatMap CodeUnit.raws).length := by
  have before : ∀ dst type, code.before? (front.flatMap CodeUnit.raws).length ≠
      some (.newInstance dst type) :=
    fun _ _ => before?_unit whole fun unit member => proper unit (List.mem_append_left _ member)
  have first : ∀ raw, unit.raws[0]? = some raw →
      code.instruction? (front.flatMap CodeUnit.raws).length = some raw :=
    fun raw there => instruction?_unit whole there
  have here := proper unit (by simp)
  unfold isStart
  cases unit with
  | allocation => rw [first _ rfl]
  | call dispatch method arguments result =>
    have there : code.instruction? (front.flatMap CodeUnit.raws).length =
        some (.invoke dispatch method arguments) := by
      cases result <;> exact first _ rfl
    rw [there]
    cases dispatch with
    | direct =>
      dsimp only
      split
      · rename_i dst type found
        exact absurd found (before dst type)
      · rfl
    | _ => rfl
  | single raw =>
    rw [first _ rfl]
    cases raw with
    | moveResult | invoke => exact here.elim
    | _ => rfl

end CodeItem

/-- Registers hold locals, the pool entry exists, and a branch leads somewhere. -/
def RawInstruction.Sits (final : Pool) (context : CodeContext) (raw : RawInstruction) : Prop :=
  (∀ register ∈ raw.registers, ∃ slot, context.Places slot register) ∧
    (∀ entry ∈ raw.poolEntry?, entry.2.toNat < final.size entry.1) ∧
    ∀ position ∈ raw.target?, ∃ target, context.Reaches target position

section Sits

open RawInstruction

variable {final : Pool} {context : CodeContext} {instruction : Instruction} {unit : CodeUnit}

theorem Pool.Loads.sits {dst : UInt16} {value : Constant} {raw : RawInstruction} {slot : Local}
    (placed : context.Places slot dst) (loads : final.Loads context.program dst value raw) :
    raw.Sits final context := by
  cases value
  case text =>
    obtain ⟨index, found, rfl⟩ := loads
    simpa [Sits, registers, poolEntry?, target?] using ⟨⟨slot, placed⟩, Pool.text?_lt found⟩
  case classOf =>
    obtain ⟨index, found, rfl⟩ := loads
    simpa [Sits, registers, poolEntry?, target?] using ⟨⟨slot, placed⟩, Pool.type?_lt found⟩
  all_goals
    cases loads
    simpa [Sits, registers, poolEntry?, target?] using ⟨slot, placed⟩

theorem AccessKind.sits {kind : AccessKind} {value : UInt16} {field : UInt32} {object : Option UInt16}
    (known : field.toNat < final.size .field)
    (placed : ∀ register ∈ value :: object.toList, ∃ slot, context.Places slot register) :
    (kind.raw value field object).Sits final context := by
  cases kind <;> cases object <;>
    simpa [AccessKind.raw, Sits, registers, poolEntry?, target?, known] using placed

theorem Lowered.sits (lowered : Lowered final context instruction unit) :
    ∀ raw ∈ unit.raws, raw.Sits final context := by
  have held : ∀ {slots places}, List.Forall₂ context.Places slots places →
      ∀ register ∈ places, ∃ slot, context.Places slot register := by
    intro slots places all register member
    obtain ⟨slot, -, placed⟩ := forall₂_exists_left all member
    exact ⟨slot, placed⟩
  cases lowered with
  | construct kind marked bound placed operands target allocated =>
    simpa [CodeUnit.raws, Sits, registers, poolEntry?, target?] using
      ⟨⟨⟨_, placed⟩, Pool.type?_lt allocated⟩, ⟨⟨_, placed⟩, held operands⟩, target.lt⟩
  | @call call method arguments result kind marked operands target bound =>
    generalize call.result = taken at bound
    cases bound with
    | none => simpa [CodeUnit.raws, Sits, registers, poolEntry?, target?] using ⟨held operands, target.lt⟩
    | some placed =>
      simpa [CodeUnit.raws, Sits, registers, poolEntry?, target?] using
        ⟨⟨held operands, target.lt⟩, _, placed⟩
  | access marked target placed object =>
    simpa [CodeUnit.raws] using AccessKind.sits target.lt (held (.cons placed (forall₂_toList object)))
  | const placed loads => simpa [CodeUnit.raws] using loads.sits placed
  | returnVoid => simp [CodeUnit.raws, Sits, registers, poolEntry?, target?]
  | goto found => simpa [CodeUnit.raws, Sits, registers, poolEntry?, target?] using ⟨_, found⟩
  | returnValue taken | throwValue taken =>
    simpa [CodeUnit.raws, Sits, registers, poolEntry?, target?] using ⟨_, taken⟩
  | move placed taken | arrayLength placed taken =>
    simpa [CodeUnit.raws, Sits, registers, poolEntry?, target?] using ⟨⟨_, placed⟩, _, taken⟩
  | ifCompare first second found =>
    simpa [CodeUnit.raws, Sits, registers, poolEntry?, target?] using ⟨⟨⟨_, first⟩, _, second⟩, _, found⟩
  | ifZero first found =>
    simpa [CodeUnit.raws, Sits, registers, poolEntry?, target?] using ⟨⟨_, first⟩, _, found⟩
  | binary placed first second =>
    simpa [CodeUnit.raws, Sits, registers, poolEntry?, target?] using ⟨⟨_, placed⟩, ⟨_, first⟩, _, second⟩
  | newArray placed taken meant | checkCast placed taken meant | instanceOf placed taken meant =>
    simpa [CodeUnit.raws, Sits, registers, poolEntry?, target?] using
      ⟨⟨⟨_, placed⟩, _, taken⟩, Pool.type?_lt meant⟩

/-- A unit ends code exactly if its instruction does. -/
theorem Lowered.closing (lowered : Lowered final context instruction unit) :
    ∃ last, unit.raws.getLast? = some last ∧ last.opcode.isTerminator = instruction.isClosing := by
  have open' : ∀ dispatch : Dispatch, dispatch.opcode.isTerminator = false := by
    intro dispatch
    cases dispatch <;> rfl
  cases lowered with
  | construct => exact ⟨_, rfl, rfl⟩
  | @call call method arguments result =>
    cases result with
    | none => exact ⟨_, rfl, open' _⟩
    | some => exact ⟨_, rfl, rfl⟩
  | @access use field value object =>
    refine ⟨_, rfl, ?_⟩
    cases use.kind <;> cases object <;> rfl
  | @const target dst value raw placed loads =>
    refine ⟨raw, rfl, ?_⟩
    cases value
    case text | classOf =>
      obtain ⟨index, -, rfl⟩ := loads
      rfl
    all_goals
      cases loads
      rfl
  | _ => exact ⟨_, rfl, rfl⟩

/-- An allocation passes the new instance to a constructor. -/
theorem Lowered.allocation {dst : UInt16} {type constructor : UInt32} {arguments : List UInt16}
    (lowered : Lowered final context instruction (.allocation dst type constructor arguments))
    (admitted : context.program.Admits instruction) :
    arguments.head? = some dst ∧ final.isConstructor constructor := by
  cases lowered with
  | construct kind marked bound placed operands target allocated =>
    obtain ⟨name, signature, key, suits⟩ := admitted
    refine ⟨rfl, ?_⟩
    unfold Pool.NamesMethod at target
    rw [(Program.methodKey?_methodAt key).2.1, (suits.constructor kind).1] at target
    exact target.isConstructor

end Sits

namespace Program

variable {final : Pool} {program : Program} {limits : Limits}

section Code

variable {context : CodeContext} {listed : List (InstructionId × Instruction)} {code : CodeItem}

/-- A branch's position is the start of a unit. -/
theorem start_of_lookup {units : List CodeUnit} {first start : Nat} {target : InstructionId}
    (each : List.Forall₂ (fun entry unit => Lowered final context entry.2 unit) listed units)
    (found : (rawStarts first listed).lookup target = some start) :
    ∃ front unit back, units = front ++ unit :: back ∧
      start = first + (front.flatMap CodeUnit.raws).length := by
  induction each generalizing first with
  | nil => cases found
  | @cons entry unit listed units lowered _ ih =>
    obtain ⟨id, instruction⟩ := entry
    rw [rawStarts, List.lookup_cons] at found
    by_cases here : target = id
    · rw [beq_iff_eq.mpr here] at found
      cases found
      exact ⟨[], unit, units, rfl, rfl⟩
    · rw [beq_eq_false_iff_ne.mpr here] at found
      obtain ⟨front, other, back, rfl, same⟩ := ih found
      refine ⟨unit :: front, other, back, rfl, ?_⟩
      rw [List.flatMap_cons, List.length_append, lowered.length_raws, same, Nat.add_assoc]

/-- Code ends as its last instruction does. -/
theorem getLast?_flatMap_raws {units : List CodeUnit}
    (each : List.Forall₂ (fun entry unit => Lowered final context entry.2 unit) listed units) :
    (units.flatMap CodeUnit.raws).getLast?.map (·.opcode.isTerminator) =
      (listed.map Prod.snd).getLast?.map Instruction.isClosing := by
  induction each with
  | nil => rfl
  | @cons entry unit listed units lowered _ ih =>
    obtain ⟨last, ends, same⟩ := lowered.closing
    rw [List.flatMap_cons, List.getLast?_append, Option.map_or, ih, ends, Option.map_some, same,
      List.map_cons, ← List.singleton_append, List.getLast?_append, Option.map_or]
    rfl

namespace LoweredCode

variable (lowered : LoweredCode final context listed code)

include lowered

theorem registers_toNat : code.registers.toNat = RegisterPlan.slots context.plan.order := by
  have room := lowered.room
  rw [lowered.registers, UInt16.toNat_ofNat', RegisterPlan.length_tags, Nat.mod_eq_of_lt (by omega)]

/-- Every raw instruction of a body is in its place. -/
theorem accepts (starts : context.starts = rawStarts 0 listed)
    (admitted : ∀ entry ∈ listed, context.program.Admits entry.2) {offset : Nat} {raw : RawInstruction}
    (found : code.instruction? offset = some raw) : code.Accepts final offset raw := by
  obtain ⟨units, whole, each⟩ := lowered.units
  have proper : ∀ unit ∈ units, unit.Proper := by
    intro unit member
    obtain ⟨entry, -, lowered⟩ := forall₂_exists_left each member
    exact lowered.proper
  have there : (units.flatMap CodeUnit.raws)[offset]? = some raw := by
    rw [← whole, Array.getElem?_toList]
    exact found
  obtain ⟨front, unit, back, place, rfl, rfl, part⟩ := CodeUnit.of_getElem?_flatMap there
  have here : unit ∈ front ++ unit :: back := by simp
  obtain ⟨entry, inside, meant⟩ := forall₂_exists_left each here
  obtain ⟨placed, known, leads⟩ := meant.sits raw (List.mem_of_getElem? part)
  constructor
  · intro register uses
    obtain ⟨slot, placed⟩ := placed register uses
    rw [UInt16.lt_iff_toNat_lt, lowered.registers_toNat]
    exact RegisterPlan.register?_lt lowered.room placed
  · exact fun table index refers => known _ refers
  · intro target branches
    obtain ⟨id, start, reached, rfl⟩ := leads target branches
    rw [starts] at reached
    obtain ⟨before, other, after, same, rfl⟩ := start_of_lookup each reached
    have size := lowered.size
    have total := length_flatMap_raws each
    rw [same, List.flatMap_append, List.length_append] at total
    rw [Nat.zero_add, UInt32.toNat_ofNat', Nat.mod_eq_of_lt (by omega)]
    rw [same] at whole proper
    exact CodeItem.isStart_unit whole proper
  · rintro dst rfl
    obtain ⟨dispatch, method, arguments, rfl, call⟩ := (proper unit here).of_moveResult part
    exact ⟨dispatch, method, arguments, CodeItem.instruction?_unit whole call⟩
  · rintro dst type rfl
    obtain ⟨constructor, arguments, rfl, rfl⟩ := (proper unit here).of_newInstance part
    refine ⟨constructor, arguments, ?_, meant.allocation (admitted entry inside)⟩
    exact CodeItem.instruction?_unit whole rfl

theorem closed_iff : (∀ last, code.instructions.back? = some last → last.opcode.isTerminator) ↔
    ∀ last, (listed.map Prod.snd).getLast? = some last → last.isClosing := by
  obtain ⟨units, whole, each⟩ := lowered.units
  have same := getLast?_flatMap_raws each
  rw [← whole, Array.getLast?_toList] at same
  cases here : code.instructions.back? <;> cases there : (listed.map Prod.snd).getLast? <;>
    simp_all

theorem verified_iff (starts : context.starts = rawStarts 0 listed)
    (admitted : ∀ entry ∈ listed, context.program.Admits entry.2)
    (parameters : context.plan.parameterRegisters ≤ RegisterPlan.slots context.plan.order) :
    code.Verified final ↔ ∀ last, (listed.map Prod.snd).getLast? = some last → last.isClosing := by
  rw [← lowered.closed_iff]
  refine ⟨fun verified => verified.closed, ?_⟩
  intro closed
  refine ⟨?_, ?_, ?_, fun _ _ found => lowered.accepts starts admitted found, closed⟩
  · rw [lowered.kinds, RegisterPlan.length_tags, lowered.registers_toNat]
  · have room := lowered.room
    rw [UInt16.le_iff_toNat_le, lowered.parameterRegisters, lowered.registers_toNat,
      UInt16.toNat_ofNat', Nat.mod_eq_of_lt (by omega)]
    exact parameters
  · rw [lowered.kinds]
    exact RegisterPlan.paired_tags _

end LoweredCode

end Code

/-- Control does not run past the end of a body. -/
def Closes (program : Program) (body : Body) : Prop :=
  ∀ last, (program.instructionsOf body).getLast? = some last → last.isClosing

theorem LoweredBody.verified_iff {method : MethodId} {body : Body} {code : CodeItem}
    (lowered : program.LoweredBody final limits method body code) (admitted : program.CodeAdmitted) :
    code.Verified final ↔ program.Closes body := by
  obtain ⟨listed, lists, lowered⟩ := lowered
  rw [Closes, lists.instructionsOf]
  refine lowered.verified_iff rfl ?_ ?_
  · intro entry member
    obtain ⟨id, -, same, attached⟩ := forall₂_exists_left lists member
    obtain ⟨slot, here, same⟩ := slot_of_instruction? attached
    exact same ▸ admitted _ _ here
  · change RegisterPlan.slots body.parameters ≤
      RegisterPlan.slots (program.usedLocals body ++ body.parameters)
    rw [RegisterPlan.slots_append]
    exact Nat.le_add_left _ _

theorem LoweredDefinition.verified_iff {entries : Pool.Entries} (holds : final.Holds entries)
    (defined : program.DefinitionsSound) (admitted : program.CodeAdmitted) {type : TypeId}
    {definition : Definition} {written : ClassDef}
    (found : program.definition? type = some definition)
    (lowered : program.LoweredDefinition final limits type definition written) :
    written.Verified final ↔
      ∀ method ∈ definition.methods.toList, ∀ body, program.body? method = some body → program.Closes body := by
  constructor
  · intro verified method listed body here
    obtain ⟨other, member, same⟩ := forall₂_exists_right lowered.methods listed
    obtain ⟨code, coded, meant⟩ := forall₂_exists_right (forall₂_toList same.code)
      (Option.mem_toList.mpr here)
    exact (meant.verified_iff admitted).mp
      ((verified.methods other member).2.2 code (Option.mem_toList.mp coded))
  · intro closes
    have owned : ∀ {index owner}, owner = type →
        final.type? index = some (program.typeText owner) → index = written.type := by
      rintro index _ rfl named
      exact holds.type?_inj named lowered.named
    constructor
    · exact Pool.type?_lt lowered.named
    · intro index member
      obtain ⟨superclass, -, named⟩ := forall₂_exists_left (forall₂_toList lowered.superclass)
        (Option.mem_toList.mpr member)
      exact Pool.type?_lt named
    · intro index member
      obtain ⟨interface, -, named⟩ := forall₂_exists_left lowered.interfaces member
      exact Pool.type?_lt named
    · intro index member
      obtain ⟨source, -, named⟩ := forall₂_exists_left (forall₂_toList lowered.source)
        (Option.mem_toList.mpr member)
      exact Pool.text?_lt named
    · intro field member
      obtain ⟨id, listed, same⟩ := forall₂_exists_left lowered.fields member
      obtain ⟨access, declared⟩ := ((defined.fields found).2 id).mp (Array.mem_toList_iff.mp listed)
      obtain ⟨_, -, owner⟩ := Option.map_eq_some_iff.mp declared
      refine ⟨same.named.lt, ?_⟩
      obtain ⟨entry, there, named, -⟩ := same.named
      rw [there, Option.map_some, owned (Prod.mk.inj owner).1 named]
    · intro method member
      obtain ⟨id, listed, same⟩ := forall₂_exists_left lowered.methods member
      obtain ⟨access, declared⟩ := ((defined.methods found).2 id).mp (Array.mem_toList_iff.mp listed)
      obtain ⟨_, -, owner⟩ := Option.map_eq_some_iff.mp declared
      refine ⟨same.named.lt, ?_, ?_⟩
      · obtain ⟨entry, there, named, -⟩ := same.named
        rw [there, Option.map_some, owned (Prod.mk.inj owner).1 named]
      · intro code coded
        obtain ⟨body, here, meant⟩ := forall₂_exists_left (forall₂_toList same.code)
          (Option.mem_toList.mpr coded)
        exact (meant.verified_iff admitted).mpr (closes id listed body (Option.mem_toList.mp here))

end Program

end ClassImage
