import ClassImage.Proofs.Codec.Verify
import ClassImage.Proofs.Program.Meaning
import ClassImage.Proofs.Program.Placing

/-!
Loading an image is a sequence of steps as well. Building an instruction is
growth, so the places reserved for a body stay empty until their instructions
are attached, one after the other; when all are attached, every unit of the code
has its instruction in its place. An image that fails leaves the program as it
was.
-/

namespace ClassImage

open Program Edit

/-- Consecutive handles, from the first one on. -/
def Program.handlesFrom (first : InstructionId) (count : Nat) : List InstructionId :=
  (List.range count).map fun index => ⟨first.index + index⟩

theorem Program.getElem?_handlesFrom {first : InstructionId} {count index : Nat}
    (inside : index < count) : (handlesFrom first count)[index]? = some ⟨first.index + index⟩ := by
  simp [handlesFrom, inside]

theorem Program.handlesFrom_succ (first : InstructionId) (count : Nat) :
    handlesFrom first (count + 1) = handlesFrom first count ++ [⟨first.index + count⟩] := by
  simp [handlesFrom, List.range_succ]

namespace Loading

namespace Context

variable {context : Context} {before : Program} {step : Program → Program → Prop} {frame : Frame}

/-- The instruction that a unit is made into. -/
structure Makes (context : Context) (frame : Frame) (unit : CodeUnit) (instruction : Instruction)
    (program : Program) : Prop where
  admitted : program.Admits instruction
  means : context.Means frame program unit instruction

/-- The locals of an instruction are in the frame, but for one that was issued since the start. -/
def Draws (frame : Frame) (start : Program) (instruction : Instruction) (program : Program) : Prop :=
  ∃ extra : Option Local,
    (∀ slot ∈ extra, start.owners.size ≤ slot.id ∧ slot.id < program.owners.size) ∧
    ∀ slot ∈ instruction.locals, slot ∈ frame.locals ∨ slot ∈ extra

theorem Makes.kept {unit : CodeUnit} {instruction : Instruction} {after : Program}
    (makes : context.Makes frame unit instruction before)
    (moved : Relation.ReflTransGen context.Loads before after) :
    context.Makes frame unit instruction after :=
  ⟨(Loads.steps moved).extends.admits makes.admitted, makes.means.kept moved⟩

theorem draws_frame {start : Program} {instruction : Instruction}
    (uses : ∀ slot ∈ instruction.locals, slot ∈ frame.locals) :
    Draws frame start instruction before :=
  ⟨none, by simp, fun slot member => .inl (uses slot member)⟩

theorem slot_bind {register : UInt16} {next : Local → Edit α} {goal : α → Program → Prop}
    (second : ∀ slot, frame.Holds register slot → Reaches step (next slot) before goal) :
    Reaches step (frame.slot register >>= next) before goal := by
  unfold Frame.slot
  split
  · rename_i slot found
    exact second slot found
  · exact .throw

theorem slots_bind {registers : List UInt16} {next : List Local → Edit α}
    {goal : α → Program → Prop}
    (second : ∀ slots, List.Forall₂ frame.Holds registers slots → Reaches step (next slots) before goal) :
    Reaches step (registers.mapM frame.slot >>= next) before goal := by
  induction registers generalizing next with
  | nil => exact second [] .nil
  | cons register registers ih =>
    simp only [List.mapM_cons, bind_assoc, pure_bind]
    apply slot_bind
    intro slot held
    apply ih
    intro slots all
    exact second (slot :: slots) (.cons held all)

theorem reaches_buildCall {request : CallRequest}
    (known : ∀ method, request.method = some method → (before.methodKey? method).isSome) :
    Reaches step (buildCall request) before fun instruction after => after = before ∧
      ∃ call, instruction = .invoke call ∧ after.Admits (.invoke call) ∧
        request = ⟨call.kind, some call.method, call.arguments, call.result⟩ := by
  apply (reaches_call known).adapt.bind
  rintro call middle - ⟨rfl, request, admitted⟩
  exact .pure ⟨rfl, call, rfl, admitted, request⟩

theorem reaches_buildAccess {request : AccessRequest}
    (known : ∀ field, request.field = some field → (before.fieldKey? field).isSome) :
    Reaches step (buildAccess request) before fun instruction after => after = before ∧
      ∃ use, instruction = .access use ∧ after.Admits (.access use) ∧
        request = ⟨use.kind, some use.field, some use.value, use.object⟩ := by
  apply (reaches_access known).adapt.bind
  rintro use middle - ⟨rfl, request, admitted⟩
  exact .pure ⟨rfl, use, rfl, admitted, request⟩

theorem reaches_buildAllocation {dst : UInt16} {type constructor : UInt32}
    {arguments : List UInt16} :
    Reaches context.Learns (context.buildAllocation frame dst type constructor arguments) before
      fun instruction after =>
        context.Makes frame (.allocation dst type constructor arguments) instruction after ∧
          Draws frame before instruction after := by
  apply (reaches_method _ _).bind
  intro method _ _ found
  apply (reaches_type _).bind
  intro allocated _ moved known
  have found := found.kept (Learns.growths moved).steps
  refine .get_bind (.refuse_bind ?_)
  intro same
  rw [ne_eq, not_not] at same
  apply slot_bind
  intro result held
  apply slots_bind
  intro arguments all
  apply (reaches_buildCall ?_).imp
  · rintro _ after - ⟨rfl, call, rfl, admitted, request⟩
    simp only [CallRequest.mk.injEq, Option.some.injEq] at request
    obtain ⟨kind, rfl, rfl, bound⟩ := request
    have copy := admitted
    obtain ⟨_, _, key, -⟩ := copy
    have owned : call.owner = allocated := (methodKey?_methodAt key).1.symm.trans same
    refine ⟨⟨admitted, .allocation kind.symm found (owned ▸ known) all bound.symm held⟩, draws_frame ?_⟩
    rw [Instruction.locals, Instruction.writes, Instruction.reads, ← bound]
    exact List.forall_mem_cons.mpr ⟨held.mem, Frame.mem_of_forall₂ all⟩
  · rintro _ ⟨⟩
    exact found.known

theorem reaches_noteDispatch {dispatch : Dispatch} {owner : TypeId} {descriptor : Descriptor}
    (known : before.descriptor? owner = some descriptor)
    (claimed : dispatch = .interface → context.CallsThrough descriptor) :
    Reaches context.Learns (noteDispatch dispatch owner) before fun _ after =>
      dispatch = .interface → after.Noted owner := by
  unfold noteDispatch
  split
  · rename_i through
    apply ((looks_markInterface known (.inr (claimed through))).mono fun _ _ => And.left).imp
    exact fun _ _ _ noted _ => noted
  · rename_i other
    exact .pure fun through => absurd through other

theorem reaches_resultSlot (signature : Signature) (result : Option UInt16)
    (issued : ∀ slot ∈ frame.locals, slot.id < before.owners.size) :
    Reaches context.Learns (resultSlot frame signature result) before fun slot after =>
      frame.Takes signature result slot ∧ ∃ extra : Option Local,
        (∀ slot ∈ extra, before.owners.size ≤ slot.id ∧ slot.id < after.owners.size) ∧
        ∀ taken ∈ slot, taken ∈ frame.locals ∨ taken ∈ extra := by
  cases result with
  | some dst =>
    rw [resultSlot, ← bind_pure_comp]
    refine slot_bind fun slot held => .pure ⟨⟨slot, rfl, held⟩, none, by simp, ?_⟩
    rintro _ ⟨⟩
    exact .inl held.mem
  | none =>
    unfold resultSlot
    cases returned : signature.result.kind? with
    | none => exact .pure ⟨⟨by rw [returned]; rfl, by simp⟩, none, by simp, by simp⟩
    | some kind =>
      refine .map ((reaches_freshLocal learns_addLocal).imp ?_)
      rintro slot after - ⟨rfl, rfl⟩
      refine ⟨⟨by rw [returned]; rfl, ?_⟩, some ⟨before.owners.size, kind⟩, ?_, fun _ same => .inr same⟩
      · rintro _ ⟨⟩ listed
        exact absurd (issued _ listed) (lt_irrefl _)
      · rintro _ ⟨⟩
        simp [addLocal]

theorem reaches_buildInvoke {dispatch : Dispatch} {method : UInt32} {arguments : List UInt16}
    {result : Option UInt16} (issued : ∀ slot ∈ frame.locals, slot.id < before.owners.size)
    (claimed : dispatch = .interface → ∀ descriptor name signature,
      context.ReadsMethod method descriptor name signature → context.CallsThrough descriptor) :
    Reaches context.Learns (context.buildInvoke frame dispatch method arguments result) before
      fun instruction after =>
        context.Makes frame (.call dispatch method arguments result) instruction after ∧
          Draws frame before instruction after := by
  apply (reaches_method _ _).bind
  intro target middle start found
  refine .get_bind ?_
  have copy := found
  obtain ⟨owner, descriptor, name, signature, key, known, read, -⟩ := copy
  obtain ⟨same, -, sign⟩ := methodKey?_methodAt key
  rw [← same] at known
  apply (reaches_noteDispatch known fun through => claimed through _ _ _ read).bind
  intro _ noting moved noted
  apply slots_bind
  intro slots all
  have low := (Learns.growths (start.trans moved)).owners_size
  apply (reaches_resultSlot _ _ fun slot listed => (issued slot listed).trans_le low).bind
  rintro slot last moved' ⟨taken, extra, new, drawn⟩
  have found := found.kept (Learns.growths (moved.trans moved')).steps
  apply (reaches_buildCall ?_).imp
  · rintro _ after - ⟨rfl, call, rfl, admitted, request⟩
    simp only [CallRequest.mk.injEq, Option.some.injEq] at request
    obtain ⟨kind, rfl, rfl, rfl⟩ := request
    have key := (Learns.growths (moved.trans moved')).extends.methods key
    have copy := admitted
    obtain ⟨_, _, key', -⟩ := copy
    cases key.symm.trans key'
    refine ⟨⟨admitted, .call kind.symm key found ?_ all (sign ▸ taken)⟩, extra, ?_, ?_⟩
    · intro through
      rw [same] at noted
      exact Loads.noted_kept (Learns.loads moved') (noted through)
    · exact fun slot member => ⟨low.trans (new slot member).1, (new slot member).2⟩
    · intro slot member
      rcases List.mem_append.mp member with written | given
      · exact drawn slot (Option.mem_toList.mp written)
      · exact .inl (Frame.mem_of_forall₂ all slot given)
  · rintro _ ⟨⟩
    exact found.known

theorem makes_single {raw : RawInstruction} {instruction : Instruction} {after : Program}
    (admitted : after.Admits instruction) (means : context.Means frame after (.single raw) instruction) :
    context.Makes frame (.single raw) instruction after ∧ Draws frame before instruction after :=
  ⟨⟨admitted, means⟩, none, by simp, fun slot member => .inl (means.uses slot member)⟩

theorem reaches_single_access {kind : AccessKind} {index : UInt32} {field : FieldId} {value : UInt16}
    {object : Option UInt16} {slot : Local} {holder : Option Local}
    (found : context.FindsField index object.isNone field before) (held : frame.Holds value slot)
    (owned : Option.Rel frame.Holds object holder) (start : Program) :
    Reaches step (buildAccess ⟨kind, some field, some slot, holder⟩) before fun instruction after =>
      context.Makes frame (.single (kind.raw value index object)) instruction after ∧
        Draws frame start instruction after := by
  apply (reaches_buildAccess ?_).imp
  · rintro _ after - ⟨rfl, use, rfl, admitted, request⟩
    cases use
    cases request
    exact makes_single admitted (.access found held owned)
  · rintro _ ⟨⟩
    exact found.known

theorem reaches_buildSingle (raw : RawInstruction) :
    Reaches context.Learns (context.buildSingle frame raw) before fun instruction after =>
      context.Makes frame (.single raw) instruction after ∧ Draws frame before instruction after := by
  cases raw with
  | move =>
    exact slot_bind fun _ held => slot_bind fun _ read => .pure (makes_single trivial (.move held read))
  | arrayLength =>
    exact slot_bind fun _ held => slot_bind fun _ read => .pure (makes_single trivial (.arrayLength held read))
  | binary =>
    exact slot_bind fun _ held => slot_bind fun _ first => slot_bind fun _ second =>
      .pure (makes_single trivial (.binary held first second))
  | returnVoid => exact .pure (makes_single trivial .returnVoid)
  | returnValue => exact slot_bind fun _ read => .pure (makes_single trivial (.returnValue read))
  | throwValue => exact slot_bind fun _ read => .pure (makes_single trivial (.throwValue read))
  | goto position => exact .pure (makes_single trivial (.goto position))
  | ifCompare _ _ _ position =>
    exact slot_bind fun _ first => slot_bind fun _ second =>
      .pure (makes_single trivial (.ifCompare position first second))
  | ifZero _ _ position =>
    exact slot_bind fun _ first => .pure (makes_single trivial (.ifZero position first))
  | constInt dst value => exact slot_bind fun _ held => .pure (makes_single trivial (.const (.int dst value) held))
  | constWide dst value => exact slot_bind fun _ held => .pure (makes_single trivial (.const (.long dst value) held))
  | constFloat dst bits => exact slot_bind fun _ held => .pure (makes_single trivial (.const (.float dst bits) held))
  | constDouble dst bits => exact slot_bind fun _ held => .pure (makes_single trivial (.const (.double dst bits) held))
  | constNull dst => exact slot_bind fun _ held => .pure (makes_single trivial (.const (.null dst) held))
  | constText =>
    exact slot_bind fun _ held => text_bind fun _ read => .pure (makes_single trivial (.const (.text read) held))
  | constClass =>
    refine slot_bind fun _ held => (reaches_type _).bind fun _ _ _ found => .pure ?_
    exact makes_single found.known (.const (.classOf found) held)
  | newArray =>
    refine slot_bind fun _ held => slot_bind fun _ read => (reaches_type _).bind fun _ _ _ found => .pure ?_
    exact makes_single found.known (.newArray held read found)
  | checkCast =>
    refine slot_bind fun _ held => slot_bind fun _ read => (reaches_type _).bind fun _ _ _ found => .pure ?_
    exact makes_single found.known (.checkCast held read found)
  | instanceOf =>
    refine slot_bind fun _ held => slot_bind fun _ read => (reaches_type _).bind fun _ _ _ found => .pure ?_
    exact makes_single found.known (.instanceOf held read found)
  | instanceGet | instancePut =>
    refine (reaches_field _ _).bind fun _ _ _ found => ?_
    exact slot_bind fun _ held => slot_bind fun _ holder =>
      reaches_single_access found held (.some holder) before
  | staticGet | staticPut =>
    refine (reaches_field _ _).bind fun _ _ _ found => ?_
    exact slot_bind fun _ held => reaches_single_access found held .none before
  | nop | moveResult | newInstance | invoke => exact .throw

theorem reaches_buildUnit {unit : CodeUnit} (issued : ∀ slot ∈ frame.locals, slot.id < before.owners.size)
    (claimed : ∀ index arguments result, unit = .call .interface index arguments result →
      ∀ descriptor name signature, context.ReadsMethod index descriptor name signature →
        context.CallsThrough descriptor) :
    Reaches context.Learns (context.buildUnit frame unit) before fun instruction after =>
      context.Makes frame unit instruction after ∧ Draws frame before instruction after := by
  cases unit with
  | allocation => exact reaches_buildAllocation
  | call dispatch index arguments result =>
    refine reaches_buildInvoke issued ?_
    rintro rfl
    exact claimed index arguments result rfl
  | single raw => exact reaches_buildSingle raw

/-- Growth first, then any step of loading. -/
theorem learned_bind {edit : Edit α} {next : α → Edit β} {goal : α → Program → Prop}
    {last : β → Program → Prop} (first : Reaches context.Learns edit before goal)
    (second : ∀ value middle, Relation.ReflTransGen context.Learns before middle →
      goal value middle → Reaches context.Loads (next value) middle last) :
    Reaches context.Loads (edit >>= next) before last := by
  have both : Reaches context.Learns edit before fun value after =>
      Relation.ReflTransGen context.Learns before after ∧ goal value after :=
    first.imp fun _ _ moved met => ⟨moved, met⟩
  apply (both.mono fun _ _ => And.right).bind
  rintro value middle - ⟨moved, met⟩
  exact second value middle moved met

variable {held : List Local} {method : MethodId}

/-- The low registers get new locals of the kinds that their tags tell, one after the other. -/
theorem reaches_lowRegisters (sound : before.LocalsSound held) (tags : List UInt8) :
    Reaches context.Learns (tags.mapM fun tag => (ValueKind.ofTag? tag).mapM Edit.freshLocal) before
      fun placed after => after.LocalsSound (held ++ placed.filterMap id) ∧
        placed.map (Option.map Local.kind) = tags.map ValueKind.ofTag? ∧
        (placed.filterMap id).map Local.id = List.range' before.owners.size (placed.filterMap id).length := by
  induction tags generalizing before held with
  | nil => exact .pure ⟨by simpa using sound, rfl, rfl⟩
  | cons tag tags ih =>
    rw [List.mapM_cons]
    have first : Reaches context.Learns ((ValueKind.ofTag? tag).mapM Edit.freshLocal) before
        fun slot after => after.LocalsSound (held ++ slot.toList) ∧ slot.map Local.kind = ValueKind.ofTag? tag ∧
          slot.toList.map Local.id = List.range' before.owners.size slot.toList.length ∧
          after.owners.size = before.owners.size + slot.toList.length := by
      cases ValueKind.ofTag? tag with
      | none => exact .pure ⟨by simpa using sound, rfl, rfl, rfl⟩
      | some kind =>
        refine .map ((reaches_freshLocal learns_addLocal).imp ?_)
        rintro slot after - ⟨rfl, rfl⟩
        refine ⟨(sound.addLocal kind).hold ?_, rfl, rfl, by simp [addLocal]⟩
        intro slot member
        left
        simpa [or_comm] using member
    apply first.bind
    rintro slot middle - ⟨sound, kind, ids, size⟩
    apply (ih sound).bind
    rintro placed after - ⟨sound, kinds, others⟩
    have whole : (slot :: placed).filterMap id = slot.toList ++ placed.filterMap id := by cases slot <;> rfl
    refine .pure ⟨?_, by rw [List.map_cons, List.map_cons, kind, kinds], ?_⟩
    · rw [whole, ← List.append_assoc]
      exact sound
    · rw [whole, List.map_append, ids, others, size, List.range'_append_1, List.length_append]

/-- Opening a body and placing its locals touches no code. -/
theorem reaches_assignRegisters (sound : before.LocalsSound held) (code : CodeItem) :
    Reaches context.Loads (assignRegisters method code) before fun registers after =>
      after.LocalsSound (held ++ registers.toList.filterMap id) ∧ after.code = before.code ∧
        before.body? method = none ∧
        (∀ other, other ≠ method → after.body? other = before.body? other) ∧
        ∃ parameters, after.body? method = some ⟨parameters, parameters.toArray, #[]⟩ ∧
          code.Assigns parameters registers.toList := by
  have enter : ∀ {parameters}, Step before (before.addBody method parameters) →
      context.Loads before (before.addBody method parameters) := by
    intro parameters step
    exact .plain step (sameKeys_addBody _ _ _) ⟨rfl, rfl⟩ rfl
  apply (reaches_createBody enter).adapt.bind
  rintro parameters middle - ⟨rfl, declared, fresh, kinds, made⟩
  obtain ⟨access, declared⟩ := Option.isSome_iff_exists.mp declared
  have known := known_of_declaration declared
  have view := body?_addBody before known parameters
  have opened : (before.addBody method parameters).LocalsSound held := made ▸ sound.body known fresh kinds
  have old : ∀ slot ∈ parameters, slot.id < (before.addBody method parameters).owners.size := by
    intro slot member
    refine opened.issued (.inr ⟨method, _, (view method).trans (if_pos rfl), ?_⟩)
    exact List.mem_toArray.mpr member
  refine .get_bind ?_
  simp only
  split
  · exact .throw
  · rename_i placed rest found
    refine .refuse_bind ?_
    intro whole
    obtain rfl : rest = [] := by simpa using whole
    apply learned_bind (reaches_lowRegisters opened _)
    rintro low after moved ⟨sound, lowKinds, ids⟩
    have grown := Learns.growths moved
    have assigned : code.Assigns parameters (low ++ placed) :=
      .of_low lowKinds found (made ▸ nodup_newLocals before kinds) old ids
    refine .pure ⟨?_, grown.code, fresh, ?_, parameters, ?_, by simpa using assigned⟩
    · refine sound.hold ?_
      intro slot member
      rw [List.filterMap_append, placeParameters_eq_spread found, filterMap_spread, ← List.append_assoc,
        List.mem_append] at member
      rcases member with held | given
      · exact .inl held
      · refine .inr ⟨method, _, (grown.body? method).trans ((view method).trans (if_pos rfl)), ?_⟩
        exact List.mem_toArray.mpr given
    · intro other apart
      rw [grown.body?, view, if_neg apart]
    · rw [grown.body?, view, if_pos rfl]

/-- A body of which the first units have their instructions. -/
structure Underway (context : Context) (held : List Local) (frame : Frame) (method : MethodId)
    (parameters : List Local) (start : Program) (index : Nat) (program : Program) : Prop where
  locals : program.LocalsSound (held ++ frame.locals)
  first : frame.firstUnit.index = start.code.size
  size : program.code.size = start.code.size + frame.units.length
  body : ∃ locals,
    program.body? method = some ⟨parameters, locals, (handlesFrom frame.firstUnit index).toArray⟩
  others : ∀ other, other ≠ method → program.body? other = start.body? other
  slots : ∀ id, id.index < start.code.size ∨ start.code.size + index ≤ id.index →
    program.slot? id = start.slot? id
  made : ∀ place < index, ∀ entry, frame.units[place]? = some entry → ∃ instruction,
    program.slot? ⟨start.code.size + place⟩ = some ⟨method, instruction⟩ ∧
      context.Makes frame entry.2 instruction program

variable {parameters : List Local} {start : Program} {index : Nat}

theorem Underway.learns {after : Program} (underway : context.Underway held frame method parameters start index before)
    (moved : Relation.ReflTransGen context.Learns before after) :
    context.Underway held frame method parameters start index after := by
  have grown := Learns.growths moved
  have slots : after.slot? = before.slot? := by
    funext id
    rw [slot?, grown.code, slot?]
  refine ⟨underway.locals.growths grown, underway.first, ?_, ?_, ?_, ?_, ?_⟩
  · rw [grown.code, underway.size]
  · rw [grown.body?]
    exact underway.body
  · intro other apart
    rw [grown.body?, underway.others other apart]
  · rw [slots]
    exact underway.slots
  · intro place below entry found
    obtain ⟨instruction, attached, makes⟩ := underway.made place below entry found
    exact ⟨instruction, slots ▸ attached, makes.kept (Learns.loads moved)⟩

/-- The instructions of a body that is being filled come before the next place. -/
theorem Underway.latest (underway : context.Underway held frame method parameters start index before)
    {id : InstructionId} {slot : Slot} (attached : before.slot? id = some slot) :
    id.index < start.code.size + index := by
  by_contra beyond
  rw [underway.slots id (.inr (Nat.not_lt.mp beyond))] at attached
  have inside := slot?_lt attached
  omega

/-- The locals of a new instruction can be held. -/
theorem Draws.sound {instruction : Instruction} {after : Program}
    (draws : Draws frame before instruction after) (grown : Growths before after)
    (sound : before.LocalsSound held) (covers : ∀ slot ∈ frame.locals, slot ∈ held) :
    ∃ more, after.LocalsSound more ∧ (∀ slot ∈ held, slot ∈ more) ∧
      ∀ slot ∈ instruction.locals, slot ∈ more := by
  obtain ⟨_ | extra, new, uses⟩ := draws
  · refine ⟨held, sound.growths grown, fun _ => id, ?_⟩
    intro slot member
    rcases uses slot member with inside | taken
    · exact covers slot inside
    · cases taken
  · obtain ⟨low, high⟩ := new extra rfl
    refine ⟨extra :: held, (sound.growths grown).hold_new high ?_, ?_, ?_⟩
    · intro other shown
      have bound := sound.issued (shown.of_bodies fun method => by rw [grown.body?])
      omega
    · exact fun slot member => List.mem_cons_of_mem _ member
    · intro slot member
      rcases uses slot member with inside | taken
      · exact List.mem_cons_of_mem _ (covers slot inside)
      · rw [Option.mem_some_iff.mp taken]
        exact List.mem_cons_self

/-- The next unit is attached in its place. -/
theorem Underway.attach {unit : Nat × CodeUnit} {instruction : Instruction} {body : Body}
    {more : List Local} (underway : context.Underway held frame method parameters start index before)
    (listed : frame.units[index]? = some unit) (here : before.body? method = some body)
    (makes : context.Makes frame unit.2 instruction before)
    (sound : before.LocalsSound more) (covers : ∀ slot ∈ held ++ frame.locals, slot ∈ more)
    (uses : ∀ slot ∈ instruction.locals, slot ∈ more)
    (locals : before.checkLocals method instruction = .ok ())
    (moved : Relation.ReflTransGen context.Loads before
      (before.attach method body.instructions.size ⟨start.code.size + index⟩ instruction)) :
    context.Underway held frame method parameters start (index + 1)
      (before.attach method body.instructions.size ⟨start.code.size + index⟩ instruction) := by
  have inside : index < frame.units.length := (List.getElem?_eq_some_iff.mp listed).1
  have issued : start.code.size + index < before.code.size := by
    rw [underway.size]
    omega
  have view : ∀ other, (before.attach method body.instructions.size ⟨start.code.size + index⟩
      instruction).slot? other = _ := slot?_attach before issued
  obtain ⟨declared, opened⟩ := underway.body
  cases here.symm.trans opened
  refine ⟨?_, underway.first, ?_, ?_, ?_, ?_, ?_⟩
  · refine (sound.attach here issued locals fun slot member => .inl (uses slot member)).hold ?_
    exact fun slot member => .inl (covers slot member)
  · rw [size_attach, underway.size]
  · refine ⟨declared ++ (instruction.locals.foldl (claimLocal method) (before.owners, #[])).2, ?_⟩
    rw [body?_attach, if_pos rfl, here, Option.map_some, insertIdxIfInBounds_size, handlesFrom_succ,
      underway.first]
    simp
  · intro other apart
    rw [body?_attach, if_neg apart, underway.others other apart]
  · intro id range
    rw [view, if_neg, underway.slots id (by omega)]
    rintro rfl
    simp only at range
    omega
  · intro place below entry found
    by_cases last : place = index
    · subst last
      cases listed.symm.trans found
      exact ⟨instruction, (view _).trans (if_pos rfl), makes.kept moved⟩
    · obtain ⟨old, attached, made⟩ := underway.made place (by omega) entry found
      refine ⟨old, (view _).trans ((if_neg ?_).trans attached), made.kept moved⟩
      intro same
      have same := congrArg InstructionId.index same
      simp only at same
      omega

/-- Handles of interface calls in the code of the image. -/
theorem callsThrough_of_unit {code : CodeItem} (member : code ∈ context.image.codes)
    {unit : Nat × CodeUnit} (listed : unit ∈ CodeUnit.split 0 code.instructions.toList)
    (index : UInt32) (arguments : List UInt16) (result : Option UInt16)
    (same : unit.2 = .call .interface index arguments result) (descriptor : Descriptor)
    (name : String) (signature : Signature)
    (read : context.ReadsMethod index descriptor name signature) :
    context.CallsThrough descriptor := by
  obtain ⟨position, unit⟩ := unit
  cases same
  exact ⟨code, member, position, index, arguments, result, listed, name, signature, read⟩

theorem reaches_loadUnit {code : CodeItem} (member : code ∈ context.image.codes)
    (units : frame.units = CodeUnit.split 0 code.instructions.toList) {unit : Nat × CodeUnit}
    (listed : frame.units[index]? = some unit)
    (underway : context.Underway held frame method parameters start index before) :
    Reaches context.Loads (context.loadUnit frame method (unit, index)) before fun _ =>
      context.Underway held frame method parameters start (index + 1) := by
  have claimed := callsThrough_of_unit member (units ▸ List.mem_of_getElem? listed)
  have issued : ∀ slot ∈ frame.locals, slot.id < before.owners.size :=
    fun slot listed => underway.locals.issued (.inl (List.mem_append_right _ listed))
  apply learned_bind (reaches_buildUnit issued claimed)
  rintro instruction middle moved ⟨makes, draws⟩
  obtain ⟨more, sound, covers, uses⟩ := draws.sound (Learns.growths moved) underway.locals
    fun slot member => List.mem_append_right _ member
  have underway := underway.learns moved
  have inside : index < frame.units.length := (List.getElem?_eq_some_iff.mp listed).1
  have issued : start.code.size + index < middle.code.size := by
    rw [underway.size]
    omega
  have vacant : middle.slot? ⟨start.code.size + index⟩ = none := by
    cases attached : middle.slot? ⟨start.code.size + index⟩ with
    | none => rfl
    | some slot => exact absurd (underway.latest attached) (lt_irrefl _)
  have join : ∀ {body}, middle.body? method = some body →
      middle.checkLocals method instruction = .ok () → middle.Fits instruction →
      context.Loads middle
        (middle.attach method body.instructions.size ⟨start.code.size + index⟩ instruction) := by
    intro body here locals fits
    have step := Step.attach ⟨start.code.size + index⟩ here le_rfl issued
      (fun _ _ attached => underway.latest attached) makes.admitted fits locals
    exact .attach step issued vacant makes.admitted makes.means.marked
      fun _ _ same => Means.text (same ▸ makes.means)
  rw [underway.first]
  apply (reaches_appendReserved join).imp
  rintro _ after moved ⟨body, here, locals, rfl⟩
  exact underway.attach listed here makes sound covers uses locals moved

theorem reaches_units {code : CodeItem} (member : code ∈ context.image.codes)
    (units : frame.units = CodeUnit.split 0 code.instructions.toList)
    {rest : List (Nat × CodeUnit)} (suffix : frame.units.drop index = rest)
    (underway : context.Underway held frame method parameters start index before) :
    Reaches context.Loads ((rest.zipIdx index).forM (context.loadUnit frame method)) before fun _ =>
      context.Underway held frame method parameters start (index + rest.length) := by
  induction rest generalizing index before with
  | nil => exact .pure underway
  | cons unit rest ih =>
    have listed : frame.units[index]? = some unit := by
      rw [← List.head?_drop, suffix, List.head?_cons]
    have later : frame.units.drop (index + 1) = rest := by
      rw [← List.tail_drop, suffix, List.tail_cons]
    apply (reaches_loadUnit member units listed underway).bind
    intro _ middle _ underway
    apply (ih later underway).imp
    intro _ after _ filled
    rw [List.length_cons, Nat.add_comm rest.length, ← Nat.add_assoc]
    exact filled

/-- The code of a method has become its body, which it did not have before. -/
def Fills (context : Context) (method : MethodId) (code : CodeItem) (before after : Program) : Prop :=
  ∃ held frame parameters, frame.units = CodeUnit.split 0 code.instructions.toList ∧
    code.Assigns parameters frame.registers.toList ∧ before.body? method = none ∧
    context.Underway held frame method parameters before frame.units.length after

theorem reaches_loadBody {code : CodeItem} (member : code ∈ context.image.codes)
    (sound : before.LocalsSound held) :
    Reaches context.Loads (context.loadBody method code) before fun _ after =>
      after.LocalsSound held ∧ context.Fills method code before after := by
  apply (reaches_assignRegisters sound code).bind
  rintro registers middle - ⟨sound, same, fresh, others, parameters, opened, assigned⟩
  have issued : Reaches context.Loads (reserve (CodeUnit.split 0 code.instructions.toList).length)
      middle fun first after => first.index = middle.code.size ∧
        after = middle.addHandles (CodeUnit.split 0 code.instructions.toList).length := by
    have keys := sameKeys_addHandles middle (CodeUnit.split 0 code.instructions.toList).length
    refine .leave (fun indexed => indexed.of_sameKeys keys)
      (.single (.plain .handles keys ⟨rfl, rfl⟩ (slot?_addHandles _ _))) ?_
    intro first found
    cases found
    exact ⟨rfl, rfl⟩
  apply issued.bind
  rintro first after - ⟨place, rfl⟩
  have slots : middle.slot? = before.slot? := by
    funext id
    rw [slot?, same, slot?]
  have empty : context.Underway held
      ⟨registers, CodeUnit.split 0 code.instructions.toList, first⟩ method parameters before 0
      (middle.addHandles (CodeUnit.split 0 code.instructions.toList).length) := by
    refine ⟨sound.handles _, ?_, ?_, ⟨parameters.toArray, opened⟩, others, ?_, ?_⟩
    · rw [place, same]
    · rw [size_addHandles, same]
    · intro id _
      rw [slot?_addHandles, slots]
    · exact fun place below => absurd below (Nat.not_lt_zero _)
  apply (reaches_units member rfl List.drop_zero empty).imp
  intro _ after _ filled
  rw [Nat.zero_add] at filled
  refine ⟨filled.locals.hold ?_, held, _, parameters, rfl, assigned, fresh, filled⟩
  exact fun slot known => .inl (List.mem_append_left _ known)

/-- Steps of loading that leave bodies, their code and their locals alone. -/
structure Declares (context : Context) (before after : Program) : Prop where
  loads : context.Loads before after
  code : after.code = before.code
  owners : after.owners = before.owners
  bodies : after.body? = before.body?

section Declares

variable {after : Program} (moved : Relation.ReflTransGen context.Declares before after)

include moved

theorem Declares.all_loads : Relation.ReflTransGen context.Loads before after :=
  Relation.ReflTransGen.mono (fun _ _ => Declares.loads) _ _ moved

theorem Declares.extends : before.Extends after := (Loads.steps (Declares.all_loads moved)).extends

theorem Declares.all_kept :
    after.code = before.code ∧ after.owners = before.owners ∧ after.body? = before.body? := by
  induction moved with
  | refl => exact ⟨rfl, rfl, rfl⟩
  | tail _ declares ih =>
    exact ⟨declares.code.trans ih.1, declares.owners.trans ih.2.1, declares.bodies.trans ih.2.2⟩

theorem Declares.locals (sound : before.LocalsSound held) : after.LocalsSound held := by
  induction moved with
  | refl => exact sound
  | tail _ declares ih => exact ih.quiet declares.loads.step declares.code

end Declares

theorem reaches_declares {edit : Edit α} {goal : α → Program → Prop}
    (reached : Reaches context.Looks edit before goal) : Reaches context.Declares edit before goal :=
  reached.mono fun _ _ looks => ⟨looks.1.2, looks.1.1.code, looks.2, funext looks.1.1.body?⟩

/-- A class of the image has become a definition, with its flags and the interfaces that it lists. -/
def Defines (context : Context) (definition : ClassDef) (program : Program) : Prop :=
  ∃ type header, program.header? type = some header ∧ context.FindsType definition.type type program ∧
    header.access = definition.access ∧
    List.Forall₂ (fun index type => ∃ descriptor, context.Reads index descriptor ∧
      program.descriptor? type = some descriptor) definition.interfaces header.interfaces

theorem Defines.kept {definition : ClassDef} {after : Program}
    (defines : context.Defines definition before)
    (moved : Relation.ReflTransGen context.Loads before after) : context.Defines definition after := by
  obtain ⟨type, header, defined, named, access, interfaces⟩ := defines
  refine ⟨type, header, ?_, named.kept (Loads.steps moved), access, interfaces.imp ?_⟩
  · induction moved with
    | refl => exact defined
    | tail _ loads ih => exact loads.header_kept ih
  · rintro index type ⟨descriptor, read, known⟩
    exact ⟨descriptor, read, (Loads.steps moved).extends.types known⟩

/-- The interfaces of a class are known as such before the class is defined. -/
theorem reaches_interfaces {definition : ClassDef} (member : definition ∈ context.image.classes) :
    Reaches context.Declares (definition.interfaces.mapM context.interface) before
      fun types after => List.Forall₂ (fun index type => after.Noted type ∧
        ∃ descriptor, context.Reads index descriptor ∧ after.descriptor? type = some descriptor)
        definition.interfaces types := by
  apply Reaches.mapM
  · rintro index type middle after moved ⟨noted, descriptor, read, known⟩
    exact ⟨Loads.noted_kept (Declares.all_loads moved) noted, descriptor, read,
      (Declares.extends moved).types known⟩
  · intro index listed middle _
    apply (reaches_declares (looks_interface ?_)).imp
    · rintro type after - ⟨-, noted, found⟩
      exact ⟨noted, found⟩
    · intro descriptor read
      exact ⟨definition, member, index, listed, read⟩

theorem reaches_known (index : UInt32) :
    Reaches context.Declares (context.type index) before fun id after => (after.descriptor? id).isSome := by
  apply (reaches_declares (looks_type index)).imp
  rintro id after - ⟨descriptor, -, found⟩
  rw [found]
  rfl

theorem reaches_source (index : Option UInt32) :
    Reaches context.Declares (index.mapM context.text) before fun source after => after = before ∧
      ∀ text, source = some text → ∃ index, context.image.pool.text? index = some text := by
  cases index with
  | none => exact .pure ⟨rfl, by simp⟩
  | some index =>
    rw [Option.mapM_some, ← bind_pure_comp]
    apply text_bind
    intro text found
    refine .pure ⟨rfl, ?_⟩
    rintro _ ⟨⟩
    exact ⟨index, found⟩

theorem reaches_defineClass {definition : ClassDef} (member : definition ∈ context.image.classes) :
    Reaches context.Declares (context.defineClass definition) before fun id after =>
      (∃ descriptor, context.Reads definition.type descriptor ∧
        after.descriptor? id = some descriptor) ∧ context.Defines definition after := by
  apply descriptor_bind
  intro descriptor read
  apply (Reaches.optional fun index _ => reaches_known index).bind
  intro superclass first _ above
  apply (reaches_interfaces member).bind
  intro interfaces middle moved all
  apply (reaches_source definition.source).bind
  rintro source middle - ⟨rfl, named⟩
  have noted : ∀ type ∈ interfaces, middle.Noted type ∧ (middle.descriptor? type).isSome := by
    intro type listed
    obtain ⟨index, -, noted, descriptor, -, known⟩ := forall₂_exists_left all listed
    exact ⟨noted, by rw [known]; rfl⟩
  have known : middle.Knows ⟨definition.access, superclass, interfaces, source⟩ := by
    refine ⟨?_, fun type listed => (noted type listed).2⟩
    exact fun type here => (Declares.extends moved).knows (above type here)
  have add : Growth middle (middle.addType descriptor) →
      context.Declares middle (middle.addType descriptor) :=
    fun growth => ⟨.type growth read, rfl, rfl, rfl⟩
  have define : ∀ {last id}, Relation.ReflTransGen context.Declares middle last →
      last.descriptor? id = some descriptor → ¬(last.typeAt id).isDefined →
      Step last (last.addDefinition id ⟨definition.access, superclass, interfaces, source⟩) →
      context.Declares last
        (last.addDefinition id ⟨definition.access, superclass, interfaces, source⟩) := by
    intro last id moved found external step
    refine ⟨.define step (by rw [found]; rfl) external member all.length_eq.symm ?_ named, rfl, rfl, rfl⟩
    exact fun type listed => Loads.noted_kept (Declares.all_loads moved) (noted type listed).1
  apply (reaches_define known add define).adapt.imp
  rintro id after moved ⟨found, last, -, there, rfl⟩
  refine ⟨⟨descriptor, read, found⟩, id,
    ⟨definition.access, superclass, interfaces, source⟩, ?_, ⟨descriptor, read, found⟩, rfl, all.imp ?_⟩
  · rw [header?_addDefinition _ (by rw [there]; rfl), if_pos rfl]
  · rintro index type ⟨-, descriptor, read, named⟩
    exact ⟨descriptor, read, (Declares.extends moved).types named⟩

theorem declares_mark (symbol : Symbol) (static : Bool)
    (growth : Growth before (before.setMarker symbol static)) :
    context.Declares before (before.setMarker symbol static) := by
  have looks : context.Looks before (before.setMarker symbol static) := looks_mark symbol static growth
  exact ⟨looks.1.2, growth.code, looks.2, funext growth.body?⟩

theorem reaches_declareField {owner : TypeId} {type : UInt32} {descriptor : Descriptor}
    {field : FieldDef} (known : before.descriptor? owner = some descriptor)
    (read : context.Reads type descriptor)
    (owned : (context.image.pool.field? field.field).map (·.owner) = some type) :
    Reaches context.Declares (context.declareField owner field) before fun _ after =>
      after.descriptor? owner = some descriptor := by
  apply (reaches_declares (looks_fieldKey _)).bind
  rintro ⟨_, name, held⟩ middle moved ⟨_, -, named⟩
  have known := (Declares.extends moved).types known
  have add : ∀ static, Growth middle (middle.addField owner name held (some static)) →
      context.Declares middle (middle.addField owner name held (some static)) :=
    fun static growth => ⟨.field growth known (named.owned owned read), rfl, rfl, rfl⟩
  have declare : ∀ {last id}, Step last (last.listField owner id field.access) →
      context.Declares last (last.listField owner id field.access) := by
    intro last id step
    have keys := sameKeys_listField last owner id field.access
    exact ⟨.plain step keys (sameStatuses_listField _ _ _ _) rfl, rfl, rfl, rfl⟩
  apply (Edit.reaches_declareField (by rw [known]; rfl) (add _) declares_mark declare).adapt.bind
  intro _ after moved _
  exact .pure ((Declares.extends moved).types known)

theorem reaches_declareMethod {owner : TypeId} {type : UInt32} {descriptor : Descriptor}
    {method : MethodDef} (known : before.descriptor? owner = some descriptor)
    (read : context.Reads type descriptor)
    (owned : (context.image.pool.method? method.method).map (·.owner) = some type) :
    Reaches context.Declares (context.declareMethod owner method) before fun coded after =>
      ∃ id, coded = method.code.toList.map (id, ·) ∧ context.NamesMethod method.method id after := by
  apply (reaches_declares (looks_methodKey _)).bind
  rintro ⟨_, name, signature⟩ middle moved ⟨_, -, named⟩
  have known := (Declares.extends moved).types known
  have add : ∀ static, Growth middle (middle.addMethod owner name signature (some static)) →
      context.Declares middle (middle.addMethod owner name signature (some static)) :=
    fun static growth => ⟨.method growth known (named.owned owned read), rfl, rfl, funext growth.body?⟩
  have declare : ∀ {last id}, Step last (last.listMethod owner id method.access) →
      context.Declares last (last.listMethod owner id method.access) := by
    intro last id step
    have keys := sameKeys_listMethod last owner id method.access
    exact ⟨.plain step keys (sameStatuses_listMethod _ _ _ _) rfl, rfl, rfl, body?_listMethod _ _ _ _⟩
  apply (Edit.reaches_declareMethod (by rw [known]; rfl) (add _) declares_mark declare).adapt.bind
  intro id after moved key
  have known := (Declares.extends moved).types known
  exact .pure ⟨id, rfl, owner, descriptor, name, signature, key, known, named.owned owned read⟩

/-- The methods of a class are declared, and their codes are listed with them. -/
def Coded (context : Context) (definition : ClassDef) (coded : List (MethodId × CodeItem))
    (program : Program) : Prop :=
  ∀ method ∈ definition.methods, ∃ id, context.NamesMethod method.method id program ∧
    ∀ code ∈ method.code, (id, code) ∈ coded

theorem Coded.kept {definition : ClassDef} {coded more : List (MethodId × CodeItem)} {after : Program}
    (listed : context.Coded definition coded before) (steps : Steps before after)
    (within : coded ⊆ more) : context.Coded definition more after := by
  intro method member
  obtain ⟨id, named, codes⟩ := listed method member
  exact ⟨id, named.kept steps, fun code here => within (codes code here)⟩

/-- Every code that is listed is that of a method of the image. -/
def Sourced (context : Context) (coded : List (MethodId × CodeItem)) (program : Program) : Prop :=
  ∀ entry ∈ coded, ∃ definition ∈ context.image.classes, ∃ method ∈ definition.methods,
    entry.2 ∈ method.code ∧ context.NamesMethod method.method entry.1 program

theorem Sourced.kept {coded : List (MethodId × CodeItem)} {after : Program}
    (sourced : context.Sourced coded before) (steps : Steps before after) : context.Sourced coded after := by
  intro entry member
  obtain ⟨definition, written, method, listed, code, named⟩ := sourced entry member
  exact ⟨definition, written, method, listed, code, named.kept steps⟩

theorem reaches_declareClass {definition : ClassDef} (member : definition ∈ context.image.classes)
    (verified : definition.Verified context.image.pool) :
    Reaches context.Declares (context.declareClass definition) before fun coded after =>
      context.Defines definition after ∧ context.Coded definition coded after ∧
        context.Sourced coded after := by
  apply (reaches_defineClass member).bind
  rintro owner middle - ⟨⟨descriptor, read, known⟩, defines⟩
  apply (Reaches.forM known fun field listed _ _ known =>
    reaches_declareField known read (verified.fields field listed).2).bind
  intro _ later moved known
  have defines := defines.kept (Declares.all_loads moved)
  have listed : Reaches context.Declares (definition.methods.mapM (context.declareMethod owner)) later
      fun values after => List.Forall₂ (fun method coded =>
        ∃ id, coded = method.code.toList.map (id, ·) ∧ context.NamesMethod method.method id after)
        definition.methods values := by
    apply Reaches.mapM
    · rintro _ _ _ _ moved ⟨id, same, named⟩
      exact ⟨id, same, named.kept (Loads.steps (Declares.all_loads moved))⟩
    · intro method listed last moved
      exact reaches_declareMethod ((Declares.extends moved).types known) read
        (verified.methods method listed).2.1
  apply listed.bind
  intro coded last moved all
  refine .pure ⟨defines.kept (Declares.all_loads moved), ?_, ?_⟩
  · intro method member
    obtain ⟨_, inside, id, rfl, named⟩ := forall₂_exists_right all member
    refine ⟨id, named, fun code here => ?_⟩
    exact List.mem_flatten_of_mem inside (List.mem_map_of_mem (Option.mem_toList.mpr here))
  · intro entry listed
    obtain ⟨_, inside, within⟩ := List.mem_flatten.mp listed
    obtain ⟨method, written, id, rfl, named⟩ := forall₂_exists_left all inside
    obtain ⟨code, here, rfl⟩ := List.mem_map.mp within
    exact ⟨definition, member, method, written, Option.mem_toList.mp here, named⟩

/-- Codes become bodies, one after the other. -/
inductive Bodies (context : Context) : List (MethodId × CodeItem) → Program → Program → Prop
  | nil {program : Program} : Bodies context [] program program
  | cons {method : MethodId} {code : CodeItem} {rest : List (MethodId × CodeItem)}
      {first second third : Program} (fills : context.Fills method code first second)
      (moved : Relation.ReflTransGen context.Loads first second)
      (others : Bodies context rest second third) :
      Bodies context ((method, code) :: rest) first third

theorem reaches_bodies {coded : List (MethodId × CodeItem)}
    (members : ∀ entry ∈ coded, entry.2 ∈ context.image.codes) (sound : before.LocalsSound held) :
    Reaches context.Loads (coded.forM fun (method, code) =>
      ExceptT.adapt Fault.blameImage (context.loadBody method code)) before fun _ after =>
        after.LocalsSound held ∧ context.Bodies coded before after := by
  induction coded generalizing before with
  | nil => exact .pure ⟨sound, .nil⟩
  | cons entry rest ih =>
    obtain ⟨method, code⟩ := entry
    rw [List.forall_mem_cons] at members
    change Reaches context.Loads (ExceptT.adapt Fault.blameImage (context.loadBody method code) >>= _)
      before _
    apply (reaches_loadBody members.1 sound).adapt.bind
    rintro _ middle moved ⟨sound, fills⟩
    apply (ih members.2 sound).imp
    rintro _ after - ⟨sound, others⟩
    exact ⟨sound, .cons fills moved others⟩

/-- All classes are declared first, and then all codes become bodies. -/
def Loaded (context : Context) (before after : Program) : Prop :=
  ∃ coded middle, Relation.ReflTransGen context.Declares before middle ∧
    (∀ definition ∈ context.image.classes,
      context.Defines definition middle ∧ context.Coded definition coded middle) ∧
    context.Sourced coded middle ∧ coded.map Prod.snd = context.image.codes ∧
    context.Bodies coded middle after

/-- Whatever the program was, the codes that are listed while classes are declared are those of the image. -/
theorem codes_of_declared {coded : List (List (MethodId × CodeItem))} {after : Program}
    (ran : outcome (context.image.classes.mapM context.declareClass) before = (.ok coded, after)) :
    coded.flatten.map Prod.snd = context.image.codes := by
  refine flatten_of_forall₂ (outcome_mapM_ok ?_ ran)
  intro definition _ start listed later declared
  obtain ⟨owner, _, -, declared⟩ := outcome_bind_ok.mp declared
  obtain ⟨_, _, -, declared⟩ := outcome_bind_ok.mp declared
  obtain ⟨coded, _, methods, done⟩ := outcome_bind_ok.mp declared
  cases done
  refine flatten_of_forall₂ (outcome_mapM_ok ?_ methods)
  intro method _ start listed later declared
  obtain ⟨_, _, -, declared⟩ := outcome_bind_ok.mp declared
  obtain ⟨id, _, -, done⟩ := outcome_bind_ok.mp declared
  cases done
  rw [List.map_map]
  exact List.map_id _

theorem reaches_declareClasses
    (verified : ∀ definition ∈ context.image.classes, definition.Verified context.image.pool) :
    Reaches context.Declares (context.image.classes.mapM context.declareClass) before
      fun coded after => coded.flatten.map Prod.snd = context.image.codes ∧
        (∀ definition ∈ context.image.classes,
          context.Defines definition after ∧ context.Coded definition coded.flatten after) ∧
        context.Sourced coded.flatten after := by
  have listed : Reaches context.Declares (context.image.classes.mapM context.declareClass) before
      fun coded after => List.Forall₂ (fun definition coded => context.Defines definition after ∧
        context.Coded definition coded after ∧ context.Sourced coded after) context.image.classes coded := by
    apply Reaches.mapM
    · rintro definition coded middle after moved ⟨defines, listed, sourced⟩
      have loads := Declares.all_loads moved
      exact ⟨defines.kept loads, listed.kept (Loads.steps loads) (List.Subset.refl _),
        sourced.kept (Loads.steps loads)⟩
    · intro definition member middle _
      exact reaches_declareClass member (verified definition member)
  apply listed.with_ran.imp
  rintro coded after - ⟨ran, all⟩
  refine ⟨codes_of_declared ran, ?_, ?_⟩
  · intro definition member
    obtain ⟨_, inside, defines, listed, -⟩ := forall₂_exists_right all member
    exact ⟨defines, listed.kept .refl fun _ => List.mem_flatten_of_mem inside⟩
  · intro entry member
    obtain ⟨_, inside, within⟩ := List.mem_flatten.mp member
    obtain ⟨_, -, -, -, sourced⟩ := forall₂_exists_left all inside
    exact sourced entry within

theorem reaches_load
    (verified : ∀ definition ∈ context.image.classes, definition.Verified context.image.pool)
    (sound : before.LocalsSound held) :
    Reaches context.Loads context.load before fun _ after =>
      after.LocalsSound held ∧ context.Loaded before after := by
  have listed := @reaches_declareClasses context before verified
  have declared := (listed.imp fun coded after moved all => And.intro moved all).mono
    fun _ _ => Declares.loads
  apply declared.bind
  rintro coded middle - ⟨moved, codes, defines, sourced⟩
  have members : ∀ entry ∈ coded.flatten, entry.2 ∈ context.image.codes := by
    intro entry member
    rw [← codes]
    exact List.mem_map_of_mem member
  apply (reaches_bodies members (Declares.locals moved sound)).imp
  rintro _ after - ⟨sound, bodies⟩
  exact ⟨sound, coded.flatten, middle, moved, defines, sourced, codes, bodies⟩

end Context

end Loading

/-- An image is loaded as a whole, or nothing changes. -/
theorem Edit.addImage_cases (image : Image) (before : Program) :
    (outcome (addImage image) before).2 = before ∨
      image.verify = .ok () ∧ outcome (Loading.Context.mk image before).load before =
        (.ok (), (outcome (addImage image) before).2) := by
  unfold outcome addImage
  split
  · exact .inl rfl
  · rename_i verified
    split
    · exact .inl rfl
    · split
      · rename_i after loaded
        exact .inr ⟨verified, loaded⟩
      · exact .inl rfl

/-- What an image has passed when it is added. -/
theorem Edit.addImage_ok {image : Image} {before after : Program} :
    addImage image before = (.ok (), after) ↔ image.verify = .ok () ∧
      Loading.checkDuplicates before image.pool [] image.classes = .ok () ∧
      outcome (Loading.Context.mk image before).load before = (.ok (), after) := by
  constructor
  · intro added
    unfold addImage at added
    split at added
    · cases added
    · rename_i verified
      split at added
      · cases added
      · rename_i distinct
        split at added
        · rename_i loaded
          cases added
          exact ⟨verified, distinct, loaded⟩
        · cases added
  · rintro ⟨verified, distinct, loaded⟩
    unfold outcome at loaded
    simp only [addImage, verified, distinct, loaded]

/-- What a client holds before an image is loaded stays sound. -/
theorem Edit.addImage_loaded {image : Image} {before : Program} {held : List Local}
    (indexed : before.Indexed) (sound : before.LocalsSound held) :
    (outcome (addImage image) before).2 = before ∨
      image.verify = .ok () ∧ (outcome (addImage image) before).2.LocalsSound held ∧
        Relation.ReflTransGen (Loading.Context.mk image before).Loads before
          (outcome (addImage image) before).2 ∧
        (Loading.Context.mk image before).Loaded before (outcome (addImage image) before).2 := by
  rcases addImage_cases image before with same | ⟨verified, loaded⟩
  · exact .inl same
  · have reached := @Loading.Context.reaches_load ⟨image, before⟩ before held
      (Image.verify_ok.mp verified).2 sound
    obtain ⟨moved, sound, loads⟩ := reached.ran indexed loaded
    exact .inr ⟨verified, sound, moved, loads⟩

end ClassImage
