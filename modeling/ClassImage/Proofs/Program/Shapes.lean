import ClassImage.Proofs.Program.Faults

/-!
The shape of a call, operand by operand: one for the receiver, unless the call has
none, and one for each parameter. The operands of a call that was built are laid
out so. Whether an instruction joins a body is asked once more, by another check,
which goes by the marker alone; it asks for nothing that building did not ask for.
What was built for a program can therefore be appended to any body of it, unless a
local of another body is in the way.
-/

namespace ClassImage

/-- No operand is a receiver. The one of a constructor is the result of the call, and otherwise the
number of operands tells. -/
def Call.Bare (call : Call) (signature : Signature) : Prop :=
  call.kind = .construct ∨ call.kind = .normal ∧ call.arguments.length = signature.arity

instance (call : Call) (signature : Signature) : Decidable (call.Bare signature) :=
  inferInstanceAs (Decidable (_ ∨ _))

/-- A call has the operands that its method takes, each of a kind that fits, and the result that the
method produces. -/
structure Call.Agrees (call : Call) (entry : MethodEntry) : Prop where
  operands : ∃ kinds, entry.signature.parameters.map Descriptor.kind? = kinds.map some ∧
    List.Forall₂ (fun operand kind => operand.kind.fits kind) call.arguments
      (if call.Bare entry.signature then kinds else .reference :: kinds)
  result : ResultFits (if call.kind = .construct then some .reference else entry.signature.result.kind?)
    call.result
  constructor : call.kind = .construct → entry.isConstructor ∧ entry.signature.result.isVoid

namespace Signature

variable {signature : Signature}

theorem parameterKinds_of_map {kinds : List ValueKind}
    (typed : signature.parameters.map Descriptor.kind? = kinds.map some) :
    signature.parameterKinds = kinds := by
  have valued := congrArg (List.filterMap id) typed
  rwa [List.filterMap_map, List.filterMap_map, Function.id_comp, Function.id_comp, List.filterMap_some] at valued

/-- Every parameter but a `void` one has a kind. -/
theorem map_kind? (typed : Descriptor.void ∉ signature.parameters) :
    signature.parameters.map Descriptor.kind? = signature.parameterKinds.map some := by
  have valued : ∀ descriptor ∈ signature.parameters, ∃ kind, descriptor.kind? = some kind := by
    intro descriptor member
    cases descriptor with
    | void => exact absurd member typed
    | _ => exact ⟨_, rfl⟩
  rw [parameterKinds]
  generalize signature.parameters = parameters at valued
  induction parameters with
  | nil => rfl
  | cons descriptor rest ih =>
    rw [List.forall_mem_cons] at valued
    obtain ⟨⟨kind, found⟩, others⟩ := valued
    rw [List.map_cons, List.filterMap_cons_some found, List.map_cons, found, ih others]

theorem length_parameterKinds (typed : Descriptor.void ∉ signature.parameters) :
    signature.parameterKinds.length = signature.arity := by
  have lengths := congrArg List.length (map_kind? typed)
  rw [List.length_map, List.length_map] at lengths
  exact lengths.symm

end Signature

theorem forall₂_iff_kindsFit {operands : List Local} {kinds : List ValueKind} :
    List.Forall₂ (fun operand kind => operand.kind.fits kind) operands kinds ↔
      operands.length = kinds.length ∧ KindsFit operands kinds := by
  rw [List.forall₂_iff_zip, KindsFit, Prod.forall]

namespace Call

variable {call : Call} {entry : MethodEntry}

/-- In a call with the right number of operands, there are as many as parameters exactly if none of
them is a receiver. -/
theorem Suits.bare_iff (suits : call.Suits entry.name entry.signature) :
    call.Bare entry.signature ↔ call.arguments.length = entry.signature.arity := by
  rw [Bare]
  cases kind : call.kind with
  | normal => simp
  | special =>
    have bound := suits.special kind
    simp only [reduceCtorEq, false_and, or_self, false_iff]
    omega
  | construct => simpa using (suits.constructor kind).2.2

/-- Without `void` parameters, suiting a method is to agree with it operand by operand. -/
theorem agrees_iff_suits (typed : Descriptor.void ∉ entry.signature.parameters) :
    call.Agrees entry ↔ call.Suits entry.name entry.signature := by
  have arity := Signature.length_parameterKinds typed
  constructor
  · rintro ⟨⟨kinds, listed, each⟩, result, constructor⟩
    obtain rfl := Signature.parameterKinds_of_map listed
    obtain ⟨length, fits⟩ := forall₂_iff_kindsFit.mp each
    by_cases bare : call.Bare entry.signature
    · rw [if_pos bare, arity] at length
      rw [if_pos bare] at fits
      refine ⟨?_, ?_, .inl length, ?_, result⟩
      · exact fun kind => ⟨of_decide_eq_true (constructor kind).1, (constructor kind).2, length⟩
      · rcases bare with kind | ⟨kind, -⟩ <;> simp [kind]
      · rwa [if_neg (by omega), List.nil_append]
    · rw [if_neg bare, List.length_cons, arity] at length
      rw [if_neg bare] at fits
      refine ⟨?_, fun _ => length, .inr length, ?_, result⟩
      · exact fun kind => absurd (.inl kind) bare
      · rwa [if_pos length, List.singleton_append]
  · intro suits
    refine ⟨⟨_, Signature.map_kind? typed, forall₂_iff_kindsFit.mpr ?_⟩, suits.result, ?_⟩
    · have fits := suits.operands
      by_cases bare : call.Bare entry.signature
      · have length := suits.bare_iff.mp bare
        rw [if_neg (by omega), List.nil_append] at fits
        rw [if_pos bare, arity]
        exact ⟨length, fits⟩
      · have length := suits.count.resolve_left (mt suits.bare_iff.mpr bare)
        rw [if_pos length, List.singleton_append] at fits
        rw [if_neg bare, List.length_cons, arity]
        exact ⟨length, fits⟩
    · intro kind
      exact ⟨decide_eq_true (suits.constructor kind).1, (suits.constructor kind).2.1⟩

end Call

namespace Program

/-- An instruction that was built for the program. -/
inductive Built (program : Program) : Instruction → Prop
  | call {request : CallRequest} {call : Call} (done : request.build program = .ok call) :
      Built program (.invoke call)
  | access {request : AccessRequest} {use : FieldAccess} (done : request.build program = .ok use) :
      Built program (.access use)

/-- What appending an instruction to a method comes to, if only the locals are to be checked. -/
inductive Appending (program : Program) (holder : MethodId) (instruction : Instruction) :
    Except Fault InstructionId × Program → Prop
  | bodyless (absent : program.body? holder = none) :
      Appending program holder instruction
        (.error (.flaw (.notLocal (.code (program.methodText holder)))), program)
  | foreign {slot : Local} {owner : MethodId} (present : (program.body? holder).isSome)
      (used : slot ∈ instruction.locals) (owned : program.owner? slot = some owner)
      (other : owner ≠ holder) :
      Appending program holder instruction (.error (.flaw (.foreignLocal slot)), program)
  | joined {body : Body} (present : program.body? holder = some body)
      (own : ∀ slot ∈ instruction.locals, ∀ owner, program.owner? slot = some owner → owner = holder) :
      Appending program holder instruction (.ok ⟨program.code.size⟩,
        (program.addHandles 1).attach holder body.instructions.size ⟨program.code.size⟩ instruction)

variable {program : Program} {holder : MethodId} {instruction : Instruction}

/-- A marker that building allowed is the one that the instruction implies. -/
theorem Built.checkShape (built : program.Built instruction) :
    program.checkShape none instruction = .ok () := by
  rw [checkShape_ok]
  cases built with
  | @call request call done =>
    obtain ⟨-, -, -, implied⟩ := CallRequest.build_ok.mp done
    rw [memberShape?_invoke]
    rintro _ _ ⟨⟩
    exact implied
  | @access request use done =>
    obtain ⟨-, -, implied⟩ := AccessRequest.build_ok.mp done
    rintro _ _ ⟨⟩
    exact implied

theorem Built.checkTarget (built : program.Built instruction) :
    program.checkTarget holder instruction = .ok () := by
  cases built <;> rfl

/-- Locals are refused only for having another owner. -/
theorem foreign_checkLocals (program : Program) (holder : MethodId) (instruction : Instruction) :
    FailsWith (fun fault => ∃ slot ∈ instruction.locals, ∃ owner, program.owner? slot = some owner ∧
      owner ≠ holder ∧ fault = .flaw (.foreignLocal slot)) (program.checkLocals holder instruction) := by
  refine .forM fun slot used => ?_
  split
  · rename_i owner owned
    split
    · exact .ok
    · rename_i other
      exact .error ⟨slot, used, owner, owned, other, rfl⟩
  · exact .ok

/-- What was built can join any body, locals allowing. -/
theorem Built.appending (built : program.Built instruction) (holder : MethodId) :
    program.Appending holder instruction ((Edit.append holder instruction).run program) := by
  change program.Appending holder instruction (outcome (Edit.append holder instruction) program)
  have counted : outcome (Edit.check (·.bodyLength holder)) program = (program.bodyLength holder, program) := rfl
  have checked : outcome (Edit.check (·.checkInstruction holder instruction)) program =
      (program.checkInstruction holder instruction, program) := rfl
  rw [Edit.append, outcome_bind, counted]
  cases present : program.body? holder with
  | none =>
    simp only [bodyLength, present]
    exact .bodyless present
  | some body =>
    have length : program.bodyLength holder = .ok body.instructions.size := by
      simp only [bodyLength, present]
    rw [length]
    simp only
    rw [Edit.insert, outcome_bind, checked, checkInstruction, length]
    cases locals : program.checkLocals holder instruction with
    | ok done =>
      have own : ∀ slot ∈ instruction.locals, ∀ owner, program.owner? slot = some owner → owner = holder := by
        intro slot used owner owned
        have mine := checkLocals_ok.mp locals slot used
        rw [owned] at mine
        exact Option.some.inj (mine.resolve_left (Option.some_ne_none _))
      rw [built.checkTarget, built.checkShape]
      exact .joined present own
    | error fault =>
      obtain ⟨slot, used, owner, owned, other, rfl⟩ :=
        program.foreign_checkLocals holder instruction fault locals
      exact .foreign (present ▸ rfl) used owned other

/-- Building and editing agree on the shape of an instruction. A call is built exactly if it agrees with
its method operand by operand and implies no other marker than the known one; and what was built is
appended, unless there is no body or a local belongs to another one. -/
theorem builders_agree (program : Program) :
    (∀ (request : CallRequest) (call : Call),
      Descriptor.void ∉ (program.methodAt call.method).signature.parameters →
      (request.build program = .ok call ↔
        request = ⟨call.kind, some call.method, call.arguments, call.result⟩ ∧
        call.owner = (program.methodAt call.method).owner ∧ call.Agrees (program.methodAt call.method) ∧
        ∀ known, (program.methodAt call.method).marker = some known →
          known = call.implied (program.methodAt call.method).signature)) ∧
    ∀ instruction, program.Built instruction → program.checkShape none instruction = .ok () ∧
      ∀ holder, program.Appending holder instruction ((Edit.append holder instruction).run program) := by
  constructor
  · intro request call typed
    rw [Call.agrees_iff_suits typed]
    exact CallRequest.build_ok
  · exact fun instruction built => ⟨built.checkShape, built.appending⟩

/-- A method, a constructor without a body, and another method that knows nothing of the locals of the
first. -/
def calling : Program :=
  (Edit.run (do
    let owner ← Edit.define (.object "A") { access := 1 }
    let first ← Edit.declareMethod owner "f" ⟨[.byte, .long], .void⟩ 8
    let _ ← Edit.createBody first
    let _ ← Edit.method owner "<init>" ⟨[.int], .void⟩ none
    let _ ← Edit.freshLocal .reference
    let second ← Edit.declareMethod owner "g" ⟨[], .void⟩ 8
    Edit.createBody second) {}).2

/-- A byte is passed for an `int`, and the new object is the result. -/
theorem builders_agree_calling :
    let call : Call := ⟨.construct, ⟨1⟩, ⟨0⟩, [⟨0, .byte⟩], some ⟨2, .reference⟩⟩
    Descriptor.void ∉ (calling.methodAt ⟨1⟩).signature.parameters ∧
      CallRequest.build ⟨.construct, some ⟨1⟩, [⟨0, .byte⟩], some ⟨2, .reference⟩⟩ calling = .ok call ∧
      call.Agrees (calling.methodAt ⟨1⟩) ∧ calling.checkShape none (.invoke call) = .ok () ∧
      ∀ holder, calling.Appending holder (.invoke call) ((Edit.append holder (.invoke call)).run calling) := by
  intro call
  have typed : Descriptor.void ∉ (calling.methodAt ⟨1⟩).signature.parameters := by decide +kernel
  have built : CallRequest.build ⟨.construct, some ⟨1⟩, [⟨0, .byte⟩], some ⟨2, .reference⟩⟩ calling = .ok call := by
    decide +kernel
  obtain ⟨shape, appends⟩ := (builders_agree calling).2 _ (.call built)
  obtain ⟨-, -, agrees, -⟩ := ((builders_agree calling).1 _ call typed).mp built
  exact ⟨typed, built, agrees, shape, appends⟩

/-- The three ways in which appending may end are all taken. -/
example : ([⟨0⟩, ⟨1⟩, ⟨2⟩].map fun holder => ((Edit.append holder (.invoke
    ⟨.construct, ⟨1⟩, ⟨0⟩, [⟨0, .byte⟩], some ⟨2, .reference⟩⟩)).run calling).1) =
    [.ok ⟨0⟩, .error (.flaw (.notLocal (.code "LA;-><init>(I)V"))), .error (.flaw (.foreignLocal ⟨0, .byte⟩))] := by
  decide +kernel

end Program

end ClassImage
