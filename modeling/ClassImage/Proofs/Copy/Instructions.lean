import ClassImage.Proofs.Copy.Members

/-!
Instructions of a copy. An instruction of the copy is like one of the original
when it is the same operation on the same symbols, and its locals and its target
stand for those of the original. What the checks of operands decide depends on
no more than that.
-/

namespace ClassImage

open Program

def SameConstant (program copy : Program) : Constant → Constant → Prop
  | .classOf type, other => ∃ id, other = .classOf id ∧ program.Same copy (.type type) (.type id)
  | value, other => other = value

structure SameTest (slots : Local → Local → Prop) (test other : Test) : Prop where
  comparison : other.comparison = test.comparison
  left : slots test.left other.left
  right : Option.Rel slots test.right other.right

/-- The same operation, on locals and a target that stand for those of the first. -/
inductive Alike (program copy : Program) (slots : Local → Local → Prop)
    (targets : InstructionId → InstructionId → Prop) : Instruction → Instruction → Prop
  | invoke {call other : Call} (kind : other.kind = call.kind)
      (method : program.Same copy (.method call.method) (.method other.method))
      (owner : program.Same copy (.type call.owner) (.type other.owner))
      (arguments : List.Forall₂ slots call.arguments other.arguments)
      (result : Option.Rel slots call.result other.result) :
      Alike program copy slots targets (.invoke call) (.invoke other)
  | const {target place : Local} {value constant : Constant} (placed : slots target place)
      (same : SameConstant program copy value constant) :
      Alike program copy slots targets (.const target value) (.const place constant)
  | access {use other : FieldAccess} (kind : other.kind = use.kind)
      (field : program.Same copy (.field use.field) (.field other.field))
      (value : slots use.value other.value) (object : Option.Rel slots use.object other.object) :
      Alike program copy slots targets (.access use) (.access other)
  | move {target source place taken : Local} (placed : slots target place) (read : slots source taken) :
      Alike program copy slots targets (.move target source) (.move place taken)
  | ret {value taken : Option Local} (read : Option.Rel slots value taken) :
      Alike program copy slots targets (.ret value) (.ret taken)
  | branch {test other : Option Test} {target place : InstructionId}
      (tests : Option.Rel (SameTest slots) test other) (found : targets target place) :
      Alike program copy slots targets (.branch test target) (.branch other place)
  | binary {operator : Operator} {target left right place first second : Local}
      (placed : slots target place) (leftRead : slots left first) (rightRead : slots right second) :
      Alike program copy slots targets (.binary operator target left right)
        (.binary operator place first second)
  | newArray {target length place taken : Local} {type id : TypeId} (placed : slots target place)
      (read : slots length taken) (same : program.Same copy (.type type) (.type id)) :
      Alike program copy slots targets (.newArray target length type) (.newArray place taken id)
  | arrayLength {target array place taken : Local} (placed : slots target place)
      (read : slots array taken) :
      Alike program copy slots targets (.arrayLength target array) (.arrayLength place taken)
  | checkCast {target value place taken : Local} {type id : TypeId} (placed : slots target place)
      (read : slots value taken) (same : program.Same copy (.type type) (.type id)) :
      Alike program copy slots targets (.checkCast target value type) (.checkCast place taken id)
  | instanceOf {target value place taken : Local} {type id : TypeId} (placed : slots target place)
      (read : slots value taken) (same : program.Same copy (.type type) (.type id)) :
      Alike program copy slots targets (.instanceOf target value type) (.instanceOf place taken id)
  | throwValue {value taken : Local} (read : slots value taken) :
      Alike program copy slots targets (.throwValue value) (.throwValue taken)

theorem SameConstant.extends {program copy later : Program} (more : copy.Extends later)
    {value other : Constant} (same : SameConstant program copy value other) :
    SameConstant program later value other := by
  cases value with
  | classOf type =>
    obtain ⟨id, rfl, same⟩ := same
    exact ⟨id, rfl, same.extends more⟩
  | _ => exact same

theorem Alike.extends {program copy later : Program} {slots : Local → Local → Prop}
    {targets : InstructionId → InstructionId → Prop} {first second : Instruction} (more : copy.Extends later)
    (alike : Alike program copy slots targets first second) :
    Alike program later slots targets first second := by
  cases alike with
  | invoke kind method owner arguments result =>
    exact .invoke kind (method.extends more) (owner.extends more) arguments result
  | const placed same => exact .const placed (same.extends more)
  | access kind field value object => exact .access kind (field.extends more) value object
  | move placed read => exact .move placed read
  | ret read => exact .ret read
  | branch tests found => exact .branch tests found
  | binary placed left right => exact .binary placed left right
  | newArray placed read same => exact .newArray placed read (same.extends more)
  | arrayLength placed read => exact .arrayLength placed read
  | checkCast placed read same => exact .checkCast placed read (same.extends more)
  | instanceOf placed read same => exact .instanceOf placed read (same.extends more)
  | throwValue read => exact .throwValue read

namespace Alike

variable {program copy : Program} {slots : Local → Local → Prop}
  {targets : InstructionId → InstructionId → Prop} {first second : Instruction}

/-- The locals of like instructions correspond in order. -/
theorem locals (alike : Alike program copy slots targets first second) :
    List.Forall₂ slots first.locals second.locals := by
  cases alike with
  | invoke kind method owner arguments result =>
    exact List.rel_append (forall₂_toList result) arguments
  | const placed same => exact .cons placed .nil
  | @access use other kind field value object =>
    obtain ⟨form, id, slot, holder⟩ := use
    obtain ⟨form', id', slot', holder'⟩ := other
    cases kind
    cases form with
    | load => exact .cons value (forall₂_toList object)
    | store => exact .cons value (forall₂_toList object)
  | move placed read => exact .cons placed (.cons read .nil)
  | ret read => exact forall₂_toList read
  | branch tests found =>
    cases tests with
    | none => exact .nil
    | some same => exact .cons same.left (forall₂_toList same.right)
  | binary placed left right => exact .cons placed (.cons left (.cons right .nil))
  | newArray placed read same => exact .cons placed (.cons read .nil)
  | arrayLength placed read => exact .cons placed (.cons read .nil)
  | checkCast placed read same => exact .cons placed (.cons read .nil)
  | instanceOf placed read same => exact .cons placed (.cons read .nil)
  | throwValue read => exact .cons read .nil

/-- Like instructions use the same symbols in the same ways. -/
theorem references (alike : Alike program copy slots targets first second) :
    List.Forall₂ (fun use other => other.2 = use.2 ∧ program.Same copy use.1 other.1)
      first.references second.references := by
  cases alike with
  | @invoke call other kind method owner arguments result =>
    obtain ⟨form, target, holder, operands, value⟩ := call
    obtain ⟨form', target', holder', operands', value'⟩ := other
    cases kind
    cases form with
    | construct => exact .cons ⟨rfl, owner⟩ (.cons ⟨rfl, method⟩ .nil)
    | normal => exact .cons ⟨rfl, method⟩ .nil
    | special => exact .cons ⟨rfl, method⟩ .nil
  | @const target place value constant placed same =>
    cases value with
    | classOf type =>
      obtain ⟨id, rfl, same⟩ := same
      exact .cons ⟨rfl, same⟩ .nil
    | _ =>
      cases same
      exact .nil
  | @access use other kind field value object =>
    obtain ⟨form, id, slot, holder⟩ := use
    obtain ⟨form', id', slot', holder'⟩ := other
    cases kind
    cases form with
    | load => exact .cons ⟨rfl, field⟩ .nil
    | store => exact .cons ⟨rfl, field⟩ .nil
  | newArray placed read same => exact .cons ⟨rfl, same⟩ .nil
  | checkCast placed read same => exact .cons ⟨rfl, same⟩ .nil
  | instanceOf placed read same => exact .cons ⟨rfl, same⟩ .nil
  | move | ret | branch | binary | arrayLength | throwValue => exact .nil

end Alike

/-- The kinds of the operands decide whether a call suits a method. -/
theorem Call.Suits.of_kinds {call other : Call} {name : String} {signature : Signature}
    (suits : call.Suits name signature) (kind : other.kind = call.kind)
    (arguments : other.arguments.map Local.kind = call.arguments.map Local.kind)
    (result : other.result.map Local.kind = call.result.map Local.kind) : other.Suits name signature := by
  have count : other.arguments.length = call.arguments.length := by
    simpa using congrArg List.length arguments
  have fit : ∀ {operands : List Local} {kinds : List ValueKind}, KindsFit operands kinds ↔
      ∀ pair ∈ (operands.map Local.kind).zip kinds, pair.1.fits pair.2 := by
    intro operands kinds
    rw [KindsFit, List.zip_map_left, List.forall_mem_map]
    rfl
  have bound : ∀ {produced : Option ValueKind} {slot : Option Local}, ResultFits produced slot ↔
      Option.Rel (fun expected kind => kind.fits expected) produced (slot.map Local.kind) := by
    intro produced slot
    cases produced <;> cases slot <;> simp [ResultFits]
  constructor
  · rw [kind, count]
    exact suits.constructor
  · rw [kind, count]
    exact suits.special
  · rw [count]
    exact suits.count
  · rw [count, fit, arguments, ← fit]
    exact suits.operands
  · rw [kind, bound, result, ← bound]
    exact suits.result

theorem Call.implied_of_kinds {call other : Call} (kind : other.kind = call.kind)
    (count : other.arguments.length = call.arguments.length) (signature : Signature) :
    other.implied signature = call.implied signature := by
  rw [Call.implied, Call.implied, kind, count]

section Transfer

variable {program copy : Program} {slots : Local → Local → Prop}
  {targets : InstructionId → InstructionId → Prop} {first second : Instruction}

theorem Alike.admits (sound : copy.KeysSound)
    (kinds : ∀ {slot other}, slots slot other → other.kind = slot.kind)
    (alike : Alike program copy slots targets first second) (admitted : program.Admits first) :
    copy.Admits second := by
  cases alike with
  | @invoke call other kind method owner arguments result =>
    obtain ⟨name, signature, key, suits⟩ := admitted
    obtain ⟨_, holder, _, _, named, found, held⟩ := same_method.mp method
    cases key.symm.trans named
    cases Same.copy_eq sound held owner
    exact ⟨name, signature, found, suits.of_kinds kind (map_eq_of_forall₂ arguments fun _ _ => kinds)
      (map_eq_of_rel result fun _ _ => kinds)⟩
  | @access use other kind field value object =>
    obtain ⟨owner, name, type, key, suits⟩ := admitted
    obtain ⟨_, holder, _, _, named, found, -⟩ := same_field.mp field
    cases key.symm.trans named
    refine ⟨holder, name, type, found, ?_, ?_⟩
    · intro slot given
      rw [given] at object
      generalize held : use.object = holder at object
      cases object with
      | some related => rw [kinds related, suits.object _ held]
    · intro held expected
      rw [kinds value]
      exact suits.value held expected
  | @const target place constant other placed same =>
    cases constant with
    | classOf type =>
      obtain ⟨id, rfl, same⟩ := same
      exact same.known
    | _ =>
      cases same
      trivial
  | newArray placed read same => exact same.known
  | checkCast placed read same => exact same.known
  | instanceOf placed read same => exact same.known
  | move | ret | branch | binary | arrayLength | throwValue => trivial

/-- The copy has the markers of the original, and the operands imply the same ones. -/
theorem Alike.fits (follows : program.Follows copy)
    (alike : Alike program copy slots targets first second) (fits : program.Fits first) :
    copy.Fits second := by
  intro symbol used shape known marked
  cases alike with
  | @invoke call other kind method owner arguments result =>
    obtain ⟨_, _, name, signature, named, found, -⟩ := same_method.mp method
    rw [memberShape?_invoke] at shape
    cases shape
    rw [follows.markers method] at marked
    have expected := fits _ _ (memberShape?_invoke _ _) known marked
    rw [expected, (methodKey?_methodAt named).2.2, (methodKey?_methodAt found).2.2]
    exact (Call.implied_of_kinds kind arguments.length_eq.symm signature).symm
  | @access use other kind field value object =>
    cases shape
    rw [follows.markers field] at marked
    have expected := fits _ _ rfl known marked
    rw [expected, isNone_of_rel object]
  | const | move | ret | branch | binary | newArray | arrayLength | checkCast | instanceOf
  | throwValue => cases shape

theorem build_of_admits {call : Call} (admitted : program.Admits (.invoke call))
    (fits : program.Fits (.invoke call)) :
    (CallRequest.mk call.kind (some call.method) call.arguments call.result).build program = .ok call := by
  obtain ⟨name, signature, key, suits⟩ := admitted
  obtain ⟨owner, rfl, rfl⟩ := methodKey?_methodAt key
  exact CallRequest.build_ok.mpr ⟨rfl, owner.symm, suits, fits _ _ (memberShape?_invoke _ _)⟩

theorem buildAccess_of_admits {use : FieldAccess} (admitted : program.Admits (.access use))
    (fits : program.Fits (.access use)) :
    (AccessRequest.mk use.kind (some use.field) (some use.value) use.object).build program = .ok use := by
  obtain ⟨owner, name, type, key, suits⟩ := admitted
  obtain ⟨-, -, rfl⟩ := fieldKey?_fieldAt key
  exact AccessRequest.build_ok.mpr ⟨rfl, suits, fits _ _ rfl⟩

end Transfer

end ClassImage
