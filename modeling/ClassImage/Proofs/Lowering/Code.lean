import ClassImage.Proofs.Lowering.Units

/-!
Lowering yields units. Whatever the instruction, its raw form is that of one
unit, which names the instruction's locals, targets and symbols in the finished
pool and which the format can express.
-/

namespace ClassImage

namespace CodeContext

open Lower

variable {final : Pool} {context : CodeContext} {α : Type} {mentions : List Mention}
  {meaning : α → Prop}

theorem register_bind {slot : Local} {next : UInt16 → Lower α}
    (second : ∀ register, context.Places slot register → Yields final (next register) mentions meaning) :
    Yields final (context.register slot >>= next) mentions meaning := by
  unfold register
  split
  · rename_i register found
    exact second register found
  · exact .throw

theorem registers_bind {slots : List Local} {next : List UInt16 → Lower α}
    (second : ∀ registers, List.Forall₂ context.Places slots registers →
      Yields final (next registers) mentions meaning) :
    Yields final (slots.mapM context.register >>= next) mentions meaning := by
  induction slots generalizing next with
  | nil => exact second [] .nil
  | cons slot slots ih =>
    rw [List.mapM_cons, bind_assoc]
    apply register_bind
    intro register placed
    rw [bind_assoc]
    apply ih
    intro registers all
    exact second (register :: registers) (.cons placed all)

theorem target_bind {id : InstructionId} {next : UInt32 → Lower α}
    (second : ∀ position, context.Reaches id position →
      Yields final (next position) mentions meaning) :
    Yields final (context.target id >>= next) mentions meaning := by
  unfold target
  split
  · rename_i start found
    exact second _ ⟨start, found, rfl⟩
  · exact .throw

theorem requireMarker_bind {symbol : Symbol} {next : Unit → Lower α}
    (second : (context.program.marker symbol).isSome → Yields final (next ()) mentions meaning) :
    Yields final (context.requireMarker symbol >>= next) mentions meaning := by
  unfold requireMarker
  split
  · rename_i known
    exact second (by rw [known]; rfl)
  · exact .throw

/-- The raw instructions are those of one unit that the instruction is lowered to. The format can
express them if calls are limited as its counts of arguments are. -/
def Becomes (final : Pool) (context : CodeContext) (instruction : Instruction)
    (raws : List RawInstruction) : Prop :=
  ∃ unit, raws = unit.raws ∧ Lowered final context instruction unit ∧
    (context.argumentLimit.toNat ≤ 255 → ∀ raw ∈ raws, raw.Fits)

theorem Becomes.single {instruction : Instruction} {raw : RawInstruction}
    (lowered : Lowered final context instruction (.single raw)) (fits : raw.Fits) :
    Becomes final context instruction [raw] := by
  refine ⟨.single raw, rfl, lowered, ?_⟩
  intro _ other member
  rw [List.mem_singleton.mp member]
  exact fits

theorem yields_lowerCall {call : Call} (admitted : context.program.Admits (.invoke call)) :
    Yields final (context.lowerCall call) (context.program.instructionMentions (.invoke call))
      (Becomes final context (.invoke call)) := by
  obtain ⟨name, signature, key, suits⟩ := admitted
  rw [Program.instructionMentions]
  generalize more : (if call.kind = .construct then
    [context.program.typeMention (context.program.methodAt call.method).owner] else []) = mentions
  apply requireMarker_bind
  intro marked
  apply registers_bind
  intro registers placed
  refine .refuse_bind ?_
  intro counted
  have fits : context.argumentLimit.toNat ≤ 255 → registers.length ≤ 255 := by
    intro few
    omega
  apply (yields_methodRef call.method).bind
  intro method
  by_cases kind : call.kind = .construct
  · have produced := suits.result
    rw [if_pos kind] at produced more
    subst more
    cases result : call.result with
    | none =>
      rw [result] at produced
      cases produced
    | some slot =>
      simp only [kind, result, if_true, Option.toList_some, List.singleton_append] at placed ⊢
      cases placed with
      | @cons _ dst _ arguments first others =>
        apply (yields_typeRef (context.program.methodAt call.method).owner).bind
        intro type
        refine .pure ?_
        intro allocated target
        refine ⟨.allocation dst type method (dst :: arguments), ?_, ?_, ?_⟩
        · simp [CodeUnit.raws, dispatch, kind]
        · exact .construct kind marked result first others target allocated
        · simpa [RawInstruction.Fits] using fits
  · rw [if_neg kind] at more
    subst more
    simp only [kind, if_false, List.nil_append] at placed ⊢
    cases result : call.result with
    | none =>
      refine .pure ?_
      intro target
      refine ⟨.call (context.dispatch call) method registers none, rfl, ?_, ?_⟩
      · exact .call kind marked placed target (result ▸ .none)
      · simpa [RawInstruction.Fits] using fits
    | some slot =>
      apply register_bind
      intro dst bound
      refine .pure ?_
      intro target
      refine ⟨.call (context.dispatch call) method registers (some dst), rfl, ?_, ?_⟩
      · exact .call kind marked placed target (result ▸ .some bound)
      · simpa [RawInstruction.Fits] using fits

theorem yields_lowerAccess (use : FieldAccess) :
    Yields final (context.lowerAccess use) [context.program.fieldMention use.field] fun raw =>
      Becomes final context (.access use) [raw] := by
  have becomes : ∀ {value field object},
      (context.program.marker (.field use.field)).isSome → context.Places use.value value →
      Option.Rel context.Places use.object object →
      final.NamesField context.program field use.field →
      Becomes final context (.access use) [use.kind.raw value field object] := by
    intro value field object marked placed held target
    refine .single (.access marked target placed held) ?_
    cases use.kind <;> cases object <;> trivial
  apply requireMarker_bind
  intro marked
  apply (yields_fieldRef use.field).bind
  intro field
  apply register_bind
  intro value placed
  have each := @becomes value field
  obtain ⟨kind, id, slot, object⟩ := use
  cases object with
  | none =>
    cases kind with
    | load => exact .pure fun target => each marked placed .none target
    | store => exact .pure fun target => each marked placed .none target
  | some object =>
    cases kind with
    | load => exact register_bind fun held found => .pure fun target => each marked placed (.some found) target
    | store => exact register_bind fun held found => .pure fun target => each marked placed (.some found) target

theorem yields_lowerConstant {dst : UInt16} (target : Local) (value : Constant) :
    Yields final (context.lowerConstant dst value)
      (context.program.instructionMentions (.const target value)) fun raw =>
        final.Loads context.program dst value raw ∧ raw.Fits := by
  cases value with
  | text text =>
    apply (yields_text text).bind
    exact fun index => .pure fun meant => ⟨⟨index, meant, rfl⟩, trivial⟩
  | classOf type =>
    apply (yields_typeRef type).bind
    exact fun index => .pure fun meant => ⟨⟨index, meant, rfl⟩, trivial⟩
  | _ => exact .pure ⟨rfl, trivial⟩

theorem yields_lower {instruction : Instruction} (admitted : context.program.Admits instruction) :
    Yields final (context.lower instruction) (context.program.instructionMentions instruction)
      (Becomes final context instruction) := by
  cases instruction with
  | invoke call => exact yields_lowerCall admitted
  | access use =>
    apply (yields_lowerAccess use).bind
    exact fun raw => .pure id
  | const target value =>
    apply register_bind
    intro dst placed
    refine ((yields_lowerConstant target value).bind ?_).as (List.append_nil _)
    exact fun raw => .pure fun meant => .single (.const placed meant.1) meant.2
  | move target source =>
    refine register_bind fun dst placed => register_bind fun src taken => .pure ?_
    exact .single (.move placed taken) trivial
  | ret value =>
    cases value with
    | none => exact .pure (.single .returnVoid trivial)
    | some value => exact register_bind fun src taken => .pure (.single (.returnValue taken) trivial)
  | branch test target =>
    apply target_bind
    intro position found
    rcases test with _ | ⟨comparison, left, _ | right⟩
    · exact .pure (.single (.goto found) trivial)
    · exact register_bind fun a first => .pure (.single (.ifZero first found) trivial)
    · refine register_bind fun a first => register_bind fun b second => .pure ?_
      exact .single (.ifCompare first second found) trivial
  | binary operator target left right =>
    refine register_bind fun dst placed => register_bind fun a first => register_bind fun b second => ?_
    exact .pure (.single (.binary placed first second) trivial)
  | newArray target length type =>
    refine register_bind fun dst placed => register_bind fun size taken => ?_
    refine (yields_typeRef type).bind ?_
    exact fun index => .pure fun meant => .single (.newArray placed taken meant) trivial
  | arrayLength target array =>
    refine register_bind fun dst placed => register_bind fun src taken => .pure ?_
    exact .single (.arrayLength placed taken) trivial
  | checkCast target value type =>
    refine register_bind fun dst placed => register_bind fun src taken => ?_
    refine (yields_typeRef type).bind ?_
    exact fun index => .pure fun meant => .single (.checkCast placed taken meant) trivial
  | instanceOf target value type =>
    refine register_bind fun dst placed => register_bind fun src taken => ?_
    refine (yields_typeRef type).bind ?_
    exact fun index => .pure fun meant => .single (.instanceOf placed taken meant) trivial
  | throwValue value => exact register_bind fun src taken => .pure (.single (.throwValue taken) trivial)

end CodeContext

end ClassImage
