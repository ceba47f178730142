import ClassImage.Format.RawInstruction
import ClassImage.Proofs.Codec.Reading

/-!
Raw instructions are read back exactly. Each operation code fixes the sequence
of operands, and the operands determine the instruction, so one case for every
operation code and one for every form of instruction settle both directions.
-/

namespace ClassImage

/-- The argument count of a call has one byte. -/
def RawInstruction.Fits : RawInstruction → Prop
  | .invoke _ _ arguments => arguments.length ≤ 255
  | _ => True

namespace Opcode

theorem ofByte?_byte (opcode : Opcode) : ofByte? opcode.byte = some opcode := by
  cases opcode <;> rfl

theorem byte_of_ofByte? {byte : UInt8} {opcode : Opcode} (found : ofByte? byte = some opcode) :
    opcode.byte = byte := by
  simpa using List.find?_some found

end Opcode

namespace Comparison

theorem ofTag?_tag (comparison : Comparison) : ofTag? comparison.tag = some comparison := by
  cases comparison <;> rfl

theorem tag_of_ofTag? {tag : UInt8} {comparison : Comparison}
    (found : ofTag? tag = some comparison) : comparison.tag = tag := by
  simpa using List.find?_some found

end Comparison

namespace Operator

theorem ofTag?_tag (operator : Operator) : ofTag? operator.tag = some operator := by
  cases operator <;> rfl

theorem tag_of_ofTag? {tag : UInt8} {operator : Operator}
    (found : ofTag? tag = some operator) : operator.tag = tag := by
  simpa using List.find?_some found

end Operator

namespace Reader

theorem reads_tagged {ofTag? : UInt8 → Option α} {tag : α → UInt8}
    (into : ∀ value, ofTag? (tag value) = some value)
    (onto : ∀ byte value, ofTag? byte = some value → tag value = byte) :
    Reads (tagged ofTag?) (fun value => [tag value]) (fun _ => True) := by
  intro cursor value after
  simp only [tagged, outcome_bind_ok, outcome_position, true_and]
  constructor
  · rintro ⟨_, _, same, byte, middle, readByte, done⟩
    cases same
    obtain ⟨-, moved⟩ := (reads_u8 _ _ _).mp readByte
    split at done
    · rename_i found known
      cases done
      rw [onto _ _ known]
      exact moved
    · cases done
  · intro moved
    refine ⟨_, _, rfl, tag value, after, (reads_u8 _ _ _).mpr ⟨trivial, moved⟩, ?_⟩
    simp only [into, outcome_pure]

theorem reads_opcode : Reads opcode (fun opcode => [opcode.byte]) (fun _ => True) := by
  intro cursor value after
  simp only [opcode, outcome_bind_ok, outcome_position, true_and]
  constructor
  · rintro ⟨_, _, same, byte, middle, readByte, done⟩
    cases same
    obtain ⟨-, moved⟩ := (reads_u8 _ _ _).mp readByte
    split at done
    · rename_i found known
      cases done
      rw [Opcode.byte_of_ofByte? known]
      exact moved
    · cases done
  · intro moved
    refine ⟨_, _, rfl, value.byte, after, (reads_u8 _ _ _).mpr ⟨trivial, moved⟩, ?_⟩
    simp only [Opcode.ofByte?_byte, outcome_pure]

theorem reads_comparison :
    Reads (tagged Comparison.ofTag?) (fun comparison => [comparison.tag]) (fun _ => True) :=
  reads_tagged Comparison.ofTag?_tag fun _ _ => Comparison.tag_of_ofTag?

theorem reads_operator :
    Reads (tagged Operator.ofTag?) (fun operator => [operator.tag]) (fun _ => True) :=
  reads_tagged Operator.ofTag?_tag fun _ _ => Operator.tag_of_ofTag?

/-- A call yields a call, whose arguments are as many as the count says. -/
theorem outcome_invoke_ok {dispatch : Dispatch} {cursor after : Cursor} {result : RawInstruction} :
    outcome (invoke dispatch) cursor = (.ok result, after) ↔
      ∃ method arguments, result = .invoke dispatch method arguments ∧ result.Fits ∧
        cursor.Advances result.operands after := by
  simp only [invoke, reads_u32.bind_ok, reads_u8.bind_ok, (reads_times reads_u16 _).bind_ok, outcome_pure,
    true_and, Prod.mk.injEq, Except.ok.injEq]
  constructor
  · rintro ⟨method, first, moved, size, second, moved', arguments, third, ⟨⟨length, -⟩, moved''⟩, rfl, rfl⟩
    have count : UInt8.ofNat arguments.length = size := by rw [length, UInt8.ofNat_toNat]
    refine ⟨method, arguments, rfl, ?_, ?_⟩
    · have bound := size.toNat_lt
      simp only [RawInstruction.Fits]
      omega
    · rw [RawInstruction.operands, count]
      exact Cursor.advances_append.mpr ⟨first, moved, Cursor.advances_append.mpr ⟨second, moved', moved''⟩⟩
  · rintro ⟨method, arguments, rfl, fits, moved⟩
    simp only [RawInstruction.Fits] at fits
    obtain ⟨first, moved, moved'⟩ := Cursor.advances_append.mp moved
    obtain ⟨second, moved', moved''⟩ := Cursor.advances_append.mp (show
      first.Advances ([UInt8.ofNat arguments.length] ++ arguments.flatMap Bytes.ofUInt16) after from moved')
    have size : (UInt8.ofNat arguments.length).toNat = arguments.length :=
      UInt8.toNat_ofNat_of_lt' (Nat.lt_succ_of_le fits)
    exact ⟨method, first, moved, _, second, moved', arguments, after,
      ⟨⟨size.symm, fun _ _ => trivial⟩, moved''⟩, rfl, rfl⟩

section Fields

variable {first : Reader α} {second : Reader β} {third : Reader γ} {fourth : Reader δ}
variable {writeFirst : α → Bytes} {writeSecond : β → Bytes} {writeThird : γ → Bytes} {writeFourth : δ → Bytes}
variable {cursor after : Cursor} {result : ε}

theorem one_field (readsFirst : Reads first writeFirst (fun _ => True)) (make : α → ε) :
    outcome (do return make (← first)) cursor = (.ok result, after) ↔
      ∃ a, result = make a ∧ cursor.Advances (writeFirst a) after := by
  simp only [readsFirst.bind_ok, outcome_pure, true_and, Prod.mk.injEq, Except.ok.injEq]
  constructor
  · rintro ⟨a, middle, moved, rfl, rfl⟩
    exact ⟨a, rfl, moved⟩
  · rintro ⟨a, rfl, moved⟩
    exact ⟨a, after, moved, rfl, rfl⟩

theorem two_fields (readsFirst : Reads first writeFirst (fun _ => True))
    (readsSecond : Reads second writeSecond (fun _ => True)) (make : α → β → ε) :
    outcome (do return make (← first) (← second)) cursor = (.ok result, after) ↔
      ∃ a b, result = make a b ∧ cursor.Advances (writeFirst a ++ writeSecond b) after := by
  simp only [readsFirst.bind_ok, one_field readsSecond, true_and, Cursor.advances_append]
  constructor
  · rintro ⟨a, middle, moved, b, same, moved'⟩
    exact ⟨a, b, same, middle, moved, moved'⟩
  · rintro ⟨a, b, same, middle, moved, moved'⟩
    exact ⟨a, middle, moved, b, same, moved'⟩

theorem three_fields (readsFirst : Reads first writeFirst (fun _ => True))
    (readsSecond : Reads second writeSecond (fun _ => True))
    (readsThird : Reads third writeThird (fun _ => True)) (make : α → β → γ → ε) :
    outcome (do return make (← first) (← second) (← third)) cursor = (.ok result, after) ↔
      ∃ a b c, result = make a b c ∧
        cursor.Advances (writeFirst a ++ writeSecond b ++ writeThird c) after := by
  simp only [readsFirst.bind_ok, two_fields readsSecond readsThird, true_and, Cursor.advances_append]
  constructor
  · rintro ⟨a, start, moved, b, c, same, middle, moved', moved''⟩
    exact ⟨a, b, c, same, middle, ⟨start, moved, moved'⟩, moved''⟩
  · rintro ⟨a, b, c, same, middle, ⟨start, moved, moved'⟩, moved''⟩
    exact ⟨a, start, moved, b, c, same, middle, moved', moved''⟩

theorem four_fields (readsFirst : Reads first writeFirst (fun _ => True))
    (readsSecond : Reads second writeSecond (fun _ => True))
    (readsThird : Reads third writeThird (fun _ => True))
    (readsFourth : Reads fourth writeFourth (fun _ => True)) (make : α → β → γ → δ → ε) :
    outcome (do return make (← first) (← second) (← third) (← fourth)) cursor = (.ok result, after) ↔
      ∃ a b c d, result = make a b c d ∧
        cursor.Advances (writeFirst a ++ (writeSecond b ++ writeThird c ++ writeFourth d)) after := by
  simp only [readsFirst.bind_ok, three_fields readsSecond readsThird readsFourth, true_and,
    Cursor.advances_append]
  constructor
  · rintro ⟨a, middle, moved, b, c, d, same, moved'⟩
    exact ⟨a, b, c, d, same, middle, moved, moved'⟩
  · rintro ⟨a, b, c, d, same, middle, moved, moved'⟩
    exact ⟨a, middle, moved, b, c, d, same, moved'⟩

end Fields

theorem operands_sound {opcode : Opcode} {cursor after : Cursor} {result : RawInstruction}
    (found : outcome (operands opcode) cursor = (.ok result, after)) :
    result.opcode = opcode ∧ result.Fits ∧ cursor.Advances result.operands after := by
  cases opcode
  case nop | returnVoid =>
    cases found
    exact ⟨rfl, trivial, Cursor.advances_nil.mpr rfl⟩
  case returnValue | moveResult | constNull | throwValue =>
    obtain ⟨a, rfl, moved⟩ := (one_field reads_u16 _).mp found
    exact ⟨rfl, trivial, moved⟩
  case goto =>
    obtain ⟨target, rfl, moved⟩ := (one_field reads_u32 _).mp found
    exact ⟨rfl, trivial, moved⟩
  case move | arrayLength =>
    obtain ⟨a, b, rfl, moved⟩ := (two_fields reads_u16 reads_u16 _).mp found
    exact ⟨rfl, trivial, moved⟩
  case constInt =>
    obtain ⟨dst, value, rfl, moved⟩ := (two_fields reads_u16 reads_int32 _).mp found
    exact ⟨rfl, trivial, moved⟩
  case constWide =>
    obtain ⟨dst, value, rfl, moved⟩ := (two_fields reads_u16 reads_int64 _).mp found
    exact ⟨rfl, trivial, moved⟩
  case constDouble =>
    obtain ⟨dst, bits, rfl, moved⟩ := (two_fields reads_u16 reads_u64 _).mp found
    exact ⟨rfl, trivial, moved⟩
  case constFloat | constText | constClass | newInstance | staticGet | staticPut =>
    obtain ⟨a, index, rfl, moved⟩ := (two_fields reads_u16 reads_u32 _).mp found
    exact ⟨rfl, trivial, moved⟩
  case newArray | checkCast | instanceOf | instanceGet | instancePut =>
    obtain ⟨a, b, index, rfl, moved⟩ := (three_fields reads_u16 reads_u16 reads_u32 _).mp found
    exact ⟨rfl, trivial, moved⟩
  case ifZero =>
    obtain ⟨comparison, a, target, rfl, moved⟩ :=
      (three_fields reads_comparison reads_u16 reads_u32 _).mp found
    exact ⟨rfl, trivial, moved⟩
  case ifCompare =>
    obtain ⟨comparison, a, b, target, rfl, moved⟩ :=
      (four_fields reads_comparison reads_u16 reads_u16 reads_u32 _).mp found
    exact ⟨rfl, trivial, moved⟩
  case binary =>
    obtain ⟨operator, dst, a, b, rfl, moved⟩ :=
      (four_fields reads_operator reads_u16 reads_u16 reads_u16 _).mp found
    exact ⟨rfl, trivial, moved⟩
  all_goals
    obtain ⟨method, arguments, rfl, fits, moved⟩ := outcome_invoke_ok.mp found
    exact ⟨rfl, fits, moved⟩

theorem operands_complete {cursor after : Cursor} {instruction : RawInstruction}
    (fits : instruction.Fits) (moved : cursor.Advances instruction.operands after) :
    outcome (operands instruction.opcode) cursor = (.ok instruction, after) := by
  cases instruction
  case nop | returnVoid =>
    rw [Cursor.advances_nil.mp moved]
    rfl
  case returnValue | moveResult | constNull | throwValue =>
    exact (one_field reads_u16 _).mpr ⟨_, rfl, moved⟩
  case goto => exact (one_field reads_u32 _).mpr ⟨_, rfl, moved⟩
  case move | arrayLength => exact (two_fields reads_u16 reads_u16 _).mpr ⟨_, _, rfl, moved⟩
  case constInt => exact (two_fields reads_u16 reads_int32 _).mpr ⟨_, _, rfl, moved⟩
  case constWide => exact (two_fields reads_u16 reads_int64 _).mpr ⟨_, _, rfl, moved⟩
  case constDouble => exact (two_fields reads_u16 reads_u64 _).mpr ⟨_, _, rfl, moved⟩
  case constFloat | constText | constClass | newInstance | staticGet | staticPut =>
    exact (two_fields reads_u16 reads_u32 _).mpr ⟨_, _, rfl, moved⟩
  case newArray | checkCast | instanceOf | instanceGet | instancePut =>
    exact (three_fields reads_u16 reads_u16 reads_u32 _).mpr ⟨_, _, _, rfl, moved⟩
  case ifZero =>
    exact (three_fields reads_comparison reads_u16 reads_u32 _).mpr ⟨_, _, _, rfl, moved⟩
  case ifCompare =>
    exact (four_fields reads_comparison reads_u16 reads_u16 reads_u32 _).mpr ⟨_, _, _, _, rfl, moved⟩
  case binary =>
    exact (four_fields reads_operator reads_u16 reads_u16 reads_u16 _).mpr ⟨_, _, _, _, rfl, moved⟩
  case invoke dispatch method arguments =>
    cases dispatch <;> exact outcome_invoke_ok.mpr ⟨method, arguments, rfl, fits, moved⟩

theorem reads_instruction : Reads instruction RawInstruction.encode RawInstruction.Fits := by
  intro cursor value after
  simp only [instruction, reads_opcode.bind_ok, true_and]
  constructor
  · rintro ⟨opcode, middle, moved, found⟩
    obtain ⟨rfl, fits, moved'⟩ := operands_sound found
    exact ⟨fits, Cursor.advances_append.mpr ⟨middle, moved, moved'⟩⟩
  · rintro ⟨fits, moved⟩
    obtain ⟨middle, moved, moved'⟩ := Cursor.advances_append.mp (show
      cursor.Advances ([value.opcode.byte] ++ value.operands) after from moved)
    exact ⟨value.opcode, middle, moved, operands_complete fits moved'⟩

end Reader

end ClassImage
