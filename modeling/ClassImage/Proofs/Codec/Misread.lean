import ClassImage.Proofs.Codec.Prefixes

/-!
How reading an instruction fails. The operation code says which fields follow it,
and the count of a call how many arguments. A field that does not fit is left
where it is, so a reading that runs out of bytes stops where the first missing
field begins. Fields are followed through a buffer by position: the widths of the
fields, and nothing that they hold, say how far a reader comes.
-/

namespace ClassImage

/-- The cursor at a position of a buffer. -/
def Cursor.within (buffer : Bytes) (position : Nat) : Cursor := ⟨position, buffer.drop position⟩

theorem Cursor.advances_within {buffer bytes : Bytes} {position : Nat} {after : Cursor} :
    (within buffer position).Advances bytes after ↔
      bytes <+: buffer.drop position ∧ after = within buffer (position + bytes.length) := by
  obtain ⟨stop, rest⟩ := after
  simp only [Advances, within, Cursor.mk.injEq]
  constructor
  · intro advanced
    obtain ⟨whole, moved⟩ := advanced
    refine ⟨⟨rest, whole.symm⟩, moved, ?_⟩
    rw [← List.drop_drop, whole, List.drop_left]
  · intro stands
    obtain ⟨⟨back, whole⟩, moved, left⟩ := stands
    rw [← List.drop_drop, ← whole, List.drop_left] at left
    exact ⟨by rw [← whole, left], moved⟩

/-- Of fields with these widths, one behind the other from a position of the buffer on, the first that
does not fit begins at `start`. -/
def FirstMissing (buffer : Bytes) (position : Nat) (widths : List Nat) (start : Nat) : Prop :=
  ∃ before width later, widths = before ++ width :: later ∧ start = position + before.sum ∧
    start ≤ buffer.length ∧ buffer.length < start + width

section FirstMissing

variable {buffer : Bytes} {position width start : Nat} {widths : List Nat}

theorem firstMissing_nil : ¬FirstMissing buffer position [] start := by
  intro missing
  obtain ⟨before, width, later, split, _⟩ := missing
  simp at split

theorem FirstMissing.inside (missing : FirstMissing buffer position widths start) :
    position ≤ buffer.length := by
  obtain ⟨before, _, _, _, place, inside, _⟩ := missing
  omega

theorem firstMissing_cons :
    FirstMissing buffer position (width :: widths) start ↔
      (start = position ∧ position ≤ buffer.length ∧ buffer.length < position + width) ∨
        FirstMissing buffer (position + width) widths start := by
  constructor
  · intro missing
    obtain ⟨before, missing, later, split, place, inside, short⟩ := missing
    cases before with
    | nil =>
      cases split
      rw [List.sum_nil, Nat.add_zero] at place
      exact .inl ⟨place, place ▸ inside, place ▸ short⟩
    | cons first before =>
      cases split
      rw [List.sum_cons, ← Nat.add_assoc] at place
      exact .inr ⟨before, missing, later, rfl, place, inside, short⟩
  · intro missing
    cases missing with
    | inl here =>
      obtain ⟨rfl, inside, short⟩ := here
      exact ⟨[], width, widths, rfl, rfl, inside, short⟩
    | inr later =>
      obtain ⟨before, missing, after, rfl, place, rest⟩ := later
      exact ⟨width :: before, missing, after, rfl, by rw [place, List.sum_cons, Nat.add_assoc], rest⟩

/-- Either all the fields fit, or there is a first one that does not. -/
theorem fits_or_firstMissing (inside : position ≤ buffer.length) :
    position + widths.sum ≤ buffer.length ∨ ∃ start, FirstMissing buffer position widths start := by
  induction widths generalizing position with
  | nil => exact .inl inside
  | cons width widths ih =>
    by_cases fits : position + width ≤ buffer.length
    · cases ih fits with
      | inl all =>
        rw [Nat.add_assoc, ← List.sum_cons] at all
        exact .inl all
      | inr some' =>
        obtain ⟨start, missing⟩ := some'
        exact .inr ⟨start, firstMissing_cons.mpr (.inr missing)⟩
    · exact .inr ⟨position, firstMissing_cons.mpr (.inl ⟨rfl, inside, by omega⟩)⟩

end FirstMissing

namespace Reader

open Cursor (within)

section Fields

variable {buffer : Bytes} {position : Nat}

theorem outcome_bind_error {first : Reader α} {next : α → Reader β} {cursor after : Cursor}
    {fault : ReadFault} (failed : outcome first cursor = (.error fault, after)) :
    outcome (first >>= next) cursor = (.error fault, after) := by
  rw [outcome_bind, failed]

theorem outcome_bytes_short {count : Nat} (short : (buffer.drop position).length < count) :
    outcome (bytes count) (within buffer position) =
      (.error (.unexpectedEnd position), within buffer position) := by
  have none' : split? count (buffer.drop position) = none := by
    rw [Option.eq_none_iff_forall_ne_some]
    intro halves found
    obtain ⟨whole, size⟩ := split?_eq_some.mp found
    rw [whole, List.length_append, size] at short
    omega
  simp only [outcome, bytes, within, none']

/-- The next byte is read exactly if there is one. -/
theorem outcome_u8_iff {byte : UInt8} {after : Cursor} :
    outcome u8 (within buffer position) = (.ok byte, after) ↔
      buffer[position]? = some byte ∧ after = within buffer (position + 1) := by
  rw [reads_u8, Cursor.advances_within, true_and, List.length_singleton, ← List.head?_drop]
  cases buffer.drop position <;> simp [eq_comm]

/-- From the position of the buffer on, the reader takes fields of these widths: it passes over them if
all are there, and otherwise stops where the first one begins that does not fit. -/
structure Takes (buffer : Bytes) (position : Nat) (reader : Reader α) (widths : List Nat) : Prop where
  passes : position + widths.sum ≤ buffer.length →
    ∃ value, outcome reader (within buffer position) = (.ok value, within buffer (position + widths.sum))
  stops : ∀ start, FirstMissing buffer position widths start →
    outcome reader (within buffer position) = (.error (.unexpectedEnd start), within buffer start)

theorem Takes.pure (value : α) : Takes buffer position (pure value) [] where
  passes _ := ⟨value, rfl⟩
  stops _ missing := absurd missing firstMissing_nil

/-- A field, and then the others from its end on. -/
theorem Takes.bind {first : Reader α} {next : α → Reader β} {width : Nat} {widths : List Nat}
    (head : Takes buffer position first [width])
    (tail : ∀ value, outcome first (within buffer position) = (.ok value, within buffer (position + width)) →
      Takes buffer (position + width) (next value) widths) :
    Takes buffer position (first >>= next) (width :: widths) := by
  -- Both parts need that the first field, if it is there, leaves the reader where the others begin.
  have passed : position + width ≤ buffer.length →
      ∃ value, outcome first (within buffer position) = (.ok value, within buffer (position + width)) ∧
        outcome (first >>= next) (within buffer position) =
          outcome (next value) (within buffer (position + width)) := by
    intro fits
    obtain ⟨value, read⟩ := head.passes fits
    exact ⟨value, read, by rw [outcome_bind, read, List.sum_singleton]⟩
  constructor
  · intro fits
    rw [List.sum_cons, ← Nat.add_assoc] at fits ⊢
    obtain ⟨value, read, onward⟩ := passed (by omega)
    rw [onward]
    exact (tail value read).passes fits
  · intro start missing
    cases firstMissing_cons.mp missing with
    | inl here => exact outcome_bind_error (head.stops start (firstMissing_cons.mpr (.inl here)))
    | inr later =>
      obtain ⟨value, read, onward⟩ := passed later.inside
      rw [onward]
      exact (tail value read).stops start later

theorem Takes.map {reader : Reader α} {widths : List Nat} (takes : Takes buffer position reader widths)
    (make : α → β) : Takes buffer position (do return make (← reader)) widths := by
  constructor
  · intro fits
    obtain ⟨value, read⟩ := takes.passes fits
    refine ⟨make value, ?_⟩
    rw [outcome_bind, read]
    rfl
  · intro start missing
    exact outcome_bind_error (takes.stops start missing)

theorem takes_bytes (count : Nat) : Takes buffer position (bytes count) [count] := by
  constructor
  · intro fits
    have size : ((buffer.drop position).take count).length = count := by
      rw [List.length_take, List.length_drop]
      rw [List.sum_singleton] at fits
      omega
    refine ⟨(buffer.drop position).take count, (reads_bytes count _ _ _).mpr ⟨size, ?_⟩⟩
    exact Cursor.advances_within.mpr ⟨List.take_prefix _ _, by rw [id, size, List.sum_singleton]⟩
  · intro start missing
    cases firstMissing_cons.mp missing with
    | inl here =>
      obtain ⟨rfl, _, short⟩ := here
      exact outcome_bytes_short (by rw [List.length_drop]; omega)
    | inr later => exact absurd later firstMissing_nil

theorem takes_u8 : Takes buffer position u8 [1] := ((takes_bytes 1).map _).map _

theorem takes_u16 : Takes buffer position u16 [2] := ((takes_bytes 2).map _).map _

theorem takes_u32 : Takes buffer position u32 [4] := ((takes_bytes 4).map _).map _

theorem takes_u64 : Takes buffer position u64 [8] := ((takes_bytes 8).map _).map _

theorem takes_times {entry : Reader α} {width : Nat} (each : ∀ place, Takes buffer place entry [width])
    (size : Nat) : Takes buffer position (times size entry) (List.replicate size width) := by
  induction size generalizing position with
  | zero => exact .pure []
  | succ size ih =>
    rw [times_succ]
    exact (each position).bind fun first _ => ih.map (first :: ·)

end Fields

section Tags

variable {buffer : Bytes} {position : Nat} {byte : UInt8} {ofByte? : UInt8 → Option α} {tag : α → UInt8}
variable {fault : UInt8 → Nat → ReadFault}

/-- A byte that has to stand for something: an operation code or the tag of an operand. -/
def denoting (ofByte? : UInt8 → Option α) (fault : UInt8 → Nat → ReadFault) : Reader α := do
  let offset ← Reader.position
  let byte ← u8
  match ofByte? byte with
  | some value => return value
  | none => throw (fault byte offset)

theorem tagged_eq : tagged ofByte? = denoting ofByte? .invalidTag := rfl

theorem opcode_eq : opcode = denoting Opcode.ofByte? .invalidOpcode := by
  unfold opcode denoting
  refine bind_congr fun offset => bind_congr fun byte => ?_
  cases Opcode.ofByte? byte <;> rfl

/-- The byte is passed in any case. -/
theorem outcome_denoting (here : buffer[position]? = some byte) :
    outcome (denoting ofByte? fault) (within buffer position) =
      ((ofByte? byte).elim (.error (fault byte position)) .ok, within buffer (position + 1)) := by
  rw [denoting, position_bind, outcome_bind, outcome_u8_iff.mpr ⟨here, rfl⟩]
  cases found : ofByte? byte <;> simp only [found] <;> rfl

theorem outcome_denoting_missing (ended : buffer[position]? = none) :
    outcome (denoting ofByte? fault) (within buffer position) =
      (.error (.unexpectedEnd position), within buffer position) := by
  have short : (buffer.drop position).length < 1 := by
    rw [List.getElem?_eq_none_iff] at ended
    rw [List.length_drop]
    omega
  rw [denoting, position_bind]
  exact outcome_bind_error (outcome_bind_error (outcome_bind_error (outcome_bytes_short short)))

theorem outcome_denoting_unknown (onto : ∀ byte value, ofByte? byte = some value → tag value = byte)
    (here : buffer[position]? = some byte) (unknown : ∀ value, tag value ≠ byte) :
    outcome (denoting ofByte? fault) (within buffer position) =
      (.error (fault byte position), within buffer (position + 1)) := by
  have none' : ofByte? byte = none :=
    Option.eq_none_iff_forall_ne_some.mpr fun value found => unknown value (onto byte value found)
  rw [outcome_denoting here, none', Option.elim_none]

theorem takes_tagged (into : ∀ value, ofByte? (tag value) = some value)
    (known : ∀ byte, buffer[position]? = some byte → ∃ value, tag value = byte) :
    Takes buffer position (tagged ofByte?) [1] := by
  rw [tagged_eq]
  constructor
  · intro fits
    obtain ⟨byte, read⟩ := takes_u8.passes fits
    obtain ⟨here, _⟩ := outcome_u8_iff.mp read
    obtain ⟨value, same⟩ := known byte here
    rw [← same] at here
    exact ⟨value, by rw [outcome_denoting here, into, Option.elim_some, List.sum_singleton]⟩
  · intro start missing
    rw [denoting, position_bind]
    exact outcome_bind_error (takes_u8.stops start missing)

end Tags

end Reader

namespace Opcode

/-- The widths of the operands that follow an operation code, in stream order. A call has its method and
its count before the arguments. -/
def layout (arguments : Nat) : Opcode → List Nat
  | .nop | .returnVoid => []
  | .returnValue | .moveResult | .constNull | .throwValue => [2]
  | .move | .arrayLength => [2, 2]
  | .constInt | .constFloat | .constText | .constClass | .newInstance | .staticGet | .staticPut => [2, 4]
  | .constWide | .constDouble => [2, 8]
  | .newArray | .checkCast | .instanceOf | .instanceGet | .instancePut => [2, 2, 4]
  | .goto => [4]
  | .ifCompare => [1, 2, 2, 4]
  | .ifZero => [1, 2, 4]
  | .binary => [1, 2, 2, 2]
  | .invokeVirtual | .invokeSuper | .invokeDirect | .invokeStatic | .invokeInterface =>
    4 :: 1 :: List.replicate arguments 2

/-- The byte after a conditional branch or an arithmetic operation has to stand for something. -/
def Admits (tag : UInt8) : Opcode → Prop
  | .ifCompare | .ifZero => ∃ comparison : Comparison, comparison.tag = tag
  | .binary => ∃ operator : Operator, operator.tag = tag
  | _ => True

end Opcode

/-- What is written after an operation code is as long as its fields. -/
theorem RawInstruction.length_operands {value : RawInstruction} (fits : value.Fits) :
    value.operands.length = (value.opcode.layout (value.operands.getD 4 0).toNat).sum := by
  cases value
  case invoke dispatch method arguments =>
    have size : (UInt8.ofNat arguments.length).toNat = arguments.length :=
      UInt8.toNat_ofNat_of_lt' (Nat.lt_succ_of_le fits)
    have count : (invoke dispatch method arguments).operands.getD 4 0 = UInt8.ofNat arguments.length := rfl
    have shape : dispatch.opcode.layout arguments.length = 4 :: 1 :: List.replicate arguments.length 2 := by
      cases dispatch <;> rfl
    have word : ∀ register : UInt16, (Bytes.ofUInt16 register).length = 2 :=
      fun register => Bytes.length_little 2 register.toNat
    have words : (arguments.flatMap Bytes.ofUInt16).length = arguments.length * 2 := by
      simp only [List.length_flatMap, word, List.map_const', List.sum_replicate, smul_eq_mul]
    rw [count, size]
    calc
      _ = (Bytes.ofUInt32 method).length + ((arguments.flatMap Bytes.ofUInt16).length + 1) :=
        List.length_append
      _ = 4 + (1 + arguments.length * 2) := by
        rw [Bytes.length_ofUInt32, words]
        omega
      _ = (dispatch.opcode.layout arguments.length).sum := by
        rw [shape, List.sum_cons, List.sum_cons, List.sum_replicate, smul_eq_mul]
  all_goals rfl

namespace Reader

open Cursor (within)

section Operands

variable {buffer : Bytes} {position : Nat}

theorem takes_invoke (dispatch : Dispatch) :
    Takes buffer position (invoke dispatch)
      (4 :: 1 :: List.replicate (buffer.getD (position + 4) 0).toNat 2) := by
  refine takes_u32.bind fun method _ => takes_u8.bind fun size read => ?_
  -- Arguments are laid out only once the count was read, so it is the byte that the layout looks at.
  have count : buffer.getD (position + 4) 0 = size := by
    rw [List.getD_eq_getElem?_getD, (outcome_u8_iff.mp read).1, Option.getD_some]
  rw [count]
  exact (takes_times (fun _ => takes_u16) size.toNat).map _

theorem takes_operands {opcode : Opcode}
    (admitted : ∀ tag, buffer[position]? = some tag → opcode.Admits tag) :
    Takes buffer position (operands opcode) (opcode.layout (buffer.getD (position + 4) 0).toNat) := by
  cases opcode
  case nop | returnVoid => exact .pure _
  case returnValue | moveResult | constNull | throwValue => exact takes_u16.map _
  case goto => exact takes_u32.map _
  case move | arrayLength => exact takes_u16.bind fun _ _ => takes_u16.map _
  case constInt => exact takes_u16.bind fun _ _ => (takes_u32.map _).map _
  case constWide => exact takes_u16.bind fun _ _ => (takes_u64.map _).map _
  case constDouble => exact takes_u16.bind fun _ _ => takes_u64.map _
  case constFloat | constText | constClass | newInstance | staticGet | staticPut =>
    exact takes_u16.bind fun _ _ => takes_u32.map _
  case newArray | checkCast | instanceOf | instanceGet | instancePut =>
    exact takes_u16.bind fun _ _ => takes_u16.bind fun _ _ => takes_u32.map _
  case ifZero =>
    exact (takes_tagged Comparison.ofTag?_tag admitted).bind fun _ _ =>
      takes_u16.bind fun _ _ => takes_u32.map _
  case ifCompare =>
    exact (takes_tagged Comparison.ofTag?_tag admitted).bind fun _ _ =>
      takes_u16.bind fun _ _ => takes_u16.bind fun _ _ => takes_u32.map _
  case binary =>
    exact (takes_tagged Operator.ofTag?_tag admitted).bind fun _ _ =>
      takes_u16.bind fun _ _ => takes_u16.bind fun _ _ => takes_u16.map _
  all_goals exact takes_invoke _

theorem outcome_operands_unknown {opcode : Opcode} {tag : UInt8} (here : buffer[position]? = some tag)
    (unknown : ¬opcode.Admits tag) :
    outcome (operands opcode) (within buffer position) =
      (.error (.invalidTag tag position), within buffer (position + 1)) := by
  cases opcode
  case ifZero | ifCompare =>
    have none' := not_exists.mp unknown
    exact outcome_bind_error (outcome_denoting_unknown (fun _ _ => Comparison.tag_of_ofTag?) here none')
  case binary =>
    have none' := not_exists.mp unknown
    exact outcome_bind_error (outcome_denoting_unknown (fun _ _ => Operator.tag_of_ofTag?) here none')
  all_goals exact absurd trivial unknown

end Operands

/-- How reading an instruction from a position of a buffer fails, and where the reader stands then. -/
inductive Misread (buffer : Bytes) (position : Nat) : ReadFault → Nat → Prop
  /-- The operation code itself is missing. -/
  | empty (ended : buffer[position]? = none) : Misread buffer position (.unexpectedEnd position) position
  | opcode {byte : UInt8} (here : buffer[position]? = some byte)
      (unknown : ∀ opcode : Opcode, opcode.byte ≠ byte) :
      Misread buffer position (.invalidOpcode byte position) (position + 1)
  | tag {opcode : Opcode} {tag : UInt8} (here : buffer[position]? = some opcode.byte)
      (next : buffer[position + 1]? = some tag) (unknown : ¬opcode.Admits tag) :
      Misread buffer position (.invalidTag tag (position + 1)) (position + 2)
  /-- The count of a call stands behind its method; arguments are missing only after it. -/
  | operand {opcode : Opcode} {start : Nat} (here : buffer[position]? = some opcode.byte)
      (admitted : ∀ tag, buffer[position + 1]? = some tag → opcode.Admits tag)
      (missing : FirstMissing buffer (position + 1)
        (opcode.layout (buffer.getD (position + 5) 0).toNat) start) :
      Misread buffer position (.unexpectedEnd start) start

section Instruction

variable {buffer : Bytes} {position : Nat}

theorem outcome_instruction {opcode : Opcode} (here : buffer[position]? = some opcode.byte) :
    outcome instruction (within buffer position) =
      outcome (operands opcode) (within buffer (position + 1)) := by
  rw [instruction, opcode_eq, outcome_bind, outcome_denoting here, Opcode.ofByte?_byte, Option.elim_some]

theorem Misread.fails {fault : ReadFault} {stop : Nat} (misread : Misread buffer position fault stop) :
    outcome instruction (within buffer position) = (.error fault, within buffer stop) := by
  cases misread with
  | empty ended =>
    rw [instruction, opcode_eq]
    exact outcome_bind_error (outcome_denoting_missing ended)
  | opcode here unknown =>
    rw [instruction, opcode_eq]
    exact outcome_bind_error (outcome_denoting_unknown (fun _ _ => Opcode.byte_of_ofByte?) here unknown)
  | tag here next unknown =>
    rw [outcome_instruction here]
    exact outcome_operands_unknown next unknown
  | operand here admitted missing =>
    rw [outcome_instruction here]
    exact (takes_operands admitted).stops _ missing

/-- Every reading comes to an end in one way or the other. -/
theorem reads_or_misread (buffer : Bytes) (position : Nat) :
    (∃ value after, outcome instruction (within buffer position) = (.ok value, after)) ∨
      ∃ fault stop, Misread buffer position fault stop := by
  cases here : buffer[position]? with
  | none => exact .inr ⟨_, _, .empty here⟩
  | some byte =>
    by_cases known : ∃ opcode : Opcode, opcode.byte = byte
    · obtain ⟨opcode, rfl⟩ := known
      by_cases admitted : ∀ tag, buffer[position + 1]? = some tag → opcode.Admits tag
      · have inside : position + 1 ≤ buffer.length := (List.getElem?_eq_some_iff.mp here).1
        cases fits_or_firstMissing inside with
        | inl fits =>
          obtain ⟨value, read⟩ := (takes_operands admitted).passes fits
          exact .inl ⟨value, _, (outcome_instruction here).trans read⟩
        | inr missing =>
          obtain ⟨start, missing⟩ := missing
          exact .inr ⟨_, _, .operand here admitted missing⟩
      · obtain ⟨tag, refused⟩ := not_forall.mp admitted
        obtain ⟨next, unknown⟩ := Classical.not_imp.mp refused
        exact .inr ⟨_, _, .tag here next unknown⟩
    · exact .inr ⟨_, _, .opcode here (not_exists.mp known)⟩

/-- An instruction is read exactly where the encoding of one stands whose arguments have a count of one
byte. No other encoding stands there, and the reader comes to its end. Any other reading fails as the
bytes say: at an operation code or a tag that stands for nothing, else where the first field begins that
the buffer does not hold. -/
theorem instruction_exact (buffer : Bytes) (position : Nat) :
    (∀ value after, outcome instruction (within buffer position) = (.ok value, after) ↔
      value.Fits ∧ value.encode <+: buffer.drop position ∧
        after = within buffer (position + value.encode.length)) ∧
    (∀ value other : RawInstruction, value.Fits → other.Fits → value.encode <+: buffer.drop position →
      other.encode <+: buffer.drop position → value = other) ∧
    ∀ fault after, outcome instruction (within buffer position) = (.error fault, after) ↔
      ∃ stop, Misread buffer position fault stop ∧ after = within buffer stop := by
  have read : ∀ value after, outcome instruction (within buffer position) = (.ok value, after) ↔
      value.Fits ∧ value.encode <+: buffer.drop position ∧
        after = within buffer (position + value.encode.length) := by
    intro value after
    rw [reads_instruction, Cursor.advances_within]
  refine ⟨read, ?_, ?_⟩
  · intro value other fits fits' stands stands'
    have one := (read value _).mpr ⟨fits, stands, rfl⟩
    have two := (read other _).mpr ⟨fits', stands', rfl⟩
    exact Except.ok.inj (congrArg Prod.fst (one.symm.trans two))
  · intro fault after
    constructor
    · intro failed
      cases reads_or_misread buffer position with
      | inl found =>
        obtain ⟨value, stop, found⟩ := found
        cases found.symm.trans failed
      | inr misread =>
        obtain ⟨fault', stop, misread⟩ := misread
        cases misread.fails.symm.trans failed
        exact ⟨stop, misread, rfl⟩
    · intro told
      obtain ⟨stop, misread, same⟩ := told
      rw [same]
      exact misread.fails

/-- A call that ends within its second argument, behind an instruction of one byte. -/
def cutCall : Bytes := [0x02, 0x53, 7, 0, 0, 0, 2, 1, 0, 5]

theorem instruction_exact_cutCall :
    outcome instruction (within cutCall 0) = (.ok .returnVoid, within cutCall 1) ∧
      ¬(RawInstruction.goto 7).encode <+: cutCall.drop 0 ∧
      outcome instruction (within cutCall 1) = (.error (.unexpectedEnd 9), within cutCall 9) := by
  have stands : RawInstruction.returnVoid.encode <+: cutCall.drop 0 := by decide
  refine ⟨((instruction_exact cutCall 0).1 _ _).mpr ⟨trivial, stands, rfl⟩, ?_, ?_⟩
  · intro other
    cases (instruction_exact cutCall 0).2.1 .returnVoid (.goto 7) trivial trivial stands other
  · have missing : FirstMissing cutCall 2 (Opcode.invokeStatic.layout 2) 9 :=
      ⟨[4, 1, 2], 2, [], rfl, by decide, by decide, by decide⟩
    have misread : Misread cutCall 1 (.unexpectedEnd 9) 9 :=
      .operand (show cutCall[1]? = some Opcode.invokeStatic.byte from rfl) (fun _ _ => trivial) missing
    exact ((instruction_exact cutCall 1).2.2 _ _).mpr ⟨9, misread, rfl⟩

end Instruction

end Reader

end ClassImage
