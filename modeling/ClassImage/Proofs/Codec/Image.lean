import ClassImage.Format.Image
import ClassImage.Proofs.Codec.Instruction

/-!
Images are read back exactly. An image can be told from its bytes when the
counts that are written fit their fields; every other image shares its bytes
with one that fits. Reading accepts a byte string only if it is what is written
for the image that was read, so an image has one encoding.
-/

namespace ClassImage

/-- Every count of the pool has four bytes. -/
structure Pool.Encodable (pool : Pool) : Prop where
  texts : pool.texts.size < 2 ^ 32
  textSizes : ∀ text ∈ pool.texts, text.utf8ByteSize < 2 ^ 32
  types : pool.types.size < 2 ^ 32
  protos : pool.protos.size < 2 ^ 32
  parameters : ∀ proto ∈ pool.protos, proto.parameters.length < 2 ^ 32
  fields : pool.fields.size < 2 ^ 32
  methods : pool.methods.size < 2 ^ 32

/-- The kind table has no count of its own: it has one entry for each register. -/
structure CodeItem.Encodable (code : CodeItem) : Prop where
  kinds : code.kinds.length = code.registers.toNat
  size : code.instructions.size < 2 ^ 32
  instructions : ∀ instruction ∈ code.instructions, instruction.Fits

def MethodDef.Encodable (method : MethodDef) : Prop :=
  ∀ code ∈ method.code, code.Encodable

structure ClassDef.Encodable (definition : ClassDef) : Prop where
  interfaces : definition.interfaces.length < 2 ^ 32
  fields : definition.fields.length < 2 ^ 32
  size : definition.methods.length < 2 ^ 32
  methods : ∀ method ∈ definition.methods, method.Encodable

structure Image.Encodable (image : Image) : Prop where
  pool : image.pool.Encodable
  size : image.classes.length < 2 ^ 32
  classes : ∀ definition ∈ image.classes, definition.Encodable

namespace Bytes

theorem length_ofUInt32 (word : UInt32) : (ofUInt32 word).length = 4 := length_little 4 _

theorem length_ofTable_ge (write : α → Bytes) (entries : List α) : 4 ≤ (ofTable write entries).length := by
  rw [ofTable, List.length_append, ofCount, length_little]
  exact Nat.le_add_right _ _

end Bytes

namespace Reader

open Bytes (ofUInt16 ofUInt32 ofOptional ofTable)

theorem reads_words : Reads (table 4 u32) (ofTable ofUInt32)
    (fun words => words.length < 2 ^ 32) := by
  have reads : Reads (table 4 u32) (ofTable ofUInt32) _ :=
    reads_table reads_u32 fun word _ => (Bytes.length_ofUInt32 word).ge
  simpa only [implies_true, and_true] using reads

theorem reads_proto : Reads proto
    (fun proto => ofUInt32 proto.result ++ ofTable ofUInt32 proto.parameters)
    (fun proto => proto.parameters.length < 2 ^ 32) := by
  intro cursor value after
  simp only [proto, reads_u32.bind_ok, reads_words.bind_ok, outcome_pure, true_and, Prod.mk.injEq,
    Except.ok.injEq, Cursor.advances_append]
  constructor
  · rintro ⟨result, middle, moved, parameters, stop, ⟨small, moved'⟩, rfl, rfl⟩
    exact ⟨small, middle, moved, moved'⟩
  · rintro ⟨small, middle, moved, moved'⟩
    exact ⟨value.result, middle, moved, value.parameters, after, ⟨small, moved'⟩, rfl, rfl⟩

theorem reads_fieldRef : Reads fieldRef
    (fun field => ofUInt32 field.owner ++ ofUInt32 field.type ++ ofUInt32 field.name)
    (fun _ => True) := by
  intro cursor value after
  apply (three_fields reads_u32 reads_u32 reads_u32 FieldRef.mk).trans
  constructor
  · rintro ⟨owner, type, name, rfl, moved⟩
    exact ⟨trivial, moved⟩
  · rintro ⟨-, moved⟩
    exact ⟨value.owner, value.type, value.name, rfl, moved⟩

theorem reads_methodRef : Reads methodRef
    (fun method => ofUInt32 method.owner ++ ofUInt32 method.proto ++ ofUInt32 method.name)
    (fun _ => True) := by
  intro cursor value after
  apply (three_fields reads_u32 reads_u32 reads_u32 MethodRef.mk).trans
  constructor
  · rintro ⟨owner, proto, name, rfl, moved⟩
    exact ⟨trivial, moved⟩
  · rintro ⟨-, moved⟩
    exact ⟨value.owner, value.proto, value.name, rfl, moved⟩

theorem reads_fieldDef : Reads (do return FieldDef.mk (← u32) (← u32))
    (fun field => ofUInt32 field.field ++ ofUInt32 field.access) (fun _ => True) := by
  intro cursor value after
  apply (two_fields reads_u32 reads_u32 FieldDef.mk).trans
  constructor
  · rintro ⟨field, access, rfl, moved⟩
    exact ⟨trivial, moved⟩
  · rintro ⟨-, moved⟩
    exact ⟨value.field, value.access, rfl, moved⟩

theorem reads_texts : Reads (table 4 text) (ofTable Bytes.ofText)
    (fun texts => texts.length < 2 ^ 32 ∧ ∀ text ∈ texts, text.utf8ByteSize < 2 ^ 32) := by
  refine reads_table reads_text fun text _ => ?_
  rw [Bytes.ofText, List.length_append, Bytes.ofCount, Bytes.length_little]
  exact Nat.le_add_right _ _

theorem reads_protos : Reads (table 8 proto)
    (ofTable fun proto => ofUInt32 proto.result ++ ofTable ofUInt32 proto.parameters)
    (fun protos => protos.length < 2 ^ 32 ∧ ∀ proto ∈ protos, proto.parameters.length < 2 ^ 32) := by
  refine reads_table reads_proto fun proto _ => ?_
  have least := Bytes.length_ofTable_ge ofUInt32 proto.parameters
  rw [List.length_append, Bytes.length_ofUInt32]
  omega

theorem reads_fieldRefs : Reads (table 12 fieldRef)
    (ofTable fun field => ofUInt32 field.owner ++ ofUInt32 field.type ++ ofUInt32 field.name)
    (fun fields => fields.length < 2 ^ 32) := by
  have reads := reads_table reads_fieldRef (show ∀ field, True → max 12 1 ≤ _ from fun field _ => by
    simp only [List.length_append, Bytes.length_ofUInt32]
    decide)
  simpa only [implies_true, and_true] using reads

theorem reads_methodRefs : Reads (table 12 methodRef)
    (ofTable fun method => ofUInt32 method.owner ++ ofUInt32 method.proto ++ ofUInt32 method.name)
    (fun methods => methods.length < 2 ^ 32) := by
  have reads := reads_table reads_methodRef (show ∀ method, True → max 12 1 ≤ _ from fun method _ => by
    simp only [List.length_append, Bytes.length_ofUInt32]
    decide)
  simpa only [implies_true, and_true] using reads

theorem reads_fieldDefs : Reads (table 8 do return FieldDef.mk (← u32) (← u32))
    (ofTable fun field => ofUInt32 field.field ++ ofUInt32 field.access)
    (fun fields => fields.length < 2 ^ 32) := by
  have reads := reads_table reads_fieldDef (show ∀ field, True → max 8 1 ≤ _ from fun field _ => by
    simp only [List.length_append, Bytes.length_ofUInt32]
    decide)
  simpa only [implies_true, and_true] using reads

theorem reads_pool : Reads pool Pool.encode Pool.Encodable := by
  intro cursor value after
  simp only [pool, reads_texts.bind_ok, reads_words.bind_ok, reads_protos.bind_ok, reads_fieldRefs.bind_ok,
    reads_methodRefs.bind_ok, outcome_pure, Prod.mk.injEq, Except.ok.injEq, Pool.encode,
    Cursor.advances_append]
  constructor
  · rintro ⟨texts, c₁, ⟨⟨textCount, textSizes⟩, moved₁⟩, types, c₂, ⟨typeCount, moved₂⟩, protos, c₃,
      ⟨⟨protoCount, parameters⟩, moved₃⟩, fields, c₄, ⟨fieldCount, moved₄⟩, methods, c₅,
      ⟨methodCount, moved₅⟩, rfl, rfl⟩
    refine ⟨⟨textCount, ?_, typeCount, protoCount, ?_, fieldCount, methodCount⟩,
      c₄, ⟨c₃, ⟨c₂, ⟨c₁, moved₁, moved₂⟩, moved₃⟩, moved₄⟩, moved₅⟩
    · simpa only [List.mem_toArray] using textSizes
    · simpa only [List.mem_toArray] using parameters
  · rintro ⟨fits, c₄, ⟨c₃, ⟨c₂, ⟨c₁, moved₁, moved₂⟩, moved₃⟩, moved₄⟩, moved₅⟩
    have textSizes : ∀ text ∈ value.texts.toList, text.utf8ByteSize < 2 ^ 32 := by
      simpa only [Array.mem_toList_iff] using fits.textSizes
    have parameters : ∀ proto ∈ value.protos.toList, proto.parameters.length < 2 ^ 32 := by
      simpa only [Array.mem_toList_iff] using fits.parameters
    exact ⟨_, c₁, ⟨⟨fits.texts, textSizes⟩, moved₁⟩, _, c₂, ⟨fits.types, moved₂⟩, _, c₃,
      ⟨⟨fits.protos, parameters⟩, moved₃⟩, _, c₄, ⟨fits.fields, moved₄⟩, _, after,
      ⟨fits.methods, moved₅⟩, rfl, rfl⟩

theorem reads_instructions : Reads (table 1 instruction) (ofTable RawInstruction.encode)
    (fun instructions => instructions.length < 2 ^ 32 ∧
      ∀ instruction ∈ instructions, instruction.Fits) := by
  refine reads_table reads_instruction fun instruction _ => ?_
  rw [RawInstruction.encode, List.length_cons]
  exact Nat.le_add_left _ _

theorem reads_codeItem : Reads codeItem CodeItem.encode CodeItem.Encodable := by
  intro cursor value after
  simp only [codeItem, reads_u16.bind_ok, (reads_bytes _).bind_ok, reads_instructions.bind_ok,
    outcome_pure, true_and, id, Prod.mk.injEq, Except.ok.injEq, CodeItem.encode, Cursor.advances_append]
  constructor
  · rintro ⟨registers, c₁, moved₁, parameterRegisters, c₂, moved₂, kinds, c₃, ⟨length, moved₃⟩,
      instructions, c₄, ⟨⟨small, fits⟩, moved₄⟩, rfl, rfl⟩
    refine ⟨⟨length, small, ?_⟩, c₃, ⟨c₂, ⟨c₁, moved₁, moved₂⟩, moved₃⟩, moved₄⟩
    simpa only [List.mem_toArray] using fits
  · rintro ⟨fits, c₃, ⟨c₂, ⟨c₁, moved₁, moved₂⟩, moved₃⟩, moved₄⟩
    have instructions : ∀ instruction ∈ value.instructions.toList, instruction.Fits := by
      simpa only [Array.mem_toList_iff] using fits.instructions
    exact ⟨_, c₁, moved₁, _, c₂, moved₂, _, c₃, ⟨fits.kinds, moved₃⟩, _, after,
      ⟨⟨fits.size, instructions⟩, moved₄⟩, rfl, rfl⟩

theorem reads_methodDef : Reads methodDef MethodDef.encode MethodDef.Encodable := by
  intro cursor value after
  simp only [methodDef, reads_u32.bind_ok, reads_u8.bind_ok, position_bind, true_and, MethodDef.encode,
    Cursor.advances_append]
  constructor
  · rintro ⟨method, c₁, moved₁, access, c₂, moved₂, tag, c₃, moved₃, done⟩
    split_ifs at done with absent present
    · cases done
      exact ⟨by simp [MethodDef.Encodable], c₂, ⟨c₁, moved₁, moved₂⟩, absent ▸ moved₃⟩
    · obtain ⟨code, c₄, ⟨fits, moved₄⟩, done⟩ := reads_codeItem.bind_ok.mp done
      cases done
      refine ⟨by simpa [MethodDef.Encodable] using fits, c₂, ⟨c₁, moved₁, moved₂⟩, ?_⟩
      exact Cursor.advances_append.mpr ⟨c₃, present ▸ moved₃, moved₄⟩
    · cases done
  · rintro ⟨fits, c₂, ⟨c₁, moved₁, moved₂⟩, moved⟩
    refine ⟨_, c₁, moved₁, _, c₂, moved₂, ?_⟩
    obtain ⟨method, access, _ | code⟩ := value
    · exact ⟨0, after, moved, rfl⟩
    · obtain ⟨c₃, moved₃, moved₄⟩ := Cursor.advances_append.mp (show
        c₂.Advances ([1] ++ code.encode) after from moved)
      exact ⟨1, c₃, moved₃, reads_codeItem.bind_ok.mpr ⟨code, after, ⟨fits code rfl, moved₄⟩, rfl⟩⟩

theorem reads_methodDefs : Reads (table 9 methodDef) (ofTable MethodDef.encode)
    (fun methods => methods.length < 2 ^ 32 ∧ ∀ method ∈ methods, method.Encodable) := by
  refine reads_table reads_methodDef fun method _ => ?_
  simp only [MethodDef.encode, List.length_append, Bytes.length_ofUInt32]
  split
  · simp
  · simp only [List.length_cons]
    omega

theorem reads_classDef : Reads classDef ClassDef.encode ClassDef.Encodable := by
  intro cursor value after
  simp only [classDef, reads_u32.bind_ok, reads_optional.bind_ok, reads_words.bind_ok,
    reads_fieldDefs.bind_ok, reads_methodDefs.bind_ok, outcome_pure, true_and, Prod.mk.injEq,
    Except.ok.injEq, ClassDef.encode, Cursor.advances_append]
  constructor
  · rintro ⟨type, c₁, moved₁, access, c₂, moved₂, superclass, c₃, moved₃, interfaces, c₄,
      ⟨interfaceCount, moved₄⟩, source, c₅, moved₅, fields, c₆, ⟨fieldCount, moved₆⟩, methods, c₇,
      ⟨⟨methodCount, fits⟩, moved₇⟩, rfl, rfl⟩
    exact ⟨⟨interfaceCount, fieldCount, methodCount, fits⟩, c₆, ⟨c₅, ⟨c₄, ⟨c₃, ⟨c₂, ⟨c₁, moved₁, moved₂⟩,
      moved₃⟩, moved₄⟩, moved₅⟩, moved₆⟩, moved₇⟩
  · rintro ⟨fits, c₆, ⟨c₅, ⟨c₄, ⟨c₃, ⟨c₂, ⟨c₁, moved₁, moved₂⟩, moved₃⟩, moved₄⟩, moved₅⟩, moved₆⟩, moved₇⟩
    exact ⟨_, c₁, moved₁, _, c₂, moved₂, _, c₃, moved₃, _, c₄, ⟨fits.interfaces, moved₄⟩, _, c₅, moved₅,
      _, c₆, ⟨fits.fields, moved₆⟩, _, after, ⟨⟨fits.size, fits.methods⟩, moved₇⟩, rfl, rfl⟩

theorem reads_classDefs : Reads (table 4 classDef) (ofTable ClassDef.encode)
    (fun classes => classes.length < 2 ^ 32 ∧ ∀ definition ∈ classes, definition.Encodable) := by
  refine reads_table reads_classDef fun definition _ => ?_
  simp only [ClassDef.encode, List.length_append, Bytes.length_ofUInt32]
  omega

end Reader

theorem Digest.length_sha256 (message : Bytes) : (Digest.sha256 message).length = 32 := by
  simp [Digest.sha256, Digest.output, Digest.bigEndian, Bytes.length_little]

namespace Image

theorem adapt_bind_ok {reader : Reader α} {write : α → Bytes} {valid : α → Prop}
    (reads : Reader.Reads reader write valid) {relabel : ReadFault → ImageFault}
    {next : α → ExceptT ImageFault (StateM Cursor) β} {cursor after : Cursor} {result : β} :
    outcome (ExceptT.adapt relabel reader >>= next) cursor = (.ok result, after) ↔
      ∃ value middle, (valid value ∧ cursor.Advances (write value) middle) ∧
        outcome (next value) middle = (.ok result, after) := by
  simp only [outcome_bind_ok, outcome_adapt_ok, reads _ _ _]

/-- The payload is what stands after the header, and the header repeats what it was computed from. -/
theorem outcome_read_ok {cursor after : Cursor} {image : Image} :
    outcome read cursor = (.ok image, after) ↔
      image.Encodable ∧ cursor.Advances image.encode after ∧ after.rest = [] := by
  simp only [read, adapt_bind_ok (Reader.reads_bytes _), adapt_bind_ok Reader.reads_u32, refuse_bind_ok,
    get_bind_ok, adapt_bind_ok Reader.reads_pool, adapt_bind_ok Reader.reads_classDefs, outcome_pure,
    true_and, id, ne_eq, not_not, Prod.mk.injEq, Except.ok.injEq, encode, header, payload,
    Cursor.advances_append, Cursor.hasMore, Bool.not_eq_false, Bool.not_eq_eq_eq_not, Bool.not_true,
    List.isEmpty_iff]
  constructor
  · rintro ⟨_, c₁, ⟨-, moved₁⟩, rfl, _, c₂, moved₂, rfl, flags, c₃, moved₃, _, c₄, moved₄, _, c₅,
      ⟨-, moved₅⟩, rfl, rfl, pool, c₆, ⟨poolFits, moved₆⟩, classes, c₇, ⟨⟨count, fits⟩, moved₇⟩,
      nothing, rfl, rfl⟩
    have content : c₅.rest = pool.encode ++ Bytes.ofTable ClassDef.encode classes := by
      rw [moved₆.1, moved₇.1, nothing, List.append_nil]
    rw [content] at moved₄ moved₅
    exact ⟨⟨poolFits, count, fits⟩, ⟨c₅, ⟨c₄, ⟨c₃, ⟨c₂, ⟨c₁, moved₁, moved₂⟩, moved₃⟩, moved₄⟩, moved₅⟩,
      c₆, moved₆, moved₇⟩, nothing⟩
  · rintro ⟨fits, ⟨c₅, ⟨c₄, ⟨c₃, ⟨c₂, ⟨c₁, moved₁, moved₂⟩, moved₃⟩, moved₄⟩, moved₅⟩, c₆, moved₆, moved₇⟩,
      nothing⟩
    have content : c₅.rest = image.pool.encode ++ Bytes.ofTable ClassDef.encode image.classes := by
      rw [moved₆.1, moved₇.1, nothing, List.append_nil]
    rw [← content] at moved₄ moved₅
    exact ⟨magic, c₁, ⟨rfl, moved₁⟩, rfl, version, c₂, moved₂, rfl, image.flags, c₃, moved₃, _, c₄, moved₄,
      _, c₅, ⟨Digest.length_sha256 _, moved₅⟩, rfl, rfl, image.pool, c₆, ⟨fits.pool, moved₆⟩,
      image.classes, after, ⟨⟨fits.size, fits.classes⟩, moved₇⟩, nothing, rfl, rfl⟩

/-- Decoding accepts exactly the encodings of encodable images, and each for the image it encodes. -/
theorem decode_eq_ok {bytes : Bytes} {image : Image} :
    decode bytes = .ok image ↔ image.Encodable ∧ bytes = image.encode := by
  have unfolded : decode bytes = (outcome read (Cursor.ofBytes bytes)).1 := rfl
  rw [unfolded]
  constructor
  · intro found
    obtain ⟨fits, moved, nothing⟩ := outcome_read_ok.mp (Prod.ext found rfl)
    refine ⟨fits, ?_⟩
    rw [← List.append_nil image.encode, ← nothing]
    exact moved.1
  · rintro ⟨fits, rfl⟩
    have moved : (Cursor.ofBytes image.encode).Advances image.encode ⟨image.encode.length, []⟩ :=
      ⟨by simp [Cursor.ofBytes], by simp [Cursor.ofBytes]⟩
    rw [outcome_read_ok.mpr ⟨fits, moved, rfl⟩]

/-- A class with one method, which calls itself and returns. -/
def recursive : Image where
  flags := 0
  pool := ⟨#["LMain;", "run", "V"], #[0, 2], #[⟨1, []⟩], #[], #[⟨0, 0, 1⟩]⟩
  classes := [⟨0, 1, none, [], none, [],
    [⟨0, 8, some ⟨2, 1, [0, 5], #[.constFloat 0 0x7FC00001, .invoke .static 0 [0, 1], .returnVoid]⟩⟩]⟩]

theorem recursive_encodable : recursive.Encodable where
  pool := by constructor <;> decide
  size := by decide
  classes := by
    intro definition member
    cases List.mem_singleton.mp member
    refine ⟨by decide, by decide, by decide, ?_⟩
    intro method member code found
    cases List.mem_singleton.mp member
    cases Option.mem_some.mp found
    exact ⟨rfl, by decide, by simp [RawInstruction.Fits]⟩

/-- An image whose counts fit is what its encoding decodes to. -/
theorem decode_encode (image : Image) (fits : image.Encodable) : decode image.encode = .ok image :=
  decode_eq_ok.mpr ⟨fits, rfl⟩

theorem decode_encode_recursive : recursive.Encodable ∧ decode recursive.encode = .ok recursive :=
  ⟨recursive_encodable, decode_encode recursive recursive_encodable⟩

/-- What decodes is the encoding of what it decodes to, so no other bytes decode to the same image. -/
theorem encode_of_decode (bytes : Bytes) (image : Image) (found : decode bytes = .ok image) :
    image.encode = bytes ∧ ∀ other, decode other = .ok image → other = bytes := by
  have canonical := (decode_eq_ok.mp found).2
  refine ⟨canonical.symm, ?_⟩
  intro other found'
  rw [canonical]
  exact (decode_eq_ok.mp found').2

theorem encode_of_decode_recursive :
    decode recursive.encode = .ok recursive ∧ recursive.encode = recursive.encode ∧
      ∀ other, decode other = .ok recursive → other = recursive.encode :=
  have found : decode recursive.encode = .ok recursive := decode_eq_ok.mpr ⟨recursive_encodable, rfl⟩
  ⟨found, encode_of_decode recursive.encode recursive found⟩

end Image

end ClassImage
