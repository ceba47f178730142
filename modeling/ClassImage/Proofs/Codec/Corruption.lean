import ClassImage.Proofs.Codec.Checksum
import ClassImage.Proofs.Codec.Prefixes

/-!
What a wrong byte does to an encoded image. The header is read field by field,
and each check has a fault of its own: for the format's name, for its version,
for the checksum and for the digest. A byte of the payload is caught by the
checksum, which comes before the digest, so of the digest only its length
matters here. The flags are the one field that nothing checks.
-/

namespace ClassImage

open Bytes (ofUInt32)

theorem Bytes.value_lt (bytes : Bytes) : value bytes < 256 ^ bytes.length := by
  have same := value_little bytes.length (value bytes)
  rw [little_value] at same
  rw [same]
  exact Nat.mod_lt _ (by positivity)

/-- Any four bytes are a number. -/
theorem Bytes.exists_ofUInt32 {bytes : Bytes} (size : bytes.length = 4) : ∃ word, bytes = ofUInt32 word := by
  have bound := value_lt bytes
  have back := little_value bytes
  rw [size] at bound back
  refine ⟨UInt32.ofNat (value bytes), ?_⟩
  rw [ofUInt32, UInt32.toNat_ofNat_of_lt' bound, back]

theorem Bytes.set_ne {bytes : Bytes} {place : Nat} {old byte : UInt8} (there : bytes[place]? = some old)
    (other : byte ≠ old) : bytes.set place byte ≠ bytes := by
  intro same
  have here := List.getElem?_set_self (a := byte) (List.getElem?_eq_some_iff.mp there).1
  rw [same, there] at here
  exact other (Option.some.inj here).symm

/-- A field of four bytes that is altered holds another number. -/
theorem Bytes.set_ofUInt32 {word : UInt32} {place : Nat} {old byte : UInt8}
    (there : (ofUInt32 word)[place]? = some old) (other : byte ≠ old) :
    ∃ altered ≠ word, (ofUInt32 word).set place byte = ofUInt32 altered := by
  have size : ((ofUInt32 word).set place byte).length = 4 := by
    rw [List.length_set, length_ofUInt32]
  obtain ⟨altered, whole⟩ := exists_ofUInt32 size
  refine ⟨altered, ?_, whole⟩
  rintro rfl
  exact set_ne there other whole

/-- A byte that is altered inside a field alters the field and nothing else. -/
theorem Bytes.set_field {bytes front field back : Bytes} (whole : bytes = front ++ (field ++ back))
    {place : Nat} {old : UInt8} (there : bytes[place]? = some old) (start : front.length ≤ place)
    (stop : place < front.length + field.length) :
    ∃ offset, field[offset]? = some old ∧
      ∀ byte, bytes.set place byte = front ++ (field.set offset byte ++ back) := by
  have inside : place - front.length < field.length := by omega
  refine ⟨place - front.length, ?_, fun byte => ?_⟩
  · rwa [whole, List.getElem?_append_right start, List.getElem?_append_left inside] at there
  · rw [whole, List.set_append_right _ _ start, List.set_append_left _ _ inside]

namespace Image

theorem length_magic : magic.length = 4 := rfl

/-- A header that says what the arguments say, and a payload. -/
def framed (name : Bytes) (version flags checksum : UInt32) (digest payload : Bytes) : Bytes :=
  name ++ (ofUInt32 version ++ (ofUInt32 flags ++ (ofUInt32 checksum ++ (digest ++ payload))))

theorem encode_framed (image : Image) :
    image.encode = framed magic version image.flags (Checksum.crc32 image.payload)
      (Digest.sha256 image.payload) image.payload := by
  simp only [encode, header, framed, List.append_assoc]

theorem adapt_bind_read {reader : Reader α} {write : α → Bytes} {valid : α → Prop}
    (reads : Reader.Reads reader write valid) {relabel : ReadFault → ImageFault}
    {next : α → ExceptT ImageFault (StateM Cursor) β} {value : α} (fits : valid value) (position : Nat)
    (rest : Bytes) :
    outcome (ExceptT.adapt relabel reader >>= next) ⟨position, write value ++ rest⟩ =
      outcome (next value) ⟨position + (write value).length, rest⟩ := by
  have read := (reads ⟨position, write value ++ rest⟩ value ⟨position + (write value).length, rest⟩).mpr
    ⟨fits, rfl, rfl⟩
  rw [outcome_bind, outcome_adapt_ok.mpr read]

theorem adapt_bind_bytes {relabel : ReadFault → ImageFault}
    {next : Bytes → ExceptT ImageFault (StateM Cursor) β} {count : Nat} {front : Bytes}
    (size : front.length = count) (position : Nat) (rest : Bytes) :
    outcome (ExceptT.adapt relabel (Reader.bytes count) >>= next) ⟨position, front ++ rest⟩ =
      outcome (next front) ⟨position + front.length, rest⟩ :=
  adapt_bind_read (Reader.reads_bytes count) size position rest

theorem refuse_bind {condition : Prop} [Decidable condition] {fault : ImageFault}
    {next : Unit → ExceptT ImageFault (StateM Cursor) α} (cursor : Cursor) :
    outcome (refuse condition fault >>= next) cursor =
      if condition then (.error fault, cursor) else outcome (next ()) cursor := by
  unfold refuse
  split
  · rfl
  · rfl

section Header

variable {name digest payload : Bytes} {version flags checksum : UInt32}

theorem decode_of_name (size : name.length = 4) (wrong : name ≠ magic) :
    decode (framed name version flags checksum digest payload) = .error (.invalidMagic name) := by
  change (outcome read ⟨0, name ++ _⟩).1 = _
  rw [read, adapt_bind_bytes size, refuse_bind, if_pos wrong]

theorem decode_of_version (wrong : version ≠ Image.version) :
    decode (framed magic version flags checksum digest payload) =
      .error (.unsupportedVersion version) := by
  change (outcome read ⟨0, magic ++ _⟩).1 = _
  rw [read, adapt_bind_bytes length_magic, refuse_bind, if_neg (not_not_intro rfl),
    adapt_bind_read Reader.reads_u32 trivial, refuse_bind, if_pos wrong]

/-- The checksum is compared first, and the digest only if the checksum is right. -/
theorem decode_of_payload (size : digest.length = 32)
    (wrong : checksum ≠ Checksum.crc32 payload ∨ digest ≠ Digest.sha256 payload) :
    decode (framed magic Image.version flags checksum digest payload) =
      .error (if checksum ≠ Checksum.crc32 payload then
          .checksumMismatch checksum (Checksum.crc32 payload)
        else .digestMismatch digest (Digest.sha256 payload)) := by
  change (outcome read ⟨0, magic ++ _⟩).1 = _
  rw [read, adapt_bind_bytes length_magic, refuse_bind, if_neg (not_not_intro rfl),
    adapt_bind_read Reader.reads_u32 trivial, refuse_bind, if_neg (not_not_intro rfl),
    adapt_bind_read Reader.reads_u32 trivial, adapt_bind_read Reader.reads_u32 trivial,
    adapt_bind_bytes size, get_bind, refuse_bind, refuse_bind]
  by_cases sum : checksum ≠ Checksum.crc32 payload
  · rw [if_pos sum, if_pos sum]
  · rw [if_neg sum, if_neg sum, if_pos (wrong.resolve_left sum)]

end Header

section Altered

variable {image : Image} {place : Nat} {old byte : UInt8} (there : image.encode[place]? = some old)
  (other : byte ≠ old)

include there other

theorem decode_set_name (stop : place < 4) :
    ∃ found ≠ magic, decode (image.encode.set place byte) = .error (.invalidMagic found) := by
  obtain ⟨offset, here, altered⟩ :=
    Bytes.set_field (image.encode_framed.trans (List.nil_append _).symm) there (Nat.zero_le _) stop
  have wrong := Bytes.set_ne here other
  refine ⟨_, wrong, ?_⟩
  rw [altered, List.nil_append]
  exact decode_of_name (List.length_set.trans length_magic) wrong

theorem decode_set_version (start : 4 ≤ place) (stop : place < 8) :
    ∃ found ≠ version, decode (image.encode.set place byte) = .error (.unsupportedVersion found) := by
  obtain ⟨offset, here, altered⟩ := Bytes.set_field image.encode_framed there start stop
  obtain ⟨found, wrong, same⟩ := Bytes.set_ofUInt32 here other
  refine ⟨found, wrong, ?_⟩
  rw [altered, same]
  exact decode_of_version wrong

theorem decode_set_flags (fits : image.Encodable) (start : 8 ≤ place) (stop : place < 12) :
    ∃ flags ≠ image.flags, decode (image.encode.set place byte) = .ok { image with flags } := by
  have whole := image.encode_framed
  rw [framed, ← List.append_assoc] at whole
  obtain ⟨offset, here, altered⟩ := Bytes.set_field whole there start stop
  obtain ⟨flags, wrong, same⟩ := Bytes.set_ofUInt32 here other
  refine ⟨flags, wrong, ?_⟩
  have written : image.encode.set place byte = ({ image with flags } : Image).encode := by
    rw [altered, same, encode_framed, framed, ← List.append_assoc]
    rfl
  rw [written]
  exact decode_eq_ok.mpr ⟨⟨fits.pool, fits.size, fits.classes⟩, rfl⟩

theorem decode_set_checksum (start : 12 ≤ place) (stop : place < 16) :
    ∃ found ≠ Checksum.crc32 image.payload, decode (image.encode.set place byte) =
      .error (.checksumMismatch found (Checksum.crc32 image.payload)) := by
  have whole := image.encode_framed
  rw [framed, ← List.append_assoc, ← List.append_assoc] at whole
  obtain ⟨offset, here, altered⟩ := Bytes.set_field whole there start stop
  obtain ⟨found, wrong, same⟩ := Bytes.set_ofUInt32 here other
  refine ⟨found, wrong, ?_⟩
  rw [altered, same, List.append_assoc, List.append_assoc]
  exact (decode_of_payload (Digest.length_sha256 _) (.inl wrong)).trans (by rw [if_pos wrong])

theorem decode_set_digest (start : 16 ≤ place) (stop : place < 48) :
    ∃ found ≠ Digest.sha256 image.payload, decode (image.encode.set place byte) =
      .error (.digestMismatch found (Digest.sha256 image.payload)) := by
  have whole := image.encode_framed
  rw [framed, ← List.append_assoc, ← List.append_assoc, ← List.append_assoc] at whole
  have size : (Digest.sha256 image.payload).length = 32 := Digest.length_sha256 _
  obtain ⟨offset, here, altered⟩ := Bytes.set_field whole there start (by rw [size]; exact stop)
  have wrong := Bytes.set_ne here other
  refine ⟨_, wrong, ?_⟩
  rw [altered, List.append_assoc, List.append_assoc, List.append_assoc]
  exact (decode_of_payload (List.length_set.trans size) (.inr wrong)).trans (by simp)

theorem decode_set_payload (start : 48 ≤ place) :
    ∃ found ≠ Checksum.crc32 image.payload, decode (image.encode.set place byte) =
      .error (.checksumMismatch (Checksum.crc32 image.payload) found) := by
  have whole : image.encode = header image.flags image.payload ++ (image.payload ++ []) := by
    rw [List.append_nil, encode]
  have inside := (List.getElem?_eq_some_iff.mp there).1
  rw [whole, List.length_append, List.append_nil] at inside
  have front : (header image.flags image.payload).length ≤ place := by rwa [length_header]
  obtain ⟨offset, here, altered⟩ := Bytes.set_field whole there front inside
  have wrong := (Checksum.crc32_set_ne here other).symm
  refine ⟨_, wrong.symm, ?_⟩
  rw [altered, List.append_nil]
  exact (decode_of_payload (Digest.length_sha256 _) (.inl wrong)).trans (by rw [if_pos wrong])

end Altered

/-- Every byte of an encoded image but those of its flags is covered. Where one byte is altered, the check of the
field that holds it fails, and a byte of the payload fails the checksum. With a byte of the flags
altered, the bytes decode to the image with other flags. -/
theorem decode_set (image : Image) (fits : image.Encodable) (place : Nat) (old byte : UInt8)
    (there : image.encode[place]? = some old) (other : byte ≠ old) :
    (place < 4 → ∃ found ≠ magic,
      decode (image.encode.set place byte) = .error (.invalidMagic found)) ∧
    (4 ≤ place → place < 8 → ∃ found ≠ version,
      decode (image.encode.set place byte) = .error (.unsupportedVersion found)) ∧
    (8 ≤ place → place < 12 → ∃ flags ≠ image.flags,
      decode (image.encode.set place byte) = .ok { image with flags }) ∧
    (12 ≤ place → place < 16 → ∃ found ≠ Checksum.crc32 image.payload,
      decode (image.encode.set place byte) =
        .error (.checksumMismatch found (Checksum.crc32 image.payload))) ∧
    (16 ≤ place → place < 48 → ∃ found ≠ Digest.sha256 image.payload,
      decode (image.encode.set place byte) =
        .error (.digestMismatch found (Digest.sha256 image.payload))) ∧
    (48 ≤ place → ∃ found ≠ Checksum.crc32 image.payload,
      decode (image.encode.set place byte) =
        .error (.checksumMismatch (Checksum.crc32 image.payload) found)) :=
  ⟨decode_set_name there other, decode_set_version there other, decode_set_flags there other fits,
    decode_set_checksum there other, decode_set_digest there other, decode_set_payload there other⟩

/-- The count of texts, which is where the payload begins, with one text more. -/
theorem decode_set_recursive :
    recursive.Encodable ∧ recursive.encode[48]? = some 3 ∧ (4 : UInt8) ≠ 3 ∧
      ∃ found ≠ Checksum.crc32 recursive.payload, decode (recursive.encode.set 48 4) =
        .error (.checksumMismatch (Checksum.crc32 recursive.payload) found) := by
  have there : recursive.encode[48]? = some 3 := by
    rw [encode, List.getElem?_append_right (length_header _ _).le, length_header]
    decide
  obtain ⟨-, -, -, -, -, payload⟩ :=
    decode_set recursive recursive_encodable 48 3 4 there (by decide)
  exact ⟨recursive_encodable, there, by decide, payload le_rfl⟩

end Image

end ClassImage
