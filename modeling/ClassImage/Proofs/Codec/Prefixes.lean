import ClassImage.Proofs.Codec.Image

/-!
Accepted bytes are prefix-free. What is written for a value tells where it ends,
whatever stands behind it: two readings of the same bytes agree on the value and
on what is left, table by table. A table's count is compared with what is left,
and more bytes only leave more room. The header has a fixed size and is compared
as it stands, so nothing is asked of the checksum or of the digest.
-/

namespace ClassImage

namespace Reader

/-- The bytes of a value that can be read determine the value and where it ends. -/
theorem Reads.delimits {reader : Reader α} {write : α → Bytes} {valid : α → Prop}
    (reads : Reads reader write valid) {first second : α} {left right : Bytes}
    (fits : valid first) (fits' : valid second)
    (same : write first ++ left = write second ++ right) : first = second ∧ left = right := by
  have read := (reads (Cursor.ofBytes (write first ++ left)) first
    ⟨0 + (write first).length, left⟩).mpr ⟨fits, rfl, rfl⟩
  have read' := (reads (Cursor.ofBytes (write first ++ left)) second
    ⟨0 + (write second).length, right⟩).mpr ⟨fits', same, rfl⟩
  rw [read] at read'
  simp only [Prod.mk.injEq, Except.ok.injEq, Cursor.mk.injEq] at read'
  exact ⟨read'.1, read'.2.2⟩

end Reader

namespace Image

theorem length_header (flags : UInt32) (payload : Bytes) : (header flags payload).length = 48 := by
  simp [header, magic, Bytes.length_ofUInt32, Digest.length_sha256]

/-- Nothing can follow a payload to make another payload. -/
theorem payload_delimits {image other : Image} {extra : Bytes} (fits : image.Encodable)
    (fits' : other.Encodable) (same : image.payload ++ extra = other.payload) : extra = [] := by
  rw [payload, payload, List.append_assoc] at same
  obtain ⟨-, same⟩ := Reader.reads_pool.delimits fits.pool fits'.pool same
  rw [← List.append_nil (Bytes.ofTable ClassDef.encode other.classes)] at same
  exact (Reader.reads_classDefs.delimits ⟨fits.size, fits.classes⟩ ⟨fits'.size, fits'.classes⟩ same).2

theorem encode_delimits {image other : Image} {extra : Bytes} (fits : image.Encodable)
    (fits' : other.Encodable) (same : image.encode ++ extra = other.encode) : extra = [] := by
  rw [encode, encode, List.append_assoc] at same
  have sizes : (header image.flags image.payload).length = (header other.flags other.payload).length := by
    rw [length_header, length_header]
  exact payload_delimits fits fits' (List.append_inj_right same sizes)

/-- Of two accepted byte strings neither is a strict prefix of the other. So neither what extends the
encoding of an image nor what is cut off from it decodes. -/
theorem decode_prefixFree :
    (∀ bytes extra image longer, decode bytes = .ok image → decode (bytes ++ extra) = .ok longer →
      extra = []) ∧
    ∀ image : Image, image.Encodable → ∀ extra ≠ [],
      (∃ fault, decode (image.encode ++ extra) = .error fault) ∧
      ∀ front, front ++ extra = image.encode → ∃ fault, decode front = .error fault := by
  have free : ∀ bytes extra image longer, decode bytes = .ok image →
      decode (bytes ++ extra) = .ok longer → extra = [] := by
    intro bytes extra image longer accepted accepted'
    obtain ⟨fits, rfl⟩ := decode_eq_ok.mp accepted
    obtain ⟨fits', same⟩ := decode_eq_ok.mp accepted'
    exact encode_delimits fits fits' same
  refine ⟨free, ?_⟩
  intro image fits extra more
  have accepted : decode image.encode = .ok image := decode_eq_ok.mpr ⟨fits, rfl⟩
  constructor
  · cases extended : decode (image.encode ++ extra) with
    | error fault => exact ⟨fault, rfl⟩
    | ok longer => exact absurd (free _ _ _ _ accepted extended) more
  · intro front whole
    rw [← whole] at accepted
    cases cut : decode front with
    | error fault => exact ⟨fault, rfl⟩
    | ok shorter => exact absurd (free _ _ _ _ cut accepted) more

/-- A byte behind an encoding is one too many, and without its last byte one is missing. -/
theorem decode_prefixFree_recursive :
    decode recursive.encode = .ok recursive ∧ decode (recursive.encode ++ []) = .ok recursive ∧
      ([] : Bytes) = [] ∧ recursive.Encodable ∧
      (∃ fault, decode (recursive.encode ++ [0]) = .error fault) ∧
      ∃ front last, front ++ [last] = recursive.encode ∧ ∃ fault, decode front = .error fault := by
  have accepted : decode recursive.encode = .ok recursive := decode_eq_ok.mpr ⟨recursive_encodable, rfl⟩
  have accepted' : decode (recursive.encode ++ []) = .ok recursive := by
    rw [List.append_nil]
    exact accepted
  have filled : recursive.encode ≠ [] := by
    intro empty
    have size := congrArg List.length empty
    rw [encode, List.length_append, length_header, List.length_nil] at size
    omega
  have split := List.dropLast_append_getLast filled
  obtain ⟨free, ends⟩ := decode_prefixFree
  refine ⟨accepted, accepted', free _ _ _ _ accepted accepted', recursive_encodable, ?_, ?_⟩
  · exact (ends recursive recursive_encodable [0] (by decide)).1
  · exact ⟨_, _, split, (ends recursive recursive_encodable _ (by simp)).2 _ split⟩

end Image

end ClassImage
