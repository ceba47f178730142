import ClassImage.Proofs.Outcome

/-!
Readers as inverses of writers. A cursor advances over a byte string when the
string is what stands between the two positions. A reader reads the texts of a
writer when it yields a value exactly by advancing over what the writer gives
for that value; the laws compose along the sequence of fields, so a format is
read back exactly when each of its fields is.
-/

namespace ClassImage

/-- The bytes stand before the cursor and are all that is passed on the way to the other cursor. -/
def Cursor.Advances (cursor : Cursor) (bytes : Bytes) (after : Cursor) : Prop :=
  cursor.rest = bytes ++ after.rest ∧ after.position = cursor.position + bytes.length

namespace Cursor

theorem advances_nil {cursor after : Cursor} : cursor.Advances [] after ↔ after = cursor := by
  cases cursor
  cases after
  simp [Advances, and_comm, eq_comm]

theorem advances_append {cursor after : Cursor} {front back : Bytes} :
    cursor.Advances (front ++ back) after ↔
      ∃ middle, cursor.Advances front middle ∧ middle.Advances back after := by
  constructor
  · rintro ⟨rest, position⟩
    refine ⟨⟨cursor.position + front.length, back ++ after.rest⟩, ⟨?_, rfl⟩, rfl, ?_⟩
    · rw [rest, List.append_assoc]
    · rw [position, List.length_append, Nat.add_assoc]
  · rintro ⟨middle, ⟨rest, position⟩, rest', position'⟩
    refine ⟨?_, ?_⟩
    · rw [rest, rest', List.append_assoc]
    · rw [position', position, List.length_append, Nat.add_assoc]

theorem Advances.remaining {cursor after : Cursor} {bytes : Bytes}
    (moved : cursor.Advances bytes after) : bytes.length ≤ cursor.remaining := by
  rw [Cursor.remaining, moved.1, List.length_append]
  exact Nat.le_add_right _ _

end Cursor

theorem Bytes.value_little (width number : Nat) :
    value (little width number) = number % 256 ^ width := by
  induction width generalizing number with
  | zero => simp [little, value, Nat.mod_one]
  | succ width ih =>
    have low : (UInt8.ofNat number).toNat = number % 256 := by simp
    rw [little, value, ih, low, Nat.pow_succ, Nat.mul_comm (256 ^ width), Nat.mod_mul]

namespace Reader

/-- The reader yields a value exactly by passing over what is written for it. Only the valid
values can be told from their bytes. -/
def Reads (reader : Reader α) (write : α → Bytes) (valid : α → Prop) : Prop :=
  ∀ cursor value after,
    outcome reader cursor = (.ok value, after) ↔ valid value ∧ cursor.Advances (write value) after

theorem outcome_position (cursor : Cursor) :
    outcome position cursor = (.ok cursor.position, cursor) := rfl

theorem position_bind (next : Nat → Reader α) (cursor : Cursor) :
    outcome (position >>= next) cursor = outcome (next cursor.position) cursor := rfl

theorem split?_eq_some {count : Nat} {bytes front back : Bytes} :
    split? count bytes = some (front, back) ↔ bytes = front ++ back ∧ front.length = count := by
  induction count generalizing bytes front back with
  | zero =>
    simp only [split?, Option.some.injEq, Prod.mk.injEq, List.length_eq_zero_iff]
    constructor
    · rintro ⟨rfl, rfl⟩
      exact ⟨rfl, rfl⟩
    · rintro ⟨rfl, rfl⟩
      exact ⟨rfl, rfl⟩
  | succ count ih =>
    cases bytes with
    | nil => cases front <;> simp [split?]
    | cons byte bytes =>
      cases found : split? count bytes with
      | none =>
        simp only [split?, found, reduceCtorEq, false_iff]
        rintro ⟨same, size⟩
        cases front with
        | nil => simp at size
        | cons first front =>
          simp only [List.cons_append, List.cons.injEq, List.length_cons, Nat.add_right_cancel_iff] at same size
          rw [ih.mpr ⟨same.2, size⟩] at found
          cases found
      | some pair =>
        obtain ⟨head, tail⟩ := pair
        obtain ⟨rfl, size⟩ := ih.mp found
        simp only [split?, found, Option.some.injEq, Prod.mk.injEq]
        constructor
        · rintro ⟨rfl, rfl⟩
          simp [size]
        · rintro ⟨same, size'⟩
          have parts : (byte :: head) ++ tail = front ++ back := by simpa using same
          exact List.append_inj parts (by simp [size, size'])

theorem reads_bytes (count : Nat) : Reads (bytes count) id (·.length = count) := by
  intro cursor value after
  obtain ⟨start, rest⟩ := cursor
  obtain ⟨stop, left⟩ := after
  simp only [outcome, bytes, Cursor.Advances, id]
  cases found : split? count rest with
  | none =>
    simp only [Prod.mk.injEq, reduceCtorEq, false_and, false_iff]
    rintro ⟨size, same, -⟩
    rw [split?_eq_some.mpr ⟨same, size⟩] at found
    cases found
  | some pair =>
    obtain ⟨front, back⟩ := pair
    obtain ⟨rfl, size⟩ := split?_eq_some.mp found
    simp only [Prod.mk.injEq, Except.ok.injEq, Cursor.mk.injEq]
    constructor
    · rintro ⟨rfl, rfl, rfl⟩
      exact ⟨size, rfl, by rw [size]⟩
    · rintro ⟨size', same, rfl⟩
      obtain ⟨rfl, rfl⟩ := List.append_inj same (size.trans size'.symm)
      exact ⟨rfl, by rw [size], rfl⟩

theorem Reads.bind_ok {reader : Reader α} {write : α → Bytes} {valid : α → Prop}
    (reads : Reads reader write valid) {next : α → Reader β} {cursor after : Cursor} {result : β} :
    outcome (reader >>= next) cursor = (.ok result, after) ↔
      ∃ value middle, (valid value ∧ cursor.Advances (write value) middle) ∧
        outcome (next value) middle = (.ok result, after) := by
  simp only [outcome_bind_ok, reads _ _ _]

/-- A change of representation that loses nothing on the values read. -/
theorem Reads.map {reader : Reader α} {write : α → Bytes} {valid : α → Prop}
    (reads : Reads reader write valid) (toValue : α → β) (ofValue : β → α) {good : β → Prop}
    (into : ∀ raw, valid raw → good (toValue raw) ∧ ofValue (toValue raw) = raw)
    (onto : ∀ value, good value → valid (ofValue value) ∧ toValue (ofValue value) = value) :
    Reads (do return toValue (← reader)) (fun value => write (ofValue value)) good := by
  intro cursor value after
  rw [outcome_bind_ok]
  constructor
  · rintro ⟨raw, middle, found, same⟩
    cases same
    obtain ⟨allowed, moved⟩ := (reads _ _ _).mp found
    obtain ⟨accepted, back⟩ := into raw allowed
    refine ⟨accepted, ?_⟩
    simp only [back]
    exact moved
  · rintro ⟨accepted, moved⟩
    obtain ⟨allowed, back⟩ := onto value accepted
    exact ⟨_, _, (reads _ _ _).mpr ⟨allowed, moved⟩, by rw [back, outcome_pure]⟩

theorem reads_number (width : Nat) :
    Reads (number width) (Bytes.little width) (· < 256 ^ width) := by
  apply Reads.map (reads_bytes width) Bytes.value (Bytes.little width)
  · intro raw size
    have same : Bytes.little width (Bytes.value raw) = raw := by
      rw [← size]
      exact Bytes.little_value raw
    refine ⟨?_, same⟩
    rw [← same, Bytes.value_little]
    exact Nat.mod_lt _ (Nat.pow_pos (by decide))
  · intro number small
    exact ⟨Bytes.length_little width number, by rw [Bytes.value_little, Nat.mod_eq_of_lt small]⟩

theorem reads_u8 : Reads u8 (fun byte => [byte]) (fun _ => True) := by
  have reads : Reads u8 (fun byte => Bytes.little 1 byte.toNat) (fun _ => True) :=
    Reads.map (reads_number 1) UInt8.ofNat UInt8.toNat
      (fun _ small => ⟨trivial, UInt8.toNat_ofNat_of_lt' small⟩)
      (fun byte _ => ⟨byte.toNat_lt, UInt8.ofNat_toNat⟩)
  simpa only [Bytes.little, UInt8.ofNat_toNat] using reads

theorem reads_u16 : Reads u16 Bytes.ofUInt16 (fun _ => True) :=
  Reads.map (reads_number 2) UInt16.ofNat UInt16.toNat
    (fun _ small => ⟨trivial, UInt16.toNat_ofNat_of_lt' small⟩)
    (fun word _ => ⟨word.toNat_lt, UInt16.ofNat_toNat⟩)

theorem reads_u32 : Reads u32 Bytes.ofUInt32 (fun _ => True) :=
  Reads.map (reads_number 4) UInt32.ofNat UInt32.toNat
    (fun _ small => ⟨trivial, UInt32.toNat_ofNat_of_lt' small⟩)
    (fun word _ => ⟨word.toNat_lt, UInt32.ofNat_toNat⟩)

theorem reads_u64 : Reads u64 Bytes.ofUInt64 (fun _ => True) :=
  Reads.map (reads_number 8) UInt64.ofNat UInt64.toNat
    (fun _ small => ⟨trivial, UInt64.toNat_ofNat_of_lt' small⟩)
    (fun word _ => ⟨word.toNat_lt, UInt64.ofNat_toNat⟩)

theorem reads_int32 : Reads int32 (fun value => Bytes.ofUInt32 value.toUInt32) (fun _ => True) :=
  Reads.map reads_u32 UInt32.toInt32 Int32.toUInt32
    (fun word _ => ⟨trivial, UInt32.toUInt32_toInt32 word⟩)
    (fun value _ => ⟨trivial, Int32.toInt32_toUInt32 value⟩)

theorem reads_int64 : Reads int64 (fun value => Bytes.ofUInt64 value.toUInt64) (fun _ => True) :=
  Reads.map reads_u64 UInt64.toInt64 Int64.toUInt64
    (fun word _ => ⟨trivial, UInt64.toUInt64_toInt64 word⟩)
    (fun value _ => ⟨trivial, Int64.toInt64_toUInt64 value⟩)

theorem reads_text : Reads text Bytes.ofText (fun text => text.utf8ByteSize < 2 ^ 32) := by
  intro cursor value after
  have size : value.toUTF8.data.toList.length = value.utf8ByteSize := by simp
  simp only [text, outcome_bind_ok, outcome_position, Bytes.ofText, Cursor.advances_append, size]
  constructor
  · rintro ⟨length, start, readLength, _, _, same, content, stop, readContent, done⟩
    cases same
    obtain ⟨-, moved⟩ := (reads_u32 _ _ _).mp readLength
    obtain ⟨fits, moved'⟩ := (reads_bytes _ _ _ _).mp readContent
    split at done
    · rename_i found valid
      rw [outcome_pure] at done
      cases done
      have bytes : value.toUTF8 = ⟨content.toArray⟩ := by
        simp only [String.fromUTF8?] at valid
        split at valid
        · cases valid
          rfl
        · cases valid
      have units : value.toUTF8.data.toList = content := by rw [bytes]
      have count : value.utf8ByteSize = length.toNat := by rw [← size, units, fits]
      refine ⟨?_, start, ?_, ?_⟩
      · rw [count]
        exact length.toNat_lt
      · rw [count]
        exact moved
      · rw [units]
        exact moved'
    · rw [outcome_throw] at done
      cases done
  · rintro ⟨small, start, moved, moved'⟩
    have count : (UInt32.ofNat value.utf8ByteSize).toNat = value.utf8ByteSize :=
      UInt32.toNat_ofNat_of_lt' small
    refine ⟨UInt32.ofNat value.utf8ByteSize, start, ?_, _, _, rfl,
      value.toUTF8.data.toList, after, ?_, ?_⟩
    · refine (reads_u32 _ _ _).mpr ⟨trivial, ?_⟩
      rw [Bytes.ofUInt32, count]
      exact moved
    · exact (reads_bytes _ _ _ _).mpr ⟨size.trans count.symm, moved'⟩
    · have valid : String.fromUTF8? ⟨value.toUTF8.data.toList.toArray⟩ = some value := by
        rw [Array.toArray_toList]
        exact dif_pos value.isValidUTF8
      rw [valid, outcome_pure]

theorem reads_optional : Reads optional Bytes.ofOptional (fun _ => True) := by
  intro cursor value after
  simp only [optional, outcome_bind_ok, outcome_position, true_and]
  constructor
  · rintro ⟨_, _, same, tag, middle, readTag, done⟩
    cases same
    obtain ⟨-, moved⟩ := (reads_u8 _ _ _).mp readTag
    split_ifs at done with absent present
    · cases done
      rw [Bytes.ofOptional, ← absent]
      exact moved
    · obtain ⟨word, stop, readWord, done⟩ := outcome_bind_ok.mp done
      cases done
      rw [Bytes.ofOptional, ← present]
      exact Cursor.advances_append.mpr ⟨middle, moved, ((reads_u32 _ _ _).mp readWord).2⟩
    · cases done
  · intro moved
    refine ⟨_, _, rfl, ?_⟩
    cases value with
    | none => exact ⟨0, after, (reads_u8 _ _ _).mpr ⟨trivial, moved⟩, rfl⟩
    | some word =>
      obtain ⟨middle, moved, moved'⟩ := Cursor.advances_append.mp (show
        cursor.Advances ([1] ++ Bytes.ofUInt32 word) after from moved)
      refine ⟨1, middle, (reads_u8 _ _ _).mpr ⟨trivial, moved⟩, ?_⟩
      exact outcome_bind_ok.mpr ⟨word, after, (reads_u32 _ _ _).mpr ⟨trivial, moved'⟩, rfl⟩

theorem outcome_count_ok {smallest size : Nat} {cursor after : Cursor} :
    outcome (count smallest) cursor = (.ok size, after) ↔
      size < 2 ^ 32 ∧ cursor.Advances (Bytes.ofCount size) after ∧
        size * max smallest 1 ≤ after.remaining := by
  simp only [count, position_bind, reads_u32.bind_ok, get_bind_ok, refuse_bind_ok, outcome_pure, true_and,
    gt_iff_lt, Nat.not_lt, Prod.mk.injEq, Except.ok.injEq]
  constructor
  · rintro ⟨word, middle, moved, room, rfl, rfl⟩
    exact ⟨word.toNat_lt, moved, room⟩
  · rintro ⟨small, moved, room⟩
    have number : (UInt32.ofNat size).toNat = size := UInt32.toNat_ofNat_of_lt' small
    refine ⟨UInt32.ofNat size, after, ?_, ?_, number, rfl⟩
    · rw [Bytes.ofUInt32, number]
      exact moved
    · rw [number]
      exact room

theorem times_succ (size : Nat) (entry : Reader α) :
    times (size + 1) entry = do
      let first ← entry
      let rest ← times size entry
      return first :: rest := by
  simp [times, List.replicate_succ]

theorem reads_times {entry : Reader α} {write : α → Bytes} {valid : α → Prop}
    (reads : Reads entry write valid) (size : Nat) :
    Reads (times size entry) (List.flatMap write)
      (fun entries => entries.length = size ∧ ∀ value ∈ entries, valid value) := by
  induction size with
  | zero =>
    intro cursor entries after
    simp only [times, List.replicate_zero, List.mapM_nil, outcome_pure, Prod.mk.injEq, Except.ok.injEq,
      List.length_eq_zero_iff]
    constructor
    · rintro ⟨rfl, rfl⟩
      exact ⟨⟨rfl, by simp⟩, Cursor.advances_nil.mpr rfl⟩
    · rintro ⟨⟨rfl, -⟩, moved⟩
      exact ⟨rfl, (Cursor.advances_nil.mp moved).symm⟩
  | succ size ih =>
    intro cursor entries after
    simp only [times_succ, outcome_bind_ok, outcome_pure]
    constructor
    · rintro ⟨first, middle, readFirst, rest, stop, readRest, done⟩
      cases done
      obtain ⟨allowed, moved⟩ := (reads _ _ _).mp readFirst
      obtain ⟨⟨length, members⟩, moved'⟩ := (ih _ _ _).mp readRest
      refine ⟨⟨by rw [List.length_cons, length], ?_⟩, ?_⟩
      · exact List.forall_mem_cons.mpr ⟨allowed, members⟩
      · exact Cursor.advances_append.mpr ⟨middle, moved, moved'⟩
    · rintro ⟨⟨length, members⟩, moved⟩
      cases entries with
      | nil => simp at length
      | cons first rest =>
        obtain ⟨middle, moved, moved'⟩ := Cursor.advances_append.mp (show
          cursor.Advances (write first ++ rest.flatMap write) after from moved)
        obtain ⟨allowed, others⟩ := List.forall_mem_cons.mp members
        exact ⟨first, middle, (reads _ _ _).mpr ⟨allowed, moved⟩, rest, after,
          (ih _ _ _).mpr ⟨⟨by simpa using length, others⟩, moved'⟩, rfl⟩

theorem length_flatMap_ge {write : α → Bytes} {least : Nat} {entries : List α}
    (room : ∀ value ∈ entries, least ≤ (write value).length) :
    entries.length * least ≤ (entries.flatMap write).length := by
  induction entries with
  | nil => simp
  | cons first rest ih =>
    obtain ⟨head, tail⟩ := List.forall_mem_cons.mp room
    have rest := ih tail
    rw [List.flatMap_cons, List.length_append, List.length_cons, Nat.add_mul, Nat.one_mul]
    omega

/-- A table is read back when each of its entries is and none is shorter than the size by which
the count is judged. -/
theorem reads_table {entry : Reader α} {write : α → Bytes} {valid : α → Prop} {smallest : Nat}
    (reads : Reads entry write valid)
    (room : ∀ value, valid value → max smallest 1 ≤ (write value).length) :
    Reads (table smallest entry) (Bytes.ofTable write)
      (fun entries => entries.length < 2 ^ 32 ∧ ∀ value ∈ entries, valid value) := by
  intro cursor entries after
  simp only [table, outcome_bind_ok, outcome_count_ok, Bytes.ofTable, Cursor.advances_append]
  constructor
  · rintro ⟨size, middle, ⟨small, moved, -⟩, found⟩
    obtain ⟨⟨rfl, members⟩, moved'⟩ := (reads_times reads size _ _ _).mp found
    exact ⟨⟨small, members⟩, middle, moved, moved'⟩
  · rintro ⟨⟨small, members⟩, middle, moved, moved'⟩
    have least := length_flatMap_ge fun value member => room value (members value member)
    exact ⟨entries.length, middle, ⟨small, moved, least.trans moved'.remaining⟩,
      (reads_times reads _ _ _ _).mpr ⟨⟨rfl, members⟩, moved'⟩⟩

end Reader

end ClassImage
