import Mathlib.Tactic
import ClassImage.Proofs.Copy.Normal

/-!
Signatures of decoded programs. The types of a signature are read one by one from
the pool, so each of them is well formed, but nothing there keeps `V` from the
parameters, where the grammar has no place for it. Such a signature is the only
kind whose text is not read back.
-/

namespace ClassImage

/-- Types that are read back make up a signature that is read back unless a parameter is void. -/
theorem Signature.parse_text_iff {signature : Signature}
    (readable : ∀ type ∈ signature.result :: signature.parameters, Descriptor.parse type.text = .ok type) :
    Signature.parse signature.text = .ok signature ↔ Descriptor.void ∉ signature.parameters := by
  have formed : ∀ type ∈ signature.result :: signature.parameters, type.WellFormed :=
    fun type member => (Descriptor.ofText?_eq_some.mp (Descriptor.parse_ok.mp (readable type member))).1
  rw [List.forall_mem_cons] at formed
  rw [parse_ok]
  constructor
  · rintro ⟨proper, -⟩ member
    exact (proper.parameters _ member).2 rfl
  · intro valued
    refine ⟨⟨fun type member => ⟨formed.2 type member, ?_⟩, formed.1⟩, rfl⟩
    rintro rfl
    exact valued member

namespace Image

/-- A class with a field and with a method without code, which takes a parameter of no value. -/
def voidParameter : Image where
  flags := 0
  pool := ⟨#["LA;", "f", "V"], #[0, 2], #[⟨1, [1]⟩], #[⟨0, 0, 1⟩], #[⟨0, 0, 1⟩]⟩
  classes := [⟨0, 1, none, [], none, [⟨0, 0⟩], [⟨0, 1025, none⟩]⟩]

theorem voidParameter_encodable : voidParameter.Encodable where
  pool := by constructor <;> decide
  size := by decide
  classes := by
    intro definition member
    cases List.mem_singleton.mp member
    refine ⟨by decide, by decide, by decide, ?_⟩
    intro method member code found
    cases List.mem_singleton.mp member
    cases found

theorem voidParameter_loads :
    ∃ program, Program.ofBytes voidParameter.encode = .ok program ∧
      program.methods.map (fun entry => entry.signature) = #[⟨[.void], .void⟩] ∧
      program.fields.map (fun entry => entry.type) = #[.object "A"] := by
  refine ⟨_, Program.ofBytes_of_addImage voidParameter_encodable (Prod.ext ?_ rfl), ?_, ?_⟩ <;> decide +kernel

end Image

namespace Program

/-- The signature of a decoded method is read back from its text unless a parameter is void, and the
type of a decoded field is read back and holds values. -/
theorem parse_text_of_ofBytes {bytes : Bytes} {program : Program} (decoded : ofBytes bytes = .ok program) :
    (∀ entry ∈ program.methods,
      Signature.parse entry.signature.text = .ok entry.signature ↔
        Descriptor.void ∉ entry.signature.parameters) ∧
    ∀ entry ∈ program.fields,
      Descriptor.parse entry.type.text = .ok entry.type ∧ ¬entry.type.isVoid := by
  obtain ⟨image, -, -, loaded⟩ := ofBytes_ok decoded
  have sound := loaded.steps.keysSound
  have readable := loaded.grounded.readable sound
  constructor
  · intro entry member
    exact Signature.parse_text_iff (readable.methods entry member)
  · intro entry member
    obtain ⟨place, found⟩ := Array.mem_iff_getElem?.mp member
    have key : program.fieldKey? ⟨place⟩ = some (entry.owner, entry.name, entry.type) := by
      rw [fieldKey?, found, Option.map_some]
    exact ⟨readable.fields entry member, sound.values key⟩

theorem parse_text_of_voidParameter :
    ∃ program, ofBytes Image.voidParameter.encode = .ok program ∧
      program.methods.map (fun entry => entry.signature) = #[⟨[.void], .void⟩] ∧
      program.fields.map (fun entry => entry.type) = #[.object "A"] ∧
      (∀ entry ∈ program.methods,
        Signature.parse entry.signature.text = .ok entry.signature ↔
          Descriptor.void ∉ entry.signature.parameters) ∧
      ∀ entry ∈ program.fields,
        Descriptor.parse entry.type.text = .ok entry.type ∧ ¬entry.type.isVoid := by
  obtain ⟨program, decoded, methods, fields⟩ := Image.voidParameter_loads
  exact ⟨program, decoded, methods, fields, parse_text_of_ofBytes decoded⟩

/-- A text that is not a signature can be that of a decoded method. -/
theorem exists_unread_signature :
    ∃ program, ofBytes Image.voidParameter.encode = .ok program ∧
      ∃ entry ∈ program.methods, entry.signature = ⟨[.void], .void⟩ ∧
        Signature.parse entry.signature.text ≠ .ok entry.signature := by
  obtain ⟨program, decoded, methods, -⟩ := Image.voidParameter_loads
  have listed : (⟨[.void], .void⟩ : Signature) ∈ program.methods.map fun entry => entry.signature := by
    rw [methods]
    exact Array.mem_singleton.mpr rfl
  obtain ⟨entry, member, same⟩ := Array.mem_map.mp listed
  refine ⟨program, decoded, entry, member, same, ?_⟩
  intro parsed
  obtain ⟨formed, -⟩ := Signature.parse_ok.mp parsed
  rw [same] at formed
  exact (formed.parameters .void (List.mem_singleton.mpr rfl)).2 rfl

end Program

end ClassImage
