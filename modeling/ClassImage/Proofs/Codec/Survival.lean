import ClassImage.Proofs.Codec.Image
import ClassImage.Proofs.Codec.Verify

/-!
Verified images and their bytes. Counts of tables and texts have four bytes, and
verification compares the kind table with the number of registers. The argument
count of a call has one byte and no check of its own, so of the images that pass
verification exactly those survive whose calls have at most 255 arguments.
-/

namespace ClassImage

/-- Every table of the class has fewer than 2^32 entries. -/
structure ClassDef.Sized (definition : ClassDef) : Prop where
  interfaces : definition.interfaces.length < 2 ^ 32
  fields : definition.fields.length < 2 ^ 32
  methods : definition.methods.length < 2 ^ 32
  codes : ∀ method ∈ definition.methods, ∀ code ∈ method.code, code.instructions.size < 2 ^ 32

/-- Every table and every text of the image has fewer than 2^32 elements. -/
structure Image.Sized (image : Image) : Prop where
  pool : image.pool.Encodable
  size : image.classes.length < 2 ^ 32
  classes : ∀ definition ∈ image.classes, definition.Sized

/-- The calls of a class have at most 255 arguments each. -/
def ClassDef.CallsFit (definition : ClassDef) : Prop :=
  ∀ method ∈ definition.methods, ∀ code ∈ method.code, ∀ instruction ∈ code.instructions, instruction.Fits

/-- Verification has found one kind for each register. -/
theorem CodeItem.Verified.encodable_iff {code : CodeItem} {pool : Pool} (verified : code.Verified pool)
    (size : code.instructions.size < 2 ^ 32) :
    code.Encodable ↔ ∀ instruction ∈ code.instructions, instruction.Fits := by
  constructor
  · intro encodable
    exact encodable.instructions
  · intro fits
    exact ⟨verified.length, size, fits⟩

theorem ClassDef.Verified.encodable_iff {definition : ClassDef} {pool : Pool}
    (verified : definition.Verified pool) (sized : definition.Sized) :
    definition.Encodable ↔ definition.CallsFit := by
  have each : ∀ method ∈ definition.methods, ∀ code ∈ method.code,
      (code.Encodable ↔ ∀ instruction ∈ code.instructions, instruction.Fits) := by
    intro method member code found
    obtain ⟨-, -, checked⟩ := verified.methods method member
    exact (checked code found).encodable_iff (sized.codes method member code found)
  constructor
  · intro encodable method member code found
    exact (each method member code found).mp (encodable.methods method member code found)
  · intro fits
    refine ⟨sized.interfaces, sized.fields, sized.methods, ?_⟩
    intro method member code found
    exact (each method member code found).mpr (fits method member code found)

namespace Image

/-- A verified image is what its bytes decode to exactly when the argument counts of its calls fit
their byte. -/
theorem decode_encode_iff_callsFit (image : Image) (sized : image.Sized) (verified : image.verify = .ok ()) :
    decode image.encode = .ok image ↔ ∀ definition ∈ image.classes, definition.CallsFit := by
  obtain ⟨-, checked⟩ := verify_ok.mp verified
  have each : ∀ definition ∈ image.classes, (definition.Encodable ↔ definition.CallsFit) := by
    intro definition member
    exact (checked definition member).encodable_iff (sized.classes definition member)
  rw [decode_eq_ok]
  constructor
  · intro read definition member
    exact (each definition member).mp (read.1.classes definition member)
  · intro fits
    refine ⟨⟨sized.pool, sized.size, ?_⟩, rfl⟩
    intro definition member
    exact (each definition member).mpr (fits definition member)

theorem recursive_sized : recursive.Sized := by
  have encodable := recursive_encodable
  refine ⟨encodable.pool, encodable.size, ?_⟩
  intro definition member
  have inside := encodable.classes definition member
  exact ⟨inside.interfaces, inside.fields, inside.size,
    fun method member code found => (inside.methods method member code found).size⟩

theorem recursive_survives :
    recursive.Sized ∧ recursive.verify = .ok () ∧ decode recursive.encode = .ok recursive := by
  have verified : recursive.verify = .ok () := by decide +kernel
  refine ⟨recursive_sized, verified, ?_⟩
  apply (decode_encode_iff_callsFit recursive recursive_sized verified).mpr
  intro definition member method listed code found
  exact ((recursive_encodable.classes definition member).methods method listed code found).instructions

/-- A method that calls itself with 256 arguments, all of them from one register. -/
def crowded : Image where
  flags := 0
  pool := ⟨#["LA;", "f", "V"], #[0, 2], #[⟨1, []⟩], #[], #[⟨0, 0, 1⟩]⟩
  classes := [⟨0, 1, none, [], none, [],
    [⟨0, 8, some ⟨1, 0, [0], #[.invoke .static 0 (List.replicate 256 0), .returnVoid]⟩⟩]⟩]

/-- Verification accepts a call whose argument count does not fit, and its bytes do not give it back. -/
theorem crowded_lost :
    crowded.Sized ∧ crowded.verify = .ok () ∧ decode crowded.encode ≠ .ok crowded := by
  have sized : crowded.Sized := by
    refine ⟨by constructor <;> decide, by decide, ?_⟩
    intro definition member
    cases List.mem_singleton.mp member
    refine ⟨by decide, by decide, by decide, ?_⟩
    intro method member code found
    cases List.mem_singleton.mp member
    cases Option.mem_some.mp found
    decide
  refine ⟨sized, by decide +kernel, ?_⟩
  intro read
  have encodable := (decode_eq_ok.mp read).1
  have inside := encodable.classes _ (List.mem_singleton_self _)
  have code := inside.methods _ (List.mem_singleton_self _) _ rfl
  have fits : (RawInstruction.invoke .static 0 (List.replicate 256 0)).Fits :=
    code.instructions _ (List.mem_toArray.mpr List.mem_cons_self)
  rw [RawInstruction.Fits, List.length_replicate] at fits
  omega

end Image

end ClassImage
