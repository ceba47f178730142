import ClassImage.Proofs.Copy.Interfaces
import ClassImage.Proofs.Copy.Relowering

/-!
Normal forms of encoded images. What decodes need not be what would be written
for it: it can have instructions that do nothing, registers in any order, pool
entries that nothing refers to. Encoding again leaves all of this out at once,
so the bytes that it gives are a fixed point.
-/

namespace ClassImage

namespace Program

/-- A program that was decoded holds what an image was loaded as. -/
theorem ofBytes_ok {bytes : Bytes} {program : Program} (decoded : ofBytes bytes = .ok program) :
    ∃ image, Image.decode bytes = .ok image ∧ image.verify = .ok () ∧
      (Loading.Context.mk image {}).Loaded {} program := by
  unfold ofBytes at decoded
  split at decoded
  · rename_i after added
    cases decoded
    unfold Edit.addBytes at added
    split at added
    · cases added
    · rename_i image read
      exact ⟨image, read, Edit.loaded_of_addImage added⟩
  · cases decoded

end Program

namespace Image

/-- A class with one method, which does nothing, and then returns. -/
def padded : Image where
  flags := 0
  pool := ⟨#["LA;", "f", "V"], #[0, 2], #[⟨1, []⟩], #[], #[⟨0, 0, 1⟩]⟩
  classes := [⟨0, 1, none, [], none, [], [⟨0, 8, some ⟨0, 0, [], #[.nop, .returnVoid]⟩⟩]⟩]

end Image

end ClassImage
