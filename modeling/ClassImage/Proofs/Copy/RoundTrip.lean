import ClassImage.Proofs.Copy.Counts
import ClassImage.Proofs.Copy.Listing

/-!
Reachable programs survive encoding. Handles, registers, locals and pool entries
are made anew when an image is loaded, and neither the listing nor the number of
uses of a symbol depends on them.
-/

namespace ClassImage

namespace Session

open Program

/-- A reachable program that can be encoded is loaded again from its bytes, with the same listing
and with as many uses of each kind of every symbol. -/
theorem Reachable.encode_reloads {session : Session} (reached : session.Reachable)
    (bounded : session.program.Bounded) (readable : session.program.Readable) (limits : Limits)
    (valid : limits.validate = .ok ()) (bytes : Bytes)
    (encoded : session.program.encode limits = .ok bytes) :
    ∃ reloaded, Program.ofBytes bytes = .ok reloaded ∧ reloaded.listing = session.program.listing ∧
      ∀ key kind, reloaded.useCount key kind = session.program.useCount key kind := by
  obtain ⟨reloaded, loaded, copied⟩ :=
    Program.ofBytes_encode reached.steps bounded readable valid encoded
  exact ⟨reloaded, loaded, copied.listing_eq reached.steps, copied.useCount_eq reached.steps⟩

theorem recursive_bounded : recursive.program.Bounded := by
  apply Bounded.of_entries <;> decide +kernel

theorem recursive_readable : recursive.program.Readable where
  types := by decide +kernel
  methods := by decide +kernel
  fields := by decide +kernel

theorem encode_reloads_recursive :
    ∃ bytes reloaded, recursive.program.encode {} = .ok bytes ∧ Program.ofBytes bytes = .ok reloaded ∧
      reloaded.listing = recursive.program.listing ∧
      ∀ key kind, reloaded.useCount key kind = recursive.program.useCount key kind := by
  have lowers : (recursive.program.toImage {}).toOption.isSome := by decide +kernel
  cases lowered : recursive.program.toImage {} with
  | error fault =>
    rw [lowered] at lowers
    cases lowers
  | ok image =>
    have encoded : recursive.program.encode {} = .ok image.encode := by
      rw [Program.encode, lowered]
      rfl
    obtain ⟨reloaded, result⟩ :=
      recursive_reachable.encode_reloads recursive_bounded recursive_readable {} rfl image.encode encoded
    exact ⟨image.encode, reloaded, encoded, result⟩

end Session

end ClassImage
