import ClassImage.Program.Listing
import ClassImage.Proofs.Program.Replacing

/-!
Programs that read the same. Symbols, code and uses are all that a client reads of a
program, and a listing shows even less. It is not shown which handles were issued and
are spent, which locals a body declares and does not use, who owns them, and how often
the uses of a symbol have changed.
-/

namespace ClassImage

open Program

/-- What a client reads of two programs is the same. Handles that were issued, declared locals and their
owners, and revisions may differ. -/
structure Program.ReadsLike (program other : Program) : Prop where
  types : other.types = program.types
  defined : other.defined = program.defined
  fields : other.fields = program.fields
  methods : other.outlines = program.outlines
  bodies : ∀ method, (other.body? method).map (fun body => (body.parameters, body.instructions)) =
    (program.body? method).map fun body => (body.parameters, body.instructions)
  slots : other.slot? = program.slot?
  uses : other.useList = program.useList

namespace Program.ReadsLike

variable {program other : Program} (alike : program.ReadsLike other)

include alike

theorem typeAt : other.typeAt = program.typeAt := by
  funext type
  rw [Program.typeAt, alike.types, Program.typeAt]

theorem fieldAt : other.fieldAt = program.fieldAt := by
  funext field
  rw [Program.fieldAt, alike.fields, Program.fieldAt]

theorem outline (method : MethodId) :
    { other.methodAt method with body := none } = { program.methodAt method with body := none } := by
  have entry : ∀ program : Program, { program.methodAt method with body := none } =
      program.outlines.getD method.index default := by
    intro program
    simp only [methodAt, outlines, Array.getD_eq_getD_getElem?, Array.getElem?_map]
    cases program.methods[method.index]? <;> rfl
  rw [entry, entry, alike.methods]

theorem typeText : other.typeText = program.typeText := by
  funext type
  rw [Program.typeText, alike.typeAt, Program.typeText]

theorem methodText : other.methodText = program.methodText := by
  funext method
  have outline := alike.outline method
  simp only [MethodEntry.mk.injEq] at outline
  obtain ⟨owner, name, signature, -⟩ := outline
  simp only [Program.methodText, owner, name, signature, alike.typeText]

theorem fieldText : other.fieldText = program.fieldText := by
  funext field
  simp only [Program.fieldText, alike.fieldAt, alike.typeText]

theorem instruction? : other.instruction? = program.instruction? := by
  funext id
  rw [Program.instruction?, alike.slots, Program.instruction?]

/-- The text of an instruction names symbols by their texts, and locals and targets by the frame. -/
theorem instructionText (locals : List Local) (instructions : Array InstructionId) :
    (Listing.Frame.mk other locals instructions).instructionText =
      (Listing.Frame.mk program locals instructions).instructionText := by
  have slot : (Listing.Frame.mk other locals instructions).slot =
      (Listing.Frame.mk program locals instructions).slot := rfl
  funext instruction
  cases instruction with
  | invoke call =>
    simp only [Listing.Frame.instructionText, Listing.Frame.callText, slot, alike.methodText]
  | const target value =>
    cases value with
    | classOf type =>
      simp only [Listing.Frame.instructionText, Listing.Frame.constantText, slot, alike.typeText]
    | _ => rfl
  | access use =>
    simp only [Listing.Frame.instructionText, Listing.Frame.accessText, slot, alike.fieldText]
  | newArray | checkCast | instanceOf =>
    simp only [Listing.Frame.instructionText, slot, alike.typeText]
  | ret value => cases value <;> rfl
  | branch test target => rcases test with _ | ⟨comparison, left, _ | right⟩ <;> rfl
  | _ => rfl

/-- A body has the same text whatever locals it declares. -/
theorem bodyText {body listed : Body} (indent : String) (parameters : listed.parameters = body.parameters)
    (instructions : listed.instructions = body.instructions) :
    Listing.bodyText other indent listed = Listing.bodyText program indent body := by
  have used : other.usedLocals listed = program.usedLocals body := by
    rw [usedLocals, instructionsOf, parameters, instructions, alike.instruction?, usedLocals, instructionsOf]
  have slot : (Listing.Frame.ofBody other listed).slot = (Listing.Frame.ofBody program body).slot := by
    rw [Listing.Frame.ofBody, parameters, used, instructions]
    rfl
  have text : (Listing.Frame.ofBody other listed).instructionText =
      (Listing.Frame.ofBody program body).instructionText := by
    rw [Listing.Frame.ofBody, parameters, used, instructions]
    exact alike.instructionText _ _
  simp only [Listing.bodyText, slot, text, parameters, instructions, alike.instruction?]

theorem declarationText (indent : String) (method : MethodId) :
    Listing.methodText other indent method = Listing.methodText program indent method := by
  have outline := alike.outline method
  simp only [MethodEntry.mk.injEq] at outline
  obtain ⟨-, name, signature, -, declaration, -⟩ := outline
  simp only [Listing.methodText, name, signature, declaration]
  have same := alike.bodies method
  rw [Program.body?, Program.body?] at same
  cases found : (program.methodAt method).body with
  | none =>
    rw [found, Option.map_none, Option.map_eq_none_iff] at same
    rw [same]
  | some body =>
    rw [found, Option.map_some] at same
    obtain ⟨listed, here, same⟩ := Option.map_eq_some_iff.mp same
    obtain ⟨parameters, instructions⟩ := Prod.mk.inj same
    rw [here]
    simp only [alike.bodyText indent parameters instructions]

theorem listing_eq : other.listing = program.listing := by
  have methods : Listing.methodText other "  " = Listing.methodText program "  " :=
    funext (alike.declarationText "  ")
  have fields : Listing.fieldText other = Listing.fieldText program := by
    funext field
    simp only [Listing.fieldText, alike.fieldAt]
  have types : Listing.typeText other = Listing.typeText program := by
    funext type
    simp only [Listing.typeText, alike.typeAt, alike.typeText, fields, methods]
  simp only [listing, alike.defined, types]

end Program.ReadsLike

end ClassImage
