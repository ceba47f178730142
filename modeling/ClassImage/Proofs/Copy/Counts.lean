import ClassImage.Proofs.Copy.Image

/-!
Uses in a copy. The attached instructions of a program are those of the bodies of
its classes, each once, so the uses of a symbol can be counted along the listing.
There the instructions of a copy stand beside those of the original, and like
instructions refer to symbols with the same keys.
-/

namespace ClassImage

namespace Program

/-- The instructions of a method. -/
def codeOf (program : Program) (method : MethodId) : List InstructionId :=
  match program.body? method with
  | some body => body.instructions.toList
  | none => []

/-- The attached instructions, class by class. -/
def listed (program : Program) : List InstructionId :=
  (program.defined.toList.flatMap program.methodsOf).flatMap program.codeOf

/-- An attached instruction refers to the symbol with a key. -/
def Mentions (program : Program) (key : SymbolKey) (kind : UseKind) (id : InstructionId) : Prop :=
  ∃ instruction symbol, program.instruction? id = some instruction ∧ program.key? symbol = some key ∧
    (symbol, kind) ∈ instruction.references

/-- The instructions of classes that a program has again are related, if those of the bodies are. -/
theorem Echoes.code {program copy : Program} {alike : Body → Body → Prop} {types holders : List TypeId}
    {relation : InstructionId → InstructionId → Prop} (echoes : program.Echoes copy alike types holders)
    (each : ∀ body other, alike body other →
      List.Forall₂ relation body.instructions.toList other.instructions.toList) :
    List.Forall₂ relation ((types.flatMap program.methodsOf).flatMap program.codeOf)
      ((holders.flatMap copy.methodsOf).flatMap copy.codeOf) := by
  have methods : List.Forall₂ (program.MethodDeclared copy) (types.flatMap program.methodsOf)
      (holders.flatMap copy.methodsOf) := by
    apply List.rel_flatMap echoes.classes
    rintro type holder ⟨-, definition, here, other, there, -, -, methods⟩
    unfold methodsOf
    rw [here, there]
    exact methods
  apply List.rel_flatMap ((List.forall₂_and_left _ _).mpr ⟨fun _ => id, methods⟩)
  rintro method other ⟨member, declared⟩
  have related := echoes.bodies declared member
  unfold codeOf
  generalize program.body? method = expected at related ⊢
  generalize copy.body? other = given at related ⊢
  cases related with
  | none => exact .nil
  | some like => exact each _ _ like

section Listed

variable {program : Program}

theorem mem_codeOf (bodies : program.BodiesSound) {method : MethodId} {id : InstructionId} :
    id ∈ program.codeOf method ↔ program.holder? id = some method := by
  unfold codeOf
  cases found : program.body? method with
  | some body => exact Array.mem_toList_iff.trans (bodies.attached found id)
  | none =>
    simp only [List.not_mem_nil, false_iff]
    intro held
    have known := bodies.held held
    rw [found] at known
    cases known

theorem nodup_listed (definitions : program.DefinitionsSound) (bodies : program.BodiesSound) :
    program.listed.Nodup := by
  refine List.nodup_flatMap.mpr ⟨?_, ?_⟩
  · intro method _
    unfold codeOf
    cases found : program.body? method with
    | none => exact .nil
    | some body => exact bodies.distinct found
  · apply (nodup_methodsOf definitions definitions.distinct).imp
    intro first second apart id left right
    have here := (mem_codeOf bodies).mp left
    have there := (mem_codeOf bodies).mp right
    rw [here] at there
    exact apart (Option.some.inj there)

/-- Every attached instruction is listed. -/
theorem mem_listed (definitions : program.DefinitionsSound) (bodies : program.BodiesSound)
    {id : InstructionId} {instruction : Instruction} (attached : program.instruction? id = some instruction) :
    id ∈ program.listed := by
  obtain ⟨slot, here, rfl⟩ := slot_of_instruction? attached
  have held : program.holder? id = some slot.method := holder?_of_slot? here
  obtain ⟨body, found⟩ := Option.isSome_iff_exists.mp (bodies.held held)
  obtain ⟨owner, name, signature, access, -, declared, -⟩ := bodies.declared found
  have defined : owner ∈ program.defined := (definitions.defined owner).mpr (definitions.methodOwners declared)
  refine List.mem_flatMap.mpr ⟨slot.method, ?_, (mem_codeOf bodies).mpr held⟩
  exact List.mem_flatMap.mpr ⟨owner, Array.mem_toList_iff.mpr defined,
    (mem_methodsOf definitions).mpr ⟨access, declared⟩⟩

/-- The uses of a symbol are those of the attached instructions that refer to it. -/
theorem mem_usesOf (steps : Steps {} program) {key : SymbolKey} {use : Use} :
    use ∈ program.usesOf key ↔ program.Mentions key use.kind use.instruction := by
  have exact := steps.usesExact.exact
  unfold usesOf
  cases found : program.find? key with
  | none =>
    simp only [List.not_mem_nil, false_iff]
    rintro ⟨instruction, symbol, -, named, -⟩
    rw [steps.keysSound.find?_eq named] at found
    cases found
  | some symbol =>
    have named := steps.keysSound.indexed.key?_of_find? found
    simp only [exact]
    constructor
    · rintro ⟨slot, here, member⟩
      exact ⟨slot.instruction, symbol, instruction?_of_slot? here, named, member⟩
    · rintro ⟨instruction, other, attached, known, member⟩
      obtain ⟨slot, here, rfl⟩ := slot_of_instruction? attached
      cases steps.keysSound.key?_inj known named
      exact ⟨slot, here, member⟩

theorem ordered_usesOf (steps : Steps {} program) (key : SymbolKey) :
    (program.usesOf key).Pairwise fun earlier later =>
      earlier.instruction.index < later.instruction.index := by
  unfold usesOf
  cases program.find? key with
  | none => exact .nil
  | some symbol => exact steps.usesExact.ordered symbol

open scoped Classical in
/-- The uses of a symbol can be counted along the listing. -/
theorem useCount_eq (steps : Steps {} program) (key : SymbolKey) (kind : UseKind) :
    program.useCount key kind = program.listed.countP fun id => program.Mentions key kind id := by
  have counted : program.useCount key kind = (program.usesOf key).countP fun use => use.kind = kind := by
    unfold useCount usesOf
    cases program.find? key <;> rfl
  have definitions := steps.definitionsSound
  have bodies := steps.bodiesSound
  have distinct : (program.usesOf key).Nodup :=
    (ordered_usesOf steps key).imp fun before same => absurd (same ▸ before) (lt_irrefl _)
  have same : ((program.usesOf key).filter fun use => use.kind = kind).Perm
      ((program.listed.filter fun id => program.Mentions key kind id).map (Use.mk kind)) := by
    refine (List.perm_ext_iff_of_nodup (distinct.filter _) ?_).mpr ?_
    · apply ((nodup_listed definitions bodies).filter _).map
      intro first second equal
      exact (Use.mk.inj equal).2
    · rintro ⟨form, id⟩
      simp only [List.mem_filter, List.mem_map, decide_eq_true_eq, mem_usesOf steps]
      constructor
      · rintro ⟨mentions, rfl⟩
        have mentioned := mentions
        obtain ⟨instruction, symbol, attached, -⟩ := mentioned
        exact ⟨id, ⟨mem_listed definitions bodies attached, mentions⟩, rfl⟩
      · rintro ⟨place, ⟨-, mentions⟩, equal⟩
        cases equal
        exact ⟨mentions, rfl⟩
  rw [counted, List.countP_eq_length_filter, List.countP_eq_length_filter, same.length_eq, List.length_map]

end Listed

section Copied

variable {program copy : Program}

/-- Instructions of two programs that refer to the same symbols in the same ways. -/
def SameReferences (program copy : Program) (id place : InstructionId) : Prop :=
  ∃ instruction built, program.instruction? id = some instruction ∧ copy.instruction? place = some built ∧
    List.Forall₂ (fun use other => other.2 = use.2 ∧ program.Same copy use.1 other.1)
      instruction.references built.references

theorem Copied.listed (copied : program.Copied copy) :
    List.Forall₂ (program.SameReferences copy) program.listed copy.listed := by
  apply copied.echoes.code
  rintro body other ⟨used, like⟩
  apply like.code.imp
  rintro id place ⟨instruction, built, original, attached, alike⟩
  exact ⟨instruction, built, original, attached, alike.references⟩

theorem SameReferences.mentions {id place : InstructionId} (same : program.SameReferences copy id place)
    (key : SymbolKey) (kind : UseKind) : program.Mentions key kind id ↔ copy.Mentions key kind place := by
  obtain ⟨instruction, built, original, attached, references⟩ := same
  constructor
  · rintro ⟨_, symbol, here, named, member⟩
    cases original.symm.trans here
    obtain ⟨⟨other, _⟩, there, rfl, key', left, right⟩ := forall₂_exists_right references member
    cases named.symm.trans left
    exact ⟨built, other, attached, right, there⟩
  · rintro ⟨_, symbol, here, named, member⟩
    cases attached.symm.trans here
    obtain ⟨⟨other, _⟩, there, rfl, key', left, right⟩ := forall₂_exists_left references member
    cases named.symm.trans right
    exact ⟨instruction, other, original, left, there⟩

/-- Each symbol is used in a copy as often as in the original. -/
theorem Copied.useCount_eq (copied : program.Copied copy) (steps : Steps {} program)
    (key : SymbolKey) (kind : UseKind) :
    copy.useCount key kind = program.useCount key kind := by
  classical
  have kept : List.Forall₂ (program.SameReferences copy)
      (program.listed.filter fun id => program.Mentions key kind id)
      (copy.listed.filter fun id => copy.Mentions key kind id) := by
    refine List.rel_filter ?_ copied.listed
    intro id place same
    simp only [decide_eq_true_eq]
    exact same.mentions key kind
  rw [Program.useCount_eq steps, Program.useCount_eq copied.steps, List.countP_eq_length_filter,
    List.countP_eq_length_filter, kept.length_eq]

end Copied

end Program

end ClassImage
