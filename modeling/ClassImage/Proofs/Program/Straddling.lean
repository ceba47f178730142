import ClassImage.Proofs.Program.Decoding

/-!
Pairs of registers in a loaded body. The tags say of each register below the
parameters what its local is, and those of a wide local are followed by the tag
of a second register. The parameters above have their locals by the signature:
their tags only say which of them are wide. So a pair may straddle the first
parameter. Its second register is tagged as one, which is as narrow a tag as any,
and a narrow first parameter fits it. In this case alone two locals share a
register.
-/

namespace ClassImage

open Loading

/-- A wide local begins in the last register below the parameters. -/
def CodeItem.Straddles (code : CodeItem) : Prop :=
  ∃ below tag, below + 1 = code.firstParameter ∧ code.kinds[below]? = some tag ∧ RegisterTag.isWide tag

/-- Each local has registers of its own: one, or if it is wide a pair whose second register holds no local. -/
structure Separates (registers : List (Option Local)) : Prop where
  once : ∀ {place other : Nat} {slot : Local}, registers[place]? = some (some slot) →
    registers[other]? = some (some slot) → place = other
  inside : ∀ {place : Nat} {slot : Local}, registers[place]? = some (some slot) → slot.kind.isWide →
    place + 1 < registers.length
  free : ∀ {place : Nat} {slot : Local}, registers[place]? = some (some slot) → slot.kind.isWide →
    registers[place + 1]? = some none

/-- Each local begins in one register. The register after that of a wide local is there and holds none,
but for the first parameter. -/
structure CodeItem.Seats (code : CodeItem) (parameters : List Local) (registers : List (Option Local)) :
    Prop where
  size : registers.length = code.registers.toNat
  once : ∀ {place other : Nat} {slot : Local}, registers[place]? = some (some slot) →
    registers[other]? = some (some slot) → place = other
  second : ∀ {place : Nat} {slot : Local}, registers[place]? = some (some slot) → slot.kind.isWide →
    registers[place + 1]? = some (if place + 1 = code.firstParameter then parameters.head? else none)

theorem CodeItem.Paired.second {tags : List UInt8} (paired : Paired tags) {place : Nat} {tag : UInt8}
    (here : tags[place]? = some tag) (wide : RegisterTag.isWide tag) :
    tags[place + 1]? = some RegisterTag.highHalf := by
  induction tags generalizing place with
  | nil => cases here
  | cons first rest ih =>
    obtain ⟨-, half, others⟩ := paired
    cases place with
    | zero =>
      cases here
      rw [List.getElem?_cons_succ, ← List.head?_eq_getElem?]
      exact half wide
    | succ place => exact ih others here

/-- Entries that are there are distinct if they are listed once each. -/
theorem place_unique {registers : List (Option Local)} (distinct : (registers.filterMap id).Nodup)
    {place other : Nat} {slot : Local} (here : registers[place]? = some (some slot))
    (there : registers[other]? = some (some slot)) : place = other := by
  rw [List.Nodup, List.pairwise_filterMap, List.pairwise_iff_getElem] at distinct
  obtain ⟨inside, first⟩ := List.getElem?_eq_some_iff.mp here
  obtain ⟨inside', second⟩ := List.getElem?_eq_some_iff.mp there
  rcases Nat.lt_trichotomy place other with before | same | after
  · exact absurd rfl (distinct place other inside inside' before slot first slot second)
  · exact same
  · exact absurd rfl (distinct other place inside' inside after slot second slot first)

namespace CodeItem

variable {code : CodeItem} {pool : Pool} {parameters : List Local} {registers : List (Option Local)}
  (assigns : code.Assigns parameters registers)

include assigns

/-- Below the parameters it is the wide tags that stand for wide locals. -/
theorem Assigns.wide_below {place : Nat} (low : place < code.firstParameter) :
    (∃ slot, registers[place]? = some (some slot) ∧ slot.kind.isWide) ↔
      ∃ tag, code.kinds[place]? = some tag ∧ RegisterTag.isWide tag := by
  have below := assigns.below low
  constructor
  · rintro ⟨slot, here, wide⟩
    rw [here, Option.map_some, Option.map_some] at below
    obtain ⟨tag, tagged, stands⟩ := Option.map_eq_some_iff.mp below.symm
    exact ⟨tag, tagged, (ValueKind.isWide_of_ofTag? stands).symm.trans wide⟩
  · rintro ⟨tag, tagged, wide⟩
    obtain ⟨kind, stands⟩ := ValueKind.exists_of_isWide wide
    rw [tagged, Option.map_some, stands] at below
    obtain ⟨entry, here, same⟩ := Option.map_eq_some_iff.mp below
    obtain ⟨slot, rfl, rfl⟩ := Option.map_eq_some_iff.mp same
    exact ⟨slot, here, (ValueKind.isWide_of_ofTag? stands).trans wide⟩

variable (verified : code.Verified pool)

include verified

/-- The first registers of locals, and what stands in the second ones of wide locals. -/
theorem Assigns.seats : code.Seats parameters registers := by
  refine ⟨assigns.length.trans verified.length, fun here there => place_unique assigns.distinct here there, ?_⟩
  intro place slot here wide
  rcases Nat.lt_or_ge place code.firstParameter with low | high
  · -- The tag is wide, so the next one is that of a second register, which stands for no kind.
    obtain ⟨tag, tagged, wide⟩ := (assigns.wide_below low).mp ⟨slot, here, wide⟩
    have next := verified.kinds.second tagged wide
    obtain ⟨inside, -⟩ := List.getElem?_eq_some_iff.mp next
    have inside : place + 1 < registers.length := assigns.length ▸ inside
    split
    · rename_i first
      obtain ⟨parameter, others, rfl⟩ := List.exists_cons_of_ne_nil (assigns.parameters_ne_nil first.ge inside)
      rw [assigns.above first.ge, first, Nat.sub_self, ← List.head?_eq_getElem?, head?_spread]
      rfl
    · rename_i apart
      have kind := assigns.below (show place + 1 < code.firstParameter by omega)
      rw [next, List.getElem?_eq_getElem inside, Option.map_some, Option.map_some, Option.some_inj] at kind
      rw [List.getElem?_eq_getElem inside, Option.map_eq_none_iff.mp kind]
  · rw [if_neg (by omega), assigns.above (by omega), Nat.sub_add_comm high]
    rw [assigns.above high] at here
    exact spread_second here wide

/-- Locals have registers of their own unless a pair straddles the first parameter. -/
theorem Assigns.separates_iff : Separates registers ↔ ¬code.Straddles := by
  have seats := assigns.seats verified
  constructor
  · rintro separates ⟨below, tag, edge, tagged, wide⟩
    have low : below < code.firstParameter := by omega
    obtain ⟨slot, here, wide⟩ := (assigns.wide_below low).mpr ⟨tag, tagged, wide⟩
    have taken := seats.second here wide
    rw [if_pos edge, separates.free here wide, Option.some_inj] at taken
    exact assigns.parameters_ne_nil edge.ge (separates.inside here wide) (List.head?_eq_none_iff.mp taken.symm)
  · intro apart
    have free : ∀ {place : Nat} {slot : Local}, registers[place]? = some (some slot) → slot.kind.isWide →
        registers[place + 1]? = some none := by
      intro place slot here wide
      rw [seats.second here wide, if_neg]
      intro edge
      have low : place < code.firstParameter := by omega
      obtain ⟨tag, tagged, wide⟩ := (assigns.wide_below low).mp ⟨slot, here, wide⟩
      exact apart ⟨place, tag, edge, tagged, wide⟩
    exact ⟨seats.once, fun here wide => (List.getElem?_eq_some_iff.mp (free here wide)).1, free⟩

end CodeItem

namespace Session

/-- The code of an added image is verified, and it is what the body of its method means. -/
theorem Reachable.decodes {session : Session} (reached : session.Reachable) {image : Image}
    {after : Program} (added : Edit.addImage image session.program = (.ok (), after)) {definition : ClassDef}
    (defined : definition ∈ image.classes) {method : MethodDef} (declared : method ∈ definition.methods)
    {code : CodeItem} (coded : code ∈ method.code) :
    code.Verified image.pool ∧
      ∃ id body frame, (Context.mk image session.program).NamesMethod method.method id after ∧
        after.body? id = some body ∧ (Context.mk image session.program).Decodes id code body frame after := by
  obtain ⟨verified, -, ran⟩ := Edit.addImage_ok.mp added
  have loading := @Context.reaches_load ⟨image, session.program⟩ session.program session.held
    (Image.verify_ok.mp verified).2 reached.sound.locals
  obtain ⟨-, -, loaded⟩ := loading.ran (reached.steps.indexed .empty) ran
  have listed : code ∈ image.codes := List.mem_flatMap.mpr ⟨definition, defined,
    List.mem_flatMap.mpr ⟨method, declared, Option.mem_toList.mpr coded⟩⟩
  exact ⟨Image.verified_codes verified listed, loaded.decodes verified defined declared coded⟩

/-- The body that the code of an added image becomes gives each local registers of its own, unless a pair
straddles the first parameter. Then the pair's second register is that of the first parameter. -/
theorem Reachable.addImage_separates {session : Session} (reached : session.Reachable) {image : Image}
    {after : Program} (added : Edit.addImage image session.program = (.ok (), after)) {definition : ClassDef}
    (defined : definition ∈ image.classes) {method : MethodDef} (declared : method ∈ definition.methods)
    {code : CodeItem} (coded : code ∈ method.code) :
    ∃ id body frame, (Context.mk image session.program).NamesMethod method.method id after ∧
      after.body? id = some body ∧ (Context.mk image session.program).Decodes id code body frame after ∧
      code.Seats body.parameters frame.registers.toList ∧
      (Separates frame.registers.toList ↔ ¬code.Straddles) := by
  obtain ⟨verified, id, body, frame, named, here, decodes⟩ := reached.decodes added defined declared coded
  exact ⟨id, body, frame, named, here, decodes, decodes.assigned.seats verified,
    decodes.assigned.separates_iff verified⟩

/-- A class with one static method of one parameter. -/
def taking (parameter : String) (code : CodeItem) : Image where
  flags := 0
  pool := ⟨#["LB;", "run", "V", parameter], #[0, 2, 3], #[⟨1, [2]⟩], #[], #[⟨0, 0, 1⟩]⟩
  classes := [⟨0, 1, none, [], none, [], [⟨0, 8, some code⟩]⟩]

/-- A long local below a long parameter. -/
def besides : CodeItem := ⟨4, 2, [6, 9, 6, 9], #[.constWide 0 7, .move 0 2, .returnVoid]⟩

theorem addImage_separates_besides :
    ∃ after id body frame, Edit.addImage (taking "J" besides) {} = (.ok (), after) ∧
      after.body? id = some body ∧
      (Context.mk (taking "J" besides) {}).Decodes id besides body frame after ∧
      Separates frame.registers.toList := by
  have done : (Edit.addImage (taking "J" besides) {}).1 = .ok () := by decide +kernel
  have added : Edit.addImage (taking "J" besides) {} = (.ok (), (Edit.addImage (taking "J" besides) {}).2) :=
    Prod.fst_eq_iff.mp done
  obtain ⟨id, body, frame, -, here, decodes, -, separates⟩ := Reachable.start.addImage_separates added
    List.mem_cons_self List.mem_cons_self rfl
  refine ⟨_, id, body, frame, added, here, decodes, separates.mpr ?_⟩
  rintro ⟨below, tag, edge, tagged, wide⟩
  obtain rfl : below = 1 := Nat.succ_injective edge
  cases tagged
  revert wide
  decide

/-- A long local of two registers in a code of two, the second of which is the parameter's. -/
def straddling : CodeItem := ⟨2, 1, [6, 9], #[.constWide 0 7, .returnVoid]⟩

/-- Verification and loading accept the code, and its two locals share a register. -/
theorem straddling_shares :
    ∃ after id body frame wide narrow, Edit.addImage (taking "I" straddling) {} = (.ok (), after) ∧
      after.body? id = some body ∧
      (Context.mk (taking "I" straddling) {}).Decodes id straddling body frame after ∧
      frame.registers.toList = [some wide, some narrow] ∧ wide.kind = .long ∧ body.parameters = [narrow] ∧
      ¬Separates frame.registers.toList := by
  have done : (Edit.addImage (taking "I" straddling) {}).1 = .ok () := by decide +kernel
  have added : Edit.addImage (taking "I" straddling) {} =
    (.ok (), (Edit.addImage (taking "I" straddling) {}).2) := Prod.fst_eq_iff.mp done
  obtain ⟨verified, id, body, frame, -, here, decodes⟩ := Reachable.start.decodes added List.mem_cons_self
    List.mem_cons_self rfl
  have assigns := decodes.assigned
  have first : frame.registers.toList[0]?.map (Option.map Local.kind) = some (some .long) :=
    assigns.below (show 0 < straddling.firstParameter by decide)
  obtain ⟨_, low, kind⟩ := Option.map_eq_some_iff.mp first
  obtain ⟨wide, rfl, long⟩ := Option.map_eq_some_iff.mp kind
  have size : frame.registers.toList.length = 2 := assigns.length
  obtain ⟨one, two, registers⟩ := List.length_eq_two.mp size
  have high : [two] = spread body.parameters := by
    rw [← assigns.high, registers]
    rfl
  have parameters : body.parameters = two.toList := by
    rw [← filterMap_spread body.parameters, ← high]
    cases two <;> rfl
  have some' := assigns.parameters_ne_nil (show straddling.firstParameter ≤ 1 by decide) (by omega)
  rw [registers] at low
  obtain rfl : one = some wide := Option.some_inj.mp low
  obtain ⟨narrow, rfl⟩ : ∃ narrow, two = some narrow := by
    rw [parameters] at some'
    cases two with
    | none => exact absurd rfl some'
    | some narrow => exact ⟨narrow, rfl⟩
  refine ⟨_, id, body, frame, wide, narrow, added, here, decodes, registers, long, parameters, ?_⟩
  rw [assigns.separates_iff verified, not_not]
  exact ⟨0, 6, rfl, rfl, rfl⟩

end Session

end ClassImage
