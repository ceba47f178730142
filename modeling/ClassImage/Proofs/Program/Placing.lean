import ClassImage.Program.Loading
import Mathlib.Data.List.Nodup

/-!
Which registers the locals of a body are given. Parameters take the registers at
the top, one after the other, each as many as its values need. Below them every
register that can begin a value has a local of its own.
-/

namespace ClassImage

/-- A tag that stands for a kind is the kind's own. -/
theorem ValueKind.tag_of_ofTag? {tag : UInt8} {kind : ValueKind} (found : ofTag? tag = some kind) :
    kind.tag = tag := by
  simpa using List.find?_some found

theorem ValueKind.isWide_tag (kind : ValueKind) : RegisterTag.isWide kind.tag = kind.isWide := by
  cases kind <;> rfl

theorem ValueKind.isWide_of_ofTag? {tag : UInt8} {kind : ValueKind} (found : ofTag? tag = some kind) :
    kind.isWide = RegisterTag.isWide tag := by
  rw [← tag_of_ofTag? found, isWide_tag]

/-- A wide tag stands for a kind. -/
theorem ValueKind.exists_of_isWide {tag : UInt8} (wide : RegisterTag.isWide tag) :
    ∃ kind, ofTag? tag = some kind := by
  simp only [RegisterTag.isWide, Bool.or_eq_true, decide_eq_true_eq] at wide
  rcases wide with rfl | rfl
  · exact ⟨.long, rfl⟩
  · exact ⟨.double, rfl⟩

/-- The registers of locals: the second register of a pair holds none. -/
def spread (locals : List Local) : List (Option Local) :=
  locals.flatMap fun slot => if slot.kind.isWide then [some slot, none] else [some slot]

theorem spread_cons (slot : Local) (locals : List Local) :
    spread (slot :: locals) =
      (if slot.kind.isWide then [some slot, none] else [some slot]) ++ spread locals :=
  List.flatMap_cons

theorem spread_append (first second : List Local) :
    spread (first ++ second) = spread first ++ spread second :=
  List.flatMap_append

/-- No local follows a wide one in the registers of locals. -/
theorem spread_second {locals : List Local} {place : Nat} {slot : Local}
    (here : (spread locals)[place]? = some (some slot)) (wide : slot.kind.isWide) :
    (spread locals)[place + 1]? = some none := by
  induction locals generalizing place with
  | nil => cases here
  | cons first locals ih =>
    rw [spread_cons] at here ⊢
    cases width : first.kind.isWide with
    | true =>
      rw [width, if_pos rfl] at here
      rw [if_pos rfl]
      match place, here with
      | 0, _ => rfl
      | place + 2, here => exact ih here
    | false =>
      rw [width, if_neg Bool.false_ne_true] at here
      rw [if_neg Bool.false_ne_true]
      match place, here with
      | 0, rfl => exact absurd (width.symm.trans wide) Bool.false_ne_true
      | place + 1, here => exact ih here

theorem head?_spread (locals : List Local) : (spread locals).head? = locals.head?.map some := by
  cases locals with
  | nil => rfl
  | cons first locals =>
    rw [spread_cons]
    split <;> rfl

theorem filterMap_spread (locals : List Local) : (spread locals).filterMap id = locals := by
  induction locals with
  | nil => rfl
  | cons slot locals ih =>
    rw [spread_cons, List.filterMap_append, ih]
    cases slot.kind.isWide <;> rfl

theorem placeParameters_length {parameters : List Local} {tags rest : List UInt8}
    {placed : List (Option Local)} (found : placeParameters parameters tags = some (placed, rest)) :
    placed.length + rest.length = tags.length := by
  fun_induction placeParameters parameters tags generalizing placed rest with
  | case1 tags =>
    cases found
    exact Nat.zero_add _
  | case2 => cases found
  | case3 => cases found
  | case4 => cases found
  | case5 parameter parameters tag _ wide _ tags ih =>
    obtain ⟨⟨others, rest⟩, there, same⟩ := Option.map_eq_some_iff.mp found
    cases same
    have := ih there
    simp only [List.length_cons]
    omega
  | case6 parameter parameters tag tags _ _ ih =>
    obtain ⟨⟨others, rest⟩, there, same⟩ := Option.map_eq_some_iff.mp found
    cases same
    have := ih there
    simp only [List.length_cons]
    omega

/-- Parameters that fit their tags take registers one after the other. -/
theorem placeParameters_eq_spread {parameters : List Local} {tags rest : List UInt8}
    {placed : List (Option Local)} (found : placeParameters parameters tags = some (placed, rest)) :
    placed = spread parameters := by
  fun_induction placeParameters parameters tags generalizing placed rest with
  | case1 tags =>
    cases found
    rfl
  | case2 => cases found
  | case3 => cases found
  | case4 => cases found
  | case5 parameter parameters tag _ wide _ tags ih =>
    obtain ⟨⟨others, rest⟩, there, same⟩ := Option.map_eq_some_iff.mp found
    cases same
    rw [spread_cons, if_pos wide, ih there]
    rfl
  | case6 parameter parameters tag tags _ narrow ih =>
    obtain ⟨⟨others, rest⟩, there, same⟩ := Option.map_eq_some_iff.mp found
    cases same
    rw [spread_cons, if_neg narrow, ih there]
    rfl

/-- The first register of a parameter. -/
def CodeItem.firstParameter (code : CodeItem) : Nat := code.registers.toNat - code.parameterRegisters.toNat

/-- The registers of a body have their locals: those at the top have the parameters, and those below have
locals of the kinds that their tags tell. No two registers have the same local. -/
structure CodeItem.Assigns (code : CodeItem) (parameters : List Local) (registers : List (Option Local)) :
    Prop where
  length : registers.length = code.kinds.length
  low : (registers.take code.firstParameter).map (Option.map Local.kind) =
    (code.kinds.take code.firstParameter).map ValueKind.ofTag?
  high : registers.drop code.firstParameter = spread parameters
  distinct : (registers.filterMap id).Nodup

/-- Locals below the parameters that were issued after them are other ones. -/
theorem CodeItem.Assigns.of_low {code : CodeItem} {parameters : List Local} {low placed : List (Option Local)}
    (kinds : low.map (Option.map Local.kind) = (code.kinds.take code.firstParameter).map ValueKind.ofTag?)
    (found : placeParameters parameters (code.kinds.drop code.firstParameter) = some (placed, []))
    {start : Nat} (given : parameters.Nodup) (old : ∀ slot ∈ parameters, slot.id < start)
    (new : (low.filterMap id).map Local.id = List.range' start (low.filterMap id).length) :
    code.Assigns parameters (low ++ placed) := by
  have size : low.length = min code.firstParameter code.kinds.length := by
    rw [← List.length_map (Option.map Local.kind), kinds, List.length_map, List.length_take]
  have total := placeParameters_length found
  rw [List.length_nil, List.length_drop] at total
  have parts : (low ++ placed).take code.firstParameter = low ∧ (low ++ placed).drop code.firstParameter = placed := by
    rcases Nat.le_total code.firstParameter code.kinds.length with inside | outside
    · rw [Nat.min_eq_left inside] at size
      exact ⟨by rw [← size, List.take_left], by rw [← size, List.drop_left]⟩
    · obtain rfl := List.length_eq_zero_iff.mp (show placed.length = 0 by omega)
      rw [List.append_nil]
      exact ⟨List.take_of_length_le (by omega), List.drop_eq_nil_of_le (by omega)⟩
  obtain rfl := placeParameters_eq_spread found
  refine ⟨?_, by rw [parts.1, kinds], parts.2, ?_⟩
  · rw [List.length_append, size]
    omega
  · rw [List.filterMap_append, filterMap_spread]
    have fresh : (low.filterMap id).Nodup := .of_map Local.id (by rw [new]; exact List.nodup_range')
    refine fresh.append given ?_
    intro slot here there
    have late : slot.id ∈ List.range' start (low.filterMap id).length := new ▸ List.mem_map_of_mem here
    exact absurd (old slot there) (Nat.not_lt.mpr (List.mem_range'_1.mp late).1)

namespace CodeItem

variable {code : CodeItem} {parameters : List Local} {registers : List (Option Local)}
  (assigns : code.Assigns parameters registers)

include assigns

/-- A register below the parameters has a local of the kind of its tag. -/
theorem Assigns.below {place : Nat} (low : place < code.firstParameter) :
    registers[place]?.map (Option.map Local.kind) = code.kinds[place]?.map ValueKind.ofTag? := by
  have same := congrArg (fun kinds => kinds[place]?) assigns.low
  simpa only [List.getElem?_map, List.getElem?_take_of_lt low] using same

theorem Assigns.above {place : Nat} (high : code.firstParameter ≤ place) :
    registers[place]? = (spread parameters)[place - code.firstParameter]? := by
  rw [← assigns.high, List.getElem?_drop, Nat.add_sub_cancel' high]

/-- Registers from the first parameter on are those of parameters. -/
theorem Assigns.parameters_ne_nil {place : Nat} (high : code.firstParameter ≤ place)
    (inside : place < registers.length) : parameters ≠ [] := by
  rintro rfl
  have empty : registers.drop code.firstParameter = [] := assigns.high
  rw [List.drop_eq_nil_iff] at empty
  omega

end CodeItem

end ClassImage
