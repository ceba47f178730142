import ClassImage.Proofs.Codec.Verify
import ClassImage.Proofs.Lowering.Units

/-!
How raw instructions fall into units. Splitting lays the units out one after the
other, with nothing but idle instructions between them, so a position that is not
inside a unit stands for the first unit from there on. The units of instructions
that are not idle can be told from their raw form alone.
-/

namespace ClassImage

namespace CodeUnit

/-- Raw instructions that do not go on with the unit before them. -/
def Fresh (raws : List RawInstruction) : Prop := ∀ register, raws.head? ≠ some (.moveResult register)

theorem fresh_flatMap {units : List CodeUnit} (proper : ∀ unit ∈ units, unit.Proper) :
    Fresh (units.flatMap raws) := by
  intro register
  cases units with
  | nil => simp
  | cons unit units =>
    have first := proper unit List.mem_cons_self
    rw [List.flatMap_cons]
    cases unit with
    | allocation => simp [raws]
    | call dispatch method arguments result => cases result <;> simp [raws]
    | single instruction =>
      intro same
      cases Option.some.inj same
      exact first

/-- The first unit is found before whatever follows it. -/
theorem split_unit {unit : CodeUnit} (proper : unit.Proper) {rest : List RawInstruction}
    (fresh : Fresh rest) (start : Nat) :
    split start (unit.raws ++ rest) = (start, unit) :: split (start + unit.raws.length) rest := by
  cases unit with
  | allocation => rfl
  | call dispatch method arguments result =>
    cases result with
    | some => rfl
    | none =>
      cases rest with
      | nil => rfl
      | cons raw rest =>
        cases raw with
        | moveResult register => exact absurd rfl (fresh register)
        | _ => rfl
  | single instruction =>
    cases instruction with
    | nop | moveResult | newInstance | invoke => exact proper.elim
    | _ => rfl

/-- The raw instructions of a unit are in place from its start on; between units nothing is done. -/
inductive Laid : Nat → List RawInstruction → List (Nat × CodeUnit) → Prop
  | nil {start : Nat} : Laid start [] []
  | nop {start : Nat} {raws : List RawInstruction} {units : List (Nat × CodeUnit)}
      (rest : Laid (start + 1) raws units) : Laid start (.nop :: raws) units
  | unit {start : Nat} {raws : List RawInstruction} {units : List (Nat × CodeUnit)} {unit : CodeUnit}
      (acts : .nop ∉ unit.raws) (rest : Laid (start + unit.raws.length) raws units) :
      Laid start (unit.raws ++ raws) ((start, unit) :: units)

/-- What is called right after an allocation is called directly. -/
def Direct (raws : List RawInstruction) : Prop :=
  ∀ offset dst type dispatch method arguments, raws[offset]? = some (.newInstance dst type) →
    raws[offset + 1]? = some (.invoke dispatch method arguments) → dispatch = .direct

theorem Direct.drop {raws : List RawInstruction} (direct : Direct raws) (count : Nat) :
    Direct (raws.drop count) := by
  intro offset dst type dispatch method arguments here there
  rw [List.getElem?_drop] at here there
  exact direct (count + offset) dst type dispatch method arguments here (by rw [← there, Nat.add_assoc])

theorem laid_split {raws : List RawInstruction} (direct : Direct raws) (start : Nat) :
    Laid start raws (split start raws) := by
  fun_induction split start raws with
  | case1 => exact .nil
  | case2 start rest ih => exact .nop (ih (direct.drop 1))
  | case3 start dst type dispatch constructor arguments rest ih =>
    cases direct 0 dst type dispatch constructor arguments rfl rfl
    exact @Laid.unit start rest _ (.allocation dst type constructor arguments) (by simp [raws]) (ih (direct.drop 2))
  | case4 start dispatch method arguments dst rest ih =>
    exact @Laid.unit start rest _ (.call dispatch method arguments (some dst)) (by simp [raws]) (ih (direct.drop 2))
  | case5 start dispatch method arguments rest other ih =>
    exact @Laid.unit start rest _ (.call dispatch method arguments none) (by simp [raws]) (ih (direct.drop 1))
  | case6 start raw rest idle _ _ _ ih =>
    exact @Laid.unit start rest _ (.single raw) (by simpa [raws, eq_comm] using idle) (ih (direct.drop 1))

namespace Laid

variable {start : Nat} {raws : List RawInstruction} {units : List (Nat × CodeUnit)} (laid : Laid start raws units)

include laid

theorem bounds {entry : Nat × CodeUnit} (member : entry ∈ units) :
    start ≤ entry.1 ∧ entry.1 + entry.2.raws.length ≤ start + raws.length := by
  induction laid with
  | nil => cases member
  | nop _ ih =>
    have inside := ih member
    rw [List.length_cons]
    omega
  | @unit start raws units unit acts _ ih =>
    rw [List.length_append]
    rcases List.mem_cons.mp member with rfl | later
    · dsimp only
      omega
    · have inside := ih later
      omega

/-- Units stand where they start. -/
theorem stands {entry : Nat × CodeUnit} (member : entry ∈ units) :
    entry.2.raws <+: raws.drop (entry.1 - start) := by
  induction laid with
  | nil => cases member
  | @nop start raws units rest ih =>
    have inside := (rest.bounds member).1
    rw [show entry.1 - start = entry.1 - (start + 1) + 1 by omega, List.drop_succ_cons]
    exact ih member
  | @unit start raws units unit acts rest ih =>
    rcases List.mem_cons.mp member with rfl | later
    · rw [Nat.sub_self, List.drop_zero]
      exact List.prefix_append _ _
    · have inside := (rest.bounds later).1
      rw [show entry.1 - start = unit.raws.length + (entry.1 - (start + unit.raws.length)) by omega,
        List.drop_length_add_append]
      exact ih later

/-- What the units consist of is what is left without idle instructions. -/
theorem flatMap_raws : units.flatMap (fun entry => entry.2.raws) = raws.filter (· ≠ .nop) := by
  induction laid with
  | nil => rfl
  | nop _ ih => simpa using ih
  | @unit start raws units unit acts _ ih =>
    have kept : unit.raws.filter (· ≠ .nop) = unit.raws := by
      rw [List.filter_eq_self]
      intro raw member
      simp only [ne_eq, decide_not, Bool.not_eq_eq_eq_not, Bool.not_true, decide_eq_false_iff_not]
      rintro rfl
      exact acts member
    rw [List.flatMap_cons, List.filter_append, kept, ih]

end Laid

/-- The units consist of the raw instructions that are not idle, in order, and each of them can be told from
its raw form. -/
structure Groups (raws : List RawInstruction) (units : List CodeUnit) : Prop where
  proper : ∀ unit ∈ units, unit.Proper
  whole : units.flatMap CodeUnit.raws = raws.filter (· ≠ .nop)

/-- Units that can be told from their raw form are found again in it. -/
theorem split_flatMap {units : List CodeUnit} (proper : ∀ unit ∈ units, unit.Proper) (start : Nat) :
    (split start (units.flatMap raws)).map Prod.snd = units := by
  induction units generalizing start with
  | nil => rfl
  | cons unit units ih =>
    rw [List.forall_mem_cons] at proper
    rw [List.flatMap_cons, split_unit proper.1 (fresh_flatMap proper.2), List.map_cons, ih proper.2]

/-- Raw instructions are grouped in one way at most. -/
theorem Groups.unique {raws : List RawInstruction} {units others : List CodeUnit} (one : Groups raws units)
    (other : Groups raws others) : units = others := by
  rw [← split_flatMap one.proper 0, one.whole, ← other.whole, split_flatMap other.proper]

theorem Laid.groups {start : Nat} {raws : List RawInstruction} {units : List (Nat × CodeUnit)}
    (laid : Laid start raws units) (proper : ∀ entry ∈ units, entry.2.Proper) :
    Groups raws (units.map Prod.snd) := by
  refine ⟨?_, by rw [List.flatMap_map]; exact laid.flatMap_raws⟩
  intro unit member
  obtain ⟨entry, listed, rfl⟩ := List.mem_map.mp member
  exact proper entry listed

/-- No unit has begun and not ended at the position. -/
def Apart (units : List (Nat × CodeUnit)) (position : Nat) : Prop :=
  ∀ entry ∈ units, position ≤ entry.1 ∨ entry.1 + entry.2.raws.length ≤ position

theorem indexOf_cons_of_lt {start position : Nat} {unit : CodeUnit} {units : List (Nat × CodeUnit)}
    (earlier : start < position) :
    indexOf ((start, unit) :: units) position = indexOf units position + 1 := by
  rw [indexOf, List.takeWhile_cons_of_pos (by simpa using earlier), List.length_cons, indexOf]

theorem Laid.indexOf_eq_zero {start position : Nat} {raws : List RawInstruction} {units : List (Nat × CodeUnit)}
    (laid : Laid start raws units) (before : position ≤ start) : indexOf units position = 0 := by
  cases units with
  | nil => rfl
  | cons entry units =>
    have bound := (laid.bounds List.mem_cons_self).1
    rw [indexOf, List.takeWhile_cons_of_neg (by simp only [decide_eq_true_eq]; omega), List.length_nil]

/-- A position between units stands for the first unit from there on: behind it there is nothing but idle
instructions up to the start of that unit. -/
theorem Laid.first {start : Nat} {raws : List RawInstruction} {units : List (Nat × CodeUnit)}
    (laid : Laid start raws units) {position : Nat} (inside : position ≤ raws.length)
    (apart : Apart units (start + position)) (found : indexOf units (start + position) < units.length) :
    ∃ gap unit, units[indexOf units (start + position)]? = some (start + position + gap, unit) ∧
      (∀ skipped < gap, raws[position + skipped]? = some .nop) ∧
      unit.raws <+: raws.drop (position + gap) ∧ .nop ∉ unit.raws := by
  induction laid generalizing position with
  | nil => cases found
  | @nop start raws units rest ih =>
    cases position with
    | zero =>
      have here := rest.indexOf_eq_zero (Nat.le_succ start)
      have next := rest.indexOf_eq_zero (Nat.le_refl (start + 1))
      have later : Apart units (start + 1 + 0) := fun entry member => .inl (rest.bounds member).1
      obtain ⟨gap, unit, listed, idle, placed, acts⟩ := ih (Nat.zero_le _) later (by
        rw [Nat.add_zero, next]
        rwa [Nat.add_zero, here] at found)
      refine ⟨gap + 1, unit, ?_, ?_, ?_, acts⟩
      · rw [Nat.add_zero, here]
        rw [Nat.add_zero, next] at listed
        rw [listed, Nat.add_right_comm, Nat.add_assoc]
      · intro skipped below
        cases skipped with
        | zero => rfl
        | succ skipped => simpa using idle skipped (by omega)
      · simpa using placed
    | succ position =>
      rw [← Nat.add_assoc, Nat.add_right_comm] at apart found ⊢
      obtain ⟨gap, unit, listed, idle, placed, acts⟩ := ih (by simpa using inside) apart found
      refine ⟨gap, unit, listed, ?_, ?_, acts⟩
      · intro skipped below
        rw [Nat.add_right_comm, List.getElem?_cons_succ]
        exact idle skipped below
      · rwa [Nat.add_right_comm, List.drop_succ_cons]
  | @unit start raws units unit acts rest ih =>
    rcases apart _ List.mem_cons_self with early | late
    · obtain rfl : position = 0 := by
        dsimp only at early
        omega
      have here := (Laid.unit acts rest).indexOf_eq_zero (Nat.le_refl start)
      refine ⟨0, unit, ?_, nofun, List.prefix_append _ _, acts⟩
      rw [Nat.add_zero, here]
      rfl
    · have some' : 0 < unit.raws.length := List.length_pos_iff.mpr unit.raws_ne_nil
      obtain ⟨further, rfl⟩ : ∃ further, position = unit.raws.length + further :=
        ⟨position - unit.raws.length, by dsimp only at late; omega⟩
      rw [← Nat.add_assoc] at apart found ⊢
      rw [indexOf_cons_of_lt (by omega)] at found ⊢
      obtain ⟨gap, other, listed, idle, placed, active⟩ := ih (by simpa using inside)
        (fun entry member => apart entry (List.mem_cons_of_mem _ member)) (by simpa using found)
      refine ⟨gap, other, listed, ?_, ?_, active⟩
      · intro skipped below
        rw [Nat.add_assoc, List.getElem?_append_right (Nat.le_add_right _ _), Nat.add_sub_cancel_left]
        exact idle skipped below
      · rwa [Nat.add_assoc, List.drop_length_add_append]

/-- From the position on, the first instruction that is not idle is at the start. -/
def FirstActive (raws : List RawInstruction) (position start : Nat) : Prop :=
  position ≤ start ∧ (∀ place, position ≤ place → place < start → raws[place]? = some .nop) ∧
    ∃ raw, raws[start]? = some raw ∧ raw ≠ .nop

/-- The unit that a position stands for starts at the first instruction from there on that is not idle. -/
theorem Laid.firstActive {raws : List RawInstruction} {units : List (Nat × CodeUnit)} (laid : Laid 0 raws units)
    {position : Nat} (inside : position ≤ raws.length) (apart : Apart units position)
    (found : indexOf units position < units.length) :
    ∃ start unit, units[indexOf units position]? = some (start, unit) ∧ FirstActive raws position start := by
  rw [← Nat.zero_add position] at apart found
  obtain ⟨gap, unit, listed, idle, ⟨rest, placed⟩, acts⟩ := laid.first inside apart found
  rw [Nat.zero_add] at listed
  refine ⟨position + gap, unit, listed, Nat.le_add_right _ _, ?_, ?_⟩
  · intro place late early
    obtain ⟨skipped, rfl⟩ := Nat.exists_eq_add_of_le late
    exact idle skipped (by omega)
  · obtain ⟨raw, more, same⟩ := List.exists_cons_of_ne_nil unit.raws_ne_nil
    refine ⟨raw, ?_, ?_⟩
    · rw [← Nat.add_zero (position + gap), ← List.getElem?_drop, ← placed, same]
      rfl
    · rintro rfl
      exact acts (same ▸ List.mem_cons_self)

end CodeUnit

namespace CodeItem.Verified

open CodeUnit

variable {code : CodeItem} {pool : Pool} (verified : code.Verified pool)

include verified

theorem direct : Direct code.instructions.toList := by
  intro offset dst type dispatch method arguments here there
  rw [Array.getElem?_toList] at here there
  obtain ⟨constructor, operands, called, -⟩ := (verified.instructions offset _ here).allocation dst type rfl
  cases there.symm.trans called
  rfl

/-- Code is laid out in units. -/
theorem laid : Laid 0 code.instructions.toList (split 0 code.instructions.toList) :=
  laid_split verified.direct 0

/-- The raw instructions of a unit are found in the code from its start on. -/
theorem reads {entry : Nat × CodeUnit} (member : entry ∈ split 0 code.instructions.toList) (place : Nat)
    {raw : RawInstruction} (found : entry.2.raws[place]? = some raw) :
    code.instruction? (entry.1 + place) = some raw := by
  obtain ⟨rest, whole⟩ := verified.laid.stands member
  have there : (entry.2.raws ++ rest)[place]? = some raw := by
    rw [List.getElem?_append_left (List.getElem?_eq_some_iff.mp found).1, found]
  rwa [whole, Nat.sub_zero, List.getElem?_drop, Array.getElem?_toList] at there

/-- Control does not arrive inside a unit. -/
theorem apart {position : Nat} (reached : code.isStart position) :
    Apart (split 0 code.instructions.toList) position := by
  intro entry member
  by_contra inside
  have held : ∀ place raw, entry.2.raws[place]? = some raw → code.instruction? (entry.1 + place) = some raw :=
    fun place _ found => verified.reads member place found
  -- A unit that has an inside has two instructions, and control does not arrive at the second.
  obtain ⟨start, unit⟩ := entry
  have second : ∀ first last, unit.raws = [first, last] → position = start + 1 := by
    intro first last same
    rw [same] at inside
    simp only [List.length_cons, List.length_nil] at inside
    omega
  cases unit with
  | allocation dst type constructor arguments =>
    obtain rfl := second _ _ rfl
    have here := held 1 _ rfl
    have previous : code.before? (start + 1) = some (.newInstance dst type) := held 0 _ rfl
    rw [CodeItem.isStart, here, previous] at reached
    cases reached
  | call dispatch method arguments result =>
    cases result with
    | none =>
      simp only [raws, List.length_singleton] at inside
      omega
    | some dst =>
      obtain rfl := second _ _ rfl
      have here := held 1 _ rfl
      rw [CodeItem.isStart, here] at reached
      cases reached
  | single raw =>
    simp only [raws, List.length_singleton] at inside
    omega

/-- What branches lead to is not inside a unit. -/
theorem apart_target {raw : RawInstruction} (member : raw ∈ code.instructions) {target : UInt32}
    (branches : raw.target? = some target) :
    target.toNat < code.instructions.size ∧ Apart (split 0 code.instructions.toList) target.toNat := by
  obtain ⟨offset, found⟩ := Array.mem_iff_getElem?.mp member
  have reached := (verified.instructions offset raw found).target target branches
  refine ⟨?_, verified.apart reached⟩
  by_contra outside
  rw [CodeItem.isStart, CodeItem.instruction?, Array.getElem?_eq_none (Nat.not_lt.mp outside)] at reached
  cases reached

end CodeItem.Verified

end ClassImage
