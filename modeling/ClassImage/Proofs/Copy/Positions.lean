import ClassImage.Proofs.Copy.Registers
import ClassImage.Proofs.Program.Grouping

/-!
Positions of units. Splitting the raw form of a body finds its units again, each
at the start of the instruction that it was lowered from, so the units before a
branch's position are those of the instructions before its target.
-/

namespace ClassImage

namespace Program

variable {final : Pool} {context : CodeContext} {listed : List (InstructionId × Instruction)}
  {units : List CodeUnit}

/-- The raw positions at which the instructions of a body start. -/
def startsFrom (start : Nat) (listed : List (InstructionId × Instruction)) : List Nat :=
  (rawStarts start listed).map Prod.snd

theorem split_flatMap (each : List.Forall₂ (fun entry unit => Lowered final context entry.2 unit) listed units)
    (start : Nat) :
    CodeUnit.split start (units.flatMap CodeUnit.raws) = (startsFrom start listed).zip units := by
  induction each generalizing start with
  | nil => rfl
  | @cons entry unit listed units first others ih =>
    have proper : ∀ unit ∈ units, unit.Proper := by
      intro unit member
      obtain ⟨entry, -, lowered⟩ := forall₂_exists_left others member
      exact lowered.proper
    rw [List.flatMap_cons, CodeUnit.split_unit first.proper (CodeUnit.fresh_flatMap proper), ih,
      first.length_raws]
    rfl

theorem rawLength_pos (instruction : Instruction) : 0 < instruction.rawLength := by
  cases instruction with
  | invoke call =>
    simp only [Instruction.rawLength]
    split <;> omega
  | _ => exact Nat.one_pos

theorem startsFrom_bounds {start position : Nat} (member : position ∈ startsFrom start listed) :
    start ≤ position ∧ position < start + rawTotal listed := by
  induction listed generalizing start with
  | nil => cases member
  | cons entry listed ih =>
    have first := rawLength_pos entry.2
    have total : rawTotal (entry :: listed) = entry.2.rawLength + rawTotal listed := rfl
    rcases List.mem_cons.mp member with rfl | member
    · omega
    · have bounds := ih member
      omega

/-- The start of a target is found at the target's place among the instructions. -/
theorem lookup_rawStarts {start position : Nat} {target : InstructionId}
    (found : (rawStarts start listed).lookup target = some position) :
    Paired (listed.map Prod.fst) (startsFrom start listed) target position := by
  induction listed generalizing start with
  | nil => cases found
  | cons entry listed ih =>
    obtain ⟨id, instruction⟩ := entry
    rw [rawStarts, List.lookup_cons] at found
    by_cases here : target = id
    · rw [here, beq_self_eq_true] at found
      cases found
      rw [here]
      exact List.mem_cons_self
    · rw [beq_eq_false_iff_ne.mpr here] at found
      exact List.mem_cons_of_mem _ (ih found)

/-- Exactly the units of earlier instructions start before an instruction. -/
theorem indexOf_zip {start position index : Nat} (length : units.length = listed.length)
    (there : (startsFrom start listed)[index]? = some position) :
    CodeUnit.indexOf ((startsFrom start listed).zip units) position = index := by
  induction listed generalizing start units index with
  | nil => cases there
  | cons entry listed ih =>
    obtain ⟨id, instruction⟩ := entry
    have first := rawLength_pos instruction
    cases units with
    | nil => cases length
    | cons unit units =>
      have view : (startsFrom start ((id, instruction) :: listed)).zip (unit :: units) =
          (start, unit) :: (startsFrom (start + instruction.rawLength) listed).zip units := rfl
      rw [CodeUnit.indexOf, view, List.takeWhile_cons]
      cases index with
      | zero =>
        cases there
        simp
      | succ index =>
        have later : (startsFrom (start + instruction.rawLength) listed)[index]? = some position := there
        have bounds := startsFrom_bounds (List.mem_of_getElem? later)
        rw [if_pos (by simp only [decide_eq_true_eq]; omega), List.length_cons]
        exact congrArg Nat.succ (ih (Nat.succ.inj length) later)

/-- A branch's position leads to the handle in the place of its target. -/
theorem target_paired {registers : Array (Option Local)} {first : InstructionId} {target : InstructionId}
    {position : UInt32} (length : units.length = listed.length) (small : rawTotal listed < 2 ^ 32)
    (starts : context.starts = rawStarts 0 listed) (reached : context.Reaches target position) :
    Paired (listed.map Prod.fst) (handlesFrom first listed.length) target
      (Loading.Context.Frame.target ⟨registers, (startsFrom 0 listed).zip units, first⟩ position) := by
  obtain ⟨start, found, rfl⟩ := reached
  rw [starts] at found
  obtain ⟨index, here, there⟩ := paired_iff.mp (lookup_rawStarts found)
  have bounds := startsFrom_bounds (List.mem_of_getElem? there)
  have inside : index < listed.length := by
    rw [← List.length_map Prod.fst]
    exact (List.getElem?_eq_some_iff.mp here).1
  refine paired_iff.mpr ⟨index, here, ?_⟩
  rw [getElem?_handlesFrom inside, Loading.Context.Frame.target, UInt32.toNat_ofNat',
    Nat.mod_eq_of_lt (by omega), indexOf_zip length there]

end Program

end ClassImage
