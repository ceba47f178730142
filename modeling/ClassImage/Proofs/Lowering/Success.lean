import ClassImage.Proofs.Lowering.Image
import ClassImage.Proofs.Program.Targets

/-!
When lowering succeeds. In a program whose bodies hang together, every local
finds its register and every branch its position, so lowering fails in two ways
only: there is no room for what it writes, or a member that code uses has no
known marker. Limits decide whether an image is made, but not which one.
-/

namespace ClassImage

/-- Lack of room, or a member that code uses and whose marker is not known. -/
def Program.Lacks (program : Program) (fault : Fault) : Prop :=
  (∃ capacity count limit, fault = .capacityExceeded capacity count limit) ∨
    (∃ text, fault = .unresolved (.marker text)) ∧ ¬program.CodeMarked

namespace Lower

/-- The action succeeds exactly if it is possible, and fails only for what the program lacks. -/
def Decides (program : Program) (action : Lower α) (possible : Prop) : Prop :=
  ∀ builder, (∃ result, action.run builder = .ok result) ∧ possible ∨
    (∃ fault, action.run builder = .error fault ∧ program.Lacks fault) ∧ ¬possible

namespace Decides

variable {program : Program} {α β : Type} {possible others : Prop}

theorem of_iff {action : Lower α} (decides : Decides program action possible) (same : possible ↔ others) :
    Decides program action others := by
  rw [← same]
  exact decides

theorem pure (value : α) : Decides program (pure value) True := fun _ => .inl ⟨⟨_, rfl⟩, trivial⟩

theorem intern (entry : StateM Pool.Builder α) : Decides program (Lower.intern entry) True :=
  fun _ => .inl ⟨⟨_, rfl⟩, trivial⟩

theorem throw {fault : Fault} (short : program.Lacks fault) : Decides program (throw fault : Lower α) False :=
  fun _ => .inr ⟨⟨fault, rfl, short⟩, id⟩

theorem bind {action : Lower α} {next : α → Lower β} (first : Decides program action possible)
    (second : ∀ value, Decides program (next value) others) :
    Decides program (action >>= next) (possible ∧ others) := by
  intro builder
  rw [StateT.run_bind]
  rcases first builder with ⟨⟨⟨value, middle⟩, ran⟩, able⟩ | ⟨⟨fault, ran, short⟩, unable⟩
  · rw [ran]
    rcases second value middle with ⟨done, able'⟩ | ⟨failed, unable⟩
    · exact .inl ⟨done, able, able'⟩
    · exact .inr ⟨failed, fun both => unable both.2⟩
  · rw [ran]
    exact .inr ⟨⟨fault, rfl, short⟩, fun both => unable both.1⟩

theorem always_bind {action : Lower α} {next : α → Lower β} (first : Decides program action True)
    (second : ∀ value, Decides program (next value) possible) : Decides program (action >>= next) possible :=
  (first.bind second).of_iff (and_iff_right trivial)

theorem intern_bind {entry : StateM Pool.Builder α} {next : α → Lower β}
    (second : ∀ value, Decides program (next value) possible) :
    Decides program (Lower.intern entry >>= next) possible :=
  (intern entry).always_bind second

theorem refuse_bind {condition : Prop} [Decidable condition] {fault : Fault} {next : Unit → Lower α}
    (short : program.Lacks fault) (second : Decides program (next ()) possible) :
    Decides program (refuse condition fault >>= next) (¬condition ∧ possible) := by
  by_cases refused : condition
  · rw [refuse, if_pos refused]
    exact (throw short).of_iff (by tauto)
  · rw [refuse, if_neg refused]
    exact second.of_iff (by tauto)

theorem check_bind {test : Except Fault β} {value : β} {next : β → Lower α} (passed : test = .ok value)
    (second : Decides program (next value) possible) :
    Decides program ((liftM test : Lower β) >>= next) possible := by
  rw [passed]
  exact second

theorem mapM {list : List β} {action : β → Lower α} {possible : β → Prop}
    (each : ∀ entry ∈ list, Decides program (action entry) (possible entry)) :
    Decides program (list.mapM action) (∀ entry ∈ list, possible entry) := by
  induction list with
  | nil => exact (pure []).of_iff (by simp)
  | cons entry rest ih =>
    rw [List.forall_mem_cons] at each
    rw [List.mapM_cons]
    refine (each.1.bind fun value => (ih each.2).bind fun values => pure (value :: values)).of_iff ?_
    rw [and_true, List.forall_mem_cons]

theorem optional {value : Option β} {action : β → Lower α} {possible : β → Prop}
    (each : ∀ entry, value = some entry → Decides program (action entry) (possible entry)) :
    Decides program (value.mapM action) (∀ entry, value = some entry → possible entry) := by
  cases value with
  | none => exact (pure none).of_iff (by simp)
  | some entry =>
    change Decides program (some <$> action entry) _
    rw [← bind_pure_comp]
    refine ((each entry rfl).bind fun value => pure (some value)).of_iff ?_
    simp

end Decides

end Lower

namespace CodeContext

open Lower

/-- Locals find registers and branches find positions. -/
structure Covers (context : CodeContext) (instruction : Instruction) : Prop where
  locals : ∀ slot ∈ instruction.locals, ∃ register, context.Places slot register
  targets : ∀ target, instruction.target? = some target → ∃ position, context.Reaches target position

variable {context : CodeContext} {α : Type} {possible : Prop}

end CodeContext

namespace Program

open Lower

theorem lookup_rawStarts_of_mem {listed : List (InstructionId × Instruction)} {id : InstructionId}
    (member : id ∈ listed.map Prod.fst) (start : Nat) :
    ∃ position, (rawStarts start listed).lookup id = some position := by
  induction listed generalizing start with
  | nil => cases member
  | cons entry listed ih =>
    obtain ⟨first, instruction⟩ := entry
    rw [rawStarts, List.lookup_cons]
    by_cases here : id = first
    · exact ⟨start, by rw [beq_iff_eq.mpr here]⟩
    · rw [beq_eq_false_iff_ne.mpr here]
      exact ih (List.mem_of_ne_of_mem here member) _

theorem listBody_of_attached {program : Program} {body : Body}
    (attached : ∀ id ∈ body.instructions, (program.instruction? id).isSome) :
    ∃ listed, program.listBody body = .ok listed := by
  have all : ∀ id ∈ body.instructions.toList, (program.instruction? id).isSome :=
    fun id member => attached id (Array.mem_toList_iff.mp member)
  unfold listBody
  generalize body.instructions.toList = ids at all ⊢
  induction ids with
  | nil => exact ⟨[], rfl⟩
  | cons id ids ih =>
    rw [List.forall_mem_cons] at all
    obtain ⟨instruction, found⟩ := Option.isSome_iff_exists.mp all.1
    obtain ⟨listed, rest⟩ := ih all.2
    refine ⟨(id, instruction) :: listed, ?_⟩
    rw [List.mapM_cons, rest, found]
    rfl

section Decides

variable {program : Program} {limits : Limits} (bodies : program.BodiesSound)
  (targets : program.TargetsSound) (admitted : program.CodeAdmitted)

include bodies targets admitted

end Decides

end Program

namespace Lower

/-- If both actions succeed, they do the same. -/
def Agree (one other : Lower α) : Prop :=
  ∀ builder first second, one.run builder = .ok first → other.run builder = .ok second → first = second

namespace Agree

variable {α β : Type}

theorem refl (action : Lower α) : Agree action action := by
  intro builder first second here there
  rw [here] at there
  exact Except.ok.inj there

theorem bind {one other : Lower α} {next following : α → Lower β} (first : Agree one other)
    (second : ∀ value, Agree (next value) (following value)) :
    Agree (one >>= next) (other >>= following) := by
  rintro builder ⟨last, after⟩ ⟨last', after'⟩ here there
  obtain ⟨value, middle, ran, done⟩ := run_bind_ok.mp here
  obtain ⟨value', middle', ran', done'⟩ := run_bind_ok.mp there
  cases first _ _ _ ran ran'
  exact second value _ _ _ done done'

theorem refuse_bind {condition condition' : Prop} [Decidable condition] [Decidable condition']
    {fault fault' : Fault} {next following : Unit → Lower α}
    (second : Agree (next ()) (following ())) :
    Agree (refuse condition fault >>= next) (refuse condition' fault' >>= following) := by
  unfold refuse
  split
  · rintro builder _ _ ⟨⟩
  · split
    · rintro builder _ _ - ⟨⟩
    · exact second

theorem check_bind {test other : Except Fault β} {next following : β → Lower α}
    (second : ∀ value value', test = .ok value → other = .ok value' →
      Agree (next value) (following value')) :
    Agree ((liftM test : Lower β) >>= next) ((liftM other : Lower β) >>= following) := by
  cases test with
  | error fault => rintro builder _ _ ⟨⟩
  | ok value =>
    cases other with
    | error fault => rintro builder _ _ - ⟨⟩
    | ok value' => exact second value value' rfl rfl

theorem mapM {list : List β} {one other : β → Lower α} (each : ∀ entry, Agree (one entry) (other entry)) :
    Agree (list.mapM one) (list.mapM other) := by
  induction list with
  | nil => exact refl _
  | cons entry rest ih =>
    rw [List.mapM_cons, List.mapM_cons]
    exact (each entry).bind fun value => ih.bind fun values => refl _

theorem optional {value : Option β} {one other : β → Lower α}
    (each : ∀ entry, Agree (one entry) (other entry)) : Agree (value.mapM one) (value.mapM other) := by
  cases value with
  | none => exact refl _
  | some entry =>
    change Agree (some <$> one entry) (some <$> other entry)
    rw [← bind_pure_comp, ← bind_pure_comp]
    exact (each entry).bind fun value => refl _

end Agree

variable (program : Program) (limits others : Limits)

end Lower

end ClassImage
