import ClassImage.Proofs.Copy.Relowering
import ClassImage.Proofs.Program.Targets

/-!
Programs that are the same up to names. What a program is encoded to depends on
the classes it defines and on the bodies of their methods, and on neither handles
nor locals: those may be renamed one to one. Nor does it depend on how the program
came about. Symbols that are no longer used, instructions that were taken away,
and locals that a body lists but does not use stay in the tables of a program and
leave no trace in its image.
-/

namespace ClassImage

open Program

/-- Under a relation that is right unique, an entry is paired with what stands for it. -/
theorem paired_of_forall₂ {relation : α → β → Prop} (unique : Relator.RightUnique relation) {list : List α}
    {others : List β} (related : List.Forall₂ relation list others) {entry : α} {other : β}
    (member : entry ∈ list) (stands : relation entry other) : Paired list others entry other := by
  induction related with
  | nil => cases member
  | @cons first second list others here _ ih =>
    rcases List.mem_cons.mp member with rfl | later
    · cases unique stands here
      exact List.mem_cons_self
    · exact List.mem_cons_of_mem _ (ih later)

/-- Instructions that are alike stay so under relations that keep what stands for the locals and the
target of the first. -/
theorem Alike.imp {program copy : Program} {slots wider : Local → Local → Prop}
    {targets further : InstructionId → InstructionId → Prop} {first second : Instruction}
    (alike : Alike program copy slots targets first second)
    (stay : ∀ slot ∈ first.locals, ∀ place, slots slot place → wider slot place)
    (lead : ∀ goal, first.target? = some goal → ∀ place, targets goal place → further goal place) :
    Alike program copy wider further first second := by
  have each : ∀ {list others}, (∀ slot ∈ list, slot ∈ first.locals) → List.Forall₂ slots list others →
      List.Forall₂ wider list others := by
    intro list others inside related
    apply ((List.forall₂_and_left _ _).mpr ⟨inside, related⟩).imp
    exact fun slot place entry => stay slot entry.1 place entry.2
  have any : ∀ {value other}, (∀ slot, value = some slot → slot ∈ first.locals) →
      Option.Rel slots value other → Option.Rel wider value other := by
    intro value other inside related
    exact rel_imp (rel_and_left related inside) fun slot place entry => stay slot entry.1 place entry.2
  cases alike with
  | @invoke call other kind method owner arguments result =>
    refine .invoke kind method owner (each ?_ arguments) (any ?_ result)
    · exact fun slot member => List.mem_append_right _ member
    · exact fun slot here => List.mem_append_left _ (Option.mem_toList.mpr here)
  | @access use other kind field value object =>
    obtain ⟨form, id, slot, holder⟩ := use
    refine .access kind field (stay _ ?_ _ value) (any ?_ object)
    · cases form <;> exact List.mem_cons_self
    · rintro slot rfl
      cases form <;> exact List.mem_cons_of_mem _ List.mem_cons_self
  | const placed same => exact .const (stay _ (by simp [Instruction.locals, Instruction.writes]) _ placed) same
  | ret read => exact .ret (any (by rintro slot rfl; exact List.mem_cons_self) read)
  | @branch test _ _ _ tests found =>
    refine .branch ?_ (lead _ rfl _ found)
    cases tests with
    | none => exact .none
    | some same =>
      refine .some ⟨same.comparison, stay _ List.mem_cons_self _ same.left, any ?_ same.right⟩
      exact fun slot here => List.mem_cons_of_mem _ (Option.mem_toList.mpr here)
  | binary placed left right =>
    refine .binary (stay _ ?_ _ placed) (stay _ ?_ _ left) (stay _ ?_ _ right) <;>
      simp [Instruction.locals, Instruction.writes, Instruction.reads]
  | move placed read =>
    refine .move (stay _ ?_ _ placed) (stay _ ?_ _ read) <;>
      simp [Instruction.locals, Instruction.writes, Instruction.reads]
  | arrayLength placed read =>
    refine .arrayLength (stay _ ?_ _ placed) (stay _ ?_ _ read) <;>
      simp [Instruction.locals, Instruction.writes, Instruction.reads]
  | newArray placed read same =>
    refine .newArray (stay _ ?_ _ placed) (stay _ ?_ _ read) same <;>
      simp [Instruction.locals, Instruction.writes, Instruction.reads]
  | checkCast placed read same =>
    refine .checkCast (stay _ ?_ _ placed) (stay _ ?_ _ read) same <;>
      simp [Instruction.locals, Instruction.writes, Instruction.reads]
  | instanceOf placed read same =>
    refine .instanceOf (stay _ ?_ _ placed) (stay _ ?_ _ read) same <;>
      simp [Instruction.locals, Instruction.writes, Instruction.reads]
  | throwValue read => exact .throwValue (stay _ List.mem_cons_self _ read)

namespace Program

/-- Two bodies that are equal instruction for instruction, under names for their locals and handles that
correspond one to one. The locals keep their kinds. -/
def BodyRenamed (program copy : Program) (body other : Body) : Prop :=
  ∃ slots targets, Relator.BiUnique slots ∧ Relator.BiUnique targets ∧
    (∀ slot place, slots slot place → place.kind = slot.kind) ∧
    Mirrored program copy slots targets body other

/-- Two programs that are the same up to names. Their types come in the same order, with equal headers
and members, and the bodies of corresponding methods are equal up to the names of handles and locals.
What code refers to has the same markers, and the owners of its methods are interfaces alike. A symbol
corresponds to the one with the same key, of which a program has one at most. -/
structure Renamed (program copy : Program) : Prop where
  echoes : program.Echoes copy (program.BodyRenamed copy) program.defined.toList copy.defined.toList
  concurs : program.Concurs copy

/-- The locals that are used in two such bodies, and the parameters, are paired in the order of use. -/
theorem BodyRenamed.bodyLike {program copy : Program} {method twin : MethodId} {body other : Body}
    (renamed : program.BodyRenamed copy body other) (bodies : program.BodiesSound) (twins : copy.BodiesSound)
    (targets : program.TargetsSound) (here : program.body? method = some body)
    (there : copy.body? twin = some other) :
    BodyLike program copy body other (copy.usedLocals other) := by
  obtain ⟨slots, leads, unique, single, kept, mirrored⟩ := renamed
  have used := mirrored.usedLocals unique
  have kinds : ∀ slot place, slots slot place → Local.kind place = Local.kind slot := kept
  refine ⟨map_eq_of_forall₂ used kinds, map_eq_of_forall₂ mirrored.parameters kinds,
    nodup_usedLocals copy (twins.parameters there), ?_⟩
  have whole := List.rel_append used mirrored.parameters
  refine ((List.forall₂_and_left _ _).mpr ⟨fun _ => id, mirrored.code⟩).imp ?_
  rintro id place ⟨listed, instruction, built, attached, again, alike⟩
  refine ⟨instruction, built, attached, again, alike.imp ?_ ?_⟩
  · intro slot uses place stands
    have member := List.mem_filterMap.mpr ⟨id, listed, attached⟩
    exact paired_of_forall₂ unique.2 whole (mem_usedLocals member uses) stands
  · intro goal aims place stands
    obtain ⟨held, found, rfl⟩ := slot_of_instruction? attached
    have own : program.holder? id = some method := (bodies.attached here id).mp (Array.mem_toList_iff.mp listed)
    have inside := targets id held goal found aims
    rw [holder?, found, Option.map_some] at own
    rw [Option.some.inj own] at inside
    have member := (bodies.attached here goal).mpr inside
    exact paired_of_forall₂ single.2 mirrored.handles (Array.mem_toList_iff.mpr member) stands

end Program

deriving instance DecidableEq for Header, Definition, Body

namespace Session

/-- Encoding forgets history. Whatever operations led to two programs that are the same up to names,
they are encoded to the same bytes, or are refused with the same fault. -/
theorem Reachable.encode_renamed {first second : Session} (reached : first.Reachable)
    (reached' : second.Reachable) (renamed : first.program.Renamed second.program) (limits : Limits) :
    second.program.encode limits = first.program.encode limits := by
  have bodies := reached.steps.bodiesSound
  have twins := reached'.steps.bodiesSound
  rw [Program.encode, Program.encode, renamed.echoes.toImage_eq reached.steps reached'.steps renamed.concurs
    limits fun here there same => ⟨_, same.bodyLike bodies twins reached.targets here there⟩]

/-- The program of `recursive` after a longer history: there is a type that nothing mentions, and the
method has a local of an instruction that was taken away again. -/
def revised : Session :=
  [.type (.object "Unused"), .define (.object "A") { access := 1 },
    .declareMethod ⟨1⟩ "f" ⟨[], .void⟩ 8, .createBody ⟨0⟩, .freshLocal .int,
    .make (.const ⟨0, .int⟩ (.int 7)), .append ⟨0⟩ (.const ⟨0, .int⟩ (.int 7)), .make (.ret none),
    .append ⟨0⟩ (.ret none), .remove ⟨0⟩, .call ⟨.normal, some ⟨0⟩, [], none⟩,
    .insertBefore ⟨1⟩ (.invoke ⟨.normal, ⟨0⟩, ⟨1⟩, [], none⟩)].foldl perform {}

theorem revised_reachable : revised.Reachable := by
  rw [revised]
  simp only [List.foldl_cons, List.foldl_nil]
  refine .next (.next (.next (.next (.next (.next (.next (.next (.next (.next (.next (.next .start
    trivial) ?_) ?_) ?_) trivial) ?_) ?_) ?_) ?_) trivial) ?_) ?_
  · exact ⟨by simp, by simp⟩
  · change Option.isSome _ = true
    decide +kernel
  · change Option.isSome _ = true
    decide +kernel
  · refine ⟨by simp, by simp, by trivial, ?_⟩
    intro slot uses
    refine .inl ?_
    revert slot
    decide +kernel
  · exact ⟨by decide +kernel, by decide +kernel⟩
  · exact ⟨by simp, by simp, trivial, by simp [Instruction.locals, Instruction.writes, Instruction.reads]⟩
  · exact ⟨by decide +kernel, by decide +kernel⟩
  · refine ⟨?_, by simp⟩
    rintro _ ⟨⟩
    decide +kernel
  · change _ ∈ _
    decide +kernel

/-- The class and its method are the same. -/
theorem same_revised : recursive.program.Same revised.program (.type ⟨0⟩) (.type ⟨1⟩) ∧
    recursive.program.Same revised.program (.method ⟨0⟩) (.method ⟨0⟩) := by
  refine ⟨⟨.type (.object "A"), ?_, ?_⟩, .method (.object "A") "f" ⟨[], .void⟩, ?_, ?_⟩ <;>
    decide +kernel

/-- The instructions of the two bodies correspond, though their handles were given in another order. -/
theorem bodyRenamed_revised {body other : Body} (here : recursive.program.body? ⟨0⟩ = some body)
    (there : revised.program.body? ⟨0⟩ = some other) :
    recursive.program.BodyRenamed revised.program body other := by
  have listed : recursive.program.body? ⟨0⟩ = some ⟨[], #[], #[⟨0⟩, ⟨1⟩]⟩ := by decide +kernel
  have listed' : revised.program.body? ⟨0⟩ = some ⟨[], #[⟨0, .int⟩], #[⟨2⟩, ⟨1⟩]⟩ := by decide +kernel
  cases here.symm.trans listed
  cases there.symm.trans listed'
  obtain ⟨sameClass, sameMethod⟩ := same_revised
  have call : Alike recursive.program revised.program (fun _ _ => False) (Paired [⟨0⟩, ⟨1⟩] [⟨2⟩, ⟨1⟩])
      (.invoke ⟨.normal, ⟨0⟩, ⟨0⟩, [], none⟩) (.invoke ⟨.normal, ⟨0⟩, ⟨1⟩, [], none⟩) :=
    .invoke rfl sameMethod sameClass .nil .none
  refine ⟨fun _ _ => False, Paired [⟨0⟩, ⟨1⟩] [⟨2⟩, ⟨1⟩], ⟨by simp [Relator.LeftUnique],
    by simp [Relator.RightUnique]⟩, biUnique_paired (by decide) (by decide), by simp, .nil,
    forall₂_paired rfl, ?_⟩
  refine .cons ⟨_, _, ?_, ?_, call⟩ (.cons ⟨_, _, ?_, ?_, .ret .none⟩ .nil) <;> decide +kernel

theorem concurs_revised : recursive.program.Concurs revised.program := by
  have keys := (Reachable.steps revised_reachable).keysSound
  obtain ⟨-, sameMethod⟩ := same_revised
  -- The code refers to nothing but the method.
  have known : ∀ symbol, recursive.program.RefersTo symbol → symbol = .method ⟨0⟩ := by
    rintro symbol ⟨⟨index⟩, instruction, kind, attached, member⟩
    obtain ⟨slot, found, -⟩ := slot_of_instruction? attached
    have bound := slot?_lt found
    have size : recursive.program.code.size = 2 := by decide +kernel
    have call : recursive.program.instruction? ⟨0⟩ = some (.invoke ⟨.normal, ⟨0⟩, ⟨0⟩, [], none⟩) := by
      decide +kernel
    have last : recursive.program.instruction? ⟨1⟩ = some (.ret none) := by decide +kernel
    rw [size] at bound
    interval_cases index
    · cases call.symm.trans attached
      exact congrArg Prod.fst (List.mem_singleton.mp member)
    · cases last.symm.trans attached
      cases member
  constructor
  · intro symbol other refers same
    cases known symbol refers
    cases Same.copy_eq keys same sameMethod
    decide +kernel
  · intro method other refers same
    cases known (.method method) refers
    cases Same.copy_eq keys same sameMethod
    decide +kernel

theorem renamed_revised : recursive.program.Renamed revised.program := by
  have keys := (Reachable.steps revised_reachable).keysSound
  obtain ⟨sameClass, sameMethod⟩ := same_revised
  have classes : recursive.program.defined.toList = [⟨0⟩] := by decide +kernel
  have classes' : revised.program.defined.toList = [⟨1⟩] := by decide +kernel
  have here : recursive.program.definition? ⟨0⟩ = some ⟨{ access := 1 }, #[⟨0⟩], #[]⟩ := by decide +kernel
  have there : revised.program.definition? ⟨1⟩ = some ⟨{ access := 1 }, #[⟨0⟩], #[]⟩ := by decide +kernel
  have declared : recursive.program.MethodDeclared revised.program ⟨0⟩ ⟨0⟩ :=
    ⟨sameMethod, ⟨0⟩, ⟨1⟩, 8, by decide +kernel, by decide +kernel⟩
  refine ⟨⟨?_, ?_⟩, concurs_revised⟩
  · rw [classes, classes']
    refine .cons ⟨sameClass, _, here, _, there, ⟨rfl, .none, .nil, rfl⟩, .nil, ?_⟩ .nil
    exact .cons declared .nil
  · intro method other twins member
    have methods : recursive.program.methodsOf ⟨0⟩ = [⟨0⟩] := by rw [methodsOf, here]
    rw [classes, List.flatMap_singleton, methods, List.mem_singleton] at member
    subst member
    cases Same.copy_eq keys twins.same sameMethod
    have coded : (recursive.program.body? ⟨0⟩).isSome := by decide +kernel
    have coded' : (revised.program.body? ⟨0⟩).isSome := by decide +kernel
    obtain ⟨body, found⟩ := Option.isSome_iff_exists.mp coded
    obtain ⟨copied, found'⟩ := Option.isSome_iff_exists.mp coded'
    rw [found, found']
    exact .some (bodyRenamed_revised found found')

/-- The two histories end in the same bytes. -/
theorem encode_renamed_revised :
    recursive.program.Renamed revised.program ∧
      revised.program.encode {} = recursive.program.encode {} ∧
      (recursive.program.encode {}).toOption.isSome :=
  ⟨renamed_revised, recursive_reachable.encode_renamed revised_reachable renamed_revised {},
    by decide +kernel⟩

end Session

end ClassImage
