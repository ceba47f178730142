import ClassImage.Proofs.Copy.Bodies
import ClassImage.Proofs.Merge.Units

/-!
Loading a body twice. Both runs open the body, give every register its local and
attach one instruction for each unit, in step: the locals of the two bodies were
issued at the same distance from the starts of the bodies, and their handles at
the same distance from the starts of the runs.
-/

namespace ClassImage

namespace Program

theorem forall₂_newLocals (program other : Program) (kinds : List ValueKind) :
    List.Forall₂ (LevelLocal program.owners.size other.owners.size) (program.newLocals kinds)
      (other.newLocals kinds) := by
  unfold newLocals
  rw [List.forall₂_map_left_iff, List.forall₂_map_right_iff]
  exact List.forall₂_same.mpr fun entry _ => ⟨rfl, entry.2, rfl, rfl⟩

/-- Two bodies of alike instructions: the locals were issued at the same distance from two starts,
and so were the handles. -/
def BodyTwins (final source copy : Program) (first second : Nat) (body other : Body) : Prop :=
  ∃ a b, List.Forall₂ (LevelLocal a b) body.parameters other.parameters ∧
    List.Forall₂ (fun id place => LevelHandle first second id place ∧ ∃ instruction built,
      source.instruction? id = some instruction ∧ copy.instruction? place = some built ∧
      Alike final copy (LevelLocal a b) (LevelHandle first second) instruction built)
      body.instructions.toList other.instructions.toList

theorem BodyTwins.kept {final source copy later after : Program} {first second : Nat} {body other : Body}
    (twins : BodyTwins final source copy first second body other)
    (slots : ∀ {id slot}, source.slot? id = some slot → later.slot? id = some slot)
    (places : ∀ {id slot}, copy.slot? id = some slot → after.slot? id = some slot) (more : copy.Extends after) :
    BodyTwins final later after first second body other := by
  obtain ⟨a, b, parameters, code⟩ := twins
  refine ⟨a, b, parameters, code.imp ?_⟩
  rintro id place ⟨level, instruction, built, here, there, alike⟩
  obtain ⟨slot, held, rfl⟩ := slot_of_instruction? here
  obtain ⟨slot', held', rfl⟩ := slot_of_instruction? there
  refine ⟨level, slot.instruction, slot'.instruction, ?_, ?_, alike.extends more⟩
  · rw [instruction?, slots held, Option.map_some]
  · rw [instruction?, places held', Option.map_some]

/-- The body of a method is being made in both runs, from two starts. -/
structure Making (final start begun : Program) (method other : MethodId) (source copy : Program) :
    Prop where
  confined : Confined method start source
  fills : final.Fills other begun copy
  level : Level start.owners.size begun.owners.size source.owners.size copy.owners.size
  free : ∀ slot, begun.owners.size ≤ slot.id → copy.owner? slot = none ∨ copy.owner? slot = some other

theorem Making.grows {final start begun source copy later after : Program} {method other : MethodId}
    (making : Making final start begun method other source copy) (grows : final.Grows source copy later after) :
    Making final start begun method other later after where
  confined := making.confined.trans (grows.grown.confined method)
  fills := making.fills.trans (.of_moved
    (Relation.ReflTransGen.mono (fun _ _ gains => gains.fills other) _ _ grows.gained))
  level := making.level.trans grows.issued
  free := by
    rw [(Gains.growths grows.gained).owner?]
    exact making.free

/-- Some instructions of the body are attached in both runs. -/
structure MakingCode (final start begun : Program) (method other : MethodId) (parameters places : List Local)
    (targets : InstructionId → InstructionId → Prop) (first second : InstructionId) (count : Nat)
    (done builts : List Instruction) (source copy : Program) : Prop
    extends Making final start begun method other source copy where
  code : Attached method parameters first count done source
  copied : Attached other places second count builts copy
  alike : List.Forall₂
    (Alike final copy (LevelLocal start.owners.size begun.owners.size) targets) done builts

section MakingCode

variable {final start begun source copy : Program} {method other : MethodId}
  {parameters places : List Local} {targets : InstructionId → InstructionId → Prop}
  {first second : InstructionId} {count : Nat} {done builts : List Instruction}

theorem MakingCode.grows {later after : Program}
    (making : MakingCode final start begun method other parameters places targets first second count done
      builts source copy) (grows : final.Grows source copy later after) :
    MakingCode final start begun method other parameters places targets first second count done builts
      later after where
  toMaking := making.toMaking.grows grows
  code := making.code.growths grows.grown
  copied := making.copied.growths (Gains.growths grows.gained)
  alike := making.alike.imp fun _ _ alike => alike.extends grows.more

theorem MakingCode.attach {instruction built : Instruction}
    (making : MakingCode final start begun method other parameters places targets first second count done
      builts source copy) (room : done.length < count)
    (alike : Alike final copy (LevelLocal start.owners.size begun.owners.size) targets instruction built)
    (fills : final.Fills other copy
      (copy.attach other builts.length ⟨second.index + builts.length⟩ built)) :
    MakingCode final start begun method other parameters places targets first second count
      (done ++ [instruction]) (builts ++ [built])
      (source.attach method done.length ⟨first.index + done.length⟩ instruction)
      (copy.attach other builts.length ⟨second.index + builts.length⟩ built) where
  confined := making.confined.trans (confined_attach (making.code.issued room) making.code.latest _)
  fills := making.fills.trans fills
  level := by
    rw [size_owners_attach, size_owners_attach]
    exact making.level
  free slot new := free_attach (making.free slot new) _ _ _
  code := making.code.attach room instruction
  copied := making.copied.attach (making.alike.length_eq ▸ room) built
  alike := List.rel_append (making.alike.imp fun _ _ alike => alike.extends fills.more)
    (.cons (alike.extends fills.more) .nil)

/-- When all are attached, the two bodies are alike. -/
theorem MakingCode.twins {c d : Nat} (level : Level c d first.index second.index)
    (operands : List.Forall₂ (LevelLocal start.owners.size begun.owners.size) parameters places)
    (making : MakingCode final start begun method other parameters places (LevelHandle c d) first second
      count done builts source copy) :
    ∃ body another, source.body? method = some body ∧ copy.body? other = some another ∧
      BodyTwins final source copy c d body another := by
  obtain ⟨locals, here⟩ := making.code.body
  obtain ⟨locals', there⟩ := making.copied.body
  refine ⟨_, _, here, there, _, _, operands, ?_⟩
  have handles : List.Forall₂ (LevelHandle c d) (handlesFrom first done.length)
      (handlesFrom second builts.length) := by
    rw [← making.alike.length_eq]
    unfold handlesFrom
    rw [List.forall₂_map_left_iff, List.forall₂_map_right_iff]
    exact List.forall₂_same.mpr fun place _ => level.trans ⟨place, rfl, rfl⟩
  have code := forall₂_comp making.code.slots.flip (forall₂_comp making.alike making.copied.slots)
  refine List.Forall₂.mp ?_ handles code
  rintro id place level ⟨instruction, held, built, alike, held'⟩
  refine ⟨level, instruction, built, ?_, ?_, alike⟩
  · exact instruction?_of_slot? held
  · rw [instruction?, held', Option.map_some]

end MakingCode

end Program

namespace Edit

open Program

/-- What has happened when a body is opened. -/
theorem createBody_ran {program later : Program} {method : MethodId} {parameters : List Local}
    (ran : outcome (Edit.createBody method) program = (.ok parameters, later)) :
    ∃ access, (program.methodAt method).declaration = some access ∧
      ¬Access.isSet access (Access.abstract ||| Access.native) ∧ program.body? method = none ∧
      parameters = program.newLocals (entryKinds access (program.methodAt method).signature) ∧
      later = program.addBody method parameters := by
  unfold Edit.createBody at ran
  rw [ClassImage.get_bind] at ran
  cases declared : (program.methodAt method).declaration with
  | none =>
    simp only [declared] at ran
    cases ran
  | some access =>
    simp only [declared] at ran
    obtain ⟨coded, ran⟩ := refuse_bind_ok.mp ran
    obtain ⟨fresh, ran⟩ := refuse_bind_ok.mp ran
    cases ran
    exact ⟨access, rfl, coded, Option.not_isSome_iff_eq_none.mp fresh, rfl, rfl⟩

end Edit

namespace Loading.Context

open Program Edit

variable {final source copy : Program} {method other : MethodId}

/-- What holds of two bodies that have been opened. -/
structure Opened (final source copy : Program) (method other : MethodId) (parameters places : List Local)
    (later after : Program) : Prop where
  making : Making final source copy method other later after
  operands : List.Forall₂ (LevelLocal source.owners.size copy.owners.size) parameters places
  body : later.body? method = some ⟨parameters, parameters.toArray, #[]⟩
  copied : after.body? other = some ⟨places, places.toArray, #[]⟩
  code : later.code = source.code
  copiedCode : after.code = copy.code

theorem repeats_createBody (declared : final.MethodDeclared copy method other)
    (fresh : source.body? method = none → copy.body? other = none) :
    Repeats final (Edit.createBody method) (Edit.createBody other) source copy fun parameters places later after =>
      Opened final source copy method other parameters places later after := by
  refine .given_lasts (lasting_createBody method) fun earlier => ?_
  intro indexed parameters later ran _
  obtain ⟨access, declaration, coded, empty, rfl, rfl⟩ := createBody_ran ran
  obtain ⟨owner, holder, access', original, there⟩ := declared.access
  have listed := declaredMethod?_eq_some.mpr ⟨declaration, rfl⟩
  cases (earlier.methods listed).symm.trans original
  obtain ⟨declaration', -⟩ := declaredMethod?_eq_some.mp there
  obtain ⟨_, _, name, signature, named, found, -⟩ := same_method.mp declared.same
  obtain ⟨key, known⟩ := Option.isSome_iff_exists.mp (knowsMethod_of_declared listed)
  cases (earlier.more.methods known).symm.trans named
  have signed := (methodKey?_methodAt known).2.2
  have signed' := (methodKey?_methodAt found).2.2
  have view := body?_addBody source (known_of_declaration declaration)
  have view' := body?_addBody copy (known_of_declaration declaration')
  rw [signed]
  have again := outcome_createBody declaration' coded (fresh empty)
  have fills : final.Fills other copy _ := fills_addBody declaration' coded (fresh empty)
  rw [signed'] at again fills
  have operands := forall₂_newLocals source copy (entryKinds access signature)
  have keys := sameKeys_addBody source method (source.newLocals (entryKinds access signature))
  refine ⟨indexed.of_sameKeys keys, _, _, again, ⟨confined_addBody (known_of_declaration declaration) _, fills, ?_, ?_⟩, operands,
    (view _ method).trans (if_pos rfl), (view' _ other).trans (if_pos rfl), rfl, rfl⟩
  · rw [size_addBody, size_addBody, operands.length_eq]
    exact ⟨_, rfl, rfl⟩
  · intro slot new
    rw [owner?_addBody]
    split
    · exact .inr rfl
    · exact .inl (owner?_of_new new)

theorem rel_placeParameters {slots : Local → Local → Prop}
    (kinds : ∀ {slot place}, slots slot place → place.kind = slot.kind) {parameters places : List Local}
    (all : List.Forall₂ slots parameters places) (tags : List UInt8) :
    Option.Rel (fun placed others => List.Forall₂ (Option.Rel slots) placed.1 others.1 ∧ others.2 = placed.2)
      (placeParameters parameters tags) (placeParameters places tags) := by
  induction all generalizing tags with
  | nil => exact .some ⟨.nil, rfl⟩
  | @cons parameter place parameters places stands _ ih =>
    cases tags with
    | nil => exact .none
    | cons tag tags =>
      unfold placeParameters
      rw [kinds stands]
      split
      · exact .none
      · split
        · cases tags with
          | nil => exact .none
          | cons high tags =>
            apply rel_map (ih tags)
            exact fun _ _ met => ⟨.cons (.some stands) (.cons .none met.1), met.2⟩
        · apply rel_map (ih tags)
          exact fun _ _ met => ⟨.cons (.some stands) met.1, met.2⟩

/-- The low registers get locals in step. -/
theorem repeats_lowRegisters {a b : Nat} (level : Level a b source.owners.size copy.owners.size)
    (tags : List UInt8) :
    Repeats final (tags.mapM fun tag => (ValueKind.ofTag? tag).mapM Edit.freshLocal)
      (tags.mapM fun tag => (ValueKind.ofTag? tag).mapM Edit.freshLocal) source copy
      fun placed others later after => final.Grows source copy later after ∧
        List.Forall₂ (Option.Rel (LevelLocal a b)) placed others := by
  refine Repeats.mapM (fun _ placed others later after => final.Grows source copy later after ∧
    List.Forall₂ (Option.Rel (LevelLocal a b)) placed others)
    (fun _ => .optional lasting_freshLocal) ⟨.refl _ _ _, .nil⟩ ?_
  rintro _ tag _ placed others later after - ⟨grows, all⟩
  apply Repeats.optional
  · exact fun _ => ⟨grows, List.rel_append all (.cons .none .nil)⟩
  intro kind _
  apply (repeats_freshLocal (level.trans grows.issued) kind).imp
  rintro slot place last again ⟨onward, stands⟩
  exact ⟨grows.trans onward, List.rel_append all (.cons (.some stands) .nil)⟩

/-- Both runs give every register its local. -/
theorem repeats_assignRegisters (declared : final.MethodDeclared copy method other)
    (fresh : source.body? method = none → copy.body? other = none) (code : CodeItem) :
    Repeats final (assignRegisters method code) (assignRegisters other code) source copy
      fun registers others later after => ∃ parameters places,
        Opened final source copy method other parameters places later after ∧
          List.Forall₂ (Option.Rel (LevelLocal source.owners.size copy.owners.size)) registers.toList
            others.toList := by
  unfold assignRegisters
  apply (repeats_createBody declared fresh).adapt.bind
  · intro parameters
    refine .get_bind fun program => ?_
    dsimp only
    split
    · exact .throw
    · exact Lasting.refuse.bind fun _ => (lasting_lowRegisters _).bind fun _ => .pure
  intro parameters places later after opened
  refine .get_bind ?_
  dsimp only
  have related := rel_placeParameters (fun stands => stands.1) opened.operands
    (code.kinds.drop (code.registers.toNat - code.parameterRegisters.toNat))
  generalize placeParameters parameters _ = left at related ⊢
  generalize placeParameters places _ = right at related ⊢
  cases related with
  | none => exact .throw
  | @some placed placed' met =>
    obtain ⟨placed, rest⟩ := placed
    obtain ⟨placed', _⟩ := placed'
    obtain ⟨all, same⟩ := met
    cases same
    refine .refuse_bind id fun _ => ?_
    apply (repeats_lowRegisters opened.making.level _).bind
    · exact fun _ => .pure
    rintro low low' last again ⟨grows, others⟩
    refine .pure ⟨parameters, places, ?_, List.rel_append others all⟩
    refine ⟨opened.making.grows grows, opened.operands, ?_, ?_, ?_, ?_⟩
    · rw [grows.grown.body?, opened.body]
    · rw [(Gains.growths grows.gained).body?, opened.copied]
    · rw [grows.grown.code, opened.code]
    · rw [(Gains.growths grows.gained).code, opened.copiedCode]

section Units

variable {image : Image} {first second start begun : Program} {frame twin : Frame}
  {targets : InstructionId → InstructionId → Prop} {parameters places : List Local} {count : Nat}
  {done builts : List Instruction}

/-- Both runs attach the instruction of the next unit. -/
theorem repeats_loadUnit (sound : final.KeysSound) (follows : final.Follows copy)
    (agrees : frame.Agrees twin (LevelLocal start.owners.size begun.owners.size) targets)
    (making : MakingCode final start begun method other parameters places targets frame.firstUnit
      twin.firstUnit count done builts source copy)
    (room : done.length < count) (entry : Nat × CodeUnit) :
    Repeats final ((Context.mk image first).loadUnit frame method (entry, done.length))
      ((Context.mk image second).loadUnit twin other (entry, done.length)) source copy fun _ _ later after =>
        ∃ instruction built, MakingCode final start begun method other parameters places targets
          frame.firstUnit twin.firstUnit count (done ++ [instruction]) (builts ++ [built]) later after := by
  apply (repeats_buildUnit sound follows making.level agrees entry.2).bind
  · exact fun _ => lasting_appendReserved _ _ _
  intro instruction built later after builds
  have making := making.grows builds.grows
  have reached := builds.grows.follows follows
  intro indexed _ last ran _
  have attaching : Reaches (fun _ _ => True) (Edit.appendReserved method
      ⟨frame.firstUnit.index + done.length⟩ instruction) later _ :=
    reaches_appendReserved fun _ _ _ => trivial
  obtain ⟨-, body, here, -, rfl⟩ := attaching.ran indexed ran
  obtain ⟨locals, opened⟩ := making.code.body
  obtain ⟨locals', there⟩ := making.copied.body
  cases here.symm.trans opened
  have length := making.alike.length_eq
  have room' : builts.length < count := length ▸ room
  have issued := making.copied.issued room'
  have accepted := builds.alike.admits reached.keysSound (fun stands => stands.1) builds.admitted
  have shaped := builds.alike.fits reached builds.fits
  have free : ∀ slot ∈ built.locals, after.owner? slot = none ∨ after.owner? slot = some other := by
    intro slot member
    obtain ⟨original, -, -, distance, -, place⟩ := forall₂_exists_left builds.alike.locals member
    exact making.free slot (by omega)
  have again : Meets (final.Fills other) (Edit.appendReserved other
      ⟨twin.firstUnit.index + builts.length⟩ built) after _ :=
    meets_appendReserved there issued making.copied.latest accepted shaped free
  obtain ⟨_, after', ran', moved, rfl⟩ := again
  have fills := Fills.of_moved moved
  simp only [size_handlesFrom] at fills ran' ⊢
  refine ⟨indexed.of_sameKeys (sameKeys_attach _ _ _ _ _), (), _, ?_, instruction, built, making.attach room builds.alike fills⟩
  rw [length]
  exact ran'

/-- Both runs attach the instructions of all units. -/
theorem repeats_units (sound : final.KeysSound) (follows : final.Follows begun)
    (agrees : frame.Agrees twin (LevelLocal start.owners.size begun.owners.size) targets)
    (making : MakingCode final start begun method other parameters places targets frame.firstUnit
      twin.firstUnit frame.units.length [] [] source copy) :
    Repeats final (frame.units.zipIdx.forM ((Context.mk image first).loadUnit frame method))
      (frame.units.zipIdx.forM ((Context.mk image second).loadUnit twin other)) source copy
      fun _ _ later after => ∃ done builts,
        MakingCode final start begun method other parameters places targets frame.firstUnit
          twin.firstUnit frame.units.length done builts later after := by
  refine (Repeats.forM (fun entries later after => ∃ done builts, done.length = entries.length ∧
      MakingCode final start begun method other parameters places targets frame.firstUnit
        twin.firstUnit frame.units.length done builts later after)
    (List.forall₂_refl frame.units.zipIdx : List.Forall₂ Eq _ _)
    (lasting_loadUnit _ frame method) ⟨[], [], rfl, making⟩ ?_).imp
    fun _ _ _ _ ⟨done, builts, _, made⟩ => ⟨done, builts, made⟩
  rintro entries ⟨entry, index⟩ rest _ later after whole rfl ⟨done, builts, length, making⟩
  obtain ⟨place, -⟩ := place_of_zipIdx whole
  have room : done.length < frame.units.length := by
    have size := congrArg List.length whole
    simp at size
    omega
  obtain rfl : index = done.length := place.trans length.symm
  apply (repeats_loadUnit sound (making.fills.follows follows) agrees making room entry).imp
  rintro _ _ last again ⟨instruction, built, made⟩
  refine ⟨done ++ [instruction], builts ++ [built], ?_, made⟩
  rw [List.length_append, List.length_append, length]
  rfl

/-- What a body that was loaded in both runs has changed. -/
structure LoadedTwice (final : Program) (c d : Nat) (method other : MethodId)
    (source copy later after : Program) : Prop where
  confined : Confined method source later
  fills : final.Fills other copy after
  level : Level c d later.code.size after.code.size
  twins : ∃ body another, later.body? method = some body ∧ after.body? other = some another ∧
    BodyTwins final later after c d body another

theorem repeats_loadBody (sound : final.KeysSound) (follows : final.Follows copy)
    (declared : final.MethodDeclared copy method other)
    (fresh : source.body? method = none → copy.body? other = none) {c d : Nat}
    (level : Level c d source.code.size copy.code.size) (code : CodeItem) :
    Repeats final ((Context.mk image first).loadBody method code)
      ((Context.mk image second).loadBody other code) source copy fun _ _ later after =>
        LoadedTwice final c d method other source copy later after := by
  unfold loadBody
  apply (repeats_assignRegisters declared fresh code).bind
  · exact fun _ => (lasting_reserve _).bind fun _ => Lasting.forM (lasting_loadUnit _ _ method)
  rintro registers others later after ⟨parameters, places, opened, placed⟩
  generalize CodeUnit.split 0 code.instructions.toList = units
  have reserved : Repeats final (Edit.reserve units.length) (Edit.reserve units.length) later after
      fun first second last again => first = ⟨later.code.size⟩ ∧ second = ⟨after.code.size⟩ ∧
        last = later.addHandles units.length ∧ again = after.addHandles units.length := by
    intro indexed first last ran _
    cases ran
    exact ⟨indexed.of_sameKeys (sameKeys_addHandles _ _), _, _, rfl, rfl, rfl, rfl, rfl⟩
  apply reserved.bind
  · exact fun _ => Lasting.forM (lasting_loadUnit _ _ method)
  rintro _ _ _ _ ⟨rfl, rfl, rfl, rfl⟩
  rw [← opened.code, ← opened.copiedCode] at level
  have agrees : Frame.Agrees ⟨registers, units, ⟨later.code.size⟩⟩ ⟨others, units, ⟨after.code.size⟩⟩
      (LevelLocal source.owners.size copy.owners.size) (LevelHandle c d) :=
    ⟨placed, rfl, fun place => level.trans ⟨place, rfl, rfl⟩⟩
  have making : MakingCode final source copy method other parameters places (LevelHandle c d)
      ⟨later.code.size⟩ ⟨after.code.size⟩ units.length [] [] (later.addHandles units.length)
      (after.addHandles units.length) := by
    refine ⟨⟨?_, ?_, opened.making.level, opened.making.free⟩, attached_nil opened.body _,
      attached_nil opened.copied _, .nil⟩
    · exact opened.making.confined.trans (confined_addHandles _ _ _)
    · exact opened.making.fills.trans (fills_addHandles _)
  apply (repeats_units sound follows agrees making).imp
  rintro _ _ last again ⟨done, builts, made⟩
  refine ⟨made.confined, made.fills, ?_, made.twins level opened.operands⟩
  rw [made.code.size, made.copied.size]
  exact level.trans ⟨_, rfl, rfl⟩

end Units

end Loading.Context

end ClassImage
