import ClassImage.Proofs.Merge.Tracks

/-!
The edits of programs as they are tracked. All of them but requests for members
look at no marker. A request tells a member whether it is static; without the
marks, it fails at a member that was known before to be otherwise, or at one
whose marker is unknown and whose uses imply the other one.
-/

namespace ClassImage

open Program Edit

namespace Edit

variable {program start : Program} {mark : Symbol → Marker} {symbol : Symbol} {static : Bool}
  {excuse : Fault → Program → Prop}

/-! ## Markers -/

theorem outcome_refine_unknown (unknown : program.marker symbol = none) :
    outcome (refine symbol (some static)) program =
      match program.checkUses symbol static with
      | .ok () => (.ok (), program.setMarker symbol static)
      | .error fault => (.error fault, program) := by
  have tested : outcome (Edit.check (·.checkUses symbol static)) program =
      (program.checkUses symbol static, program) := rfl
  unfold refine
  rw [get_bind]
  simp only [unknown]
  rw [outcome_bind, tested]
  cases program.checkUses symbol static <;> rfl

theorem outcome_refine_known {known : Bool} (marked : program.marker symbol = some known) :
    outcome (refine symbol (some static)) program =
      if known = static then (.ok (), program)
      else (.error (.conflict (.marker (program.symbolText symbol) known static)), program) := by
  unfold refine
  rw [get_bind]
  simp only [marked]
  by_cases same : known = static
  · simp only [same, ne_eq, not_true_eq_false, refuse, if_false, if_true, outcome_pure]
  · simp only [same, ne_eq, not_false_eq_true, refuse, if_false, if_true, outcome_throw]

/-- A contradiction with a marker that was known, or with attached instructions. -/
def Contested (mark : Symbol → Marker) (start : Program) (symbol : Symbol) (fault : Fault) (after : Program) :
    Prop :=
  ∃ cause, fault = .conflict cause ∧ ((start.marker symbol).isSome ∨ Misfit mark after cause)

/-- What the run with the marks has learnt when it is told about a member of unknown marker. -/
theorem refine_overlay (kept : Kept mark start program) (unknown : program.marker symbol = none) {done : Unit}
    {later : Program} (ran : outcome (refine symbol (some static)) (program.overlay mark) = (.ok done, later)) :
    Unopposed mark symbol static ∧
    (mark symbol = none → (program.overlay mark).checkUses symbol static = .ok ()) ∧
    later = program.remark
      (Function.update (markersOver mark program.marker) symbol (some static)) := by
  have marked := kept.marker_overlay symbol
  rw [unknown, Option.or_none] at marked
  cases given : mark symbol with
  | none =>
    rw [outcome_refine_unknown (marked.trans given)] at ran
    split at ran
    · rename_i passed
      cases ran
      exact ⟨by simp [Unopposed, given], fun _ => passed, setMarker_remark _ _ _ _⟩
    · cases ran
  | some known =>
    rw [outcome_refine_known (marked.trans given)] at ran
    split at ran
    · rename_i same
      cases ran
      subst same
      refine ⟨by simp [Unopposed, given], by simp, ?_⟩
      rw [Function.update_eq_self_iff.mpr]
      rw [markersOver, given, Option.some_or]
    · cases ran

/-- A check of the uses that fails without the marks fails at an instruction that does not fit. -/
theorem misfit_of_checkUses (unknown : program.marker symbol = none)
    (unopposed : Unopposed mark symbol static)
    (passed : mark symbol = none → (program.overlay mark).checkUses symbol static = .ok ()) {fault : Fault}
    (failed : program.checkUses symbol static = .error fault) :
    ∃ cause, fault = .conflict cause ∧ Misfit mark program cause := by
  obtain ⟨use, listed, instruction, attached, misfits⟩ := program.fails_checkUses symbol static fault failed
  obtain ⟨other, known, shape, assumed, rfl⟩ := program.fails_checkShape _ _ fault misfits
  refine ⟨_, rfl, .use attached shape ?_⟩
  simp only [markerAssuming] at assumed
  split at assumed
  · rename_i same
    subst same
    cases assumed
    refine .inr ⟨unknown, ?_⟩
    cases marked : mark symbol with
    | none =>
      have shape' : (program.overlay mark).memberShape? instruction = some (symbol, !static) := by
        rw [memberShape?_remark, shape]
      have fits : static = !static := checkUses_ok (passed marked) listed attached shape'
      exact absurd fits (Bool.not_eq_not.mpr rfl)
    | some other => rw [unopposed other marked]
  · exact .inl assumed

theorem tracks_refine_unknown (member : program.HasMember symbol) (unknown : program.marker symbol = none) :
    Tracks mark start (Contested mark start symbol) (refine symbol (some static)) (refine symbol (some static))
      program fun _ after => Settled mark after symbol static := by
  intro kept done later ran
  obtain ⟨unopposed, passed, rfl⟩ := refine_overlay kept unknown ran
  rw [outcome_refine_unknown unknown]
  cases checked : program.checkUses symbol static with
  | error fault =>
    obtain ⟨cause, rfl, misfit⟩ := misfit_of_checkUses unknown unopposed passed checked
    exact .inr ⟨_, program, rfl, cause, rfl, .inr misfit⟩
  | ok =>
    have told := marker_setMarker_eq program member static
    have overlaid : (program.setMarker symbol static).overlay mark = program.remark
        (Function.update (markersOver mark program.marker) symbol (some static)) := by
      rw [overlay, told, markersOver_update unopposed, remark_setMarker]
    have marked : (program.setMarker symbol static).marker symbol = some static := by
      rw [told, Function.update_self]
    have kept' := kept.told (sameKeys_setMarker _ _ _).preserves told unopposed
    exact .inl ⟨_, rfl, overlaid.symm, kept', marked, unopposed⟩

theorem tracks_refine_known {known : Bool} (marked : program.marker symbol = some known) :
    Tracks mark start (Contested mark start symbol) (refine symbol (some static)) (refine symbol (some static))
      program fun _ after => Settled mark after symbol static := by
  intro kept done later ran
  have overlaid : (program.overlay mark).marker symbol = some ((mark symbol).getD known) := by
    rw [kept.marker_overlay, marked, Option.or_some]
  rw [outcome_refine_known overlaid] at ran
  rw [outcome_refine_known marked]
  split at ran
  · rename_i same
    cases ran
    by_cases agree : known = static
    · rw [if_pos agree]
      refine .inl ⟨program, rfl, rfl, kept, agree ▸ marked, ?_⟩
      intro other given
      rw [← same, given, Option.getD_some]
    · rw [if_neg agree]
      refine .inr ⟨_, program, rfl, _, rfl, .inl ?_⟩
      -- The mark is not the marker, so the marker is the one that was known at the start.
      cases given : mark symbol with
      | none =>
        rw [given, Option.getD_none] at same
        exact absurd same agree
      | some other =>
        rw [given, Option.getD_some] at same
        rcases kept.markers given with earlier | now
        · rw [← earlier, marked]
          rfl
        · rw [marked, same] at now
          exact absurd (Option.some.inj now) agree
  · cases ran

theorem tracks_refine (member : program.HasMember symbol) :
    Tracks mark start (Contested mark start symbol) (refine symbol (some static)) (refine symbol (some static))
      program fun _ after => Settled mark after symbol static := by
  cases marked : program.marker symbol with
  | none => exact tracks_refine_unknown member marked
  | some known => exact tracks_refine_known marked

/-! ## Members -/

section Added

variable {after : Program} (fresh : ¬program.HasMember symbol) (preserves : program.Preserves after)
  (told : after.marker = Function.update program.marker symbol (some static))

include fresh preserves told

/-- A member that is added has the marker that it is added with. -/
theorem tracks_added {edit again : Edit α} {value : α}
    (ran : outcome edit (program.overlay mark) = (.ok value, after.remark
      (Function.update (markersOver mark program.marker) symbol (some static))))
    (ran' : outcome again program = (.ok value, after)) :
    Tracks mark start excuse edit again program fun result after =>
      result = value ∧ Settled mark after symbol static := by
  intro kept result later done
  cases ran.symm.trans done
  have unopposed : Unopposed mark symbol static := by simp [Unopposed, kept.unmarked fresh]
  have marked : after.marker symbol = some static := by rw [told, Function.update_self]
  refine .inl ⟨after, ran', ?_, kept.told preserves told unopposed, rfl, marked, unopposed⟩
  rw [overlay, told, markersOver_update unopposed]

end Added

/-- A contradiction that concerns a member of the program, if the member exists. -/
def Disputed (mark : Symbol → Marker) (start : Program) (member : Option Symbol) (fault : Fault) (after : Program) :
    Prop :=
  ∃ cause, fault = .conflict cause ∧
    ((∃ symbol, member = some symbol ∧ (start.marker symbol).isSome) ∨ Misfit mark after cause)

theorem Contested.disputed {fault : Fault} {after : Program} (contested : Contested mark start symbol fault after) :
    Disputed mark start (some symbol) fault after := by
  obtain ⟨cause, rfl, known | misfit⟩ := contested
  · exact ⟨cause, rfl, .inl ⟨symbol, rfl, known⟩⟩
  · exact ⟨cause, rfl, .inr misfit⟩

theorem tracks_method (owner : TypeId) (name : String) (signature : Signature) :
    Tracks mark start (Disputed mark start ((program.findMethod? owner name signature).map .method))
      (method owner name signature (some static)) (method owner name signature (some static)) program
      fun id after => Settled mark after (.method id) static := by
  refine .given_kept fun kept => .get_bind ?_
  simp only [findMethod?_remark, size_methods_remark]
  cases found : program.findMethod? owner name signature with
  | some id =>
    have key := (kept.indexed.methods _ _).mp found
    have member : program.HasMember (.method id) := Option.isSome_iff_exists.mpr ⟨_, key⟩
    refine ((tracks_refine member).excused ?_).bind fun _ after settled => .pure settled
    exact fun _ _ contested => contested.disputed
  | none =>
    have fresh : ¬program.HasMember (.method ⟨program.methods.size⟩) :=
      fun member => Nat.lt_irrefl _ (methodKey?_isSome.mp member)
    have preserves : program.Preserves (program.addMethod owner name signature (some static)) :=
      ⟨extends_addMethod _ _ _ _ _, fun indexed => indexed.addMethod found⟩
    refine (tracks_added fresh preserves
      (marker_addMethod program owner name signature (some static)) ?_ rfl).imp ?_
    · rw [← addMethod_remark]
      rfl
    · rintro _ after ⟨rfl, settled⟩
      exact settled

theorem tracks_field (owner : TypeId) (name : String) (type : Descriptor) :
    Tracks mark start (Disputed mark start ((program.findField? owner name type).map .field))
      (field owner name type (some static)) (field owner name type (some static)) program
      fun id after => Settled mark after (.field id) static := by
  refine .given_kept fun kept => .refuse_bind fun _ => .get_bind ?_
  simp only [findField?_remark, size_fields_remark]
  cases found : program.findField? owner name type with
  | some id =>
    have key := (kept.indexed.fields _ _).mp found
    have member : program.HasMember (.field id) := Option.isSome_iff_exists.mpr ⟨_, key⟩
    refine ((tracks_refine member).excused ?_).bind fun _ after settled => .pure settled
    exact fun _ _ contested => contested.disputed
  | none =>
    have fresh : ¬program.HasMember (.field ⟨program.fields.size⟩) :=
      fun member => Nat.lt_irrefl _ (fieldKey?_isSome.mp member)
    have preserves : program.Preserves (program.addField owner name type (some static)) :=
      ⟨extends_addField _ _ _ _ _, fun indexed => indexed.addField found⟩
    refine (tracks_added fresh preserves
      (marker_addField program owner name type (some static)) ?_ rfl).imp ?_
    · rw [← addField_remark]
      rfl
    · rintro _ after ⟨rfl, settled⟩
      exact settled

/-! ## Other requests -/

theorem tracks_type (descriptor : Descriptor) :
    Tracks mark start excuse (type descriptor) (type descriptor) program fun _ _ => True := by
  refine .refuse_bind fun _ => .get_bind ?_
  simp only [findType?_remark]
  cases found : program.findType? descriptor with
  | some id => exact .pure trivial
  | none =>
    exact .set_bind ⟨extends_addType program descriptor, fun indexed => indexed.addType found⟩ rfl rfl
      (.pure trivial)

theorem tracks_setInterface (type : TypeId) (interface : Bool) :
    Tracks mark start excuse (setInterface type interface) (setInterface type interface) program
      fun _ _ => True := by
  refine .get_bind ?_
  simp only [typeAt_remark]
  cases (program.typeAt type).status with
  | external known =>
    exact (Tracks.set (sameKeys_setExternal program type interface).preserves rfl rfl).imp fun _ _ _ => trivial
  | defined definition => exact Tracks.refuse.imp fun _ _ _ => trivial

theorem tracks_define (descriptor : Descriptor) (header : Header) :
    Tracks mark start excuse (define descriptor header) (define descriptor header) program
      fun _ _ => True := by
  cases descriptor with
  | object name =>
    refine (tracks_type _).bind fun id after _ => .get_bind ?_
    simp only [typeAt_remark]
    exact .refuse_bind fun _ => .set_bind (sameKeys_addDefinition after id header).preserves rfl rfl (.pure trivial)
  | _ => exact .throw

theorem tracks_requireDefined (owner : TypeId) :
    Tracks mark start excuse (requireDefined owner) (requireDefined owner) program fun _ _ => True :=
  .get_bind (Tracks.refuse.imp fun _ _ _ => trivial)

/-- The program is contradicted, or the image is blamed for an instruction that does not fit. -/
def Excused (mark : Symbol → Marker) (fault : Fault) (after : Program) : Prop :=
  (∃ cause, fault = .conflict cause) ∨
    ∃ cause, fault = .malformedImage (.conflict cause) ∧ Misfit mark after cause

theorem Excused.blameImage {fault : Fault} {after : Program} (excused : Excused mark fault after) :
    Excused mark fault.blameImage after := by
  rcases excused with ⟨cause, rfl⟩ | ⟨cause, rfl, misfit⟩
  · exact .inl ⟨cause, rfl⟩
  · exact .inr ⟨cause, rfl, misfit⟩

theorem Disputed.excused {member : Option Symbol} {fault : Fault} {after : Program}
    (disputed : Disputed mark start member fault after) : Excused mark fault after := by
  obtain ⟨cause, rfl, -⟩ := disputed
  exact .inl ⟨cause, rfl⟩

theorem tracks_declareMethod (owner : TypeId) (name : String) (signature : Signature) (access : UInt32) :
    Tracks mark start (Excused mark) (declareMethod owner name signature access)
      (declareMethod owner name signature access) program fun _ _ => True := by
  refine (tracks_requireDefined owner).bind fun _ middle _ => ?_
  refine ((tracks_method owner name signature).excused fun _ _ disputed => disputed.excused).bind ?_
  intro id after _
  refine .get_bind ?_
  simp only [methodAt_remark, methodText_remark]
  refine .refuse_bind fun _ => .set_bind ?_ (marker_listMethod _ _ _ _) (listMethod_remark _ _ _ _ _) (.pure trivial)
  exact (sameKeys_listMethod after owner id access).preserves

theorem tracks_declareField (owner : TypeId) (name : String) (type : Descriptor) (access : UInt32) :
    Tracks mark start (Excused mark) (declareField owner name type access)
      (declareField owner name type access) program fun _ _ => True := by
  refine (tracks_requireDefined owner).bind fun _ middle _ => ?_
  refine ((tracks_field owner name type).excused fun _ _ disputed => disputed.excused).bind ?_
  intro id after _
  refine .get_bind ?_
  simp only [fieldAt_remark, fieldText_remark]
  refine .refuse_bind fun _ => .set_bind ?_ (marker_listField _ _ _ _) (listField_remark _ _ _ _ _) (.pure trivial)
  exact (sameKeys_listField after owner id access).preserves

theorem tracks_createBody (method : MethodId) :
    Tracks mark start excuse (createBody method) (createBody method) program fun _ _ => True := by
  refine .get_bind ?_
  simp only [methodAt_remark, methodText_remark]
  cases (program.methodAt method).declaration with
  | none => exact .throw
  | some access =>
    simp only
    refine .refuse_bind fun _ => .refuse_bind fun _ => ?_
    refine .set_bind ?_ (marker_addBody _ _ _) (addBody_remark _ _ _ _) (.pure trivial)
    exact (sameKeys_addBody program method _).preserves

theorem tracks_freshLocal (kind : ValueKind) :
    Tracks mark start excuse (freshLocal kind) (freshLocal kind) program fun _ _ => True := by
  intro kept value later ran
  cases ran
  have preserves := (sameKeys_addLocal program).preserves
  exact .inl ⟨program.addLocal, rfl, rfl, kept.change preserves rfl, trivial⟩

theorem tracks_reserve (count : Nat) :
    Tracks mark start excuse (reserve count) (reserve count) program fun _ _ => True := by
  intro kept value later ran
  cases ran
  have preserves := (sameKeys_addHandles program count).preserves
  exact .inl ⟨program.addHandles count, rfl, rfl, kept.change preserves rfl, trivial⟩

theorem tracks_appendReserved (method : MethodId) (id : InstructionId) (instruction : Instruction) :
    Tracks mark start (Excused mark) (appendReserved method id instruction)
      (appendReserved method id instruction) program fun _ _ => True := by
  have length : (program.overlay mark).bodyLength method = program.bodyLength method := by
    simp only [bodyLength, body?_remark, methodText_remark]
  refine .check_bind length fun size => .check_bind rfl fun _ => ?_
  have shape : Tracks mark start (Excused mark) (Edit.check (·.checkShape none instruction))
      (Edit.check (·.checkShape none instruction)) program fun _ after => after = program := by
    refine .check fun _ _ => ?_
    cases checked : program.checkShape none instruction with
    | ok => exact .inl rfl
    | error fault =>
      obtain ⟨_, _, -, -, rfl⟩ := program.fails_checkShape _ _ fault checked
      exact .inr ⟨_, rfl, .inl ⟨_, rfl⟩⟩
  refine shape.bind ?_
  rintro _ there rfl
  refine (Tracks.modify ?_ (marker_attach _ _ _ _ _) (attach_remark _ _ _ _ _ _)).imp fun _ _ _ => trivial
  exact (sameKeys_attach there method size id instruction).preserves

end Edit

end ClassImage
