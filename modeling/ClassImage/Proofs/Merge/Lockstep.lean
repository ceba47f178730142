import ClassImage.Proofs.Merge.Tracking

/-!
Loading an image with and without marks that are given in advance. The two runs
keep step with each other, and the run without the marks stops at a member whose
marker contradicts the image. Whom it blames is decided by the program before
the image: the program if the marker was known there, and else the image.
-/

namespace ClassImage

open Program Edit

namespace Program

variable {start program : Program} (sound : start.KeysSound) (indexed : program.Indexed)
  (more : start.Extends program)

include sound indexed more

/-- A member whose marker was known at the start is found there under the descriptor of its owner. -/
theorem findMethod?_back {owner : TypeId} {name : String} {signature : Signature} {id : MethodId}
    (found : program.findMethod? owner name signature = some id) (known : (start.marker (.method id)).isSome) :
    ((start.findType? (program.typeAt owner).descriptor).bind fun owner =>
      start.findMethod? owner name signature) = some id := by
  obtain ⟨static, marked⟩ := Option.isSome_iff_exists.mp known
  obtain ⟨key, named⟩ := Option.isSome_iff_exists.mp (hasMember_of_marker marked)
  cases (more.methods named).symm.trans ((indexed.methods _ _).mp found)
  obtain ⟨descriptor, owned⟩ := Option.isSome_iff_exists.mp (sound.methodOwners named)
  rw [descriptor?_typeAt (more.types owned), sound.findType?_eq owned, Option.bind_some, sound.findMethod?_eq named]

theorem findField?_back {owner : TypeId} {name : String} {type : Descriptor} {id : FieldId}
    (found : program.findField? owner name type = some id) (known : (start.marker (.field id)).isSome) :
    ((start.findType? (program.typeAt owner).descriptor).bind fun owner =>
      start.findField? owner name type) = some id := by
  obtain ⟨static, marked⟩ := Option.isSome_iff_exists.mp known
  obtain ⟨key, named⟩ := Option.isSome_iff_exists.mp (hasMember_of_marker marked)
  cases (more.fields named).symm.trans ((indexed.fields _ _).mp found)
  obtain ⟨descriptor, owned⟩ := Option.isSome_iff_exists.mp (sound.fieldOwners named)
  rw [descriptor?_typeAt (more.types owned), sound.findType?_eq owned, Option.bind_some, sound.findField?_eq named]

end Program

namespace Loading

theorem tracks_require {mark : Symbol → Marker} {start program : Program} {excuse : Fault → Program → Prop}
    {table : PoolTable} {index : UInt32} {entry : Option α} :
    Tracks mark start excuse (require table index entry) (require table index entry) program fun _ _ => True := by
  cases entry with
  | none => exact .throw
  | some value => exact .pure trivial

namespace Context

/-- The context of the run with the marks. -/
def overlay (context : Context) (mark : Symbol → Marker) : Context :=
  ⟨context.image, context.before.overlay mark⟩

variable {context : Context} {mark : Symbol → Marker} {program : Program} {excuse : Fault → Program → Prop}

/-! ## Looking up the pool -/

theorem tracks_text (index : UInt32) :
    Tracks mark context.before excuse ((context.overlay mark).text index) (context.text index) program
      fun _ _ => True :=
  tracks_require

theorem tracks_descriptor (index : UInt32) :
    Tracks mark context.before excuse ((context.overlay mark).descriptor index) (context.descriptor index) program
      fun _ _ => True := by
  refine tracks_require.bind fun text after _ => .adapt ?_
  refine (Tracks.check ?_).imp fun _ _ _ => trivial
  exact fun _ passed => .inl passed

theorem tracks_type (index : UInt32) :
    Tracks mark context.before excuse ((context.overlay mark).type index) (context.type index) program
      fun _ _ => True :=
  (tracks_descriptor index).bind fun descriptor _ _ => .adapt (Edit.tracks_type descriptor)

theorem tracks_methodKey (index : UInt32) :
    Tracks mark context.before excuse ((context.overlay mark).methodKey index) (context.methodKey index) program
      fun _ _ => True :=
  tracks_require.bind fun method _ _ => tracks_require.bind fun proto _ _ =>
    (tracks_descriptor proto.result).bind fun _ _ _ => (Tracks.mapM fun index _ => tracks_descriptor index).bind
      fun _ _ _ => (tracks_text method.name).bind fun _ _ _ => (tracks_type method.owner).bind fun _ _ _ =>
        .pure trivial

theorem tracks_fieldKey (index : UInt32) :
    Tracks mark context.before excuse ((context.overlay mark).fieldKey index) (context.fieldKey index) program
      fun _ _ => True :=
  tracks_require.bind fun field _ _ => (tracks_descriptor field.type).bind fun _ _ _ =>
    (tracks_text field.name).bind fun _ _ _ => (tracks_type field.owner).bind fun _ _ _ => .pure trivial

theorem tracks_markInterface (type : TypeId) :
    Tracks mark context.before excuse (markInterface type) (markInterface type) program fun _ _ => True := by
  refine .get_bind ?_
  change Tracks mark context.before excuse
    (if !(program.typeAt type).isDefined then Edit.setInterface type true else pure ())
    (if !(program.typeAt type).isDefined then Edit.setInterface type true else pure ()) program _
  by_cases external : (!(program.typeAt type).isDefined) = true
  · rw [if_pos external]
    exact tracks_setInterface type true
  · rw [if_neg external]
    exact .pure trivial

theorem tracks_interface (index : UInt32) :
    Tracks mark context.before excuse ((context.overlay mark).interface index) (context.interface index) program
      fun _ _ => True :=
  (tracks_type index).bind fun type _ _ => (tracks_markInterface type).bind fun _ _ _ => .pure trivial

/-! ## Members -/

theorem tracks_blame_left {first second : Edit α} {goal : α → Program → Prop}
    (tracks : Tracks mark context.before excuse first second program goal) (known : Bool) :
    Tracks mark context.before excuse (blame known first) second program goal := by
  cases known with
  | false => exact tracks.adapt_left
  | true => exact tracks

/-- The image is blamed for a contradiction unless the marker was known. -/
theorem tracks_blame {known known' : Bool} {first second : Edit α} {goal : α → Program → Prop}
    (tracks : Tracks mark context.before (fun fault after => ∃ cause, fault = .conflict cause ∧
      (known = true ∨ Misfit mark after cause)) first second program goal) :
    Tracks mark context.before (Excused mark) (blame known' first) (blame known second) program goal := by
  have marked := tracks_blame_left tracks known'
  cases known with
  | false =>
    refine Tracks.adapt_right (marked.excused ?_)
    rintro _ after ⟨cause, rfl, same | misfit⟩
    · cases same
    · exact .inr ⟨cause, rfl, misfit⟩
  | true =>
    refine marked.excused ?_
    rintro _ after ⟨cause, rfl, -⟩
    exact .inl ⟨cause, rfl⟩

section Members

variable (sound : context.before.KeysSound)

include sound

theorem tracks_method (index : UInt32) (static : Bool) :
    Tracks mark context.before (Excused mark) ((context.overlay mark).method index static)
      (context.method index static) program fun id after => Settled mark after (.method id) static := by
  apply (tracks_methodKey index).bind
  intro (owner, name, signature) middle _
  apply Tracks.get_bind
  apply Tracks.given_kept
  intro kept
  refine tracks_blame ((Edit.tracks_method owner name signature).excused ?_)
  rintro _ after ⟨cause, rfl, ⟨symbol, listed, known⟩ | misfit⟩
  · obtain ⟨id, found, rfl⟩ := Option.map_eq_some_iff.mp listed
    refine ⟨cause, rfl, .inl ?_⟩
    rw [findMethod?_back sound kept.indexed kept.more found known]
    exact known
  · exact ⟨cause, rfl, .inr misfit⟩

theorem tracks_field (index : UInt32) (static : Bool) :
    Tracks mark context.before (Excused mark) ((context.overlay mark).field index static)
      (context.field index static) program fun id after => Settled mark after (.field id) static := by
  apply (tracks_fieldKey index).bind
  intro (owner, name, type) middle _
  apply Tracks.get_bind
  apply Tracks.given_kept
  intro kept
  refine tracks_blame ((Edit.tracks_field owner name type).excused ?_)
  rintro _ after ⟨cause, rfl, ⟨symbol, listed, known⟩ | misfit⟩
  · obtain ⟨id, found, rfl⟩ := Option.map_eq_some_iff.mp listed
    refine ⟨cause, rfl, .inl ?_⟩
    rw [findField?_back sound kept.indexed kept.more found known]
    exact known
  · exact ⟨cause, rfl, .inr misfit⟩

end Members

/-! ## Code -/

theorem tracks_slot (frame : Frame) (register : UInt16) :
    Tracks mark context.before excuse (frame.slot register) (frame.slot register) program
      fun _ _ => True := by
  unfold Frame.slot
  split
  · exact .pure trivial
  · exact .throw

theorem tracks_slots (frame : Frame) (registers : List UInt16) :
    Tracks mark context.before excuse (registers.mapM frame.slot) (registers.mapM frame.slot) program
      fun _ _ => True :=
  .mapM fun register _ => tracks_slot frame register

/-- What is built of a member is checked against its entry, which is the same in both runs. -/
theorem tracks_buildCall {method : MethodId} {static : Bool} (settled : Settled mark program (.method method) static)
    (kind : CallKind) (arguments : List Local) (result : Option Local) :
    Tracks mark context.before excuse (buildCall ⟨kind, some method, arguments, result⟩)
      (buildCall ⟨kind, some method, arguments, result⟩) program fun _ _ => True := by
  have same : (CallRequest.mk kind (some method) arguments result).build (program.overlay mark) =
      (CallRequest.mk kind (some method) arguments result).build program := by
    simp only [CallRequest.build, settled.methodAt_overlay, methodText_remark]
  apply (Tracks.adapt (Tracks.check fun _ passed => .inl (same ▸ passed))).bind
  intro call after _
  exact .pure trivial

theorem tracks_buildAccess {field : FieldId} {static : Bool} (settled : Settled mark program (.field field) static)
    (kind : AccessKind) (value object : Option Local) :
    Tracks mark context.before excuse (buildAccess ⟨kind, some field, value, object⟩)
      (buildAccess ⟨kind, some field, value, object⟩) program fun _ _ => True := by
  have same : (AccessRequest.mk kind (some field) value object).build (program.overlay mark) =
      (AccessRequest.mk kind (some field) value object).build program := by
    simp only [AccessRequest.build, settled.fieldAt_overlay, fieldText_remark]
  apply (Tracks.adapt (Tracks.check fun _ passed => .inl (same ▸ passed))).bind
  intro use after _
  exact .pure trivial

theorem tracks_noteDispatch (dispatch : Dispatch) (owner : TypeId) :
    Tracks mark context.before excuse (noteDispatch dispatch owner) (noteDispatch dispatch owner) program
      fun _ _ => True := by
  unfold noteDispatch
  split
  · exact tracks_markInterface owner
  · exact .pure trivial

theorem tracks_resultSlot (frame : Frame) (signature : Signature) (result : Option UInt16) :
    Tracks mark context.before excuse (resultSlot frame signature result) (resultSlot frame signature result)
      program fun _ _ => True := by
  cases result with
  | some dst => exact .map (tracks_slot frame dst)
  | none => exact .optional fun kind => tracks_freshLocal kind

section Units

variable (sound : context.before.KeysSound) (frame : Frame)

include sound

theorem tracks_buildAllocation (dst : UInt16) (type constructor : UInt32) (arguments : List UInt16) :
    Tracks mark context.before (Excused mark)
      ((context.overlay mark).buildAllocation frame dst type constructor arguments)
      (context.buildAllocation frame dst type constructor arguments) program fun _ _ => True := by
  apply (tracks_method sound constructor false).bind
  intro method first settled
  apply Tracks.settled_bind settled (tracks_type type) (context.lasting_type type)
  intro allocated second settled
  apply Tracks.get_bind
  simp only [methodAt_remark, methodText_remark]
  apply Tracks.refuse_bind
  intro owned
  apply Tracks.settled_bind settled (tracks_slot frame dst) (lasting_slot frame dst)
  intro result third settled
  apply Tracks.settled_bind settled (tracks_slots frame _) (Lasting.mapM (lasting_slot frame))
  intro operands fourth settled
  exact tracks_buildCall settled _ _ _

theorem tracks_buildInvoke (dispatch : Dispatch) (method : UInt32) (arguments : List UInt16)
    (result : Option UInt16) :
    Tracks mark context.before (Excused mark)
      ((context.overlay mark).buildInvoke frame dispatch method arguments result)
      (context.buildInvoke frame dispatch method arguments result) program fun _ _ => True := by
  apply (tracks_method sound method _).bind
  intro target first settled
  apply Tracks.get_bind
  simp only [methodAt_remark]
  apply Tracks.settled_bind settled (tracks_noteDispatch dispatch _) (lasting_noteDispatch dispatch _)
  intro _ second settled
  apply Tracks.settled_bind settled (tracks_slots frame _) (Lasting.mapM (lasting_slot frame))
  intro operands third settled
  apply Tracks.settled_bind settled (tracks_resultSlot frame _ result) (lasting_resultSlot frame _ result)
  intro taken fourth settled
  exact tracks_buildCall settled _ _ _

theorem tracks_buildSingle (raw : RawInstruction) :
    Tracks mark context.before (Excused mark) ((context.overlay mark).buildSingle frame raw)
      (context.buildSingle frame raw) program fun _ _ => True := by
  cases raw with
  | returnVoid | goto => exact .pure trivial
  | returnValue | throwValue | constInt | constWide | constFloat | constDouble | constNull | ifZero =>
    exact (tracks_slot frame _).bind fun _ _ _ => .pure trivial
  | move | arrayLength | ifCompare =>
    exact (tracks_slot frame _).bind fun _ _ _ => (tracks_slot frame _).bind fun _ _ _ => .pure trivial
  | binary =>
    exact (tracks_slot frame _).bind fun _ _ _ => (tracks_slot frame _).bind fun _ _ _ =>
      (tracks_slot frame _).bind fun _ _ _ => .pure trivial
  | constText => exact (tracks_slot frame _).bind fun _ _ _ => (tracks_text _).bind fun _ _ _ => .pure trivial
  | constClass => exact (tracks_slot frame _).bind fun _ _ _ => (tracks_type _).bind fun _ _ _ => .pure trivial
  | newArray | checkCast | instanceOf =>
    exact (tracks_slot frame _).bind fun _ _ _ => (tracks_slot frame _).bind fun _ _ _ =>
      (tracks_type _).bind fun _ _ _ => .pure trivial
  | instanceGet | instancePut =>
    apply (tracks_field sound _ _).bind
    intro field first settled
    apply Tracks.settled_bind settled (tracks_slot frame _) (lasting_slot frame _)
    intro value second settled
    apply Tracks.settled_bind settled (tracks_slot frame _) (lasting_slot frame _)
    intro object third settled
    exact tracks_buildAccess settled _ _ _
  | staticGet | staticPut =>
    apply (tracks_field sound _ _).bind
    intro field first settled
    apply Tracks.settled_bind settled (tracks_slot frame _) (lasting_slot frame _)
    intro value second settled
    exact tracks_buildAccess settled _ _ _
  | nop | moveResult | newInstance | invoke => exact .throw

theorem tracks_buildUnit (unit : CodeUnit) :
    Tracks mark context.before (Excused mark) ((context.overlay mark).buildUnit frame unit)
      (context.buildUnit frame unit) program fun _ _ => True := by
  cases unit with
  | allocation => exact tracks_buildAllocation sound frame _ _ _ _
  | call => exact tracks_buildInvoke sound frame _ _ _ _
  | single raw => exact tracks_buildSingle sound frame raw

theorem tracks_loadUnit (method : MethodId) (entry : (Nat × CodeUnit) × Nat) :
    Tracks mark context.before (Excused mark) ((context.overlay mark).loadUnit frame method entry)
      (context.loadUnit frame method entry) program fun _ _ => True :=
  (tracks_buildUnit sound frame entry.1.2).bind fun instruction _ _ => tracks_appendReserved _ _ instruction

omit sound in
theorem tracks_assignRegisters (method : MethodId) (code : CodeItem) :
    Tracks mark context.before excuse (assignRegisters method code) (assignRegisters method code) program
      fun _ _ => True := by
  apply (Tracks.adapt (tracks_createBody method)).bind
  intro parameters middle _
  apply Tracks.get_bind
  simp only [methodText_remark]
  split
  · exact .throw
  · apply Tracks.refuse_bind
    intro _
    exact (Tracks.mapM fun tag _ => .optional fun kind => tracks_freshLocal kind).bind fun _ _ _ => .pure trivial

omit frame in
theorem tracks_loadBody (method : MethodId) (code : CodeItem) :
    Tracks mark context.before (Excused mark) ((context.overlay mark).loadBody method code)
      (context.loadBody method code) program fun _ _ => True :=
  (tracks_assignRegisters method code).bind fun _ _ _ => (tracks_reserve _).bind fun _ _ _ =>
    .forM fun entry _ => tracks_loadUnit sound _ method entry

end Units

/-! ## Declarations -/

theorem tracks_defineClass (definition : ClassDef) :
    Tracks mark context.before excuse ((context.overlay mark).defineClass definition)
      (context.defineClass definition) program fun _ _ => True :=
  (tracks_descriptor definition.type).bind fun descriptor _ _ =>
    (Tracks.optional fun index => tracks_type index).bind fun _ _ _ =>
      (Tracks.mapM fun index _ => tracks_interface index).bind fun _ _ _ =>
        (Tracks.optional fun index => tracks_text index).bind fun _ _ _ => .adapt (tracks_define descriptor _)

theorem tracks_declareField (owner : TypeId) (entry : FieldDef) :
    Tracks mark context.before (Excused mark) ((context.overlay mark).declareField owner entry)
      (context.declareField owner entry) program fun _ _ => True := by
  apply (tracks_fieldKey entry.field).bind
  intro (_, name, type) middle _
  have declared : Tracks mark context.before _ _ _ middle _ :=
    Edit.tracks_declareField owner name type entry.access
  apply (Tracks.adapt (declared.excused fun _ _ excused => excused.blameImage)).bind
  intro id after _
  exact .pure trivial

theorem tracks_declareMethod (owner : TypeId) (entry : MethodDef) :
    Tracks mark context.before (Excused mark) ((context.overlay mark).declareMethod owner entry)
      (context.declareMethod owner entry) program fun _ _ => True := by
  apply (tracks_methodKey entry.method).bind
  intro (_, name, signature) middle _
  have declared : Tracks mark context.before _ _ _ middle _ :=
    Edit.tracks_declareMethod owner name signature entry.access
  apply (Tracks.adapt (declared.excused fun _ _ excused => excused.blameImage)).bind
  intro id after _
  exact .pure trivial

theorem tracks_declareClass (definition : ClassDef) :
    Tracks mark context.before (Excused mark) ((context.overlay mark).declareClass definition)
      (context.declareClass definition) program fun _ _ => True :=
  (tracks_defineClass definition).bind fun owner _ _ =>
    (Tracks.forM fun entry _ => tracks_declareField owner entry).bind fun _ _ _ =>
      (Tracks.mapM fun entry _ => tracks_declareMethod owner entry).bind fun _ _ _ => .pure trivial

/-- The run without the marks loads the image as the run with the marks does, or its fault is excused. -/
theorem tracks_load (sound : context.before.KeysSound) :
    Tracks mark context.before (Excused mark) (context.overlay mark).load context.load program
      fun _ _ => True := by
  refine (Tracks.mapM fun definition _ => tracks_declareClass definition).bind fun coded middle _ => ?_
  refine .forM fun entry later => .adapt ((tracks_loadBody sound entry.1 entry.2).excused ?_)
  exact fun _ _ excused => excused.blameImage

end Context

end Loading

end ClassImage
