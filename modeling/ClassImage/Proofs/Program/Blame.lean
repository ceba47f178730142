import Mathlib.Tactic
import ClassImage.Proofs.Codec.Image
import ClassImage.Proofs.Copy.Symbols
import ClassImage.Proofs.Program.Faults

/-!
Which faults a fresh program meets in an image. While classes are declared, all
members come from declarations, so a contradiction is one between two
declarations of one member; it is reported as it is. Whatever goes wrong in the
code of a method is the fault of the image.
-/

namespace ClassImage

/-- The text by which a fault names the symbol. -/
def SymbolKey.text : SymbolKey → String
  | .type descriptor => descriptor.text
  | .method owner name signature => owner.text ++ "->" ++ name ++ signature.text
  | .field owner name held => owner.text ++ "->" ++ name ++ ":" ++ held.text

open Program Edit Fault

namespace Program

theorem symbolText_of_key? {program : Program} {symbol : Symbol} {key : SymbolKey}
    (named : program.key? symbol = some key) : program.symbolText symbol = key.text := by
  cases symbol with
  | type id =>
    obtain ⟨descriptor, found, rfl⟩ := key?_type.mp named
    rw [symbolText, typeText, descriptor?_typeAt found]
    rfl
  | method id =>
    obtain ⟨owner, name, signature, descriptor, found, owned, rfl⟩ := key?_method.mp named
    obtain ⟨rfl, rfl, rfl⟩ := methodKey?_methodAt found
    rw [symbolText, methodText, typeText, descriptor?_typeAt owned]
    rfl
  | field id =>
    obtain ⟨owner, name, type, descriptor, found, owned, rfl⟩ := key?_field.mp named
    obtain ⟨rfl, rfl, rfl⟩ := fieldKey?_fieldAt found
    rw [symbolText, fieldText, typeText, descriptor?_typeAt owned]
    rfl

end Program

namespace Loading

namespace Context

variable {context : Context} {before : Program}

/-! ## Looking up the pool -/

theorem ends_require {table : PoolTable} {index : UInt32} {entry : Option α} :
    Ends (require table index entry) before (fun value after => after = before ∧ entry = some value)
      OfImage := by
  cases entry with
  | none => exact .throw ⟨_, rfl⟩
  | some value => exact .pure ⟨rfl, rfl⟩

theorem ends_text (index : UInt32) :
    Ends (context.text index) before (fun _ after => before.SameMembers after) OfImage := by
  apply ends_require.imp
  · rintro text after ⟨rfl, -⟩
    exact .refl after
  · exact fun _ imputed => imputed

theorem ends_descriptor (index : UInt32) :
    Ends (context.descriptor index) before (fun _ after => before.SameMembers after) OfImage := by
  apply ends_require.bind
  rintro text middle ⟨rfl, -⟩
  refine .adapt ((Ends.check_any (fails_parse text)).imp ?_ fun _ flawed => flawed)
  rintro descriptor after ⟨rfl, -⟩
  exact .refl after

theorem ends_type (index : UInt32) :
    Ends (context.type index) before (fun _ after => before.SameMembers after) OfImage := by
  apply (ends_descriptor index).bind
  intro descriptor middle same
  exact .adapt ((Edit.ends_type descriptor).since same)

theorem ends_methodKey (index : UInt32) :
    Ends (context.methodKey index) before (fun _ after => before.SameMembers after) OfImage := by
  apply ends_require.bind
  rintro method middle ⟨rfl, -⟩
  apply ends_require.bind
  rintro proto middle ⟨rfl, -⟩
  apply (ends_descriptor proto.result).bind
  intro result first same
  apply (Ends.mapM same fun index _ _ kept => (ends_descriptor index).since kept).bind
  intro parameters second same
  apply ((ends_text method.name).since same).bind
  intro name third same
  apply ((ends_type method.owner).since same).bind
  exact fun owner after same => .pure same

theorem ends_fieldKey (index : UInt32) :
    Ends (context.fieldKey index) before (fun _ after => before.SameMembers after) OfImage := by
  apply ends_require.bind
  rintro field middle ⟨rfl, -⟩
  apply (ends_descriptor field.type).bind
  intro type first same
  apply ((ends_text field.name).since same).bind
  intro name second same
  apply ((ends_type field.owner).since same).bind
  exact fun owner after same => .pure same

theorem ends_markInterface (type : TypeId) :
    Ends (markInterface type) before (fun _ after => before.SameMembers after) OfImage := by
  refine .get_bind ?_
  split
  · rename_i external
    unfold Edit.setInterface
    refine .get_bind ?_
    cases status : (before.typeAt type).status with
    | external known =>
      simp only [status]
      exact (sameKeys_setExternal before type _).sameMembers rfl
    | defined definition => simp [TypeEntry.isDefined, TypeEntry.definition?, status] at external
  · exact .pure (.refl before)

theorem ends_interface (index : UInt32) :
    Ends (context.interface index) before (fun _ after => before.SameMembers after) OfImage := by
  apply (ends_type index).bind
  intro type middle same
  apply ((ends_markInterface type).since same).bind
  exact fun _ after same => .pure same

/-! ## Code -/

theorem ends_slot (frame : Frame) (register : UInt16) :
    Ends (frame.slot register) before (fun _ _ => True) OfImage := by
  unfold Frame.slot
  split
  · exact .pure trivial
  · exact .throw ⟨_, rfl⟩

theorem ends_slots (frame : Frame) (registers : List UInt16) :
    Ends (registers.mapM frame.slot) before (fun _ _ => True) OfImage :=
  .mapM trivial fun register _ _ _ => ends_slot frame register

/-- A call that was built implies the marker of its target. -/
theorem ends_buildCall (kind : CallKind) (method : MethodId) (arguments : List Local) (result : Option Local) :
    Ends (buildCall ⟨kind, some method, arguments, result⟩) before
      (fun instruction after => after.Fits instruction) OfImage := by
  refine Ends.bind (Ends.adapt (Ends.check_any (CallRequest.fails_build kind method arguments result before))) ?_
  rintro call middle ⟨rfl, built⟩
  obtain ⟨-, -, -, implied⟩ := CallRequest.build_ok.mp built
  refine .pure ?_
  intro symbol used shape known marked
  rw [memberShape?_invoke] at shape
  cases shape
  exact implied known marked

theorem ends_buildAccess (kind : AccessKind) (field : FieldId) (value : Local) (object : Option Local) :
    Ends (buildAccess ⟨kind, some field, some value, object⟩) before
      (fun instruction after => after.Fits instruction) OfImage := by
  refine Ends.bind (Ends.adapt (Ends.check_any (AccessRequest.fails_build kind field value object before))) ?_
  rintro use middle ⟨rfl, built⟩
  obtain ⟨-, -, implied⟩ := AccessRequest.build_ok.mp built
  refine .pure ?_
  intro symbol used shape known marked
  cases shape
  exact implied known marked

section Fresh

variable (fresh : context.before = {})

include fresh

theorem unknown_of_fresh (descriptor : Descriptor) : context.before.findType? descriptor = none := by
  rw [fresh]
  exact Lookup.find?_empty descriptor

/-- Nothing was known before the image, so a contradiction is its own. -/
theorem ends_method (index : UInt32) (static : Bool) :
    Ends (context.method index static) before (fun _ _ => True) OfImage := by
  refine (ends_methodKey index).bind ?_
  rintro ⟨owner, name, signature⟩ middle -
  refine .get_bind ?_
  simp only [unknown_of_fresh fresh, Option.bind_none, Option.any_none]
  exact .adapt (Edit.ends_method owner name signature (some static))

theorem ends_field (index : UInt32) (static : Bool) :
    Ends (context.field index static) before (fun _ _ => True) OfImage := by
  refine (ends_fieldKey index).bind ?_
  rintro ⟨owner, name, type⟩ middle -
  refine .get_bind ?_
  simp only [unknown_of_fresh fresh, Option.bind_none, Option.any_none]
  exact .adapt (Edit.ends_field owner name type (some static))

theorem ends_buildAllocation (frame : Frame) (dst : UInt16) (type constructor : UInt32)
    (arguments : List UInt16) :
    Ends (context.buildAllocation frame dst type constructor arguments) before
      (fun instruction after => after.Fits instruction) OfImage := by
  refine (ends_method fresh constructor false).bind fun method _ _ => ?_
  refine (ends_type type).bind fun allocated _ _ => .get_bind ?_
  refine .refuse_bind (fun _ => ⟨_, rfl⟩) fun _ => ?_
  refine (ends_slot frame dst).bind fun result _ _ => ?_
  exact (ends_slots frame _).bind fun arguments _ _ => ends_buildCall _ _ _ _

theorem ends_buildInvoke (frame : Frame) (dispatch : Dispatch) (method : UInt32) (arguments : List UInt16)
    (result : Option UInt16) :
    Ends (context.buildInvoke frame dispatch method arguments result) before
      (fun instruction after => after.Fits instruction) OfImage := by
  refine (ends_method fresh method _).bind fun target _ _ => .get_bind ?_
  have noted : ∀ middle owner, Ends (noteDispatch dispatch owner) middle (fun _ _ => True) OfImage := by
    intro middle owner
    unfold noteDispatch
    split
    · exact (ends_markInterface owner).imp (fun _ _ _ => trivial) fun _ imputed => imputed
    · exact .pure trivial
  have taken : ∀ middle signature, Ends (resultSlot frame signature result) middle (fun _ _ => True)
      OfImage := by
    intro middle signature
    cases result with
    | some dst => exact .map (ends_slot frame dst)
    | none => exact .optional trivial fun kind _ => trivial
  refine (noted _ _).bind fun _ _ _ => ?_
  refine (ends_slots frame arguments).bind fun arguments _ _ => ?_
  exact (taken _ _).bind fun result _ _ => ends_buildCall _ _ _ _

theorem ends_buildSingle (frame : Frame) (raw : RawInstruction) :
    Ends (context.buildSingle frame raw) before (fun instruction after => after.Fits instruction)
      OfImage := by
  -- No member decides the operands of these instructions.
  have plain : ∀ {instruction : Instruction} {after : Program}, after.memberShape? instruction = none →
      after.Fits instruction := by
    intro instruction after shape symbol used here
    rw [shape] at here
    cases here
  cases raw with
  | move | arrayLength | ifCompare =>
    exact (ends_slot frame _).bind fun _ _ _ => (ends_slot frame _).bind fun _ _ _ => .pure (plain rfl)
  | binary =>
    exact (ends_slot frame _).bind fun _ _ _ => (ends_slot frame _).bind fun _ _ _ =>
      (ends_slot frame _).bind fun _ _ _ => .pure (plain rfl)
  | returnVoid | goto => exact .pure (plain rfl)
  | returnValue | throwValue | constInt | constWide | constFloat | constDouble | constNull | ifZero =>
    exact (ends_slot frame _).bind fun _ _ _ => .pure (plain rfl)
  | constText =>
    exact (ends_slot frame _).bind fun _ _ _ => (ends_text _).bind fun _ _ _ => .pure (plain rfl)
  | constClass =>
    exact (ends_slot frame _).bind fun _ _ _ => (ends_type _).bind fun _ _ _ => .pure (plain rfl)
  | newArray | checkCast | instanceOf =>
    exact (ends_slot frame _).bind fun _ _ _ => (ends_slot frame _).bind fun _ _ _ =>
      (ends_type _).bind fun _ _ _ => .pure (plain rfl)
  | instanceGet | instancePut =>
    exact (ends_field fresh _ _).bind fun _ _ _ => (ends_slot frame _).bind fun _ _ _ =>
      (ends_slot frame _).bind fun _ _ _ => ends_buildAccess _ _ _ _
  | staticGet | staticPut =>
    exact (ends_field fresh _ _).bind fun _ _ _ => (ends_slot frame _).bind fun _ _ _ =>
      ends_buildAccess _ _ _ _
  | nop | moveResult | newInstance | invoke => exact .throw ⟨_, rfl⟩

theorem ends_buildUnit (frame : Frame) (unit : CodeUnit) :
    Ends (context.buildUnit frame unit) before (fun instruction after => after.Fits instruction)
      OfImage := by
  cases unit with
  | allocation => exact ends_buildAllocation fresh frame _ _ _ _
  | call => exact ends_buildInvoke fresh frame _ _ _ _
  | single raw => exact ends_buildSingle fresh frame raw

omit fresh in
theorem ends_assignRegisters (method : MethodId) (code : CodeItem) :
    Ends (assignRegisters method code) before (fun _ _ => True) OfImage := by
  have opened : Ends (ExceptT.adapt Fault.blameImageFully (Edit.createBody method)) before
      (fun _ _ => True) OfImage := .adapt (Edit.ends_createBody method)
  refine opened.bind fun parameters middle _ => .get_bind ?_
  simp only
  split
  · exact .throw ⟨_, rfl⟩
  · refine .refuse_bind (fun _ => ⟨_, rfl⟩) fun _ => ?_
    have low : ∀ tag middle, Ends ((ValueKind.ofTag? tag).mapM Edit.freshLocal) middle (fun _ _ => True)
        OfImage := fun tag middle => .optional trivial fun kind _ => trivial
    exact (Ends.mapM trivial fun tag _ middle _ => low tag middle).bind fun _ _ _ => .pure trivial

theorem ends_loadBody (method : MethodId) (code : CodeItem) :
    Ends (context.loadBody method code) before (fun _ _ => True) Flawed := by
  have units : ∀ frame entry middle, Ends (context.loadUnit frame method entry) middle (fun _ _ => True)
      Flawed := by
    rintro frame ⟨⟨start, unit⟩, index⟩ middle
    refine ((ends_buildUnit fresh frame unit).widen fun _ imputed => imputed.flawed).bind ?_
    intro instruction after fits
    exact ends_appendReserved fits
  refine ((ends_assignRegisters method code).widen fun _ imputed => imputed.flawed).bind ?_
  intro registers middle _
  have reserved : Ends (Edit.reserve (CodeUnit.split 0 code.instructions.toList).length) middle
      (fun _ _ => True) Flawed := trivial
  refine reserved.bind fun first later _ => ?_
  exact .forM trivial fun entry _ last _ => units _ entry last

end Fresh

/-! ## Declarations -/

/-- A class of the image declares the member, as static or not. -/
inductive Declared (context : Context) : SymbolKey → Bool → Prop
  | field {definition : ClassDef} {entry : FieldDef} {owner type : Descriptor} {name : String}
      (member : definition ∈ context.image.classes) (listed : entry ∈ definition.fields)
      (read : context.ReadsField entry.field owner name type) :
      Declared context (.field owner name type) (Access.isSet entry.access Access.static)
  | method {definition : ClassDef} {entry : MethodDef} {owner : Descriptor} {name : String}
      {signature : Signature} (member : definition ∈ context.image.classes)
      (listed : entry ∈ definition.methods)
      (read : context.ReadsMethod entry.method owner name signature) :
      Declared context (.method owner name signature) (Access.isSet entry.access Access.static)

/-- What an image is refused for: for its own fault, for a class that exists, or because its
declarations of a member contradict each other. -/
inductive Refused (context : Context) : Fault → Prop
  | malformed {fault : Fault} (imputed : fault.OfImage) : Refused context fault
  | duplicate (type : String) : Refused context (.duplicateType type)
  | disputed {key : SymbolKey} {known requested : Bool} (first : context.Declared key known)
      (second : context.Declared key requested) (apart : known ≠ requested) :
      Refused context (.conflict (.marker key.text known requested))

theorem Refused.of_flawed {fault : Fault} (flawed : fault.Flawed) : context.Refused fault.blameImage :=
  .malformed flawed

theorem Refused.blameImage {fault : Fault} (refused : context.Refused fault) :
    context.Refused fault.blameImage := by
  cases refused with
  | malformed imputed => exact .malformed imputed.flawed
  | duplicate type => exact .duplicate type
  | disputed first second apart => exact .disputed first second apart

/-- Every member comes from a declaration, which gave it its marker, and can be looked up. -/
structure Told (context : Context) (program : Program) : Prop where
  indexed : program.Indexed
  members : ∀ symbol, program.HasMember symbol → ∃ key static, program.key? symbol = some key ∧
    program.marker symbol = some static ∧ context.Declared key static

theorem told_empty : context.Told {} :=
  ⟨.empty, fun symbol member => absurd member (not_hasMember_empty symbol)⟩

theorem Told.sameMembers {after : Program} (told : context.Told before) (same : before.SameMembers after) :
    context.Told after := by
  refine ⟨same.indexed told.indexed, ?_⟩
  intro symbol member
  rw [same.hasMember] at member
  obtain ⟨key, static, named, marked, declared⟩ := told.members symbol member
  exact ⟨key, static, same.more.key? named, by rw [same.markers, marked], declared⟩

section Told

variable (told : context.Told before) {owner : TypeId} {descriptor : Descriptor} {name : String}
  {static : Bool} (known : before.descriptor? owner = some descriptor)

include told known

theorem Told.addMethod {signature : Signature} (missing : before.findMethod? owner name signature = none)
    (declared : context.Declared (.method descriptor name signature) static) :
    context.Told (before.addMethod owner name signature (some static)) := by
  have more := extends_addMethod before owner name signature (some static)
  refine ⟨told.indexed.addMethod missing, ?_⟩
  intro symbol member
  by_cases last : symbol = .method ⟨before.methods.size⟩
  · subst last
    refine ⟨_, static, key?_method.mpr ⟨owner, name, signature, descriptor, ?_, more.types known, rfl⟩, ?_,
      declared⟩
    · rw [methodKey?_addMethod, if_pos rfl]
    · simp [Program.marker, methodAt, Program.addMethod]
  · cases symbol with
    | type => exact member.elim
    | method id =>
      have apart : id.index ≠ before.methods.size := by
        rintro same
        exact last (congrArg Symbol.method (congrArg MethodId.mk same))
      rw [HasMember, methodKey?_addMethod, if_neg apart] at member
      obtain ⟨key, marker, named, marked, stated⟩ := told.members (.method id) member
      refine ⟨key, marker, more.key? named, ?_, stated⟩
      rw [← marked]
      simp only [Program.marker, methodAt, Program.addMethod, Array.getD_push, if_neg apart]
    | field id =>
      obtain ⟨key, marker, named, marked, stated⟩ := told.members (.field id) member
      exact ⟨key, marker, more.key? named, marked, stated⟩

theorem Told.addField {type : Descriptor} (missing : before.findField? owner name type = none)
    (declared : context.Declared (.field descriptor name type) static) :
    context.Told (before.addField owner name type (some static)) := by
  have more := extends_addField before owner name type (some static)
  refine ⟨told.indexed.addField missing, ?_⟩
  intro symbol member
  by_cases last : symbol = .field ⟨before.fields.size⟩
  · subst last
    refine ⟨_, static, key?_field.mpr ⟨owner, name, type, descriptor, ?_, more.types known, rfl⟩, ?_,
      declared⟩
    · rw [fieldKey?_addField, if_pos rfl]
    · simp [Program.marker, fieldAt, Program.addField]
  · cases symbol with
    | type => exact member.elim
    | method id =>
      obtain ⟨key, marker, named, marked, stated⟩ := told.members (.method id) member
      exact ⟨key, marker, more.key? named, marked, stated⟩
    | field id =>
      have apart : id.index ≠ before.fields.size := by
        rintro same
        exact last (congrArg Symbol.field (congrArg FieldId.mk same))
      rw [HasMember, fieldKey?_addField, if_neg apart] at member
      obtain ⟨key, marker, named, marked, stated⟩ := told.members (.field id) member
      refine ⟨key, marker, more.key? named, ?_, stated⟩
      rw [← marked]
      simp only [Program.marker, fieldAt, Program.addField, Array.getD_push, if_neg apart]

omit known in
/-- A member that exists was declared before; another declaration agrees or is disputed. -/
theorem Told.ends_refine {symbol : Symbol} {key : SymbolKey} (named : before.key? symbol = some key)
    (member : before.HasMember symbol) (declared : context.Declared key static) :
    Ends (Edit.refine symbol (some static)) before (fun _ after => after = before) context.Refused := by
  obtain ⟨other, marker, found, marked, stated⟩ := told.members symbol member
  cases named.symm.trans found
  unfold Edit.refine
  refine .get_bind ?_
  simp only [marked]
  refine .refuse ?_ fun _ => rfl
  intro apart
  rw [symbolText_of_key? named]
  exact .disputed stated declared apart

theorem Told.ends_declareMethod {signature : Signature} {access : UInt32}
    (declared : context.Declared (.method descriptor name signature)
      (Access.isSet access Access.static)) :
    Ends (Edit.declareMethod owner name signature access) before
      (fun _ after => context.Told after ∧ before.Extends after) fun fault =>
        context.Refused fault.blameImage := by
  apply ((ends_requireDefined owner).widen fun _ flawed => .of_flawed flawed).bind
  rintro _ middle rfl
  have requested : Ends (Edit.method owner name signature (some (Access.isSet access Access.static)))
      middle (fun _ after => context.Told after ∧ middle.Extends after) fun fault =>
        context.Refused fault.blameImage := by
    refine .get_bind ?_
    cases found : middle.findMethod? owner name signature with
    | some id =>
      have key := (told.indexed.methods _ _).mp found
      have named : middle.key? (.method id) = some (.method descriptor name signature) :=
        key?_method.mpr ⟨owner, name, signature, descriptor, key, known, rfl⟩
      have member : middle.HasMember (.method id) := Option.isSome_iff_exists.mpr ⟨_, key⟩
      apply ((told.ends_refine named member declared).widen fun _ refused => refused.blameImage).bind
      rintro _ after rfl
      exact .pure ⟨told, .refl after⟩
    | none => exact .set_bind (.pure ⟨told.addMethod known found declared, extends_addMethod _ _ _ _ _⟩)
  apply requested.bind
  rintro id later ⟨told, more⟩
  refine .get_bind (.refuse_bind (fun _ => .of_flawed (flawed_flaw _)) fun _ => .set_bind (.pure ?_))
  have keys := sameKeys_listMethod later owner id access
  have listed := keys.sameMembers (marker_listMethod _ _ _ _)
  exact ⟨told.sameMembers listed, more.trans listed.more⟩

theorem Told.ends_declareField {type : Descriptor} {access : UInt32}
    (declared : context.Declared (.field descriptor name type) (Access.isSet access Access.static)) :
    Ends (Edit.declareField owner name type access) before
      (fun _ after => context.Told after ∧ before.Extends after) fun fault =>
        context.Refused fault.blameImage := by
  apply ((ends_requireDefined owner).widen fun _ flawed => .of_flawed flawed).bind
  rintro _ middle rfl
  have requested : Ends (Edit.field owner name type (some (Access.isSet access Access.static)))
      middle (fun _ after => context.Told after ∧ middle.Extends after) fun fault =>
        context.Refused fault.blameImage := by
    refine .refuse_bind (fun _ => .of_flawed (flawed_flaw _)) fun _ => .get_bind ?_
    cases found : middle.findField? owner name type with
    | some id =>
      have key := (told.indexed.fields _ _).mp found
      have named : middle.key? (.field id) = some (.field descriptor name type) :=
        key?_field.mpr ⟨owner, name, type, descriptor, key, known, rfl⟩
      have member : middle.HasMember (.field id) := Option.isSome_iff_exists.mpr ⟨_, key⟩
      apply ((told.ends_refine named member declared).widen fun _ refused => refused.blameImage).bind
      rintro _ after rfl
      exact .pure ⟨told, .refl after⟩
    | none => exact .set_bind (.pure ⟨told.addField known found declared, extends_addField _ _ _ _ _⟩)
  apply requested.bind
  rintro id later ⟨told, more⟩
  refine .get_bind (.refuse_bind (fun _ => .of_flawed (flawed_flaw _)) fun _ => .set_bind (.pure ?_))
  have keys := sameKeys_listField later owner id access
  have listed := keys.sameMembers (marker_listField _ _ _ _)
  exact ⟨told.sameMembers listed, more.trans listed.more⟩

end Told

theorem ends_defineClass (definition : ClassDef) :
    Ends (context.defineClass definition) before (fun _ after => before.SameMembers after)
      context.Refused := by
  have imputed : ∀ {γ : Type} {edit : Edit γ} {middle : Program} {goal : γ → Program → Prop},
      Ends edit middle goal OfImage → Ends edit middle goal context.Refused :=
    fun ends => ends.widen fun _ => .malformed
  apply (imputed (ends_descriptor definition.type)).bind
  intro descriptor first same
  apply (imputed (Ends.optional same fun index _ => (ends_type index).since same)).bind
  intro superclass second same
  apply (imputed (Ends.mapM same fun index _ _ kept => (ends_interface index).since kept)).bind
  intro interfaces third same
  apply (imputed (Ends.optional same fun index _ => (ends_text index).since same)).bind
  intro source last same
  refine .adapt (((Edit.ends_define descriptor _).since same).widen ?_)
  rintro fault (flawed | ⟨type, rfl⟩)
  · exact .of_flawed flawed
  · exact .duplicate type

/-- Declaring a class keeps all members declared. -/
theorem Told.ends_declareClass (told : context.Told before) {definition : ClassDef}
    (member : definition ∈ context.image.classes) (verified : definition.Verified context.image.pool) :
    Ends (context.declareClass definition) before (fun _ after => context.Told after) context.Refused := by
  apply ((ends_defineClass definition).reaching told.indexed (reaches_defineClass member)).bind
  rintro owner middle ⟨-, ⟨⟨descriptor, read, known⟩, -⟩, same⟩
  have fields : Ends (definition.fields.forM (context.declareField owner)) middle
      (fun _ after => context.Told after ∧ after.descriptor? owner = some descriptor) context.Refused := by
    refine .forM ⟨told.sameMembers same, known⟩ ?_
    rintro entry listed start ⟨told, known⟩
    apply (((ends_fieldKey entry.field).reaching told.indexed (looks_fieldKey entry.field)).widen
      fun _ => .malformed).bind
    rintro ⟨_, name, type⟩ later ⟨-, ⟨_, -, named⟩, same⟩
    have known := same.more.types known
    have declared := Declared.field member listed (named.owned (verified.fields entry listed).2 read)
    apply (Ends.adapt ((told.sameMembers same).ends_declareField known declared)).bind
    rintro _ after ⟨told, more⟩
    exact .pure ⟨told, more.types known⟩
  apply fields.bind
  rintro _ middle ⟨told, known⟩
  have methods : Ends (definition.methods.mapM (context.declareMethod owner)) middle
      (fun _ after => context.Told after ∧ after.descriptor? owner = some descriptor) context.Refused := by
    refine .mapM ⟨told, known⟩ ?_
    rintro entry listed start ⟨told, known⟩
    apply (((ends_methodKey entry.method).reaching told.indexed (looks_methodKey entry.method)).widen
      fun _ => .malformed).bind
    rintro ⟨_, name, signature⟩ later ⟨-, ⟨_, -, named⟩, same⟩
    have known := same.more.types known
    have declared := Declared.method member listed (named.owned (verified.methods entry listed).2.1 read)
    apply (Ends.adapt ((told.sameMembers same).ends_declareMethod known declared)).bind
    rintro _ after ⟨told, more⟩
    exact .pure ⟨told, more.types known⟩
  apply methods.bind
  rintro coded after ⟨told, -⟩
  exact .pure told

theorem ends_load (fresh : context.before = {})
    (verified : ∀ definition ∈ context.image.classes, definition.Verified context.image.pool) :
    Ends context.load {} (fun _ _ => True) context.Refused := by
  have classes : Ends (context.image.classes.mapM context.declareClass) {}
      (fun _ after => context.Told after) context.Refused :=
    .mapM told_empty fun definition member _ told =>
      told.ends_declareClass member (verified definition member)
  apply classes.bind
  intro coded middle _
  refine .forM trivial ?_
  rintro ⟨method, code⟩ - later -
  exact .adapt ((ends_loadBody fresh method code).widen fun _ => .of_flawed)

end Context

/-- A class that is missing or repeated. -/
theorem fails_checkDuplicates (context : Context) (program : Program) (seen : List String)
    (classes : List ClassDef) :
    FailsWith context.Refused (checkDuplicates program context.image.pool seen classes) := by
  fun_induction checkDuplicates program context.image.pool seen classes with
  | case1 => exact .ok
  | case2 => exact .error (.malformed ⟨_, rfl⟩)
  | case3 => exact .error (.duplicate _)
  | case4 seen definition rest name found defined fresh ih => exact ih

end Loading

theorem Edit.refused_of_addImage {image : Image} {fault : Fault} {after : Program}
    (failed : addImage image {} = (.error fault, after)) :
    (Loading.Context.mk image {}).Refused fault := by
  unfold addImage at failed
  split at failed
  · cases failed
    exact .malformed ⟨_, rfl⟩
  · rename_i verified
    split at failed
    · rename_i fault repeated
      cases failed
      exact Loading.fails_checkDuplicates ⟨image, {}⟩ {} [] image.classes _ repeated
    · split at failed
      · cases failed
      · rename_i fault last stopped
        cases failed
        have ends : Ends (Loading.Context.mk image {}).load {} (fun _ _ => True)
            (Loading.Context.mk image {}).Refused :=
          Loading.Context.ends_load rfl (Image.verify_ok.mp verified).2
        exact ends.fault stopped

namespace Program

/-- An image that does not become a program is malformed, repeats a class, or declares a member twice,
once as static and once not. -/
theorem ofBytes_error {bytes : Bytes} {fault : Fault} (failed : ofBytes bytes = .error fault) :
    (∃ cause, fault = .malformedImage cause) ∨ (∃ type, fault = .duplicateType type) ∨
      ∃ image key known, Image.decode bytes = .ok image ∧
        (Loading.Context.mk image {}).Declared key known ∧
        (Loading.Context.mk image {}).Declared key (!known) ∧
        fault = .conflict (.marker key.text known (!known)) := by
  cases decoded : Image.decode bytes with
  | error cause =>
    simp only [ofBytes, addBytes, decoded] at failed
    cases failed
    exact .inl ⟨_, rfl⟩
  | ok image =>
    simp only [ofBytes, addBytes, decoded] at failed
    split at failed
    · cases failed
    · rename_i other after stopped
      cases failed
      cases refused_of_addImage stopped with
      | malformed imputed => exact .inl imputed
      | duplicate type => exact .inr (.inl ⟨type, rfl⟩)
      | @disputed key known requested first second apart =>
        obtain rfl : requested = !known := Bool.eq_not.mpr apart.symm
        exact .inr (.inr ⟨image, key, known, rfl, first, second, rfl⟩)

/-- What stops an image stops its bytes. -/
theorem ofBytes_encode_error {image : Image} {fault : Fault} (encodable : image.Encodable)
    (failed : (addImage image {}).1 = .error fault) : ofBytes image.encode = .error fault := by
  have decoded : Image.decode image.encode = .ok image := Image.decode_eq_ok.mpr ⟨encodable, rfl⟩
  have loaded : addBytes image.encode {} = addImage image {} := by rw [addBytes, decoded]
  have stopped : addImage image {} = (.error fault, (addImage image {}).2) := Prod.ext failed rfl
  rw [ofBytes, loaded, stopped]

/-- A class that declares one field twice, as static and as not static. -/
def disputed : Image where
  flags := 0
  pool := ⟨#["LA;", "f", "I"], #[0, 2], #[], #[⟨0, 1, 1⟩], #[]⟩
  classes := [⟨0, 1, none, [], none, [⟨0, 8⟩, ⟨0, 0⟩], []⟩]

theorem ofBytes_disputed :
    ofBytes disputed.encode = .error (.conflict (.marker "LA;->f:I" true false)) := by
  refine ofBytes_encode_error ⟨by constructor <;> decide, by decide, ?_⟩ (by decide +kernel)
  intro definition member
  cases List.mem_singleton.mp member
  exact ⟨by decide, by decide, by decide, fun method member => absurd member List.not_mem_nil⟩

theorem ofBytes_error_disputed :
    ofBytes disputed.encode = .error (.conflict (.marker "LA;->f:I" true false)) ∧
      ∃ image key known, Image.decode disputed.encode = .ok image ∧
        (Loading.Context.mk image {}).Declared key known ∧
        (Loading.Context.mk image {}).Declared key (!known) := by
  refine ⟨ofBytes_disputed, ?_⟩
  rcases ofBytes_error ofBytes_disputed with ⟨_, imputed⟩ | ⟨_, repeated⟩ | ⟨image, key, known, found⟩
  · cases imputed
  · cases repeated
  · exact ⟨image, key, known, found.1, found.2.1, found.2.2.1⟩

/-- Some images that contradict themselves are not reported as malformed. -/
theorem ofBytes_unimputed : ¬∀ bytes fault, ofBytes bytes = .error fault →
    (∃ cause, fault = .malformedImage cause) ∨ ∃ type, fault = .duplicateType type := by
  intro always
  rcases always _ _ ofBytes_disputed with ⟨_, imputed⟩ | ⟨_, repeated⟩
  · cases imputed
  · cases repeated

end Program

end ClassImage
