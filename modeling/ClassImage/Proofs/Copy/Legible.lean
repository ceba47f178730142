import ClassImage.Proofs.Copy.Interfaces
import ClassImage.Proofs.Copy.RoundTrip

/-!
Which images of programs load. An image is verified before it is handed out, and
verification does not look into descriptors, so an image may mention a text that
is no descriptor. Every text that is mentioned as a type is read in the course of
loading, and if all of them are descriptors, then nothing else stands in the way.
-/

namespace ClassImage

/-- What is mentioned as a type is a descriptor. -/
def Mention.Parses (mention : Mention) : Prop :=
  ∀ text ∈ mention.types, (Descriptor.ofText? text).isSome

instance (mention : Mention) : Decidable mention.Parses :=
  inferInstanceAs (Decidable (∀ text ∈ mention.types, (Descriptor.ofText? text).isSome))

namespace Pool

/-- The types of a pool are those that were mentioned. -/
theorem mentioned_of_type? {mentions : List Mention} {index : UInt32} {text : String}
    (small : (ofMentions mentions).Small) (found : (ofMentions mentions).type? index = some text) :
    text ∈ mentions.flatMap Mention.types := by
  obtain ⟨entry, here, there⟩ := Option.bind_eq_some_iff.mp found
  have listed := ((holds_ofMentions mentions).types.2 entry).mp (Array.mem_of_getElem? here)
  obtain ⟨descriptor, member, rfl⟩ := List.mem_map.mp listed
  have inside := mem_texts (text_of_type member)
  have place := indexIn_toNat inside small.texts.le
  rw [text?, textIndex, place, ← Array.getElem?_toList, List.getElem?_idxOf (Array.mem_toList_iff.mpr inside)]
    at there
  cases there
  exact member

end Pool

open Program

namespace Edit

/-- The edit succeeds nowhere unless the condition holds. -/
def Needs (edit : Edit α) (condition : Prop) : Prop :=
  ∀ before value after, outcome edit before = (.ok value, after) → condition

namespace Needs

variable {edit : Edit α} {next : α → Edit β} {condition other : Prop}

theorem first (needs : Needs edit condition) : Needs (edit >>= next) condition := by
  intro before result after ran
  obtain ⟨value, middle, began, -⟩ := outcome_bind_ok.mp ran
  exact needs before value middle began

theorem second (needs : ∀ value, Needs (next value) condition) : Needs (edit >>= next) condition := by
  intro before result after ran
  obtain ⟨value, middle, -, ended⟩ := outcome_bind_ok.mp ran
  exact needs value middle result after ended

theorem adapt {relabel : Fault → Fault} (needs : Needs edit condition) :
    Needs (ExceptT.adapt relabel edit) condition :=
  fun before value after ran => needs before value after (outcome_adapt_ok.mp ran)

theorem mapM {list : List α} {action : α → Edit β} {entry : α} (member : entry ∈ list)
    (needs : Needs (action entry) condition) : Needs (list.mapM action) condition := by
  induction list with
  | nil => cases member
  | cons head rest ih =>
    rw [List.mapM_cons]
    rcases List.mem_cons.mp member with rfl | member
    · exact needs.first
    · exact .second fun _ => (ih member).first

theorem forM {list : List α} {action : α → Edit PUnit} {entry : α} (member : entry ∈ list)
    (needs : Needs (action entry) condition) : Needs (list.forM action) condition := by
  induction list with
  | nil => cases member
  | cons head rest ih =>
    change Needs (action head >>= fun _ => rest.forM action) condition
    rcases List.mem_cons.mp member with rfl | member
    · exact needs.first
    · exact .second fun _ => ih member

theorem optional {value : Option α} {action : α → Edit β} {entry : α} (here : value = some entry)
    (needs : Needs (action entry) condition) : Needs (value.mapM action) condition := by
  cases here
  rw [Option.mapM_some, ← bind_pure_comp]
  exact needs.first

end Needs

end Edit

namespace Loading.Context

open Edit

variable {context : Context} {program : Program} {limits : Limits} {index : UInt32}

/-- A text that is read is a descriptor. -/
theorem Reads.parses {descriptor : Descriptor} {text : String} (read : context.Reads index descriptor)
    (named : context.image.pool.type? index = some text) : (Descriptor.ofText? text).isSome := by
  obtain ⟨_, found, parsed⟩ := read
  cases found.symm.trans named
  rw [Descriptor.parse_ok.mp parsed]
  rfl

theorem Reads.mention {descriptor : Descriptor} {type : TypeId} (read : context.Reads index descriptor)
    (named : context.image.pool.NamesType program index type) : (program.typeMention type).Parses := by
  intro text member
  cases List.mem_singleton.mp member
  exact read.parses named

theorem ReadsMethod.mention {owner : Descriptor} {name : String} {signature : Signature} {method : MethodId}
    (read : context.ReadsMethod index owner name signature)
    (named : context.image.pool.NamesMethod program index method) :
    (program.methodMention method).Parses := by
  obtain ⟨method, proto, found, listed, result, parameters, -, holder⟩ := read
  obtain ⟨_, found', owned, ⟨_, listed', returned, taken⟩, -⟩ := named
  cases found.symm.trans found'
  cases listed.symm.trans listed'
  intro text member
  simp only [methodMention, Mention.types, List.mem_cons] at member
  rcases member with rfl | rfl | member
  · exact holder.parses owned
  · exact result.parses returned
  · obtain ⟨index, here, named⟩ := forall₂_exists_left taken member
    obtain ⟨descriptor, -, read⟩ := forall₂_exists_right parameters here
    exact read.parses named

theorem ReadsField.mention {owner : Descriptor} {name : String} {type : Descriptor} {field : FieldId}
    (read : context.ReadsField index owner name type)
    (named : context.image.pool.NamesField program index field) : (program.fieldMention field).Parses := by
  obtain ⟨field, found, held, -, holder⟩ := read
  obtain ⟨_, found', owned, typed, -⟩ := named
  cases found.symm.trans found'
  intro text member
  simp only [fieldMention, Mention.types, List.mem_cons, List.not_mem_nil, or_false] at member
  rcases member with rfl | rfl
  · exact holder.parses owned
  · exact held.parses typed

theorem needs_descriptor {type : TypeId} (named : context.image.pool.NamesType program index type) :
    Needs (context.descriptor index) (program.typeMention type).Parses :=
  fun _ _ _ ran => (descriptor_ran ran).1.mention named

theorem needs_type {type : TypeId} (named : context.image.pool.NamesType program index type) :
    Needs (context.type index) (program.typeMention type).Parses :=
  (needs_descriptor named).first

theorem needs_methodKey {method : MethodId} (named : context.image.pool.NamesMethod program index method) :
    Needs (context.methodKey index) (program.methodMention method).Parses := by
  intro before key after ran
  obtain ⟨reference, _, found, ran⟩ := outcome_bind_ok.mp ran
  obtain ⟨proto, _, listed, ran⟩ := outcome_bind_ok.mp ran
  obtain ⟨result, _, produced, ran⟩ := outcome_bind_ok.mp ran
  obtain ⟨parameters, _, taken, ran⟩ := outcome_bind_ok.mp ran
  obtain ⟨name, _, text, ran⟩ := outcome_bind_ok.mp ran
  obtain ⟨owner, _, held, -⟩ := outcome_bind_ok.mp ran
  obtain ⟨descriptor, _, holder, -⟩ := outcome_bind_ok.mp held
  have read : context.ReadsMethod index descriptor name ⟨parameters, result⟩ :=
    ⟨reference, proto, (require_ran found).1, (require_ran listed).1, (descriptor_ran produced).1,
      outcome_mapM_ok (fun _ _ _ _ _ ran => (descriptor_ran ran).1) taken, (require_ran text).1,
      (descriptor_ran holder).1⟩
  exact read.mention named

theorem needs_fieldKey {field : FieldId} (named : context.image.pool.NamesField program index field) :
    Needs (context.fieldKey index) (program.fieldMention field).Parses := by
  intro before key after ran
  obtain ⟨reference, _, found, ran⟩ := outcome_bind_ok.mp ran
  obtain ⟨type, _, held, ran⟩ := outcome_bind_ok.mp ran
  obtain ⟨name, _, text, ran⟩ := outcome_bind_ok.mp ran
  obtain ⟨owner, _, owned, -⟩ := outcome_bind_ok.mp ran
  obtain ⟨descriptor, _, holder, -⟩ := outcome_bind_ok.mp owned
  have read : context.ReadsField index descriptor name type :=
    ⟨reference, (require_ran found).1, (descriptor_ran held).1, (require_ran text).1,
      (descriptor_ran holder).1⟩
  exact read.mention named

theorem needs_nothing {edit : Edit α} {mention : Mention} (plain : mention.types = []) :
    Needs edit mention.Parses := by
  intro before value after _ text member
  rw [plain] at member
  cases member

/-- What an instruction mentions is read when its unit is built. -/
theorem needs_buildUnit {code : CodeContext} {frame : Frame} {instruction : Instruction} {unit : CodeUnit}
    (lowered : Lowered context.image.pool code instruction unit) {mention : Mention}
    (member : mention ∈ code.program.instructionMentions instruction) :
    Needs (context.buildUnit frame unit) mention.Parses := by
  cases lowered with
  | construct kind _ _ _ _ target allocated =>
    rw [instructionMentions, if_pos kind] at member
    rcases List.mem_cons.mp member with rfl | member
    · exact (needs_methodKey target).first.first
    · cases List.mem_singleton.mp member
      exact .second fun _ => (needs_type allocated).first
  | call kind _ _ target =>
    rw [instructionMentions, if_neg kind] at member
    cases List.mem_singleton.mp member
    exact (needs_methodKey target).first.first
  | @access use field value object _ target =>
    cases List.mem_singleton.mp member
    have needs : Needs (context.fieldKey field) (code.program.fieldMention use.field).Parses :=
      needs_fieldKey target
    cases use.kind <;> cases object <;> exact needs.first.first
  | @const _ _ value _ _ loads =>
    cases value with
    | text =>
      cases List.mem_singleton.mp member
      exact needs_nothing rfl
    | classOf =>
      cases List.mem_singleton.mp member
      obtain ⟨index, named, rfl⟩ := loads
      exact .second fun _ => (needs_type named).first
    | _ => cases member
  | newArray _ _ meant | checkCast _ _ meant | instanceOf _ _ meant =>
    cases List.mem_singleton.mp member
    exact .second fun _ => .second fun _ => (needs_type meant).first
  | _ => cases member

theorem needs_loadBody {method original : MethodId} {body : Body} {code : CodeItem}
    (lowered : program.LoweredBody context.image.pool limits original body code) {mention : Mention}
    (member : mention ∈ program.bodyMentions body) :
    Needs (context.loadBody method code) mention.Parses := by
  obtain ⟨instruction, inside, member⟩ := List.mem_flatMap.mp member
  obtain ⟨id, listed, attached⟩ := List.mem_filterMap.mp inside
  obtain ⟨surroundings, entry, rfl, split, becomes⟩ :=
    lowered.mem_split (Array.mem_toList_iff.mp listed) attached
  obtain ⟨place, numbered⟩ : ∃ place, (entry, place) ∈
      (CodeUnit.split 0 code.instructions.toList).zipIdx := by
    obtain ⟨place, here⟩ := List.mem_iff_getElem?.mp split
    exact ⟨place, List.mk_mem_zipIdx_iff_getElem?.mpr here⟩
  refine .second fun _ => .second fun _ => .forM numbered ?_
  exact (needs_buildUnit becomes member).first

section Class

variable {type : TypeId} {definition : Definition} {written : ClassDef}
  (lowered : program.LoweredDefinition context.image.pool limits type definition written)

include lowered

theorem needs_field {field : FieldId} (member : field ∈ definition.fields.toList) :
    Needs (context.declareClass written) (program.fieldMention field).Parses := by
  obtain ⟨entry, listed, here⟩ := forall₂_exists_right lowered.fields member
  exact .second fun _ => (Needs.forM listed (needs_fieldKey here.named).first).first

theorem needs_method {method : MethodId} (member : method ∈ definition.methods.toList) :
    Needs (context.declareClass written) (program.methodMention method).Parses := by
  obtain ⟨entry, listed, here⟩ := forall₂_exists_right lowered.methods member
  exact .second fun _ => .second fun _ => (Needs.mapM listed (needs_methodKey here.named).first).first

/-- The types of a header are read when the class is defined. -/
theorem needs_header {mention : Mention} (member : mention ∈ program.typeMention type ::
      (definition.superclass.toList.map program.typeMention ++
        (definition.interfaces.map program.typeMention ++ definition.source.toList.map .text))) :
    Needs (context.declareClass written) mention.Parses := by
  simp only [List.mem_cons, List.mem_append, List.mem_map, Option.mem_toList] at member
  rcases member with rfl | ⟨superclass, here, rfl⟩ | ⟨interface, listed, rfl⟩ | ⟨text, -, rfl⟩
  · exact (needs_descriptor lowered.named).first.first
  · have related := lowered.superclass
    rw [here] at related
    generalize named : written.superclass = index at related
    cases related with
    | some meant => exact Needs.first (.second fun _ => (Needs.optional named (needs_type meant)).first)
  · obtain ⟨index, here, meant⟩ := forall₂_exists_right lowered.interfaces listed
    exact Needs.first (.second fun _ => .second fun _ => (Needs.mapM here (needs_type meant).first).first)
  · exact needs_nothing rfl

end Class

/-- What a program mentions is read when its image is loaded. -/
theorem parses_of_load {copy : Program}
    (lowered : List.Forall₂ (program.LoweredClass context.image.pool limits) program.defined.toList
      context.image.classes)
    (defined : program.DefinitionsSound) (bodies : program.BodiesSound)
    (loaded : outcome context.load {} = (.ok (), copy)) :
    ∀ mention ∈ program.mentions, mention.Parses := by
  obtain ⟨coded, middle, declared, filled⟩ := outcome_bind_ok.mp loaded
  have codes := codes_of_declared declared
  have announced : ∀ {written mention}, written ∈ context.image.classes →
      Needs (context.declareClass written) (Mention.Parses mention) → mention.Parses :=
    fun listed needs => Needs.mapM listed needs _ _ _ declared
  intro mention member
  obtain ⟨type, listed, member⟩ := List.mem_flatMap.mp member
  obtain ⟨definition, found, member⟩ := List.mem_flatMap.mp member
  obtain ⟨written, inside, _, found', lowered'⟩ := forall₂_exists_right lowered listed
  cases (Option.mem_toList.mp found).symm.trans found'
  rcases List.mem_append.mp member with member | member
  · obtain ⟨field, here, rfl⟩ := List.mem_map.mp member
    exact announced inside (needs_field lowered' here)
  · rcases List.mem_append.mp member with member | member
    · obtain ⟨method, here, member⟩ := List.mem_flatMap.mp member
      rcases List.mem_append.mp member with member | member
      · obtain ⟨body, there, member⟩ := List.mem_flatMap.mp member
        obtain ⟨code, within, becomes⟩ := code_of_body lowered defined bodies (Option.mem_toList.mp there)
        rw [← codes] at within
        obtain ⟨entry, listed, rfl⟩ := List.mem_map.mp within
        exact Needs.forM listed (needs_loadBody becomes member).adapt _ _ _ filled
      · cases List.mem_singleton.mp member
        exact announced inside (needs_method lowered' here)
    · exact announced inside (needs_header lowered' member)

/-- Where all that is mentioned is a descriptor, it is the one that the program means. -/
theorem legible_of_parses (pool : context.image.pool = Pool.ofMentions program.mentions)
    (small : context.image.pool.Small) (parses : ∀ mention ∈ program.mentions, mention.Parses) :
    context.Legible program := by
  intro index descriptor _ found
  rw [pool] at found small
  obtain ⟨mention, listed, member⟩ := List.mem_flatMap.mp (Pool.mentioned_of_type? small found)
  obtain ⟨other, read⟩ := Option.isSome_iff_exists.mp (parses mention listed _ member)
  have parsed := Descriptor.parse_ok.mpr read
  cases Descriptor.text_injective (Descriptor.text_of_parse parsed)
  exact ⟨descriptor.text, pool ▸ found, parsed⟩

end Loading.Context

namespace Program

open Loading.Context

/-- The bytes of a program are refused exactly if they mention a text as a type that is no descriptor. -/
theorem ofBytes_encode_iff {program : Program} {limits : Limits} {bytes : Bytes} (steps : Steps {} program)
    (bounded : program.Bounded) (valid : limits.validate = .ok ())
    (encoded : program.encode limits = .ok bytes) :
    (∃ copy, ofBytes bytes = .ok copy) ↔ ∀ mention ∈ program.mentions, mention.Parses := by
  obtain ⟨image, built, same⟩ := Except.bind_ok.mp encoded
  cases same
  obtain ⟨lowered, verified, encodable⟩ :=
    toImage_ok bounded steps.keysSound steps.definitionsSound steps.codeAdmitted valid built
  obtain ⟨⟨pool, small⟩, -⟩ := toImage_lowered steps.codeAdmitted built
  constructor
  · rintro ⟨copy, loaded⟩
    obtain ⟨-, -, ran⟩ := Edit.addImage_ok.mp ((ofBytes_encode_image encodable).mp loaded)
    exact parses_of_load lowered steps.definitionsSound steps.bodiesSound ran
  · intro parses
    obtain ⟨copy, added, -⟩ := addImage_lowered steps lowered verified (legible_of_parses pool small parses)
    exact ⟨copy, ofBytes_of_addImage encodable added⟩

end Program

namespace Session

/-- What a reachable program is encoded as decodes exactly if every descriptor that the image mentions
is one of the grammar: nothing else that the encoder hands out is refused. -/
theorem Reachable.loads_iff_parses {session : Session} (reached : session.Reachable)
    (bounded : session.program.Bounded) (limits : Limits) (valid : limits.validate = .ok ())
    (bytes : Bytes) (encoded : session.program.encode limits = .ok bytes) :
    (∃ copy, Program.ofBytes bytes = .ok copy) ↔ ∀ mention ∈ session.program.mentions, mention.Parses :=
  ofBytes_encode_iff reached.steps bounded valid encoded

theorem exists_encode {program : Program} (lowers : (program.toImage {}).toOption.isSome) :
    ∃ bytes, program.encode {} = .ok bytes := by
  cases made : program.toImage {} with
  | error fault =>
    rw [made] at lowers
    cases lowers
  | ok image =>
    refine ⟨image.encode, ?_⟩
    rw [Program.encode, made]
    rfl

theorem loads_iff_parses_recursive :
    ∃ bytes, recursive.program.encode {} = .ok bytes ∧ ∃ copy, Program.ofBytes bytes = .ok copy := by
  obtain ⟨bytes, encoded⟩ := @exists_encode recursive.program (by decide +kernel)
  have parses : ∀ mention ∈ recursive.program.mentions, mention.Parses := by decide +kernel
  have loads := recursive_reachable.loads_iff_parses recursive_bounded {} rfl bytes encoded
  exact ⟨bytes, encoded, loads.mpr parses⟩

/-- A class without a name, and nothing else. -/
def nameless : Session := perform {} (.define (.object "") {})

theorem nameless_reachable : nameless.Reachable :=
  .next .start ⟨by simp, by simp⟩

theorem nameless_bounded : nameless.program.Bounded := by
  apply Bounded.of_entries <;> decide +kernel

/-- The encoder hands out a class without a name, and the decoder refuses it. -/
theorem nameless_refused :
    nameless.Reachable ∧ ∃ bytes fault, nameless.program.encode {} = .ok bytes ∧
      Program.ofBytes bytes = .error fault := by
  refine ⟨nameless_reachable, ?_⟩
  obtain ⟨bytes, encoded⟩ := @exists_encode nameless.program (by decide +kernel)
  have loads := ofBytes_encode_iff nameless_reachable.steps nameless_bounded rfl encoded
  have unread : ¬∀ mention ∈ nameless.program.mentions, mention.Parses := by decide +kernel
  cases loaded : Program.ofBytes bytes with
  | ok copy => exact absurd (loads.mp ⟨copy, loaded⟩) unread
  | error fault => exact ⟨bytes, fault, encoded, loaded⟩

end Session

end ClassImage
