import ClassImage.Proofs.Copy.Members
import ClassImage.Proofs.Lowering.Exact
import ClassImage.Proofs.Program.Provenance
import ClassImage.Proofs.Types.Grammar

/-!
Programs that come from an image. A text of the pool that was read as a
descriptor is the text of that descriptor, so descriptors are read back; sizes
are bounded by those of the image; bodies end as the code that was verified.
Nothing but a limit keeps such a program from having an image.
-/

namespace ClassImage

namespace Loading.Context

open Program

variable {context : Context}

theorem Reads.readable {index : UInt32} {descriptor : Descriptor} (read : context.Reads index descriptor) :
    Descriptor.parse descriptor.text = .ok descriptor := by
  obtain ⟨text, -, parsed⟩ := read
  rw [Descriptor.text_of_parse parsed, parsed]

section Sizes

variable (fits : context.image.pool.Encodable)

include fits

theorem text_small {index : UInt32} {text : String} (found : context.image.pool.text? index = some text) :
    text.utf8ByteSize < 2 ^ 32 :=
  fits.textSizes text (Array.mem_of_getElem? found)

theorem Reads.small {index : UInt32} {descriptor : Descriptor} (read : context.Reads index descriptor) :
    descriptor.text.utf8ByteSize < 2 ^ 32 := by
  obtain ⟨text, found, parsed⟩ := read
  obtain ⟨place, -, there⟩ := Option.bind_eq_some_iff.mp found
  rw [Descriptor.text_of_parse parsed]
  exact text_small fits there

theorem ReadsMethod.small {index : UInt32} {owner : Descriptor} {name : String} {signature : Signature}
    (read : context.ReadsMethod index owner name signature) :
    name.utf8ByteSize < 2 ^ 32 ∧ signature.parameters.length < 2 ^ 32 ∧
      ∀ type ∈ signature.result :: signature.parameters, type.text.utf8ByteSize < 2 ^ 32 := by
  obtain ⟨method, proto, -, listed, result, parameters, named, -⟩ := read
  refine ⟨text_small fits named, ?_, ?_⟩
  · rw [← parameters.length_eq]
    exact fits.parameters proto (Array.mem_of_getElem? listed)
  · rw [List.forall_mem_cons]
    refine ⟨result.small fits, ?_⟩
    intro type member
    obtain ⟨_, -, read⟩ := forall₂_exists_left parameters member
    exact read.small fits

end Sizes

theorem ReadsMethod.readable {index : UInt32} {owner : Descriptor} {name : String}
    {signature : Signature} (read : context.ReadsMethod index owner name signature) :
    ∀ type ∈ signature.result :: signature.parameters, Descriptor.parse type.text = .ok type := by
  obtain ⟨method, proto, -, -, result, parameters, -⟩ := read
  rw [List.forall_mem_cons]
  refine ⟨result.readable, ?_⟩
  intro type member
  obtain ⟨_, -, read⟩ := forall₂_exists_left parameters member
  exact read.readable

namespace Grounded

variable {program : Program} (grounded : context.Grounded program) (sound : program.KeysSound)

include grounded

theorem of_type {entry : TypeEntry} (member : entry ∈ program.types) :
    ∃ index, context.Reads index entry.descriptor := by
  obtain ⟨place, found⟩ := Array.mem_iff_getElem?.mp member
  have known : program.descriptor? ⟨place⟩ = some entry.descriptor := by
    rw [descriptor?, found, Option.map_some]
  exact grounded.types known

include sound

theorem of_method {entry : MethodEntry} (member : entry ∈ program.methods) :
    ∃ index owner, context.ReadsMethod index owner entry.name entry.signature := by
  obtain ⟨place, found⟩ := Array.mem_iff_getElem?.mp member
  have key : program.methodKey? ⟨place⟩ = some (entry.owner, entry.name, entry.signature) := by
    rw [methodKey?, found, Option.map_some]
  obtain ⟨descriptor, owned⟩ := Option.isSome_iff_exists.mp (sound.methodOwners key)
  obtain ⟨index, read⟩ := grounded.methods key owned
  exact ⟨index, descriptor, read⟩

theorem of_field {entry : FieldEntry} (member : entry ∈ program.fields) :
    ∃ index owner, context.ReadsField index owner entry.name entry.type := by
  obtain ⟨place, found⟩ := Array.mem_iff_getElem?.mp member
  have key : program.fieldKey? ⟨place⟩ = some (entry.owner, entry.name, entry.type) := by
    rw [fieldKey?, found, Option.map_some]
  obtain ⟨descriptor, owned⟩ := Option.isSome_iff_exists.mp (sound.fieldOwners key)
  obtain ⟨index, read⟩ := grounded.fields key owned
  exact ⟨index, descriptor, read⟩

theorem readable : program.Readable := by
  constructor
  · intro entry member
    obtain ⟨index, read⟩ := grounded.of_type member
    exact read.readable
  · intro entry member
    obtain ⟨index, owner, read⟩ := grounded.of_method sound member
    exact read.readable
  · intro entry member
    obtain ⟨index, owner, field, -, read, -⟩ := grounded.of_field sound member
    exact read.readable

theorem bounded (defined : program.DefinitionsSound) (small : context.image.Encodable) :
    program.Bounded := by
  have pool := small.pool
  have types := (grounded.size_types sound).trans_lt pool.types
  have methods := (grounded.size_methods sound).trans_lt pool.methods
  have fields := (grounded.size_fields sound).trans_lt pool.fields
  constructor
  · intro entry member
    obtain ⟨index, read⟩ := grounded.of_type member
    exact read.small pool
  · intro entry member
    obtain ⟨index, owner, read⟩ := grounded.of_method sound member
    exact read.small pool
  · intro entry member
    obtain ⟨index, owner, field, -, read, named, -⟩ := grounded.of_field sound member
    exact ⟨text_small pool named, read.small pool⟩
  · intro type definition found
    have header : program.header? type = some definition.toHeader := by
      rw [header?, found, Option.map_some]
    obtain ⟨⟨written, member, length⟩, source, -⟩ := grounded.headers header
    refine ⟨?_, ?_, ?_, ?_⟩
    · exact length.trans_lt (small.classes written member).interfaces
    · obtain ⟨distinct, listed⟩ := defined.fields found
      refine (length_le_of_nodup (fun _ _ => congrArg FieldId.mk) distinct ?_).trans_lt fields
      intro field member
      obtain ⟨access, declared⟩ := (listed field).mp (Array.mem_toList_iff.mp member)
      exact fieldKey?_isSome.mp (knowsField_of_declared declared)
    · obtain ⟨distinct, listed⟩ := defined.methods found
      refine (length_le_of_nodup (fun _ _ => congrArg MethodId.mk) distinct ?_).trans_lt methods
      intro method member
      obtain ⟨access, declared⟩ := (listed method).mp (Array.mem_toList_iff.mp member)
      exact methodKey?_isSome.mp (knowsMethod_of_declared declared)
    · intro text here
      obtain ⟨index, there⟩ := source text here
      exact text_small pool there
  · refine (length_le_of_nodup (fun _ _ => congrArg TypeId.mk) defined.distinct ?_).trans_lt types
    intro type member
    obtain ⟨definition, found⟩ := Option.isSome_iff_exists.mp
      ((defined.defined type).mp (Array.mem_toList_iff.mp member))
    obtain ⟨name, known⟩ := defined.objects found
    exact descriptor?_isSome.mp (by rw [known]; rfl)
  · intro id target text attached
    obtain ⟨index, found⟩ := grounded.constants attached
    exact text_small pool found

end Grounded

section Closed

variable {before after : Program}

/-- A body that was loaded ends with what its last unit was made into. -/
theorem Fills.closed {method : MethodId} {code : CodeItem} {pool : Pool}
    (fills : context.Fills method code before after) (verified : code.Verified pool)
    (sound : before.BodiesSound) (closed : before.Closed) : after.Closed := by
  obtain ⟨held, frame, parameters, units, -, -, filled⟩ := fills
  intro other body here
  by_cases same : other = method
  · subst same
    obtain ⟨locals, opened⟩ := filled.body
    cases here.symm.trans opened
    by_cases empty : code.instructions = #[]
    · have none : frame.units = [] := by
        rw [units, empty]
        rfl
      intro last ends
      rw [none] at ends
      cases ends
    · obtain ⟨front, raw, terminates, ends⟩ := CodeUnit.split_ends verified empty
      rw [← units] at ends
      have length : frame.units.length = front.length + 1 := by
        rw [ends, List.length_append, List.length_singleton]
      obtain ⟨instruction, attached, makes⟩ := filled.made front.length (by omega)
        (code.instructions.size - 1, .single raw) (by rw [ends, List.getElem?_concat_length])
      have found : after.instruction? ⟨frame.firstUnit.index + front.length⟩ = some instruction := by
        rw [filled.first, instruction?, attached, Option.map_some]
      intro last there
      rw [instructionsOf, length, handlesFrom_succ, List.filterMap_append,
        List.filterMap_cons_some found, List.filterMap_nil, List.getLast?_concat] at there
      cases there
      exact makes.means.closing terminates
  · rw [filled.others other same] at here
    have kept : after.instructionsOf body = before.instructionsOf body := by
      apply List.filterMap_congr
      intro id member
      obtain ⟨slot, attached, -⟩ := sound.slot_of_listed here (Array.mem_toList_iff.mp member)
      rw [instruction?, filled.slots id (.inl (slot?_lt attached)), instruction?]
    rw [Closes, kept]
    exact closed other body here

theorem Bodies.closed {coded : List (MethodId × CodeItem)} {pool : Pool}
    (bodies : context.Bodies coded before after) (verified : ∀ entry ∈ coded, entry.2.Verified pool)
    (steps : Steps {} before) (closed : before.Closed) : after.Closed := by
  induction bodies with
  | nil => exact closed
  | cons fills moved _ ih =>
    rw [List.forall_mem_cons] at verified
    have sound := steps.bodiesSound
    exact ih verified.2 (steps.trans (Loads.steps moved)) (fills.closed verified.1 sound closed)

end Closed

variable {program : Program} (loaded : context.Loaded {} program)

include loaded

theorem Loaded.steps : Steps {} program := Loads.steps loaded.moved

theorem Loaded.closed (verified : context.image.verify = .ok ()) : program.Closed := by
  obtain ⟨coded, middle, declared, -, -, codes, bodies⟩ := loaded
  have steps : Steps {} middle := Loads.steps (Declares.all_loads declared)
  have accepted : ∀ entry ∈ coded, entry.2.Verified context.image.pool := by
    intro entry member
    exact Image.verified_codes verified (codes ▸ List.mem_map_of_mem member)
  refine bodies.closed accepted steps ?_
  -- No code has become a body so far.
  intro method body here last ends
  obtain ⟨id, -, attached⟩ := List.mem_filterMap.mp (List.mem_of_getLast? ends)
  rw [instruction?, slot?, (Declares.all_kept declared).1] at attached
  cases attached

end Loading.Context

/-- An image that is added by itself has been verified and loaded. -/
theorem Edit.loaded_of_addImage {image : Image} {program : Program}
    (added : addImage image {} = (.ok (), program)) :
    image.verify = .ok () ∧ (Loading.Context.mk image {}).Loaded {} program := by
  obtain ⟨verified, -, loaded⟩ := addImage_ok.mp added
  have sound : ({} : Program).LocalsSound [] := Session.Reachable.start.sound.locals
  have reached := @Loading.Context.reaches_load ⟨image, {}⟩ {} [] (Image.verify_ok.mp verified).2 sound
  exact ⟨verified, (reached.ran .empty loaded).2.2⟩

end ClassImage
