import ClassImage.Proofs.Program.Code
import ClassImage.Proofs.Program.Lookups

/-!
The keys of a program identify its symbols. No two handles of one kind have the
same key, types are classes or arrays, fields hold values, and the owner of a
member is a known type.
-/

namespace ClassImage

namespace Program

structure KeysSound (program : Program) : Prop where
  indexed : program.Indexed
  references : ∀ {id descriptor}, program.descriptor? id = some descriptor → descriptor.isReference
  methodOwners : ∀ {id owner name signature},
    program.methodKey? id = some (owner, name, signature) → (program.descriptor? owner).isSome
  fieldOwners : ∀ {id owner name type},
    program.fieldKey? id = some (owner, name, type) → (program.descriptor? owner).isSome
  values : ∀ {id owner name type}, program.fieldKey? id = some (owner, name, type) → ¬type.isVoid

namespace KeysSound

variable {program : Program} (sound : program.KeysSound)

include sound

theorem types {id other : TypeId} {descriptor : Descriptor} (here : program.descriptor? id = some descriptor)
    (there : program.descriptor? other = some descriptor) : id = other :=
  sound.indexed.types.unique here there

theorem methods {id other : MethodId} {key : TypeId × String × Signature}
    (here : program.methodKey? id = some key) (there : program.methodKey? other = some key) : id = other :=
  sound.indexed.methods.unique here there

theorem fields {id other : FieldId} {key : TypeId × String × Descriptor}
    (here : program.fieldKey? id = some key) (there : program.fieldKey? other = some key) : id = other :=
  sound.indexed.fields.unique here there

theorem findType?_eq {id : TypeId} {descriptor : Descriptor}
    (found : program.descriptor? id = some descriptor) : program.findType? descriptor = some id :=
  (sound.indexed.types _ _).mpr found

theorem findMethod?_eq {id : MethodId} {owner : TypeId} {name : String} {signature : Signature}
    (found : program.methodKey? id = some (owner, name, signature)) :
    program.findMethod? owner name signature = some id :=
  (sound.indexed.methods _ _).mpr found

theorem findField?_eq {id : FieldId} {owner : TypeId} {name : String} {type : Descriptor}
    (found : program.fieldKey? id = some (owner, name, type)) :
    program.findField? owner name type = some id :=
  (sound.indexed.fields _ _).mpr found

theorem of_sameKeys {after : Program} (same : program.SameKeys after) : after.KeysSound := by
  have indexed := sound.indexed.of_sameKeys same
  obtain ⟨types, methods, fields, -⟩ := same
  refine ⟨indexed, ?_, ?_, ?_, ?_⟩
  all_goals
    simp only [types, methods, fields]
  · exact sound.references
  · exact sound.methodOwners
  · exact sound.fieldOwners
  · exact sound.values

end KeysSound

/-- An entry of a table that was added to is an earlier one or the last. -/
theorem added_cases {ι κ : Type} {before after : ι → Option κ} {added : ι} {fresh : κ}
    {last : ι → Prop} [DecidablePred last]
    (view : ∀ id, after id = if last id then some fresh else before id)
    (only : ∀ id, last id → id = added) (id : ι) (key : κ) (found : after id = some key) :
    before id = some key ∨ (id = added ∧ key = fresh) := by
  rw [view] at found
  by_cases here : last id
  · rw [if_pos here] at found
    cases found
    exact .inr ⟨only id here, rfl⟩
  · rw [if_neg here] at found
    exact .inl found

theorem KeysSound.growth {before after : Program} (sound : before.KeysSound)
    (growth : Growth before after) : after.KeysSound := by
  have more := growth.extends
  have indexed := growth.indexed sound.indexed
  cases growth with
  | @type descriptor reference fresh =>
    have split := added_cases (descriptor?_addType before descriptor) fun _ last => congrArg TypeId.mk last
    refine { sound with indexed, references := ?_, methodOwners := ?_, fieldOwners := ?_ }
    · intro id key found
      rcases split id key found with found | ⟨-, rfl⟩
      · exact sound.references found
      · exact reference
    · exact fun found => more.knows (sound.methodOwners found)
    · exact fun found => more.knows (sound.fieldOwners found)
  | @method owner name signature marker known fresh =>
    have split := added_cases (methodKey?_addMethod before owner name signature marker) fun _ last =>
      congrArg MethodId.mk last
    refine { sound with indexed, methodOwners := ?_ }
    intro id holder text other found
    rcases split id _ found with found | ⟨-, same⟩
    · exact sound.methodOwners found
    · cases same
      exact known
  | @field owner name type marker known value fresh =>
    have split := added_cases (fieldKey?_addField before owner name type marker) fun _ last =>
      congrArg FieldId.mk last
    refine { sound with indexed, fieldOwners := ?_, values := ?_ }
    · intro id holder text other found
      rcases split id _ found with found | ⟨-, same⟩
      · exact sound.fieldOwners found
      · cases same
        exact known
    · intro id holder text other found
      rcases split id _ found with found | ⟨-, same⟩
      · exact sound.values found
      · cases same
        exact value
  | interface => exact sound.of_sameKeys (sameKeys_setExternal _ _ _)
  | marker => exact sound.of_sameKeys (sameKeys_setMarker _ _ _)
  | slot => exact sound.of_sameKeys (sameKeys_addLocal _)

theorem KeysSound.step {before after : Program} (sound : before.KeysSound) (step : Step before after) :
    after.KeysSound := by
  rcases step.growth_or_sameKeys with growth | same
  · exact sound.growth growth
  · exact sound.of_sameKeys same

theorem Steps.keysSound {program : Program} (steps : Steps {} program) : program.KeysSound := by
  induction steps with
  | refl => exact ⟨.empty, by simp [descriptor?], by simp [methodKey?], by simp [fieldKey?], by simp [fieldKey?]⟩
  | tail _ step ih => exact ih.step step

end Program

end ClassImage
