import ClassImage.Proofs.Program.Step

/-!
The lookups of a program are the inverses of its tables. An entry joins its
table and its lookup at once, and only when the lookup does not find its key; no
other step touches a key or a lookup. So whatever has been done to a program, a
lookup finds every key at its place, and it finds nothing else.
-/

namespace ClassImage

namespace Lookup

variable {κ ι : Type} [DecidableEq κ] {lookup : Lookup κ ι} {key? : ι → Option κ}

/-- The map finds the place of every key, and nothing else. -/
def Inverts (lookup : Lookup κ ι) (key? : ι → Option κ) : Prop :=
  ∀ key place, lookup.find? key = some place ↔ key? place = some key

namespace Inverts

variable (inverts : lookup.Inverts key?)

include inverts

theorem unique {key : κ} {place other : ι} (here : key? place = some key)
    (there : key? other = some key) : place = other :=
  Option.some.inj (((inverts key place).mpr here).symm.trans ((inverts key other).mpr there))

theorem absent {key : κ} (missing : lookup.find? key = none) (place : ι) : key? place ≠ some key := by
  intro here
  rw [(inverts key place).mpr here] at missing
  cases missing

/-- A new place is given to a key that has none. -/
theorem insert {grown? : ι → Option κ} {added : ι} {fresh : κ} (missing : lookup.find? fresh = none)
    (new : key? added = none) (here : grown? added = some fresh)
    (elsewhere : ∀ place, place ≠ added → grown? place = key? place) :
    (lookup.insert fresh added).Inverts grown? := by
  intro key place
  rw [find?_insert]
  by_cases same : place = added
  · subst same
    rw [here]
    by_cases found : key = fresh
    · simp [found]
    · have apart : key? place ≠ some key := by simp [new]
      simpa [found, Ne.symm found] using mt (inverts key place).mp apart
  · rw [elsewhere place same]
    by_cases found : key = fresh
    · subst found
      simpa [Ne.symm same] using inverts.absent missing place
    · rw [if_neg found]
      exact inverts key place

end Inverts

end Lookup

namespace Program

/-- Every lookup is the inverse of its table. -/
structure Indexed (program : Program) : Prop where
  types : program.typeLookup.Inverts program.descriptor?
  methods : program.methodLookup.Inverts program.methodKey?
  fields : program.fieldLookup.Inverts program.fieldKey?

namespace Indexed

variable {program : Program}

theorem empty : ({} : Program).Indexed := by
  constructor <;> intro key place <;> simp [descriptor?, methodKey?, fieldKey?]

theorem of_sameKeys {after : Program} (indexed : program.Indexed) (same : program.SameKeys after) :
    after.Indexed := by
  obtain ⟨types, methods, fields, lookups⟩ := same
  simp only [Program.lookups, Prod.mk.injEq] at lookups
  obtain ⟨typeLookup, methodLookup, fieldLookup⟩ := lookups
  constructor
  · rw [types, typeLookup]
    exact indexed.types
  · rw [methods, methodLookup]
    exact indexed.methods
  · rw [fields, fieldLookup]
    exact indexed.fields

theorem addType (indexed : program.Indexed) {descriptor : Descriptor}
    (missing : program.findType? descriptor = none) : (program.addType descriptor).Indexed := by
  refine { indexed with types := indexed.types.insert missing ?_ ?_ ?_ }
  · exact Option.not_isSome_iff_eq_none.mp (mt descriptor?_isSome.mp (lt_irrefl _))
  · rw [descriptor?_addType, if_pos rfl]
  · intro id apart
    rw [descriptor?_addType, if_neg fun last => apart (congrArg TypeId.mk last)]

theorem addMethod (indexed : program.Indexed) {owner : TypeId} {name : String} {signature : Signature}
    {marker : Marker} (missing : program.findMethod? owner name signature = none) :
    (program.addMethod owner name signature marker).Indexed := by
  refine { indexed with methods := indexed.methods.insert missing ?_ ?_ ?_ }
  · exact Option.not_isSome_iff_eq_none.mp (mt methodKey?_isSome.mp (lt_irrefl _))
  · rw [methodKey?_addMethod, if_pos rfl]
  · intro id apart
    rw [methodKey?_addMethod, if_neg fun last => apart (congrArg MethodId.mk last)]

theorem addField (indexed : program.Indexed) {owner : TypeId} {name : String} {type : Descriptor}
    {marker : Marker} (missing : program.findField? owner name type = none) :
    (program.addField owner name type marker).Indexed := by
  refine { indexed with fields := indexed.fields.insert missing ?_ ?_ ?_ }
  · exact Option.not_isSome_iff_eq_none.mp (mt fieldKey?_isSome.mp (lt_irrefl _))
  · rw [fieldKey?_addField, if_pos rfl]
  · intro id apart
    rw [fieldKey?_addField, if_neg fun last => apart (congrArg FieldId.mk last)]

end Indexed

/-- Handles stay good for their keys, and lookups stay the inverses of their tables. -/
structure Preserves (before after : Program) : Prop where
  more : before.Extends after
  indexed : before.Indexed → after.Indexed

variable {before after : Program}

theorem SameKeys.preserves (same : before.SameKeys after) : before.Preserves after :=
  ⟨same.extends, fun indexed => indexed.of_sameKeys same⟩

theorem Growth.indexed (growth : Growth before after) (indexed : before.Indexed) : after.Indexed := by
  cases growth with
  | type _ fresh => exact indexed.addType fresh
  | interface => exact indexed.of_sameKeys (sameKeys_setExternal _ _ _)
  | method _ fresh => exact indexed.addMethod fresh
  | field _ _ fresh => exact indexed.addField fresh
  | marker => exact indexed.of_sameKeys (sameKeys_setMarker _ _ _)
  | slot => exact indexed.of_sameKeys (sameKeys_addLocal _)

theorem Step.indexed (step : Step before after) (indexed : before.Indexed) : after.Indexed := by
  rcases step.growth_or_sameKeys with growth | same
  · exact growth.indexed indexed
  · exact indexed.of_sameKeys same

theorem Steps.indexed (steps : Steps before after) (indexed : before.Indexed) : after.Indexed := by
  induction steps with
  | refl => exact indexed
  | tail _ step ih => exact step.indexed ih

end Program

end ClassImage
