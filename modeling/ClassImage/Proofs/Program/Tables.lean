import ClassImage.Program.Edit
import ClassImage.Proofs.Lists

/-!
The tables of a program under its changes. A handle that the program has issued
keeps the key of its entry for ever: the descriptor of a type, and the owner,
the name and the signature or the type of a member. Everything else of an entry
is read through the handle, and each change says which entries it touches.
-/

namespace ClassImage

namespace Program

def descriptor? (program : Program) (id : TypeId) : Option Descriptor :=
  program.types[id.index]?.map TypeEntry.descriptor

def methodKey? (program : Program) (id : MethodId) : Option (TypeId × String × Signature) :=
  program.methods[id.index]?.map fun entry => (entry.owner, entry.name, entry.signature)

def fieldKey? (program : Program) (id : FieldId) : Option (TypeId × String × Descriptor) :=
  program.fields[id.index]?.map fun entry => (entry.owner, entry.name, entry.type)

/-- Every handle of the first program is good in the second, for the same key. -/
structure Extends (before after : Program) : Prop where
  types : ∀ {id descriptor}, before.descriptor? id = some descriptor →
    after.descriptor? id = some descriptor
  methods : ∀ {id key}, before.methodKey? id = some key → after.methodKey? id = some key
  fields : ∀ {id key}, before.fieldKey? id = some key → after.fieldKey? id = some key

theorem Extends.refl (program : Program) : program.Extends program := ⟨id, id, id⟩

theorem Extends.trans {first second third : Program} (left : first.Extends second)
    (right : second.Extends third) : first.Extends third :=
  ⟨right.types ∘ left.types, right.methods ∘ left.methods, right.fields ∘ left.fields⟩

/-- The three lookups of a program. -/
def lookups (program : Program) :=
  (program.typeLookup, program.methodLookup, program.fieldLookup)

/-- Both programs have the same handles, for the same keys, and find them alike. -/
structure SameKeys (before after : Program) : Prop where
  types : after.descriptor? = before.descriptor?
  methods : after.methodKey? = before.methodKey?
  fields : after.fieldKey? = before.fieldKey?
  lookups : after.lookups = before.lookups

theorem SameKeys.trans {first second third : Program} (left : first.SameKeys second)
    (right : second.SameKeys third) : first.SameKeys third :=
  ⟨right.types.trans left.types, right.methods.trans left.methods, right.fields.trans left.fields,
    right.lookups.trans left.lookups⟩

theorem SameKeys.extends {before after : Program} (same : before.SameKeys after) :
    before.Extends after := by
  constructor
  · intro id descriptor found
    rw [same.types, found]
  · intro id key found
    rw [same.methods, found]
  · intro id key found
    rw [same.fields, found]

section Keys

variable {program : Program}

theorem descriptor?_typeAt {id : TypeId} {descriptor : Descriptor}
    (found : program.descriptor? id = some descriptor) : (program.typeAt id).descriptor = descriptor := by
  obtain ⟨entry, here, rfl⟩ := Option.map_eq_some_iff.mp found
  rw [typeAt, Array.getD_eq_getD_getElem?, here, Option.getD_some]

theorem methodKey?_methodAt {id : MethodId} {owner : TypeId} {name : String} {signature : Signature}
    (found : program.methodKey? id = some (owner, name, signature)) :
    (program.methodAt id).owner = owner ∧ (program.methodAt id).name = name ∧
      (program.methodAt id).signature = signature := by
  obtain ⟨entry, here, same⟩ := Option.map_eq_some_iff.mp found
  cases same
  rw [methodAt, Array.getD_eq_getD_getElem?, here, Option.getD_some]
  exact ⟨rfl, rfl, rfl⟩

theorem fieldKey?_fieldAt {id : FieldId} {owner : TypeId} {name : String} {type : Descriptor}
    (found : program.fieldKey? id = some (owner, name, type)) :
    (program.fieldAt id).owner = owner ∧ (program.fieldAt id).name = name ∧
      (program.fieldAt id).type = type := by
  obtain ⟨entry, here, same⟩ := Option.map_eq_some_iff.mp found
  cases same
  rw [fieldAt, Array.getD_eq_getD_getElem?, here, Option.getD_some]
  exact ⟨rfl, rfl, rfl⟩

theorem descriptor?_isSome {id : TypeId} :
    (program.descriptor? id).isSome ↔ id.index < program.types.size := by
  simp [descriptor?]

theorem methodKey?_isSome {id : MethodId} :
    (program.methodKey? id).isSome ↔ id.index < program.methods.size := by
  simp [methodKey?]

theorem fieldKey?_isSome {id : FieldId} :
    (program.fieldKey? id).isSome ↔ id.index < program.fields.size := by
  simp [fieldKey?]

end Keys

end Program

end ClassImage
