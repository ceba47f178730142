import ClassImage.Proofs.Program.Bodies
import ClassImage.Proofs.Program.Markers

/-!
Symbols of one program in a copy of it. A copy has handles of its own, so a
symbol is found again by what names it: a descriptor, or the owner's descriptor
with a name and a signature or a type. While a copy is made, it follows the
original: what it knows about the marker of a member is what the original knows.
-/

namespace ClassImage

/-- What names a symbol in every program. -/
inductive SymbolKey where
  | type (descriptor : Descriptor)
  | method (owner : Descriptor) (name : String) (signature : Signature)
  | field (owner : Descriptor) (name : String) (type : Descriptor)
deriving DecidableEq

namespace Program

/-- The key of a symbol that the program knows. -/
def key? (program : Program) : Symbol → Option SymbolKey
  | .type id => (program.descriptor? id).map .type
  | .method id =>
    (program.methodKey? id).bind fun (owner, name, signature) =>
      (program.descriptor? owner).map fun owner => .method owner name signature
  | .field id =>
    (program.fieldKey? id).bind fun (owner, name, type) =>
      (program.descriptor? owner).map fun owner => .field owner name type

/-- The symbol with a key. -/
def find? (program : Program) : SymbolKey → Option Symbol
  | .type descriptor => (program.findType? descriptor).map .type
  | .method owner name signature =>
    (program.findType? owner).bind fun owner =>
      (program.findMethod? owner name signature).map .method
  | .field owner name type =>
    (program.findType? owner).bind fun owner => (program.findField? owner name type).map .field

/-- The number of uses of one kind that a symbol has; none if the program does not know it. -/
def useCount (program : Program) (key : SymbolKey) (kind : UseKind) : Nat :=
  match program.find? key with
  | none => 0
  | some symbol => (program.useList symbol).countP fun use => use.kind = kind

/-- The uses of the symbol with a key; none if the program does not know it. -/
def usesOf (program : Program) (key : SymbolKey) : List Use :=
  match program.find? key with
  | none => []
  | some symbol => program.useList symbol

section Keys

variable {program : Program} {key : SymbolKey}

theorem key?_type {id : TypeId} :
    program.key? (.type id) = some key ↔
      ∃ descriptor, program.descriptor? id = some descriptor ∧ key = .type descriptor := by
  rw [key?, Option.map_eq_some_iff]
  simp only [eq_comm]

theorem key?_method {id : MethodId} :
    program.key? (.method id) = some key ↔
      ∃ owner name signature descriptor, program.methodKey? id = some (owner, name, signature) ∧
        program.descriptor? owner = some descriptor ∧ key = .method descriptor name signature := by
  rw [key?, Option.bind_eq_some_iff]
  constructor
  · rintro ⟨⟨owner, name, signature⟩, found, named⟩
    obtain ⟨descriptor, owned, rfl⟩ := Option.map_eq_some_iff.mp named
    exact ⟨owner, name, signature, descriptor, found, owned, rfl⟩
  · rintro ⟨owner, name, signature, descriptor, found, owned, rfl⟩
    exact ⟨_, found, Option.map_eq_some_iff.mpr ⟨descriptor, owned, rfl⟩⟩

theorem key?_field {id : FieldId} :
    program.key? (.field id) = some key ↔
      ∃ owner name type descriptor, program.fieldKey? id = some (owner, name, type) ∧
        program.descriptor? owner = some descriptor ∧ key = .field descriptor name type := by
  rw [key?, Option.bind_eq_some_iff]
  constructor
  · rintro ⟨⟨owner, name, type⟩, found, named⟩
    obtain ⟨descriptor, owned, rfl⟩ := Option.map_eq_some_iff.mp named
    exact ⟨owner, name, type, descriptor, found, owned, rfl⟩
  · rintro ⟨owner, name, type, descriptor, found, owned, rfl⟩
    exact ⟨_, found, Option.map_eq_some_iff.mpr ⟨descriptor, owned, rfl⟩⟩

theorem Extends.key? {before after : Program} (more : before.Extends after) {symbol : Symbol}
    (found : before.key? symbol = some key) : after.key? symbol = some key := by
  cases symbol with
  | type id =>
    obtain ⟨descriptor, named, rfl⟩ := key?_type.mp found
    exact key?_type.mpr ⟨descriptor, more.types named, rfl⟩
  | method id =>
    obtain ⟨owner, name, signature, descriptor, named, owned, rfl⟩ := key?_method.mp found
    exact key?_method.mpr ⟨owner, name, signature, descriptor, more.methods named, more.types owned, rfl⟩
  | field id =>
    obtain ⟨owner, name, type, descriptor, named, owned, rfl⟩ := key?_field.mp found
    exact key?_field.mpr ⟨owner, name, type, descriptor, more.fields named, more.types owned, rfl⟩

/-- A symbol had its key before if it had one. -/
theorem Extends.key?_back {before after : Program} (more : before.Extends after) {symbol : Symbol}
    (known : (before.key? symbol).isSome) (found : after.key? symbol = some key) :
    before.key? symbol = some key := by
  obtain ⟨earlier, named⟩ := Option.isSome_iff_exists.mp known
  rw [named, ← found, more.key? named]

theorem KeysSound.key?_isSome_method (sound : program.KeysSound) {id : MethodId}
    (known : (program.methodKey? id).isSome) : (program.key? (.method id)).isSome := by
  obtain ⟨⟨owner, name, signature⟩, found⟩ := Option.isSome_iff_exists.mp known
  rw [Program.key?, found, Option.bind_some, Option.isSome_map, sound.methodOwners found]

theorem KeysSound.key?_isSome_field (sound : program.KeysSound) {id : FieldId}
    (known : (program.fieldKey? id).isSome) : (program.key? (.field id)).isSome := by
  obtain ⟨⟨owner, name, type⟩, found⟩ := Option.isSome_iff_exists.mp known
  rw [Program.key?, found, Option.bind_some, Option.isSome_map, sound.fieldOwners found]

/-- A key names one symbol. -/
theorem KeysSound.key?_inj (sound : program.KeysSound) {symbol other : Symbol}
    (left : program.key? symbol = some key) (right : program.key? other = some key) :
    symbol = other := by
  cases key with
  | type descriptor =>
    cases symbol <;> cases other <;>
      simp only [key?_type, key?_method, key?_field, reduceCtorEq, and_false, exists_false,
        SymbolKey.type.injEq] at left right
    obtain ⟨_, left, rfl⟩ := left
    obtain ⟨_, right, rfl⟩ := right
    rw [sound.types left right]
  | method owner name signature =>
    cases symbol <;> cases other <;>
      simp only [key?_type, key?_method, key?_field, reduceCtorEq, and_false, exists_false,
        SymbolKey.method.injEq] at left right
    obtain ⟨first, _, _, _, left, owned, rfl, rfl, rfl⟩ := left
    obtain ⟨second, _, _, _, right, same, rfl, rfl, rfl⟩ := right
    cases sound.types owned same
    rw [sound.methods left right]
  | field owner name type =>
    cases symbol <;> cases other <;>
      simp only [key?_type, key?_method, key?_field, reduceCtorEq, and_false, exists_false,
        SymbolKey.field.injEq] at left right
    obtain ⟨first, _, _, _, left, owned, rfl, rfl, rfl⟩ := left
    obtain ⟨second, _, _, _, right, same, rfl, rfl, rfl⟩ := right
    cases sound.types owned same
    rw [sound.fields left right]

theorem Indexed.key?_of_find? (indexed : program.Indexed) {symbol : Symbol}
    (found : program.find? key = some symbol) : program.key? symbol = some key := by
  have typed : ∀ {descriptor id}, program.findType? descriptor = some id →
      program.descriptor? id = some descriptor :=
    fun here => (indexed.types _ _).mp here
  cases key with
  | type descriptor =>
    obtain ⟨id, here, rfl⟩ := Option.map_eq_some_iff.mp found
    exact key?_type.mpr ⟨descriptor, typed here, rfl⟩
  | method owner name signature =>
    obtain ⟨holder, owned, inner⟩ := Option.bind_eq_some_iff.mp found
    obtain ⟨id, here, rfl⟩ := Option.map_eq_some_iff.mp inner
    exact key?_method.mpr ⟨holder, name, signature, owner, (indexed.methods _ _).mp here, typed owned, rfl⟩
  | field owner name type =>
    obtain ⟨holder, owned, inner⟩ := Option.bind_eq_some_iff.mp found
    obtain ⟨id, here, rfl⟩ := Option.map_eq_some_iff.mp inner
    exact key?_field.mpr ⟨holder, name, type, owner, (indexed.fields _ _).mp here, typed owned, rfl⟩

theorem KeysSound.find?_eq (sound : program.KeysSound) {symbol : Symbol}
    (named : program.key? symbol = some key) : program.find? key = some symbol := by
  cases symbol with
  | type id =>
    obtain ⟨descriptor, found, rfl⟩ := key?_type.mp named
    rw [find?, sound.findType?_eq found, Option.map_some]
  | method id =>
    obtain ⟨owner, name, signature, descriptor, found, owned, rfl⟩ := key?_method.mp named
    rw [find?, sound.findType?_eq owned, Option.bind_some, sound.findMethod?_eq found, Option.map_some]
  | field id =>
    obtain ⟨owner, name, type, descriptor, found, owned, rfl⟩ := key?_field.mp named
    rw [find?, sound.findType?_eq owned, Option.bind_some, sound.findField?_eq found, Option.map_some]

end Keys

/-- A symbol of a program and a symbol of a copy have the same key. -/
def Same (program copy : Program) (symbol other : Symbol) : Prop :=
  ∃ key, program.key? symbol = some key ∧ copy.key? other = some key

section Same

variable {program copy : Program}

theorem Same.extends {later : Program} {symbol other : Symbol} (same : program.Same copy symbol other)
    (more : copy.Extends later) : program.Same later symbol other := by
  obtain ⟨key, named, found⟩ := same
  exact ⟨key, named, more.key? found⟩

theorem Same.source_eq (sound : program.KeysSound) {first second other : Symbol}
    (left : program.Same copy first other) (right : program.Same copy second other) :
    first = second := by
  obtain ⟨key, named, found⟩ := left
  obtain ⟨key', named', found'⟩ := right
  cases found.symm.trans found'
  exact sound.key?_inj named named'

theorem Same.copy_eq (sound : copy.KeysSound) {symbol first second : Symbol}
    (left : program.Same copy symbol first) (right : program.Same copy symbol second) :
    first = second := by
  obtain ⟨key, named, found⟩ := left
  obtain ⟨key', named', found'⟩ := right
  cases named.symm.trans named'
  exact sound.key?_inj found found'

theorem same_type {type other : TypeId} :
    program.Same copy (.type type) (.type other) ↔
      ∃ descriptor, program.descriptor? type = some descriptor ∧
        copy.descriptor? other = some descriptor := by
  simp only [Same, key?_type]
  constructor
  · rintro ⟨_, ⟨descriptor, named, rfl⟩, _, found, same⟩
    cases same
    exact ⟨descriptor, named, found⟩
  · rintro ⟨descriptor, named, found⟩
    exact ⟨_, ⟨descriptor, named, rfl⟩, descriptor, found, rfl⟩

theorem Same.known {type other : TypeId} (same : program.Same copy (.type type) (.type other)) :
    (copy.descriptor? other).isSome := by
  obtain ⟨descriptor, -, found⟩ := same_type.mp same
  rw [found]
  rfl

theorem same_method {method other : MethodId} :
    program.Same copy (.method method) (.method other) ↔
      ∃ owner holder name signature, program.methodKey? method = some (owner, name, signature) ∧
        copy.methodKey? other = some (holder, name, signature) ∧
        program.Same copy (.type owner) (.type holder) := by
  simp only [same_type]
  simp only [Same, key?_method]
  constructor
  · rintro ⟨_, ⟨owner, name, signature, descriptor, named, owned, rfl⟩, holder, _, _, _, found, held, same⟩
    cases same
    exact ⟨owner, holder, name, signature, named, found, descriptor, owned, held⟩
  · rintro ⟨owner, holder, name, signature, named, found, descriptor, owned, held⟩
    exact ⟨_, ⟨owner, name, signature, descriptor, named, owned, rfl⟩, holder, name, signature,
      descriptor, found, held, rfl⟩

theorem same_field {field other : FieldId} :
    program.Same copy (.field field) (.field other) ↔
      ∃ owner holder name type, program.fieldKey? field = some (owner, name, type) ∧
        copy.fieldKey? other = some (holder, name, type) ∧
        program.Same copy (.type owner) (.type holder) := by
  simp only [same_type]
  simp only [Same, key?_field]
  constructor
  · rintro ⟨_, ⟨owner, name, type, descriptor, named, owned, rfl⟩, holder, _, _, _, found, held, same⟩
    cases same
    exact ⟨owner, holder, name, type, named, found, descriptor, owned, held⟩
  · rintro ⟨owner, holder, name, type, named, found, descriptor, owned, held⟩
    exact ⟨_, ⟨owner, name, type, descriptor, named, owned, rfl⟩, holder, name, type, descriptor, found,
      held, rfl⟩

end Same

/-- The copy is in order, and its members have the markers of the original. -/
structure Follows (program copy : Program) : Prop where
  orderly : copy.Orderly
  markers : ∀ {symbol other}, program.Same copy symbol other →
    copy.marker other = program.marker symbol

section Follows

variable {program copy later : Program} (follows : program.Follows copy)

include follows

theorem Follows.keysSound : copy.KeysSound := follows.orderly.keys

/-- A symbol is the same before if its key was there before. -/
theorem Follows.of_keys (steps : Steps copy later)
    (each : ∀ {symbol other key}, program.key? symbol = some key → later.key? other = some key →
      copy.key? other = some key ∧ later.marker other = copy.marker other ∨
        later.marker other = program.marker symbol) : program.Follows later := by
  refine ⟨follows.orderly.steps steps, ?_⟩
  rintro symbol other ⟨key, named, found⟩
  rcases each named found with ⟨earlier, kept⟩ | marked
  · rw [kept]
    exact follows.markers ⟨key, named, earlier⟩
  · exact marked

theorem Follows.key?_method_back (steps : Steps copy later) {method : MethodId}
    (same : later.methodKey? method = copy.methodKey? method) {key : SymbolKey}
    (found : later.key? (.method method) = some key) : copy.key? (.method method) = some key := by
  obtain ⟨_, _, _, _, named, -⟩ := key?_method.mp found
  rw [same] at named
  exact steps.extends.key?_back (follows.keysSound.key?_isSome_method (by rw [named]; rfl)) found

theorem Follows.key?_field_back (steps : Steps copy later) {field : FieldId}
    (same : later.fieldKey? field = copy.fieldKey? field) {key : SymbolKey}
    (found : later.key? (.field field) = some key) : copy.key? (.field field) = some key := by
  obtain ⟨_, _, _, _, named, -⟩ := key?_field.mp found
  rw [same] at named
  exact steps.extends.key?_back (follows.keysSound.key?_isSome_field (by rw [named]; rfl)) found

omit follows in
theorem marker_of_key?_type {symbol : Symbol} {descriptor : Descriptor}
    (found : program.key? symbol = some (.type descriptor)) : program.marker symbol = none := by
  cases symbol with
  | type => rfl
  | method =>
    obtain ⟨_, _, _, _, _, _, same⟩ := key?_method.mp found
    cases same
  | field =>
    obtain ⟨_, _, _, _, _, _, same⟩ := key?_field.mp found
    cases same

/-- A step that leaves members alone. -/
theorem Follows.of_members (steps : Steps copy later) (methods : later.methodKey? = copy.methodKey?)
    (fields : later.fieldKey? = copy.fieldKey?) (markers : later.marker = copy.marker) :
    program.Follows later := by
  apply follows.of_keys steps
  intro symbol other key named found
  cases other with
  | type =>
    obtain ⟨descriptor, -, rfl⟩ := key?_type.mp found
    exact .inr (marker_of_key?_type named).symm
  | method =>
    exact .inl ⟨follows.key?_method_back steps (congrFun methods _) found, congrFun markers _⟩
  | field =>
    exact .inl ⟨follows.key?_field_back steps (congrFun fields _) found, congrFun markers _⟩

theorem Follows.addMethod (sound : program.KeysSound) {method : MethodId} {owner holder : TypeId}
    {name : String} {signature : Signature} {static : Bool}
    (named : program.methodKey? method = some (owner, name, signature))
    (marked : program.marker (.method method) = some static)
    (owned : program.Same copy (.type owner) (.type holder))
    (fresh : copy.findMethod? holder name signature = none) :
    program.Follows (copy.addMethod holder name signature (some static)) := by
  obtain ⟨descriptor, original, held⟩ := same_type.mp owned
  have steps : Steps copy (copy.addMethod holder name signature (some static)) :=
    .single (.grow (.method (by rw [held]; rfl) fresh))
  apply follows.of_keys steps
  intro symbol other key here found
  cases other with
  | type =>
    obtain ⟨descriptor, -, rfl⟩ := key?_type.mp found
    exact .inr (marker_of_key?_type here).symm
  | method id =>
    by_cases last : id.index = copy.methods.size
    · have added : (copy.addMethod holder name signature (some static)).methodKey? id =
          some (holder, name, signature) := by rw [methodKey?_addMethod, if_pos last]
      have same : symbol = .method method := by
        refine Same.source_eq sound ⟨key, here, found⟩ (same_method.mpr ?_)
        exact ⟨owner, holder, name, signature, named, added, owned.extends steps.extends⟩
      right
      rw [same, marked, Program.marker, methodAt, Program.addMethod, Array.getD_push, if_pos last]
    · left
      constructor
      · refine follows.key?_method_back steps ?_ found
        rw [methodKey?_addMethod, if_neg last]
      · simp only [Program.marker, methodAt, Program.addMethod, Array.getD_push, if_neg last]
  | field => exact .inl ⟨follows.key?_field_back steps rfl found, rfl⟩

theorem Follows.addField (sound : program.KeysSound) {field : FieldId} {owner holder : TypeId}
    {name : String} {type : Descriptor} {static : Bool}
    (named : program.fieldKey? field = some (owner, name, type))
    (marked : program.marker (.field field) = some static)
    (owned : program.Same copy (.type owner) (.type holder))
    (fresh : copy.findField? holder name type = none) :
    program.Follows (copy.addField holder name type (some static)) := by
  obtain ⟨descriptor, original, held⟩ := same_type.mp owned
  have steps : Steps copy (copy.addField holder name type (some static)) :=
    .single (.grow (.field (by rw [held]; rfl) (sound.values named) fresh))
  apply follows.of_keys steps
  intro symbol other key here found
  cases other with
  | type =>
    obtain ⟨descriptor, -, rfl⟩ := key?_type.mp found
    exact .inr (marker_of_key?_type here).symm
  | method => exact .inl ⟨follows.key?_method_back steps rfl found, rfl⟩
  | field id =>
    by_cases last : id.index = copy.fields.size
    · have added : (copy.addField holder name type (some static)).fieldKey? id =
          some (holder, name, type) := by rw [fieldKey?_addField, if_pos last]
      have same : symbol = .field field := by
        refine Same.source_eq sound ⟨key, here, found⟩ (same_field.mpr ?_)
        exact ⟨owner, holder, name, type, named, added, owned.extends steps.extends⟩
      right
      rw [same, marked, Program.marker, fieldAt, Program.addField, Array.getD_push, if_pos last]
    · left
      constructor
      · refine follows.key?_field_back steps ?_ found
        rw [fieldKey?_addField, if_neg last]
      · simp only [Program.marker, fieldAt, Program.addField, Array.getD_push, if_neg last]

end Follows

end Program

end ClassImage
