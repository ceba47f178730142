import ClassImage.Proofs.Copy.Declarations
import ClassImage.Proofs.Copy.Units
import ClassImage.Proofs.Merge.Repeats

/-!
One image in two programs. The first run succeeds and leads to a final program;
the second run starts from a program that follows the final one. What the pool
names is then found or created in both runs, and what the first run finds lasts
until its end, so the second run finds the same symbols.
-/

namespace ClassImage

/-- Two places that are as far from the starts of two counts. -/
def Level (first second here there : Nat) : Prop := ∃ count, here = first + count ∧ there = second + count

theorem Level.trans {first second here there last again : Nat} (left : Level first second here there)
    (right : Level here there last again) : Level first second last again := by
  obtain ⟨count, rfl, rfl⟩ := left
  obtain ⟨more, rfl, rfl⟩ := right
  exact ⟨count + more, Nat.add_assoc _ _ _, Nat.add_assoc _ _ _⟩

namespace Program

/-- Both programs grow, by as many locals. -/
structure Grows (final source copy later after : Program) : Prop where
  grown : Growths source later
  gained : Relation.ReflTransGen final.Gains copy after
  issued : Level source.owners.size copy.owners.size later.owners.size after.owners.size

theorem Grows.refl (final source copy : Program) : final.Grows source copy source copy :=
  ⟨.refl, .refl, 0, rfl, rfl⟩

theorem Grows.trans {final source copy later after last again : Program}
    (first : final.Grows source copy later after) (second : final.Grows later after last again) :
    final.Grows source copy last again :=
  ⟨first.grown.trans second.grown, first.gained.trans second.gained, first.issued.trans second.issued⟩

theorem Grows.more {final source copy later after : Program}
    (grows : final.Grows source copy later after) : copy.Extends after :=
  Gains.extends grows.gained

theorem Grows.follows {final source copy later after : Program}
    (grows : final.Grows source copy later after) (follows : final.Follows copy) : final.Follows after :=
  Gains.follows grows.gained follows

/-- A method that both runs have found, with a known marker. -/
structure MethodFound (final source copy : Program) (static : Bool) (method id : MethodId) : Prop where
  same : final.Same copy (.method method) (.method id)
  marked : source.marker (.method method) = some static
  key : source.methodKey? method = final.methodKey? method

theorem MethodFound.grows {final source copy later after : Program} {static : Bool} {method id : MethodId}
    (found : MethodFound final source copy static method id) (grows : final.Grows source copy later after) :
    MethodFound final later after static method id := by
  obtain ⟨owner, holder, name, signature, named, -⟩ := same_method.mp found.same
  refine ⟨found.same.extends grows.more, grows.grown.lasts.markers found.marked, ?_⟩
  rw [named, grows.grown.extends.methods (found.key.trans named)]

/-- The two runs know the same of such a method. -/
theorem MethodFound.entry {final source copy : Program} {static : Bool} {method id : MethodId}
    (found : MethodFound final source copy static method id) :
    (copy.methodAt id).signature = (source.methodAt method).signature ∧
      final.Same copy (.type (source.methodAt method).owner) (.type (copy.methodAt id).owner) := by
  obtain ⟨_, _, name, signature, named, there, held⟩ := same_method.mp found.same
  obtain ⟨owner, -, signed⟩ := methodKey?_methodAt (found.key.trans named)
  obtain ⟨holder, -, signed'⟩ := methodKey?_methodAt there
  rw [signed', signed, owner, holder]
  exact ⟨rfl, held⟩

/-- Every member has a known marker. -/
def Decided (program : Program) : Prop :=
  ∀ symbol, program.HasMember symbol → (program.marker symbol).isSome

theorem decided_empty : ({} : Program).Decided :=
  fun symbol member => absurd member (not_hasMember_empty symbol)

end Program

open Program Edit

namespace Loading.Context

/-- Members that an image adds have known markers. -/
theorem Loads.decided {context : Context} {before after : Program} (loads : context.Loads before after)
    (decided : before.Decided) : after.Decided := by
  intro symbol member
  by_cases earlier : before.HasMember symbol
  · obtain ⟨static, known⟩ := Option.isSome_iff_exists.mp (decided symbol earlier)
    have steps : Steps before after := .single loads.step
    rw [steps.marker_kept known]
    rfl
  · cases symbol with
    | type => exact member.elim
    | method id =>
      cases loads with
      | plain _ keys =>
        rw [HasMember, keys.methods] at member
        exact absurd member earlier
      | method =>
        by_cases last : id.index = before.methods.size
        · simp [Program.marker, methodAt, addMethod, last]
        · rw [HasMember, methodKey?_addMethod, if_neg last] at member
          exact absurd member earlier
      | attach =>
        rw [HasMember, Program.attach, methodKey?_modifyBody] at member
        exact absurd member earlier
      | type | field | interface | define => exact absurd member earlier
    | field id =>
      cases loads with
      | plain _ keys =>
        rw [HasMember, keys.fields] at member
        exact absurd member earlier
      | field =>
        by_cases last : id.index = before.fields.size
        · simp [Program.marker, fieldAt, addField, last]
        · rw [HasMember, fieldKey?_addField, if_neg last] at member
          exact absurd member earlier
      | type | method | interface | define | attach => exact absurd member earlier

theorem Loads.all_decided {context : Context} {before after : Program}
    (moved : Relation.ReflTransGen context.Loads before after) (decided : before.Decided) :
    after.Decided := by
  induction moved with
  | refl => exact decided
  | tail _ loads ih => exact loads.decided ih

variable {image : Image} {first second final source copy : Program} {index : UInt32}

theorem repeats_text :
    Repeats final ((Context.mk image first).text index) ((Context.mk image second).text index) source copy
      fun text other later after => other = text ∧ later = source ∧ after = copy := by
  unfold Context.text
  cases image.pool.text? index with
  | none => exact .throw
  | some text => exact .pure ⟨rfl, rfl, rfl⟩

theorem repeats_descriptor :
    Repeats final ((Context.mk image first).descriptor index) ((Context.mk image second).descriptor index)
      source copy fun descriptor other later after => other = descriptor ∧
        (Context.mk image second).Reads index descriptor ∧ later = source ∧ after = copy := by
  intro indexed descriptor later ran _
  obtain ⟨read, rfl⟩ := descriptor_ran ran
  have again : (Context.mk image second).Reads index descriptor := read
  exact ⟨indexed, descriptor, copy, again.gives, rfl, again, rfl, rfl⟩

/-- What looks symbols up issues no locals. -/
theorem grows_of_looks {context other : Context} {later after : Program}
    (looked : Relation.ReflTransGen context.Looks source later)
    (again : Relation.ReflTransGen other.Looks copy after)
    (gained : Relation.ReflTransGen final.Gains copy after) : final.Grows source copy later after :=
  ⟨Looks.growths looked, gained, 0, congrArg Array.size (Looks.owners looked),
    congrArg Array.size (Looks.owners again)⟩

/-- Noting that a type is an interface is growth and issues no locals. -/
theorem markInterface_ran {type : TypeId} {later : Program} (indexed : source.Indexed)
    (ran : outcome (markInterface type) source = (.ok (), later)) :
    Growths source later ∧ later.owners = source.owners := by
  have reached : Reaches (fun first second => Growth first second ∧ second.owners = first.owners)
      (markInterface type) source fun _ _ => True := by
    refine .get_bind ?_
    split
    · exact (reaches_setInterface fun growth => ⟨growth, rfl⟩).imp fun _ _ _ _ => trivial
    · exact .pure trivial
  have moved := (reached.ran indexed ran).1
  refine ⟨Relation.ReflTransGen.mono (fun _ _ => And.left) _ _ moved, ?_⟩
  clear ran indexed
  induction moved with
  | refl => rfl
  | tail _ step ih => exact step.2.trans ih

theorem repeats_markInterface (twin : copy.Indexed) (type holder : TypeId) :
    Repeats final (markInterface type) (markInterface holder) source copy
      fun _ _ later after => final.Grows source copy later after := by
  intro indexed _ later ran _
  have marks : Meets final.Gains (markInterface holder) copy fun _ _ => True := meets_markInterface holder
  obtain ⟨_, after, again, gained, -⟩ := marks
  obtain ⟨grown, owners⟩ := markInterface_ran indexed ran
  have owners' := (markInterface_ran twin again).2
  exact ⟨grown.steps.indexed indexed, (), after, again, grown, gained, 0, congrArg Array.size owners, congrArg Array.size owners'⟩

variable (sound : final.KeysSound) (follows : final.Follows copy)

include sound follows

theorem repeats_type :
    Repeats final ((Context.mk image first).type index) ((Context.mk image second).type index) source copy
      fun type id later after => final.Grows source copy later after ∧
        final.Same after (.type type) (.type id) := by
  intro indexed type later ran lasts
  obtain ⟨looked, descriptor, read, known⟩ := (looks_type index).ran indexed ran
  have read : (Context.mk image second).Reads index descriptor := read
  obtain ⟨id, after, again, gained, same⟩ := read.meets_type sound follows (lasts.more.types known)
  have looks := ((looks_type index).ran follows.keysSound.indexed again).1
  exact ⟨(Looks.growths looked).steps.indexed indexed, id, after, again, grows_of_looks looked looks gained, same⟩

theorem repeats_methodKey :
    Repeats final ((Context.mk image first).methodKey index) ((Context.mk image second).methodKey index)
      source copy fun key other later after => final.Grows source copy later after ∧
        other.2 = key.2 ∧ (later.descriptor? key.1).isSome ∧
          final.Same after (.type key.1) (.type other.1) := by
  intro indexed key later ran lasts
  obtain ⟨looked, descriptor, known, read⟩ := (looks_methodKey index).ran indexed ran
  have read : (Context.mk image second).ReadsMethod index descriptor key.2.1 key.2.2 := read
  obtain ⟨other, after, again, gained, named, same⟩ := 
    read.meets_methodKey sound follows (lasts.more.types known)
  have looks := ((looks_methodKey index).ran follows.keysSound.indexed again).1
  exact ⟨(Looks.growths looked).steps.indexed indexed, other, after, again,
    grows_of_looks looked looks gained, named, by rw [known]; rfl, same⟩

theorem repeats_fieldKey :
    Repeats final ((Context.mk image first).fieldKey index) ((Context.mk image second).fieldKey index)
      source copy fun key other later after => final.Grows source copy later after ∧
        other.2 = key.2 ∧ (later.descriptor? key.1).isSome ∧
          final.Same after (.type key.1) (.type other.1) := by
  intro indexed key later ran lasts
  obtain ⟨looked, descriptor, known, read⟩ := (looks_fieldKey index).ran indexed ran
  have read : (Context.mk image second).ReadsField index descriptor key.2.1 key.2.2 := read
  obtain ⟨other, after, again, gained, named, same⟩ := 
    read.meets_fieldKey sound follows (lasts.more.types known)
  have looks := ((looks_fieldKey index).ran follows.keysSound.indexed again).1
  exact ⟨(Looks.growths looked).steps.indexed indexed, other, after, again,
    grows_of_looks looked looks gained, named, by rw [known]; rfl, same⟩

section Members

variable {static : Bool}

theorem repeats_method :
    Repeats final ((Context.mk image first).method index static) ((Context.mk image second).method index static)
      source copy fun method id later after => final.Grows source copy later after ∧
        MethodFound final later after static method id := by
  intro indexed method later ran lasts
  obtain ⟨looked, owner, descriptor, name, signature, key, known, read, marked⟩ :=
    (looks_method index static).ran indexed ran
  have read : (Context.mk image second).ReadsMethod index descriptor name signature := read
  obtain ⟨id, after, again, gained, same⟩ := read.meets_method sound follows (lasts.more.methods key)
    (lasts.more.types known) (lasts.markers marked)
  have looks := ((looks_method index static).ran follows.keysSound.indexed again).1
  exact ⟨(Looks.growths looked).steps.indexed indexed, id, after, again,
    grows_of_looks looked looks gained, same, marked,
    key.trans (lasts.more.methods key).symm⟩

theorem repeats_field :
    Repeats final ((Context.mk image first).field index static) ((Context.mk image second).field index static)
      source copy fun field id later after => final.Grows source copy later after ∧
        final.Same after (.field field) (.field id) ∧ later.marker (.field field) = some static ∧
          later.fieldKey? field = final.fieldKey? field := by
  intro indexed field later ran lasts
  obtain ⟨looked, owner, descriptor, name, type, key, known, read, marked⟩ :=
    (looks_field index static).ran indexed ran
  have read : (Context.mk image second).ReadsField index descriptor name type := read
  obtain ⟨id, after, again, gained, same⟩ := read.meets_field sound follows (lasts.more.fields key)
    (lasts.more.types known) (lasts.markers marked)
  have looks := ((looks_field index static).ran follows.keysSound.indexed again).1
  exact ⟨(Looks.growths looked).steps.indexed indexed, id, after, again,
    grows_of_looks looked looks gained, same, marked,
    key.trans (lasts.more.fields key).symm⟩

end Members

end Loading.Context

end ClassImage
