import ClassImage.Proofs.Merge.Declarations

/-!
Declaring the classes of an image twice. Unless the program of the second run had
one of the classes before, every class is declared there as well, with the same
header, the same members and the same code to load.
-/

namespace ClassImage

namespace Program

/-- A class has been defined in both runs, and members of it may be declared. -/
structure Opens (final : Program) (kept : TypeId → Prop) (type holder : TypeId)
    (source copy later after : Program) : Prop where
  lasts : source.Lasts later
  fresh : source.definition? type = none
  defined : later.defined = source.defined.push type
  others : ∀ other, other ≠ type → later.definition? other = source.definition? other
  adds : final.Adds kept copy after
  absent : copy.definition? holder = none
  copyDefined : after.defined = copy.defined.push holder

section Opens

variable {final source copy later after last again : Program} {kept : TypeId → Prop} {type holder : TypeId}

theorem Grows.opens (grows : final.Grows source copy later after)
    (opens : final.Opens kept type holder later after last again) :
    final.Opens kept type holder source copy last again where
  lasts := grows.grown.lasts.trans opens.lasts
  fresh := (congrFun grows.grown.sameDefinitions.definitions type).symm.trans opens.fresh
  defined := by rw [opens.defined, grows.grown.sameDefinitions.defined]
  others other apart :=
    (opens.others other apart).trans (congrFun grows.grown.sameDefinitions.definitions other)
  adds := (grows.adds kept).trans opens.adds
  absent := (congrFun (Gains.growths grows.gained).sameDefinitions.definitions holder).symm.trans opens.absent
  copyDefined := by rw [opens.copyDefined, (Gains.growths grows.gained).sameDefinitions.defined]

theorem Opens.furnishes (opens : final.Opens kept type holder source copy later after)
    (furnishes : Furnishes final kept type later after last again) :
    final.Opens kept type holder source copy last again where
  lasts := opens.lasts.trans furnishes.lasts
  fresh := opens.fresh
  defined := furnishes.defined.trans opens.defined
  others other apart := (furnishes.others other apart).trans (opens.others other apart)
  adds := opens.adds.trans furnishes.adds
  absent := opens.absent
  copyDefined := furnishes.copyDefined.trans opens.copyDefined

end Opens

end Program

namespace Edit

open Program

variable {final source copy : Program} {kept : TypeId → Prop}

theorem repeats_define (sound : final.KeysSound) (follows : final.Follows copy) {descriptor : Descriptor}
    {header other : Header} (like : final.HeaderLike copy header other)
    (unclaimed : ∀ type, final.descriptor? type = some descriptor → source.definition? type = none →
      final.Unclaimed copy type) (free : ∀ id, kept id → (copy.definition? id).isSome) :
    Repeats final (define descriptor header) (define descriptor other) source copy
      fun type holder later after => final.Opens kept type holder source copy later after ∧
        Matches final later after type holder ∧ later.descriptor? type = some descriptor := by
  intro indexed type later ran lasts
  obtain ⟨name, middle, rfl, grown, found, absent, rfl⟩ := define_ran indexed ran
  have keys := sameKeys_addDefinition middle type header
  have named : (middle.addDefinition type header).descriptor? type = some (.object name) :=
    keys.extends.types found
  have view := definition?_addDefinition middle header
    (descriptor?_isSome.mp (Option.isSome_iff_exists.mpr ⟨_, found⟩))
  have onward : middle.Lasts (middle.addDefinition type header) :=
    ⟨keys.extends, fun same => same, fun same => same, fun same => same⟩
  have fresh : source.definition? type = none :=
    (congrFun grown.sameDefinitions.definitions type).symm.trans absent
  have original := lasts.more.types named
  obtain ⟨holder, after, again, moved, same, vacant, pushed, there⟩ :=
    meets_define sound follows original (unclaimed type original fresh) like.knows free
  have adds := Adds.of_moved moved
  refine ⟨(grown.steps.indexed indexed).of_sameKeys keys, holder, after, again,
    ⟨grown.lasts.trans onward, fresh, ?_, ?_, adds, vacant, pushed⟩,
    ⟨same, { header with }, { other with }, (view type).trans (if_pos rfl), there, ?_, .nil, .nil⟩, named⟩
  · exact congrArg (Array.push · type) grown.sameDefinitions.defined
  · intro id apart
    rw [view, if_neg apart]
    exact congrFun grown.sameDefinitions.definitions id
  · exact like.extends adds.more

end Edit

namespace Loading.Context

open Program Edit

variable {image : Image} {first second final source copy : Program} {kept : TypeId → Prop}

section Class

variable (sound : final.KeysSound) (follows : final.Follows copy)

include sound follows

theorem repeats_interface {index : UInt32} :
    Repeats final ((Context.mk image first).interface index) ((Context.mk image second).interface index)
      source copy fun type id later after => final.Grows source copy later after ∧
        final.Same after (.type type) (.type id) := by
  apply (repeats_type sound follows).bind
  · exact fun type => (lasting_markInterface type).bind fun _ => .pure
  rintro type id later after ⟨grows, same⟩
  apply (repeats_markInterface (grows.follows follows).keysSound.indexed type id).bind
  · exact fun _ => .pure
  intro _ _ last again onward
  exact .pure ⟨grows.trans onward, same.extends onward.more⟩

theorem repeats_superclass {index : Option UInt32} :
    Repeats final (index.mapM (Context.mk image first).type) (index.mapM (Context.mk image second).type)
      source copy fun superclass other later after => final.Grows source copy later after ∧
        Option.Rel (fun type id => final.Same after (.type type) (.type id)) superclass other := by
  apply Repeats.optional
  · exact fun _ => ⟨.refl _ _ _, .none⟩
  intro index _
  exact (repeats_type sound follows).imp fun type id later after met => ⟨met.1, .some met.2⟩

theorem repeats_interfaces {indices : List UInt32} :
    Repeats final (indices.mapM (Context.mk image first).interface)
      (indices.mapM (Context.mk image second).interface) source copy
      fun interfaces others later after => final.Grows source copy later after ∧
        List.Forall₂ (fun type id => final.Same after (.type type) (.type id)) interfaces others := by
  apply Repeats.mapM (fun _ interfaces others later after => final.Grows source copy later after ∧
    List.Forall₂ (fun type id => final.Same after (.type type) (.type id)) interfaces others)
  · exact lasting_interface _
  · exact ⟨.refl _ _ _, .nil⟩
  rintro _ index _ interfaces others later after - ⟨grows, all⟩
  apply (repeats_interface sound (grows.follows follows)).imp
  rintro type id last again ⟨onward, same⟩
  exact ⟨grows.trans onward, List.rel_append (all.imp fun _ _ same => same.extends onward.more) (.cons same .nil)⟩

omit sound follows in
theorem repeats_source (index : Option UInt32) :
    Repeats final (index.mapM (Context.mk image first).text) (index.mapM (Context.mk image second).text)
      source copy fun text other later after => other = text ∧ later = source ∧ after = copy := by
  apply Repeats.optional
  · exact fun _ => ⟨rfl, rfl, rfl⟩
  intro index _
  apply repeats_text.imp
  rintro text _ _ _ ⟨rfl, rfl, rfl⟩
  exact ⟨rfl, rfl, rfl⟩

/-- A class that the second program does not have yet is defined there as well. -/
theorem repeats_defineClass {written : ClassDef}
    (unclaimed : ∀ descriptor type, (Context.mk image second).Reads written.type descriptor →
      final.descriptor? type = some descriptor → source.definition? type = none →
      final.Unclaimed copy type) (free : ∀ id, kept id → (copy.definition? id).isSome) :
    Repeats final ((Context.mk image first).defineClass written) ((Context.mk image second).defineClass written)
      source copy fun type holder later after => final.Opens kept type holder source copy later after ∧
        Matches final later after type holder ∧
          ∃ descriptor, (Context.mk image second).Reads written.type descriptor ∧
            later.descriptor? type = some descriptor := by
  apply repeats_descriptor.bind
  · exact fun _ => (Lasting.optional (lasting_type _)).bind fun _ =>
      (Lasting.mapM (lasting_interface _)).bind fun _ => (Lasting.optional (lasting_text _)).bind fun _ =>
        .adapt (lasting_define _ _)
  rintro _ descriptor source copy ⟨rfl, read, rfl, rfl⟩
  apply (repeats_superclass sound follows).bind
  · exact fun _ => (Lasting.mapM (lasting_interface _)).bind fun _ =>
      (Lasting.optional (lasting_text _)).bind fun _ => .adapt (lasting_define _ _)
  rintro superclass superclass' later after ⟨begun, above⟩
  apply (repeats_interfaces sound (begun.follows follows)).bind
  · exact fun _ => (Lasting.optional (lasting_text _)).bind fun _ => .adapt (lasting_define _ _)
  rintro interfaces interfaces' later' after' ⟨onward, all⟩
  have grows := begun.trans onward
  apply (repeats_source written.source).bind
  · exact fun _ => .adapt (lasting_define _ _)
  rintro _ text later' after' ⟨rfl, rfl, rfl⟩
  have like : final.HeaderLike after' ⟨written.access, superclass, interfaces, text⟩
      ⟨written.access, superclass', interfaces', text⟩ :=
    ⟨rfl, rel_imp above fun _ _ same => same.extends onward.more, all, rfl⟩
  have claimed : ∀ id, kept id → (after'.definition? id).isSome := by
    intro id here
    rw [(Gains.growths grows.gained).sameDefinitions.definitions]
    exact free id here
  have vacant : ∀ type, final.descriptor? type = some descriptor → later'.definition? type = none →
      final.Unclaimed after' type := by
    intro type named fresh
    rw [grows.grown.sameDefinitions.definitions] at fresh
    exact (unclaimed descriptor type read named fresh).growths follows (Gains.growths grows.gained)
  apply (repeats_define sound (grows.follows follows) like vacant claimed).adapt.imp
  rintro type holder last again ⟨opens, matched, named⟩
  exact ⟨grows.opens opens, matched, descriptor, read, named⟩

section Members

variable (markers : final.MarkersSound) {owner holder : TypeId}
  (matched : Matches final source copy owner holder) (free : ¬kept holder)

include markers matched free

theorem repeats_declareField {field : FieldDef} :
    Repeats final ((Context.mk image first).declareField owner field)
      ((Context.mk image second).declareField holder field) source copy fun _ _ later after =>
        Furnishes final kept owner source copy later after ∧ Matches final later after owner holder := by
  apply (repeats_fieldKey sound follows).bind
  · exact fun (_, _, _) => (Lasting.adapt (Edit.lasting_declareField _ _ _ _)).bind fun _ => .pure
  rintro ⟨_, name, type⟩ ⟨_, _, _⟩ later after ⟨grows, same, -, -⟩
  cases same
  apply (Edit.repeats_declareField sound markers (grows.follows follows) (grows.matches matched)
    free).adapt.bind
  · exact fun _ => .pure
  rintro _ _ last again ⟨furnishes, matched⟩
  exact .pure ⟨grows.furnishes.trans furnishes, matched⟩

theorem repeats_declareMethod {method : MethodDef} :
    Repeats final ((Context.mk image first).declareMethod owner method)
      ((Context.mk image second).declareMethod holder method) source copy fun coded recoded later after =>
        Furnishes final kept owner source copy later after ∧ Matches final later after owner holder ∧
          List.Forall₂ (CodedLike final after [owner]) coded recoded := by
  apply (repeats_methodKey sound follows).bind
  · exact fun (_, _, _) => (Lasting.adapt (Edit.lasting_declareMethod _ _ _ _)).bind fun _ => .pure
  rintro ⟨_, name, signature⟩ ⟨_, _, _⟩ later after ⟨grows, same, -, -⟩
  cases same
  apply (Edit.repeats_declareMethod sound markers (grows.follows follows) (grows.matches matched)
    free).adapt.bind
  · exact fun _ => .pure
  rintro id other last again ⟨furnishes, matched, new, declared⟩
  refine .pure ⟨grows.furnishes.trans furnishes, matched, ?_⟩
  cases method.code with
  | none => exact .nil
  | some code => exact .cons ⟨rfl, new, owner, List.mem_singleton_self _, _, declared⟩ .nil

/-- Fields that are declared in both runs furnish the class further. -/
theorem repeats_declareFields {fields : List FieldDef} :
    Repeats final (fields.forM ((Context.mk image first).declareField owner))
      (fields.forM ((Context.mk image second).declareField holder)) source copy fun _ _ later after =>
        Furnishes final kept owner source copy later after ∧ Matches final later after owner holder := by
  refine Repeats.forM (fun _ later after => Furnishes final kept owner source copy later after ∧
    Matches final later after owner holder) (List.forall₂_refl fields : List.Forall₂ Eq _ _)
    (lasting_declareField _ _) ⟨.refl, matched⟩ ?_
  rintro _ field _ _ later after - rfl ⟨furnished, matched⟩
  apply (repeats_declareField sound (furnished.adds.follows follows) markers matched free).imp
  rintro _ _ last again ⟨onward, matched⟩
  exact ⟨furnished.trans onward, matched⟩

theorem repeats_declareMethods {methods : List MethodDef} :
    Repeats final (methods.mapM ((Context.mk image first).declareMethod owner))
      (methods.mapM ((Context.mk image second).declareMethod holder)) source copy
      fun coded recoded later after => Furnishes final kept owner source copy later after ∧
        Matches final later after owner holder ∧
        List.Forall₂ (CodedLike final after [owner]) coded.flatten recoded.flatten := by
  refine Repeats.mapM (fun _ coded recoded later after => Furnishes final kept owner source copy later after ∧
    Matches final later after owner holder ∧
    List.Forall₂ (CodedLike final after [owner]) coded.flatten recoded.flatten)
    (lasting_declareMethod _ _) ⟨.refl, matched, .nil⟩ ?_
  rintro _ method _ coded recoded later after - ⟨furnished, matched, listed⟩
  apply (repeats_declareMethod sound (furnished.adds.follows follows) markers matched free).imp
  rintro more others last again ⟨onward, matched, new⟩
  refine ⟨furnished.trans onward, matched, ?_⟩
  rw [List.flatten_append, List.flatten_append, List.flatten_singleton, List.flatten_singleton]
  exact List.rel_append (listed.imp fun _ _ like => like.lasts onward.adds.toKeeps fun _ same => same) new

end Members

/-- A class that the second program does not have yet is declared there as well. -/
theorem repeats_declareClass (markers : final.MarkersSound)
    {written : ClassDef} (unclaimed : ∀ descriptor type,
      (Context.mk image second).Reads written.type descriptor → final.descriptor? type = some descriptor →
      source.definition? type = none → final.Unclaimed copy type)
    (claimed : ∀ id, kept id → (copy.definition? id).isSome) :
    Repeats final ((Context.mk image first).declareClass written)
      ((Context.mk image second).declareClass written) source copy fun coded recoded later after =>
        ∃ type holder, final.Opens kept type holder source copy later after ∧
          Matches final later after type holder ∧
          (∃ descriptor, (Context.mk image second).Reads written.type descriptor ∧
            later.descriptor? type = some descriptor) ∧
          List.Forall₂ (CodedLike final after [type]) coded recoded := by
  apply (repeats_defineClass sound follows unclaimed claimed).bind
  · exact fun _ => (Lasting.forM (lasting_declareField _ _)).bind fun _ =>
      (Lasting.mapM (lasting_declareMethod _ _)).bind fun _ => .pure
  rintro type holder later after ⟨opens, matched, descriptor, read, named⟩
  have free : ¬kept holder := by
    intro here
    have defined := claimed holder here
    rw [opens.absent] at defined
    cases defined
  have reached := opens.adds.follows follows
  apply (repeats_declareFields sound reached markers matched free).bind
  · exact fun _ => (Lasting.mapM (lasting_declareMethod _ _)).bind fun _ => .pure
  rintro _ _ later' after' ⟨furnished, matched⟩
  apply (repeats_declareMethods sound (furnished.adds.follows reached) markers matched free).bind
  · exact fun _ => .pure
  rintro coded recoded last again ⟨onward, matched, listed⟩
  have furnished := furnished.trans onward
  exact .pure ⟨type, holder, opens.furnishes furnished, matched,
    ⟨descriptor, read, furnished.lasts.more.types named⟩, listed⟩

end Class

/-- These classes of an image are declared in both runs, and the code of their methods is listed. -/
structure Abreast (final first second : Program) (image : Image) (written : List ClassDef)
    (types holders : List TypeId) (coded recoded : List (MethodId × CodeItem))
    (source copy : Program) : Prop where
  follows : final.Follows copy
  classes : List.Forall₂ (Matches final source copy) types holders
  named : List.Forall₂ (fun definition type => ∃ descriptor,
    (Context.mk image second).Reads definition.type descriptor ∧ source.descriptor? type = some descriptor)
    written types
  defined : source.defined.toList = first.defined.toList ++ types
  copyDefined : copy.defined.toList = second.defined.toList ++ holders
  keeps : Keeps (fun id => (second.definition? id).isSome) second copy
  coded : List.Forall₂ (CodedLike final copy types) coded recoded

/-- No class of the image is defined in the program. -/
def Vacant (context : Context) (program : Program) : Prop :=
  ∀ definition ∈ context.image.classes, ∀ descriptor id, context.Reads definition.type descriptor →
    program.descriptor? id = some descriptor → program.definition? id = none

section Classes

variable {written : List ClassDef} {types holders : List TypeId}
  {coded recoded more others : List (MethodId × CodeItem)}

/-- A class that neither the start of the second run nor the classes so far hold is unclaimed. -/
theorem Abreast.unclaimed (sound : final.KeysSound) (begun : second.Orderly)
    (vacant : (Context.mk image second).Vacant second)
    (abreast : Abreast final first second image written types holders coded recoded source copy)
    {definition : ClassDef} (member : definition ∈ image.classes) {descriptor : Descriptor} {type : TypeId}
    (read : (Context.mk image second).Reads definition.type descriptor)
    (named : final.descriptor? type = some descriptor) (fresh : source.definition? type = none) :
    final.Unclaimed copy type := by
  intro id same
  cases found : copy.definition? id with
  | none => rfl
  | some other =>
    have listed := (abreast.follows.orderly.definitions.defined id).mpr (by rw [found]; rfl)
    rw [← Array.mem_toList_iff, abreast.copyDefined, List.mem_append, Array.mem_toList_iff] at listed
    rcases listed with earlier | new
    · have defined := (begun.definitions.defined id).mp earlier
      obtain ⟨early, here⟩ := Option.isSome_iff_exists.mp defined
      obtain ⟨name, object⟩ := begun.definitions.objects here
      obtain ⟨_, named', there⟩ := same_type.mp same
      cases named.symm.trans named'
      cases (abreast.keeps.more.types object).symm.trans there
      rw [vacant definition member _ id read object] at here
      cases here
    · obtain ⟨twin, -, matched⟩ := forall₂_exists_left abreast.classes new
      cases Same.source_eq sound matched.same same
      obtain ⟨definition, -, here, -⟩ := matched.like
      rw [fresh] at here
      cases here

theorem Abreast.opens {later after : Program} {definition : ClassDef} {type holder : TypeId}
    (abreast : Abreast final first second image written types holders coded recoded source copy)
    (opens : final.Opens (fun id => (copy.definition? id).isSome) type holder source copy later after)
    (matched : Matches final later after type holder)
    (named : ∃ descriptor, (Context.mk image second).Reads definition.type descriptor ∧
      later.descriptor? type = some descriptor)
    (listed : List.Forall₂ (CodedLike final after [type]) more others) :
    Abreast final first second image (written ++ [definition]) (types ++ [type]) (holders ++ [holder])
      (coded ++ more) (recoded ++ others) later after where
  follows := opens.adds.follows abreast.follows
  classes := by
    refine List.rel_append (abreast.classes.imp ?_) (.cons matched .nil)
    intro earlier place twin
    obtain ⟨old, other, here, there, -⟩ := twin.like
    refine twin.lasts opens.lasts (opens.others earlier ?_) opens.adds.toKeeps (opens.adds.definitions place ?_)
    · rintro rfl
      rw [opens.fresh] at here
      cases here
    · rw [there]
      rfl
  named := by
    refine List.rel_append (abreast.named.imp ?_) (.cons named .nil)
    rintro definition type ⟨descriptor, read, known⟩
    exact ⟨descriptor, read, opens.lasts.more.types known⟩
  defined := by rw [opens.defined, Array.toList_push, abreast.defined, List.append_assoc]
  copyDefined := by rw [opens.copyDefined, Array.toList_push, abreast.copyDefined, List.append_assoc]
  keeps := by
    apply abreast.keeps.trans opens.adds.toKeeps
    intro id here
    rw [abreast.keeps.definitions id here]
    exact here
  coded := by
    refine List.rel_append (abreast.coded.imp ?_) (listed.imp ?_)
    · exact fun _ _ like => like.lasts opens.adds.toKeeps fun _ member => List.mem_append_left _ member
    · intro _ _ like
      obtain ⟨code, declared, owner, member, owned⟩ := like
      exact ⟨code, declared, owner, List.mem_append_right _ member, owned⟩

/-- All classes of the image are declared in the second run as well. -/
theorem repeats_declareClasses (sound : final.KeysSound) (markers : final.MarkersSound)
    (follows : final.Follows second) (vacant : (Context.mk image second).Vacant second) :
    Repeats final (image.classes.mapM (Context.mk image first).declareClass)
      (image.classes.mapM (Context.mk image second).declareClass) first second fun coded recoded later after =>
        ∃ types holders, Abreast final first second image image.classes types holders coded.flatten
          recoded.flatten later after := by
  have start : Abreast final first second image [] [] [] [] [] first second :=
    ⟨follows, .nil, .nil, by simp, by simp, .refl _ second, .nil⟩
  refine Repeats.mapM (fun written coded recoded source copy => ∃ types holders,
    Abreast final first second image written types holders coded.flatten recoded.flatten source copy)
    (lasting_declareClass _) ⟨[], [], start⟩ ?_
  rintro done definition rest coded recoded source copy whole ⟨types, holders, abreast⟩
  have member : definition ∈ image.classes := by simp [whole]
  have unclaimed : ∀ descriptor type, (Context.mk image second).Reads definition.type descriptor →
      final.descriptor? type = some descriptor → source.definition? type = none →
      final.Unclaimed copy type :=
    fun _ _ read named fresh => abreast.unclaimed sound follows.orderly vacant member read named fresh
  apply (repeats_declareClass sound abreast.follows markers unclaimed fun _ same => same).imp
  rintro more others later after ⟨type, holder, opens, matched, named, listed⟩
  refine ⟨types ++ [type], holders ++ [holder], ?_⟩
  rw [List.flatten_append, List.flatten_append, List.flatten_singleton, List.flatten_singleton]
  exact abreast.opens opens matched named listed

end Classes

end Loading.Context

end ClassImage
