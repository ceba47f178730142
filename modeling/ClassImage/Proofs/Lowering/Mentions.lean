import ClassImage.Proofs.Lists
import ClassImage.Proofs.Codec.Verify
import ClassImage.Proofs.Lowering.Pool

/-!
What a pool holds. Texts, types, prototypes, fields and methods are mentioned one
after the other, and each table of the finished pool holds what it was asked to
hold, once. An entry is determined by its texts and by the finished pool alone,
whatever the pool was when the entry was first mentioned. There are never more
entries than different things that were mentioned, and there are as many as long
as every index of the tables that they refer to is used once. All this is told of
the search, and so it holds of a builder, which ends with the same pool.
-/

namespace ClassImage

/-- Something that a pool is asked to hold, by its texts. -/
inductive Mention where
  | text (value : String)
  | type (descriptor : String)
  | proto (result : String) (parameters : List String)
  | field (owner name type : String)
  | method (owner name result : String) (parameters : List String)
deriving DecidableEq

namespace Mention

/-- The table that has the entry. -/
def table : Mention → PoolTable
  | .text _ => .text
  | .type _ => .type
  | .proto _ _ => .proto
  | .field _ _ _ => .field
  | .method _ _ _ _ => .method

/-- The texts that a mention brings with it, in the order in which they are added. -/
@[simp] def texts : Mention → List String
  | .text value => [value]
  | .type descriptor => [descriptor]
  | .proto result parameters => result :: parameters
  | .field owner name held => [owner, held, name]
  | .method owner name result parameters => owner :: result :: parameters ++ [name]

@[simp] def types : Mention → List String
  | .text _ => []
  | .type descriptor => [descriptor]
  | .proto result parameters => result :: parameters
  | .field owner _ held => [owner, held]
  | .method owner _ result parameters => owner :: result :: parameters

@[simp] def protos : Mention → List (String × List String)
  | .proto result parameters | .method _ _ result parameters => [(result, parameters)]
  | _ => []

@[simp] def fields : Mention → List (String × String × String)
  | .field owner name held => [(owner, name, held)]
  | _ => []

@[simp] def methods : Mention → List (String × String × String × List String)
  | .method owner name result parameters => [(owner, name, result, parameters)]
  | _ => []

/-- A builder is asked for the index. -/
def intern : Mention → StateM Pool.Builder UInt32
  | .text value => Pool.Builder.internText value
  | .type descriptor => Pool.Builder.internType descriptor
  | .proto result parameters => Pool.Builder.internProto result parameters
  | .field owner name held => Pool.Builder.internField owner name held
  | .method owner name result parameters => Pool.Builder.internMethod owner name result parameters

/-- The same, told by searching the tables. -/
def search : Mention → StateM Pool UInt32
  | .text value => Pool.internText value
  | .type descriptor => Pool.internType descriptor
  | .proto result parameters => Pool.internProto result parameters
  | .field owner name held => Pool.internField owner name held
  | .method owner name result parameters => Pool.internMethod owner name result parameters

open Pool.Builder in
theorem mirrors (mention : Mention) : Mirrors mention.intern mention.search := by
  cases mention with
  | text value => exact mirrors_text value
  | type descriptor => exact mirrors_type descriptor
  | proto result parameters => exact mirrors_proto result parameters
  | field owner name held => exact mirrors_field owner name held
  | method owner name result parameters => exact mirrors_method owner name result parameters

end Mention

namespace Pool

/-- The indices that a builder gives for some mentions, and the builder afterwards. -/
def serve (mentions : List Mention) (builder : Builder := {}) : List UInt32 × Builder :=
  (mentions.mapM Mention.intern).run builder

theorem serve_append (mentions more : List Mention) (builder : Builder) :
    serve (mentions ++ more) builder =
      ((serve mentions builder).1 ++ (serve more (serve mentions builder).2).1,
        (serve more (serve mentions builder).2).2) := by
  rw [serve, List.mapM_append]
  rfl

/-- The pool that holds what is mentioned and nothing else. -/
def ofMentions (mentions : List Mention) : Pool := ((mentions.mapM Mention.search).run {}).2

/-- As long as there are indices for all texts, a builder gives the indices of the search and ends with
its pool, and every map finds what a search of its table would find. -/
theorem serve_search {mentions : List Mention}
    (few : (serve mentions).2.pool.texts.size ≤ 2 ^ 32 ∨ (ofMentions mentions).texts.size ≤ 2 ^ 32) :
    (mentions.mapM Mention.search).run {} = ((serve mentions).1, (serve mentions).2.pool) ∧
      (serve mentions).2.InStep :=
  (Builder.Mirrors.mapM mentions Mention.mirrors).same {} .empty few

theorem serve_pool {mentions : List Mention}
    (few : (serve mentions).2.pool.texts.size ≤ 2 ^ 32 ∨ (ofMentions mentions).texts.size ≤ 2 ^ 32) :
    (serve mentions).2.pool = ofMentions mentions :=
  (congrArg Prod.snd (serve_search few).1).symm

section Indices

variable (pool : Pool)

def indexIn [DecidableEq α] (entries : Array α) (entry : α) : UInt32 :=
  UInt32.ofNat (entries.toList.idxOf entry)

def textIndex (text : String) : UInt32 := indexIn pool.texts text

def typeIndex (descriptor : String) : UInt32 := indexIn pool.types (pool.textIndex descriptor)

def protoEntry (proto : String × List String) : Proto :=
  ⟨pool.typeIndex proto.1, proto.2.map pool.typeIndex⟩

def protoIndex (proto : String × List String) : UInt32 := indexIn pool.protos (pool.protoEntry proto)

def fieldEntry (field : String × String × String) : FieldRef :=
  ⟨pool.typeIndex field.1, pool.typeIndex field.2.2, pool.textIndex field.2.1⟩

def methodEntry (method : String × String × String × List String) : MethodRef :=
  ⟨pool.typeIndex method.1, pool.protoIndex method.2.2, pool.textIndex method.2.1⟩

end Indices

end Pool

theorem Program.checkPool_ok {limits : Limits} {pool : Pool} :
    checkPool limits pool = .ok () ↔ pool.texts.size ≤ limits.texts.toNat ∧
      pool.types.size ≤ limits.types.toNat ∧ pool.fields.size ≤ limits.fields.toNat ∧
      pool.methods.size ≤ limits.methods.toNat := by
  have bound : ∀ {capacity count} {limit : UInt32},
      (if count > limit.toNat then .error (.capacityExceeded capacity count limit.toNat)
        else .ok () : Except Fault Unit) = .ok () ↔ count ≤ limit.toNat := by
    intro capacity count limit
    split
    · rename_i more
      simpa using more
    · rename_i few
      simpa using few
  simp only [checkPool, Except.check_bind_ok, bound]

namespace Pool

/-- The table has the listed entries, each once. -/
def Enters (entries : Array α) (listed : List α) : Prop :=
  entries.toList.Nodup ∧ ∀ entry, entry ∈ entries ↔ entry ∈ listed

section Interning

variable {α : Type} [DecidableEq α] {entries : Array α} {entry : α}

theorem intern_of_mem (member : entry ∈ entries) : (intern entries entry).2 = entries := by
  obtain ⟨index, found⟩ := Option.ne_none_iff_exists'.mp fun absent => search_eq_none.mp absent member
  rw [intern_of_found found]

theorem intern_of_not_mem (absent : entry ∉ entries) :
    (intern entries entry).2 = entries.push entry := by
  rw [intern_of_absent (search_eq_none.mpr absent)]

theorem intern_fst (entries : Array α) (entry : α) :
    (intern entries entry).1 = indexIn entries entry := by
  obtain ⟨list⟩ := entries
  rw [indexIn, List.idxOf_eq_getD_idxOf?, intern, List.idxOf?_toArray]
  cases list.idxOf? entry <;> rfl

/-- The index that is handed out is the one that the finished table gives. -/
theorem intern_index {final : Array α} (within : (intern entries entry).2.toList <+: final.toList) :
    (intern entries entry).1 = indexIn final entry := by
  obtain ⟨rest, whole⟩ := within
  rw [intern_fst, indexIn, indexIn, ← whole]
  by_cases member : entry ∈ entries
  · rw [intern_of_mem member, List.idxOf_append_of_mem (Array.mem_toList_iff.mpr member)]
  · have outside : entry ∉ entries.toList := mt Array.mem_toList_iff.mp member
    rw [intern_of_not_mem member, Array.toList_push, List.append_assoc,
      List.idxOf_append_of_notMem outside, List.idxOf_of_notMem outside, List.singleton_append,
      List.idxOf_cons_self, Nat.add_zero]

theorem indexIn_lt (member : entry ∈ entries) :
    (indexIn entries entry).toNat < entries.size := by
  have inside := List.idxOf_lt_length_of_mem (Array.mem_toList_iff.mpr member)
  rw [indexIn, UInt32.toNat_ofNat', ← Array.length_toList]
  exact (Nat.mod_le _ _).trans_lt inside

theorem Enters.intern {listed : List α} (enters : Enters entries listed) (entry : α) :
    Enters (Pool.intern entries entry).2 (listed ++ [entry]) := by
  by_cases member : entry ∈ entries
  · rw [intern_of_mem member]
    refine ⟨enters.1, ?_⟩
    intro other
    rw [enters.2, List.mem_append, List.mem_singleton]
    refine ⟨.inl, ?_⟩
    rintro (listed | rfl)
    · exact listed
    · exact (enters.2 other).mp member
  · rw [intern_of_not_mem member]
    constructor
    · rw [Array.toList_push, ← List.concat_eq_append]
      exact List.Nodup.concat (mt Array.mem_toList_iff.mp member) enters.1
    · intro other
      rw [Array.mem_push, enters.2, List.mem_append, List.mem_singleton]

end Interning

/-- Entries that the tables of a pool were asked to hold. -/
structure Entries where
  texts : List String := []
  types : List UInt32 := []
  protos : List Proto := []
  fields : List FieldRef := []
  methods : List MethodRef := []

namespace Entries

def append (first second : Entries) : Entries :=
  ⟨first.texts ++ second.texts, first.types ++ second.types, first.protos ++ second.protos,
    first.fields ++ second.fields, first.methods ++ second.methods⟩

instance : Append Entries := ⟨append⟩

@[simp] theorem append_eq (first second : Entries) : first ++ second =
    ⟨first.texts ++ second.texts, first.types ++ second.types, first.protos ++ second.protos,
      first.fields ++ second.fields, first.methods ++ second.methods⟩ := rfl

theorem append_empty (entries : Entries) : entries ++ ({} : Entries) = entries := by
  simp

theorem empty_append (entries : Entries) : ({} : Entries) ++ entries = entries := by
  simp

theorem append_assoc (first second third : Entries) :
    first ++ second ++ third = first ++ (second ++ third) := by
  simp

end Entries

/-- Every table has its entries, and no others. -/
structure Holds (pool : Pool) (entries : Entries) : Prop where
  texts : Enters pool.texts entries.texts
  types : Enters pool.types entries.types
  protos : Enters pool.protos entries.protos
  fields : Enters pool.fields entries.fields
  methods : Enters pool.methods entries.methods

/-- On the way to the final pool, the action gives this value and adds these entries. -/
def Gives (final : Pool) (action : StateM Pool α) (value : α) (entries : Entries) : Prop :=
  ∀ pool, pool.Within (action.run pool).2 ∧ ((action.run pool).2.Within final →
    (action.run pool).1 = value ∧
      ∀ before, pool.Holds before → (action.run pool).2.Holds (before ++ entries))

section Gives

variable {final : Pool} {α β : Type}

theorem Gives.pure (value : α) : Gives final (pure value) value {} := by
  intro pool
  refine ⟨.refl pool, fun _ => ⟨rfl, ?_⟩⟩
  intro before holds
  rw [Entries.append_empty]
  exact holds

theorem Gives.bind {action : StateM Pool α} {next : α → StateM Pool β} {first : α} {last : α → β}
    {entries : Entries} {more : α → Entries} (one : Gives final action first entries)
    (two : ∀ value, Gives final (next value) (last value) (more value)) :
    Gives final (action >>= next) (last first) (entries ++ more first) := by
  intro pool
  obtain ⟨grown, met⟩ := one pool
  obtain ⟨onward, meets⟩ := two (action.run pool).1 (action.run pool).2
  refine ⟨grown.trans onward, ?_⟩
  intro within
  obtain ⟨same, holds⟩ := met (onward.trans within)
  obtain ⟨result, held⟩ := meets within
  subst same
  refine ⟨result, ?_⟩
  intro before ready
  rw [← Entries.append_assoc]
  exact held _ (holds before ready)

theorem Gives.as {action : StateM Pool α} {value : α} {entries others : Entries}
    (gives : Gives final action value entries) (same : entries = others) :
    Gives final action value others :=
  same ▸ gives

theorem gives_text (text : String) :
    Gives final (internText text) (final.textIndex text) { texts := [text] } := by
  intro pool
  refine ⟨⟨prefix_intern _ _, List.prefix_rfl, List.prefix_rfl, List.prefix_rfl, List.prefix_rfl⟩, ?_⟩
  intro within
  refine ⟨intern_index within.texts, ?_⟩
  intro before holds
  have added := holds.texts.intern text
  simpa using { holds with texts := added }

theorem gives_type (descriptor : String) :
    Gives final (internType descriptor) (final.typeIndex descriptor)
      { texts := [descriptor], types := [final.textIndex descriptor] } := by
  have enter : ∀ text, Gives final (modifyGet fun pool =>
      ((intern pool.types text).1, { pool with types := (intern pool.types text).2 }))
      (indexIn final.types text) { types := [text] } := by
    intro text pool
    refine ⟨⟨List.prefix_rfl, prefix_intern _ _, List.prefix_rfl, List.prefix_rfl, List.prefix_rfl⟩, ?_⟩
    intro within
    refine ⟨intern_index within.types, ?_⟩
    intro before holds
    have added := holds.types.intern text
    simpa using { holds with types := added }
  exact (gives_text descriptor).bind enter

theorem gives_types (descriptors : List String) :
    Gives final (descriptors.mapM internType) (descriptors.map final.typeIndex)
      { texts := descriptors, types := descriptors.map final.textIndex } := by
  induction descriptors with
  | nil => exact .pure []
  | cons descriptor rest ih =>
    rw [List.mapM_cons]
    refine ((gives_type descriptor).bind fun index =>
      ih.bind fun indices => .pure (index :: indices)).as ?_
    simp

theorem gives_proto (result : String) (parameters : List String) :
    Gives final (internProto result parameters) (final.protoIndex (result, parameters))
      { texts := result :: parameters, types := (result :: parameters).map final.textIndex
        protos := [final.protoEntry (result, parameters)] } := by
  have enter : ∀ produced taken, Gives final (modifyGet fun pool =>
      ((intern pool.protos ⟨produced, taken⟩).1,
        { pool with protos := (intern pool.protos ⟨produced, taken⟩).2 }))
      (indexIn final.protos ⟨produced, taken⟩) { protos := [⟨produced, taken⟩] } := by
    intro produced taken pool
    refine ⟨⟨List.prefix_rfl, List.prefix_rfl, prefix_intern _ _, List.prefix_rfl, List.prefix_rfl⟩, ?_⟩
    intro within
    refine ⟨intern_index within.protos, ?_⟩
    intro before holds
    have added := holds.protos.intern ⟨produced, taken⟩
    simpa using { holds with protos := added }
  refine ((gives_type result).bind fun produced =>
    (gives_types parameters).bind fun taken => enter produced taken).as ?_
  simp [protoEntry]

theorem gives_field (owner name type : String) :
    Gives final (internField owner name type)
      (indexIn final.fields (final.fieldEntry (owner, name, type)))
      { texts := [owner, type, name], types := [owner, type].map final.textIndex
        fields := [final.fieldEntry (owner, name, type)] } := by
  have enter : ∀ field, Gives final (modifyGet fun pool =>
      ((intern pool.fields field).1, { pool with fields := (intern pool.fields field).2 }))
      (indexIn final.fields field) { fields := [field] } := by
    intro field pool
    refine ⟨⟨List.prefix_rfl, List.prefix_rfl, List.prefix_rfl, prefix_intern _ _, List.prefix_rfl⟩, ?_⟩
    intro within
    refine ⟨intern_index within.fields, ?_⟩
    intro before holds
    have added := holds.fields.intern field
    simpa using { holds with fields := added }
  exact (gives_type owner).bind fun holder => (gives_type type).bind fun held =>
    (gives_text name).bind fun text => enter ⟨holder, held, text⟩

theorem gives_method (owner name result : String) (parameters : List String) :
    Gives final (internMethod owner name result parameters)
      (indexIn final.methods (final.methodEntry (owner, name, result, parameters)))
      { texts := owner :: result :: parameters ++ [name]
        types := (owner :: result :: parameters).map final.textIndex
        protos := [final.protoEntry (result, parameters)]
        methods := [final.methodEntry (owner, name, result, parameters)] } := by
  have enter : ∀ method, Gives final (modifyGet fun pool =>
      ((intern pool.methods method).1, { pool with methods := (intern pool.methods method).2 }))
      (indexIn final.methods method) { methods := [method] } := by
    intro method pool
    refine ⟨⟨List.prefix_rfl, List.prefix_rfl, List.prefix_rfl, List.prefix_rfl, prefix_intern _ _⟩, ?_⟩
    intro within
    refine ⟨intern_index within.methods, ?_⟩
    intro before holds
    have added := holds.methods.intern method
    simpa using { holds with methods := added }
  refine ((gives_type owner).bind fun holder => (gives_proto result parameters).bind fun proto =>
    (gives_text name).bind fun text => enter ⟨holder, proto, text⟩).as ?_
  simp [methodEntry]

end Gives

/-- What the tables of a pool are asked to hold, by texts. -/
structure Keys where
  texts : List String := []
  types : List String := []
  protos : List (String × List String) := []
  fields : List (String × String × String) := []
  methods : List (String × String × String × List String) := []

/-- The parts of whatever is asked for are asked for as well. -/
structure Keys.Closed (keys : Keys) : Prop where
  types : ∀ descriptor ∈ keys.types, descriptor ∈ keys.texts
  protos : ∀ proto ∈ keys.protos, ∀ descriptor ∈ proto.1 :: proto.2, descriptor ∈ keys.types
  fields : ∀ field ∈ keys.fields, field.1 ∈ keys.types ∧ field.2.2 ∈ keys.types ∧ field.2.1 ∈ keys.texts
  methods : ∀ method ∈ keys.methods, method.1 ∈ keys.types ∧ method.2.2 ∈ keys.protos ∧
    method.2.1 ∈ keys.texts

/-- The entries of some keys, as the final pool gives them. -/
def entries (final : Pool) (keys : Keys) : Entries where
  texts := keys.texts
  types := keys.types.map final.textIndex
  protos := keys.protos.map final.protoEntry
  fields := keys.fields.map final.fieldEntry
  methods := keys.methods.map final.methodEntry

/-- Every index in a pool that holds the entries of its keys resolves. -/
theorem Holds.verified {pool : Pool} {keys : Keys} (holds : pool.Holds (pool.entries keys))
    (closed : keys.Closed) : pool.Verified := by
  have text : ∀ {value}, value ∈ keys.texts → (pool.textIndex value).toNat < pool.texts.size :=
    fun member => indexIn_lt ((holds.texts.2 _).mpr member)
  have type : ∀ {descriptor}, descriptor ∈ keys.types →
      (pool.typeIndex descriptor).toNat < pool.types.size :=
    fun member => indexIn_lt ((holds.types.2 _).mpr (List.mem_map_of_mem member))
  constructor
  · intro index member
    obtain ⟨descriptor, listed, rfl⟩ := List.mem_map.mp ((holds.types.2 index).mp member)
    exact text (closed.types descriptor listed)
  · intro proto member
    obtain ⟨key, listed, rfl⟩ := List.mem_map.mp ((holds.protos.2 proto).mp member)
    obtain ⟨result, parameters⟩ := List.forall_mem_cons.mp (closed.protos key listed)
    refine ⟨type result, ?_⟩
    intro index taken
    obtain ⟨descriptor, here, rfl⟩ := List.mem_map.mp taken
    exact type (parameters descriptor here)
  · intro field member
    obtain ⟨key, listed, rfl⟩ := List.mem_map.mp ((holds.fields.2 field).mp member)
    obtain ⟨owner, held, name⟩ := closed.fields key listed
    exact ⟨type owner, type held, text name⟩
  · intro method member
    obtain ⟨key, listed, rfl⟩ := List.mem_map.mp ((holds.methods.2 method).mp member)
    obtain ⟨owner, proto, name⟩ := closed.methods key listed
    exact ⟨type owner, indexIn_lt ((holds.protos.2 _).mpr (List.mem_map_of_mem proto)), text name⟩

/-- The entries of some mentions, as the final pool gives them. -/
def entriesOf (final : Pool) (mentions : List Mention) : Entries where
  texts := mentions.flatMap Mention.texts
  types := (mentions.flatMap Mention.types).map final.textIndex
  protos := (mentions.flatMap Mention.protos).map final.protoEntry
  fields := (mentions.flatMap Mention.fields).map final.fieldEntry
  methods := (mentions.flatMap Mention.methods).map final.methodEntry

/-- The index that the final pool gives a mention. -/
def indexFor (final : Pool) : Mention → UInt32
  | .text value => final.textIndex value
  | .type descriptor => final.typeIndex descriptor
  | .proto result parameters => final.protoIndex (result, parameters)
  | .field owner name held => indexIn final.fields (final.fieldEntry (owner, name, held))
  | .method owner name result parameters =>
    indexIn final.methods (final.methodEntry (owner, name, result, parameters))

theorem gives_mention {final : Pool} (mention : Mention) :
    Gives final mention.search (final.indexFor mention) (final.entriesOf [mention]) := by
  cases mention with
  | text value => exact (gives_text value).as (by simp [entriesOf])
  | type descriptor => exact (gives_type descriptor).as (by simp [entriesOf])
  | proto result parameters => exact (gives_proto result parameters).as (by simp [entriesOf])
  | field owner name held => exact (gives_field owner name held).as (by simp [entriesOf])
  | method owner name result parameters =>
    exact (gives_method owner name result parameters).as (by simp [entriesOf])

theorem gives_mentions {final : Pool} (mentions : List Mention) :
    Gives final (mentions.mapM Mention.search) (mentions.map final.indexFor)
      (final.entriesOf mentions) := by
  induction mentions with
  | nil => exact .pure []
  | cons mention rest ih =>
    rw [List.mapM_cons]
    refine ((gives_mention mention).bind fun index =>
      ih.bind fun indices => .pure (index :: indices)).as ?_
    simp [entriesOf]

/-- The pool of some mentions holds their entries, as it gives them itself. -/
theorem holds_ofMentions (mentions : List Mention) :
    (ofMentions mentions).Holds ((ofMentions mentions).entriesOf mentions) := by
  have empty : ({} : Pool).Holds {} := by
    constructor <;> simp [Enters]
  have held := ((gives_mentions mentions {}).2 (.refl _)).2 {} empty
  rw [Entries.empty_append] at held
  exact held

section Counting

variable {α β : Type} [DecidableEq α] [DecidableEq β] {entries : Array α} {keys : List β} {entry : β → α}

theorem indexIn_toNat {entry : α} (member : entry ∈ entries) (small : entries.size ≤ 2 ^ 32) :
    (indexIn entries entry).toNat = entries.toList.idxOf entry := by
  have inside := List.idxOf_lt_length_of_mem (Array.mem_toList_iff.mpr member)
  rw [Array.length_toList] at inside
  rw [indexIn, UInt32.toNat_ofNat', Nat.mod_eq_of_lt (by omega)]

end Counting

section Mentions

variable {mentions : List Mention}

theorem text_of_type {descriptor : String} (member : descriptor ∈ mentions.flatMap Mention.types) :
    descriptor ∈ mentions.flatMap Mention.texts := by
  obtain ⟨mention, listed, member⟩ := List.mem_flatMap.mp member
  refine List.mem_flatMap.mpr ⟨mention, listed, ?_⟩
  cases mention with
  | text => cases member
  | type | proto => exact member
  | field owner name held =>
    simp only [Mention.types, Mention.texts, List.mem_cons, List.not_mem_nil, or_false] at member ⊢
    tauto
  | method owner name result parameters => exact List.mem_append_left _ member

theorem types_of_proto {proto : String × List String} (member : proto ∈ mentions.flatMap Mention.protos) :
    ∀ descriptor ∈ proto.1 :: proto.2, descriptor ∈ mentions.flatMap Mention.types := by
  obtain ⟨mention, listed, member⟩ := List.mem_flatMap.mp member
  intro descriptor part
  refine List.mem_flatMap.mpr ⟨mention, listed, ?_⟩
  cases mention with
  | proto result parameters =>
    cases List.mem_singleton.mp member
    exact part
  | method owner name result parameters =>
    cases List.mem_singleton.mp member
    exact List.mem_cons_of_mem _ part
  | _ => cases member

theorem parts_of_field {field : String × String × String}
    (member : field ∈ mentions.flatMap Mention.fields) :
    field.1 ∈ mentions.flatMap Mention.types ∧ field.2.2 ∈ mentions.flatMap Mention.types ∧
      field.2.1 ∈ mentions.flatMap Mention.texts := by
  obtain ⟨mention, listed, member⟩ := List.mem_flatMap.mp member
  simp only [List.mem_flatMap]
  cases mention with
  | field owner name held =>
    cases List.mem_singleton.mp member
    exact ⟨⟨_, listed, by simp⟩, ⟨_, listed, by simp⟩, ⟨_, listed, by simp⟩⟩
  | _ => cases member

theorem parts_of_method {method : String × String × String × List String}
    (member : method ∈ mentions.flatMap Mention.methods) :
    method.1 ∈ mentions.flatMap Mention.types ∧ method.2.2 ∈ mentions.flatMap Mention.protos ∧
      method.2.1 ∈ mentions.flatMap Mention.texts := by
  obtain ⟨mention, listed, member⟩ := List.mem_flatMap.mp member
  simp only [List.mem_flatMap]
  cases mention with
  | method owner name result parameters =>
    cases List.mem_singleton.mp member
    exact ⟨⟨_, listed, by simp⟩, ⟨_, listed, by simp⟩, ⟨_, listed, by simp⟩⟩
  | _ => cases member

/-- A prototype that is not mentioned for itself is that of a method. -/
theorem method_of_proto (bare : ∀ mention ∈ mentions, mention.table ≠ .proto) {proto : String × List String}
    (member : proto ∈ mentions.flatMap Mention.protos) :
    ∃ method ∈ mentions.flatMap Mention.methods, method.2.2 = proto := by
  obtain ⟨mention, listed, member⟩ := List.mem_flatMap.mp member
  cases mention with
  | method owner name result parameters =>
    cases List.mem_singleton.mp member
    exact ⟨(owner, name, result, parameters), List.mem_flatMap.mpr ⟨_, listed, by simp⟩, rfl⟩
  | proto => exact absurd rfl (bare _ listed)
  | _ => cases member

theorem mem_texts {text : String} (member : text ∈ mentions.flatMap Mention.texts) :
    text ∈ (ofMentions mentions).texts :=
  ((holds_ofMentions mentions).texts.2 text).mpr member

/-- The keys of some mentions, by table. -/
def keysOfMentions (mentions : List Mention) : Keys :=
  ⟨mentions.flatMap Mention.texts, mentions.flatMap Mention.types, mentions.flatMap Mention.protos,
    mentions.flatMap Mention.fields, mentions.flatMap Mention.methods⟩

theorem closed_keysOfMentions (mentions : List Mention) : (keysOfMentions mentions).Closed where
  types _ := text_of_type
  protos _ := types_of_proto
  fields _ := parts_of_field
  methods _ := parts_of_method

theorem holds_keysOfMentions (mentions : List Mention) :
    (ofMentions mentions).Holds ((ofMentions mentions).entries (keysOfMentions mentions)) :=
  holds_ofMentions mentions

/-- Every index in the pool of some mentions resolves. -/
theorem verified_ofMentions (mentions : List Mention) : (ofMentions mentions).Verified :=
  (holds_keysOfMentions mentions).verified (closed_keysOfMentions mentions)

section Injective

variable (texts : (ofMentions mentions).texts.size ≤ 2 ^ 32)

include texts

variable (types : (ofMentions mentions).types.size ≤ 2 ^ 32)

include types

end Injective

/-- If prototypes are mentioned only with methods that have them, the table of methods is not the shorter
one, unless there are more prototypes than indices. -/
theorem protos_le_methods (bare : ∀ mention ∈ mentions, mention.table ≠ .proto) :
    min (ofMentions mentions).protos.size (2 ^ 32) ≤ (ofMentions mentions).methods.size := by
  have holds := holds_ofMentions mentions
  have covered : List.range (min (ofMentions mentions).protos.size (2 ^ 32)) ⊆
      (ofMentions mentions).methods.toList.map fun method => method.proto.toNat := by
    intro place below
    obtain ⟨inside, few⟩ := lt_min_iff.mp (List.mem_range.mp below)
    rw [← Array.length_toList] at inside
    obtain ⟨key, listed, same⟩ := List.mem_map.mp
      ((holds.protos.2 _).mp (Array.mem_toList_iff.mp (List.getElem_mem inside)))
    obtain ⟨method, named, rfl⟩ := method_of_proto bare listed
    refine List.mem_map.mpr ⟨(ofMentions mentions).methodEntry method, ?_, ?_⟩
    · exact Array.mem_toList_iff.mpr ((holds.methods.2 _).mpr (List.mem_map_of_mem named))
    · change ((ofMentions mentions).protoIndex method.2.2).toNat = place
      rw [protoIndex, same, indexIn, holds.protos.1.idxOf_getElem, UInt32.toNat_ofNat',
        Nat.mod_eq_of_lt few]
  have counted := (List.subperm_of_subset List.nodup_range covered).length_le
  rwa [List.length_range, List.length_map, Array.length_toList] at counted

theorem small_of_checked {limits : Limits} (bare : ∀ mention ∈ mentions, mention.table ≠ .proto)
    (checked : Program.checkPool limits (ofMentions mentions) = .ok ()) :
    (ofMentions mentions).Small := by
  obtain ⟨texts, types, fields, methods⟩ := Program.checkPool_ok.mp checked
  have few : ∀ {count : Nat} {limit : UInt32}, count ≤ limit.toNat → count < 2 ^ 32 :=
    fun below => below.trans_lt (UInt32.toNat_lt _)
  have balanced := protos_le_methods bare
  have less := few methods
  exact ⟨few texts, few types, by omega, few fields, less⟩

/-- A builder that passes the limits has the pool of the search. -/
theorem serve_checked {limits : Limits}
    (checked : Program.checkPool limits (serve mentions).2.pool = .ok ()) :
    (serve mentions).2.pool = ofMentions mentions :=
  serve_pool (.inl ((Program.checkPool_ok.mp checked).1.trans (UInt32.toNat_lt _).le))

end Mentions

end Pool

end ClassImage
