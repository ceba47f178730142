import ClassImage.Proofs.Lowering.Mentions

/-!
A builder as its client sees it. A client mentions texts, types, prototypes, fields
and methods in any order, and is given indices. The index that is given for a
mention depends on the mention and on the pool in the end, not on the time, so
equal mentions have equal indices; and it stands for what was mentioned, so
mentions of one table with equal indices are equal.
-/

namespace ClassImage

namespace Pool

/-- The entry at the index is the one that was mentioned, down to its texts. -/
def Meets (pool : Pool) (index : UInt32) : Mention → Prop
  | .text value => pool.text? index = some value
  | .type descriptor => pool.type? index = some descriptor
  | .proto result parameters => pool.ProtoIs index result parameters ∧
    pool.protoText? index = some ("(" ++ String.join parameters ++ ")" ++ result)
  | .field owner name held => pool.FieldIs index owner name held
  | .method owner name result parameters => pool.MethodIs index owner name result parameters

section Uniqueness

variable {pool : Pool} {index : UInt32}

theorem ProtoIs.unique {result result' : String} {parameters parameters' : List String}
    (here : pool.ProtoIs index result parameters) (there : pool.ProtoIs index result' parameters') :
    result = result' ∧ parameters = parameters' := by
  obtain ⟨proto, found, produced, taken⟩ := here
  obtain ⟨_, found', produced', taken'⟩ := there
  cases found.symm.trans found'
  have single : Relator.RightUnique fun index text => pool.type? index = some text :=
    fun _ _ _ one other => Option.some.inj (one.symm.trans other)
  exact ⟨Option.some.inj (produced.symm.trans produced'), single.forall₂ taken taken'⟩

theorem ProtoIs.protoText? {result : String} {parameters : List String}
    (meant : pool.ProtoIs index result parameters) :
    pool.protoText? index = some ("(" ++ String.join parameters ++ ")" ++ result) := by
  obtain ⟨proto, found, produced, taken⟩ := meant
  have parts : proto.parameters.mapM pool.type? = some parameters := by
    generalize proto.parameters = indices at taken
    induction taken with
    | nil => rfl
    | cons here _ ih => simp [here, ih]
  simp [Pool.protoText?, found, produced, parts]

/-- An entry meets one mention of its table at most. -/
theorem Meets.unique {one other : Mention} (here : pool.Meets index one) (there : pool.Meets index other)
    (same : one.table = other.table) : one = other := by
  cases one with
  | text value =>
    cases other with
    | text value' => exact congrArg _ (Option.some.inj (here.symm.trans there))
    | _ => cases same
  | type descriptor =>
    cases other with
    | type descriptor' => exact congrArg _ (Option.some.inj (here.symm.trans there))
    | _ => cases same
  | proto result parameters =>
    cases other with
    | proto result' parameters' =>
      obtain ⟨rfl, rfl⟩ := here.1.unique there.1
      rfl
    | _ => cases same
  | field owner name held =>
    cases other with
    | field owner' name' held' =>
      obtain ⟨field, found, owned, typed, named⟩ := here
      obtain ⟨_, found', owned', typed', named'⟩ := there
      cases found.symm.trans found'
      cases owned.symm.trans owned'
      cases typed.symm.trans typed'
      cases named.symm.trans named'
      rfl
    | _ => cases same
  | method owner name result parameters =>
    cases other with
    | method owner' name' result' parameters' =>
      obtain ⟨method, found, owned, shaped, named⟩ := here
      obtain ⟨_, found', owned', shaped', named'⟩ := there
      cases found.symm.trans found'
      cases owned.symm.trans owned'
      cases named.symm.trans named'
      obtain ⟨rfl, rfl⟩ := shaped.unique shaped'
      rfl
    | _ => cases same

end Uniqueness

theorem denotes_mention {final : Pool} (mention : Mention) :
    Lower.Denotes final (Lower.intern mention.intern) fun index => final.Meets index mention := by
  cases mention with
  | text value => exact Lower.denotes_text value
  | type descriptor => exact Lower.denotes_type descriptor
  | proto result parameters =>
    exact (Lower.denotes_proto result parameters).imp fun index meant => ⟨meant, meant.protoText?⟩
  | field owner name held => exact Lower.denotes_field owner name held
  | method owner name result parameters => exact Lower.denotes_method owner name result parameters

theorem serve_meets (mentions : List Mention) (small : (serve mentions).2.pool.Small) :
    List.Forall₂ (fun mention index => (serve mentions).2.pool.Meets index mention) mentions
      (serve mentions).1 := by
  have denotes : Lower.Denotes (serve mentions).2.pool
      (mentions.mapM fun mention => Lower.intern mention.intern)
      (List.Forall₂ (fun mention index => (serve mentions).2.pool.Meets index mention) mentions) :=
    .mapM fun mention _ => denotes_mention mention
  rw [← Lower.intern_mapM] at denotes
  exact ((denotes {} _ _ rfl).2 .empty (.refl _) small).2

theorem serve_indices {mentions : List Mention} (small : (serve mentions).2.pool.Small) :
    (serve mentions).1 = mentions.map (serve mentions).2.pool.indexFor := by
  have searched := (@serve_search mentions (.inl small.texts.le)).1
  have given := ((gives_mentions mentions {}).2 (.refl _)).1
  rwa [searched] at given

theorem length_serve {mentions : List Mention} (small : (serve mentions).2.pool.Small) :
    (serve mentions).1.length = mentions.length := by
  rw [serve_indices small, List.length_map]

/-- The tables only grow. -/
theorem within_serve (mentions : List Mention) (builder : Builder) :
    builder.pool.Within (serve mentions builder).2.pool :=
  (Builder.Mirrors.mapM mentions Mention.mirrors).grows builder

theorem Within.small {pool final : Pool} (within : pool.Within final) (small : final.Small) : pool.Small where
  texts := within.texts.length_le.trans_lt small.texts
  types := within.types.length_le.trans_lt small.types
  protos := within.protos.length_le.trans_lt small.protos
  fields := within.fields.length_le.trans_lt small.fields
  methods := within.methods.length_le.trans_lt small.methods

/-- What a client knows of a builder after some mentions. -/
structure Answers (mentions : List Mention) (indices : List UInt32) (builder : Builder) : Prop where
  each : indices.length = mentions.length
  /-- Mentions of one table are given the same index exactly if they are the same. -/
  same : ∀ one ∈ mentions.zip indices, ∀ other ∈ mentions.zip indices, one.1.table = other.1.table →
    (one.2 = other.2 ↔ one.1 = other.1)
  /-- Every index that was given stands for what was mentioned. -/
  meets : ∀ answer ∈ mentions.zip indices, builder.pool.Meets answer.2 answer.1
  texts : builder.pool.texts.toList.Nodup
  types : builder.pool.types.toList.Nodup
  protos : builder.pool.protos.toList.Nodup
  fields : builder.pool.fields.toList.Nodup
  methods : builder.pool.methods.toList.Nodup
  verified : builder.pool.verify = .ok ()
  /-- Every map finds what is in its table, and nothing else. -/
  inStep : builder.InStep
  /-- A search of the tables, without any map, gives the same indices and ends with the same pool. -/
  searched : (mentions.mapM Mention.search).run {} = (indices, builder.pool)

theorem answers_serve {mentions : List Mention} (small : (serve mentions).2.pool.Small) :
    Answers mentions (serve mentions).1 (serve mentions).2 := by
  obtain ⟨searched, inStep⟩ := @serve_search mentions (.inl small.texts.le)
  have pointwise : List.Forall₂ (fun mention index => index = (serve mentions).2.pool.indexFor mention)
      mentions (serve mentions).1 := by
    rw [serve_indices small, List.forall₂_map_right_iff]
    exact List.forall₂_same.mpr fun _ _ => rfl
  have given : ∀ answer ∈ mentions.zip (serve mentions).1,
      answer.2 = (serve mentions).2.pool.indexFor answer.1 :=
    fun answer member => (List.forall₂_iff_zip.mp pointwise).2 member
  have met : ∀ answer ∈ mentions.zip (serve mentions).1,
      (serve mentions).2.pool.Meets answer.2 answer.1 :=
    fun answer member => (List.forall₂_iff_zip.mp (serve_meets mentions small)).2 member
  have pool := @serve_pool mentions (.inl small.texts.le)
  have holds := holds_ofMentions mentions
  rw [← pool] at holds
  constructor
  case each => exact length_serve small
  case same =>
    intro one here other there kind
    constructor
    · intro equal
      exact (met one here).unique (equal ▸ met other there) kind
    · intro equal
      rw [given one here, given other there, equal]
  case meets => exact met
  case texts => exact holds.texts.1
  case types => exact holds.types.1
  case protos => exact holds.protos.1
  case fields => exact holds.fields.1
  case methods => exact holds.methods.1
  case verified =>
    rw [pool]
    exact verify_ok.mpr (verified_ofMentions mentions)
  case inStep => exact inStep
  case searched => exact searched

/-- At any time during a run of mentions, every index given so far is known for what it is, the maps are in
step with the tables, and a search of the tables would have given the same. -/
theorem serve_answers (mentions : List Mention) (small : (serve mentions).2.pool.Small) (time : Nat) :
    Answers (mentions.take time) ((serve mentions).1.take time) (serve (mentions.take time)).2 := by
  have split := serve_append (mentions.take time) (mentions.drop time) {}
  rw [List.take_append_drop] at split
  have earlier : (serve (mentions.take time)).2.pool.Small := by
    rw [split] at small
    exact (within_serve _ _).small small
  have given : (serve mentions).1.take time = (serve (mentions.take time)).1 := by
    have before : (serve (mentions.take time)).1 <+: (serve mentions).1 := by
      rw [split]
      exact List.prefix_append _ _
    rw [List.prefix_iff_eq_take.mp before, length_serve earlier, List.length_take, ← length_serve small]
    exact List.take_eq_take_min
  rw [given]
  exact answers_serve earlier

/-- Methods of one name that differ in the order of their parameters, around a field, a text that is
a type's, and things that were mentioned before. -/
theorem serve_answers_overloaded :
    let mentions : List Mention :=
      [.method "La;" "m" "V" ["I", "J"], .text "La;", .method "La;" "m" "V" ["J", "I"],
        .field "La;" "m" "I", .proto "V" ["J", "I"], .type "J", .method "La;" "m" "V" ["I", "J"]]
    (serve mentions).2.pool.Small ∧ (serve mentions).1 = [0, 0, 1, 0, 1, 3, 0] ∧
      Answers (mentions.take 5) ((serve mentions).1.take 5) (serve (mentions.take 5)).2 := by
  have small : (serve [.method "La;" "m" "V" ["I", "J"], .text "La;", .method "La;" "m" "V" ["J", "I"],
      .field "La;" "m" "I", .proto "V" ["J", "I"], .type "J",
      .method "La;" "m" "V" ["I", "J"]]).2.pool.Small := by
    constructor <;> decide +kernel
  exact ⟨small, by decide +kernel, serve_answers _ small 5⟩

end Pool

end ClassImage
