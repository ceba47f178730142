import ClassImage.Proofs.Lowering.Exact
import ClassImage.Proofs.Lowering.Interning
import ClassImage.Proofs.Types.Grammar

/-!
Types are told apart by their texts. A descriptor is read back from its text if
the grammar admits it; but no two descriptors share a text, whether the grammar
admits them or not. A pool knows types by their texts alone, and its tables hold
no entry twice, so as long as its indices reach every entry, each type that a pool
is asked for has an entry that stands for it and for nothing else.
-/

namespace ClassImage

namespace Pool

section Entries

variable {pool : Pool} {keys : Keys}

/-- The entry of a table without repetitions is found at its own index only. -/
theorem getElem?_iff_indexIn {α : Type} [DecidableEq α] {entries : Array α} {entry : α} {index : UInt32}
    (distinct : entries.toList.Nodup) (member : entry ∈ entries) (small : entries.size < 2 ^ 32) :
    entries[index.toNat]? = some entry ↔ index = indexIn entries entry := by
  have place : (indexIn entries entry).toNat = entries.toList.idxOf entry := indexIn_toNat member small.le
  rw [← UInt32.toNat_inj, place, ← Array.getElem?_toList]
  constructor
  · intro found
    obtain ⟨inside, here⟩ := List.getElem?_eq_some_iff.mp found
    rw [← here, distinct.idxOf_getElem]
  · intro same
    rw [same]
    exact List.getElem?_idxOf (Array.mem_toList_iff.mpr member)

/-- The index of a type that the pool was asked for, and of no other. -/
theorem Holds.type?_eq_some (holds : pool.Holds (pool.entries keys)) (closed : keys.Closed)
    (small : pool.Small) {descriptor : String} (asked : descriptor ∈ keys.types) {index : UInt32} :
    pool.type? index = some descriptor ↔ index = pool.typeIndex descriptor := by
  have text : descriptor ∈ pool.texts := (holds.texts.2 _).mpr (closed.types descriptor asked)
  have type : pool.textIndex descriptor ∈ pool.types :=
    (holds.types.2 _).mpr (List.mem_map_of_mem asked)
  calc
    _ ↔ ∃ entry, pool.types[index.toNat]? = some entry ∧ pool.texts[entry.toNat]? = some descriptor :=
      Option.bind_eq_some_iff
    _ ↔ pool.types[index.toNat]? = some (pool.textIndex descriptor) := by
      simp only [getElem?_iff_indexIn holds.texts.1 text small.texts]
      simp [textIndex]
    _ ↔ _ := getElem?_iff_indexIn holds.types.1 type small.types

end Entries

/-- The pool has one entry for the type, and that entry stands for no other type. -/
def Separates (pool : Pool) (descriptor : Descriptor) : Prop :=
  ∃ index, pool.type? index = some descriptor.text ∧
    ∀ place (other : Descriptor), pool.type? place = some other.text → (place = index ↔ other = descriptor)

theorem Holds.separates {pool : Pool} {keys : Keys} (holds : pool.Holds (pool.entries keys))
    (closed : keys.Closed) (small : pool.Small) {descriptor : Descriptor}
    (asked : descriptor.text ∈ keys.types) : pool.Separates descriptor := by
  refine ⟨pool.typeIndex descriptor.text, (holds.type?_eq_some closed small asked).mpr rfl, ?_⟩
  intro place other found
  constructor
  · intro same
    have here := (holds.type?_eq_some closed small asked).mpr same
    exact Descriptor.text_injective (Option.some.inj (found.symm.trans here))
  · intro same
    rw [same] at found
    exact (holds.type?_eq_some closed small asked).mp found

/-- In an image that was made, everything that is a type for the program has an entry of its own. -/
theorem separates_of_toImage {session : Session} (reached : session.Reachable) {limits : Limits}
    {image : Image} (made : session.program.toImage limits = .ok image) {mention : Mention}
    (listed : mention ∈ session.program.mentions) {descriptor : Descriptor}
    (member : descriptor.text ∈ mention.types) : image.pool.Separates descriptor := by
  obtain ⟨⟨same, small⟩, _⟩ := Program.toImage_lowered reached.steps.codeAdmitted made
  rw [same] at small ⊢
  exact (holds_keysOfMentions _).separates (closed_keysOfMentions _) small
    (List.mem_flatMap.mpr ⟨mention, listed, member⟩)

end Pool

namespace Descriptor

/-- A descriptor is read exactly from its own text, and only if it is well formed; every other text is
refused by name. No two descriptors have one text, well formed or not. So a builder gives types
the same index exactly if they are the same, and an image has an entry for each type that
its program mentions, which stands for no other. -/
theorem text_distinguishes :
    (∀ text descriptor, parse text = .ok descriptor ↔ descriptor.text = text ∧ descriptor.WellFormed) ∧
    (∀ text fault, parse text = .error fault ↔ fault = .flaw (.descriptor (.unreadable text)) ∧
      ∀ descriptor : Descriptor, descriptor.WellFormed → descriptor.text ≠ text) ∧
    Function.Injective Descriptor.text ∧
    (∀ mentions : List Mention, (Pool.serve mentions).2.pool.Small → ∀ (one other : Descriptor) index place,
      (.type one.text, index) ∈ mentions.zip (Pool.serve mentions).1 →
      (.type other.text, place) ∈ mentions.zip (Pool.serve mentions).1 → (index = place ↔ one = other)) ∧
    ∀ session : Session, session.Reachable → ∀ limits image,
      session.program.toImage limits = .ok image → ∀ mention ∈ session.program.mentions,
        ∀ descriptor : Descriptor, descriptor.text ∈ mention.types → image.pool.Separates descriptor := by
  refine ⟨?_, fun _ _ => parse_error, text_injective, ?_, ?_⟩
  · intro text descriptor
    rw [parse_ok, ofText?_eq_some, and_comm, eq_comm]
  · intro mentions small one other index place here there
    have same := (Pool.answers_serve small).same _ here _ there rfl
    rw [same, Mention.type.injEq, text_injective.eq_iff]
  · intro session reached limits image made mention listed descriptor member
    exact Pool.separates_of_toImage reached made listed member

/-- An array of nothing and a class without a name, which no text is read as, and a class of a program. -/
theorem text_distinguishes_unreadable :
    parse "[V" = .error (.flaw (.descriptor (.unreadable "[V"))) ∧
      ((0 : UInt32) = 1 ↔ array void = object "") ∧
      ∃ image, Session.recursive.program.toImage {} = .ok image ∧ image.pool.Separates (object "A") := by
  obtain ⟨_, refused, distinct, asked, lowered⟩ := text_distinguishes
  refine ⟨(refused _ _).mpr ⟨rfl, ?_⟩, ?_, ?_⟩
  · intro descriptor formed same
    cases @distinct descriptor (array void) same
    cases formed.void rfl
  · refine asked [.type "[V", .type "L;"] ?_ (array void) (object "") 0 1 ?_ ?_
    · constructor <;> decide +kernel
    · decide +kernel
    · decide +kernel
  · have lowers : (Session.recursive.program.toImage {}).toOption.isSome := by decide +kernel
    have listed : Mention.type "LA;" ∈ Session.recursive.program.mentions := by decide +kernel
    cases made : Session.recursive.program.toImage {} with
    | error fault =>
      rw [made] at lowers
      cases lowers
    | ok image =>
      exact ⟨image, rfl, lowered _ Session.recursive_reachable _ _ made _ listed _ (by decide +kernel)⟩

end Descriptor

end ClassImage
