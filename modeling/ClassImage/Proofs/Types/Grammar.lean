import Mathlib.Tactic
import ClassImage.Program.Fault

/-!
The grammar of descriptors and signatures. A reader takes one text from the front
and leaves the rest, so a descriptor is read exactly where its own text stands,
whatever comes after it, and exactly if it is well formed. Texts that follow one
another are therefore told apart, and a signature is read exactly from its text.
-/

namespace ClassImage

/-- A reader that takes well-formed values from their texts refuses a text exactly if it is none of these. -/
theorem eq_none_iff_unwritten {read : Option α} {formed : α → Prop} {write : α → String} {text : String}
    (reads : ∀ value, read = some value ↔ formed value ∧ text = write value) :
    read = none ↔ ∀ value, formed value → write value ≠ text := by
  rw [Option.eq_none_iff_forall_ne_some]
  refine forall_congr' fun value => ?_
  rw [ne_eq, reads, not_and, eq_comm]

namespace Descriptor

/-- What the grammar asks of a descriptor. -/
structure WellFormed (descriptor : Descriptor) : Prop where
  dimensions : descriptor.dimensions ≤ maxDimensions
  named : ∀ name, descriptor.innermost = .object name → name ≠ "" ∧ ';' ∉ name.toList
  void : descriptor.innermost = .void → descriptor.dimensions = 0

theorem dimensions_arrayOf (dimensions : Nat) (element : Descriptor) :
    (arrayOf dimensions element).dimensions = dimensions + element.dimensions := by
  induction dimensions with
  | zero => rw [arrayOf, Nat.zero_add]
  | succ count ih => rw [arrayOf, Descriptor.dimensions, ih, Nat.add_right_comm]

theorem innermost_arrayOf (dimensions : Nat) (element : Descriptor) :
    (arrayOf dimensions element).innermost = element.innermost := by
  induction dimensions with
  | zero => rfl
  | succ count ih => exact ih

theorem dimensions_innermost (descriptor : Descriptor) : descriptor.innermost.dimensions = 0 := by
  induction descriptor with
  | array element ih => exact ih
  | _ => rfl

theorem arrayOf_innermost (descriptor : Descriptor) :
    arrayOf descriptor.dimensions descriptor.innermost = descriptor := by
  induction descriptor with
  | array element ih => exact congrArg Descriptor.array ih
  | _ => rfl

theorem innermost_of_dimensions {descriptor : Descriptor} (none : descriptor.dimensions = 0) :
    descriptor.innermost = descriptor := by
  have whole := arrayOf_innermost descriptor
  rwa [none] at whole

theorem toList_arrayOf (dimensions : Nat) (element : Descriptor) :
    (arrayOf dimensions element).text.toList =
      List.replicate dimensions '[' ++ element.text.toList := by
  induction dimensions with
  | zero => rfl
  | succ dimensions ih =>
    rw [arrayOf, text, String.toList_append, ih, List.replicate_succ]
    rfl

theorem toList_object (name : String) : (object name).text.toList = 'L' :: (name.toList ++ [';']) := by
  rw [text, String.toList_append, String.toList_append]
  rfl

/-- Descriptors outside the grammar have texts of their own as well. -/
theorem text_injective : Function.Injective Descriptor.text := by
  intro first second same
  rw [← String.toList_inj] at same
  induction first generalizing second with
  | object name =>
    cases second <;> simp [text] at same
    rw [String.toList_inj.mp same]
  | array element ih =>
    cases second <;> simp [text] at same
    rw [ih same]
  | _ => cases second <;> simp [text] at same ⊢

/-- A class name is read up to the first semicolon. -/
theorem className?_eq_some {input rest : List Char} {descriptor : Descriptor} :
    className? input = some (descriptor, rest) ↔
      ∃ name, descriptor = .object name ∧ (name ≠ "" ∧ ';' ∉ name.toList) ∧
        input = name.toList ++ ';' :: rest := by
  constructor
  · intro read
    unfold className? at read
    split at read
    · cases read
    · rename_i last after found
      split at read
      · cases read
      · rename_i filled
        cases read
        have ends := List.head?_dropWhile_not (· ≠ ';') input
        have whole := @List.takeWhile_append_dropWhile _ (· ≠ ';') input
        rw [found] at ends whole
        have ends : last = ';' := by simpa using ends
        refine ⟨_, rfl, ⟨?_, ?_⟩, ?_⟩
        · rintro empty
          rw [← String.toList_inj, String.toList_ofList] at empty
          exact filled (List.isEmpty_iff.mpr empty)
        · rw [String.toList_ofList]
          intro member
          simpa using List.all_eq_true.mp List.all_takeWhile ';' member
        · rw [ends] at whole
          rw [String.toList_ofList, whole]
  · rintro ⟨name, rfl, ⟨filled, plain⟩, rfl⟩
    have inside : ∀ c ∈ name.toList, (c ≠ ';' : Bool) = true := by
      rintro c member
      rw [decide_eq_true_iff]
      rintro rfl
      exact plain member
    have front : (name.toList ++ ';' :: rest).takeWhile (· ≠ ';') = name.toList := by
      rw [List.takeWhile_append_of_pos inside]
      simp
    have back : (name.toList ++ ';' :: rest).dropWhile (· ≠ ';') = ';' :: rest := by
      rw [List.dropWhile_append_of_pos inside]
      simp
    have some' : name.toList.isEmpty = false := by
      rw [List.isEmpty_eq_false_iff]
      intro empty
      exact filled (String.toList_inj.mp empty)
    rw [className?, back]
    simp only [front, some', Bool.false_eq_true, if_false, String.ofList_toList]

theorem element?_eq_some {input rest : List Char} {descriptor : Descriptor} :
    element? input = some (descriptor, rest) ↔
      descriptor.dimensions = 0 ∧ (∀ name, descriptor = .object name → name ≠ "" ∧ ';' ∉ name.toList) ∧
        input = descriptor.text.toList ++ rest := by
  constructor
  · intro read
    unfold element? at read
    split at read
    case h_10 =>
      obtain ⟨name, rfl, proper, rfl⟩ := className?_eq_some.mp read
      refine ⟨rfl, ?_, by rw [toList_object]; simp⟩
      rintro _ ⟨⟩
      exact proper
    case h_11 => cases read
    all_goals
      cases read
      exact ⟨rfl, by rintro _ ⟨⟩, rfl⟩
  · rintro ⟨none, proper, rfl⟩
    cases descriptor with
    | object name =>
      rw [toList_object, List.cons_append, List.append_assoc]
      exact className?_eq_some.mpr ⟨name, rfl, proper name rfl, rfl⟩
    | array element => cases none
    | _ => rfl

/-- Which characters a text can begin with. -/
theorem head_text (descriptor : Descriptor) :
    ∃ first tail, descriptor.text.toList = first :: tail ∧ first ≠ ')' ∧
      (descriptor.dimensions = 0 → first ≠ '[') := by
  cases descriptor with
  | object name => exact ⟨_, _, toList_object name, by decide, fun _ => by decide⟩
  | array element => exact ⟨_, _, toList_arrayOf 1 element, by decide, by rintro ⟨⟩⟩
  | _ => exact ⟨_, _, rfl, by decide, by decide⟩

theorem brackets_text {element : Descriptor} (none : element.dimensions = 0) (dimensions : Nat)
    (rest : List Char) :
    ((List.replicate dimensions '[' ++ (element.text.toList ++ rest)).takeWhile (· = '[') =
        List.replicate dimensions '[') ∧
      (List.replicate dimensions '[' ++ (element.text.toList ++ rest)).dropWhile (· = '[') =
        element.text.toList ++ rest := by
  have inside : ∀ c ∈ List.replicate dimensions '[', (c = '[' : Bool) = true := by
    intro c member
    rw [decide_eq_true_iff]
    exact List.eq_of_mem_replicate member
  obtain ⟨first, tail, whole, -, other⟩ := head_text element
  rw [List.takeWhile_append_of_pos inside, List.dropWhile_append_of_pos inside, whole]
  simp [other none]

/-- A descriptor is read exactly where its text stands. -/
theorem front?_eq_some {input rest : List Char} {descriptor : Descriptor} :
    front? input = some (descriptor, rest) ↔
      descriptor.WellFormed ∧ input = descriptor.text.toList ++ rest := by
  constructor
  · intro read
    have brackets : input.takeWhile (· = '[') =
        List.replicate (input.takeWhile (· = '[')).length '[' := by
      apply List.eq_replicate_of_mem
      intro bracket member
      simpa using List.all_eq_true.mp List.all_takeWhile bracket member
    unfold front? at read
    simp only at read
    split at read
    · cases read
    · rename_i few
      split at read
      · cases read
      · rename_i element after inner
        obtain ⟨none, proper, left⟩ := element?_eq_some.mp inner
        split at read
        · cases read
        · rename_i apart
          cases read
          have own := innermost_of_dimensions none
          refine ⟨⟨?_, ?_, ?_⟩, ?_⟩
          · rw [dimensions_arrayOf, none, Nat.add_zero]
            exact Nat.not_lt.mp few
          · rw [innermost_arrayOf, own]
            exact proper
          · rw [innermost_arrayOf, own, dimensions_arrayOf, none, Nat.add_zero]
            intro void
            by_contra some'
            exact apart ⟨Nat.pos_of_ne_zero some', void⟩
          · rw [toList_arrayOf, ← brackets, List.append_assoc, ← left, List.takeWhile_append_dropWhile]
  · rintro ⟨formed, rfl⟩
    have none := dimensions_innermost descriptor
    have text := toList_arrayOf descriptor.dimensions descriptor.innermost
    rw [arrayOf_innermost] at text
    rw [text, List.append_assoc]
    obtain ⟨front, back⟩ := brackets_text none descriptor.dimensions rest
    have inner : element? (descriptor.innermost.text.toList ++ rest) = some (descriptor.innermost, rest) :=
      element?_eq_some.mpr ⟨none, formed.named, rfl⟩
    have few : ¬descriptor.dimensions > maxDimensions := Nat.not_lt.mpr formed.dimensions
    have apart : ¬(0 < descriptor.dimensions ∧ descriptor.innermost = .void) := by
      rintro ⟨some', void⟩
      rw [formed.void void] at some'
      exact absurd some' (lt_irrefl 0)
    rw [front?, back]
    simp only [front, List.length_replicate, if_neg few, inner, if_neg apart, arrayOf_innermost]

theorem ofText?_eq_some {text : String} {descriptor : Descriptor} :
    ofText? text = some descriptor ↔ descriptor.WellFormed ∧ text = descriptor.text := by
  have whole : ofText? text = some descriptor ↔ front? text.toList = some (descriptor, []) := by
    unfold ofText?
    split
    · rename_i found
      simp [found]
    · rename_i none
      simp only [reduceCtorEq, false_iff]
      exact none descriptor
  rw [whole, front?_eq_some, List.append_nil, String.toList_inj]

theorem parse_ok {text : String} {descriptor : Descriptor} :
    Descriptor.parse text = .ok descriptor ↔ Descriptor.ofText? text = some descriptor := by
  unfold parse
  cases ofText? text <;> simp

theorem parse_error {text : String} {fault : Fault} :
    Descriptor.parse text = .error fault ↔ fault = .flaw (.descriptor (.unreadable text)) ∧
      ∀ descriptor : Descriptor, descriptor.WellFormed → descriptor.text ≠ text := by
  rw [← eq_none_iff_unwritten fun _ => ofText?_eq_some, parse]
  cases ofText? text <;> simp [eq_comm]

/-- A text that is read as a descriptor is the text of that descriptor. -/
theorem text_of_parse {text : String} {descriptor : Descriptor}
    (read : Descriptor.parse text = .ok descriptor) : descriptor.text = text :=
  (ofText?_eq_some.mp (parse_ok.mp read)).2.symm

end Descriptor

namespace Signature

/-- What the grammar asks of a signature. -/
structure WellFormed (signature : Signature) : Prop where
  parameters : ∀ type ∈ signature.parameters, type.WellFormed ∧ type ≠ .void
  result : signature.result.WellFormed

theorem isVoid_iff {type : Descriptor} : type.isVoid ↔ type = .void := by
  cases type <;> simp [Descriptor.isVoid]

/-- Parameters are read up to the parenthesis that stands where the next one would begin. -/
theorem parameters?_eq_some {input rest : List Char} {types : List Descriptor} :
    parameters? input = some (types, rest) ↔
      (∀ type ∈ types, type.WellFormed ∧ type ≠ .void) ∧
        input = (types.flatMap fun type => type.text.toList) ++ ')' :: rest := by
  constructor
  · intro read
    fun_induction parameters? input generalizing types with
    | case1 input closed =>
      cases read
      obtain ⟨tail, rfl⟩ := List.head?_eq_some_iff.mp closed
      exact ⟨by simp, rfl⟩
    | case2 | case3 | case4 => cases read
    | case5 input _ descriptor after found some' types' left inner ih =>
      cases read
      obtain ⟨formed, rfl⟩ := Descriptor.front?_eq_some.mp found
      obtain ⟨others, rfl⟩ := ih inner
      refine ⟨List.forall_mem_cons.mpr ⟨⟨formed, ?_⟩, others⟩, by simp⟩
      exact fun void => some' (isVoid_iff.mpr void)
  · rintro ⟨formed, rfl⟩
    induction types with
    | nil =>
      rw [parameters?]
      rfl
    | cons type types ih =>
      rw [List.forall_mem_cons] at formed
      obtain ⟨⟨formed, valued⟩, others⟩ := formed
      obtain ⟨first, tail, whole, other, -⟩ := type.head_text
      have open' : ¬(((type :: types).flatMap fun type => type.text.toList) ++ ')' :: rest).head? =
          some ')' := by
        simp [whole, other]
      have found : Descriptor.front? (((type :: types).flatMap fun type => type.text.toList) ++
          ')' :: rest) = some (type, (types.flatMap fun type => type.text.toList) ++ ')' :: rest) :=
        Descriptor.front?_eq_some.mpr ⟨formed, by simp⟩
      rw [parameters?, if_neg open']
      split
      · rename_i none
        cases none.symm.trans found
      · rename_i _ _ read
        cases read.symm.trans found
        have kept : ¬type.isVoid := fun void => valued (isVoid_iff.mp void)
        rw [if_neg kept, ih others]

theorem toList_text (signature : Signature) :
    signature.text.toList = '(' :: ((signature.parameters.flatMap fun type => type.text.toList) ++
      ')' :: signature.result.text.toList) := by
  rw [text, String.toList_append, String.toList_append, String.toList_append, String.toList_join,
    List.flatMap_map, List.append_assoc, List.append_assoc]
  rfl

/-- A signature is read exactly from its text. -/
theorem ofText?_eq_some {text : String} {signature : Signature} :
    ofText? text = some signature ↔ signature.WellFormed ∧ text = signature.text := by
  rw [← String.toList_inj, toList_text]
  unfold ofText?
  constructor
  · intro read
    split at read
    · rename_i input opened
      split at read
      · cases read
      · rename_i types rest inner
        split at read
        · rename_i result last
          cases read
          obtain ⟨formed, rfl⟩ := parameters?_eq_some.mp inner
          obtain ⟨formed', rfl⟩ := Descriptor.front?_eq_some.mp last
          exact ⟨⟨formed, formed'⟩, by rw [opened, List.append_nil]⟩
        · cases read
    · cases read
  · rintro ⟨formed, whole⟩
    have inner : parameters? ((signature.parameters.flatMap fun type => type.text.toList) ++
        ')' :: signature.result.text.toList) = some (signature.parameters, signature.result.text.toList) :=
      parameters?_eq_some.mpr ⟨formed.parameters, rfl⟩
    have last : Descriptor.front? signature.result.text.toList = some (signature.result, []) :=
      Descriptor.front?_eq_some.mpr ⟨formed.result, (List.append_nil _).symm⟩
    simp only [whole, inner, last]

theorem parse_ok {text : String} {signature : Signature} :
    Signature.parse text = .ok signature ↔ signature.WellFormed ∧ text = signature.text := by
  rw [← ofText?_eq_some]
  unfold parse
  cases ofText? text <;> simp

end Signature

end ClassImage
