import Mathlib.Data.List.Chain
import ClassImage.Proofs.Types.Grammar

/-!
The loop that reads the parameters of a signature, turn by turn. A turn takes one
type from the front of the text, so no run has more turns than the text has
characters. The runs that come to a closing parenthesis are those whose types are
read, and a signature is read exactly from its own text, if it is well formed.
-/

namespace ClassImage

namespace Signature

/-- How far the loop has come: the types it has read, and the text that is left. -/
structure Progress where
  types : List Descriptor
  rest : List Char

/-- One turn of the loop. It stands before a type that holds a value, and takes it. -/
inductive Turn : Progress → Progress → Prop
  | take {types : List Descriptor} {rest after : List Char} {type : Descriptor}
      (more : rest.head? ≠ some ')') (read : Descriptor.front? rest = some (type, after))
      (valued : ¬type.isVoid) : Turn ⟨types, rest⟩ ⟨types ++ [type], after⟩

theorem Turn.shorter {before after : Progress} (turn : Turn before after) :
    after.rest.length < before.rest.length := by
  cases turn with
  | take more read valued => exact Descriptor.front?_shorter read

/-- No run has more turns than there are characters. -/
theorem Turn.length_le {start : Progress} {later : List Progress}
    (run : List.IsChain Turn (start :: later)) : later.length ≤ start.rest.length := by
  induction later generalizing start with
  | nil => exact Nat.zero_le _
  | cons next later ih =>
    rw [List.isChain_cons_cons] at run
    have bound := ih run.2
    have less := run.1.shorter
    rw [List.length_cons]
    omega

open Relation (ReflTransGen)

/-- What is read from some text is what the loop adds until it comes to a parenthesis. -/
theorem turns_of_parameters? {input rest : List Char} {types : List Descriptor}
    (read : parameters? input = some (types, rest)) (done : List Descriptor) :
    ReflTransGen Turn ⟨done, input⟩ ⟨done ++ types, ')' :: rest⟩ := by
  fun_induction parameters? input generalizing types done with
  | case1 input closed =>
    cases read
    obtain ⟨tail, rfl⟩ := List.head?_eq_some_iff.mp closed
    rw [List.append_nil]
    exact .refl
  | case2 | case3 | case4 => cases read
  | case5 input more type after found valued types' rest' inner ih =>
    cases read
    have onward := ih inner (done ++ [type])
    rw [List.append_assoc, List.singleton_append] at onward
    exact .head (.take more found valued) onward

theorem parameters?_of_turns {start : Progress} {types : List Descriptor} {rest : List Char}
    (run : ReflTransGen Turn start ⟨types, ')' :: rest⟩) :
    ∃ added, types = start.types ++ added ∧ parameters? start.rest = some (added, rest) := by
  induction run using ReflTransGen.head_induction_on with
  | refl =>
    refine ⟨[], (List.append_nil _).symm, ?_⟩
    rw [parameters?]
    rfl
  | head turn _ ih =>
    cases turn with
    | @take done input after type more found valued =>
      obtain ⟨added, rfl, read⟩ := ih
      refine ⟨type :: added, by simp, ?_⟩
      rw [parameters?, if_neg more]
      split
      · rename_i none
        cases none.symm.trans found
      · rename_i _ _ other
        cases other.symm.trans found
        rw [if_neg valued, read]

theorem parse_error {text : String} {fault : Fault} :
    parse text = .error fault ↔ fault = .flaw (.descriptor (.unreadable text)) ∧
      ∀ signature : Signature, signature.WellFormed → signature.text ≠ text := by
  rw [← eq_none_iff_unwritten fun _ => ofText?_eq_some, parse]
  cases ofText? text <;> simp [eq_comm]

/-- A signature is read exactly from its own text, and only if it is well formed; every other text is
refused by name. The parameters are those of a run of the loop, and every run of it comes to an end. -/
theorem parse_settles (text : String) :
    (∀ signature, parse text = .ok signature ↔ signature.text = text ∧
      (∀ type ∈ signature.parameters, type.WellFormed ∧ type ≠ .void) ∧ signature.result.WellFormed) ∧
    (∀ fault, parse text = .error fault ↔ fault = .flaw (.descriptor (.unreadable text)) ∧
      ∀ signature : Signature, signature.WellFormed → signature.text ≠ text) ∧
    (∀ input types rest, parameters? input = some (types, rest) ↔
      ReflTransGen Turn ⟨[], input⟩ ⟨types, ')' :: rest⟩) ∧
    ∀ start later, List.IsChain Turn (start :: later) → later.length ≤ start.rest.length := by
  refine ⟨?_, fun _ => parse_error, ?_, fun _ _ => Turn.length_le⟩
  · intro signature
    rw [parse_ok, and_comm, eq_comm]
    exact and_congr_right fun _ => ⟨fun formed => ⟨formed.1, formed.2⟩, fun formed => ⟨formed.1, formed.2⟩⟩
  · intro input types rest
    refine ⟨fun read => turns_of_parameters? read [], ?_⟩
    intro run
    obtain ⟨added, same, read⟩ := parameters?_of_turns run
    rw [same]
    exact read

/-- Class names may hold what has a meaning elsewhere in a signature. -/
theorem parse_settles_nested :
    parse "(L)(;[[JLV;)[La;" =
      .ok ⟨[.object ")(", .array (.array .long), .object "V"], .array (.object "a")⟩ := by
  have named : ∀ {name other : String}, (name ≠ "" ∧ ';' ∉ name.toList) →
      Descriptor.object name = .object other → other ≠ "" ∧ ';' ∉ other.toList := by
    rintro name _ proper ⟨⟩
    exact proper
  refine ((parse_settles _).1 _).mpr ⟨by decide +kernel, ?_, ⟨by decide, ?_, nofun⟩⟩
  · simp only [List.forall_mem_cons, List.not_mem_nil, false_implies, implies_true, and_true]
    refine ⟨⟨⟨by decide, ?_, nofun⟩, nofun⟩, ⟨⟨by decide, nofun, nofun⟩, nofun⟩,
      ⟨⟨by decide, ?_, nofun⟩, nofun⟩⟩
    · exact fun _ => named (by decide)
    · exact fun _ => named (by decide)
  · exact fun _ => named (by decide)

end Signature

end ClassImage
