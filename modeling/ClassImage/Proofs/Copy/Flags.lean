import ClassImage.Proofs.Copy.Legible
import ClassImage.Proofs.Copy.Normal

/-!
Which external types are interfaces after encoding. Nothing in an image says so of
a type that it does not define: what is loaded takes a type for an interface where
a class lists it or code calls through it. A program that calls instance methods of
an external interface therefore keeps the interface. It gains one where a class
lists a type that the client has not made an interface.
-/

namespace ClassImage

namespace Program

/-- A copy has the types whose methods are called. -/
theorem Copied.of_called {program copy : Program} (copied : program.Copied copy) (steps : Steps {} program)
    {type : TypeId} (called : program.CallsInstance type) :
    ∃ other, program.Same copy (.type type) (.type other) := by
  obtain ⟨id, call, attached, normal, rfl, -⟩ := called
  have listed := mem_listed steps.definitionsSound steps.bodiesSound attached
  obtain ⟨place, -, _, built, attached', -, references⟩ := forall₂_exists_right copied.listed listed
  cases attached.symm.trans attached'
  have refers : (Symbol.method call.method, UseKind.invoke) ∈ (Instruction.invoke call).references := by
    rw [Instruction.references, normal]
    exact List.mem_singleton.mpr rfl
  obtain ⟨⟨symbol, kind⟩, -, -, same⟩ := forall₂_exists_right references refers
  obtain ⟨slot, there, owned⟩ := slot_of_instruction? attached
  obtain ⟨name, signature, key, -⟩ : program.Admits (.invoke call) :=
    owned ▸ steps.codeAdmitted _ _ there
  cases symbol with
  | method method =>
    obtain ⟨owner, holder, _, _, key', -, owners⟩ := same_method.mp same
    cases key.symm.trans key'
    exact ⟨holder, owners⟩
  | type | field =>
    obtain ⟨_, named, found⟩ := same
    obtain ⟨_, _, _, _, -, -, rfl⟩ := key?_method.mp named
    simp [key?_type, key?_field] at found

/-- After encoding, an external type with a called instance method is an interface if it was one before
or some class lists it. -/
theorem isInterface_of_encode {program copy : Program} {limits : Limits} {bytes : Bytes}
    (steps : Steps {} program) (bounded : program.Bounded) (readable : program.Readable)
    (valid : limits.validate = .ok ()) (encoded : program.encode limits = .ok bytes)
    (decoded : ofBytes bytes = .ok copy) {type : TypeId} (external : program.definition? type = none)
    (called : program.CallsInstance type) :
    ∃ other, program.Same copy (.type type) (.type other) ∧
      ((copy.typeAt other).isInterface ↔
        (program.typeAt type).isInterface ∨ program.ListsInterface type) := by
  obtain ⟨_, decoded', copied⟩ := ofBytes_encode steps bounded readable valid encoded
  cases decoded.symm.trans decoded'
  obtain ⟨image, built, same⟩ := Except.bind_ok.mp encoded
  cases same
  obtain ⟨lowered, -, encodable⟩ :=
    toImage_ok bounded steps.keysSound steps.definitionsSound steps.codeAdmitted valid built
  obtain ⟨target, read, -, reloaded⟩ := ofBytes_ok decoded
  cases read.symm.trans (Image.decode_eq_ok.mpr ⟨encodable, rfl⟩)
  obtain ⟨other, same⟩ := copied.of_called steps called
  refine ⟨other, same, ?_⟩
  rw [reloaded.isInterface_external readable lowered copied same steps external, or_comm,
    and_iff_right called]

end Program

namespace Session

open Program

/-- When a reachable program is encoded and loaded again, an external type with a called instance method
is an interface if it was one before or some class lists it. -/
theorem Reachable.isInterface_reloaded {session : Session} (reached : session.Reachable)
    (bounded : session.program.Bounded) (readable : session.program.Readable) (limits : Limits)
    (valid : limits.validate = .ok ()) (bytes : Bytes)
    (encoded : session.program.encode limits = .ok bytes) (copy : Program)
    (decoded : Program.ofBytes bytes = .ok copy) (type : TypeId)
    (external : session.program.definition? type = none) (called : session.program.CallsInstance type) :
    ∃ other, session.program.Same copy (.type type) (.type other) ∧
      ((copy.typeAt other).isInterface ↔
        (session.program.typeAt type).isInterface ∨ session.program.ListsInterface type) :=
  isInterface_of_encode reached.steps bounded readable valid encoded decoded external called

/-- A class that lists an external type, which nothing makes an interface, and calls a method of it. -/
def listing : Session :=
  [.type (.object "X"), .method ⟨0⟩ "m" ⟨[], .void⟩ (some false),
    .define (.object "A") { interfaces := [⟨0⟩] }, .declareMethod ⟨1⟩ "f" ⟨[], .void⟩ 8, .createBody ⟨1⟩,
    .freshLocal .reference, .make (.const ⟨0, .reference⟩ .null),
    .call ⟨.normal, some ⟨0⟩, [⟨0, .reference⟩], none⟩, .make (.ret none),
    .append ⟨1⟩ (.const ⟨0, .reference⟩ .null),
    .append ⟨1⟩ (.invoke ⟨.normal, ⟨0⟩, ⟨0⟩, [⟨0, .reference⟩], none⟩),
    .append ⟨1⟩ (.ret none)].foldl perform {}

theorem listing_reachable : listing.Reachable := by
  rw [listing]
  simp only [List.foldl_cons, List.foldl_nil]
  refine .next (.next (.next (.next (.next (.next (.next (.next (.next (.next (.next (.next .start
    ?_) ?_) ?_) ?_) ?_) ?_) ?_) ?_) ?_) ?_) ?_) ?_
  · trivial
  · change Option.isSome _ = true
    decide +kernel
  · refine ⟨by simp, ?_⟩
    decide +kernel
  · change Option.isSome _ = true
    decide +kernel
  · change Option.isSome _ = true
    decide +kernel
  · trivial
  · refine ⟨by simp, by simp, trivial, ?_⟩
    intro slot member
    left
    revert slot
    decide +kernel
  · refine ⟨?_, ?_⟩
    · rintro _ ⟨⟩
      decide +kernel
    · intro slot member
      left
      revert slot
      decide +kernel
  · exact ⟨by simp, by simp, trivial, by simp [Instruction.locals, Instruction.writes, Instruction.reads]⟩
  · exact ⟨by decide +kernel, by decide +kernel⟩
  · exact ⟨by decide +kernel, by decide +kernel⟩
  · exact ⟨by decide +kernel, by decide +kernel⟩

/-- The listed type stays external and no interface, and its method is called. -/
theorem listing_listed : listing.program.definition? ⟨0⟩ = none ∧
    (listing.program.typeAt ⟨0⟩).isInterface = false ∧ listing.program.CallsInstance ⟨0⟩ ∧
    listing.program.ListsInterface ⟨0⟩ := by
  have listed : (listing.program.header? ⟨1⟩).map Header.interfaces = some [⟨0⟩] := by decide +kernel
  obtain ⟨header, outline, interfaces⟩ := Option.map_eq_some_iff.mp listed
  refine ⟨by decide +kernel, by decide +kernel, ?_, ⟨1⟩, header, outline, by simp [interfaces]⟩
  refine ⟨⟨1⟩, ⟨.normal, ⟨0⟩, ⟨0⟩, [⟨0, .reference⟩], none⟩, ?_, rfl, rfl, ?_⟩ <;> decide +kernel

theorem listing_reloads : listing.program.Bounded ∧ listing.program.Readable ∧
    ∃ bytes copy, listing.program.encode {} = .ok bytes ∧ Program.ofBytes bytes = .ok copy := by
  have reached := listing_reachable
  have bounded : listing.program.Bounded := by
    apply Bounded.of_entries <;> decide +kernel
  have readable : listing.program.Readable := by
    constructor <;> decide +kernel
  obtain ⟨bytes, encoded⟩ := @exists_encode listing.program (by decide +kernel)
  obtain ⟨copy, decoded, -⟩ := ofBytes_encode reached.steps bounded readable rfl encoded
  exact ⟨bounded, readable, bytes, copy, encoded, decoded⟩

theorem isInterface_reloaded_listing :
    ∃ bytes copy other, listing.program.encode {} = .ok bytes ∧ Program.ofBytes bytes = .ok copy ∧
      listing.program.Same copy (.type ⟨0⟩) (.type other) ∧
      (listing.program.typeAt ⟨0⟩).isInterface = false ∧ (copy.typeAt other).isInterface = true := by
  obtain ⟨external, plain, called, listed⟩ := listing_listed
  obtain ⟨bounded, readable, bytes, copy, encoded, decoded⟩ := listing_reloads
  obtain ⟨other, same, interface⟩ := Reachable.isInterface_reloaded listing_reachable bounded readable {}
    rfl bytes encoded copy decoded ⟨0⟩ external called
  exact ⟨bytes, copy, other, encoded, decoded, same, plain, interface.mpr (.inr listed)⟩

/-- A type that is no interface, although a class lists it, is one after encoding. -/
theorem isInterface_gained : ¬∀ (session : Session) (limits : Limits) (bytes : Bytes) (copy : Program)
    (type other : TypeId), session.Reachable → session.program.Readable → limits.validate = .ok () →
    session.program.encode limits = .ok bytes → Program.ofBytes bytes = .ok copy →
    session.program.definition? type = none → session.program.CallsInstance type →
    session.program.Same copy (.type type) (.type other) →
    (copy.typeAt other).isInterface = (session.program.typeAt type).isInterface := by
  intro always
  obtain ⟨external, plain, called, listed⟩ := listing_listed
  obtain ⟨bounded, readable, bytes, copy, encoded, decoded⟩ := listing_reloads
  have reached := listing_reachable
  obtain ⟨other, same, interface⟩ := isInterface_of_encode reached.steps bounded readable rfl encoded
    decoded external called
  have kept := always listing {} bytes copy ⟨0⟩ other reached readable rfl encoded decoded external
    called same
  rw [interface.mpr (.inr listed), plain] at kept
  cases kept

end Session

end ClassImage
