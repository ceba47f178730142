import ClassImage.Format.Pool
import ClassImage.Types.Lookup

/-!
A constant pool under construction. For each table there is a map that knows the
indices that were given out. Interning asks the map, and only when the map does
not know an entry, the entry joins both, so no table is searched.
-/

namespace ClassImage

namespace Pool

/-- A pool, and what is known by which index: types by their descriptors, all else by the entry. -/
structure Builder where
  pool : Pool := {}
  texts : Lookup String UInt32 := {}
  types : Lookup String UInt32 := {}
  protos : Lookup Proto UInt32 := {}
  fields : Lookup FieldRef UInt32 := {}
  methods : Lookup MethodRef UInt32 := {}

namespace Builder

/-- The index of a new entry, and the table and the map that have it. -/
def enter (entries : Array α) (known : Lookup κ UInt32) (key : κ) (entry : α) :
    UInt32 × Array α × Lookup κ UInt32 :=
  let index := UInt32.ofNat entries.size
  (index, entries.push entry, known.insert key index)

/-- The index that an entry is known by. An entry that is not known is new. -/
def intern [DecidableEq α] (entries : Array α) (known : Lookup α UInt32) (entry : α) :
    UInt32 × Array α × Lookup α UInt32 :=
  match known.find? entry with
  | some index => (index, entries, known)
  | none => enter entries known entry entry

def internText (text : String) : StateM Builder UInt32 :=
  modifyGet fun builder =>
    let (index, entries, texts) := intern builder.pool.texts builder.texts text
    (index, { builder with pool := { builder.pool with texts := entries }, texts })

def enterType (descriptor : String) (text : UInt32) : StateM Builder UInt32 :=
  modifyGet fun builder =>
    let (index, entries, types) := enter builder.pool.types builder.types descriptor text
    (index, { builder with pool := { builder.pool with types := entries }, types })

/-- A known type is found by its descriptor, without asking for its text. -/
def internType (descriptor : String) : StateM Builder UInt32 := do
  match (← get).types.find? descriptor with
  | some index => return index
  | none => enterType descriptor (← internText descriptor)

def keepProto (proto : Proto) : StateM Builder UInt32 :=
  modifyGet fun builder =>
    let (index, entries, protos) := intern builder.pool.protos builder.protos proto
    (index, { builder with pool := { builder.pool with protos := entries }, protos })

def internProto (result : String) (parameters : List String) : StateM Builder UInt32 := do
  let result ← internType result
  let parameters ← parameters.mapM internType
  keepProto ⟨result, parameters⟩

def keepField (field : FieldRef) : StateM Builder UInt32 :=
  modifyGet fun builder =>
    let (index, entries, fields) := intern builder.pool.fields builder.fields field
    (index, { builder with pool := { builder.pool with fields := entries }, fields })

def internField (owner name type : String) : StateM Builder UInt32 := do
  let owner ← internType owner
  let type ← internType type
  let name ← internText name
  keepField ⟨owner, type, name⟩

def keepMethod (method : MethodRef) : StateM Builder UInt32 :=
  modifyGet fun builder =>
    let (index, entries, methods) := intern builder.pool.methods builder.methods method
    (index, { builder with pool := { builder.pool with methods := entries }, methods })

def internMethod (owner name result : String) (parameters : List String) :
    StateM Builder UInt32 := do
  let owner ← internType owner
  let proto ← internProto result parameters
  let name ← internText name
  keepMethod ⟨owner, proto, name⟩

end Builder

end Pool

end ClassImage
