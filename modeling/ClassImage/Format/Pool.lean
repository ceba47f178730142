import ClassImage.Format.RawInstruction

/-!
The constant pool: texts, and tables of types, prototypes, fields and methods
that refer to texts and to one another by index. Interning a value gives the
index of its entry and adds the entry only when it is new, so equal requests
share an index. Here it searches the tables; a builder keeps maps to do the same.
-/

namespace ClassImage

/-- A method prototype, by type indices. -/
structure Proto where
  result : UInt32
  parameters : List UInt32
deriving DecidableEq

structure FieldRef where
  owner : UInt32
  type : UInt32
  name : UInt32
deriving DecidableEq

structure MethodRef where
  owner : UInt32
  proto : UInt32
  name : UInt32
deriving DecidableEq

structure Pool where
  texts : Array String := #[]
  types : Array UInt32 := #[]
  protos : Array Proto := #[]
  fields : Array FieldRef := #[]
  methods : Array MethodRef := #[]
deriving DecidableEq

namespace Pool

def text? (pool : Pool) (index : UInt32) : Option String := pool.texts[index.toNat]?

/-- The descriptor text of a type. -/
def type? (pool : Pool) (index : UInt32) : Option String := do
  pool.text? (← pool.types[index.toNat]?)

def proto? (pool : Pool) (index : UInt32) : Option Proto := pool.protos[index.toNat]?

def field? (pool : Pool) (index : UInt32) : Option FieldRef := pool.fields[index.toNat]?

def method? (pool : Pool) (index : UInt32) : Option MethodRef := pool.methods[index.toNat]?

/-- The text of a prototype: the parameters in parentheses, then the result. -/
def protoText? (pool : Pool) (index : UInt32) : Option String := do
  let proto ← pool.proto? index
  let parameters ← proto.parameters.mapM pool.type?
  let result ← pool.type? proto.result
  return "(" ++ String.join parameters ++ ")" ++ result

def size (pool : Pool) : PoolTable → Nat
  | .text => pool.texts.size
  | .type => pool.types.size
  | .proto => pool.protos.size
  | .field => pool.fields.size
  | .method => pool.methods.size

/-- The index of an entry in a table, and the table that has it. -/
def intern [BEq α] (entries : Array α) (entry : α) : UInt32 × Array α :=
  match entries.idxOf? entry with
  | some index => (UInt32.ofNat index, entries)
  | none => (UInt32.ofNat entries.size, entries.push entry)

def internText (text : String) : StateM Pool UInt32 :=
  modifyGet fun pool =>
    let (index, texts) := intern pool.texts text
    (index, { pool with texts })

def internType (descriptor : String) : StateM Pool UInt32 := do
  let text ← internText descriptor
  modifyGet fun pool =>
    let (index, types) := intern pool.types text
    (index, { pool with types })

def internProto (result : String) (parameters : List String) : StateM Pool UInt32 := do
  let result ← internType result
  let parameters ← parameters.mapM internType
  modifyGet fun pool =>
    let (index, protos) := intern pool.protos ⟨result, parameters⟩
    (index, { pool with protos })

def internField (owner name type : String) : StateM Pool UInt32 := do
  let owner ← internType owner
  let type ← internType type
  let name ← internText name
  modifyGet fun pool =>
    let (index, fields) := intern pool.fields ⟨owner, type, name⟩
    (index, { pool with fields })

def internMethod (owner name result : String) (parameters : List String) :
    StateM Pool UInt32 := do
  let owner ← internType owner
  let proto ← internProto result parameters
  let name ← internText name
  modifyGet fun pool =>
    let (index, methods) := intern pool.methods ⟨owner, proto, name⟩
    (index, { pool with methods })

open Bytes (ofTable ofText ofUInt32)

def encode (pool : Pool) : Bytes :=
  ofTable ofText pool.texts.toList
    ++ ofTable ofUInt32 pool.types.toList
    ++ ofTable (fun proto => ofUInt32 proto.result ++ ofTable ofUInt32 proto.parameters)
      pool.protos.toList
    ++ ofTable (fun field => ofUInt32 field.owner ++ ofUInt32 field.type ++ ofUInt32 field.name)
      pool.fields.toList
    ++ ofTable (fun method => ofUInt32 method.owner ++ ofUInt32 method.proto ++ ofUInt32 method.name)
      pool.methods.toList

end Pool

namespace Reader

def proto : Reader Proto := return ⟨← u32, ← table 4 u32⟩

def fieldRef : Reader FieldRef := return ⟨← u32, ← u32, ← u32⟩

def methodRef : Reader MethodRef := return ⟨← u32, ← u32, ← u32⟩

/-- The pool's tables in order. Indices are not checked here. -/
def pool : Reader Pool := do
  let texts ← table 4 text
  let types ← table 4 u32
  let protos ← table 8 proto
  let fields ← table 12 fieldRef
  let methods ← table 12 methodRef
  return ⟨texts.toArray, types.toArray, protos.toArray, fields.toArray, methods.toArray⟩

end Reader

end ClassImage
