import ClassImage.Bytes.Checksum
import ClassImage.Bytes.Digest
import ClassImage.Format.Pool

/-!
Class images. An image is a header and a payload: the constant pool and the
class table. The header names the format and its version and carries the
image's flags, and a checksum and a digest of the payload. Decoding accepts
exactly the bytes that encoding an image gives.
-/

namespace ClassImage

structure FieldDef where
  field : UInt32
  access : UInt32
deriving DecidableEq

/-- A method's code. The parameters arrive in the last `parameterRegisters` registers. -/
structure CodeItem where
  registers : UInt16
  parameterRegisters : UInt16
  kinds : List UInt8
  instructions : Array RawInstruction
deriving DecidableEq

structure MethodDef where
  method : UInt32
  access : UInt32
  code : Option CodeItem
deriving DecidableEq

structure ClassDef where
  type : UInt32
  access : UInt32
  superclass : Option UInt32
  interfaces : List UInt32
  source : Option UInt32
  fields : List FieldDef
  methods : List MethodDef
deriving DecidableEq

structure Image where
  flags : UInt32
  pool : Pool
  classes : List ClassDef
deriving DecidableEq

/-- Set on images in which some class names its source. -/
def Image.hasSources : UInt32 := 1

namespace Access

def isSet (flags bit : UInt32) : Bool := flags &&& bit != 0

def static : UInt32 := 0x8

def native : UInt32 := 0x100

def interface : UInt32 := 0x200

def abstract : UInt32 := 0x400

end Access

inductive ImageFault where
  | unreadable (fault : ReadFault)
  | invalidMagic (found : Bytes)
  | unsupportedVersion (version : UInt32)
  | checksumMismatch (stored computed : UInt32)
  | digestMismatch (stored computed : Bytes)
  | trailingData (size : Nat)
deriving DecidableEq

namespace Image

def version : UInt32 := 1

def magic : Bytes := [0x44, 0x58, 0x49, 0x52]

end Image

def ImageFault.message : ImageFault → String
  | .unreadable fault => "Decode error: " ++ fault.message
  | .invalidMagic found =>
    let numbers := ", ".intercalate (found.map fun byte => toString byte.toNat)
    "Invalid magic number: expected DXIR, got [" ++ numbers ++ "]"
  | .unsupportedVersion version =>
    s!"Unsupported version: {version.toNat} (current: {Image.version.toNat})"
  | .checksumMismatch stored computed =>
    "Checksum mismatch: expected 0x" ++ Hex.ofNat stored.toNat ++ ", got 0x" ++ Hex.ofNat computed.toNat
  | .digestMismatch stored computed =>
    "Signature mismatch: expected " ++ Hex.ofBytes stored ++ ", got " ++ Hex.ofBytes computed
  | .trailingData size => s!"Trailing data: {size} bytes after the class table"

open Bytes (ofUInt16 ofUInt32 ofOptional ofTable)

namespace CodeItem

def encode (code : CodeItem) : Bytes :=
  ofUInt16 code.registers ++ ofUInt16 code.parameterRegisters ++ code.kinds
    ++ ofTable RawInstruction.encode code.instructions.toList

end CodeItem

namespace MethodDef

def encode (method : MethodDef) : Bytes :=
  ofUInt32 method.method ++ ofUInt32 method.access ++
    match method.code with
    | none => [0]
    | some code => 1 :: code.encode

end MethodDef

namespace ClassDef

def encode (definition : ClassDef) : Bytes :=
  ofUInt32 definition.type ++ ofUInt32 definition.access ++ ofOptional definition.superclass
    ++ ofTable ofUInt32 definition.interfaces ++ ofOptional definition.source
    ++ ofTable (fun field => ofUInt32 field.field ++ ofUInt32 field.access) definition.fields
    ++ ofTable MethodDef.encode definition.methods

end ClassDef

namespace Image

def payload (image : Image) : Bytes :=
  image.pool.encode ++ ofTable ClassDef.encode image.classes

/-- The bytes before the payload. -/
def header (flags : UInt32) (payload : Bytes) : Bytes :=
  magic ++ ofUInt32 version ++ ofUInt32 flags ++ ofUInt32 (Checksum.crc32 payload)
    ++ Digest.sha256 payload

def encode (image : Image) : Bytes :=
  let payload := image.payload
  header image.flags payload ++ payload

/-- The digest an encoded image claims for its payload. -/
def storedDigest? (bytes : Bytes) : Option Bytes := do
  let (front, _) ← Reader.split? 48 bytes
  return front.drop 16

end Image

namespace Reader

def codeItem : Reader CodeItem := do
  let registers ← u16
  let parameterRegisters ← u16
  let kinds ← bytes registers.toNat
  let instructions ← table 1 instruction
  return ⟨registers, parameterRegisters, kinds, instructions.toArray⟩

def methodDef : Reader MethodDef := do
  let method ← u32
  let access ← u32
  let offset ← position
  let tag ← u8
  if tag = 0 then return ⟨method, access, none⟩
  else if tag = 1 then return ⟨method, access, some (← codeItem)⟩
  else throw (.invalidTag tag offset)

def classDef : Reader ClassDef := do
  let type ← u32
  let access ← u32
  let superclass ← optional
  let interfaces ← table 4 u32
  let source ← optional
  let fields ← table 8 do return ⟨← u32, ← u32⟩
  let methods ← table 9 methodDef
  return ⟨type, access, superclass, interfaces, source, fields, methods⟩

end Reader

namespace Image

/-- Reads a header and, once the payload is known to be intact, the payload. -/
def read : ExceptT ImageFault (StateM Cursor) Image := do
  let magic ← ExceptT.adapt .unreadable (Reader.bytes 4)
  refuse (magic ≠ Image.magic) (ImageFault.invalidMagic magic)
  let version ← ExceptT.adapt .unreadable Reader.u32
  refuse (version ≠ Image.version) (ImageFault.unsupportedVersion version)
  let flags ← ExceptT.adapt .unreadable Reader.u32
  let checksum ← ExceptT.adapt .unreadable Reader.u32
  let digest ← ExceptT.adapt .unreadable (Reader.bytes 32)
  let payload := (← get).rest
  refuse (checksum ≠ Checksum.crc32 payload)
    (ImageFault.checksumMismatch checksum (Checksum.crc32 payload))
  refuse (digest ≠ Digest.sha256 payload) (ImageFault.digestMismatch digest (Digest.sha256 payload))
  let pool ← ExceptT.adapt .unreadable Reader.pool
  let classes ← ExceptT.adapt .unreadable (Reader.table 4 Reader.classDef)
  let cursor ← get
  refuse cursor.hasMore (ImageFault.trailingData cursor.remaining)
  return ⟨flags, pool, classes⟩

def decode (bytes : Bytes) : Except ImageFault Image := (read (Cursor.ofBytes bytes)).1

end Image

end ClassImage
