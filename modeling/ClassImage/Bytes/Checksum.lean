import ClassImage.Bytes.Basic

/-!
The reflected 32-bit cyclic redundancy check. The remainder starts with all
bits set, absorbs one byte at a time by eight shifts, and is complemented at
the end.
-/

namespace ClassImage

namespace Checksum

def polynomial : UInt32 := 0xEDB88320

/-- One shift of the remainder; the polynomial is subtracted when a bit falls out. -/
def shift (remainder : UInt32) : UInt32 :=
  if remainder &&& 1 = 1 then (remainder >>> 1) ^^^ polynomial else remainder >>> 1

def shifts : Nat → UInt32 → UInt32
  | 0, remainder => remainder
  | steps + 1, remainder => shifts steps (shift remainder)

def absorb (remainder : UInt32) (byte : UInt8) : UInt32 :=
  shifts 8 (remainder ^^^ byte.toUInt32)

def crc32 (bytes : Bytes) : UInt32 :=
  bytes.foldl absorb 0xFFFFFFFF ^^^ 0xFFFFFFFF

end Checksum

end ClassImage
