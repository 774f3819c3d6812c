/-!
# Crc32 — the standard 32-bit cyclic redundancy check

Reflected polynomial `0xEDB88320`, register started and finished with all ones.  The register is fed bit by bit: no
table, so what a byte does to the register can be read off the definition.
-/
namespace FactBase
namespace Crc32

/-- Shifts one bit out of the register. -/
def shift (r : UInt32) : UInt32 := if r &&& 1 = 1 then (r >>> 1) ^^^ 0xEDB88320 else r >>> 1

def shift8 (r : UInt32) : UInt32 := shift (shift (shift (shift (shift (shift (shift (shift r)))))))

def feed (r : UInt32) (b : UInt8) : UInt32 := shift8 (r ^^^ b.toUInt32)

def feedAll (r : UInt32) (bytes : List UInt8) : UInt32 := bytes.foldl feed r

def checksum (bytes : List UInt8) : UInt32 := feedAll 0xFFFFFFFF bytes ^^^ 0xFFFFFFFF

/-- The check value: the checksum of the digits from 1 to 9. -/
example : checksum [49, 50, 51, 52, 53, 54, 55, 56, 57] = 0xCBF43926 := by decide +kernel

theorem feedAll_cons (r : UInt32) (b : UInt8) (bytes : List UInt8) : feedAll r (b :: bytes) = feedAll (feed r b) bytes :=
  rfl

theorem feedAll_append (r : UInt32) (xs ys : List UInt8) : feedAll r (xs ++ ys) = feedAll (feedAll r xs) ys :=
  List.foldl_append

end Crc32
end FactBase
