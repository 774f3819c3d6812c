import FactBase.Text.Numeral
/-!
# Identifier — what stands for a literal inside a key

The dictionary issues identifiers of eight lowercase hexadecimal digits, so an issued one never holds the separator of
a key.  An identifier read off a stored key is any text that stood between two separators.
-/
namespace FactBase

structure Identifier where
  segment : String
  deriving DecidableEq

namespace Identifier

/-- The identifier of a 32-bit digest. -/
def ofDigest (digest : UInt32) : Identifier := ⟨Numeral.hex32 digest.toNat⟩

theorem length_ofDigest (digest : UInt32) : (ofDigest digest).segment.toList.length = 8 := by
  rw [ofDigest, Numeral.hex32, String.toList_ofList, Numeral.length_fixed]

end Identifier
end FactBase
