/-!
# Bytes — texts and lengths as bytes

A text is written in UTF-8, a length in four bytes with the least significant one first.
-/
namespace FactBase
namespace Bytes

def ofText (s : String) : List UInt8 := s.toByteArray.data.toList

def toText? (bytes : List UInt8) : Option String := String.fromUTF8? ⟨bytes.toArray⟩

/-- The four low bytes of a number. -/
def ofWord (n : Nat) : List UInt8 :=
  [UInt8.ofNat n, UInt8.ofNat (n / 256), UInt8.ofNat (n / 65536), UInt8.ofNat (n / 16777216)]

/-- The number in the first four bytes. -/
def toWord? : List UInt8 → Option Nat
  | b₀ :: b₁ :: b₂ :: b₃ :: _ => some (b₀.toNat + 256 * (b₁.toNat + 256 * (b₂.toNat + 256 * b₃.toNat)))
  | _ => none

theorem length_ofWord (n : Nat) : (ofWord n).length = 4 := rfl

/-- A number below 2³² is read back from its bytes, whatever follows them. -/
theorem toWord?_ofWord {n : Nat} (h : n < 4294967296) (rest : List UInt8) : toWord? (ofWord n ++ rest) = some n := by
  simp only [ofWord, List.cons_append, List.nil_append, toWord?, UInt8.toNat_ofNat', Option.some.injEq]
  omega

/-- Four bytes are the bytes of the number that they hold. -/
theorem ofWord_of_toWord? {b₀ b₁ b₂ b₃ : UInt8} {n : Nat} (h : toWord? [b₀, b₁, b₂, b₃] = some n) :
    ofWord n = [b₀, b₁, b₂, b₃] := by
  have h₀ := b₀.toNat_lt
  have h₁ := b₁.toNat_lt
  have h₂ := b₂.toNat_lt
  have h₃ := b₃.toNat_lt
  simp only [toWord?, Option.some.injEq] at h
  simp only [ofWord, List.cons.injEq, and_true]
  refine ⟨?_, ?_, ?_, ?_⟩ <;> (apply UInt8.toNat_inj.1; rw [UInt8.toNat_ofNat']; omega)

theorem toText?_ofText (s : String) : toText? (ofText s) = some s := by
  have h : (⟨(ofText s).toArray⟩ : ByteArray) = s.toByteArray := by rw [ofText, Array.toArray_toList]
  unfold toText? String.fromUTF8?
  rw [h, dif_pos s.isValidUTF8]
  rfl

theorem ofText_of_toText? {bytes : List UInt8} {s : String} (h : toText? bytes = some s) : ofText s = bytes := by
  unfold toText? String.fromUTF8? at h
  split at h
  · cases h; simp [ofText, String.fromUTF8]
  · cases h

end Bytes
end FactBase
