import FactBase.Text.Bytes
import Mathlib.Tactic.SplitIfs
/-!
# ByteOrder — texts compare as their bytes do

A character with a greater code point has greater bytes, whatever follows either of the two (`encodeChar_append_lt`).
So the order of texts by code point, in which keys are kept, is the order of their bytes (`ofText_lt_iff`).
-/
namespace FactBase
namespace Bytes

theorem ofText_eq_flatMap (s : String) : ofText s = s.toList.flatMap String.utf8EncodeChar := by
  rw [ofText, ← String.utf8Encode_toList, List.utf8Encode, List.toList_data_toByteArray]

/-- Bytes that begin with a lesser byte, or with the same one and then lesser bytes, are lesser. -/
theorem cons_lt_cons_iff {m n : Nat} {xs ys : List UInt8} (hm : m < 256) (hn : n < 256) :
    UInt8.ofNat m :: xs < UInt8.ofNat n :: ys ↔ m < n ∨ m = n ∧ xs < ys := by
  rw [List.cons_lt_cons_iff, UInt8.lt_iff_toNat_lt, ← UInt8.toNat_inj, UInt8.toNat_ofNat', UInt8.toNat_ofNat',
    Nat.mod_eq_of_lt hm, Nat.mod_eq_of_lt hn]

/-- Of two numbers the lesser one is so in the digits before the last, or, where these are the same, in the last. -/
theorem lt_div_or_mod {v w : Nat} (h : v < w) : v / 64 < w / 64 ∨ v / 64 = w / 64 ∧ v % 64 < w % 64 := by omega

/-- **The first character in which texts differ decides**, whatever bytes come behind it. -/
theorem encodeChar_append_lt {c d : Char} (h : c < d) (xs ys : List UInt8) :
    String.utf8EncodeChar c ++ xs < String.utf8EncodeChar d ++ ys := by
  have hlt : c.val.toNat < d.val.toNat := h
  have hmax : d.val.toNat < 1114112 := by
    have hvalid := d.valid
    unfold UInt32.isValidChar Nat.isValidChar at hvalid
    omega
  unfold String.utf8EncodeChar
  dsimp only
  generalize c.val.toNat = v at *
  generalize d.val.toNat = w at *
  have hdigits : v / 262144 < w / 262144 ∨ v / 262144 = w / 262144 ∧ (v / 4096 % 64 < w / 4096 % 64 ∨
      v / 4096 % 64 = w / 4096 % 64 ∧ (v / 64 % 64 < w / 64 % 64 ∨ v / 64 % 64 = w / 64 % 64 ∧ v % 64 < w % 64)) := by
    rcases lt_div_or_mod hlt with h₁ | ⟨h₁, h₁'⟩
    · rcases lt_div_or_mod h₁ with h₂ | ⟨h₂, h₂'⟩
      · rcases lt_div_or_mod h₂ with h₃ | ⟨h₃, h₃'⟩ <;> omega
      · omega
    · omega
  have hv : v / 262144 % 8 = v / 262144 := Nat.mod_eq_of_lt (by omega)
  have hw : w / 262144 % 8 = w / 262144 := Nat.mod_eq_of_lt (by omega)
  split_ifs <;> simp (disch := omega) only [List.cons_append, List.nil_append, hv, hw, cons_lt_cons_iff] <;> omega

theorem flatMap_encodeChar_lt : ∀ {cs ds : List Char}, cs < ds →
    cs.flatMap String.utf8EncodeChar < ds.flatMap String.utf8EncodeChar
  | [], d :: ds, _ => by
    rw [List.flatMap_nil, List.flatMap_cons]
    obtain ⟨byte, bytes, hbytes⟩ := List.exists_cons_of_ne_nil (String.utf8EncodeChar_ne_nil (c := d))
    rw [hbytes]
    exact List.nil_lt_cons ..
  | c :: cs, d :: ds, h => by
    rw [List.flatMap_cons, List.flatMap_cons]
    rcases List.cons_lt_cons_iff.1 h with hlt | ⟨rfl, hrest⟩
    · exact encodeChar_append_lt hlt ..
    · exact List.append_left_lt (flatMap_encodeChar_lt hrest)

/-- **The order of texts by code point is the order of their bytes.** -/
theorem ofText_lt_iff {s t : String} : ofText s < ofText t ↔ s < t := by
  have hmono : ∀ {s t : String}, s < t → ofText s < ofText t := by
    intro s t h
    rw [ofText_eq_flatMap, ofText_eq_flatMap]
    exact flatMap_encodeChar_lt h
  refine ⟨fun h => ?_, hmono⟩
  by_cases heq : t = s
  · exact absurd (heq ▸ h) (List.lt_irrefl _)
  · by_cases hlt : s < t
    · exact hlt
    · exact absurd (hmono (Std.lt_of_le_of_ne (String.not_lt.1 hlt) heq)) (List.lt_asymm h)

end Bytes
end FactBase
