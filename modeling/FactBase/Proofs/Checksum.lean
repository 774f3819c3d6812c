import FactBase.Crc32
/-!
# Checksum — what the check takes from a byte, it keeps

Shifting a bit out of the register loses nothing: the polynomial has its top bit set, so the top bit that comes in is
the bit that goes out (`top_shift`).  The register is thus determined by what it becomes, and so is the byte it was fed
with.  Main statements: bytes that differ in one place have different checksums, whatever stands before and behind it
(`set_eq_of_checksum`), and so do bytes that differ in the last four only (`bytes_of_feedAll`).
-/
namespace FactBase
namespace Crc32

variable {r s : UInt32}

theorem and_one_eq_one_iff (r : UInt32) : r &&& 1 = 1 ↔ r.toBitVec.getLsbD 0 = true := by
  have h : (r &&& 1).toBitVec = (BitVec.ofBool (r.toBitVec.getLsbD 0)).setWidth 32 := by
    rw [UInt32.toBitVec_and]
    exact BitVec.and_one_eq_setWidth_ofBool_getLsbD
  rw [← UInt32.toBitVec_inj, h]
  cases r.toBitVec.getLsbD 0 <;> decide

theorem getLsbD_shift (r : UInt32) (i : Nat) :
    (shift r).toBitVec.getLsbD i =
      (r.toBitVec.getLsbD (i + 1) ^^ (r.toBitVec.getLsbD 0 && (0xEDB88320#32).getLsbD i)) := by
  have hdown : (r >>> 1).toBitVec.getLsbD i = r.toBitVec.getLsbD (i + 1) := by
    rw [UInt32.toBitVec_shiftRight, Nat.add_comm i 1]
    exact BitVec.getLsbD_ushiftRight r.toBitVec 1 i
  unfold shift
  split
  · rename_i h
    rw [UInt32.toBitVec_xor, BitVec.getLsbD_xor, hdown, (and_one_eq_one_iff r).1 h, Bool.true_and]
    rfl
  · rename_i h
    rw [hdown, Bool.eq_false_iff.2 (mt (and_one_eq_one_iff r).2 h), Bool.false_and, Bool.xor_false]

/-- **The bit that goes out comes in at the top.** -/
theorem top_shift (r : UInt32) : (shift r).toBitVec.getLsbD 31 = r.toBitVec.getLsbD 0 := by
  have hout : r.toBitVec.getLsbD (31 + 1) = false := BitVec.getLsbD_of_ge r.toBitVec 32 (Nat.le_refl 32)
  have htop : (0xEDB88320#32).getLsbD 31 = true := by decide
  rw [getLsbD_shift, hout, htop, Bool.and_true, Bool.false_xor]

theorem shift_injective (h : shift r = shift s) : r = s := by
  have hlow : r.toBitVec.getLsbD 0 = s.toBitVec.getLsbD 0 := by
    rw [← top_shift r, h, top_shift s]
  refine UInt32.toBitVec_inj.1 (BitVec.eq_of_getLsbD_eq fun i _ => ?_)
  cases i with
  | zero => exact hlow
  | succ i =>
    have hbit : (shift r).toBitVec.getLsbD i = (shift s).toBitVec.getLsbD i := by rw [h]
    rw [getLsbD_shift, getLsbD_shift, hlow] at hbit
    exact Bool.xor_left_inj.1 hbit

theorem shift8_injective (h : shift8 r = shift8 s) : r = s := by
  unfold shift8 at h
  iterate 8 replace h := shift_injective h
  exact h

/-- What the register was before a byte is told from what it is behind it. -/
theorem feed_injective {byte : UInt8} (h : feed r byte = feed s byte) : r = s :=
  (UInt32.xor_left_inj _).1 (shift8_injective h)

/-- A register and what it has become tell the byte. -/
theorem byte_of_feed {byte other : UInt8} (h : feed r byte = feed r other) : byte = other :=
  UInt8.toUInt32_inj.1 ((UInt32.xor_right_inj r).1 (shift8_injective h))

theorem feedAll_injective : ∀ {bytes : List UInt8} {r s : UInt32}, feedAll r bytes = feedAll s bytes → r = s
  | [], _, _, h => h
  | b :: bytes, r, s, h => by
    rw [feedAll_cons, feedAll_cons] at h
    exact feed_injective (feedAll_injective h)

/-- **One changed byte changes the checksum**, whatever stands before and behind it. -/
theorem set_eq_of_checksum {bytes : List UInt8} {place : Nat} {byte : UInt8}
    (h : checksum (bytes.set place byte) = checksum bytes) : bytes.set place byte = bytes := by
  rcases Nat.lt_or_ge place bytes.length with hplace | hplace
  · have hold : bytes = bytes.take place ++ bytes[place] :: bytes.drop (place + 1) := by
      rw [← List.drop_eq_getElem_cons hplace, List.take_append_drop]
    have hnew : bytes.set place byte = bytes.take place ++ byte :: bytes.drop (place + 1) :=
      List.set_eq_take_append_cons_drop.trans (if_pos hplace)
    have hfed := (UInt32.xor_left_inj _).1 h
    rw [hnew] at hfed
    conv at hfed => rhs; rw [hold]
    rw [feedAll_append, feedAll_append, feedAll_cons, feedAll_cons] at hfed
    have hbyte : byte = bytes[place] := byte_of_feed (feedAll_injective hfed)
    rw [hbyte, List.set_getElem_self]
  · exact List.set_eq_of_length_le hplace

/-! ## Several bytes -/

/-- The registers agree in the bits below `low` and in those from `high` on. -/
def Agree (low high : Nat) (r s : UInt32) : Prop :=
  ∀ i, i < low ∨ high ≤ i → r.toBitVec.getLsbD i = s.toBitVec.getLsbD i

/-- Registers that agree at the top behind a shift agreed at the bottom before it. -/
theorem Agree.of_shift {low high : Nat} (hhigh : high ≤ 31) (h : Agree low high (shift r) (shift s)) :
    Agree (low + 1) (high + 1) r s := by
  have hout : r.toBitVec.getLsbD 0 = s.toBitVec.getLsbD 0 := by
    rw [← top_shift r, ← top_shift s]
    exact h 31 (.inr hhigh)
  intro i hi
  cases i with
  | zero => exact hout
  | succ i =>
    have hbit := h i (by omega)
    rw [getLsbD_shift, getLsbD_shift, hout] at hbit
    exact Bool.xor_left_inj.1 hbit

theorem Agree.of_shift8 {high : Nat} (hhigh : high ≤ 24) (h : Agree 0 high (shift8 r) (shift8 s)) :
    Agree 8 (high + 8) r s := by
  unfold shift8 at h
  iterate 8 replace h := h.of_shift (by omega)
  exact h

theorem getLsbD_xor_byte (r : UInt32) (byte : UInt8) (i : Nat) :
    (r ^^^ byte.toUInt32).toBitVec.getLsbD i = (r.toBitVec.getLsbD i ^^ byte.toBitVec.getLsbD i) := by
  by_cases hi : i < 32
  · simp [hi]
  · simp [BitVec.getLsbD_of_ge, Nat.le_trans _ (Nat.not_lt.1 hi)]

/-- A byte is fed into the low end of the register, so it hides no more than eight bits of what agrees. -/
theorem Agree.of_feed {high : Nat} {x y : UInt8} (hhigh : high ≤ 24) (h : Agree 0 high (feed r x) (feed s y)) :
    Agree 0 (high + 8) r s := by
  intro i hi
  have hbit := h.of_shift8 hhigh i (by omega)
  have hx : x.toBitVec.getLsbD i = false := BitVec.getLsbD_of_ge _ _ (by omega)
  have hy : y.toBitVec.getLsbD i = false := BitVec.getLsbD_of_ge _ _ (by omega)
  rwa [getLsbD_xor_byte, getLsbD_xor_byte, hx, hy, Bool.xor_false, Bool.xor_false] at hbit

theorem Agree.of_feedAll : ∀ {xs ys : List UInt8} {r s : UInt32} {high : Nat}, xs.length = ys.length →
    high + 8 * xs.length ≤ 32 → Agree 0 high (feedAll r xs) (feedAll s ys) → Agree 0 (high + 8 * xs.length) r s
  | [], [], _, _, _, _, _, h => h
  | x :: xs, y :: ys, r, s, high, hlength, hfits, h => by
    rw [List.length_cons] at hfits ⊢
    rw [feedAll_cons, feedAll_cons] at h
    have hfed := (Agree.of_feedAll (Nat.succ.inj hlength) (by omega) h).of_feed (by omega)
    rwa [Nat.add_assoc, ← Nat.mul_succ] at hfed

/-- **The registers before and behind them tell up to four bytes.** -/
theorem bytes_of_feedAll : ∀ {xs ys : List UInt8} {r : UInt32}, xs.length = ys.length → xs.length ≤ 4 →
    feedAll r xs = feedAll r ys → xs = ys
  | [], [], _, _, _, _ => rfl
  | x :: xs, y :: ys, r, hlength, hfour, h => by
    rw [List.length_cons] at hfour
    rw [feedAll_cons, feedAll_cons] at h
    have hfed : Agree 0 (0 + 8 * xs.length) (feed r x) (feed r y) :=
      .of_feedAll (Nat.succ.inj hlength) (by omega) fun i _ => by rw [h]
    have hbyte : x = y := by
      refine UInt8.toBitVec_inj.1 (BitVec.eq_of_getLsbD_eq fun i hi => ?_)
      have hbit := hfed.of_shift8 (by omega) i (.inl hi)
      rw [getLsbD_xor_byte, getLsbD_xor_byte] at hbit
      exact Bool.xor_right_inj.1 hbit
    subst hbyte
    rw [bytes_of_feedAll (Nat.succ.inj hlength) (by omega) h]

end Crc32
end FactBase
