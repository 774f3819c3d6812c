import FactBase.Identifier
import FactBase.Key.Segment
import Mathlib.Data.List.Induction
/-!
# Digits — fixed-width numerals and the segments written in them

A numeral of fixed width is read back as its number, up to the width (`read?_fixed`), so a transaction segment names
one transaction.  Digits are plain ASCII and no separator, and so are the segments that are made of them.
-/
namespace FactBase

namespace Numeral

theorem digitValue?_digit : ∀ d : Fin 36, digitValue? (digit d) = some d.val := by decide

/-- A character that may stand in a segment: plain ASCII, above the separator. -/
def isPlain (c : Char) : Prop := '!' < c ∧ c < '\u00ff'

instance (c : Char) : Decidable (isPlain c) := inferInstanceAs (Decidable (_ ∧ _))

theorem isPlain_digit : ∀ d : Fin 36, isPlain (digit d) := by decide

theorem digitIn?_digit {base d : Nat} (hbase : base ≤ 36) (hd : d < base) : digitIn? base (digit d) = some d := by
  rw [digitIn?, digitValue?_digit ⟨d, by omega⟩, Option.bind_some, if_pos hd]

theorem read?_append_singleton (base : Nat) (cs : List Char) (c : Char) :
    read? base (cs ++ [c]) = (read? base cs).bind fun n => (digitIn? base c).map (base * n + ·) := by
  rw [read?, List.foldlM_append]
  change ((read? base cs).bind fun n => ((digitIn? base c).map (base * n + ·)).bind some) = _
  congr 1
  funext n
  cases digitIn? base c <;> rfl

/-- **A fixed-width numeral is read as its number**, up to what the width holds. -/
theorem read?_fixed {base : Nat} (hpos : 0 < base) (hbase : base ≤ 36) : ∀ width n : Nat,
    read? base (fixed base width n) = some (n % Nat.pow base width)
  | 0, n => by
    change some 0 = some (n % 1)
    rw [Nat.mod_one]
  | width + 1, n => by
    have hpow : Nat.pow base (width + 1) = base * Nat.pow base width := Nat.mul_comm ..
    rw [fixed, read?_append_singleton, read?_fixed hpos hbase width, digitIn?_digit hbase (Nat.mod_lt n hpos),
      Option.bind_some, Option.map_some, hpow, Nat.mod_mul, Nat.add_comm]

/-- **A digit is written as it was read.** -/
theorem digit_of_digitValue? {c : Char} {d : Nat} (h : digitValue? c = some d) : digit d = c := by
  unfold digitValue? at h
  split at h
  · rename_i hdecimal
    obtain rfl := Option.some.inj h
    have hlower : 48 ≤ c.toNat := hdecimal.1
    have hupper : c.toNat ≤ 57 := hdecimal.2
    rw [digit, if_pos (by omega), Nat.add_sub_cancel' hlower, Char.ofNat_toNat]
  · split at h
    · rename_i hletter
      obtain rfl := Option.some.inj h
      have hlower : 97 ≤ c.toNat := hletter.1
      rw [digit, if_neg (by omega), Nat.add_sub_cancel' (Nat.le_trans (by decide) hlower), Char.ofNat_toNat]
    · cases h

theorem digit_of_digitIn? {base d : Nat} {c : Char} (h : digitIn? base c = some d) : digit d = c ∧ d < base := by
  obtain ⟨d', hd', h⟩ := Option.bind_eq_some_iff.1 h
  split at h
  · rename_i hlt
    obtain rfl := Option.some.inj h
    exact ⟨digit_of_digitValue? hd', hlt⟩
  · cases h

/-- **What is read as a number is its numeral of this width.** -/
theorem fixed_of_read? {base : Nat} (cs : List Char) : ∀ {n : Nat}, read? base cs = some n →
    fixed base cs.length n = cs ∧ n < Nat.pow base cs.length := by
  induction cs using List.reverseRecOn with
  | nil =>
    intro n h
    obtain rfl := Option.some.inj h
    exact ⟨rfl, Nat.one_pos⟩
  | append_singleton cs c ih =>
    intro n h
    rw [read?_append_singleton] at h
    obtain ⟨m, hm, h⟩ := Option.bind_eq_some_iff.1 h
    obtain ⟨d, hd, rfl⟩ := Option.map_eq_some_iff.1 h
    obtain ⟨hdigits, hbound⟩ := ih hm
    obtain ⟨hdigit, hlt⟩ := digit_of_digitIn? hd
    have hpos : 0 < base := Nat.lt_of_le_of_lt (Nat.zero_le d) hlt
    have hdiv : (base * m + d) / base = m := by
      rw [Nat.mul_add_div hpos, Nat.div_eq_of_lt hlt, Nat.add_zero]
    have hmod : (base * m + d) % base = d := by
      rw [Nat.mul_add_mod, Nat.mod_eq_of_lt hlt]
    rw [List.length_append, List.length_singleton]
    refine ⟨?_, ?_⟩
    · rw [fixed, hdiv, hmod, hdigits, hdigit]
    · calc base * m + d < base * (m + 1) := by rw [Nat.mul_succ]; exact Nat.add_lt_add_left hlt _
        _ ≤ base * Nat.pow base cs.length := Nat.mul_le_mul_left base hbound
        _ = Nat.pow base (cs.length + 1) := Nat.mul_comm ..

theorem isPlain_of_mem_fixed {base : Nat} (hpos : 0 < base) (hbase : base ≤ 36) : ∀ {width n : Nat} {c : Char},
    c ∈ fixed base width n → isPlain c
  | width + 1, n, c, h => by
    rw [fixed] at h
    rcases List.mem_append.1 h with h | h
    · exact isPlain_of_mem_fixed hpos hbase h
    · rw [List.mem_singleton.1 h]
      have hlt : n % base < 36 := Nat.lt_of_lt_of_le (Nat.mod_lt n hpos) hbase
      exact isPlain_digit ⟨n % base, hlt⟩

/-- **A decimal numeral names one number.** -/
theorem decimal_inj {m n : Nat} (h : decimal m = decimal n) : m = n := by
  have hdigits : Nat.toDigits 10 m = Nat.toDigits 10 n := String.ofList_injective h
  rw [← Nat.ofDigitChars_ten_toDigits (n := m), hdigits, Nat.ofDigitChars_ten_toDigits]

theorem isPlain_of_mem_decimal {n : Nat} {c : Char} (h : c ∈ (decimal n).toList) : isPlain c := by
  rw [decimal, String.toList_ofList] at h
  have hdigit : c.isDigit = true := Nat.isDigit_of_mem_toDigits (b := 10) (by decide) (by decide) h
  obtain ⟨hlower, hupper⟩ := Char.isDigit_iff_toNat.1 hdigit
  exact ⟨Nat.lt_of_lt_of_le (m := 48) (by decide) hlower, Nat.lt_of_le_of_lt hupper (by decide)⟩

end Numeral

namespace Segment

/-- The segment of a transaction that has one. -/
def txnText (txn : TxnNumber) : String := String.ofList (Numeral.fixed 36 6 txn.toNat)

theorem ofTxn_of_le {txn : TxnNumber} (h : txn ≤ maxTxn) : ofTxn txn = .ok (txnText txn) := if_pos h

theorem ofTxn_of_lt {txn : TxnNumber} (h : maxTxn < txn) : ofTxn txn = .error (.transactionOutOfRange txn) :=
  if_neg (UInt64.not_le.2 h)

/-- **A transaction segment names its transaction.** -/
theorem toTxn_txnText {txn : TxnNumber} (h : txn ≤ maxTxn) : toTxn (txnText txn) = .ok txn := by
  have hlt : txn.toNat < Nat.pow 36 6 := Nat.lt_succ_of_le (UInt64.le_iff_toNat_le.1 h)
  rw [toTxn, txnText, String.toList_ofList, if_pos (Numeral.length_fixed 36 6 _),
    Numeral.read?_fixed (by decide) (Nat.le_refl 36), Nat.mod_eq_of_lt hlt]
  exact congrArg Except.ok (UInt64.ofNat_toNat ..)

/-- **A segment that names a transaction is the one that it is written with.** -/
theorem txnText_of_toTxn {segment : String} {txn : TxnNumber} (h : toTxn segment = .ok txn) :
    txn ≤ maxTxn ∧ txnText txn = segment := by
  unfold toTxn at h
  split at h
  · rename_i hlength
    split at h
    · rename_i n hread
      obtain rfl := Except.ok.inj h
      obtain ⟨hdigits, hbound⟩ := Numeral.fixed_of_read? _ hread
      rw [hlength] at hdigits hbound
      have hnat : (UInt64.ofNat n).toNat = n := UInt64.toNat_ofNat_of_lt (Nat.lt_trans hbound (by decide))
      refine ⟨UInt64.le_iff_toNat_le.2 ?_, ?_⟩
      · rw [hnat]
        exact Nat.le_of_lt_succ hbound
      · rw [txnText, hnat, hdigits, String.ofList_toList]
    · cases h
  · cases h

theorem ofOperation_of_toOperation {segment : String} {b : Bool} (h : toOperation segment = .ok b) :
    ofOperation b = segment := by
  unfold toOperation at h
  split at h
  · rename_i heq
    obtain rfl := Except.ok.inj h
    exact heq.symm
  · split at h
    · rename_i heq
      obtain rfl := Except.ok.inj h
      exact heq.symm
    · cases h

theorem txnText_inj {m n : TxnNumber} (hm : m ≤ maxTxn) (hn : n ≤ maxTxn) (h : txnText m = txnText n) : m = n :=
  Except.ok.inj ((toTxn_txnText hm).symm.trans ((congrArg toTxn h).trans (toTxn_txnText hn)))

theorem isPlain_txnText {txn : TxnNumber} {c : Char} (h : c ∈ (txnText txn).toList) : Numeral.isPlain c := by
  rw [txnText, String.toList_ofList] at h
  exact Numeral.isPlain_of_mem_fixed (by decide) (Nat.le_refl 36) h

theorem isPlain_ofOperation {b : Bool} {c : Char} (h : c ∈ (ofOperation b).toList) : Numeral.isPlain c := by
  cases b
  · rw [List.mem_singleton.1 h]; decide
  · rw [List.mem_singleton.1 h]; decide

theorem ofOperation_inj {b c : Bool} (h : ofOperation b = ofOperation c) : b = c :=
  Except.ok.inj ((toOperation_ofOperation b).symm.trans ((congrArg toOperation h).trans (toOperation_ofOperation c)))

end Segment

namespace Identifier

theorem isPlain_ofDigest {digest : UInt32} {c : Char} (h : c ∈ (ofDigest digest).segment.toList) :
    Numeral.isPlain c := by
  rw [ofDigest, Numeral.hex32, String.toList_ofList] at h
  exact Numeral.isPlain_of_mem_fixed (by decide) (by decide) h

/-- **Digests and their identifiers determine each other.** -/
theorem ofDigest_inj {digest digest' : UInt32} (h : ofDigest digest = ofDigest digest') : digest = digest' := by
  have hdigits : Numeral.fixed 16 8 digest.toNat = Numeral.fixed 16 8 digest'.toNat :=
    String.ofList_injective (congrArg Identifier.segment h)
  have hread : Numeral.read? 16 (Numeral.fixed 16 8 digest.toNat) = some (digest.toNat % 4294967296) :=
    Numeral.read?_fixed (by decide) (by decide) 8 digest.toNat
  rw [hdigits, Numeral.read?_fixed (by decide) (by decide)] at hread
  have hmod : digest'.toNat % 4294967296 = digest.toNat % 4294967296 := Option.some.inj hread
  rw [Nat.mod_eq_of_lt digest'.toNat_lt, Nat.mod_eq_of_lt digest.toNat_lt] at hmod
  exact UInt32.toNat_inj.1 hmod.symm

end Identifier
end FactBase
