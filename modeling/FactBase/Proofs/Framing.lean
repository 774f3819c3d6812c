import FactBase.Log.Record
/-!
# Framing — a record and its bytes determine each other

A batch whose record fits is read back from the record, whatever bytes follow (`decode_encode_append`), and bytes that
can be read are the record of the batch that they give (`encode_of_decode`).  A record that breaks off is told by its
length alone (`decode_take_encode`).
-/
namespace FactBase

namespace Bytes

/-- A number that can be read is below 2³², and its four bytes are in front. -/
theorem eq_of_toWord? : ∀ {bytes : List UInt8} {n : Nat}, toWord? bytes = some n →
    n < 4294967296 ∧ bytes = ofWord n ++ bytes.drop 4
  | b₀ :: b₁ :: b₂ :: b₃ :: rest, n, h => by
    have hn : toWord? [b₀, b₁, b₂, b₃] = some n := h
    have h₀ := b₀.toNat_lt
    have h₁ := b₁.toNat_lt
    have h₂ := b₂.toNat_lt
    have h₃ := b₃.toNat_lt
    refine ⟨?_, ?_⟩
    · simp only [toWord?, Option.some.injEq] at hn
      omega
    · rw [ofWord_of_toWord? hn]
      rfl

theorem toWord?_isSome : ∀ {bytes : List UInt8}, 4 ≤ bytes.length → ∃ n, toWord? bytes = some n
  | _ :: _ :: _ :: _ :: _, _ => ⟨_, rfl⟩
  | [_, _, _], h | [_, _], h | [_], h | [], h => by simp at h

theorem toWord?_take {bytes : List UInt8} {n : Nat} (h : 4 ≤ n) : toWord? (bytes.take n) = toWord? bytes := by
  obtain ⟨m, rfl⟩ : ∃ m, n = m + 4 := ⟨n - 4, by omega⟩
  rcases bytes with _ | ⟨_, _ | ⟨_, _ | ⟨_, _ | ⟨_, _⟩⟩⟩⟩ <;> rfl

theorem toWord?_append {bytes : List UInt8} (h : 4 ≤ bytes.length) (rest : List UInt8) :
    toWord? (bytes ++ rest) = toWord? bytes := by
  rw [← toWord?_take (Nat.le_refl 4), List.take_append_of_le_length h, toWord?_take (Nat.le_refl 4)]

end Bytes

namespace Record

theorem payload_cons (key value : String) (batch : Batch) :
    payload ((key, value) :: batch) =
      Bytes.ofWord (Bytes.ofText key).length ++ (Bytes.ofWord (Bytes.ofText value).length ++
        (Bytes.ofText key ++ (Bytes.ofText value ++ payload batch))) := by
  simp only [payload, List.flatMap_cons, entryBytes, List.append_assoc]

theorem length_payload_cons (key value : String) (batch : Batch) :
    (payload ((key, value) :: batch)).length =
      8 + (Bytes.ofText key).length + (Bytes.ofText value).length + (payload batch).length := by
  simp only [payload_cons, List.length_append, Bytes.length_ofWord]
  omega

/-- An entry takes at least its two lengths, so the number of entries is within the length of the payload. -/
theorem length_le_payload : ∀ batch : Batch, batch.length ≤ (payload batch).length
  | [] => Nat.le_refl 0
  | (key, value) :: batch => by
    have ih := length_le_payload batch
    rw [length_payload_cons, List.length_cons]
    omega

theorem length_body (batch : Batch) : (body batch).length + 4 = size batch := by
  simp only [body, size, List.length_append, Bytes.length_ofWord]
  omega

theorem length_encode (batch : Batch) : (encode batch).length = size batch := by
  rw [encode, List.length_append, Bytes.length_ofWord, length_body]

theorem size_of_fits {batch : Batch} (h : fits batch = true) : size batch < 4294967296 := by
  simpa [fits] using h

/-- A record begins with its length. -/
theorem toWord?_body {batch : Batch} (h : fits batch = true) : Bytes.toWord? (body batch) = some (size batch) := by
  rw [body, List.append_assoc]
  exact Bytes.toWord?_ofWord (size_of_fits h) _

/-- **A payload is read back as its entries**, from any place in a longer one. -/
theorem entries_payload (total : Nat) (hlt : total < 4294967296) : ∀ (batch : Batch) (start : Nat),
    start + (payload batch).length = total → entries total batch.length start (payload batch) = .ok batch
  | [], start, h => by
    have hs : start = total := by simpa [payload] using h
    rw [List.length_nil, entries, if_pos hs]
  | (key, value) :: batch, start, h => by
    rw [length_payload_cons] at h
    have hk : (Bytes.ofText key).length < 4294967296 := by omega
    have hv : (Bytes.ofText value).length < 4294967296 := by omega
    have ih := entries_payload total hlt batch (start + 8 + (Bytes.ofText key).length + (Bytes.ofText value).length)
      (by omega)
    have hstop : ¬total < start + 8 + (Bytes.ofText key).length + (Bytes.ofText value).length := by omega
    have hdrop4 : (payload ((key, value) :: batch)).drop 4 = Bytes.ofWord (Bytes.ofText value).length ++
        (Bytes.ofText key ++ (Bytes.ofText value ++ payload batch)) := by
      rw [payload_cons]; rfl
    have hdrop8 : (payload ((key, value) :: batch)).drop 8 =
        Bytes.ofText key ++ (Bytes.ofText value ++ payload batch) := by
      rw [payload_cons]; rfl
    have hkey : Bytes.toWord? (payload ((key, value) :: batch)) = some (Bytes.ofText key).length := by
      rw [payload_cons]; exact Bytes.toWord?_ofWord hk _
    have hafter : (Bytes.ofText key ++ (Bytes.ofText value ++ payload batch)).drop
        ((Bytes.ofText key).length + (Bytes.ofText value).length) = payload batch := by
      rw [← List.drop_drop, List.drop_left, List.drop_left]
    rw [List.length_cons, entries, hkey, hdrop4, Bytes.toWord?_ofWord hv, hdrop8]
    simp only [if_neg hstop, List.take_left, List.drop_left, Bytes.toText?_ofText, hafter, ih]
    rfl

/-- **Entries that can be read are what the payload is made of.** -/
theorem payload_of_entries {total : Nat} : ∀ {count start : Nat} {rest : List UInt8} {batch : Batch},
    start + rest.length = total → entries total count start rest = .ok batch →
      batch.length = count ∧ payload batch = rest
  | 0, start, rest, batch, hlen, h => by
    rw [entries] at h
    split at h
    · rename_i hs
      obtain rfl : [] = batch := Except.ok.inj h
      have hnil : rest = [] := List.eq_nil_of_length_eq_zero (by omega)
      exact ⟨rfl, hnil.symm⟩
    · cases h
  | count + 1, start, rest, batch, hlen, h => by
    rw [entries] at h
    split at h
    case h_2 => cases h
    rename_i keyLength valueLength hk hv
    dsimp only at h
    split at h
    case isTrue => cases h
    rename_i hstop
    split at h
    case h_2 => cases h
    rename_i key value hkey hvalue
    cases hrec : entries total count (start + 8 + keyLength + valueLength)
        ((rest.drop 8).drop (keyLength + valueLength)) with
    | error e => rw [hrec] at h; cases h
    | ok batch' =>
      rw [hrec] at h
      obtain rfl : (key, value) :: batch' = batch := Except.ok.inj h
      have hrest : 8 ≤ rest.length ∧ rest = Bytes.ofWord keyLength ++ (Bytes.ofWord valueLength ++ rest.drop 8) := by
        have h4 := (Bytes.eq_of_toWord? hk).2
        have h8 := (Bytes.eq_of_toWord? hv).2
        rw [List.drop_drop] at h8
        rw [h8] at h4
        refine ⟨?_, h4⟩
        rw [h4, List.length_append, List.length_append, Bytes.length_ofWord, Bytes.length_ofWord]
        omega
      obtain ⟨h8, hrest⟩ := hrest
      have hcontent : (rest.drop 8).length = rest.length - 8 := List.length_drop
      have hkeyBytes := Bytes.ofText_of_toText? hkey
      have hvalueBytes := Bytes.ofText_of_toText? hvalue
      have hkeyLength : (Bytes.ofText key).length = keyLength := by
        rw [hkeyBytes, List.length_take]; omega
      have hvalueLength : (Bytes.ofText value).length = valueLength := by
        rw [hvalueBytes, List.length_take, List.length_drop]; omega
      obtain ⟨hcount, hpayload⟩ := payload_of_entries (by rw [List.length_drop, hcontent]; omega) hrec
      refine ⟨by rw [List.length_cons, hcount], ?_⟩
      rw [payload_cons, hkeyLength, hvalueLength, hkeyBytes, hvalueBytes, hpayload, ← List.drop_drop,
        List.take_append_drop, List.take_append_drop, ← hrest]

theorem frame_encode (batch : Batch) (rest : List UInt8) :
    (encode batch ++ rest).take (size batch - 4) = body batch ∧
      (encode batch ++ rest).drop (size batch - 4) =
        Bytes.ofWord (Crc32.checksum (body batch)).toNat ++ rest ∧
      (encode batch ++ rest).drop 4 = Bytes.ofWord batch.length ++ (payload batch ++
        (Bytes.ofWord (Crc32.checksum (body batch)).toNat ++ rest)) := by
  have hbody : size batch - 4 = (body batch).length := by have := length_body batch; omega
  rw [encode, List.append_assoc, hbody]
  refine ⟨List.take_left, List.drop_left, ?_⟩
  simp only [body, List.append_assoc]
  rfl

/-- **A batch whose record fits is read back from it**, whatever follows. -/
theorem decode_encode_append {batch : Batch} (h : fits batch = true) (rest : List UInt8) :
    decode (encode batch ++ rest) = .ok (batch, size batch) := by
  have hsize := size_of_fits h
  have hpayload : 12 + (payload batch).length = size batch := rfl
  have hcount := length_le_payload batch
  obtain ⟨htake, hdrop, hdrop4⟩ := frame_encode batch rest
  have hlen : (encode batch ++ rest).length = size batch + rest.length := by
    rw [List.length_append, length_encode]
  have hbodyLength : (body batch).length + 4 = size batch := length_body batch
  have hlength : Bytes.toWord? (encode batch ++ rest) = some (size batch) := by
    rw [encode, List.append_assoc, Bytes.toWord?_append (by omega), toWord?_body h]
  have hchecksum : Bytes.toWord? (Bytes.ofWord (Crc32.checksum (body batch)).toNat ++ rest) =
      some (Crc32.checksum (body batch)).toNat :=
    Bytes.toWord?_ofWord (UInt32.toNat_lt _) rest
  have hbody : (body batch).drop 8 = payload batch := rfl
  have hnumber : Bytes.toWord? ((encode batch ++ rest).drop 4) = some batch.length := by
    rw [hdrop4]; exact Bytes.toWord?_ofWord (by omega) _
  have hentries := entries_payload (payload batch).length (by omega) batch 0 (Nat.zero_add _)
  unfold decode
  simp only [hlength, hnumber, Option.getD_some, hlen, htake, hdrop, hchecksum, hbody, hentries]
  rw [if_neg (by omega), if_neg (by omega), if_neg (by omega), if_neg (by simp)]
  rfl

/-- **Bytes that can be read as a record are the record of their batch.** -/
theorem encode_of_decode {bytes : List UInt8} {batch : Batch} {n : Nat} (h : decode bytes = .ok (batch, n)) :
    fits batch = true ∧ n = size batch ∧ bytes = encode batch ++ bytes.drop n := by
  have hsize := decode_size h
  unfold decode at h
  dsimp only at h
  obtain ⟨length, hlength⟩ := Bytes.toWord?_isSome (show 4 ≤ bytes.length by omega)
  obtain ⟨hlt, hfront⟩ := Bytes.eq_of_toWord? hlength
  rw [hlength, Option.getD_some] at h
  split at h
  case isTrue => cases h
  split at h
  case isTrue => cases h
  split at h
  case isTrue => cases h
  split at h
  case isTrue => cases h
  rename_i hlow hhigh hsum
  obtain ⟨count, hcount⟩ := Bytes.toWord?_isSome (show 4 ≤ (bytes.drop 4).length by rw [List.length_drop]; omega)
  obtain ⟨-, hcountFront⟩ := Bytes.eq_of_toWord? hcount
  obtain ⟨sum, hsumWord⟩ :=
    Bytes.toWord?_isSome (show 4 ≤ (bytes.drop (length - 4)).length by rw [List.length_drop]; omega)
  obtain ⟨-, hsumFront⟩ := Bytes.eq_of_toWord? hsumWord
  rw [hsumWord, Option.getD_some, Decidable.not_not] at hsum
  rw [hcount, Option.getD_some] at h
  cases hentries : entries ((bytes.take (length - 4)).drop 8).length count 0 ((bytes.take (length - 4)).drop 8) with
  | error e => rw [hentries] at h; cases h
  | ok batch' =>
    rw [hentries] at h
    obtain ⟨rfl, rfl⟩ : batch' = batch ∧ length = n := by
      simpa [Except.map] using h
    obtain ⟨hbatch, hpayload⟩ := payload_of_entries (Nat.zero_add _) hentries
    have hpayloadLength : (payload batch').length + 12 = length := by
      rw [hpayload, List.length_drop, List.length_take]; omega
    have hlen : size batch' = length := by rw [size]; omega
    -- what the checksum covers is the two numbers in front and the payload
    have hcovered : bytes.take (length - 4) = body batch' := by
      have hfirst : Bytes.toWord? (bytes.take (length - 4)) = some length := by
        rw [Bytes.toWord?_take (by omega), hlength]
      have hsecond : Bytes.toWord? ((bytes.take (length - 4)).drop 4) = some count := by
        rw [List.drop_take, Bytes.toWord?_take (by omega), hcount]
      have hrest := (Bytes.eq_of_toWord? hsecond).2
      rw [List.drop_drop, ← hpayload] at hrest
      rw [body, hlen, hbatch, List.append_assoc, ← hrest]
      exact (Bytes.eq_of_toWord? hfirst).2
    refine ⟨by simpa [fits, hlen] using hlt, hlen.symm, ?_⟩
    have hend : length - 4 + 4 = length := by omega
    rw [List.drop_drop, hend] at hsumFront
    rw [encode, ← hcovered, ← hsum, List.append_assoc, ← hsumFront, List.take_append_drop]

/-- **A record that breaks off is truncated.** -/
theorem decode_take_encode {batch : Batch} (h : fits batch = true) {n : Nat} (hn : n < size batch) :
    decode ((encode batch).take n) = .error (.truncated n) := by
  have hlen : ((encode batch).take n).length = n := by
    rw [List.length_take, length_encode]; omega
  unfold decode
  dsimp only
  rw [hlen]
  split
  · rfl
  rename_i hframe
  have hsize : 12 ≤ size batch := Nat.le_add_right 12 _
  have hbodyLength : (body batch).length + 4 = size batch := length_body batch
  have hlength : Bytes.toWord? ((encode batch).take n) = some (size batch) := by
    rw [Bytes.toWord?_take (by omega), encode, Bytes.toWord?_append (by omega), toWord?_body h]
  rw [hlength, Option.getD_some, if_neg (by omega), if_pos hn]

end Record
end FactBase
