import FactBase.KeyMap
import FactBase.Log.Record
/-!
# Log.Reading — a log file cut into its records

Reading goes on up to the first place where no record can be read.  Everything from there on is the torn tail: it is
dropped as a whole, and nothing behind it is looked for.  The map that a log stands for is what its batches write, one
after the other.
-/
namespace FactBase

structure Log.Reading where
  batches : List Batch
  tail : List UInt8
  /-- Why reading stopped, if a tail is left. -/
  fault : Option Record.Error

namespace Log

def read (bytes : List UInt8) : Reading :=
  if bytes.isEmpty then ⟨[], [], none⟩
  else
    match h : Record.decode bytes with
    | .error fault => ⟨[], bytes, some fault⟩
    | .ok (batch, n) =>
      have _size : 12 ≤ n ∧ n ≤ bytes.length := Record.decode_size h
      let after := read (bytes.drop n)
      ⟨batch :: after.batches, after.tail, after.fault⟩
termination_by bytes.length
decreasing_by
  rw [List.length_drop]
  omega

namespace Reading

def entries (r : Reading) : KeyMap String := r.batches.foldl KeyMap.insertAll .empty

end Reading

/-- The bytes before the torn tail. -/
def intact (bytes : List UInt8) : List UInt8 := bytes.take (bytes.length - (read bytes).tail.length)

theorem tail_read_suffix (bytes : List UInt8) : (read bytes).tail <:+ bytes := by
  fun_induction read bytes with
  | case1 bytes _ => exact List.nil_suffix
  | case2 bytes _ fault _ => exact List.suffix_refl bytes
  | case3 bytes _ batch n _ _ _ ih => exact ih.trans (List.drop_suffix n bytes)

/-- A log is its intact part and its torn tail. -/
theorem intact_append_tail (bytes : List UInt8) : intact bytes ++ (read bytes).tail = bytes := by
  obtain ⟨front, h⟩ := tail_read_suffix bytes
  have hlen : bytes.length - (read bytes).tail.length = front.length := by
    rw [← congrArg List.length h, List.length_append, Nat.add_sub_cancel]
  have htake : bytes.take front.length = front := by rw [← h, List.take_left]
  rw [intact, hlen, htake, h]

end Log
end FactBase
