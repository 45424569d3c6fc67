import Mathlib

/-!
# Files written at offsets

A write at an offset past the end fills the gap; a read is exact, so it fails when the file is too
short. A write that stays clear of what a read gets does not change it.
-/

namespace NusaDb

open List

variable {α : Type}

/-- Write `bytes` at `offset`, with `fill` in a gap left before them. -/
def writeAt (fill : α) (file : List α) (offset : Nat) (bytes : List α) : List α :=
  file.take offset ++ List.replicate (offset - file.length) fill ++ bytes ++
    file.drop (offset + bytes.length)

def readAt (file : List α) (offset n : Nat) : Option (List α) :=
  if offset + n ≤ file.length then some ((file.drop offset).take n) else none

lemma readAt_eq_some_iff {file : List α} {offset n : Nat} {bytes : List α} :
    readAt file offset n = some bytes ↔
      offset + n ≤ file.length ∧ bytes.length = n ∧ ∀ i < n, file[offset + i]? = bytes[i]? := by
  unfold readAt
  constructor
  · intro h
    split at h
    case isTrue hlen =>
      cases h
      refine ⟨hlen, by simp; omega, fun i hi => ?_⟩
      rw [getElem?_take_of_lt hi, getElem?_drop]
    case isFalse => cases h
  · rintro ⟨hin, hlen, hget⟩
    rw [if_pos hin, Option.some_inj]
    apply ext_getElem?
    intro i
    by_cases hi : i < n
    · rw [getElem?_take_of_lt hi, getElem?_drop, hget i hi]
    · rw [getElem?_eq_none (by simp; omega), getElem?_eq_none (by omega)]

section Write

variable {fill : α} {file bytes : List α} {offset : Nat}

lemma length_writeAt : (writeAt fill file offset bytes).length =
    max file.length (offset + bytes.length) := by
  simp only [writeAt, length_append, length_take, length_replicate, length_drop]
  omega

lemma getElem?_writeAt_self {i : Nat} (hi : i < bytes.length) :
    (writeAt fill file offset bytes)[offset + i]? = bytes[i]? := by
  have hlen : (file.take offset ++ replicate (offset - file.length) fill).length = offset := by
    simp only [length_append, length_take, length_replicate]
    omega
  rw [writeAt, append_assoc, getElem?_append_right (by omega), hlen,
    getElem?_append_left (by omega)]
  congr 1
  omega

lemma getElem?_writeAt_of_outside {i : Nat} (hi : i < file.length)
    (hout : i < offset ∨ offset + bytes.length ≤ i) :
    (writeAt fill file offset bytes)[i]? = file[i]? := by
  have hlen : (file.take offset ++ replicate (offset - file.length) fill).length = offset := by
    simp only [length_append, length_take, length_replicate]
    omega
  rcases hout with hout | hout
  · rw [writeAt, append_assoc, getElem?_append_left (by omega),
      getElem?_append_left (by simp; omega), getElem?_take_of_lt hout]
  rw [writeAt, getElem?_append_right (by simp only [length_append] at hlen ⊢; omega),
    getElem?_drop]
  congr 1
  simp only [length_append] at hlen ⊢
  omega

lemma readAt_writeAt_self :
    readAt (writeAt fill file offset bytes) offset bytes.length = some bytes := by
  refine readAt_eq_some_iff.mpr ⟨?_, rfl, fun i hi => getElem?_writeAt_self hi⟩
  rw [length_writeAt]
  omega

lemma readAt_writeAt_of_disjoint {offset' n : Nat} {old : List α}
    (hread : readAt file offset' n = some old)
    (hout : offset' + n ≤ offset ∨ offset + bytes.length ≤ offset') :
    readAt (writeAt fill file offset bytes) offset' n = some old := by
  obtain ⟨hin, hlen, hget⟩ := readAt_eq_some_iff.mp hread
  refine readAt_eq_some_iff.mpr ⟨by rw [length_writeAt]; omega, hlen, fun i hi => ?_⟩
  rw [getElem?_writeAt_of_outside (by omega) (by omega), hget i hi]

lemma readAt_writeAt_slot {width slot slot' : Nat} {old : List α}
    (hread : readAt file (slot' * width) width = some old) (hne : slot ≠ slot')
    (hfits : bytes.length ≤ width) :
    readAt (writeAt fill file (slot * width) bytes) (slot' * width) width = some old := by
  apply readAt_writeAt_of_disjoint hread
  rcases Nat.lt_or_gt_of_ne hne with h | h
  · right
    have hstep : (slot + 1) * width ≤ slot' * width := Nat.mul_le_mul_right width h
    rw [Nat.add_mul, one_mul] at hstep
    omega
  · left
    have hstep : (slot' + 1) * width ≤ slot * width := Nat.mul_le_mul_right width h
    rw [Nat.add_mul, one_mul] at hstep
    exact hstep

end Write

end NusaDb
