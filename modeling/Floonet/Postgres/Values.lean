import Floonet.Postgres.TagValues

/-!
# A tag row has one value

The two value columns hold a tag value without loss: what is found in a row by a value was
written with that value. Hex of odd length is found nowhere (`foundBy_tagRow_iff`), and the
statements about parameterized replaceable kinds do without that exception (`dTagIs_tagRow`).
-/

namespace Floonet.Postgres

open Hex (Bytes)

/-- Different texts have different bytes. -/
theorem asBytes_inj {s t : String} : asBytes s = asBytes t ↔ s = t := by
  refine ⟨fun h => ?_, fun h => h ▸ rfl⟩
  have henc : s.toList.utf8Encode = t.toList.utf8Encode := congrArg List.toByteArray h
  rw [← String.toByteArray_ofList, ← String.toByteArray_ofList, String.toByteArray_inj,
    String.ofList_toList, String.ofList_toList] at henc
  exact henc

/-- Hex of even length stands for bytes. -/
theorem exists_decode_of_storedAsHex {v : String} (h : storedAsHex v = true) :
    ∃ bs, Hex.decode v = some bs := by
  rw [storedAsHex, Bool.and_eq_true, beq_iff_eq] at h
  exact Option.isSome_iff_exists.mp ((isSome_decode (isHex_of_isLowerHex h.1)).mpr h.2)

/-- The hex column of a row holds a value, when the row was written with it. -/
theorem valueHex_tagRow {x v name : String} {id : Bytes} (hx : storedAsHex x = true) :
    sqlEq (tagRow id (name, v)).valueHex (Hex.decode x) = true ↔ v = x := by
  obtain ⟨bs, hbs⟩ := exists_decode_of_storedAsHex hx
  rw [hbs, sqlEq_some, tagRow]
  refine ⟨fun h => ?_, fun h => by simp [h, hx, hbs]⟩
  simp only at h
  split_ifs at h with hv
  have hlow := (Bool.and_eq_true_iff.mp hx).1
  have hlow' := (Bool.and_eq_true_iff.mp hv).1
  exact eq_of_decode_eq hlow' hlow h hbs

/-- The text column of a row holds a value, when the row was written with it. -/
theorem value_tagRow {x v name : String} {id : Bytes} (hx : storedAsHex x = false) :
    sqlEq (tagRow id (name, v)).value (some (asBytes x)) = true ↔ v = x := by
  rw [sqlEq_some, tagRow]
  refine ⟨fun h => ?_, fun h => by simp [h, hx]⟩
  simp only at h
  split_ifs at h with hv
  exact asBytes_inj.mp (Option.some.inj h)

/-- A row is found by its value, unless that is hex of odd length. -/
theorem foundBy_tagRow_iff {x v name : String} {id : Bytes} :
    foundBy x (tagRow id (name, v)) = true ↔ v = x ∧ ¬ OddHex x := by
  by_cases hodd : OddHex x
  · rw [foundBy_of_oddHex hodd]
    exact iff_of_false Bool.false_ne_true fun h => h.2 hodd
  · rw [and_iff_left hodd, foundBy]
    split_ifs with hlow
    · have heven : byteLen x % 2 = 0 := Nat.mod_two_ne_one.mp fun h => hodd ⟨hlow, h⟩
      exact valueHex_tagRow (by rw [storedAsHex, hlow, heven]; rfl)
    · exact value_tagRow (by rw [storedAsHex, Bool.eq_false_iff.mpr hlow, Bool.false_and])

theorem dTagIs_tagRow {d v name : String} {id : Bytes} :
    dTagIs d (tagRow id (name, v)) = true ↔ name = "d" ∧ v = d := by
  rw [dTagIs, Bool.and_eq_true, beq_iff_eq]
  refine and_congr Iff.rfl ?_
  split_ifs with hd
  · exact valueHex_tagRow hd
  · exact value_tagRow (by simpa using hd)

end Floonet.Postgres
