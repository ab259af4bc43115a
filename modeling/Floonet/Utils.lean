import Floonet.Lib.Hex

/-!
# Common utility functions

The string predicates of `utils.rs` and the few pieces of the standard library
the rest of the relay leans on: byte lengths of strings, `trim`, lower-casing,
number parsing and the 64-bit signed range that database integers live in.
-/

namespace Floonet

open Hex (Bytes)

/-- `str::len`: the length in UTF-8 bytes, not in characters. -/
def byteLen (s : String) : Nat := (s.toList.map Char.utf8Size).sum

/-- Check if a string contains only hex characters. -/
def isHex (s : String) : Bool := s.toList.all Hex.isDigit

/-- Check if a string contains only lower-case hex chars. -/
def isLowerHex (s : String) : Bool :=
  s.toList.all fun x =>
    ((97 ≤ x.toNat && x.toNat ≤ 122) || Hex.isDecimal x) && Hex.isDigit x

/-- Check if string is a nip19 string. -/
def isNip19 (s : String) : Bool := "npub".isPrefixOf s || "note".isPrefixOf s

/-- The Unicode `White_Space` characters, which `str::trim` removes. -/
def isWhitespace (c : Char) : Bool :=
  let n := c.toNat
  (9 ≤ n && n ≤ 13) || n == 32 || n == 133 || n == 160 || n == 5760 ||
    (8192 ≤ n && n ≤ 8202) || n == 8232 || n == 8233 || n == 8239 || n == 8287 || n == 12288

/-- `str::trim`. -/
def trim (s : String) : String :=
  String.ofList (((s.toList.dropWhile isWhitespace).reverse.dropWhile isWhitespace).reverse)

/-- `str::to_lowercase` on the letters `A-Z`. It is only ever compared with
hex text, and no other character lower-cases to a hex digit. -/
def toLowercase (s : String) : String := String.ofList (s.toList.map Char.toLower)

/-- `str::parse::<u64>`: an optional `+`, then at least one decimal digit and
nothing else, with a value below 2^64. -/
def parseU64 (s : String) : Option Nat :=
  let digits := if s.toList.head? = some '+' then s.toList.tail else s.toList
  if digits ≠ [] ∧ digits.all Char.isDigit = true ∧ Nat.ofDigitChars 10 digits 0 < 2 ^ 64 then
    some (Nat.ofDigitChars 10 digits 0)
  else none

/-- Fits an `i64`. Binding a larger `u64` to a SQLite statement is an error. -/
def fitsI64 (n : Nat) : Bool := n < 2 ^ 63

/-- The cast `as i64`, which wraps. -/
def asI64 (n : Nat) : Int :=
  let m : Nat := n % 2 ^ 64
  if m < 2 ^ 63 then (m : Int) else (m : Int) - 2 ^ 64

/-! ## Hex text -/

theorem isLowerHex_eq (s : String) : isLowerHex s = s.toList.all Hex.isLowerDigit := by
  rw [isLowerHex]
  congr 1
  funext x
  rw [Bool.eq_iff_iff]
  simp only [Hex.isLowerDigit, Hex.isDigit, Hex.isDecimal, Hex.isLowerLetter, Hex.isUpperLetter,
    Bool.and_eq_true, Bool.or_eq_true, decide_eq_true_eq]
  omega

theorem isHex_of_isLowerHex {s : String} (h : isLowerHex s = true) : isHex s = true := by
  rw [isLowerHex_eq, List.all_eq_true] at h
  rw [isHex, List.all_eq_true]
  exact fun c hc => Hex.isDigit_of_isLowerDigit (h c hc)

/-- Hex digits are ASCII, so for hex text bytes and characters are counted
alike. -/
theorem byteLen_of_isHex {s : String} (h : isHex s = true) : byteLen s = s.toList.length := by
  have hall := List.all_eq_true.mp h
  have hone : ∀ c ∈ s.toList, Char.utf8Size c = 1 := by
    intro c hc
    have := hall c hc
    simp only [Hex.isDigit, Hex.isDecimal, Hex.isLowerLetter, Hex.isUpperLetter,
      Bool.and_eq_true, Bool.or_eq_true, decide_eq_true_eq] at this
    have hv : c.val.toNat < 128 := by change c.toNat < 128; omega
    rw [Char.utf8Size, if_pos]
    exact UInt32.le_iff_toNat_le.mpr (by simpa using Nat.lt_succ_iff.mp hv)
  rw [byteLen]
  rw [List.map_congr_left hone]
  simp

/-- Hex decodes when its length is even. -/
theorem isSome_decode {s : String} (h : isHex s = true) :
    (Hex.decode s).isSome = true ↔ byteLen s % 2 = 0 := by
  rw [byteLen_of_isHex h]
  exact Hex.isSome_decodeChars h

/-- Lower-case hex text is determined by the bytes it stands for. -/
theorem eq_of_decode_eq {s t : String} {bs : Bytes} (hs : isLowerHex s = true)
    (ht : isLowerHex t = true) (h : Hex.decode s = some bs) (h' : Hex.decode t = some bs) :
    s = t := by
  rw [isLowerHex_eq] at hs ht
  exact Hex.eq_of_decode_eq hs ht h h'

theorem isLowerHex_encode (bs : Bytes) : isLowerHex (Hex.encode bs) = true := by
  rw [isLowerHex_eq]
  exact Hex.isLowerDigit_encode bs

theorem byteLen_encode (bs : Bytes) : byteLen (Hex.encode bs) = 2 * bs.length := by
  rw [byteLen_of_isHex (isHex_of_isLowerHex (isLowerHex_encode bs)), Hex.encode,
    String.toList_ofList, Hex.length_encodeChars]

end Floonet
