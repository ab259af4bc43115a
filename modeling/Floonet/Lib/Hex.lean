import Mathlib.Data.List.Basic
import Mathlib.Tactic.Common
import Mathlib.Tactic.IntervalCases

/-!
# Hexadecimal text and the bytes it stands for

A byte string is written as two digits per byte. Reading is case-insensitive,
writing always produces lower case, so `decode` is a retraction of `encode` and
is injective exactly on lower-case text: two texts that differ only in case
stand for the same bytes.
-/

namespace Hex

/-- A byte string. -/
abbrev Bytes : Type := List UInt8

instance : LawfulBEq Bytes := List.instLawfulBEq

/-- Decimal digits `0-9`, by code point. -/
def isDecimal (c : Char) : Bool := 48 ≤ c.toNat && c.toNat ≤ 57

/-- The letters `a-f`. -/
def isLowerLetter (c : Char) : Bool := 97 ≤ c.toNat && c.toNat ≤ 102

/-- The letters `A-F`. -/
def isUpperLetter (c : Char) : Bool := 65 ≤ c.toNat && c.toNat ≤ 70

/-- A hex digit of either case. -/
def isDigit (c : Char) : Bool := isDecimal c || isLowerLetter c || isUpperLetter c

/-- A hex digit as `encode` writes it. -/
def isLowerDigit (c : Char) : Bool := isDecimal c || isLowerLetter c

/-- The value of a hex digit. -/
def digitValue (c : Char) : Option Nat :=
  if isDecimal c then some (c.toNat - 48)
  else if isLowerLetter c then some (c.toNat - 87)
  else if isUpperLetter c then some (c.toNat - 55)
  else none

/-- The lower-case digit of a value below 16. -/
def lowerDigit (n : Nat) : Char := if n < 10 then Char.ofNat (48 + n) else Char.ofNat (87 + n)

/-- Two digits per byte; an odd digit count or a foreign character fails. -/
def decodeChars : List Char → Option Bytes
  | [] => some []
  | [_] => none
  | a :: b :: rest =>
    match digitValue a, digitValue b, decodeChars rest with
    | some x, some y, some bs => some (UInt8.ofNat (16 * x + y) :: bs)
    | _, _, _ => none

/-- The bytes a text stands for. -/
def decode (s : String) : Option Bytes := decodeChars s.toList

/-- High half first. -/
def encodeChars : Bytes → List Char
  | [] => []
  | b :: bs => lowerDigit (b.toNat / 16) :: lowerDigit (b.toNat % 16) :: encodeChars bs

/-- The lower-case text of a byte string. -/
def encode (bs : Bytes) : String := String.ofList (encodeChars bs)

/-- The big-endian bytes of a number. -/
def ofNat : Nat → Nat → Bytes
  | 0, _ => []
  | width + 1, n => ofNat width (n / 256) ++ [UInt8.ofNat (n % 256)]

@[simp] theorem length_ofNat (width n : Nat) : (ofNat width n).length = width := by
  induction width generalizing n with
  | zero => rfl
  | succ width ih => rw [ofNat, List.length_append, ih, List.length_singleton]

/-! ## Digits -/

/-- A digit has the value it was written for. -/
theorem digitValue_lowerDigit {n : Nat} (h : n < 16) : digitValue (lowerDigit n) = some n := by
  interval_cases n <;> decide

theorem isLowerDigit_lowerDigit {n : Nat} (h : n < 16) : isLowerDigit (lowerDigit n) = true := by
  interval_cases n <;> decide

/-- A digit stands for less than 16. -/
theorem digitValue_lt {c : Char} {n : Nat} (h : digitValue c = some n) : n < 16 := by
  simp only [digitValue, isDecimal, isLowerLetter, isUpperLetter, Bool.and_eq_true,
    decide_eq_true_eq] at h
  split at h
  · obtain rfl := Option.some.inj h; omega
  · split at h
    · obtain rfl := Option.some.inj h; omega
    · split at h
      · obtain rfl := Option.some.inj h; omega
      · cases h

/-- A lower-case digit is recovered from its value. -/
theorem lowerDigit_of_digitValue {c : Char} {n : Nat} (hc : isLowerDigit c = true)
    (h : digitValue c = some n) : lowerDigit n = c := by
  simp only [isLowerDigit, Bool.or_eq_true] at hc
  by_cases hd : isDecimal c = true
  · rw [digitValue, if_pos hd] at h
    obtain rfl := Option.some.inj h
    simp only [isDecimal, Bool.and_eq_true, decide_eq_true_eq] at hd
    rw [lowerDigit, if_pos (by omega), Nat.add_sub_cancel' hd.1, Char.ofNat_toNat]
  · have hl : isLowerLetter c = true := hc.resolve_left hd
    rw [digitValue, if_neg hd, if_pos hl] at h
    obtain rfl := Option.some.inj h
    simp only [isLowerLetter, Bool.and_eq_true, decide_eq_true_eq] at hl
    rw [lowerDigit, if_neg (by omega), Nat.add_sub_cancel' (by omega), Char.ofNat_toNat]

theorem isDigit_of_isLowerDigit {c : Char} (h : isLowerDigit c = true) : isDigit c = true := by
  simp only [isLowerDigit, isDigit, Bool.or_eq_true] at h ⊢
  exact Or.inl h

/-! ## Reading and writing -/

/-- Inversion for the two-digit step of `decodeChars`. -/
theorem decodeChars_cons {a b : Char} {rest : List Char} {bs : Bytes}
    (h : decodeChars (a :: b :: rest) = some bs) :
    ∃ x y tail, digitValue a = some x ∧ digitValue b = some y ∧
      decodeChars rest = some tail ∧ bs = UInt8.ofNat (16 * x + y) :: tail := by
  rw [decodeChars] at h
  rcases ha : digitValue a with _ | x
  · simp [ha] at h
  · rcases hb : digitValue b with _ | y
    · simp [ha, hb] at h
    · rcases hr : decodeChars rest with _ | tail
      · simp [ha, hb, hr] at h
      · simp only [ha, hb, hr, Option.some.injEq] at h
        exact ⟨x, y, tail, rfl, rfl, rfl, h.symm⟩

theorem isSome_digitValue {c : Char} (h : isDigit c = true) : (digitValue c).isSome = true := by
  rw [isDigit] at h
  rw [digitValue]
  split_ifs with h1 h2 h3
  · rfl
  · rfl
  · rfl
  · simp [h1, h2, h3] at h

/-- Digits are read if they come in pairs. -/
theorem isSome_decodeChars :
    ∀ {l : List Char}, l.all isDigit = true → ((decodeChars l).isSome = true ↔ l.length % 2 = 0)
  | [], _ => by simp [decodeChars]
  | [_], _ => by simp [decodeChars]
  | a :: b :: rest, h => by
    simp only [List.all_cons, Bool.and_eq_true] at h
    obtain ⟨ha, hb, hrest⟩ := h
    obtain ⟨x, hx⟩ := Option.isSome_iff_exists.mp (isSome_digitValue ha)
    obtain ⟨y, hy⟩ := Option.isSome_iff_exists.mp (isSome_digitValue hb)
    have ih := isSome_decodeChars hrest
    rw [decodeChars, hx, hy]
    rcases hd : decodeChars rest with _ | bs
    · rw [hd] at ih
      simp only [Option.isSome_none, Bool.false_eq_true, false_iff] at ih
      simp only [Option.isSome_none, Bool.false_eq_true, false_iff, List.length_cons]
      omega
    · rw [hd] at ih
      simp only [Option.isSome_some, true_iff] at ih
      simp only [Option.isSome_some, true_iff, List.length_cons]
      omega

theorem decodeChars_encodeChars (bs : Bytes) : decodeChars (encodeChars bs) = some bs := by
  induction bs with
  | nil => rfl
  | cons b bs ih =>
    have hb : b.toNat < 256 := b.toNat_lt
    rw [encodeChars, decodeChars, digitValue_lowerDigit (by omega),
      digitValue_lowerDigit (by omega), ih]
    simp only [Option.some.injEq, List.cons.injEq, and_true]
    rw [Nat.div_add_mod, UInt8.ofNat_toNat]

/-- What was written reads back. -/
@[simp] theorem decode_encode (bs : Bytes) : decode (encode bs) = some bs := by
  rw [decode, encode, String.toList_ofList, decodeChars_encodeChars]

/-- Text without upper-case letters is the writing of the bytes it stands for. -/
theorem encodeChars_of_decodeChars :
    ∀ (cs : List Char) (bs : Bytes), (∀ c ∈ cs, isLowerDigit c = true) →
      decodeChars cs = some bs → encodeChars bs = cs
  | [], bs, _, h => by
    obtain rfl := Option.some.inj h
    rfl
  | [_], _, _, h => by cases h
  | a :: b :: rest, bs, hl, h => by
    obtain ⟨x, y, tail, ha, hb, hr, rfl⟩ := decodeChars_cons h
    have hx := digitValue_lt ha
    have hy := digitValue_lt hb
    have hval : (UInt8.ofNat (16 * x + y)).toNat = 16 * x + y := by
      rw [UInt8.toNat_ofNat']
      omega
    rw [encodeChars, hval, show (16 * x + y) / 16 = x by omega,
      show (16 * x + y) % 16 = y by omega,
      encodeChars_of_decodeChars rest tail (fun c hc => hl c (by simp [hc])) hr,
      lowerDigit_of_digitValue (hl a (by simp)) ha,
      lowerDigit_of_digitValue (hl b (by simp)) hb]

/-- `decode` is injective on lower-case text. -/
theorem eq_encode_of_decode {s : String} {bs : Bytes} (hs : s.toList.all isLowerDigit = true)
    (h : decode s = some bs) : s = encode bs := by
  rw [encode, encodeChars_of_decodeChars s.toList bs (List.all_eq_true.mp hs) h,
    String.ofList_toList]

theorem eq_of_decode_eq {s t : String} {bs : Bytes} (hs : s.toList.all isLowerDigit = true)
    (ht : t.toList.all isLowerDigit = true) (h : decode s = some bs) (h' : decode t = some bs) :
    s = t :=
  (eq_encode_of_decode hs h).trans (eq_encode_of_decode ht h').symm

/-- What is encoded is in lower case. -/
theorem isLowerDigit_encode (bs : Bytes) : (encode bs).toList.all isLowerDigit = true := by
  rw [encode, String.toList_ofList]
  induction bs with
  | nil => rfl
  | cons b bs ih =>
    have hb : b.toNat < 256 := b.toNat_lt
    rw [encodeChars, List.all_cons, List.all_cons, isLowerDigit_lowerDigit (by omega),
      isLowerDigit_lowerDigit (by omega), ih]
    rfl

theorem length_encodeChars (bs : Bytes) : (encodeChars bs).length = 2 * bs.length := by
  induction bs with
  | nil => rfl
  | cons b bs ih => simp only [encodeChars, List.length_cons, ih]; omega

end Hex
