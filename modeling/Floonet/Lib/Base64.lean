import Floonet.Lib.Hex

/-!
# Base64

The standard encoding of RFC 4648 with padding: three bytes give four digits. A text is
the encoding of one byte string only (`encodeChars_inj`), and has no blanks in it.
-/

namespace Base64

open Hex (Bytes)

/-- The standard alphabet. -/
def digit (n : Nat) : Char :=
  if n < 26 then Char.ofNat (65 + n)
  else if n < 52 then Char.ofNat (71 + n)
  else if n < 62 then Char.ofNat (n - 4)
  else if n = 62 then '+'
  else '/'

/-- Four digits for three bytes, padded at the end. -/
def encodeChars : Bytes → List Char
  | [] => []
  | [a] => [digit (a.toNat / 4), digit (a.toNat % 4 * 16), '=', '=']
  | [a, b] =>
    [digit (a.toNat / 4), digit (a.toNat % 4 * 16 + b.toNat / 16),
      digit (b.toNat % 16 * 4), '=']
  | a :: b :: c :: rest =>
    digit (a.toNat / 4) :: digit (a.toNat % 4 * 16 + b.toNat / 16) ::
      digit (b.toNat % 16 * 4 + c.toNat / 64) :: digit (c.toNat % 64) ::
      encodeChars rest

theorem digit_inj {m n : Nat} (hm : m < 64) (hn : n < 64)
    (h : digit m = digit n) : m = n := by
  have hall : ∀ m < 64, ∀ n < 64, digit m = digit n → m = n := by decide +kernel
  exact hall m hm n hn h

/-- A digit is a visible character other than the padding. -/
theorem digit_spec {n : Nat} (hn : n < 64) :
    digit n ≠ '=' ∧ 43 ≤ (digit n).toNat ∧ (digit n).toNat ≤ 122 := by
  have hall : ∀ n < 64, digit n ≠ '=' ∧ 43 ≤ (digit n).toNat ∧ (digit n).toNat ≤ 122 := by
    decide +kernel
  exact hall n hn

/-- The bytes of a group are read back from its first three digits and the last one. -/
theorem group_inj {a b c x y z : UInt8}
    (h₁ : digit (a.toNat / 4) = digit (x.toNat / 4))
    (h₂ : digit (a.toNat % 4 * 16 + b.toNat / 16) =
      digit (x.toNat % 4 * 16 + y.toNat / 16))
    (h₃ : digit (b.toNat % 16 * 4 + c.toNat / 64) =
      digit (y.toNat % 16 * 4 + z.toNat / 64))
    (h₄ : digit (c.toNat % 64) = digit (z.toNat % 64)) : a = x ∧ b = y ∧ c = z := by
  have ha := a.toNat_lt
  have hb := b.toNat_lt
  have hc := c.toNat_lt
  have hx := x.toNat_lt
  have hy := y.toNat_lt
  have hz := z.toNat_lt
  have e₁ := digit_inj (by omega) (by omega) h₁
  have e₂ := digit_inj (by omega) (by omega) h₂
  have e₃ := digit_inj (by omega) (by omega) h₃
  have e₄ := digit_inj (by omega) (by omega) h₄
  refine ⟨UInt8.toNat_inj.mp ?_, UInt8.toNat_inj.mp ?_, UInt8.toNat_inj.mp ?_⟩ <;> omega

/-- No padding inside: a text is the encoding of one byte string only. -/
theorem encodeChars_inj {xs ys : Bytes} (h : encodeChars xs = encodeChars ys) : xs = ys := by
  have hpad : ∀ {n : Nat}, n < 64 → digit n ≠ '=' := fun hn => (digit_spec hn).1
  induction xs using encodeChars.induct generalizing ys with
  | case1 =>
    rcases ys with _ | ⟨x, _ | ⟨y, _ | ⟨z, ys⟩⟩⟩ <;> first | rfl | cases h
  | case2 a =>
    have ha := a.toNat_lt
    rcases ys with _ | ⟨x, _ | ⟨y, _ | ⟨z, ys⟩⟩⟩
    · cases h
    · simp only [encodeChars, List.cons.injEq, and_true] at h
      obtain ⟨rfl, -, -⟩ := group_inj (b := 0) (y := 0) (c := 0) (z := 0) h.1 h.2 rfl rfl
      rfl
    · simp only [encodeChars, List.cons.injEq] at h
      exact absurd h.2.2.1.symm (hpad (by omega))
    · simp only [encodeChars, List.cons.injEq] at h
      have := z.toNat_lt
      exact absurd h.2.2.1.symm (hpad (by omega))
  | case3 a b =>
    rcases ys with _ | ⟨x, _ | ⟨y, _ | ⟨z, ys⟩⟩⟩
    · cases h
    · simp only [encodeChars, List.cons.injEq] at h
      exact absurd h.2.2.1 (hpad (by omega))
    · simp only [encodeChars, List.cons.injEq, and_true] at h
      obtain ⟨rfl, rfl, -⟩ := group_inj (c := 0) (z := 0) h.1 h.2.1 h.2.2 rfl
      rfl
    · simp only [encodeChars, List.cons.injEq] at h
      exact absurd h.2.2.2.1.symm (hpad (by omega))
  | case4 a b c rest ih =>
    have hc := c.toNat_lt
    rcases ys with _ | ⟨x, _ | ⟨y, _ | ⟨z, ys⟩⟩⟩
    · cases h
    · simp only [encodeChars, List.cons.injEq] at h
      exact absurd h.2.2.1 (hpad (by omega))
    · simp only [encodeChars, List.cons.injEq] at h
      exact absurd h.2.2.2.1 (hpad (by omega))
    · simp only [encodeChars, List.cons.injEq] at h
      obtain ⟨h₁, h₂, h₃, h₄, h⟩ := h
      obtain ⟨rfl, rfl, rfl⟩ := group_inj h₁ h₂ h₃ h₄
      rw [ih h]

/-- Every character of an encoding is visible. -/
theorem visible_of_mem_encodeChars {bs : Bytes} {c : Char} (h : c ∈ encodeChars bs) :
    43 ≤ c.toNat ∧ c.toNat ≤ 122 := by
  induction bs using encodeChars.induct with
  | case1 => cases h
  | case2 a =>
    have ha := a.toNat_lt
    simp only [encodeChars, List.mem_cons, List.not_mem_nil, or_false] at h
    rcases h with rfl | rfl | rfl | rfl
    · exact (digit_spec (by omega)).2
    · exact (digit_spec (by omega)).2
    · decide
    · decide
  | case3 a b =>
    have ha := a.toNat_lt
    have hb := b.toNat_lt
    simp only [encodeChars, List.mem_cons, List.not_mem_nil, or_false] at h
    rcases h with rfl | rfl | rfl | rfl
    · exact (digit_spec (by omega)).2
    · exact (digit_spec (by omega)).2
    · exact (digit_spec (by omega)).2
    · decide
  | case4 a b c rest ih =>
    have ha := a.toNat_lt
    have hb := b.toNat_lt
    have hc := c.toNat_lt
    simp only [encodeChars, List.mem_cons] at h
    rcases h with rfl | rfl | rfl | rfl | h
    · exact (digit_spec (by omega)).2
    · exact (digit_spec (by omega)).2
    · exact (digit_spec (by omega)).2
    · exact (digit_spec (by omega)).2
    · exact ih h

end Base64
