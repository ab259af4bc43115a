import Floonet.Lib.Json

/-!
# The grammar of JSON texts

What a text means as a JSON document, with blanks wherever the grammar allows them, so not only for
the texts of the compact writer. The compact writer writes such a text (`parses_toText`).

A string is a run of tokens, each a character or an escape. A run is never shorter than what it
stands for, and as long only if it is that text itself (`Body.length_le`, `Body.eq_of_length`). In
front of the first raw quote there is either the whole run or a backslash that escapes the quote
(`Body.split`).
-/

namespace Json

/-! ## Strings -/

/-- A character that stands for itself in a string. -/
def Unescaped (c : Char) : Prop := c ≠ quote ∧ c ≠ backslash ∧ 32 ≤ c.toNat

instance (c : Char) : Decidable (Unescaped c) := inferInstanceAs (Decidable (_ ∧ _ ∧ _))

/-- The letters of the two-character escapes. -/
def escapeLetters : List Char := [quote, backslash, '/', 'b', 'f', 'n', 'r', 't']

/-- Four hexadecimal digits. -/
def CodeUnit (h : List Char) (n : Nat) : Prop :=
  ∃ a b c d, h = [a, b, c, d] ∧ ∃ i j k l, Hex.digitValue a = some i ∧ Hex.digitValue b = some j ∧
    Hex.digitValue c = some k ∧ Hex.digitValue d = some l ∧ n = ((i * 16 + j) * 16 + k) * 16 + l

/-- A character of a string, as it may be written. -/
inductive Token : List Char → Char → Prop where
  | char {c : Char} : Unescaped c → Token [c] c
  | short {l : Char} : l ∈ escapeLetters → Token [backslash, l] (ofShortEscape l)
  | unit {h : List Char} {n : Nat} : CodeUnit h n → n.isValidChar →
    Token (backslash :: 'u' :: h) (Char.ofNat n)
  | pair {h h' : List Char} {n m : Nat} : CodeUnit h (0xd800 + n) → CodeUnit h' (0xdc00 + m) →
    n < 0x400 → m < 0x400 →
    Token (backslash :: 'u' :: h ++ backslash :: 'u' :: h') (Char.ofNat (0x10000 + n * 0x400 + m))

/-- The characters between the quotes. -/
inductive Body : List Char → List Char → Prop where
  | nil : Body [] []
  | cons {tok raw cs : List Char} {c : Char} : Token tok c → Body raw cs → Body (tok ++ raw) (c :: cs)

/-- A quoted string. -/
def StringText (t : List Char) (s : String) : Prop :=
  ∃ raw, t = quote :: raw ++ [quote] ∧ Body raw s.toList

/-! ## Documents -/

/-- A character that may stand between tokens. -/
def IsBlank (c : Char) : Prop := c = ' ' ∨ c.toNat = 9 ∨ c.toNat = 10 ∨ c.toNat = 13

instance (c : Char) : Decidable (IsBlank c) := inferInstanceAs (Decidable (_ ∨ _))

/-- Nothing but such characters. -/
def Blank (w : List Char) : Prop := ∀ c ∈ w, IsBlank c

/-- Decimal digits, at least one. -/
def Digits (t : List Char) : Prop := t ≠ [] ∧ ∀ c ∈ t, c.isDigit = true

/-- A fraction. -/
def Fraction (t : List Char) : Prop := ∃ ds, Digits ds ∧ t = '.' :: ds

/-- An exponent. -/
def Exponent (t : List Char) : Prop :=
  ∃ e sign ds, (e = 'e' ∨ e = 'E') ∧ (sign = [] ∨ sign = ['+'] ∨ sign = ['-']) ∧ Digits ds ∧
    t = e :: sign ++ ds

/-- A number, by the three forms a parser keeps apart. -/
inductive NumberText : List Char → Number → Prop where
  | posInt (n : Nat) : NumberText (Nat.toDigits 10 n) (.posInt n)
  | negInt (n : Nat) : 0 < n → NumberText ('-' :: Nat.toDigits 10 n) (.negInt (-n))
  | float {sign frac exp : List Char} (n : Nat) : sign = [] ∨ sign = ['-'] →
    frac = [] ∨ Fraction frac → exp = [] ∨ Exponent exp → frac ++ exp ≠ [] ∨ sign = ['-'] ∧ n = 0 →
    NumberText (sign ++ Nat.toDigits 10 n ++ frac ++ exp)
      (.float (String.ofList (sign ++ Nat.toDigits 10 n ++ frac ++ exp)))

mutual

/-- A value without the blanks around it. -/
inductive Text : List Char → Value → Prop where
  | null : Text "null".toList .null
  | true : Text "true".toList (.bool true)
  | false : Text "false".toList (.bool false)
  | number {t : List Char} {n : Number} : NumberText t n → Text t (.number n)
  | string {t : List Char} {s : String} : StringText t s → Text t (.string s)
  | noItems {w : List Char} : Blank w → Text ('[' :: w ++ [']']) (.array [])
  | array {t : List Char} {vs : List Value} : Items t vs → Text ('[' :: t ++ [']']) (.array vs)
  | noMembers {w : List Char} : Blank w →
    Text (Char.ofNat 123 :: w ++ [Char.ofNat 125]) (.object [])
  | object {t : List Char} {kvs : List (String × Value)} : Members t kvs →
    Text (Char.ofNat 123 :: t ++ [Char.ofNat 125]) (.object kvs)

/-- Values with commas between them. -/
inductive Items : List Char → List Value → Prop where
  | one {w t w' : List Char} {v : Value} : Blank w → Text t v → Blank w' → Items (w ++ t ++ w') [v]
  | cons {w t w' ts : List Char} {v : Value} {vs : List Value} : Blank w → Text t v → Blank w' →
    Items ts vs → Items (w ++ t ++ w' ++ ',' :: ts) (v :: vs)

/-- Members with commas between them. -/
inductive Members : List Char → List (String × Value) → Prop where
  | one {w k w' t : List Char} {key : String} {v : Value} : Blank w → StringText k key →
    Blank w' → Items t [v] → Members (w ++ k ++ w' ++ ':' :: t) [(key, v)]
  | cons {w k w' t ts : List Char} {key : String} {v : Value} {kvs : List (String × Value)} :
    Blank w → StringText k key → Blank w' → Items t [v] → Members ts kvs →
    Members (w ++ k ++ w' ++ ':' :: t ++ ',' :: ts) ((key, v) :: kvs)

end

/-- The text is a JSON document with this value. -/
def Parses (text : String) (v : Value) : Prop :=
  ∃ w t w', Blank w ∧ Text t v ∧ Blank w' ∧ text.toList = w ++ t ++ w'

/-! ## Reading strings -/

section Strings

variable {tok raw cs u x y h : List Char} {c : Char} {n : Nat}

/-- A code unit is written without quotation marks. -/
theorem CodeUnit.quote_notMem (hu : CodeUnit h n) : quote ∉ h := by
  obtain ⟨a, b, c, d, rfl, i, j, k, l, ha, hb, hc, hd, -⟩ := hu
  intro hmem
  have hnone : Hex.digitValue quote = none := by decide
  simp only [List.mem_cons, List.not_mem_nil, or_false] at hmem
  rcases hmem with rfl | rfl | rfl | rfl <;> simp_all

/-- A quote in a token is an escaped quote. -/
theorem Token.eq_of_quote_mem (ht : Token tok c) (hq : quote ∈ tok) : tok = [backslash, quote] := by
  have hb : quote ≠ backslash := by decide
  have hu : quote ≠ 'u' := by decide
  cases ht with
  | char hc => exact absurd (List.mem_singleton.mp hq).symm hc.1
  | short hl =>
    obtain rfl := List.mem_singleton.mp ((List.mem_cons.mp hq).resolve_left hb)
    rfl
  | unit hh _ => simp [hb, hu, hh.quote_notMem] at hq
  | pair hh hh' _ _ => simp [hb, hu, hh.quote_notMem, hh'.quote_notMem] at hq

/-- A token is a character that stands for itself, or longer than one character. -/
theorem Token.cases_length (ht : Token tok c) : (tok = [c] ∧ Unescaped c) ∨ 2 ≤ tok.length := by
  cases ht with
  | char hc => exact .inl ⟨rfl, hc⟩
  | short _ => exact .inr le_rfl
  | unit _ _ => exact .inr (by simp)
  | pair _ _ _ _ => exact .inr (by simp)

theorem Body.length_le (hb : Body raw cs) : cs.length ≤ raw.length := by
  induction hb with
  | nil => exact le_rfl
  | cons ht _ ih =>
    rw [List.length_append, List.length_cons]
    rcases ht.cases_length with ⟨rfl, -⟩ | hlen
    · rw [List.length_singleton]
      omega
    · omega

/-- Only characters that stand for themselves are no longer than what they stand for. -/
theorem Body.eq_of_length (hb : Body raw cs) (hlen : raw.length ≤ cs.length) :
    raw = cs ∧ ∀ c ∈ cs, Unescaped c := by
  induction hb with
  | nil => exact ⟨rfl, fun _ h => absurd h List.not_mem_nil⟩
  | cons ht hb ih =>
    have hle := hb.length_le
    rw [List.length_append, List.length_cons] at hlen
    rcases ht.cases_length with ⟨rfl, hc⟩ | htok
    · rw [List.length_singleton] at hlen
      obtain ⟨rfl, hall⟩ := ih (by omega)
      exact ⟨rfl, List.forall_mem_cons.mpr ⟨hc, hall⟩⟩
    · omega

/-- Without escapes a run stands for itself. -/
theorem Body.eq_of_unescaped (hb : Body raw cs) (h : ∀ c ∈ raw, Unescaped c) : cs = raw := by
  induction hb with
  | nil => rfl
  | cons ht _ ih =>
    rw [ih fun c hc => h c (List.mem_append_right _ hc)]
    have hhead := h backslash
    cases ht with
    | char _ => rfl
    | short _ => exact absurd rfl (hhead (by simp)).2.1
    | unit _ _ => exact absurd rfl (hhead (by simp)).2.1
    | pair _ _ _ _ => exact absurd rfl (hhead (by simp)).2.1

/-- In front of a first quote there is the whole run, or the quote is escaped and the run goes on. -/
theorem Body.split (hb : Body raw cs) (hu : quote ∉ u) (h : raw ++ quote :: x = u ++ quote :: y) :
    (raw = u ∧ x = y) ∨
      (∃ u', u = u' ++ [backslash]) ∧ ∃ raw' cs', Body raw' cs' ∧ raw' ++ quote :: x = y := by
  induction hb generalizing u with
  | nil =>
    cases u with
    | nil => exact .inl ⟨rfl, (List.cons.inj h).2⟩
    | cons c u => exact absurd ((List.cons.inj h).1 ▸ List.mem_cons_self ..) hu
  | @cons tok raw cs c ht hb ih =>
    -- the case in which the token ends before the quote
    have hinside : ∀ v, u = tok ++ v → raw ++ quote :: x = v ++ quote :: y →
        (tok ++ raw = u ∧ x = y) ∨ (∃ u', u = u' ++ [backslash]) ∧
          ∃ raw' cs', Body raw' cs' ∧ raw' ++ quote :: x = y := by
      rintro v rfl hv
      rcases ih (fun hq => hu (List.mem_append_right _ hq)) hv with ⟨rfl, rfl⟩ | ⟨⟨v', rfl⟩, hrest⟩
      · exact .inl ⟨rfl, rfl⟩
      · exact .inr ⟨⟨tok ++ v', by rw [List.append_assoc]⟩, hrest⟩
    rw [List.append_assoc, List.append_eq_append_iff] at h
    rcases h with ⟨v, rfl, hv⟩ | ⟨v, rfl, hv⟩
    · exact hinside v rfl hv
    · cases v with
      | nil => exact hinside [] (by simp) hv.symm
      | cons q v =>
        obtain ⟨rfl, rfl⟩ := List.cons.inj hv
        have hesc := ht.eq_of_quote_mem (List.mem_append_right _ (List.mem_cons_self ..))
        have hlen := congrArg List.length hesc
        simp only [List.length_append, List.length_cons, List.length_nil] at hlen
        rcases u with _ | ⟨a, u⟩
        · exact absurd (List.cons.inj hesc).1 (by decide)
        · obtain rfl : u = [] := List.length_eq_zero_iff.mp (by simp at hlen; omega)
          obtain rfl : v = [] := List.length_eq_zero_iff.mp (by simp at hlen; omega)
          obtain ⟨rfl, -⟩ := List.cons.inj hesc
          exact .inr ⟨⟨[], rfl⟩, raw, cs, hb, rfl⟩

end Strings

/-! ## Reading arrays -/

section Arrays

variable {w t x y : List Char} {v : Value}

/-- There are no blanks in front of a character that is none. -/
theorem Blank.eq_nil {c : Char} (hw : Blank w) (hc : ¬ IsBlank c) (h : w ++ x = c :: y) :
    w = [] ∧ x = c :: y := by
  cases w with
  | nil => exact ⟨rfl, h⟩
  | cons b w => exact absurd (hw b (List.mem_cons_self ..)) ((List.cons.inj h).1 ▸ hc)

/-- The text of a string value is the text of a string. -/
theorem stringText_of_text {s : String} (h : Text t (.string s)) : StringText t s := by
  cases h
  assumption

/-- The first of the items of an array, if it is a string. -/
theorem Items.head_string {s : String} {vs : List Value} {z : List Char}
    (h : Items t (.string s :: vs)) (heq : t ++ z = quote :: x) :
    ∃ raw w, Body raw s.toList ∧ Blank w ∧ ((vs = [] ∧ x = raw ++ quote :: (w ++ z)) ∨
      ∃ ts, Items ts vs ∧ x = raw ++ quote :: (w ++ ',' :: ts ++ z)) := by
  have hquote : ¬ IsBlank quote := by decide
  cases h with
  | one hw ht hw' =>
    obtain ⟨raw, rfl, hb⟩ := stringText_of_text ht
    simp only [List.append_assoc, List.cons_append] at heq
    obtain ⟨-, heq⟩ := hw.eq_nil hquote heq
    exact ⟨raw, _, hb, hw', .inl ⟨rfl, (List.cons.inj heq).2.symm⟩⟩
  | cons hw ht hw' hts =>
    obtain ⟨raw, rfl, hb⟩ := stringText_of_text ht
    simp only [List.append_assoc, List.cons_append] at heq
    obtain ⟨-, heq⟩ := hw.eq_nil hquote heq
    refine ⟨raw, _, hb, hw', .inr ⟨_, hts, ?_⟩⟩
    rw [← (List.cons.inj heq).2]
    simp

/-- An array whose text starts with a plain string has it as its first item, and what follows is
the rest of the array. -/
theorem Parses.second_string {text ty i s : String} {vs : List Value}
    (h : Parses text (.array (.string i :: .string s :: vs)))
    (hty : ∀ c ∈ ty.toList, Unescaped c)
    (htext : text.toList = '[' :: quote :: ty.toList ++ quote :: ',' :: quote :: x) :
    i = ty ∧ ∃ raw y w c z, Body raw s.toList ∧ x = raw ++ quote :: y ∧
      Blank w ∧ (c = ',' ∨ c = ']') ∧ y = w ++ c :: z := by
  obtain ⟨w, t, w', hw, ht, -, heq⟩ := h
  cases ht with
  | array hitems =>
    rename_i t
    rw [htext] at heq
    simp only [List.append_assoc, List.cons_append] at heq
    obtain ⟨-, heq⟩ := hw.eq_nil (by decide) heq.symm
    obtain ⟨raw, w₁, hraw, hw₁, ⟨hnil, -⟩ | ⟨ts, hts, hx⟩⟩ :=
      hitems.head_string (List.cons.inj heq).2
    · cases hnil
    · have hq : quote ∉ ty.toList := fun hmem => (hty _ hmem).1 rfl
      have hb : ¬ ∃ u', ty.toList = u' ++ [backslash] := by
        rintro ⟨u', hu'⟩
        exact (hty backslash (hu' ▸ List.mem_append_right _ (List.mem_singleton_self _))).2.1 rfl
      obtain ⟨rfl, hrest⟩ := (hraw.split hq hx.symm).resolve_right fun h => hb h.1
      refine ⟨String.toList_inj.mp (hraw.eq_of_unescaped hty), ?_⟩
      simp only [List.append_assoc, List.cons_append] at hrest
      obtain ⟨-, hrest⟩ := hw₁.eq_nil (by decide) hrest
      obtain ⟨raw, w₂, hraw₂, hw₂, ⟨-, hx₂⟩ | ⟨us, -, hx₂⟩⟩ :=
        hts.head_string (List.cons.inj hrest).2
      · exact ⟨raw, _, w₂, ']', _, hraw₂, hx₂, hw₂, .inr rfl, rfl⟩
      · exact ⟨raw, _, w₂, ',', us ++ ']' :: ([] ++ w'), hraw₂, hx₂, hw₂, .inl rfl,
          List.append_assoc ..⟩

end Arrays

/-! ## Reading what was written -/

section Writer

/-- The writer's form of a character is one of its tokens. -/
theorem token_escapeChar (c : Char) : Token (escapeChar c) c := by
  rw [escapeChar]
  rcases hc : shortEscape c with _ | l
  · by_cases hlow : c.toNat < 32
    · rw [if_pos hlow]
      have hunit : CodeUnit ['0', '0', Hex.lowerDigit (c.toNat / 16),
          Hex.lowerDigit (c.toNat % 16)] c.toNat :=
        ⟨_, _, _, _, rfl, 0, 0, c.toNat / 16, c.toNat % 16, by decide, by decide,
          Hex.digitValue_lowerDigit (by omega), Hex.digitValue_lowerDigit (by omega), by omega⟩
      have htoken := Token.unit hunit (Or.inl (by omega))
      rwa [Char.ofNat_toNat] at htoken
    · rw [if_neg hlow]
      refine .char ⟨?_, ne_backslash_of_shortEscape hc, by omega⟩
      rintro rfl
      revert hc
      decide
  · have hl : l ∈ escapeLetters := by
      rw [shortEscape] at hc
      split_ifs at hc <;> cases hc <;> decide
    exact ofShortEscape_eq hc ▸ .short hl

/-- A string without escapes. -/
theorem renderString_of_unescaped {s : String} (h : ∀ c ∈ s.toList, Unescaped c) :
    renderString s = quote :: s.toList ++ [quote] := by
  have htail : ∀ cs : List Char, (∀ c ∈ cs, Unescaped c) → stringTail cs = cs ++ [quote] := by
    intro cs hcs
    induction cs with
    | nil => rfl
    | cons c cs ih =>
      obtain ⟨⟨hq, hb, hlow⟩, hcs⟩ := List.forall_mem_cons.mp hcs
      have hshort : shortEscape c = none := by
        rw [shortEscape, if_neg hq, if_neg hb]
        split_ifs <;> first | rfl | omega
      rw [stringTail, ih hcs, escapeChar, hshort]
      simp only [if_neg (not_lt.mpr hlow), List.cons_append, List.nil_append]
  rw [renderString, htail _ h, List.cons_append]

/-- A rendered string is a text of it. -/
theorem stringText_renderString (s : String) : StringText (renderString s) s := by
  have hbody : ∀ cs : List Char, ∃ raw, stringTail cs = raw ++ [quote] ∧ Body raw cs := by
    intro cs
    induction cs with
    | nil => exact ⟨[], rfl, .nil⟩
    | cons c cs ih =>
      obtain ⟨raw, hraw, hb⟩ := ih
      exact ⟨escapeChar c ++ raw, by rw [stringTail, hraw, List.append_assoc],
        .cons (token_escapeChar c) hb⟩
  obtain ⟨raw, hraw, hb⟩ := hbody s.toList
  exact ⟨raw, by rw [renderString, hraw, List.cons_append], hb⟩

theorem blank_nil : Blank [] := fun _ h => absurd h List.not_mem_nil

theorem items_singleton {t : List Char} {v : Value} (h : Text t v) : Items t [v] := by
  have h := Items.one blank_nil h blank_nil
  rwa [List.nil_append, List.append_nil] at h

/-- A rendered array is a text of it. -/
theorem text_array {vs : List Value} (h : ∀ v ∈ vs, Text (render v) v) :
    Text (render (.array vs)) (.array vs) := by
  have hitems : ∀ (vs : List Value) (v : Value), (∀ u ∈ v :: vs, Text (render u) u) →
      ∃ t, renderItems (v :: vs) = t ++ [']'] ∧ Items t (v :: vs) := by
    intro vs
    induction vs with
    | nil =>
      intro v hv
      exact ⟨render v, rfl, items_singleton (hv v (List.mem_cons_self ..))⟩
    | cons w vs ih =>
      intro v hv
      obtain ⟨t, ht, hts⟩ := ih w fun u hu => hv u (List.mem_cons_of_mem _ hu)
      refine ⟨render v ++ ',' :: t, by rw [renderItems, ht, List.append_assoc, List.cons_append], ?_⟩
      have hcons := Items.cons blank_nil (hv v (List.mem_cons_self ..)) blank_nil hts
      rwa [List.nil_append, List.append_nil] at hcons
  rw [render]
  cases vs with
  | nil => exact .noItems blank_nil
  | cons v vs =>
    obtain ⟨t, ht, hts⟩ := hitems vs v h
    rw [ht]
    exact .array hts

/-- A rendered object is a text of it. -/
theorem text_object {kvs : List (String × Value)} (h : ∀ m ∈ kvs, Text (render m.2) m.2) :
    Text (render (.object kvs)) (.object kvs) := by
  have hmembers : ∀ (kvs : List (String × Value)) (m : String × Value),
      (∀ u ∈ m :: kvs, Text (render u.2) u.2) →
        ∃ t, renderMembers (m :: kvs) = t ++ [Char.ofNat 125] ∧ Members t (m :: kvs) := by
    intro kvs
    induction kvs with
    | nil =>
      rintro ⟨key, v⟩ hv
      refine ⟨renderString key ++ ':' :: render v, by rw [renderMembers], ?_⟩
      have hone := Members.one blank_nil (stringText_renderString key) blank_nil
        (items_singleton (hv _ (List.mem_cons_self ..)))
      rwa [List.nil_append, List.append_nil] at hone
    | cons m kvs ih =>
      rintro ⟨key, v⟩ hv
      obtain ⟨t, ht, hts⟩ := ih m fun u hu => hv u (List.mem_cons_of_mem _ hu)
      refine ⟨renderString key ++ ':' :: render v ++ ',' :: t, by rw [renderMembers, ht]; simp, ?_⟩
      have hcons := Members.cons blank_nil (stringText_renderString key) blank_nil
        (items_singleton (hv _ (List.mem_cons_self ..))) hts
      rwa [List.nil_append, List.append_nil] at hcons
  rw [render]
  cases kvs with
  | nil => exact .noMembers blank_nil
  | cons m kvs =>
    obtain ⟨t, ht, hts⟩ := hmembers kvs m h
    rw [ht]
    exact .object hts

/-- A rendered string is a text of its value. -/
theorem text_string (s : String) : Text (render (.string s)) (.string s) :=
  .string (stringText_renderString s)

/-- A rendered number is a text of it. -/
theorem text_posInt (n : Nat) : Text (render (.number (.posInt n))) (.number (.posInt n)) :=
  .number (.posInt n)

/-- A text without blanks around it. -/
theorem parses_toText {v : Value} (h : Text (render v) v) : Parses (toText v) v :=
  ⟨[], _, [], blank_nil, h, blank_nil, by rw [toText, String.toList_ofList]; simp⟩

end Writer

end Json
