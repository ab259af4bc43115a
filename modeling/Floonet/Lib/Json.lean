import Mathlib.Data.List.Basic
import Mathlib.Tactic.Common
import Mathlib.Tactic.IntervalCases
import Floonet.Lib.Hex

/-!
# JSON values and their compact text

The value tree of a JSON document, objects kept in insertion order, the readers a
typed deserializer is made of, and the compact writer: no blanks, strings with the
short escapes where JSON has one and `u00xx` for the other control characters.

The second half is about reading text back without a parser: an encoder is
*uniquely readable* when whatever follows its output, both the value and the rest
are determined. Quoted strings are, and so is a bracketed list of uniquely
readable items; numbers are as soon as a non-digit follows.
-/

namespace Json

/-- A JSON number, by the three forms a parser keeps apart. -/
inductive Number where
  /-- a non-negative integer -/
  | posInt : Nat → Number
  /-- a negative integer -/
  | negInt : Int → Number
  /-- anything written with a fraction or an exponent, as its text -/
  | float : String → Number
  deriving DecidableEq

/-- A JSON document. -/
inductive Value where
  | null : Value
  | bool : Bool → Value
  | number : Number → Value
  | string : String → Value
  | array : List Value → Value
  /-- members in insertion order -/
  | object : List (String × Value) → Value

/-! ## Reading values -/

/-- The string a value is. -/
def Value.toStr : Value → Option String
  | .string s => some s
  | _ => none

theorem Value.toStr_eq_some {v : Value} {s : String} : v.toStr = some s ↔ v = .string s := by
  cases v <;> simp [toStr]

/-- The unsigned 64-bit integer a value is. -/
def Value.toU64 : Value → Option Nat
  | .number (.posInt n) => if n < 2 ^ 64 then some n else none
  | _ => none

/-- The items of an array that are all of one type. -/
def Value.toItems {α : Type} (item : Value → Option α) : Value → Option (List α)
  | .array vs => vs.mapM item
  | _ => none

/-- The value is an array. -/
def Value.isArray : Value → Bool
  | .array _ => true
  | _ => false

section Items

variable {α : Type} {item : Value → Option α} {l : List α}

/-- A list that was written item by item is read back. -/
theorem Value.toItems_array_map {mk : α → Value} (h : ∀ a ∈ l, item (mk a) = some a) :
    (Value.array (l.map mk)).toItems item = some l := by
  rw [toItems]
  induction l with
  | nil => rfl
  | cons a l ih =>
    obtain ⟨ha, hl⟩ := List.forall_mem_cons.mp h
    rw [List.map_cons, List.mapM_cons, ha, ih hl]
    rfl

/-- Every item that was read is one that the reader returns. -/
theorem Value.exists_of_mem_toItems {v : Value} {a : α} (h : v.toItems item = some l)
    (ha : a ∈ l) : ∃ w, item w = some a := by
  cases v with
  | array vs =>
    rw [toItems] at h
    induction vs generalizing l with
    | nil =>
      cases h
      exact absurd ha List.not_mem_nil
    | cons w vs ih =>
      rw [List.mapM_cons] at h
      rcases hw : item w with _ | b <;> rw [hw] at h
      · cases h
      · rcases hvs : vs.mapM item with _ | l' <;> rw [hvs] at h
        · cases h
        · cases h
          rcases List.mem_cons.mp ha with rfl | ha
          · exact ⟨w, hw⟩
          · exact ih ha hvs
  | _ => cases h

/-- What is read as a `u64` fits. -/
theorem Value.toU64_lt {v : Value} {n : Nat} (h : v.toU64 = some n) : n < 2 ^ 64 := by
  rcases v with _ | _ | ⟨n' | z | t⟩ | _ | _ | _ <;> simp only [toU64, reduceCtorEq] at h
  split_ifs at h with hlt
  cases h
  exact hlt

theorem Value.toU64_posInt {n : Nat} (h : n < 2 ^ 64) :
    (Value.number (.posInt n)).toU64 = some n := if_pos h

end Items

/-! ## The compact writer -/

/-- The quotation mark. -/
def quote : Char := Char.ofNat 34

/-- The backslash. -/
def backslash : Char := Char.ofNat 92

/-- The letter of the two-character escapes. -/
def shortEscape (c : Char) : Option Char :=
  if c = quote then some quote
  else if c = backslash then some backslash
  else if c.toNat = 8 then some 'b'
  else if c.toNat = 9 then some 't'
  else if c.toNat = 10 then some 'n'
  else if c.toNat = 12 then some 'f'
  else if c.toNat = 13 then some 'r'
  else none

/-- One character of a string, as it appears between the quotes. -/
def escapeChar (c : Char) : List Char :=
  match shortEscape c with
  | some l => [backslash, l]
  | none =>
    if c.toNat < 32 then
      [backslash, 'u', '0', '0', Hex.lowerDigit (c.toNat / 16), Hex.lowerDigit (c.toNat % 16)]
    else [c]

/-- The characters of a string and the closing quote. -/
def stringTail : List Char → List Char
  | [] => [quote]
  | c :: cs => escapeChar c ++ stringTail cs

/-- A string in its quotation marks. -/
def renderString (s : String) : List Char := quote :: stringTail s.toList

/-- A number; a float keeps its text. -/
def renderNumber : Number → List Char
  | .posInt n => Nat.toDigits 10 n
  | .negInt z => (toString z).toList
  | .float text => text.toList

/-- Items with a comma between neighbours, and the closing bracket. -/
def itemsTail {α : Type} (enc : α → List Char) : List α → List Char
  | [] => [']']
  | [a] => enc a ++ [']']
  | a :: b :: rest => enc a ++ ',' :: itemsTail enc (b :: rest)

/-- A bracketed list. -/
def renderList {α : Type} (enc : α → List Char) (l : List α) : List Char := '[' :: itemsTail enc l

mutual

/-- The compact text of a document. -/
def render : Value → List Char
  | .null => "null".toList
  | .bool true => "true".toList
  | .bool false => "false".toList
  | .number n => renderNumber n
  | .string s => renderString s
  | .array vs => '[' :: renderItems vs
  | .object kvs => Char.ofNat 123 :: renderMembers kvs

/-- The items of an array and its end. -/
def renderItems : List Value → List Char
  | [] => [']']
  | [v] => render v ++ [']']
  | v :: w :: rest => render v ++ ',' :: renderItems (w :: rest)

/-- The members of an object and its end. -/
def renderMembers : List (String × Value) → List Char
  | [] => [Char.ofNat 125]
  | [(k, v)] => renderString k ++ ':' :: render v ++ [Char.ofNat 125]
  | (k, v) :: m :: rest => renderString k ++ ':' :: render v ++ ',' :: renderMembers (m :: rest)

end

/-- The text of a document. -/
def toText (v : Value) : String := String.ofList (render v)

theorem renderItems_map {α : Type} (f : α → Value) :
    ∀ l : List α, renderItems (l.map f) = itemsTail (fun a => render (f a)) l
  | [] => rfl
  | [_] => rfl
  | a :: b :: rest => by
    rw [List.map_cons, List.map_cons, renderItems, itemsTail, ← List.map_cons,
      renderItems_map f (b :: rest)]

/-- An array built by mapping is a bracketed list of the items' texts. -/
theorem render_array_map {α : Type} (f : α → Value) (l : List α) :
    render (.array (l.map f)) = renderList (fun a => render (f a)) l := by
  rw [render, renderItems_map, renderList]

/-! ## Unique readability

A family of texts is uniquely readable when two of them with any continuations are equal only if
they are the same. Composite texts inherit this from their parts. -/

/-- Whatever follows, the encoded value and the rest are determined. -/
def UniquelyReadable {α : Type} (enc : α → List Char) : Prop :=
  ∀ a b x y, enc a ++ x = enc b ++ y → a = b ∧ x = y

/-- The character a two-character escape stands for. -/
def ofShortEscape (l : Char) : Char :=
  if l = 'b' then Char.ofNat 8
  else if l = 't' then Char.ofNat 9
  else if l = 'n' then Char.ofNat 10
  else if l = 'f' then Char.ofNat 12
  else if l = 'r' then Char.ofNat 13
  else l

/-- A short escape stands for the character it was written for. -/
theorem ofShortEscape_eq {c l : Char} (h : shortEscape c = some l) : ofShortEscape l = c := by
  have hnat : ∀ n, c.toNat = n → Char.ofNat n = c := fun n hn => by rw [← hn, Char.ofNat_toNat]
  rw [shortEscape] at h
  split_ifs at h with h1 h2 h3 h4 h5 h6 h7 <;> obtain rfl := Option.some.inj h
  · rw [h1]; decide
  · rw [h2]; decide
  · exact hnat 8 h3
  · exact hnat 9 h4
  · exact hnat 10 h5
  · exact hnat 12 h6
  · exact hnat 13 h7

/-- The letter of the long escapes is not among the short ones. -/
theorem shortEscape_ne_u {c : Char} : shortEscape c ≠ some 'u' := by
  rw [shortEscape]
  split_ifs <;> decide

/-- A character that needs no escape is not the backslash. -/
theorem ne_backslash_of_shortEscape {c : Char} (h : shortEscape c = none) : c ≠ backslash := by
  rintro rfl
  revert h
  decide

theorem uniquelyReadable_escapeChar : UniquelyReadable escapeChar := by
  intro c d x y h
  rw [escapeChar, escapeChar] at h
  rcases hc : shortEscape c with _ | l <;> rcases hd : shortEscape d with _ | m <;>
    simp only [hc, hd] at h
  · -- neither has a short escape: both hexadecimal, or both plain
    have hc' := ne_backslash_of_shortEscape hc
    have hd' := ne_backslash_of_shortEscape hd
    by_cases h1 : c.toNat < 32 <;> by_cases h2 : d.toNat < 32 <;>
      simp only [h1, h2, if_true, if_false, List.cons_append, List.nil_append,
        List.cons.injEq, true_and] at h
    · obtain ⟨hhi, hlo, rfl⟩ := h
      have e1 := congrArg Hex.digitValue hhi
      have e2 := congrArg Hex.digitValue hlo
      rw [Hex.digitValue_lowerDigit (by omega), Hex.digitValue_lowerDigit (by omega),
        Option.some.injEq] at e1 e2
      refine ⟨?_, rfl⟩
      rw [← Char.ofNat_toNat c, ← Char.ofNat_toNat d, show c.toNat = d.toNat by omega]
    · exact absurd h.1.symm hd'
    · exact absurd h.1 hc'
    · exact h
  · have hc' := ne_backslash_of_shortEscape hc
    by_cases h1 : c.toNat < 32 <;>
      simp only [h1, if_true, if_false, List.cons_append, List.nil_append,
        List.cons.injEq, true_and] at h
    · exact absurd (hd.trans (congrArg some h.1.symm)) shortEscape_ne_u
    · exact absurd h.1 hc'
  · have hd' := ne_backslash_of_shortEscape hd
    by_cases h2 : d.toNat < 32 <;>
      simp only [h2, if_true, if_false, List.cons_append, List.nil_append,
        List.cons.injEq, true_and] at h
    · exact absurd (hc.trans (congrArg some h.1)) shortEscape_ne_u
    · exact absurd h.1.symm hd'
  · simp only [List.cons_append, List.nil_append, List.cons.injEq, true_and] at h
    exact ⟨by rw [← ofShortEscape_eq hc, h.1, ofShortEscape_eq hd], h.2⟩

/-- An escaped character never starts like the closing quote. -/
theorem escapeChar_head (c : Char) : ∃ a t, escapeChar c = a :: t ∧ a ≠ quote := by
  rw [escapeChar]
  rcases hc : shortEscape c with _ | l
  · by_cases h1 : c.toNat < 32
    · exact ⟨backslash, _, if_pos h1, by decide⟩
    · refine ⟨c, [], if_neg h1, ?_⟩
      rintro rfl
      revert hc
      decide
  · exact ⟨backslash, _, rfl, by decide⟩

/-- The rest of a string ends where it has to. -/
theorem stringTail_inj : ∀ (s t x y : List Char), stringTail s ++ x = stringTail t ++ y →
    s = t ∧ x = y
  | [], [], x, y, h => ⟨rfl, (List.cons.inj h).2⟩
  | [], d :: t, x, y, h => by
    obtain ⟨a, r, he, hne⟩ := escapeChar_head d
    rw [stringTail, stringTail, he] at h
    exact absurd (List.cons.inj h).1.symm hne
  | c :: s, [], x, y, h => by
    obtain ⟨a, r, he, hne⟩ := escapeChar_head c
    rw [stringTail, stringTail, he] at h
    exact absurd (List.cons.inj h).1 hne
  | c :: s, d :: t, x, y, h => by
    rw [stringTail, stringTail, List.append_assoc, List.append_assoc] at h
    obtain ⟨rfl, h'⟩ := uniquelyReadable_escapeChar c d _ _ h
    obtain ⟨rfl, rfl⟩ := stringTail_inj s t x y h'
    exact ⟨rfl, rfl⟩

theorem uniquelyReadable_renderString : UniquelyReadable renderString := by
  intro s t x y h
  rw [renderString, renderString, List.cons_append, List.cons_append] at h
  obtain ⟨hst, hxy⟩ := stringTail_inj _ _ _ _ (List.cons.inj h).2
  exact ⟨String.toList_inj.mp hst, hxy⟩

/-- Items never start like the closing bracket. -/
def Opens {α : Type} (enc : α → List Char) : Prop := ∀ a, ∃ c t, enc a = c :: t ∧ c ≠ ']'

theorem opens_renderString : Opens renderString :=
  fun s => ⟨quote, stringTail s.toList, rfl, by decide⟩

theorem opens_renderList {α : Type} (enc : α → List Char) : Opens (renderList enc) :=
  fun l => ⟨'[', itemsTail enc l, rfl, by decide⟩

section Lists

variable {α : Type} {enc : α → List Char}

/-- A list of items is its first item and, if there are more, a comma. -/
theorem itemsTail_cons (enc : α → List Char) (a : α) (rest : List α) :
    ∃ r, itemsTail enc (a :: rest) = enc a ++ r ∧
      ((rest = [] ∧ r = [']']) ∨ (rest ≠ [] ∧ r = ',' :: itemsTail enc rest)) := by
  cases rest with
  | nil => exact ⟨[']'], rfl, Or.inl ⟨rfl, rfl⟩⟩
  | cons b rest => exact ⟨_, rfl, Or.inr ⟨List.cons_ne_nil _ _, rfl⟩⟩

/-- The end of an array is no item. -/
theorem itemsTail_nil_ne (ho : Opens enc) (a : α) (rest : List α) (x y : List Char) :
    itemsTail enc [] ++ x ≠ itemsTail enc (a :: rest) ++ y := by
  intro h
  obtain ⟨r, he, -⟩ := itemsTail_cons enc a rest
  obtain ⟨c, t, hc, hne⟩ := ho a
  rw [he, hc, itemsTail] at h
  exact hne (List.cons.inj h).1.symm

/-- The rest of an array ends where it has to. -/
theorem itemsTail_inj (hu : UniquelyReadable enc) (ho : Opens enc) :
    ∀ (l m : List α) (x y : List Char), itemsTail enc l ++ x = itemsTail enc m ++ y →
      l = m ∧ x = y := by
  intro l
  induction l with
  | nil =>
    intro m x y h
    cases m with
    | nil => exact ⟨rfl, (List.cons.inj h).2⟩
    | cons b m => exact absurd h (itemsTail_nil_ne ho b m x y)
  | cons a l ih =>
    intro m x y h
    cases m with
    | nil => exact absurd h.symm (itemsTail_nil_ne ho a l y x)
    | cons b m =>
      obtain ⟨r, hr, hcase⟩ := itemsTail_cons enc a l
      obtain ⟨q, hq, hcase'⟩ := itemsTail_cons enc b m
      rw [hr, hq, List.append_assoc, List.append_assoc] at h
      obtain ⟨rfl, h'⟩ := hu a b _ _ h
      -- the character after the item says whether the list goes on
      rcases hcase with ⟨rfl, rfl⟩ | ⟨-, rfl⟩ <;> rcases hcase' with ⟨rfl, rfl⟩ | ⟨-, rfl⟩
      · exact ⟨rfl, (List.cons.inj h').2⟩
      · exact absurd (List.cons.inj h').1 (by decide)
      · exact absurd (List.cons.inj h').1 (by decide)
      · obtain ⟨rfl, rfl⟩ := ih m x y (List.cons.inj h').2
        exact ⟨rfl, rfl⟩

/-- Arrays of such values can be told apart. -/
theorem uniquelyReadable_renderList (hu : UniquelyReadable enc) (ho : Opens enc) :
    UniquelyReadable (renderList enc) := by
  intro l m x y h
  exact itemsTail_inj hu ho l m x y (List.cons.inj h).2

end Lists

/-- Two digit strings in front of non-digits agree when the wholes do. -/
theorem digits_append_inj {ds es x y : List Char} {a b : Char}
    (hds : ∀ c ∈ ds, c.isDigit = true) (hes : ∀ c ∈ es, c.isDigit = true)
    (ha : a.isDigit = false) (hb : b.isDigit = false)
    (h : ds ++ a :: x = es ++ b :: y) : ds = es ∧ x = y := by
  induction ds generalizing es with
  | nil =>
    cases es with
    | nil => exact ⟨rfl, (List.cons.inj h).2⟩
    | cons e es =>
      have := hes e (List.mem_cons_self ..)
      rw [← (List.cons.inj h).1, ha] at this
      cases this
  | cons d ds ih =>
    cases es with
    | nil =>
      have := hds d (List.mem_cons_self ..)
      rw [(List.cons.inj h).1, hb] at this
      cases this
    | cons e es =>
      obtain ⟨rfl, h'⟩ := List.cons.inj h
      obtain ⟨rfl, rfl⟩ := ih (fun c hc => hds c (List.mem_cons_of_mem _ hc))
        (fun c hc => hes c (List.mem_cons_of_mem _ hc)) h'
      exact ⟨rfl, rfl⟩

/-- A decimal number followed by a comma is determined. -/
theorem toDigits_comma_inj {n m : Nat} {x y : List Char}
    (h : Nat.toDigits 10 n ++ ',' :: x = Nat.toDigits 10 m ++ ',' :: y) : n = m ∧ x = y := by
  have hdig : ∀ k, ∀ c ∈ Nat.toDigits 10 k, c.isDigit = true := fun k c hc =>
    Nat.isDigit_of_mem_toDigits (by decide) (by decide) hc
  obtain ⟨hd, hxy⟩ := digits_append_inj (hdig n) (hdig m) (by decide) (by decide) h
  refine ⟨?_, hxy⟩
  rw [← Nat.ofDigitChars_ten_toDigits (n := n), hd, Nat.ofDigitChars_ten_toDigits]

end Json
