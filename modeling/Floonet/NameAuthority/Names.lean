import Floonet.Utils

/-!
# Name and pubkey rules

Validity, the reserved list, and look-alike folding that stops digit and
separator homographs of reserved terms (`names.rs`).
-/

namespace Floonet.NameAuthority

/-- Built-in reserved names. -/
def RESERVED : List String :=
  ["admin", "administrator", "root", "support", "help", "info", "mail", "email", "www", "relay",
    "nostr", "pay", "payment", "payments", "wallet", "official", "security", "abuse",
    "postmaster", "hostmaster", "webmaster", "contact", "team", "staff", "mod", "moderator",
    "moderators", "system", "bot", "api", "app", "dev", "developer", "test", "testing",
    "anonymous", "anon", "null", "void", "owner", "ceo", "register", "registration", "account",
    "accounts", "verify", "verified", "billing", "donate", "treasury", "faucet", "exchange",
    "swap", "bank", "money", "cash", "fees", "fee", "node", "miner", "mining", "explorer",
    "status", "blog", "news", "docs", "wiki", "store", "shop"]

/-- `char::to_lowercase`. Besides `A-Z` only two characters have an ASCII letter in
their lower case: the Kelvin sign and the dotted capital I. Every other character
that changes turns into non-ASCII text, which no rule below accepts either way, and
is left as it is. -/
def lowerChar (c : Char) : List Char :=
  if c.toNat = 0x212A then ['k']
  else if c.toNat = 0x130 then ['i', Char.ofNat 0x307]
  else [c.toLower]

/-- `str::to_lowercase`, see `lowerChar`. -/
def strToLowercase (s : String) : String := String.ofList (s.toList.flatMap lowerChar)

/-- `is_ascii_lowercase() || is_ascii_digit()` -/
def isAlnum (c : Char) : Bool := (97 ≤ c.toNat && c.toNat ≤ 122) || Hex.isDecimal c

/-- The characters of a name. -/
def okChar (c : Char) : Bool := isAlnum c || c == '.' || c == '_' || c == '-'

/-- True when `name` satisfies the length bounds and character rules: ASCII lowercase
alphanumerics plus `. _ -`, starting and ending alphanumeric. On the empty string
the source indexes out of bounds; the settings ask for `name_min > 0`, so the length
check refuses it first. -/
def validName (name : String) (nameMin nameMax : Nat) : Bool :=
  let len := name.toList.length
  if !(nameMin ≤ len && len ≤ nameMax) then false
  else if !name.toList.all okChar then false
  else
    match name.toList.head?, name.toList.getLast? with
    | some first, some last => isAlnum first && isAlnum last
    | _, _ => false

/-- Fold a name to catch separator and digit look-alikes of reserved terms. -/
def foldChar : Char → Option Char
  | '.' => none
  | '_' => none
  | '-' => none
  | '0' => some 'o'
  | '1' => some 'i'
  | '3' => some 'e'
  | '4' => some 'a'
  | '5' => some 's'
  | '7' => some 't'
  | '8' => some 'b'
  | '9' => some 'g'
  | c => some c

/-- The name with every look-alike replaced by what it looks like. -/
def foldLookalike (name : String) : String := String.ofList (name.toList.filterMap foldChar)

/-- True when `name` is reserved outright or folds onto a reserved term. -/
def isReserved (name : String) (extra : List String) : Bool :=
  if RESERVED.contains name || extra.any (· == name) then true
  else
    let folded := foldLookalike name
    RESERVED.any (fun r => foldLookalike r == folded) ||
      extra.any fun r => foldLookalike r == folded

/-- Lowercase 64-char hex pubkey. -/
def validPubkeyHex (pk : String) : Bool :=
  byteLen pk == 64 && pk.toList.all fun c => Hex.isDigit c && !(65 ≤ c.toNat && c.toNat ≤ 90)

/-- The hex of 32 bytes is a valid key. -/
theorem validPubkeyHex_encode {bs : Hex.Bytes} (h : bs.length = 32) :
    validPubkeyHex (Hex.encode bs) = true := by
  have hlower := Hex.isLowerDigit_encode bs
  rw [List.all_eq_true] at hlower
  rw [validPubkeyHex, byteLen_encode, h, Bool.and_eq_true, List.all_eq_true]
  refine ⟨rfl, fun c hc => ?_⟩
  have hc := hlower c hc
  simp only [Hex.isLowerDigit, Hex.isDecimal, Hex.isLowerLetter, Bool.or_eq_true,
    Bool.and_eq_true, decide_eq_true_eq] at hc
  simp only [Hex.isDigit, Hex.isDecimal, Hex.isLowerLetter, Hex.isUpperLetter, Bool.and_eq_true,
    Bool.or_eq_true, decide_eq_true_eq, Bool.not_eq_true', Bool.and_eq_false_iff,
    decide_eq_false_iff_not]
  omega

theorem toLower_of_not_upper {c : Char} (h : ¬(65 ≤ c.toNat ∧ c.toNat ≤ 90)) : c.toLower = c := by
  have hupper : ¬(c.val ≥ 'A'.val ∧ c.val ≤ 'Z'.val) := by
    rw [ge_iff_le, UInt32.le_iff_toNat_le, UInt32.le_iff_toNat_le]
    exact h
  exact dif_neg hupper

theorem lowerChar_of_isLowerDigit {c : Char} (h : Hex.isLowerDigit c = true) :
    lowerChar c = [c] := by
  simp only [Hex.isLowerDigit, Hex.isDecimal, Hex.isLowerLetter, Bool.and_eq_true,
    Bool.or_eq_true, decide_eq_true_eq] at h
  rw [lowerChar, if_neg (by omega), if_neg (by omega), toLower_of_not_upper (by omega)]

/-- Lower-casing a character twice is lower-casing it once. -/
theorem lowerChar_idem (c : Char) : (lowerChar c).flatMap lowerChar = lowerChar c := by
  by_cases hupper : 65 ≤ c.toNat ∧ c.toNat ≤ 90
  · have hascii : ∀ n < 91, 65 ≤ n →
        (lowerChar (Char.ofNat n)).flatMap lowerChar = lowerChar (Char.ofNat n) := by decide
    rw [← Char.ofNat_toNat c]
    exact hascii c.toNat (by omega) hupper.1
  · rw [lowerChar]
    split_ifs with hkelvin hdotted
    · decide
    · decide
    · rw [List.flatMap_singleton, toLower_of_not_upper hupper, lowerChar, if_neg hkelvin,
        if_neg hdotted, toLower_of_not_upper hupper]

/-- Lower-casing a text twice is lower-casing it once. -/
theorem strToLowercase_idem (s : String) :
    strToLowercase (strToLowercase s) = strToLowercase s := by
  rw [strToLowercase, strToLowercase, String.toList_ofList, List.flatMap_assoc]
  simp only [lowerChar_idem]

/-- Lower-case hex text is not changed by lower-casing. -/
theorem strToLowercase_of_isLowerDigit {s : String}
    (h : ∀ c ∈ s.toList, Hex.isLowerDigit c = true) : strToLowercase s = s := by
  rw [strToLowercase, List.flatMap_congr fun c hc => lowerChar_of_isLowerDigit (h c hc),
    List.flatMap_singleton', String.ofList_toList]

/-- A valid key consists of lower-case digits. -/
theorem isLowerDigit_of_validPubkeyHex {pk : String} (h : validPubkeyHex pk = true) :
    ∀ c ∈ pk.toList, Hex.isLowerDigit c = true := by
  intro c hc
  rw [validPubkeyHex, Bool.and_eq_true, List.all_eq_true] at h
  have hdigit := h.2 c hc
  simp only [Hex.isDigit, Hex.isDecimal, Hex.isLowerLetter, Hex.isUpperLetter, Bool.and_eq_true,
    Bool.or_eq_true, decide_eq_true_eq, Bool.not_eq_true', Bool.and_eq_false_iff,
    decide_eq_false_iff_not] at hdigit
  simp only [Hex.isLowerDigit, Hex.isDecimal, Hex.isLowerLetter, Bool.and_eq_true,
    Bool.or_eq_true, decide_eq_true_eq]
  omega

/-- A lower-case key is not changed by lower-casing. -/
theorem strToLowercase_of_validPubkeyHex {pk : String} (h : validPubkeyHex pk = true) :
    strToLowercase pk = pk := strToLowercase_of_isLowerDigit (isLowerDigit_of_validPubkeyHex h)

/-- `Keys::from_pk_str` of the nostr library, followed by the text of the key. -/
structure Keys where
  fromPkStr : String → Option String
  /-- a key is written as 64 lower-case hex characters -/
  hex : ∀ {s k}, fromPkStr s = some k → validPubkeyHex k = true
  /-- and hex text in that form is the key it spells -/
  fromPkStr_hex : ∀ {s k}, fromPkStr s = some k → validPubkeyHex s = true → k = s
  /-- a key that was read once is read again from its text -/
  fromPkStr_idem : ∀ {s k}, fromPkStr s = some k → fromPkStr k = some k

end Floonet.NameAuthority
