import Floonet.NameAuthority.Authority
import Floonet.Lib.Letters

/-!
# Reserved names

What no name may look like: the built-in terms, the labels of the operator's domain and the
entries of the reserved file (`domain_reserved`, `Authority::new`). `fold_lookalike` decides the
likeness, so `is_reserved` refuses every name that edits of separators and exchanges of look-alike
characters turn into one of them.
-/

namespace Floonet.NameAuthority

/-- `str::to_lowercase` with the tables of Unicode. Where the result could be a name it is
`strToLowercase`. -/
structure CaseMap where
  toLowercase : String → String
  idem : ∀ s, toLowercase (toLowercase s) = toLowercase s
  ascii : ∀ s, toLowercase s = strToLowercase s ∨
    ((∃ c ∈ (toLowercase s).toList, 128 ≤ c.toNat) ∧ ∃ c ∈ (strToLowercase s).toList, 128 ≤ c.toNat)

/-- The tables as far as names need them. -/
def CaseMap.basic : CaseMap where
  toLowercase := strToLowercase
  idem := strToLowercase_idem
  ascii _ := .inl rfl

/-! ## The operator's domain and the reserved file -/

/-- `trim_end_matches` of a character. -/
def trimEndMatches (c : Char) (s : String) : String :=
  String.ofList ((s.toList.reverse.dropWhile (· == c)).reverse)

/-- The labels of a domain. -/
def domainLabels (domain : String) : List String :=
  (((trimEndMatches '.' (trim domain)).toList.splitOn '.').map String.ofList).filter (!·.isEmpty)

/-- Reserved names derived from the operator's own domain: each dot label except the final TLD;
a single-label host reserves that label. -/
def domainReserved (cm : CaseMap) (domain : String) : List String :=
  let labels := domainLabels domain
  let keep := if 1 < labels.length then labels.dropLast else labels
  keep.map cm.toLowercase

/-- `str::lines`: split at line feeds, a carriage return before one belonging to it, and no last
line that is empty. -/
def lines (text : String) : List String :=
  let pieces := text.toList.splitOn '\n'
  let pieces := if pieces.getLast? = some [] then pieces.dropLast else pieces
  pieces.map fun l => String.ofList (if l.getLast? = some '\r' then l.dropLast else l)

/-- The entries of the reserved file, its comments left out. -/
def reservedEntries (text : String) : List String :=
  ((lines text).map trim).filter fun l => !l.isEmpty && !(l.toList.head? == some '#')

/-- The operator's own domain labels, then any names from the optional reserved file. -/
def extraReserved (cm : CaseMap) (domain : String) (reservedFile : Option String) : List String :=
  domainReserved cm domain ++
    (reservedFile.map fun text => (reservedEntries text).map cm.toLowercase).getD []

/-- Build the authority from settings; the reserved file has been read. -/
def Authority.new (cm : CaseMap) (cfg : Config) (reservedFile : Option String)
    (paid : Option PaidNames) (nip98 : Nip98) (registerBody : Hex.Bytes → Option (String × String))
    (keys : Keys) : Authority where
  cfg := cfg
  extraReserved := NameAuthority.extraReserved cm cfg.domain reservedFile
  paid := paid
  nip98 := nip98
  registerBody := registerBody
  keys := keys

example : domainLabels " Names.ACME.example. " = ["Names", "ACME", "example"] := by decide

/-! ## Look-alikes

Two names look alike when separators and look-alike digits lead from one to the other. The fold
drops the former and replaces the latter, so it decides this relation. -/

/-- The separators of a name. -/
def separators : List Char := ['.', '_', '-']

/-- The digits with a look-alike letter. -/
def lookAlikes : List (Char × Char) :=
  [('0', 'o'), ('1', 'i'), ('3', 'e'), ('4', 'a'), ('5', 's'), ('7', 't'), ('8', 'b'), ('9', 'g')]

/-- Insertions and deletions of separators and exchanges between a digit and its look-alike
letter, in any number and order, turn the one into the other. -/
def LookAlike (s t : String) : Prop :=
  Letters.LookAlike (· ∈ separators) (fun d l => (d, l) ∈ lookAlikes) s.toList t.toList

/-- The fold drops the separators and replaces the look-alikes. -/
theorem folds_foldChar :
    Letters.Folds foldChar (· ∈ separators) (fun d l => (d, l) ∈ lookAlikes) where
  none_iff := by
    intro c
    unfold foldChar
    split <;> simp_all [separators]
  of_standsFor := by
    intro d l h
    simp only [lookAlikes, List.mem_cons, Prod.mk.injEq, List.not_mem_nil, or_false] at h
    rcases h with ⟨rfl, rfl⟩ | ⟨rfl, rfl⟩ | ⟨rfl, rfl⟩ | ⟨rfl, rfl⟩ | ⟨rfl, rfl⟩ | ⟨rfl, rfl⟩ |
      ⟨rfl, rfl⟩ | ⟨rfl, rfl⟩ <;> exact ⟨rfl, rfl⟩
  of_some := by
    intro c d h
    unfold foldChar at h
    split at h <;> cases h <;> simp [lookAlikes]

/-- The fold decides the likeness. -/
theorem lookAlike_iff {s t : String} : LookAlike s t ↔ foldLookalike s = foldLookalike t := by
  rw [LookAlike, Letters.lookAlike_iff_filterMap_eq folds_foldChar, foldLookalike, foldLookalike,
    String.ofList_inj]

/-- The terms a name may not look like. -/
inductive Term (cm : CaseMap) (domain : String) (reservedFile : Option String) : String → Prop where
  | builtIn {r : String} : r ∈ RESERVED → Term cm domain reservedFile r
  | label {l : String} : l ∈ (domainLabels domain).dropLast →
    Term cm domain reservedFile (cm.toLowercase l)
  | entry {text e : String} : reservedFile = some text → e ∈ reservedEntries text →
    Term cm domain reservedFile (cm.toLowercase e)

/-- A name that is not reserved looks like none of them. -/
theorem not_lookAlike_of_not_reserved {cm : CaseMap} {domain : String} {file : Option String}
    {name r : String} (h : isReserved name (extraReserved cm domain file) = false)
    (hr : Term cm domain file r) : ¬ LookAlike name r := by
  rw [lookAlike_iff]
  intro hfold
  rw [isReserved] at h
  split_ifs at h
  rw [Bool.or_eq_false_iff, List.any_eq_false, List.any_eq_false] at h
  obtain ⟨hbuiltIn, hextra⟩ := h
  have hmem : ∀ x ∈ extraReserved cm domain file, x ≠ r := by
    rintro x hx rfl
    exact hextra x hx (by rw [beq_iff_eq, hfold])
  cases hr with
  | builtIn hr => exact hbuiltIn r hr (by rw [beq_iff_eq, hfold])
  | label hl =>
    refine hmem _ (List.mem_append_left _ (List.mem_map_of_mem ?_)) rfl
    split_ifs
    · exact hl
    · exact List.mem_of_mem_dropLast hl
  | entry hfile he =>
    refine hmem _ (List.mem_append_right _ ?_) rfl
    rw [hfile]
    exact List.mem_map_of_mem he

end Floonet.NameAuthority
