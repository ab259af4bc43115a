import Mathlib

/-!
# The tokens of a statement

A text is cut into words, the longest runs of letters, digits and underscores, and single other
characters. Blanks only separate, and so do the quotes around names (a name in quotes is taken for
the same name without, so no quoted name is a keyword). Where two texts meet and one of them has no
word character there, the tokens of both together are those of the two (`tokens_append_of_closes`,
`tokens_append_of_opens`).

`WellFormed` is what a statement has to get right before a server looks at any row: parentheses,
lists, the conditions after `WHERE`, and names without a table.
-/

namespace SqlText

/-- A token of a statement. -/
inductive Token where
  /-- in capitals -/
  | keyword (w : String)
  | name (w : String)
  | number (w : String)
  | symbol (c : Char)
  deriving DecidableEq

/-- The character is part of a word or number. -/
def isWordChar (c : Char) : Bool := c.isAlphanum || c == '_'

/-- The words that are no names. -/
def keywords : List String :=
  ["SELECT", "FROM", "JOIN", "ON", "WHERE", "AND", "OR", "IN", "IS", "NULL", "ORDER", "BY", "ASC",
    "DESC", "LIMIT"]

/-- The token of a run of characters. -/
def classify : List Char → Option Token
  | [] => none
  | c :: cs =>
    if isWordChar c then
      let capitals := String.ofList ((c :: cs).map Char.toUpper)
      if c.isDigit then some (.number (String.ofList (c :: cs)))
      else if keywords.contains capitals then some (.keyword capitals)
      else some (.name (String.ofList (c :: cs)))
    else if c == ' ' || c == '"' then none
    else some (.symbol c)

/-- The two characters belong to one word if they are neighbours. -/
def glued (a b : Char) : Bool := isWordChar a && isWordChar b

/-- The tokens of a text, without the blanks. -/
def tokens (s : String) : List Token := (s.toList.splitBy glued).filterMap classify

/-! ## Where texts meet -/

/-- The first character is there and is none of a word. -/
def opens (s : String) : Bool := s.toList.head?.any fun c => !isWordChar c

/-- The last one is. -/
def closes (s : String) : Bool := s.toList.getLast?.any fun c => !isWordChar c

variable {s t : String}

/-- Texts that do not run into one another are read one by one. -/
theorem tokens_append (h : ∀ a ∈ s.toList.getLast?, ∀ b ∈ t.toList.head?, glued a b = false) :
    tokens (s ++ t) = tokens s ++ tokens t := by
  rw [tokens, String.toList_append, List.splitBy_append h, List.filterMap_append]
  rfl

/-- A text that ends its last token stands for itself. -/
theorem tokens_append_of_closes (h : closes s = true) :
    tokens (s ++ t) = tokens s ++ tokens t := by
  refine tokens_append fun a ha b _ => ?_
  rw [closes, Option.mem_def.mp ha, Option.any_some, Bool.not_eq_true'] at h
  rw [glued, h, Bool.false_and]

/-- A text that starts a token of its own stands for itself. -/
theorem tokens_append_of_opens (h : opens t = true) :
    tokens (s ++ t) = tokens s ++ tokens t := by
  refine tokens_append fun a _ b hb => ?_
  rw [opens, Option.mem_def.mp hb, Option.any_some, Bool.not_eq_true'] at h
  rw [glued, h, Bool.and_false]

theorem opens_append (h : opens s = true) : opens (s ++ t) = true := by
  rw [opens, String.toList_append, List.head?_append]
  rcases hs : s.toList.head? with _ | c
  · rw [opens, hs] at h
    cases h
  · rwa [opens, hs] at h

theorem closes_append (h : closes t = true) : closes (s ++ t) = true := by
  rw [closes, String.toList_append, List.getLast?_append]
  rcases ht : t.toList.getLast? with _ | c
  · rw [closes, ht] at h
    cases h
  · rwa [closes, ht] at h

/-- A text that is one word has one token. -/
theorem tokens_word (hne : s.toList ≠ []) (h : ∀ c ∈ s.toList, isWordChar c = true) :
    tokens s = (classify s.toList).toList := by
  have hsplit : s.toList.splitBy glued = [s.toList] := by
    rw [List.splitBy_eq_iff]
    refine ⟨by simp, by simpa using hne.symm, fun m hm => ?_, List.isChain_singleton _⟩
    rw [List.mem_singleton.mp hm]
    refine (List.pairwise_of_forall_mem_list fun a ha b hb => ?_).isChain
    rw [glued, h a ha, h b hb]
    rfl
  rw [tokens, hsplit]
  rcases hc : classify s.toList with _ | t
  · rw [List.filterMap_cons_none hc]
    rfl
  · rw [List.filterMap_cons_some hc]
    rfl

theorem isWordChar_of_isDigit {c : Char} (h : c.isDigit = true) : isWordChar c = true := by
  rw [isWordChar, Char.isAlphanum, h, Bool.or_true, Bool.true_or]

theorem isDigit_of_mem_toString {n : Nat} {c : Char} (h : c ∈ (toString n).toList) :
    c.isDigit = true := by
  rw [Nat.toString_eq_repr, Nat.toList_repr] at h
  exact Nat.isDigit_of_mem_toDigits (by decide) (by decide) h

theorem toString_ne_nil (n : Nat) : (toString n).toList ≠ [] := by
  rw [Nat.toString_eq_repr, Nat.toList_repr]
  exact Nat.toDigits_ne_nil

@[simp] theorem tokens_toString (n : Nat) : tokens (toString n) = [.number (toString n)] := by
  rw [tokens_word (toString_ne_nil n)
    (fun c hc => isWordChar_of_isDigit (isDigit_of_mem_toString hc))]
  obtain ⟨c, cs, hcs⟩ := List.exists_cons_of_ne_nil (toString_ne_nil n)
  have hdigit : c.isDigit = true :=
    isDigit_of_mem_toString (hcs ▸ List.mem_cons_self : c ∈ (toString n).toList)
  rw [hcs, classify, if_pos (isWordChar_of_isDigit hdigit)]
  simp only [hdigit, if_true, ← hcs, String.ofList_toList, Option.toList_some]

theorem toUpper_of_isDigit {c : Char} (h : c.isDigit = true) : c.toUpper = c := by
  rw [Char.toUpper, dif_neg]
  intro hlower
  simp only [Char.isDigit, Bool.and_eq_true, decide_eq_true_eq, UInt32.le_iff_toNat_le] at h
  have h1 := UInt32.le_iff_toNat_le.mp hlower.1
  have h2 := h.2
  simp at h1 h2
  omega

/-- A letter and a number make a name, as no keyword has a digit. -/
theorem tokens_letter_toString {l : Char} (hl : l.isAlpha = true) (n : Nat) :
    tokens (String.singleton l ++ toString n) = [.name (String.singleton l ++ toString n)] := by
  have hlist : (String.singleton l ++ toString n).toList = l :: (toString n).toList := by
    rw [String.toList_append, String.toList_singleton, List.singleton_append]
  have hword : isWordChar l = true := by rw [isWordChar, Char.isAlphanum, hl]; rfl
  have hnot : l.isDigit = false := by
    simp only [Char.isAlpha, Char.isUpper, Char.isLower, Char.isDigit, Bool.or_eq_true,
      Bool.and_eq_true, decide_eq_true_eq, Bool.and_eq_false_iff, decide_eq_false_iff_not,
      UInt32.le_iff_toNat_le] at hl ⊢
    simp at hl ⊢
    omega
  have hkeyword : keywords.contains
      (String.ofList ((l :: (toString n).toList).map Char.toUpper)) = false := by
    rw [List.contains_eq_mem, decide_eq_false_iff_not]
    intro hmem
    have hletters : (keywords.all fun w => w.toList.all fun c => !c.isDigit) = true := by decide
    obtain ⟨c, cs, hcs⟩ := List.exists_cons_of_ne_nil (toString_ne_nil n)
    have hdigit : c.isDigit = true :=
      isDigit_of_mem_toString (hcs ▸ List.mem_cons_self : c ∈ (toString n).toList)
    have hin : c ∈ (String.ofList ((l :: (toString n).toList).map Char.toUpper)).toList := by
      rw [String.toList_ofList, hcs]
      simp [toUpper_of_isDigit hdigit]
    have hno := List.all_eq_true.mp (List.all_eq_true.mp hletters _ hmem) c hin
    rw [hdigit] at hno
    cases hno
  rw [tokens_word, hlist, classify, if_pos hword]
  · simp only [hnot, hkeyword, Bool.false_eq_true, if_false, Option.toList_some]
    rw [← hlist, String.ofList_toList]
  · rw [hlist]
    exact List.cons_ne_nil _ _
  · rw [hlist]
    intro c hc
    rcases List.mem_cons.mp hc with rfl | hc
    · exact hword
    · exact isWordChar_of_isDigit (isDigit_of_mem_toString hc)

/-! ## Scans

A statement is read once from left to right. Each scan has a small state, so the scan of a text is
composed from those of its parts. -/

/-- How many parentheses are open at the end, starting with `n` open ones. -/
def depthAfter : Nat → List Token → Option Nat
  | n, [] => some n
  | n, t :: ts =>
    if t = .symbol '(' then depthAfter (n + 1) ts
    else if t = .symbol ')' then
      match n with
      | 0 => none
      | n + 1 => depthAfter n ts
    else depthAfter n ts

/-- `IN ()` occurs. -/
def emptyIn : List Token → Bool
  | [] => false
  | t :: ts => (t == .keyword "IN" && ts.take 2 == [.symbol '(', .symbol ')']) || emptyIn ts

/-- The name a list of tokens starts with. -/
def firstName : List Token → List String
  | .name n :: _ => [n]
  | _ => []

/-- The tables of `FROM` and `JOIN`, in order. -/
def tables : List Token → List String
  | [] => []
  | t :: ts =>
    (if t == .keyword "FROM" || t == .keyword "JOIN" then firstName ts else []) ++ tables ts

/-- After such a token a name is no column on its own: it is a table or its alias, or it is
qualified. -/
def takesName : Token → Bool
  | .keyword w => w == "FROM" || w == "JOIN"
  | .name _ => true
  | .symbol c => c == '.'
  | .number _ => false

/-- Before such a token a name is no column: it qualifies one, or it is a function or type. -/
def followsName : Token → Bool
  | .symbol c => c == '.' || c == '('
  | _ => false

/-- The columns without a table, after the token `prev`. -/
def bareColumns (prev : Option Token) : List Token → List String
  | [] => []
  | t :: ts =>
    match t with
    | .name c =>
      if prev.any takesName || ts.head?.any followsName then bareColumns (some t) ts
      else c :: bareColumns (some t) ts
    | _ => bareColumns (some t) ts

/-! ## Well-formed statements

The grammar is given for the statements of one select: parts before the condition, a condition,
and what comes after it. -/

/-- A list of numbered parameters. -/
inductive Params : List Token → Prop
  | one (n : String) : Params [.symbol '$', .number n]
  | cons (n : String) {ts : List Token} :
    Params ts → Params (.symbol '$' :: .number n :: .symbol ',' :: ts)

/-- A column, with its table or without. The second has to be found in the tables. -/
inductive Column : List String → List Token → Prop
  | qualified (t c : String) : Column [] [.name t, .symbol '.', .name c]
  | bare (c : String) : Column [c] [.name c]

/-- The comparisons. -/
inductive Operator : List Token → Prop
  | eq : Operator [.symbol '=']
  | ne : Operator [.symbol '!', .symbol '=']
  | ge : Operator [.symbol '>', .symbol '=']
  | le : Operator [.symbol '<', .symbol '=']
  | gt : Operator [.symbol '>']

/-- What a column is compared with: a column of a table, a parameter, `n::type(m)` or `f()`. -/
inductive Operand : List Token → Prop
  | column (t c : String) : Operand [.name t, .symbol '.', .name c]
  | param (n : String) : Operand [.symbol '$', .number n]
  | cast (n ty m : String) :
    Operand [.number n, .symbol ':', .symbol ':', .name ty, .symbol '(', .number m, .symbol ')']
  | call (f : String) : Operand [.name f, .symbol '(', .symbol ')']

/-- One test, some with `OR` between neighbours, or some with `AND`. -/
inductive Shape where
  | test
  | choice
  | conjunction

/-- Conditions, with the columns that have no table. A choice is in parentheses. -/
inductive Condition : Shape → List String → List Token → Prop
  | among {cols : List String} {c ps : List Token} : Column cols c → Params ps →
    Condition .test cols (c ++ .keyword "IN" :: .symbol '(' :: (ps ++ [.symbol ')']))
  | compare {cols : List String} {c o x : List Token} : Column cols c → Operator o → Operand x →
    Condition .test cols (c ++ (o ++ x))
  | isNull {cols : List String} {c : List Token} : Column cols c →
    Condition .test cols (c ++ [.keyword "IS", .keyword "NULL"])
  | group {cols : List String} {ts : List Token} : Condition .choice cols ts →
    Condition .test cols (.symbol '(' :: (ts ++ [.symbol ')']))
  | choice {cols : List String} {ts : List Token} : Condition .test cols ts →
    Condition .choice cols ts
  | or {cols cols' : List String} {ts ts' : List Token} : Condition .test cols ts →
    Condition .choice cols' ts' → Condition .choice (cols ++ cols') (ts ++ .keyword "OR" :: ts')
  | conjunction {cols : List String} {ts : List Token} : Condition .test cols ts →
    Condition .conjunction cols ts
  | and {cols cols' : List String} {ts ts' : List Token} : Condition .test cols ts →
    Condition .conjunction cols' ts' →
    Condition .conjunction (cols ++ cols') (ts ++ .keyword "AND" :: ts')

/-- A statement the server can make sense of, where `columns` has those of each table. -/
structure WellFormed (columns : String → List String) (sql : String) : Prop where
  balanced : depthAfter 0 (tokens sql) = some 0
  lists : emptyIn (tokens sql) = false
  /-- between `WHERE` and `ORDER` there are tests with `AND` between neighbours -/
  conditions : ∃ start cols conds rest,
    tokens sql = start ++ .keyword "WHERE" :: (conds ++ .keyword "ORDER" :: rest) ∧
    .keyword "WHERE" ∉ start ∧ Condition .conjunction cols conds
  /-- a column without a table is one of exactly one table -/
  columns : ∀ c ∈ bareColumns none (tokens sql),
    ((tables (tokens sql)).filter fun t => (columns t).contains c).length = 1

/-! ## Scans of a statement in parts -/

section Scans

variable {a b : List Token} {w : String}

@[simp] theorem emptyIn_name (n : String) : emptyIn (.name n :: a) = emptyIn a := rfl

@[simp] theorem emptyIn_number (n : String) : emptyIn (.number n :: a) = emptyIn a := rfl

@[simp] theorem emptyIn_symbol (c : Char) : emptyIn (.symbol c :: a) = emptyIn a := rfl

@[simp] theorem tables_name (n : String) : tables (.name n :: a) = tables a := rfl

@[simp] theorem tables_number (n : String) : tables (.number n :: a) = tables a := rfl

@[simp] theorem tables_symbol (c : Char) : tables (.symbol c :: a) = tables a := rfl

/-- The depth of parentheses, piece by piece. -/
theorem depthAfter_append (n : Nat) :
    depthAfter n (a ++ b) = (depthAfter n a).bind fun m => depthAfter m b := by
  induction a generalizing n with
  | nil => rfl
  | cons t ts ih =>
    simp only [List.cons_append, depthAfter]
    split_ifs
    · exact ih _
    · cases n with
      | zero => rfl
      | succ n => exact ih _
    · exact ih _

/-- An empty list lies on one side of a keyword. -/
theorem emptyIn_append_keyword :
    emptyIn (a ++ .keyword w :: b) = (emptyIn a || emptyIn (.keyword w :: b)) := by
  induction a with
  | nil => rfl
  | cons t ts ih =>
    -- the two tokens after this one are the same, or a keyword is among them
    have htake : ((ts ++ .keyword w :: b).take 2 == [.symbol '(', .symbol ')']) =
        (ts.take 2 == [.symbol '(', .symbol ')']) := by
      match ts with
      | [] => cases b <;> rfl
      | [x] => simp
      | x :: y :: rest => rfl
    simp only [List.cons_append, emptyIn, htake, ih, Bool.or_assoc]

theorem emptyIn_of_empty : emptyIn (a ++ .keyword "IN" :: .symbol '(' :: .symbol ')' :: b) = true := by
  rw [emptyIn_append_keyword, emptyIn]
  simp

/-- The tables on both sides of a keyword. -/
theorem tables_append_keyword :
    tables (a ++ .keyword w :: b) = tables a ++ tables (.keyword w :: b) := by
  induction a with
  | nil => rfl
  | cons t ts ih =>
    have hfirst : firstName (ts ++ .keyword w :: b) = firstName ts := by
      cases ts with
      | nil => rfl
      | cons x rest => cases x <;> rfl
    simp only [List.cons_append, tables, hfirst, ih, List.append_assoc]

/-- The columns on both sides of a keyword. -/
theorem bareColumns_append_keyword (prev : Option Token) :
    bareColumns prev (a ++ .keyword w :: b) =
      bareColumns prev a ++ bareColumns (some (.keyword w)) b := by
  induction a generalizing prev with
  | nil => rfl
  | cons t ts ih =>
    have hhead : (ts ++ .keyword w :: b).head?.any followsName = ts.head?.any followsName := by
      cases ts <;> rfl
    cases t with
    | name c =>
      rw [List.cons_append, bareColumns, hhead, bareColumns, ih]
      split_ifs <;> rfl
    | _ => exact ih _

/-- A name is a bare column unless something before or after it says otherwise. -/
theorem bareColumns_name (prev : Option Token) (c : String) :
    bareColumns prev (.name c :: a) =
      if prev.any takesName || a.head?.any followsName then bareColumns (some (.name c)) a
      else c :: bareColumns (some (.name c)) a := rfl

@[simp] theorem bareColumns_symbol (prev : Option Token) (c : Char) :
    bareColumns prev (.symbol c :: a) = bareColumns (some (.symbol c)) a := rfl

@[simp] theorem bareColumns_keyword (prev : Option Token) :
    bareColumns prev (.keyword w :: a) = bareColumns (some (.keyword w)) a := rfl

@[simp] theorem bareColumns_number (prev : Option Token) (n : String) :
    bareColumns prev (.number n :: a) = bareColumns (some (.number n)) a := rfl

end Scans

/-! ### Conditions -/

/-- What may come after a condition. -/
def endsCondition : Token → Bool
  | .keyword _ => true
  | .symbol c => c == ')'
  | _ => false

/-- After a condition the token before does not count. -/
theorem bareColumns_of_ends {rest : List Token} (h : rest.head?.all endsCondition = true)
    (prev : Option Token) : bareColumns prev rest = bareColumns none rest := by
  cases rest with
  | nil => rfl
  | cons t ts =>
    cases t with
    | name c => cases h
    | _ => rfl

/-- What the scans see of a list of tokens, whatever condition or part comes after it. -/
structure Passes (cols : List String) (ts : List Token) : Prop where
  depth : ∀ n rest, depthAfter n (ts ++ rest) = depthAfter n rest
  lists : ∀ rest, emptyIn (ts ++ rest) = emptyIn rest
  tables : ∀ rest, tables (ts ++ rest) = tables rest
  columns : ∀ prev : Option Token, prev.any takesName = false → ∀ rest : List Token,
    rest.head?.all endsCondition = true →
      bareColumns prev (ts ++ rest) = cols ++ bareColumns none rest
  noWhere : .keyword "WHERE" ∉ ts

variable {cols cols' : List String} {ts ts' : List Token}

/-- The scans go on after a keyword between conditions. -/
theorem Passes.keyword {w : String} (h : Passes cols ts) (h' : Passes cols' ts')
    (hw : w = "OR" ∨ w = "AND") : Passes (cols ++ cols') (ts ++ .keyword w :: ts') where
  depth n rest := by
    rw [List.append_assoc, h.depth, List.cons_append]
    exact h'.depth n rest
  lists rest := by
    rw [List.append_assoc, h.lists, List.cons_append, emptyIn, h'.lists]
    rcases hw with rfl | rfl <;> rfl
  tables rest := by
    rw [List.append_assoc, h.tables, List.cons_append, SqlText.tables, h'.tables]
    rcases hw with rfl | rfl <;> rfl
  columns prev hprev rest hrest := by
    rw [List.append_assoc, h.columns prev hprev _ rfl, List.cons_append, List.append_assoc]
    refine congrArg (cols ++ ·) (h'.columns _ ?_ rest hrest)
    rcases hw with rfl | rfl <;> rfl
  noWhere := by
    have := h.noWhere
    have := h'.noWhere
    rcases hw with rfl | rfl <;> simp_all

theorem Params.passes (h : Params ts) : Passes [] ts := by
  induction h with
  | one n =>
    refine ⟨fun m rest => by simp [depthAfter], fun rest => by simp,
      fun rest => by simp, fun prev _ rest hrest => ?_, by simp⟩
    exact bareColumns_of_ends hrest _
  | cons n h ih =>
    refine ⟨fun m rest => ?_, fun rest => ?_, fun rest => ?_, fun prev _ rest hrest => ?_, ?_⟩
    · simp [depthAfter, ih.depth]
    · simp [ih.lists]
    · simp [ih.tables]
    · exact ih.columns (some (.symbol ',')) rfl rest hrest
    · simp [ih.noWhere]

theorem Params.head (h : Params ts) : ∃ tail, ts = .symbol '$' :: tail := by
  cases h with
  | one n => exact ⟨_, rfl⟩
  | cons n h => exact ⟨_, rfl⟩

/-- An operator starts with a symbol that belongs to no name. -/
theorem Operator.head (h : Operator ts) :
    ∃ s tail, ts = .symbol s :: tail ∧ s ≠ '.' ∧ s ≠ '(' := by
  cases h <;> exact ⟨_, _, rfl, by decide, by decide⟩

/-- An operator and its operand. -/
theorem Operand.passes {o x : List Token} (ho : Operator o) (hx : Operand x) :
    Passes [] (o ++ x) := by
  refine ⟨fun m rest => ?_, fun rest => ?_, fun rest => ?_, fun prev _ rest hrest => ?_, ?_⟩
  · cases ho <;> cases hx <;> simp [depthAfter]
  · cases ho <;> cases hx <;> simp
  · cases ho <;> cases hx <;> simp
  · have hends := bareColumns_of_ends hrest
    cases ho <;> cases hx <;> simp [bareColumns, takesName, followsName] <;> exact hends _
  · cases ho <;> cases hx <;> simp

/-- A column, and what is said of it. -/
theorem Column.passes {c : List Token} (hc : Column cols c) {t : Token}
    (ht : (∃ w, t = .keyword w) ∨ ∃ s, t = .symbol s ∧ s ≠ '.' ∧ s ≠ '(')
    (h : Passes [] (t :: ts)) : Passes cols (c ++ t :: ts) := by
  have hname : followsName t = false := by
    rcases ht with ⟨w, rfl⟩ | ⟨s, rfl, h1, h2⟩
    · rfl
    · simp [followsName, h1, h2]
  have hreset : ∀ p rest, bareColumns p (t :: (ts ++ rest)) =
      bareColumns none (t :: (ts ++ rest)) := by
    intro p rest
    rcases ht with ⟨w, rfl⟩ | ⟨s, rfl, -⟩ <;> rfl
  refine ⟨fun m rest => ?_, fun rest => ?_, fun rest => ?_, fun prev hprev rest hrest => ?_, ?_⟩
  · rw [List.append_assoc, ← h.depth m rest]
    cases hc <;> simp [depthAfter]
  · rw [List.append_assoc, ← h.lists rest]
    cases hc <;> simp
  · rw [List.append_assoc, ← h.tables rest]
    cases hc <;> simp
  · have htail := h.columns none rfl rest hrest
    rw [List.nil_append, List.cons_append] at htail
    rw [List.append_assoc, ← htail, List.cons_append]
    cases hc with
    | qualified t c => simp [bareColumns_name, takesName, followsName, hprev, hreset]
    | bare c => simp [bareColumns_name, hprev, hname, hreset]
  · have := h.noWhere
    cases hc <;> simpa using this

/-- **A condition is transparent to the scans**, but for its columns without a table. -/
theorem passes_of_condition {sh : Shape} (h : Condition sh cols ts) : Passes cols ts := by
  induction h with
  | among hc hps =>
    refine hc.passes (.inl ⟨_, rfl⟩) ?_
    have hp := hps.passes
    refine ⟨fun m rest => ?_, fun rest => ?_, fun rest => ?_, fun prev _ rest hrest => ?_, ?_⟩
    · simp [depthAfter, hp.depth]
    · obtain ⟨tail, rfl⟩ := hps.head
      have := hp.lists (.symbol ')' :: rest)
      simp only [List.cons_append, emptyIn_symbol] at this
      simp only [List.cons_append, List.append_assoc, List.nil_append]
      exact this
    · simp [SqlText.tables, hp.tables]
    · have hparams := hp.columns (some (.symbol '(')) rfl (.symbol ')' :: rest) rfl
      have hends := bareColumns_of_ends hrest (some (.symbol ')'))
      simp only [List.nil_append, bareColumns_symbol] at hparams
      simp [hparams, hends]
    · simp [hp.noWhere]
  | compare hc ho hx =>
    have hp := Operand.passes ho hx
    obtain ⟨s, tail, rfl, h1, h2⟩ := ho.head
    exact hc.passes (.inr ⟨s, rfl, h1, h2⟩) hp
  | isNull hc =>
    refine hc.passes (.inl ⟨_, rfl⟩) ⟨fun m rest => ?_, fun rest => rfl, fun rest => rfl,
      fun prev _ rest hrest => ?_, by simp⟩
    · simp [depthAfter]
    · exact bareColumns_of_ends hrest _
  | group h ih =>
    refine ⟨fun m rest => ?_, fun rest => ?_, fun rest => ?_, fun prev _ rest hrest => ?_, ?_⟩
    · simp [depthAfter, ih.depth]
    · simp [ih.lists]
    · simp [ih.tables]
    · have hinner := ih.columns (some (.symbol '(')) rfl (.symbol ')' :: rest) rfl
      have hends := bareColumns_of_ends hrest (some (.symbol ')'))
      simp only [bareColumns_symbol] at hinner
      simp [hinner, hends]
    · simp [ih.noWhere]
  | choice h ih => exact ih
  | or h h' ih ih' => exact ih.keyword ih' (.inl rfl)
  | conjunction h ih => exact ih
  | and h h' ih ih' => exact ih.keyword ih' (.inr rfl)

/-! ### Statements -/

/-- A part of a statement in front of `WHERE`: it starts with a keyword, names these tables and no
column without a table. -/
structure Part (tabs : List String) (ts : List Token) : Prop where
  starts : ∃ w rest, ts = .keyword w :: rest
  depth : ∀ n, depthAfter n ts = some n
  lists : emptyIn ts = false
  tables : tables ts = tabs
  columns : ∀ prev, bareColumns prev ts = []
  noWhere : .keyword "WHERE" ∉ ts

/-- Parts of a statement, one after the other. -/
theorem Part.append {tabs tabs' : List String} (h : Part tabs ts) (h' : Part tabs' ts') :
    Part (tabs ++ tabs') (ts ++ ts') := by
  obtain ⟨v, r, rfl⟩ := h.starts
  obtain ⟨w, rest, rfl⟩ := h'.starts
  refine ⟨⟨v, _, rfl⟩, fun n => ?_, ?_, ?_, fun prev => ?_, ?_⟩
  · rw [depthAfter_append, h.depth, Option.bind_some, h'.depth]
  · rw [emptyIn_append_keyword, h.lists, h'.lists]
    rfl
  · rw [tables_append_keyword, h.tables, h'.tables]
  · rw [bareColumns_append_keyword, h.columns, ← bareColumns_keyword none, h'.columns]
    rfl
  · rw [List.mem_append, not_or]
    exact ⟨h.noWhere, h'.noWhere⟩

/-- `JOIN table alias ON …`. -/
theorem Part.join {table t : String} (h : Condition .conjunction [] ts) :
    Part [table] (.keyword "JOIN" :: .name table :: .name t :: .keyword "ON" :: ts) := by
  have hp := passes_of_condition h
  have hdepth := fun n => hp.depth n []
  have hlists := hp.lists []
  have htables := hp.tables []
  have hcolumns := hp.columns (some (.keyword "ON")) rfl [] rfl
  rw [List.append_nil] at hlists htables hcolumns
  simp only [List.append_nil] at hdepth
  refine ⟨⟨_, _, rfl⟩, fun n => ?_, ?_, ?_, fun prev => ?_, ?_⟩
  · simp [depthAfter, hdepth]
  · simp [emptyIn, hlists]
  · simp [SqlText.tables, firstName, htables]
  · simp [takesName, hcolumns, bareColumns]
  · simp [hp.noWhere]

/-- **When a statement is well formed**: its parts and conditions are, so what is left to ask are
the columns without a table. -/
theorem wellFormed_iff {columns : String → List String} {sql : String} {tabs : List String}
    {start conds order : List Token}
    (hsql : tokens sql = start ++ .keyword "WHERE" :: (conds ++ .keyword "ORDER" :: order))
    (hstart : Part tabs start) (hconds : Condition .conjunction cols conds)
    (horder : Part [] (.keyword "ORDER" :: order)) :
    WellFormed columns sql ↔
      ∀ c ∈ cols, (tabs.filter fun t => (columns t).contains c).length = 1 := by
  have hp := passes_of_condition hconds
  have hdepth : depthAfter 0 (tokens sql) = some 0 := by
    rw [hsql, depthAfter_append, hstart.depth, Option.bind_some]
    simp only [depthAfter, reduceCtorEq, if_false, hp.depth]
    exact horder.depth 0
  have hlists : emptyIn (tokens sql) = false := by
    rw [hsql, emptyIn_append_keyword, hstart.lists, Bool.false_or, emptyIn, hp.lists, horder.lists]
    rfl
  have htables : tables (tokens sql) = tabs := by
    rw [hsql, tables_append_keyword, hstart.tables, SqlText.tables, hp.tables, horder.tables]
    simp
  have hcols : bareColumns none (tokens sql) = cols := by
    rw [hsql, bareColumns_append_keyword, hstart.columns, hp.columns _ rfl _ rfl, horder.columns]
    simp
  refine ⟨fun h => ?_, fun h => ?_⟩
  · have := h.columns
    rwa [hcols, htables] at this
  · refine ⟨hdepth, hlists, ⟨start, cols, conds, order, hsql, hstart.noWhere, hconds⟩, ?_⟩
    rwa [hcols, htables]

end SqlText
