import Mathlib.Data.List.TakeWhile
import Floonet.Lib.Separated
import Floonet.Delegation

/-!
# What the condition parser reads

The grammar of a condition string (`Written`, `WrittenQuery`) and what the parser
makes of one. The regular expression is not anchored, so a piece between two `&`
is read as the first condition found in it and the text around that condition is
passed over (`strToCondition_eq_some`). The parser accepts exactly the grammar on
the strings that hold no such text (`exact_iff`); where they do, a restriction may
be lost.
-/

namespace Floonet

namespace Delegation

/-! ## The grammar

The conditions are described as texts, independently of the parser: pieces separated by `&`, each
with a field, an operator and a number. -/

/-- The name of the field. -/
def Field.text : Field → List Char
  | .kind => "kind".toList
  | .createdAt => "created_at".toList

/-- The symbol of the operator. -/
def Operator.symbol : Operator → Char
  | .lessThan => '<'
  | .greaterThan => '>'
  | .equals => '='
  | .notEquals => '!'

/-- A decimal number of 64 bits. -/
def Number (n : Nat) (t : List Char) : Prop :=
  t ≠ [] ∧ (∀ c ∈ t, c.isDigit = true) ∧ n = Nat.ofDigitChars 10 t 0 ∧ n < 2 ^ 64

/-- The text of a condition: its field, its operator and its values. -/
def Written (c : Condition) (t : List Char) : Prop :=
  ∃ vs, t = c.field.text ++ c.operator.symbol :: vs ∧ Separated ',' Number c.values vs

/-- The text of a sequence of conditions. -/
def WrittenQuery (cs : List Condition) (s : String) : Prop := Separated '&' Written cs s.toList

/-- The restriction that a condition states. -/
def Condition.Holds (c : Condition) (e : Event) : Prop :=
  let subject := match c.field with
    | .kind => e.kind
    | .createdAt => e.createdAt
  match c.operator with
  | .lessThan => ∀ v ∈ c.values, subject < v
  | .greaterThan => ∀ v ∈ c.values, v < subject
  | .equals => subject ∈ c.values
  | .notEquals => subject ∉ c.values

/-- What a condition allows has the property it states. -/
theorem Condition.Holds.of_allowsEvent {c : Condition} {e : Event}
    (h : c.allowsEvent e = true) : c.Holds e := by
  obtain ⟨f, op, vs⟩ := c
  cases op with
  | lessThan =>
    match vs, h with
    | [v], h => cases f <;> simpa [Holds, allowsEvent] using h
  | greaterThan =>
    match vs, h with
    | [v], h => cases f <;> simpa [Holds, allowsEvent] using h
  | equals => cases f <;> simpa [Holds, allowsEvent] using h
  | notEquals =>
    simp only [allowsEvent, List.all_eq_true, bne_iff_ne] at h
    cases f <;> exact fun hmem => h _ hmem rfl

/-! ## One piece -/

/-- A match of the pattern can begin here: a word, then an operator character. -/
def StartsCondition (u : List Char) : Prop :=
  ∃ w o r, u = w ++ o :: r ∧ w ≠ [] ∧ (∀ c ∈ w, isWord c = true) ∧ isOperatorChar o = true

/-- The next character neither continues the values nor, without values, the
operator. -/
def Ends (values : List Nat) (after : List Char) : Prop :=
  ∀ c ∈ after.head?, isValueChar c = false ∧ (values = [] → isOperatorChar c = false)

/-- A condition with the text around it. -/
structure Piece where
  before : List Char
  condition : Condition
  after : List Char

/-- The piece as a text between two `&`. Its condition is the first one of that
text, and the values of it go as far as they can. -/
def Piece.Reads (p : Piece) (t : List Char) : Prop :=
  '&' ∉ t ∧ ∃ w, Written p.condition w ∧ t = p.before ++ (w ++ p.after) ∧
    (∀ b b', p.before = b ++ b' → b' ≠ [] → ¬ StartsCondition (b' ++ (w ++ p.after))) ∧
    Ends p.condition.values p.after

/-- Every piece of the string holds a condition, and some piece holds more than that. -/
def Surrounded (s : String) : Prop :=
  ∃ ps : List Piece, Separated '&' Piece.Reads ps s.toList ∧
    ∃ p ∈ ps, p.before ≠ [] ∨ p.after ≠ []

/-- The parser accepts exactly the grammar, with the conditions as written, and the
events it lets through meet every restriction written. -/
structure Exact (s : String) : Prop where
  accepts : (∃ q, ConditionQuery.fromStr s = .ok q) ↔ ∃ cs, WrittenQuery cs s
  parsed : ∀ q, ConditionQuery.fromStr s = .ok q → WrittenQuery q.conditions s
  restricts : ∀ q e, ConditionQuery.fromStr s = .ok q → q.allowsEvent e = true →
    ∀ cs, WrittenQuery cs s → ∀ c ∈ cs, c.Holds e

/-! ## The classes of characters -/

/-- An operator is no part of a word. -/
theorem isWord_of_isOperatorChar {c : Char} (h : isOperatorChar c = true) : isWord c = false := by
  simp only [isOperatorChar, Bool.or_eq_true, beq_iff_eq] at h
  obtain ((rfl | rfl) | rfl) | rfl := h <;> decide

/-- A digit or comma is no operator. -/
theorem isOperatorChar_of_isValueChar {c : Char} (h : isValueChar c = true) :
    isOperatorChar c = false := by
  rcases ho : isOperatorChar c with _ | _
  · rfl
  · simp only [isOperatorChar, Bool.or_eq_true, beq_iff_eq] at ho
    obtain ((rfl | rfl) | rfl) | rfl := ho <;> exact absurd h (by decide)

theorem Operator.isOperatorChar_symbol (op : Operator) : isOperatorChar op.symbol = true := by
  cases op <;> decide

theorem Field.isWord_of_mem_text {f : Field} : ∀ c ∈ f.text, isWord c = true := by
  have hall : f.text.all isWord = true := by cases f <;> decide
  exact List.all_eq_true.mp hall

theorem Field.text_ne_nil (f : Field) : f.text ≠ [] := by
  cases f <;> decide

theorem Number.isValueChar {n : Nat} {t : List Char} (h : Number n t) :
    ∀ c ∈ t, isValueChar c = true := by
  intro c hc
  rw [Delegation.isValueChar, h.2.1 c hc, Bool.or_true]

/-! ## Reading the parts of a condition -/

theorem Field.text_inj {f g : Field} : f.text = g.text ↔ f = g := by
  cases f <;> cases g <;> decide

/-- A field is read from its name and from nothing else. -/
theorem Field.fromStr_eq_some {t : List Char} {f : Field} :
    (Field.fromStr (String.ofList t)).toOption = some f ↔ t = f.text := by
  have htext : ∀ g : Field, String.ofList t = String.ofList g.text ↔ t = g.text :=
    fun g => String.ofList_inj
  have hkind : String.ofList t = "kind" ↔ t = Field.kind.text := htext .kind
  have hcreated : String.ofList t = "created_at" ↔ t = Field.createdAt.text := htext .createdAt
  rw [Field.fromStr]
  split_ifs with h1 h2
  · rw [hkind.mp h1, Field.text_inj]
    exact Option.some_inj
  · rw [hcreated.mp h2, Field.text_inj]
    exact Option.some_inj
  · refine iff_of_false (fun h => by cases h) ?_
    rintro rfl
    cases f with
    | kind => exact h1 rfl
    | createdAt => exact h2 rfl

theorem Operator.symbol_inj {op op' : Operator} : op.symbol = op'.symbol ↔ op = op' := by
  cases op <;> cases op' <;> decide

/-- An operator is read from its symbol and from nothing else. -/
theorem Operator.fromStr_eq_some {t : List Char} {op : Operator} :
    (Operator.fromStr (String.ofList t)).toOption = some op ↔ t = [op.symbol] := by
  have hone : ∀ op : Operator, String.ofList t = String.ofList [op.symbol] ↔ t = [op.symbol] :=
    fun op => String.ofList_inj
  have hread : ∀ op', t = [Operator.symbol op'] → (some op' = some op ↔ t = [op.symbol]) := by
    rintro op' rfl
    rw [Option.some_inj, List.cons.injEq, Operator.symbol_inj]
    simp
  rw [Operator.fromStr]
  split_ifs with h1 h2 h3 h4
  · exact hread .lessThan ((hone .lessThan).mp h1)
  · exact hread .greaterThan ((hone .greaterThan).mp h2)
  · exact hread .equals ((hone .equals).mp h3)
  · exact hread .notEquals ((hone .notEquals).mp h4)
  · refine iff_of_false (fun h => by cases h) ?_
    rintro rfl
    cases op with
    | lessThan => exact h1 rfl
    | greaterThan => exact h2 rfl
    | equals => exact h3 rfl
    | notEquals => exact h4 rfl

/-- Of digits and commas the parser takes the numbers. -/
theorem parseU64_eq_some {t : List Char} {n : Nat} (ht : ∀ c ∈ t, isValueChar c = true) :
    (',' ∉ t ∧ parseU64 (String.ofList t) = some n) ↔ Number n t := by
  have hplus : t.head? ≠ some '+' := by
    intro h
    exact absurd (ht '+' (List.mem_of_head? h)) (by decide)
  rw [parseU64, String.toList_ofList, if_neg hplus, Number]
  refine ⟨?_, ?_⟩
  · rintro ⟨-, h⟩
    split_ifs at h with hd
    obtain rfl := Option.some.inj h
    exact ⟨hd.1, by simpa using hd.2.1, rfl, hd.2.2⟩
  · rintro ⟨hne, hdigits, rfl, hlt⟩
    refine ⟨fun hc => absurd (hdigits _ hc) (by decide), ?_⟩
    rw [if_pos ⟨hne, by simpa using hdigits, hlt⟩]

/-- The split with a terminator is the split into pieces. -/
theorem splitTerminator_eq (sep : Char) (s : List Char) :
    splitTerminator sep s = Separated.pieces sep s := rfl

/-- The values are a sequence of numbers. -/
theorem values_eq_some {vs : List Char} {values : List Nat}
    (hvs : ∀ c ∈ vs, isValueChar c = true) :
    ((splitTerminator ',' vs).mapM fun n => parseU64 (String.ofList n)) = some values ↔
      Separated ',' Number values vs := by
  rw [splitTerminator_eq, Separated.iff_mapM (by decide)]
  refine ⟨?_, ?_⟩
  · exact fun h => h.imp hvs fun n t ht => (parseU64_eq_some ht).mp
  · exact fun h => h.imp hvs fun n t ht => (parseU64_eq_some ht).mpr

/-! ## The match -/

/-- Where a match begins, the groups are maximal runs. -/
theorem captures_of_starts {u : List Char} (h : StartsCondition u) :
    captures u = some (u.takeWhile isWord, (u.dropWhile isWord).takeWhile isOperatorChar,
      ((u.dropWhile isWord).dropWhile isOperatorChar).takeWhile isValueChar) := by
  obtain ⟨w, o, r, rfl, hne, hw, ho⟩ := h
  have hfield : (w ++ o :: r).takeWhile isWord = w := by
    rw [List.takeWhile_append_of_pos hw, List.takeWhile_cons_of_neg, List.append_nil]
    simp [isWord_of_isOperatorChar ho]
  have hrest : (w ++ o :: r).dropWhile isWord = o :: r := by
    rw [List.dropWhile_append_of_pos hw, List.dropWhile_cons_of_neg]
    simp [isWord_of_isOperatorChar ho]
  obtain ⟨c, cs, hc⟩ : ∃ c cs, w ++ o :: r = c :: cs := by
    obtain ⟨c, w', rfl⟩ := List.exists_cons_of_ne_nil hne
    exact ⟨c, _, rfl⟩
  rw [hc] at hfield hrest ⊢
  rw [captures]
  simp only [hfield, hrest, List.takeWhile_cons_of_pos ho, List.isEmpty_cons, Bool.or_false]
  rw [if_neg (by simpa using hne)]

/-- Where no match begins, the search goes on with the next character. -/
theorem captures_cons {c : Char} {cs : List Char} (h : ¬ StartsCondition (c :: cs)) :
    captures (c :: cs) = captures cs := by
  have hempty : ((c :: cs).takeWhile isWord).isEmpty = true ∨
      (((c :: cs).dropWhile isWord).takeWhile isOperatorChar).isEmpty = true := by
    by_contra hboth
    rw [not_or, List.isEmpty_iff, List.isEmpty_iff] at hboth
    obtain ⟨o, r, hop⟩ := List.exists_cons_of_ne_nil hboth.2
    have ho : isOperatorChar o = true :=
      List.mem_takeWhile_imp (by rw [hop]; exact List.mem_cons_self)
    have hrest := List.takeWhile_append_dropWhile (p := isOperatorChar)
      (l := (c :: cs).dropWhile isWord)
    have hall := List.takeWhile_append_dropWhile (p := isWord) (l := c :: cs)
    rw [← hrest, hop, List.cons_append] at hall
    exact h ⟨_, o, _, hall.symm, hboth.1, fun x hx => List.mem_takeWhile_imp hx, ho⟩
  rw [captures]
  exact if_pos (Bool.or_eq_true_iff.mpr hempty)

/-- The search passes over a text in which no match begins. -/
theorem captures_append {before u : List Char}
    (h : ∀ b b', before = b ++ b' → b' ≠ [] → ¬ StartsCondition (b' ++ u)) :
    captures (before ++ u) = captures u := by
  induction before with
  | nil => rfl
  | cons c before ih =>
    rw [List.cons_append, show captures (c :: (before ++ u)) = captures (before ++ u) from
      captures_cons (h [] (c :: before) rfl (List.cons_ne_nil _ _))]
    exact ih fun b b' hb => h (c :: b) b' (by rw [hb, List.cons_append])

/-- A match was passed to over a text in which none begins. -/
theorem exists_of_captures {t : List Char} {r : List Char × List Char × List Char}
    (h : captures t = some r) :
    ∃ before u, t = before ++ u ∧ StartsCondition u ∧
      ∀ b b', before = b ++ b' → b' ≠ [] → ¬ StartsCondition (b' ++ u) := by
  induction t with
  | nil => cases h
  | cons c cs ih =>
    by_cases hc : StartsCondition (c :: cs)
    · refine ⟨[], c :: cs, rfl, hc, fun b b' hb hne => ?_⟩
      exact absurd (List.append_eq_nil_iff.mp hb.symm).2 hne
    · rw [captures_cons hc] at h
      obtain ⟨before, u, rfl, hu, hbefore⟩ := ih h
      refine ⟨c :: before, u, rfl, hu, ?_⟩
      intro b b' hb hne
      rcases b with _ | ⟨d, b⟩
      · rw [List.nil_append] at hb
        rwa [← hb]
      · exact hbefore b b' (List.cons.inj hb).2 hne

/-- A written condition is a match from its first character on. -/
theorem Written.startsCondition {c : Condition} {w : List Char} (h : Written c w)
    (after : List Char) : StartsCondition (w ++ after) := by
  obtain ⟨vs, rfl, -⟩ := h
  refine ⟨c.field.text, c.operator.symbol, vs ++ after, by simp, c.field.text_ne_nil,
    Field.isWord_of_mem_text, c.operator.isOperatorChar_symbol⟩

/-- The groups of a match are the parts of the condition. -/
theorem captures_written {f : Field} {op : Operator} {vs after : List Char} {values : List Nat}
    (hvs : ∀ c ∈ vs, isValueChar c = true) (hnil : vs = [] ↔ values = [])
    (hafter : Ends values after) :
    captures ((f.text ++ op.symbol :: vs) ++ after) = some (f.text, [op.symbol], vs) := by
  have hstart : StartsCondition ((f.text ++ op.symbol :: vs) ++ after) :=
    ⟨f.text, op.symbol, vs ++ after, by simp, f.text_ne_nil, Field.isWord_of_mem_text,
      op.isOperatorChar_symbol⟩
  have hop := op.isOperatorChar_symbol
  have hword : ¬ isWord op.symbol = true := by simp [isWord_of_isOperatorChar hop]
  have hrest : ((f.text ++ op.symbol :: vs) ++ after).dropWhile isWord =
      op.symbol :: (vs ++ after) := by
    rw [List.append_assoc, List.cons_append,
      List.dropWhile_append_of_pos Field.isWord_of_mem_text, List.dropWhile_cons_of_neg hword]
  have hfield : ((f.text ++ op.symbol :: vs) ++ after).takeWhile isWord = f.text := by
    rw [List.append_assoc, List.cons_append,
      List.takeWhile_append_of_pos Field.isWord_of_mem_text, List.takeWhile_cons_of_neg hword,
      List.append_nil]
  -- the run of operator characters is the operator alone
  have hhead : ∀ c ∈ (vs ++ after).head?, ¬ isOperatorChar c = true := by
    intro c hc
    rcases vs with _ | ⟨v, vs⟩
    · simp [(hafter c hc).2 (hnil.mp rfl)]
    · obtain rfl : v = c := by simpa using hc
      simp [isOperatorChar_of_isValueChar (hvs v List.mem_cons_self)]
  have hone : (vs ++ after).takeWhile isOperatorChar = [] ∧
      (vs ++ after).dropWhile isOperatorChar = vs ++ after := by
    rcases hva : vs ++ after with _ | ⟨d, l⟩
    · exact ⟨rfl, rfl⟩
    · have hd := hhead d (by rw [hva]; rfl)
      exact ⟨List.takeWhile_cons_of_neg hd, List.dropWhile_cons_of_neg hd⟩
  -- and the run of value characters ends with the values
  have hvalues : (vs ++ after).takeWhile isValueChar = vs := by
    rw [List.takeWhile_append_of_pos hvs]
    rcases after with _ | ⟨d, l⟩
    · rw [List.takeWhile_nil, List.append_nil]
    · rw [List.takeWhile_cons_of_neg, List.append_nil]
      simp [(hafter d rfl).1]
  rw [captures_of_starts hstart, hfield, hrest, List.takeWhile_cons_of_pos hop,
    List.dropWhile_cons_of_pos hop, hone.1, hone.2, hvalues]

/-- The head of what `dropWhile` leaves. -/
theorem of_head?_dropWhile {p : Char → Bool} {l : List Char} :
    ∀ c ∈ (l.dropWhile p).head?, p c = false := by
  intro c hc
  have := List.head?_dropWhile_not p l
  rw [Option.mem_def.mp hc] at this
  exact this

/-- A piece is read as the first condition in it. -/
theorem strToCondition_eq_some {t : List Char} {c : Condition} (ht : '&' ∉ t) :
    strToCondition t = some c ↔ ∃ p : Piece, p.condition = c ∧ p.Reads t := by
  refine ⟨?_, ?_⟩
  · intro h
    simp only [strToCondition, Option.bind_eq_bind, Option.bind_eq_some_iff, Option.pure_def,
      Option.some_inj] at h
    obtain ⟨⟨w, o, vs⟩, hcap, f, hf, op, hop, values, hvalues, rfl⟩ := h
    obtain ⟨before, u, rfl, hstart, hbefore⟩ := exists_of_captures hcap
    rw [captures_append hbefore, captures_of_starts hstart] at hcap
    simp only [Option.some.injEq, Prod.mk.injEq] at hcap
    obtain ⟨rfl, rfl, rfl⟩ := hcap
    rw [Field.fromStr_eq_some] at hf
    rw [Operator.fromStr_eq_some] at hop
    rw [values_eq_some fun c hc => List.mem_takeWhile_imp hc] at hvalues
    have hu : u = (f.text ++ op.symbol ::
        ((u.dropWhile isWord).dropWhile isOperatorChar).takeWhile isValueChar) ++
        ((u.dropWhile isWord).dropWhile isOperatorChar).dropWhile isValueChar := by
      rw [List.append_assoc, List.cons_append, List.takeWhile_append_dropWhile,
        ← List.singleton_append, ← hop, List.takeWhile_append_dropWhile, ← hf,
        List.takeWhile_append_dropWhile]
    refine ⟨⟨before, ⟨f, op, values⟩,
      ((u.dropWhile isWord).dropWhile isOperatorChar).dropWhile isValueChar⟩, rfl, ht, _,
      ⟨_, rfl, hvalues⟩, congrArg (before ++ ·) hu, ?_, ?_⟩
    · rw [← hu]
      exact hbefore
    · intro c hc
      refine ⟨of_head?_dropWhile c hc, ?_⟩
      intro hnil
      have hempty := (hvalues.eq_nil_iff fun n hn => hn.1 rfl).mpr hnil
      have hdrop := List.takeWhile_append_dropWhile (p := isValueChar)
        (l := (u.dropWhile isWord).dropWhile isOperatorChar)
      rw [hempty, List.nil_append] at hdrop
      rw [hdrop] at hc
      exact of_head?_dropWhile c hc
  · rintro ⟨p, rfl, -, w, ⟨vs, rfl, hvs⟩, rfl, hbefore, hafter⟩
    have hchars := hvs.forall_mem (K := fun c => isValueChar c = true) (by decide)
      fun n t hn => hn.isValueChar
    have hnil := hvs.eq_nil_iff fun n hn => hn.1 rfl
    rw [strToCondition, captures_append hbefore, captures_written hchars hnil hafter]
    simp only [Option.bind_eq_bind, Option.bind_some]
    rw [Field.fromStr_eq_some.mpr rfl, Option.bind_some, Operator.fromStr_eq_some.mpr rfl,
      Option.bind_some, (values_eq_some hchars).mpr hvs]
    rfl

/-! ## The whole string -/

theorem Written.ne_nil {c : Condition} {t : List Char} (h : Written c t) : t ≠ [] := by
  obtain ⟨vs, rfl, -⟩ := h
  simp

/-- The characters conditions are made of. -/
def isConditionChar (c : Char) : Bool := isWord c || isOperatorChar c || isValueChar c

theorem Written.isConditionChar {c : Condition} {t : List Char} (h : Written c t) :
    ∀ d ∈ t, isConditionChar d = true := by
  obtain ⟨vs, rfl, hvs⟩ := h
  have hchars := hvs.forall_mem (K := fun c => isValueChar c = true) (by decide)
    fun n t hn => hn.isValueChar
  intro d hd
  simp only [Delegation.isConditionChar, Bool.or_eq_true]
  rcases List.mem_append.mp hd with hf | hrest
  · exact Or.inl (Or.inl (Field.isWord_of_mem_text _ hf))
  · rcases List.mem_cons.mp hrest with rfl | hv
    · exact Or.inl (Or.inr c.operator.isOperatorChar_symbol)
    · exact Or.inr (hchars _ hv)

theorem Written.notMem {c : Condition} {t : List Char} (h : Written c t) : '&' ∉ t :=
  fun hmem => absurd (h.isConditionChar _ hmem) (by decide)

/-- A condition written in full is a piece with nothing around it. -/
theorem Written.reads {c : Condition} {t : List Char} (h : Written c t) :
    Piece.Reads ⟨[], c, []⟩ t := by
  refine ⟨h.notMem, t, h, by simp, ?_, ?_⟩
  · intro b b' hb hne
    exact absurd (List.append_eq_nil_iff.mp hb.symm).2 hne
  · exact fun c hc => by cases hc

/-- What is read as a piece is not empty. -/
theorem Piece.Reads.ne_nil {p : Piece} {t : List Char} (h : p.Reads t) : t ≠ [] := by
  obtain ⟨-, w, hw, rfl, -⟩ := h
  simp [hw.ne_nil]

/-- A piece whose text is its condition written in full has nothing around it. -/
theorem Piece.Reads.eq_nil_of_written {p : Piece} {t : List Char} (h : p.Reads t)
    (hw : Written p.condition t) : p.before = [] ∧ p.after = [] := by
  obtain ⟨-, w, ⟨vs, rfl, -⟩, rfl, hbefore, hafter⟩ := h
  have hb : p.before = [] := by
    by_contra hne
    refine hbefore [] p.before rfl hne ?_
    simpa using hw.startsCondition []
  refine ⟨hb, ?_⟩
  rw [hb, List.nil_append] at hw
  obtain ⟨vs', hvs, hvs'⟩ := hw
  have hcut : vs ++ p.after = vs' := by simpa using hvs
  have hchars := hvs'.forall_mem (K := fun c => isValueChar c = true) (by decide)
    fun n t hn => hn.isValueChar
  rcases ha : p.after with _ | ⟨d, l⟩
  · rfl
  · have hd := hchars d (by rw [← hcut, ha]; simp)
    have hd' := (hafter d (by rw [ha]; rfl)).1
    rw [hd] at hd'
    cases hd'

theorem isNone_strToCondition_nil : strToCondition [] = none := rfl

/-- The parser reads the string piece by piece. -/
theorem fromStr_eq_ok {s : String} {q : ConditionQuery} :
    ConditionQuery.fromStr s = .ok q ↔
      ∃ ps : List Piece, ps.map Piece.condition = q.conditions ∧
        Separated '&' Piece.Reads ps s.toList := by
  have hparse : ConditionQuery.fromStr s = .ok q ↔
      (Separated.pieces '&' s.toList).mapM strToCondition = some q.conditions := by
    rw [ConditionQuery.fromStr, splitTerminator_eq]
    rcases (Separated.pieces '&' s.toList).mapM strToCondition with _ | cs
    · simp
    · obtain ⟨cs'⟩ := q
      simp
  rw [hparse, Separated.iff_mapM isNone_strToCondition_nil]
  refine ⟨?_, ?_⟩
  · intro h
    refine Separated.exists_map ?_
    exact h.imp (K := fun _ => True) (fun _ _ => trivial) fun c t _ ht =>
      (strToCondition_eq_some ht.1).mp ht.2
  · rintro ⟨ps, hps, h⟩
    rw [← hps]
    exact h.map fun p _ t ht => ⟨ht.1, (strToCondition_eq_some ht.1).mpr ⟨p, rfl, ht⟩⟩

/-- What is written is read as it is written. -/
theorem fromStr_of_written {s : String} {cs : List Condition} (h : WrittenQuery cs s) :
    ConditionQuery.fromStr s = .ok ⟨cs⟩ := by
  refine fromStr_eq_ok.mpr ⟨cs.map fun c => ⟨[], c, []⟩, ?_, ?_⟩
  · rw [List.map_map]
    exact List.map_id cs
  · exact h.map fun c _ t ht => ht.reads

/-- What is read from a string without surrounding text is written there. -/
theorem written_of_fromStr {s : String} {q : ConditionQuery} (hs : ¬ Surrounded s)
    (h : ConditionQuery.fromStr s = .ok q) : WrittenQuery q.conditions s := by
  obtain ⟨ps, hcond, hps⟩ := fromStr_eq_ok.mp h
  rw [← hcond]
  refine hps.map ?_
  rintro p hp t ⟨-, w, hw, rfl, -⟩
  have hbare : p.before = [] ∧ p.after = [] := by
    by_contra hne
    rw [not_and_or] at hne
    exact hs ⟨ps, hps, p, hp, hne⟩
  simpa [hbare.1, hbare.2] using hw

/-- The pieces of a written string have nothing around their conditions. -/
theorem bare_of_written {s : String} {ps : List Piece}
    (h : Separated '&' Piece.Reads ps s.toList)
    (hw : WrittenQuery (ps.map Piece.condition) s) :
    ∀ p ∈ ps, p.before = [] ∧ p.after = [] := by
  have hboth := h.forall₂ (fun p t ht => ⟨ht.ne_nil, ht.1⟩)
    (fun c t ht => ⟨ht.ne_nil, ht.notMem⟩) hw
  rw [List.forall₂_map_right_iff, List.forall₂_same] at hboth
  intro p hp
  obtain ⟨t, hreads, hwritten⟩ := hboth p hp
  exact hreads.eq_nil_of_written hwritten

/-- An allowed event has the property of every condition. -/
theorem allowsEvent_holds {q : ConditionQuery} {e : Event} (h : q.allowsEvent e = true) :
    ∀ c ∈ q.conditions, c.Holds e := by
  rw [ConditionQuery.allowsEvent, List.all_eq_true] at h
  exact fun c hc => .of_allowsEvent (h c hc)

/-- The parser is exact on a string unless its pieces all hold a condition and one
of them holds more. -/
theorem parser_exact_iff (s : String) : Exact s ↔ ¬ Surrounded s := by
  refine ⟨?_, ?_⟩
  · rintro h ⟨ps, hps, p, hp, haround⟩
    have hread : ConditionQuery.fromStr s = .ok ⟨ps.map Piece.condition⟩ :=
      fromStr_eq_ok.mpr ⟨ps, rfl, hps⟩
    have hbare := bare_of_written hps (h.parsed _ hread) p hp
    rcases haround with hb | ha
    · exact hb hbare.1
    · exact ha hbare.2
  · intro hs
    refine ⟨⟨?_, ?_⟩, fun q hq => written_of_fromStr hs hq, ?_⟩
    · rintro ⟨q, hq⟩
      exact ⟨q.conditions, written_of_fromStr hs hq⟩
    · rintro ⟨cs, hcs⟩
      exact ⟨⟨cs⟩, fromStr_of_written hcs⟩
    · intro q e hq hallows cs hcs
      have := fromStr_of_written hcs
      rw [hq] at this
      obtain rfl := Except.ok.inj this
      exact allowsEvent_holds hallows

/-- A bound on the time that a blank separates from the rest. -/
def sampleQuery : String := "kind=1 created_at<1700000000"

/-- The bound is lost. -/
theorem sampleQuery_fromStr :
    ConditionQuery.fromStr sampleQuery = .ok ⟨[⟨.kind, .equals, [1]⟩]⟩ := by
  decide +kernel

theorem sampleQuery_not_exact : ¬ ∀ s, Exact s := by
  intro h
  have hw : WrittenQuery _ sampleQuery := (h sampleQuery).parsed _ sampleQuery_fromStr
  have hchars := hw.forall_mem
    (K := fun c => c = '&' ∨ isConditionChar c = true) (Or.inl rfl)
    fun c t ht d hd => Or.inr (ht.isConditionChar d hd)
  rcases hchars ' ' (by decide) with hblank | hblank
  · exact absurd hblank (by decide)
  · exact absurd hblank (by decide)

end Delegation

end Floonet
