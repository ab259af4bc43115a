import Floonet.Lib.SqlText
import Floonet.Postgres.Statement

/-!
# Which generated statements are well formed

Every part of a generated statement is read back from its text. Two things go wrong. The hex values
of an any-of condition are filtered by length after it is decided to look for hex values, so the
list can be empty. And the ids are compared with `id` without a table, which is a column of `event`
and of every joined `tag`.
-/

namespace Floonet.Postgres

open Hex (Bytes)
open SqlText
open Template (Piece)
open Statement (tagAlias)

/-- The columns of the tables, after all migrations. -/
def columnsOf (table : String) : List String :=
  if table = "event" then
    ["id", "pub_key", "created_at", "kind", "content", "hidden", "delegated_by", "first_seen",
      "expires_at"]
  else if table = "tag" then ["id", "event_id", "name", "value", "value_hex"]
  else []

/-! ## Parameters -/

theorem numbered_holes_singleton (k : Nat) (p : PgParam) :
    Template.numbered k (holes [p]) = "$" ++ toString (k + 1) := by
  simp [holes, Template.join]

theorem numbered_holes_cons (k : Nat) (p p' : PgParam) (ps : List PgParam) :
    Template.numbered k (holes (p :: p' :: ps)) =
      "$" ++ toString (k + 1) ++ ", " ++ Template.numbered (k + 1) (holes (p' :: ps)) := by
  simp [holes, Template.join, String.append_assoc]

theorem tokens_hole (k : Nat) : tokens ("$" ++ toString k) = [.symbol '$', .number (toString k)] := by
  rw [tokens_append_of_closes (by decide), tokens_toString]
  rfl

theorem tokens_hole_append (k : Nat) {s : String} (h : opens s = true) :
    tokens ("$" ++ (toString k ++ s)) =
      .symbol '$' :: .number (toString k) :: tokens s := by
  rw [tokens_append_of_closes (by decide), tokens_append_of_opens h, tokens_toString]
  rfl

/-- The numbers of a list of parameters are one. -/
theorem params_holes {ps : List PgParam} (h : ps ≠ []) (k : Nat) :
    Params (tokens (Template.numbered k (holes ps))) := by
  induction ps generalizing k with
  | nil => exact absurd rfl h
  | cons p ps ih =>
    cases ps with
    | nil =>
      rw [numbered_holes_singleton, tokens_hole]
      exact .one _
    | cons p' ps =>
      rw [numbered_holes_cons, String.append_assoc, tokens_append_of_opens (opens_append (by decide)),
        tokens_hole, tokens_append_of_closes (by decide)]
      exact .cons _ (ih (List.cons_ne_nil _ _) _)

/-- A list in parentheses, with what is before and after it. -/
theorem tokens_list {s t : String} (hs : closes s = true) (ht : opens t = true) (k : Nat)
    (ps : List PgParam) :
    tokens (s ++ (Template.numbered k (holes ps) ++ t)) =
      tokens s ++ (tokens (Template.numbered k (holes ps)) ++ tokens t) := by
  rw [tokens_append_of_closes hs, tokens_append_of_opens ht]

/-! ## Clauses

Each clause is read back as a condition, together with the columns it names without a table. Only
the clause of the ids names one. -/

/-- The tokens of the texts of the clauses. -/
theorem tokens_clause_literals :
    tokens "(e.pub_key in (" = [.symbol '(', .name "e", .symbol '.', .name "pub_key",
      .keyword "IN", .symbol '('] ∧
    tokens ") OR e.delegated_by in (" = [.symbol ')', .keyword "OR", .name "e", .symbol '.',
      .name "delegated_by", .keyword "IN", .symbol '('] ∧
    tokens "e.kind in (" =
      [.name "e", .symbol '.', .name "kind", .keyword "IN", .symbol '('] ∧
    tokens "(id in (" = [.symbol '(', .name "id", .keyword "IN", .symbol '('] ∧
    tokens "e.created_at >= " =
      [.name "e", .symbol '.', .name "created_at", .symbol '>', .symbol '='] ∧
    tokens "e.created_at <= " =
      [.name "e", .symbol '.', .name "created_at", .symbol '<', .symbol '='] ∧
    tokens ")" = [.symbol ')'] ∧ tokens "))" = [.symbol ')', .symbol ')'] ∧
    tokens " AND " = [.keyword "AND"] ∧
    tokens "e.hidden != 1::bit(1)" = [.name "e", .symbol '.', .name "hidden", .symbol '!',
      .symbol '=', .number "1", .symbol ':', .symbol ':', .name "bit", .symbol '(', .number "1",
      .symbol ')'] ∧
    tokens "(e.expires_at IS NULL OR e.expires_at > now())" = [.symbol '(', .name "e", .symbol '.',
      .name "expires_at", .keyword "IS", .keyword "NULL", .keyword "OR", .name "e", .symbol '.',
      .name "expires_at", .symbol '>', .name "now", .symbol '(', .symbol ')', .symbol ')'] := by
  decide +kernel

section Clauses

variable (k : Nat)

/-- The clause of the authors is a condition. -/
theorem condition_authors {l : List (Option Bytes)} (h : l ≠ []) :
    Condition .test [] (tokens (Template.numbered k (Query.authorsClause l))) := by
  obtain ⟨hpubKey, hdelegated, -, -, -, -, -, hclose, -⟩ := tokens_clause_literals
  have hps : l.map PgParam.bytea ≠ [] := by simpa using h
  have hcond := fun k' => Condition.group (@Condition.or [] [] _ _
    (.among (.qualified "e" "pub_key") (params_holes hps k))
    (.choice (.among (.qualified "e" "delegated_by") (params_holes hps k'))))
  simp only [Query.authorsClause, List.cons_append, Template.numbered_lit_cons,
    Template.numbered_append, Template.numbered_nil, String.append_empty, List.append_assoc]
  rw [tokens_list (by decide) (opens_append (by decide)), tokens_list (by decide) (by decide),
    hpubKey, hdelegated, hclose]
  simpa only [List.cons_append, List.nil_append, List.append_assoc] using hcond _

theorem condition_kinds {ks : List Int} (h : ks ≠ []) :
    Condition .test [] (tokens (Template.numbered k (Query.kindsClause ks))) := by
  obtain ⟨-, -, hkind, -, -, -, hclose, -⟩ := tokens_clause_literals
  have hps : ks.map PgParam.int8 ≠ [] := by simpa using h
  have hcond := Condition.among (.qualified "e" "kind") (params_holes hps k)
  simp only [Query.kindsClause, List.cons_append, Template.numbered_lit_cons,
    Template.numbered_append, Template.numbered_nil, String.append_empty]
  rw [tokens_list (by decide) (by decide), hkind, hclose]
  exact hcond

/-- The one clause with a column that has no table. -/
theorem condition_ids {l : List (Option Bytes)} (h : l ≠ []) :
    Condition .test ["id"] (tokens (Template.numbered k (Query.idsClause l))) := by
  obtain ⟨-, -, -, hid, -, -, -, hclose, -⟩ := tokens_clause_literals
  have hps : l.map PgParam.bytea ≠ [] := by simpa using h
  have hcond := Condition.group (.choice (.among (.bare "id") (params_holes hps k)))
  simp only [Query.idsClause, List.cons_append, Template.numbered_lit_cons,
    Template.numbered_append, Template.numbered_nil, String.append_empty]
  rw [tokens_list (by decide) (by decide), hid, hclose]
  simpa only [List.cons_append, List.nil_append, List.append_assoc] using hcond

/-- A time and its parameter. -/
theorem tokens_time {s : String} (hs : closes s = true) (t : Int) :
    tokens (Template.numbered k [.lit s, .hole (PgParam.timestamptz t)]) =
      tokens s ++ [.symbol '$', .number (toString (k + 1))] := by
  simp only [Template.numbered_lit_cons, Template.numbered_hole_cons, Template.numbered_nil,
    String.append_empty]
  rw [tokens_append_of_closes hs, tokens_hole]

theorem condition_since (t : Int) : Condition .test [] (tokens (Template.numbered k
    [.lit "e.created_at >= ", .hole (PgParam.timestamptz t)])) := by
  obtain ⟨-, -, -, -, hsince, -, -⟩ := tokens_clause_literals
  rw [tokens_time k (by decide), hsince]
  exact .compare (.qualified _ _) .ge (.param _)

theorem condition_until (t : Int) : Condition .test [] (tokens (Template.numbered k
    [.lit "e.created_at <= ", .hole (PgParam.timestamptz t)])) := by
  obtain ⟨-, -, -, -, -, huntil, -⟩ := tokens_clause_literals
  rw [tokens_time k (by decide), huntil]
  exact .compare (.qualified _ _) .le (.param _)

theorem condition_hidden : Condition .test [] (tokens (Template.numbered k
    ([.lit "e.hidden != 1::bit(1)"] : List (Piece PgParam)))) := by
  obtain ⟨-, -, -, -, -, -, -, -, -, hhidden, -⟩ := tokens_clause_literals
  simp only [Template.numbered_lit_cons, Template.numbered_nil, String.append_empty, hhidden]
  exact .compare (.qualified _ _) .ne (.cast _ _ _)

theorem condition_expires : Condition .test [] (tokens (Template.numbered k
    ([.lit "(e.expires_at IS NULL OR e.expires_at > now())"] : List (Piece PgParam)))) := by
  obtain ⟨-, -, -, -, -, -, -, -, -, -, hexpires⟩ := tokens_clause_literals
  simp only [Template.numbered_lit_cons, Template.numbered_nil, String.append_empty, hexpires]
  exact .group (@Condition.or [] [] _ _ (.isNull (.qualified "e" "expires_at"))
    (.choice (.compare (.qualified "e" "expires_at") .gt (.call "now"))))

/-- Clauses with `AND` between neighbours. -/
theorem condition_join {cs : List (List (Piece PgParam))} {colss : List (List String)}
    (h : List.Forall₂ (fun c cols => ∀ k, Condition .test cols (tokens (Template.numbered k c)))
      cs colss) (hne : cs ≠ []) :
    Condition .conjunction colss.flatten (tokens (Template.numbered k (Template.join " AND " cs))) := by
  induction h generalizing k with
  | nil => exact absurd rfl hne
  | @cons c cols cs colss hc hcs ih =>
    cases hcs with
    | nil =>
      rw [Template.join, List.flatten_singleton]
      exact .conjunction (hc k)
    | cons hd hcs =>
      obtain ⟨-, -, -, -, -, -, -, -, hand, -⟩ := tokens_clause_literals
      rw [Template.join, Template.numbered_append, Template.numbered_lit_cons,
        tokens_append_of_opens (opens_append (by decide)), tokens_append_of_closes (by decide),
        List.flatten_cons, hand]
      exact .and (hc k) (ih _ (List.cons_ne_nil _ _))

end Clauses

/-! ## Joins

A join names a second table, which makes the column `id` ambiguous, and its list is empty when all
values are dropped. -/

/-- No list of values is empty. -/
def TagTest.Filled : TagTest → Prop
  | .among values hexes => values ≠ some [] ∧ hexes ≠ some [] ∧ (values = none → hexes ≠ none)
  | _ => True

theorem tokens_tagAlias (n : Nat) : tokens (tagAlias n) = [.name (tagAlias n)] :=
  tokens_letter_toString (by decide : 't'.isAlpha = true) n

theorem tokens_tagAlias_append (n : Nat) {s : String} (h : opens s = true) :
    tokens (tagAlias n ++ s) = .name (tagAlias n) :: tokens s := by
  rw [tokens_append_of_opens h, tokens_tagAlias]
  rfl

/-- The tokens of the texts of a join, between aliases and parameters. -/
theorem tokens_literals :
    tokens ".\"value\" = " = [.symbol '.', .name "value", .symbol '='] ∧
    tokens ".\"value_hex\" = " = [.symbol '.', .name "value_hex", .symbol '='] ∧
    tokens ".\"value\" in (" =
      [.symbol '.', .name "value", .keyword "IN", .symbol '('] ∧
    tokens ".\"value_hex\" in (" =
      [.symbol '.', .name "value_hex", .keyword "IN", .symbol '('] ∧
    tokens "(" = [.symbol '('] ∧ tokens "))" = [.symbol ')', .symbol ')'] ∧
    tokens ") OR " = [.symbol ')', .keyword "OR"] ∧
    tokens " JOIN tag " = [.keyword "JOIN", .name "tag"] ∧
    tokens " JOIN \"tag\" " = [.keyword "JOIN", .name "tag"] ∧
    tokens " on e.id = " =
      [.keyword "ON", .name "e", .symbol '.', .name "id", .symbol '='] ∧
    tokens ".event_id AND " = [.symbol '.', .name "event_id", .keyword "AND"] ∧
    tokens ".\"name\" = " = [.symbol '.', .name "name", .symbol '='] ∧
    tokens " AND " = [.keyword "AND"] := by
  decide +kernel

/-- A list of values of a column of the alias. -/
theorem tokens_in (n k : Nat) {ps : List PgParam} {s t : String} (hopens : opens s = true)
    (hcloses : closes s = true) (ht : opens t = true) :
    tokens (tagAlias n ++ (s ++ (Template.numbered k (holes ps) ++ t))) =
      .name (tagAlias n) :: (tokens s ++ (tokens (Template.numbered k (holes ps)) ++ tokens t)) := by
  rw [tokens_tagAlias_append n (opens_append hopens), tokens_list hcloses ht]

theorem condition_test {test : TagTest} (h : test.Filled) (n k : Nat) :
    Condition .test [] (tokens (Template.numbered k (test.pieces (tagAlias n)))) := by
  obtain ⟨hvalueIs, hhexIs, hvalueIn, hhexIn, hopen, hclose, hor, -⟩ := tokens_literals
  cases test with
  | value v =>
    simp only [TagTest.pieces, Template.numbered_lit_cons, Template.numbered_hole_cons,
      Template.numbered_nil, String.append_empty, String.append_assoc]
    rw [tokens_tagAlias_append n (opens_append (by decide)), tokens_append_of_closes (by decide),
      hvalueIs, tokens_hole]
    exact .compare (.qualified _ _) .eq (.param _)
  | valueHex v =>
    simp only [TagTest.pieces, Template.numbered_lit_cons, Template.numbered_hole_cons,
      Template.numbered_nil, String.append_empty, String.append_assoc]
    rw [tokens_tagAlias_append n (opens_append (by decide)), tokens_append_of_closes (by decide),
      hhexIs, tokens_hole]
    exact .compare (.qualified _ _) .eq (.param _)
  | among values hexes =>
    obtain ⟨hv, hh, hsome⟩ := h
    rcases values with _ | vs <;> rcases hexes with _ | hs
    · exact absurd rfl (hsome rfl)
    · have hps : hs.map PgParam.bytea ≠ [] := by simpa using hh
      simp only [TagTest.pieces, Option.map_none, Option.map_some, Option.toList_none,
        Option.toList_some, List.nil_append, Template.join, List.cons_append,
        Template.numbered_lit_cons, Template.numbered_append, Template.numbered_nil,
        String.append_empty, String.append_assoc]
      rw [tokens_append_of_closes (by decide), tokens_in n _ (by decide) (by decide) (by decide),
        hopen, hclose, hhexIn]
      have := Condition.group (.choice (.among (.qualified (tagAlias n) "value_hex")
        (params_holes hps k)))
      simpa only [List.cons_append, List.append_assoc, List.nil_append] using this
    · have hps : vs.map (fun v => PgParam.bytea (some v)) ≠ [] := by simpa using hv
      simp only [TagTest.pieces, Option.map_none, Option.map_some, Option.toList_none,
        Option.toList_some, List.append_nil, Template.join, List.cons_append,
        Template.numbered_lit_cons, Template.numbered_append, Template.numbered_nil,
        String.append_empty, String.append_assoc]
      rw [tokens_append_of_closes (by decide), tokens_in n _ (by decide) (by decide) (by decide),
        hopen, hclose, hvalueIn]
      have := Condition.group (.choice (.among (.qualified (tagAlias n) "value")
        (params_holes hps k)))
      simpa only [List.cons_append, List.append_assoc, List.nil_append] using this
    · have hps : hs.map PgParam.bytea ≠ [] := by simpa using hh
      have hps' : vs.map (fun v => PgParam.bytea (some v)) ≠ [] := by simpa using hv
      simp only [TagTest.pieces, Option.map_some, Option.toList_some, Template.join,
        List.cons_append, List.nil_append, Template.numbered_lit_cons, Template.numbered_append,
        Template.numbered_nil, String.append_empty, String.append_assoc]
      rw [tokens_append_of_closes (by decide),
        tokens_in n _ (by decide) (by decide) (opens_append (by decide)),
        tokens_append_of_closes (by decide), tokens_in n _ (by decide) (by decide) (by decide),
        hopen, hclose, hor, hvalueIn, hhexIn]
      have := fun k' => Condition.group (@Condition.or [] [] _ _
        (.among (.qualified (tagAlias n) "value") (params_holes hps' k))
        (.choice (.among (.qualified (tagAlias n) "value_hex") (params_holes hps k'))))
      simpa only [List.cons_append, List.append_assoc, List.nil_append] using this _

theorem tokens_table (test : TagTest) (s : String) :
    tokens (" JOIN " ++ (test.table ++ (" " ++ s))) =
      .keyword "JOIN" :: .name "tag" :: tokens s := by
  obtain ⟨-, -, -, -, -, -, -, htag, hquoted, -⟩ := tokens_literals
  have hassoc : " JOIN " ++ (test.table ++ (" " ++ s)) = (" JOIN " ++ test.table ++ " ") ++ s := by
    simp only [String.append_assoc]
  cases test with
  | among _ _ =>
    rw [hassoc, tokens_append_of_closes (closes_append (by decide))]
    exact congrArg (· ++ tokens s) htag
  | value _ =>
    rw [hassoc, tokens_append_of_closes (closes_append (by decide))]
    exact congrArg (· ++ tokens s) hquoted
  | valueHex _ =>
    rw [hassoc, tokens_append_of_closes (closes_append (by decide))]
    exact congrArg (· ++ tokens s) hquoted

/-- A join is part of a statement and names its table. -/
theorem part_join {j : TagJoin} (h : j.test.Filled) (n k : Nat) :
    Part ["tag"] (tokens (Template.numbered k (j.pieces n))) := by
  obtain ⟨-, -, -, -, -, -, -, -, -, hon, hid, hname, hand⟩ := tokens_literals
  have hpart := @Part.join _ "tag" (tagAlias n) (@Condition.and [] [] _ _
    (.compare (.qualified "e" "id") .eq (.column (tagAlias n) "event_id"))
    (@Condition.and [] [] _ _
      (.compare (.qualified (tagAlias n) "name") .eq (.param (toString (k + 1))))
      (.conjunction (condition_test h n (k + 1)))))
  simp only [TagJoin.pieces, List.cons_append, List.nil_append, Template.numbered_lit_cons,
    Template.numbered_hole_cons, String.append_assoc]
  rw [tokens_table, tokens_tagAlias_append n (opens_append (by decide)),
    tokens_append_of_closes (by decide), tokens_tagAlias_append n (opens_append (by decide)),
    tokens_append_of_closes (by decide), tokens_tagAlias_append n (opens_append (by decide)),
    tokens_append_of_closes (by decide), tokens_hole_append _ (opens_append (by decide)),
    tokens_append_of_closes (by decide), hon, hid, hname, hand]
  simpa only [List.cons_append, List.nil_append, List.append_assoc] using hpart

/-! ## The statement -/

/-- A text and the joins after it. -/
theorem tokens_joins (s : String) (js : List TagJoin) (n k : Nat) :
    tokens (s ++ Template.numbered k (joinPieces n js)) =
      tokens s ++ tokens (Template.numbered k (joinPieces n js)) := by
  cases js with
  | nil => simp [joinPieces, tokens]
  | cons j js =>
    refine tokens_append_of_opens ?_
    simp only [joinPieces, TagJoin.pieces, List.cons_append, Template.numbered_lit_cons,
      String.append_assoc]
    exact opens_append (by decide)

theorem part_joins {js : List TagJoin} (h : ∀ j ∈ js, j.test.Filled) {tabs : List String}
    {s : String} (hs : Part tabs (tokens s)) (n k : Nat) :
    Part (tabs ++ js.map fun _ => "tag")
      (tokens (s ++ Template.numbered k (joinPieces n js))) := by
  induction js generalizing s tabs n k with
  | nil => simpa [joinPieces] using hs
  | cons j js ih =>
    obtain ⟨hj, hjs⟩ := List.forall_mem_cons.mp h
    have hone : Part (tabs ++ ["tag"]) (tokens (s ++ Template.numbered k (j.pieces n))) := by
      have := tokens_joins s [j] n k
      rw [joinPieces, joinPieces, List.append_nil] at this
      rw [this]
      exact hs.append (part_join hj n k)
    have := ih hjs hone (n + 1) (k + (Template.params (j.pieces n)).length)
    rw [joinPieces, Template.numbered_append, ← String.append_assoc]
    simpa only [List.map_cons, List.append_assoc, List.singleton_append] using this

theorem tokens_select_literals :
    tokens "SELECT e.\"content\", e.created_at FROM \"event\" e" =
      [.keyword "SELECT", .name "e", .symbol '.', .name "content", .symbol ',', .name "e",
        .symbol '.', .name "created_at", .keyword "FROM", .name "event", .name "e"] ∧
    tokens " WHERE " = [.keyword "WHERE"] ∧
    tokens " ORDER BY e.created_at DESC LIMIT " = [.keyword "ORDER", .keyword "BY", .name "e",
      .symbol '.', .name "created_at", .keyword "DESC", .keyword "LIMIT"] ∧
    tokens " ORDER BY e.created_at ASC LIMIT " = [.keyword "ORDER", .keyword "BY", .name "e",
      .symbol '.', .name "created_at", .keyword "ASC", .keyword "LIMIT"] := by
  decide +kernel

theorem part_select :
    Part ["event"] (tokens "SELECT e.\"content\", e.created_at FROM \"event\" e") := by
  rw [tokens_select_literals.1]
  exact ⟨⟨_, _, rfl⟩, fun n => rfl, rfl, rfl, fun prev => rfl, by decide⟩

theorem part_order (q : Query) : opens q.order = true ∧
    ∃ rest, tokens q.order = .keyword "ORDER" :: rest ∧ Part [] (.keyword "ORDER" :: rest) := by
  obtain ⟨-, -, hdesc, hasc⟩ := tokens_select_literals
  have hpart : ∀ dir n : String, dir ≠ "WHERE" → dir ≠ "FROM" → dir ≠ "JOIN" →
      Part [] [.keyword "ORDER", .keyword "BY", .name "e", .symbol '.', .name "created_at",
        .keyword dir, .keyword "LIMIT", .number n] := by
    intro dir n hwhere hfrom hjoin
    refine ⟨⟨_, _, rfl⟩, fun m => rfl, by simp [emptyIn], ?_, fun prev => rfl, ?_⟩
    · simp [tables, hfrom, hjoin]
    · simp [hwhere.symm]
  rw [Query.order]
  rcases q.limit with _ | lim
  · refine ⟨opens_append (by decide), _, ?_,
      hpart "ASC" (toString 1000) (by decide) (by decide) (by decide)⟩
    rw [tokens_append_of_closes (by decide), hasc, tokens_toString]
    rfl
  · refine ⟨opens_append (by decide), _, ?_,
      hpart "DESC" (toString (min lim 1000)) (by decide) (by decide) (by decide)⟩
    rw [tokens_append_of_closes (by decide), hdesc, tokens_toString]
    rfl

namespace Query

/-- The lists of a query, all with something in them. -/
structure Filled (q : Query) : Prop where
  joins : ∀ j ∈ q.joins, j.test.Filled
  authors : q.authors ≠ some []
  kinds : q.kinds ≠ some []
  ids : q.ids ≠ some []

variable {q : Query}

/-- An optional clause and its columns. -/
theorem forall₂_clause {α : Type} {o : Option α} {clause : α → List (Piece PgParam)}
    {cols : List String}
    (h : ∀ a ∈ o, ∀ k, Condition .test cols (tokens (Template.numbered k (clause a)))) :
    List.Forall₂ (fun c cols => ∀ k, Condition .test cols (tokens (Template.numbered k c)))
      (o.map clause).toList (o.map fun _ => cols).toList := by
  cases o with
  | none => exact .nil
  | some a => exact .cons (h a rfl) .nil

/-- The conditions have a column without a table if the query has ids. -/
theorem condition_clauses (h : q.Filled) (k : Nat) :
    Condition .conjunction (q.ids.elim [] fun _ => ["id"])
      (tokens (Template.numbered k (Template.join " AND " (q.clauses ++
        [[.lit "e.hidden != 1::bit(1)"],
          [.lit "(e.expires_at IS NULL OR e.expires_at > now())"]])))) := by
  have hcols : (q.ids.elim [] fun _ => ["id"]) =
      (((q.authors.map fun _ => []).toList ++ (q.kinds.map fun _ => []).toList ++
        (q.ids.map fun _ => ["id"]).toList ++ (q.since.map fun _ => []).toList ++
          (q.until_.map fun _ => []).toList) ++ [[], []]).flatten := by
    cases q.authors <;> cases q.kinds <;> cases q.ids <;> cases q.since <;> cases q.until_ <;> rfl
  rw [hcols]
  refine condition_join k (List.rel_append (List.rel_append (List.rel_append (List.rel_append
    (List.rel_append ?_ ?_) ?_) ?_) ?_) ?_) (by simp)
  · exact forall₂_clause fun l hl k => condition_authors k fun hnil => h.authors (hnil ▸ hl)
  · exact forall₂_clause fun l hl k => condition_kinds k fun hnil => h.kinds (hnil ▸ hl)
  · exact forall₂_clause fun l hl k => condition_ids k fun hnil => h.ids (hnil ▸ hl)
  · exact forall₂_clause fun t _ k => condition_since k t
  · exact forall₂_clause fun t _ k => condition_until k t
  · exact .cons condition_hidden (.cons condition_expires .nil)

/-- **A query without empty lists** is well formed if it has no ids next to joins. -/
theorem wellFormed_iff_of_filled (h : q.Filled) :
    WellFormed columnsOf q.sql ↔ (q.ids.isSome = true → q.joins = []) := by
  obtain ⟨hopens, order, horder, hpart⟩ := part_order q
  obtain ⟨k, hsql⟩ : ∃ k, tokens q.sql =
      tokens ("SELECT e.\"content\", e.created_at FROM \"event\" e" ++
        Template.numbered 0 (joinPieces 1 q.joins)) ++ .keyword "WHERE" ::
          (tokens (Template.numbered k (Template.join " AND " (q.clauses ++
            [[.lit "e.hidden != 1::bit(1)"],
              [.lit "(e.expires_at IS NULL OR e.expires_at > now())"]]))) ++
            .keyword "ORDER" :: order) := by
    refine ⟨0 + (Template.params (joinPieces 1 q.joins)).length, ?_⟩
    simp only [sql, pieces, List.cons_append, Template.numbered_lit_cons, Template.numbered_append,
      Template.numbered_nil, String.append_empty, List.append_assoc]
    rw [← String.append_assoc, tokens_append_of_opens (opens_append (by decide)),
      @tokens_append_of_closes " WHERE " _ (by decide), tokens_append_of_opens hopens, horder,
      tokens_select_literals.2.1]
    rfl
  rw [SqlText.wellFormed_iff hsql (part_joins h.joins part_select 1 0) (condition_clauses h k) hpart]
  cases hids : q.ids with
  | none => simp
  | some l =>
    simp only [Option.elim_some, List.mem_singleton, forall_eq, Option.isSome_some, forall_const]
    cases q.joins with
    | nil => exact iff_of_true (by decide) rfl
    | cons j js =>
      refine iff_of_false ?_ (List.cons_ne_nil _ _)
      simp [columnsOf]

/-- A list of hex values without values is written out. -/
def HasEmptyList (text : String) : Prop :=
  ∃ before after, text = before ++ (".\"value_hex\" in (" ++ ("))" ++ after))

theorem HasEmptyList.append_left {t : String} (h : HasEmptyList t) (s : String) :
    HasEmptyList (s ++ t) := by
  obtain ⟨before, after, rfl⟩ := h
  exact ⟨s ++ before, after, (String.append_assoc ..).symm⟩

theorem HasEmptyList.append_right {s : String} (h : HasEmptyList s) (t : String) :
    HasEmptyList (s ++ t) := by
  obtain ⟨before, after, rfl⟩ := h
  exact ⟨before, after ++ t, by simp only [String.append_assoc]⟩

/-- A join with an empty list shows it. -/
theorem hasEmptyList_join {j : TagJoin} {values : Option (List Bytes)}
    (hempty : j.test = .among values (some [])) (n k : Nat) :
    HasEmptyList (Template.numbered k (j.pieces n)) := by
  have hlist : ∀ k, HasEmptyList (Template.numbered k
      (.lit (tagAlias n ++ ".\"value_hex\" in (") :: holes [] ++ [.lit "))"])) := fun k => by
    refine ⟨tagAlias n, "", ?_⟩
    simp [holes, Template.join, String.append_assoc]
  rw [TagJoin.pieces, Template.numbered_append, hempty, TagTest.pieces, List.cons_append,
    Template.numbered_lit_cons]
  refine .append_left (.append_left ?_ "(") _
  cases values with
  | none => exact hlist _
  | some vs =>
    simp only [Option.map_some, Option.toList_some, List.singleton_append, Template.join,
      List.append_assoc]
    rw [Template.numbered_append, List.cons_append, Template.numbered_lit_cons]
    exact .append_left (.append_left (hlist _) _) _

theorem hasEmptyList_joins {js : List TagJoin} {j : TagJoin} (hj : j ∈ js)
    {values : Option (List Bytes)} (hempty : j.test = .among values (some [])) (n k : Nat) :
    HasEmptyList (Template.numbered k (joinPieces n js)) := by
  induction js generalizing n k with
  | nil => cases hj
  | cons j' js ih =>
    rw [joinPieces, Template.numbered_append]
    rcases List.mem_cons.mp hj with rfl | hj
    · exact (hasEmptyList_join hempty n k).append_right _
    · exact (ih hj _ _).append_left _

/-- Such a list is no well-formed one. -/
theorem not_wellFormed_of_empty {j : TagJoin} (hj : j ∈ q.joins)
    {values : Option (List Bytes)} (hempty : j.test = .among values (some [])) :
    ¬ WellFormed columnsOf q.sql := by
  have hsql : HasEmptyList q.sql := by
    rw [sql, pieces, List.append_assoc, List.cons_append, Template.numbered_lit_cons,
      Template.numbered_append]
    exact ((hasEmptyList_joins hj hempty 1 0).append_right _).append_left _
  obtain ⟨before, after, hsql⟩ := hsql
  obtain ⟨-, -, -, hhexIn, -, hclose, -⟩ := tokens_literals
  intro h
  have hlists := h.lists
  rw [hsql, tokens_append_of_opens (opens_append (by decide)), tokens_append_of_closes (by decide),
    tokens_append_of_closes (by decide), hhexIn, hclose] at hlists
  have hempty := @emptyIn_of_empty (tokens before ++ [.symbol '.', .name "value_hex"])
    (.symbol ')' :: tokens after)
  simp only [List.append_assoc, List.cons_append, List.nil_append] at hempty hlists
  rw [hempty] at hlists
  cases hlists

end Query

/-! ## The generator

What the scan finds in the statement comes from the filter: an ambiguous column from ids together
with tags, an empty list from a condition whose hex values are all of odd length. -/

section Generator

variable {strings : IterOrder String} {f : ReqFilter}

/-- The results of a list are those of its elements. -/
theorem mem_of_mapM {α β : Type} {g : α → Option β} {l : List α} {r : List β}
    (h : l.mapM g = some r) :
    (∀ a ∈ l, ∃ b ∈ r, g a = some b) ∧ ∀ b ∈ r, ∃ a ∈ l, g a = some b := by
  induction l generalizing r with
  | nil =>
    cases h
    exact ⟨fun _ ha => absurd ha List.not_mem_nil, fun _ hb => absurd hb List.not_mem_nil⟩
  | cons a l ih =>
    simp only [List.mapM_cons, Option.bind_eq_bind, Option.bind_eq_some_iff, Option.pure_def,
      Option.some.injEq] at h
    obtain ⟨b, hb, r', hr', rfl⟩ := h
    obtain ⟨hleft, hright⟩ := ih hr'
    refine ⟨fun x hx => ?_, fun y hy => ?_⟩
    · rcases List.mem_cons.mp hx with rfl | hx
      · exact ⟨b, List.mem_cons_self, hb⟩
      · obtain ⟨y, hy, hxy⟩ := hleft x hx
        exact ⟨y, List.mem_cons_of_mem _ hy, hxy⟩
    · rcases List.mem_cons.mp hy with rfl | hy
      · exact ⟨a, List.mem_cons_self, hb⟩
      · obtain ⟨x, hx, hxy⟩ := hright y hy
        exact ⟨x, List.mem_cons_of_mem _ hx, hxy⟩

/-- The conditions of a filter, with their letters. -/
def conditions (f : ReqFilter) : Finmap fun _ : Char => TagOperand := f.tags.getD ∅

/-- A filter has joins if each of its conditions has. -/
theorem joins_of_condition {joins : List TagJoin} (h : tagJoins strings f = some joins) {c : Char}
    {op : TagOperand} (hop : (conditions f).lookup c = some op) :
    ∃ js, operandJoins strings c op = some js ∧ ∀ j ∈ js, j ∈ joins := by
  rw [tagJoins] at h
  rcases hmap : f.tags with _ | map
  · rw [conditions, hmap] at hop
    cases hop
  · rw [conditions, hmap, Option.getD_some] at hop
    simp only [hmap, Option.bind_eq_bind, Option.bind_eq_some_iff, Option.pure_def,
      Option.some.injEq] at h
    obtain ⟨r, hr, rfl⟩ := h
    have hkey : c ∈ map.keys.sort (· ≤ ·) := by
      rw [Finset.mem_sort, Finmap.mem_keys, ← Finmap.lookup_isSome, hop]
      rfl
    obtain ⟨js, hjs, hc⟩ := (mem_of_mapM hr).1 c hkey
    rw [hop, Option.bind_some] at hc
    exact ⟨js, hc, fun j hj => List.mem_flatten.mpr ⟨js, hjs, hj⟩⟩

/-- A join comes from a condition of the filter. -/
theorem condition_of_join {joins : List TagJoin} (h : tagJoins strings f = some joins)
    {j : TagJoin} (hj : j ∈ joins) : ∃ c op js, (conditions f).lookup c = some op ∧
      operandJoins strings c op = some js ∧ j ∈ js := by
  rw [tagJoins] at h
  rcases hmap : f.tags with _ | map
  · simp only [hmap, Option.some.injEq] at h
    rw [← h] at hj
    cases hj
  · simp only [hmap, Option.bind_eq_bind, Option.bind_eq_some_iff, Option.pure_def,
      Option.some.injEq] at h
    obtain ⟨r, hr, rfl⟩ := h
    obtain ⟨js, hjs, hj⟩ := List.mem_flatten.mp hj
    obtain ⟨c, -, hc⟩ := (mem_of_mapM hr).2 js hjs
    obtain ⟨op, hop, hc⟩ := Option.bind_eq_some_iff.mp hc
    exact ⟨c, op, js, by rw [conditions, hmap, Option.getD_some, hop], hc, hj⟩

/-- If there are values in lower-case hex, there is one of even length. -/
def HexPaired (v : Finset String) : Prop :=
  (∃ x ∈ v, isLowerHex x = true) → ∃ x ∈ v, isLowerHex x = true ∧ byteLen x % 2 = 0

/-- A part of an any-of condition is there without values. -/
theorem part_eq_empty {p listed : String → Bool} {β : Type} (param : String → β)
    (l : List String) :
    (if l.any p then some ((l.filter listed).map param) else none) = some [] ↔
      (∃ x ∈ l, p x = true) ∧ ∀ x ∈ l, ¬ listed x = true := by
  rw [← List.any_eq_true]
  split_ifs with h
  · simp [h, List.filter_eq_nil_iff]
  · simp [h]

/-- The text values of a condition are listed if there are any, and the hex values only if one of
them has even length. -/
theorem orJoin_test (strings : IterOrder String) (c : Char) {v : Finset String} (hv : v ≠ ∅) :
    ∃ values hexes, (orJoin strings c v).test = .among values hexes ∧ values ≠ some [] ∧
      (values = none → hexes ≠ none) ∧ (hexes = some [] ↔ ¬ HexPaired v) := by
  refine ⟨_, _, rfl, fun hnil => ?_, fun hnone => ?_, (part_eq_empty _ _).trans ?_⟩
  · obtain ⟨⟨x, hx, hplain⟩, hlisted⟩ := (part_eq_empty _ _).mp hnil
    exact hlisted x hx hplain
  · rcases Statement.any_values strings hv with hany | hany
    · rw [if_pos hany] at hnone
      cases hnone
    · rw [if_pos hany]
      exact Option.some_ne_none _
  · simp only [HexPaired, Classical.not_imp, IterOrder.mem_iter, Bool.and_eq_true, beq_iff_eq,
      not_exists, not_and]
    exact and_congr_right fun _ => forall₂_congr fun x _ => imp_not_comm

theorem operandJoins_ne_nil {c : Char} {op : TagOperand} {js : List TagJoin}
    (h : operandJoins strings c op = some js) : js ≠ [] := by
  by_cases hop : op.values = ∅
  · simp [operandJoins, hop] at h
  · cases op with
    | or v =>
      simp only [operandJoins, if_neg hop, Option.some.injEq] at h
      rw [← h]
      exact List.cons_ne_nil _ _
    | and v =>
      simp only [operandJoins, if_neg hop, Option.some.injEq] at h
      rw [← h, Ne, List.map_eq_nil_iff]
      intro hnil
      exact hop (by simpa [TagOperand.values] using congrArg List.toFinset hnil)

theorem filled_of_operandJoins {c : Char} {op : TagOperand} {js : List TagJoin}
    (h : operandJoins strings c op = some js) (hpaired : ∀ v, op = .or v → HexPaired v) :
    ∀ j ∈ js, j.test.Filled := by
  by_cases hop : op.values = ∅
  · simp [operandJoins, hop] at h
  · cases op with
    | or v =>
      simp only [operandJoins, if_neg hop, Option.some.injEq] at h
      have hv : v ≠ ∅ := hop
      obtain ⟨values, hexes, htest, hvalues, hsome, hempty⟩ := orJoin_test strings c hv
      rw [← h]
      intro j hj
      rw [List.mem_singleton.mp hj, htest]
      exact ⟨hvalues, fun hnil => hempty.mp hnil (hpaired v rfl), hsome⟩
    | and v =>
      simp only [operandJoins, if_neg hop, Option.some.injEq] at h
      rw [← h]
      intro j hj
      obtain ⟨x, -, rfl⟩ := List.mem_map.mp hj
      rw [andJoin]
      split_ifs <;> trivial

/-- The lists of ids, authors and kinds are never empty. -/
theorem ne_empty_of_mapM {α β : Type} {read : α → Option (List β)} {o : Option α}
    {r : Option (List β)} (hread : ∀ a, read a ≠ some []) (h : o.mapM read = some r) :
    r ≠ some [] := by
  rintro rfl
  cases o with
  | none => cases h
  | some a =>
    simp only [Option.mapM_some, Option.map_eq_map, Option.map_eq_some_iff] at h
    obtain ⟨l, hl, heq⟩ := h
    cases heq
    exact hread a hl

theorem hexBlobs_ne_nil (l : List String) : hexBlobs l ≠ some [] := by
  simp only [hexBlobs]
  split_ifs with h
  · exact fun h => by cases h
  · rw [Ne, Option.some.injEq, List.map_eq_nil_iff]
    exact fun hnil => h (by rw [hnil]; rfl)

theorem kindValues_ne_nil (ks : List Nat) : kindValues ks ≠ some [] := by
  rw [kindValues]
  split_ifs with h
  · exact fun h => by cases h
  · rw [Ne, Option.some.injEq, List.map_eq_nil_iff]
    exact fun hnil => h (by rw [hnil]; rfl)

theorem isSome_of_mapM {α β : Type} {read : α → Option β} {o : Option α} {r : Option β}
    (h : o.mapM read = some r) : r.isSome = o.isSome := by
  cases o with
  | none =>
    cases h
    rfl
  | some a =>
    simp only [Option.mapM_some, Option.map_eq_map, Option.map_eq_some_iff] at h
    obtain ⟨l, -, rfl⟩ := h
    rfl

/-- The statement of a filter, by its conditions. -/
theorem wellFormed_iff_of_generates {q : Query} (hg : Generates strings f q) :
    WellFormed columnsOf q.sql ↔
      (f.ids.isSome = true → conditions f = ∅) ∧
        ∀ c v, (conditions f).lookup c = some (.or v) → HexPaired v := by
  by_cases hpaired : ∀ c v, (conditions f).lookup c = some (.or v) → HexPaired v
  · have hfilled : q.Filled := by
      refine ⟨fun j hj => ?_, ne_empty_of_mapM hexBlobs_ne_nil hg.authors,
        ne_empty_of_mapM kindValues_ne_nil hg.kinds, ne_empty_of_mapM hexBlobs_ne_nil hg.ids⟩
      obtain ⟨c, op, js, hop, hjs, hj⟩ := condition_of_join hg.joins hj
      exact filled_of_operandJoins hjs (fun v hv => hpaired c v (hv ▸ hop)) j hj
    rw [Query.wellFormed_iff_of_filled hfilled, isSome_of_mapM hg.ids]
    refine ⟨fun h => ⟨fun hids => ?_, hpaired⟩, fun h hids => ?_⟩
    · refine Finmap.ext_lookup fun c => ?_
      rw [Finmap.lookup_empty]
      by_contra hne
      obtain ⟨op, hop⟩ := Option.ne_none_iff_exists'.mp hne
      obtain ⟨js, hjs, hmem⟩ := joins_of_condition hg.joins hop
      obtain ⟨j, hj⟩ := List.exists_mem_of_ne_nil _ (operandJoins_ne_nil hjs)
      have := hmem j hj
      rw [h hids] at this
      cases this
    · refine List.eq_nil_iff_forall_not_mem.mpr fun j hj => ?_
      obtain ⟨c, op, js, hop, -, -⟩ := condition_of_join hg.joins hj
      rw [h.1 hids, Finmap.lookup_empty] at hop
      cases hop
  · push Not at hpaired
    obtain ⟨c, v, hop, hv⟩ := hpaired
    refine iff_of_false ?_ fun h => hv (h.2 c v hop)
    obtain ⟨js, hjs, hmem⟩ := joins_of_condition hg.joins hop
    have hne : v ≠ ∅ := by
      rintro rfl
      exact hv fun ⟨x, hx, _⟩ => absurd hx (Finset.notMem_empty x)
    have hop : (TagOperand.or v).values ≠ ∅ := hne
    simp only [operandJoins, if_neg hop, Option.some.injEq] at hjs
    obtain ⟨values, hexes, htest, -, -, hempty⟩ := orJoin_test strings c hne
    rw [hempty.mpr hv] at htest
    exact Query.not_wellFormed_of_empty (hmem _ (hjs ▸ List.mem_singleton_self _)) htest

/-- **Which statements are well formed.** When the generator writes a statement for a filter, it is
well formed exactly if the filter does not have both ids and tag conditions, and no any-of condition
whose lower-case hex values all have odd length. -/
theorem statement_wellFormed_iff (strings : IterOrder String) (f : ReqFilter)
    {b : Statement.QueryBuilder} (h : Statement.queryFromFilter strings f = .ok (some b)) :
    WellFormed columnsOf b.sql ↔
      (f.ids.isSome = true → conditions f = ∅) ∧
        ∀ c v, (conditions f).lookup c = some (.or v) → HexPaired v := by
  rw [Statement.queryFromFilter_eq] at h
  obtain ⟨q, hq, rfl⟩ : ∃ q, Postgres.queryFromFilter strings f = .ok (some q) ∧
      b = ⟨q.sql, Template.params q.pieces⟩ := by
    rcases hf : Postgres.queryFromFilter strings f with o | e | _
    · rw [hf] at h
      cases o with
      | none => cases h
      | some q =>
        cases h
        exact ⟨q, rfl, rfl⟩
    · rw [hf] at h
      cases h
    · rw [hf] at h
      cases h
  exact wellFormed_iff_of_generates (generates_of_query hq)

/-- The statement is that of the query. -/
theorem statement_of_query {q : Query} (h : queryFromFilter strings f = .ok (some q)) :
    Statement.queryFromFilter strings f = .ok (some ⟨q.sql, Template.params q.pieces⟩) := by
  rw [Statement.queryFromFilter_eq, h]
  rfl

end Generator

theorem hexPaired_singleton {x : String} :
    HexPaired {x} ↔ (isLowerHex x = true → byteLen x % 2 = 0) := by
  simp only [HexPaired, Finset.mem_singleton, exists_eq_left]
  exact ⟨fun h hx => (h hx).2, fun h hx => ⟨hx, h hx⟩⟩

theorem eq_of_lookup_singleton {c c' : Char} {op op' : TagOperand}
    (h : (Finmap.singleton c op : Finmap fun _ : Char => TagOperand).lookup c' = some op') :
    c' = c ∧ op' = op := by
  have hmem : c' ∈ (Finmap.singleton c op : Finmap fun _ : Char => TagOperand) := by
    rw [← Finmap.lookup_isSome, h]
    rfl
  obtain rfl := (Finmap.mem_singleton c' c op).mp hmem
  rw [Finmap.lookup_singleton_eq, Option.some.injEq] at h
  exact ⟨rfl, h.symm⟩

/-- The filter of a topic has a well-formed statement. -/
theorem sampleTopicFilter_wellFormed :
    ∃ b, Statement.queryFromFilter (ReqFilter.sampleOrder String) (onlyTag 't' (.or {"grin"})) =
      .ok (some b) ∧ WellFormed columnsOf b.sql := by
  have hb := statement_of_query (@query_onlyTag (ReqFilter.sampleOrder String) 't'
    (.or {"grin"}) _ rfl)
  refine ⟨_, hb, (statement_wellFormed_iff _ _ hb).mpr ⟨fun h => (by cases h), fun c v hv => ?_⟩⟩
  obtain ⟨-, heq⟩ := eq_of_lookup_singleton hv
  cases heq
  exact hexPaired_singleton.mpr (by decide)

/-- One event, if it refers to another. -/
def sampleThreadFilter : ReqFilter :=
  { onlyTag 'e' (.or {"752931f1ab2c337318d58422f66950f0a8fc39bc355723de1767923b20d64089"}) with
    ids := some ["000c23a95f413e918b1a6ba2140caff919427a7e08d30bd6510f1cc17e31ac81"] }

/-- The server does not know which `id` is meant, and `IN ()` is no list. -/
theorem sampleThreadFilter_malformed :
    ReqFilter.deserialize (.object
      [("ids", .array [.string "000c23a95f413e918b1a6ba2140caff919427a7e08d30bd6510f1cc17e31ac81"]),
        ("#e", .array
          [.string "752931f1ab2c337318d58422f66950f0a8fc39bc355723de1767923b20d64089"])]) =
      .ok sampleThreadFilter ∧
    (∃ b, Statement.queryFromFilter (ReqFilter.sampleOrder String) sampleThreadFilter =
      .ok (some b) ∧ ¬ WellFormed columnsOf b.sql) ∧
    ReqFilter.deserialize (.object [("#t", .array [.string "1f0"])]) =
      .ok (onlyTag 't' (.or {"1f0"})) ∧
    ∃ b, Statement.queryFromFilter (ReqFilter.sampleOrder String) (onlyTag 't' (.or {"1f0"})) =
      .ok (some b) ∧ ¬ WellFormed columnsOf b.sql := by
  refine ⟨rfl, ?_, rfl, ?_⟩
  · obtain ⟨q, hq⟩ : ∃ q, queryFromFilter (ReqFilter.sampleOrder String) sampleThreadFilter =
        .ok (some q) := by
      rw [queryFromFilter, lists, tagJoins_singleton rfl]
      exact ⟨_, rfl⟩
    refine ⟨_, statement_of_query hq, fun h => ?_⟩
    have hnone := ((wellFormed_iff_of_generates (generates_of_query hq)).mp h).1 rfl
    have hlookup := congrArg (Finmap.lookup 'e') hnone
    cases hlookup
  · have hq := @query_onlyTag (ReqFilter.sampleOrder String) 't' (.or {"1f0"}) _ rfl
    refine ⟨_, statement_of_query hq, fun h => ?_⟩
    have hpaired := ((wellFormed_iff_of_generates (generates_of_query hq)).mp h).2 't' {"1f0"} rfl
    exact absurd (hexPaired_singleton.mp hpaired) (by decide)

end Floonet.Postgres
