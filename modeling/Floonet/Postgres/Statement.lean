import Floonet.Lib.Template
import Floonet.Postgres.Query

/-!
# The text of a stored query on Postgres

`query_from_filter` pushes texts and parameters to one `QueryBuilder`, with a flag that says
whether a clause has to be set off from one before it. `Statement.queryFromFilter` follows it push
by push. `Statement.queryFromFilter_eq` says that it writes the `Query` of the filter: the text is
that of the template `Query.pieces`, with numbers for the holes, and the parameters are those of
the holes.
-/

namespace Floonet.Postgres

open Hex (Bytes)
open Template (Piece)

/-- What is bound. -/
inductive PgParam where
  | text (s : String)
  | bytea (b : Option Bytes)
  | int8 (i : Int)
  | timestamptz (t : Int)

namespace Statement

/-- `sqlx::QueryBuilder`. -/
structure QueryBuilder where
  sql : String
  arguments : List PgParam

namespace QueryBuilder

variable (b : QueryBuilder)

/-- The text grows. -/
def push (s : String) : QueryBuilder := { b with sql := b.sql ++ s }

/-- The argument, and its number as placeholder. -/
def pushBind (p : PgParam) : QueryBuilder where
  sql := b.sql ++ ("$" ++ toString (b.arguments.length + 1))
  arguments := b.arguments ++ [p]

/-- `separated(sep)` and a `push_bind` for each of the parameters. -/
def separated (sep : String) : List PgParam → QueryBuilder
  | [] => b
  | p :: ps => ps.foldl (fun b p => (b.push sep).pushBind p) (b.pushBind p)

end QueryBuilder

/-- `t{0}` for the counter. -/
def tagAlias (tagCtr : Nat) : String := "t" ++ toString tagCtr

section Generate

variable (strings : IterOrder String) (f : ReqFilter)

/-- The join of an any-of condition. -/
def pushOr (query : QueryBuilder) (tagCtr : Nat) (key : Char) (v : Finset String) :
    QueryBuilder :=
  let values := strings.iter v
  let hasPlainValues := values.any fun x => !isLowerHex x
  let hasHexValues := values.any isLowerHex
  let t := tagAlias tagCtr
  let query := query.push (" JOIN tag " ++ t ++ " on e.id = " ++ t ++ ".event_id AND " ++ t ++
    ".\"name\" = ")
  let query := query.pushBind (.text (String.singleton key))
  let query := query.push " AND ("
  let query :=
    if hasPlainValues then
      (query.push (t ++ ".\"value\" in (")).separated ", "
        ((values.filter fun x => !isLowerHex x).map fun x => .bytea (some (asBytes x)))
    else query
  let query := if hasPlainValues && hasHexValues then query.push ") OR " else query
  let query :=
    if hasHexValues then
      (query.push (t ++ ".\"value_hex\" in (")).separated ", "
        ((values.filter fun x => byteLen x % 2 == 0 && isLowerHex x).map
          fun x => .bytea (Hex.decode x))
    else query
  query.push "))"

/-- The join of one value of an all-of condition. -/
def pushAnd (query : QueryBuilder) (tagCtr : Nat) (key : Char) (x : String) : QueryBuilder :=
  let t := tagAlias tagCtr
  let query := query.push (" JOIN \"tag\" " ++ t ++ " on e.id = " ++ t ++ ".event_id AND " ++ t ++
    ".\"name\" = ")
  let query := query.pushBind (.text (String.singleton key))
  let query := query.push " AND "
  if !isLowerHex x then
    (query.push (t ++ ".\"value\" = ")).pushBind (.bytea (some (asBytes x)))
  else
    (query.push (t ++ ".\"value_hex\" = ")).pushBind (.bytea (Hex.decode x))

/-- One turn of the loop over the tag conditions, with the counter. -/
def pushTag (b : QueryBuilder × Nat) (key : Char) (val : TagOperand) :
    Option (QueryBuilder × Nat) :=
  if val.values = ∅ then none
  else
    match val with
    | .or v => some (pushOr strings b.1 b.2 key v, b.2 + 1)
    | .and v =>
      some ((v.sort (· ≤ ·)).foldl (fun b x => (pushAnd b.1 b.2 key x, b.2 + 1)) b)

/-- The loop over the tag conditions, sorted by key. -/
def pushTags (query : QueryBuilder) : Option QueryBuilder :=
  match f.tags with
  | some map => do
    let b ← (map.keys.sort (· ≤ ·)).foldlM (fun b key =>
      (map.lookup key).bind fun val => pushTag strings b key val) (query, 1)
    pure b.1
  | none => some query

/-- A builder, and whether it has a clause already. -/
abbrev Clauses : Type := QueryBuilder × Bool

/-- `AND`, if there is something before it. -/
def setOff (b : Clauses) : QueryBuilder := if b.2 then b.1.push " AND " else b.1

/-- Hex text as a parameter. -/
def bytes (hexes : List String) : List PgParam := hexes.map fun h => .bytea (Hex.decode h)

/-- The condition on the authors, or nothing if none is hex. -/
def pushAuthors (b : Clauses) (authors : List String) : Option Clauses :=
  -- filter out non-hex values
  let authVec := authors.filter isHex
  if authVec.isEmpty then none
  else
    let query := (b.1.push "(e.pub_key in (").separated ", " (bytes authVec)
    let query := (query.push ") OR e.delegated_by in (").separated ", " (bytes authVec)
    some (query.push "))", true)

/-- The condition on the kinds, or nothing if there are none. -/
def pushKinds (b : Clauses) (ks : List Nat) : Option Clauses :=
  if ks.isEmpty then none
  else
    let query := ((setOff b).push "e.kind in (").separated ", " (ks.map fun k => .int8 (asI64 k))
    some (query.push ")", true)

/-- The condition on the ids, or nothing if none is hex. -/
def pushIds (b : Clauses) (ids : List String) : Option Clauses :=
  -- filter out non-hex values
  let idVec := ids.filter isHex
  if idVec.isEmpty then none
  else
    let query := if b.2 then b.1.push " AND (" else b.1.push "("
    let query := (query.push "id in (").separated ", " (bytes idVec)
    some (query.push "))", true)

/-- The condition on a time. -/
def pushTime (clause : String) (b : Clauses) (t : Nat) : Outcome PgError Clauses := do
  let query := (setOff b).push clause
  let t ← timeParam t
  pure (query.pushBind (.timestamptz t), true)

/-- A part that is there or not. -/
def pushOpt {α : Type} {m : Type → Type} [Monad m] (push : Clauses → α → m Clauses) (o : Option α)
    (b : Clauses) : m Clauses :=
  match o with
  | some a => push b a
  | none => pure b

/-- The statement up to the times. -/
def pushLists : Option Clauses :=
  if f.forceNoMatch then none
  else do
    let query : QueryBuilder :=
      ⟨"SELECT e.\"content\", e.created_at FROM \"event\" e", []⟩
    let query ← pushTags strings f query
    let b : Clauses := (query.push " WHERE ", false)
    let b ← pushOpt pushAuthors f.authors b
    let b ← pushOpt pushKinds f.kinds b
    pushOpt pushIds f.ids b

/-- The clauses every statement has, its order and its limit. -/
def finish (b : Clauses) : QueryBuilder :=
  -- never display hidden events
  let query :=
    if b.2 then b.1.push " AND e.hidden != 1::bit(1)" else b.1.push "e.hidden != 1::bit(1)"
  -- never display expired events
  let query := query.push " AND (e.expires_at IS NULL OR e.expires_at > now())"
  match f.limit with
  | some lim => (query.push " ORDER BY e.created_at DESC LIMIT ").push (toString (min lim 1000))
  | none => (query.push " ORDER BY e.created_at ASC LIMIT ").push (toString 1000)

/-- `query_from_filter`, push by push. -/
def queryFromFilter : Outcome PgError (Option QueryBuilder) :=
  match pushLists strings f with
  | none => .ok none
  | some b => do
    let b ← pushOpt (pushTime "e.created_at >= ") f.since b
    let b ← pushOpt (pushTime "e.created_at <= ") f.until_ b
    pure (some (finish f b))

end Generate

end Statement

/-! ## The template of a query -/

/-- The places of a list of parameters. -/
def holes (ps : List PgParam) : List (Piece PgParam) :=
  Template.join ", " (ps.map fun p => [.hole p])

open Statement (tagAlias)

/-- The condition on the value columns. -/
def TagTest.pieces (t : String) : TagTest → List (Piece PgParam)
  | .among values hexes =>
    let plain := values.map fun vs =>
      .lit (t ++ ".\"value\" in (") :: holes (vs.map fun v => .bytea (some v))
    let hex := hexes.map fun vs => .lit (t ++ ".\"value_hex\" in (") :: holes (vs.map .bytea)
    .lit "(" :: Template.join ") OR " (plain.toList ++ hex.toList) ++ [.lit "))"]
  | .value v => [.lit (t ++ ".\"value\" = "), .hole (.bytea (some v))]
  | .valueHex v => [.lit (t ++ ".\"value_hex\" = "), .hole (.bytea v)]

/-- How the table is written. -/
def TagTest.table : TagTest → String
  | .among _ _ => "tag"
  | _ => "\"tag\""

/-- The join of one tag condition. -/
def TagJoin.pieces (j : TagJoin) (tagCtr : Nat) : List (Piece PgParam) :=
  let t := tagAlias tagCtr
  [.lit (" JOIN " ++ j.test.table ++ " " ++ t ++ " on e.id = " ++ t ++ ".event_id AND " ++ t ++
      ".\"name\" = "), .hole (.text j.name), .lit " AND "] ++ j.test.pieces t

/-- The joins, with the counter before the first. -/
def joinPieces : Nat → List TagJoin → List (Piece PgParam)
  | _, [] => []
  | n, j :: js => j.pieces n ++ joinPieces (n + 1) js

namespace Query

variable (q : Query)

/-- The authors, once for the author and once for the delegator. -/
def authorsClause (l : List (Option Bytes)) : List (Piece PgParam) :=
  .lit "(e.pub_key in (" :: holes (l.map .bytea) ++
    .lit ") OR e.delegated_by in (" :: holes (l.map .bytea) ++ [.lit "))"]

/-- The kinds. -/
def kindsClause (ks : List Int) : List (Piece PgParam) :=
  .lit "e.kind in (" :: holes (ks.map .int8) ++ [.lit ")"]

/-- The ids. The column has no alias in front. -/
def idsClause (l : List (Option Bytes)) : List (Piece PgParam) :=
  .lit "(id in (" :: holes (l.map .bytea) ++ [.lit "))"]

/-- The clauses before the last two. -/
def clauses : List (List (Piece PgParam)) :=
  (q.authors.map authorsClause).toList ++ (q.kinds.map kindsClause).toList ++
  (q.ids.map idsClause).toList ++
  (q.since.map fun t => [.lit "e.created_at >= ", .hole (.timestamptz t)]).toList ++
  (q.until_.map fun t => [.lit "e.created_at <= ", .hole (.timestamptz t)]).toList

/-- The order and the limit. -/
def order : String :=
  match q.limit with
  | some lim => " ORDER BY e.created_at DESC LIMIT " ++ toString (min lim 1000)
  | none => " ORDER BY e.created_at ASC LIMIT " ++ toString 1000

/-- The statement with its parameters in place. -/
def pieces : List (Piece PgParam) :=
  .lit "SELECT e.\"content\", e.created_at FROM \"event\" e" :: joinPieces 1 q.joins ++
    .lit " WHERE " :: Template.join " AND " (q.clauses ++
      [[.lit "e.hidden != 1::bit(1)"],
        [.lit "(e.expires_at IS NULL OR e.expires_at > now())"]]) ++
    [.lit q.order]

/-- The text that is sent. -/
def sql : String := Template.numbered 0 q.pieces

end Query

/-! ## The builder fills the template

The builder appends to a text and to a list of values at once. After every step the two are those
of a template, which is carried from clause to clause. -/

namespace Statement

namespace QueryBuilder

variable {b : QueryBuilder} {ps qs : List (Piece PgParam)}

/-- More of a template. -/
def add (b : QueryBuilder) (ps : List (Piece PgParam)) : QueryBuilder where
  sql := b.sql ++ Template.numbered b.arguments.length ps
  arguments := b.arguments ++ Template.params ps

@[simp] theorem add_nil : b.add [] = b := by
  simp [add]

@[simp] theorem add_add : (b.add ps).add qs = b.add (ps ++ qs) := by
  simp only [add, Template.numbered_append, Template.params_append, List.append_assoc,
    String.append_assoc, List.length_append]

theorem push_eq (s : String) : b.push s = b.add [.lit s] := by
  simp [push, add]

theorem pushBind_eq (p : PgParam) : b.pushBind p = b.add [.hole p] := by
  simp [pushBind, add]

theorem push_append (s t : String) : b.push (s ++ t) = (b.push s).push t := by
  simp [push, String.append_assoc]

theorem separated_eq (sep : String) (l : List PgParam) :
    b.separated sep l = b.add (Template.join sep (l.map fun p => [.hole p])) := by
  have hrest : ∀ (rest : List PgParam) (p : PgParam) (b : QueryBuilder),
      rest.foldl (fun b p => (b.push sep).pushBind p) (b.pushBind p) =
        b.add (Template.join sep ((p :: rest).map fun p => [.hole p])) := by
    intro rest
    induction rest with
    | nil => exact fun p b => pushBind_eq p
    | cons p' rest ih =>
      intro p b
      rw [List.foldl_cons, ih, pushBind_eq, push_eq, add_add, add_add]
      rfl
  cases l with
  | nil => rw [separated, List.map_nil, Template.join, add_nil]
  | cons p rest => exact hrest rest p b

end QueryBuilder

open QueryBuilder

variable {strings : IterOrder String} {f : ReqFilter} {b : QueryBuilder}

/-- A nonempty operand has values of one kind or of both. -/
theorem any_values (strings : IterOrder String) {v : Finset String} (hv : v ≠ ∅) :
    ((strings.iter v).any fun x => !isLowerHex x) = true ∨
      (strings.iter v).any isLowerHex = true := by
  obtain ⟨x, hx⟩ := Finset.nonempty_iff_ne_empty.mpr hv
  have hmem := strings.mem_iter.mpr hx
  rcases hhex : isLowerHex x with _ | _
  · exact .inl (List.any_eq_true.mpr ⟨x, hmem, by rw [hhex]; rfl⟩)
  · exact .inr (List.any_eq_true.mpr ⟨x, hmem, hhex⟩)

theorem push_and_open (b : QueryBuilder) : b.push " AND (" = (b.push " AND ").push "(" :=
  push_append " AND " "("

theorem pushOr_eq {key : Char} {v : Finset String} (n : Nat) (hv : v ≠ ∅) :
    pushOr strings b n key v = b.add ((orJoin strings key v).pieces n) := by
  rcases hplain : (strings.iter v).any (fun x => !isLowerHex x) with _ | _ <;>
    rcases hhex : (strings.iter v).any isLowerHex with _ | _
  · rcases any_values strings hv with h | h
    · rw [hplain] at h
      cases h
    · rw [hhex] at h
      cases h
  all_goals
    simp only [pushOr, push_and_open]
    simp only [orJoin, hplain, hhex, Bool.and_true, Bool.and_false,
      Bool.false_eq_true, if_true, if_false, push_eq, pushBind_eq, separated_eq, add_add,
      TagJoin.pieces, TagTest.pieces, TagTest.table, holes, Option.map_some, Option.map_none,
      Option.toList_some, Option.toList_none, List.nil_append, List.append_nil, List.cons_append,
      Template.join, List.map_map, List.append_assoc, Function.comp_def]
    rfl

/-- The join of one value of an all-of condition. -/
theorem pushAnd_eq {key : Char} {x : String} (n : Nat) :
    pushAnd b n key x = b.add ((andJoin key x).pieces n) := by
  rcases hx : isLowerHex x with _ | _ <;>
    simp [pushAnd, hx, push_eq, pushBind_eq, TagJoin.pieces, andJoin, TagTest.pieces, TagTest.table]

theorem joinPieces_append (n : Nat) (js ks : List TagJoin) :
    joinPieces n (js ++ ks) = joinPieces n js ++ joinPieces (n + js.length) ks := by
  induction js generalizing n with
  | nil => rfl
  | cons j js ih =>
    rw [List.cons_append, joinPieces, ih, joinPieces, List.append_assoc, List.length_cons]
    congr 3
    omega

/-- One more turn of the tag loop writes the joins of its condition. -/
theorem pushTag_eq {key : Char} {val : TagOperand} (n : Nat) :
    pushTag strings (b, n) key val = (operandJoins strings key val).map fun js =>
      (b.add (joinPieces n js), n + js.length) := by
  by_cases hval : val.values = ∅
  · simp only [pushTag, operandJoins, if_pos hval, Option.map_none]
  · cases val with
    | or v =>
      have hv : v ≠ ∅ := hval
      simp only [pushTag, operandJoins, if_neg hval, Option.map_some, pushOr_eq n hv, joinPieces,
        List.append_nil, List.length_singleton]
    | and v =>
      simp only [pushTag, operandJoins, if_neg hval, Option.map_some, Option.some.injEq]
      induction v.sort (· ≤ ·) generalizing b n with
      | nil => simp [joinPieces]
      | cons x xs ih =>
        rw [List.foldl_cons, ih, pushAnd_eq, List.map_cons, joinPieces, add_add, List.length_cons]
        congr 1
        omega

/-- The joins of the keys, one after the other. -/
theorem foldlM_pushTag (map : Finmap fun _ : Char => TagOperand) (keys : List Char) (n : Nat) :
    keys.foldlM (fun b key => (map.lookup key).bind fun val => pushTag strings b key val) (b, n) =
      (keys.mapM fun key => (map.lookup key).bind (operandJoins strings key)).map fun js =>
        (b.add (joinPieces n js.flatten), n + js.flatten.length) := by
  induction keys generalizing b n with
  | nil => simp [joinPieces]
  | cons key keys ih =>
    rw [List.foldlM_cons, List.mapM_cons]
    rcases map.lookup key with _ | val
    · rfl
    · simp only [Option.bind_some, pushTag_eq]
      rcases operandJoins strings key val with _ | js
      · rfl
      · simp only [Option.map_some, Option.bind_eq_bind, Option.bind_some, ih, Option.pure_def]
        rcases keys.mapM fun key => (map.lookup key).bind (operandJoins strings key) with _ | rest
        · rfl
        · simp only [Option.map_some, Option.bind_some, add_add, List.flatten_cons,
            joinPieces_append, List.length_append, Nat.add_assoc]

theorem pushTags_eq :
    pushTags strings f b = (tagJoins strings f).map fun js => b.add (joinPieces 1 js) := by
  rw [pushTags, tagJoins]
  rcases f.tags with _ | map
  · simp [joinPieces]
  · simp only [foldlM_pushTag, Option.bind_eq_bind, Option.pure_def]
    rcases (map.keys.sort (· ≤ ·)).mapM fun key =>
      (map.lookup key).bind (operandJoins strings key) with _ | js <;> rfl

/-! ### Clauses -/

/-- The builder and the flag after these clauses. -/
def clausesAfter (b : QueryBuilder) (cs : List (List (Piece PgParam))) : Clauses :=
  (b.add (Template.join " AND " cs), !cs.isEmpty)

/-- One more clause, set off from the others. -/
theorem setOff_add (cs : List (List (Piece PgParam))) (c : List (Piece PgParam)) :
    ((setOff (clausesAfter b cs)).add c, true) = clausesAfter b (cs ++ [c]) := by
  cases cs with
  | nil => simp [clausesAfter, setOff, Template.join]
  | cons c' cs =>
    have hjoin : Template.join " AND " (c' :: (cs ++ [c])) =
        Template.join " AND " (c' :: cs) ++ .lit " AND " :: c := by
      induction cs generalizing c' with
      | nil => rfl
      | cons d cs ih =>
        rw [List.cons_append, Template.join, ih]
        simp [Template.join]
    simp only [clausesAfter, setOff, List.isEmpty_cons, Bool.not_false, if_true, push_eq, add_add,
      hjoin, List.cons_append, List.append_assoc, List.nil_append]

/-- The clause of the authors comes first. -/
theorem pushAuthors_eq (authors : List String) :
    pushAuthors (clausesAfter b []) authors = (hexBlobs authors).map fun l =>
      clausesAfter b [Query.authorsClause l] := by
  simp only [pushAuthors, hexBlobs]
  split_ifs
  · rfl
  · simp only [clausesAfter, Template.join, add_nil, push_eq, separated_eq, add_add,
      Option.map_some, bytes, Query.authorsClause, holes, List.map_map, List.append_assoc,
      List.cons_append, List.nil_append, List.isEmpty_cons, Bool.not_false]
    rfl

/-- The clause of the kinds, after those before it. -/
theorem pushKinds_eq (cs : List (List (Piece PgParam))) (ks : List Nat) :
    pushKinds (clausesAfter b cs) ks = (kindValues ks).map fun l =>
      clausesAfter b (cs ++ [Query.kindsClause l]) := by
  simp only [pushKinds, kindValues]
  split_ifs
  · rfl
  · rw [Option.map_some, ← setOff_add]
    simp only [push_eq, separated_eq, add_add, Query.kindsClause, holes, List.map_map,
      List.cons_append, List.nil_append]
    rfl

/-- The clause of the ids, after those before it. -/
theorem pushIds_eq (cs : List (List (Piece PgParam))) (ids : List String) :
    pushIds (clausesAfter b cs) ids = (hexBlobs ids).map fun l =>
      clausesAfter b (cs ++ [Query.idsClause l]) := by
  have hopen : (if (clausesAfter b cs).2 = true then (clausesAfter b cs).1.push " AND ("
      else (clausesAfter b cs).1.push "(") = (setOff (clausesAfter b cs)).push "(" := by
    rw [setOff, push_and_open]
    split_ifs <;> rfl
  have hin : ∀ b : QueryBuilder, (b.push "(").push "id in (" = b.push "(id in (" := fun b =>
    (push_append "(" "id in (").symm
  simp only [pushIds, hexBlobs, hopen, hin]
  split_ifs
  · rfl
  · rw [Option.map_some, ← setOff_add]
    simp only [push_eq, separated_eq, add_add, Query.idsClause, bytes, holes, List.map_map,
      List.cons_append, List.nil_append]
    rfl

/-- A clause of a time, after those before it. -/
theorem pushTime_eq (clause : String) (cs : List (List (Piece PgParam))) (t : Nat) :
    pushTime clause (clausesAfter b cs) t = (fun t =>
      clausesAfter b (cs ++ [[.lit clause, .hole (.timestamptz t)]])) <$> timeParam t := by
  rw [pushTime]
  cases timeParam t with
  | ok t =>
    rw [Outcome.ok_bind, Outcome.map_ok, ← setOff_add, push_eq, pushBind_eq, add_add]
    rfl
  | err _ => rfl
  | panic => rfl

theorem pushOpt_eq {α β : Type} {m : Type → Type} [Monad m] [LawfulMonad m]
    {push : Clauses → α → m Clauses} (read : α → m β) {clause : β → List (Piece PgParam)}
    {cs : List (List (Piece PgParam))}
    (hpush : ∀ a, push (clausesAfter b cs) a =
      (fun x => clausesAfter b (cs ++ [clause x])) <$> read a) (o : Option α) :
    pushOpt push o (clausesAfter b cs) =
      (fun x => clausesAfter b (cs ++ (x.map clause).toList)) <$> o.mapM read := by
  cases o with
  | none => simp [pushOpt, Option.mapM]
  | some a => simp [pushOpt, Option.mapM, hpush]

/-- The lists of a filter, written out. -/
theorem pushLists_eq :
    pushLists strings f = (lists strings f).map fun l =>
      clausesAfter (((QueryBuilder.mk "" []).add
        (.lit "SELECT e.\"content\", e.created_at FROM \"event\" e" :: joinPieces 1 l.joins)).push
          " WHERE ")
        ((l.authors.map Query.authorsClause).toList ++ (l.kinds.map Query.kindsClause).toList ++
          (l.ids.map Query.idsClause).toList) := by
  have hselect : QueryBuilder.mk "SELECT e.\"content\", e.created_at FROM \"event\" e" [] =
      (QueryBuilder.mk "" []).add
        [.lit "SELECT e.\"content\", e.created_at FROM \"event\" e"] := by
    simp [add]
  rw [pushLists, lists]
  split_ifs with hforce
  · rfl
  · simp only [pushTags_eq]
    rcases tagJoins strings f with _ | joins
    · rfl
    · have hbase : ∀ b : QueryBuilder, (b, false) = clausesAfter b [] := fun b => by
        rw [clausesAfter, Template.join, add_nil]
        rfl
      simp only [Option.map_some, Option.bind_eq_bind, Option.bind_some, hbase]
      rw [pushOpt_eq hexBlobs pushAuthors_eq]
      rcases f.authors.mapM hexBlobs with _ | authors
      · rfl
      · simp only [Option.map_eq_map, Option.map_some, Option.bind_some, List.nil_append]
        rw [pushOpt_eq kindValues (pushKinds_eq _)]
        rcases f.kinds.mapM kindValues with _ | kinds
        · rfl
        · simp only [Option.map_eq_map, Option.map_some, Option.bind_some]
          rw [pushOpt_eq hexBlobs (pushIds_eq _)]
          rcases f.ids.mapM hexBlobs with _ | ids
          · rfl
          · simp only [Option.map_eq_map, Option.map_some, hselect, add_add]
            rfl

/-- The clauses at the end, the order and the limit. -/
theorem finish_eq (cs : List (List (Piece PgParam))) (q : Query) (hlimit : q.limit = f.limit) :
    finish f (clausesAfter b cs) = b.add (Template.join " AND " (cs ++
      [[.lit "e.hidden != 1::bit(1)"], [.lit "(e.expires_at IS NULL OR e.expires_at > now())"]]) ++
        [.lit q.order]) := by
  have hhidden : (if (clausesAfter b cs).2 = true then
      (clausesAfter b cs).1.push " AND e.hidden != 1::bit(1)"
      else (clausesAfter b cs).1.push "e.hidden != 1::bit(1)") =
      (setOff (clausesAfter b cs)).push "e.hidden != 1::bit(1)" := by
    rw [setOff]
    split_ifs
    · exact push_append " AND " "e.hidden != 1::bit(1)"
    · rfl
  have hclauses : ((setOff (clausesAfter b cs)).push "e.hidden != 1::bit(1)").push
      " AND (e.expires_at IS NULL OR e.expires_at > now())" =
      (clausesAfter b (cs ++ [[.lit "e.hidden != 1::bit(1)"],
        [.lit "(e.expires_at IS NULL OR e.expires_at > now())"]])).1 := by
    have hfirst : (setOff (clausesAfter b cs)).push "e.hidden != 1::bit(1)" =
        (clausesAfter b (cs ++ [[.lit "e.hidden != 1::bit(1)"]])).1 := by
      rw [push_eq, ← setOff_add]
    have hflag : (clausesAfter b (cs ++ [[.lit "e.hidden != 1::bit(1)"]])).2 = true := by
      rw [← setOff_add]
    refine (push_append " AND " "(e.expires_at IS NULL OR e.expires_at > now())").trans ?_
    rw [List.append_cons, ← setOff_add, hfirst, setOff, if_pos hflag, push_eq "(e.expires_at IS NULL OR e.expires_at > now())"]
  simp only [finish, hhidden, hclauses, Query.order, hlimit]
  cases f.limit with
  | some lim =>
    simp only [← push_append]
    rw [push_eq, clausesAfter, add_add]
  | none =>
    simp only [← push_append]
    rw [push_eq, clausesAfter, add_add]

/-- **The builder writes the query of the filter**: the template with numbered placeholders, and
its parameters. -/
theorem queryFromFilter_eq (strings : IterOrder String) (f : ReqFilter) :
    queryFromFilter strings f = (fun o : Option Query => o.map fun q =>
      QueryBuilder.mk q.sql (Template.params q.pieces)) <$> Postgres.queryFromFilter strings f := by
  have := @Outcome.lawfulMonad PgError
  rw [queryFromFilter, Postgres.queryFromFilter, pushLists_eq]
  rcases lists strings f with _ | l
  · rfl
  · simp only [Option.map_some]
    rw [pushOpt_eq timeParam (pushTime_eq _ _)]
    rcases f.since.mapM timeParam with since | e | _
    · simp only [Outcome.map_ok, Outcome.ok_bind]
      rw [pushOpt_eq timeParam (pushTime_eq _ _)]
      rcases f.until_.mapM timeParam with until_ | e | _
      · simp only [Outcome.map_ok, Outcome.ok_bind]
        rw [finish_eq _ ⟨l.joins, l.authors, l.kinds, l.ids, since, until_, f.limit⟩ rfl]
        simp only [push_eq, add_add]
        have hstart : ∀ ps, (QueryBuilder.mk "" []).add ps =
            ⟨Template.numbered 0 ps, Template.params ps⟩ := fun ps => by simp [add]
        rw [hstart]
        simp only [pure, Outcome.map_ok, Option.map_some, Query.sql, Query.pieces, Query.clauses,
          List.append_assoc, List.cons_append, List.nil_append]
      · rfl
      · rfl
    · rfl
    · rfl

end Statement

/-- The text with both columns of `tag`, and with a value that must be there. -/
example :
    Query.sql
      { joins := [⟨"d", .among (some [asBytes "test"]) (some [some [0x63]])⟩,
          ⟨"p", .valueHex (some [0x84])⟩]
        authors := none
        kinds := some [30001]
        ids := none
        since := none
        until_ := none
        limit := none } =
      "SELECT e.\"content\", e.created_at FROM \"event\" e JOIN tag t1 on e.id = " ++
        "t1.event_id AND t1.\"name\" = $1 AND (t1.\"value\" in ($2) OR t1.\"value_hex\" in " ++
        "($3)) JOIN \"tag\" t2 on e.id = t2.event_id AND t2.\"name\" = $4 AND " ++
        "t2.\"value_hex\" = $5 WHERE e.kind in ($6) AND e.hidden != 1::bit(1) AND " ++
        "(e.expires_at IS NULL OR e.expires_at > now()) ORDER BY e.created_at ASC LIMIT 1000" := by
  decide +kernel

end Floonet.Postgres
