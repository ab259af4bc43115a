import Floonet.Lib.Template
import Floonet.Sqlite.Query

/-!
# The text and the parameters of a statement

`query_from_filter` pushes the clauses of a statement to one vector and its parameters to
another. `Statement.queryFromFilter` follows it push by push; that it builds the `Query` of the
filter is `Statement.queryFromFilter_eq`.

What a parameter is pushed for is said by the template of the query, where it stands in its
clause. `no_client_string_in_text` says that the text is the template with `?` in place of the
parameters, in the order of the vector, and that it depends on the shape of the filter alone.
-/

namespace Floonet.Sqlite

open Hex (Bytes)
open Template (Piece)

namespace Statement

/-- The two vectors. -/
structure Building where
  filterComponents : List String
  params : List SqlParam

variable (f : ReqFilter)

/-- Produce a arbitrary list of '?' parameters. -/
def repeatVars (count : Nat) : String :=
  if count = 0 then ""
  else
    -- remove trailing comma and space
    String.ofList ((List.replicate count "?, ".toList).flatten.dropLast.dropLast)

/-- A loop that pushes the search of every author or id to a local vector and its blob to the
parameters, and then the clause. -/
def pushHexes (b : Building) (search : String) (hexes : List String) : Building :=
  let (searches, params) := hexes.foldl (fun acc hex =>
    (acc.1 ++ [search], acc.2 ++ [SqlParam.blob (Hex.decode hex)])) ([], b.params)
  if hexes.isEmpty then { filterComponents := b.filterComponents ++ ["false"], params }
  else
    { filterComponents := b.filterComponents ++ ["(" ++ joined " OR " searches ++ ")"], params }

/-- A part that is pushed unless it is empty. -/
def nonEmpty (clause : String) : List String := if clause = "" then [] else [clause]

/-- The condition of a tag subquery. -/
def tagWhereParts (first : String) : List String :=
  let kindClause := (f.kinds.map fun ks => "AND " ++ kindList ks).getD ""
  let sinceClause := (f.since.map fun t => "AND created_at >= " ++ toString t).getD ""
  let untilClause := (f.until_.map fun t => "AND created_at <= " ++ toString t).getD ""
  [first] ++ nonEmpty kindClause ++ nonEmpty sinceClause ++ nonEmpty untilClause

/-- The condition on one tag, with its subquery. -/
def tagClauseText (first : String) : String :=
  "e.id IN (SELECT t.event_id FROM tag t WHERE (" ++ joined " " (tagWhereParts f first) ++ "))"

/-- One turn of the loop over the tag conditions. -/
def pushTag (b : Building) (key : Char) (val : TagOperand) : Building :=
  if val.values = ∅ then b
  else
    match val with
    | .or v =>
      let sortedValues := v.sort (· ≤ ·)
      { filterComponents := b.filterComponents ++
          [tagClauseText f ("name=? AND value IN (" ++ repeatVars sortedValues.length ++ ")")]
        params := b.params ++ [.text (String.singleton key)] ++ sortedValues.map .text }
    | .and v =>
      (v.sort (· ≤ ·)).foldl (fun b x =>
        { filterComponents := b.filterComponents ++ [tagClauseText f "name=? AND value=?"]
          params := b.params ++ [.text (String.singleton key)] ++ [.text x] }) b

/-- The loop over the tag conditions, sorted by key. -/
def pushTags (b : Building) : Building :=
  match f.tags with
  | some map => (map.keys.sort (· ≤ ·)).foldl (fun b key =>
    (map.lookup key).elim b fun val => pushTag f b key val) b
  | none => b

/-- A clause without parameters. -/
def pushClause (b : Building) (clause : String) : Building :=
  { b with filterComponents := b.filterComponents ++ [clause] }

/-- The clauses and the parameters, in the order of the source. -/
def build (unixTime : Nat) : Building :=
  let b : Building := ⟨[], []⟩
  let b := f.authors.elim b (pushHexes b "author=?")
  let b := f.kinds.elim b fun ks => pushClause b (kindList ks)
  let b := f.ids.elim b (pushHexes b "event_hash=?")
  let b := pushTags f b
  let b := f.since.elim b fun t => pushClause b ("created_at >= " ++ toString t)
  let b := f.until_.elim b fun t => pushClause b ("created_at <= " ++ toString t)
  -- never display hidden events
  { filterComponents := b.filterComponents ++ ["(expires_at IS NULL OR expires_at > ?)"]
    params := b.params ++ [.integer unixTime] }

/-- The text of the statement, its parameters, and the index it names. -/
def queryFromFilter (unixTime : Nat) : String × List SqlParam × Option String :=
  if f.forceNoMatch then ("SELECT e.content FROM event e WHERE 1=0", [], none)
  else
    let idxName := overrideIndex f
    let idxStmt := (idxName.map fun i => "INDEXED BY " ++ i).getD ""
    let b := build f unixTime
    let order :=
      match f.limit with
      | some lim => " ORDER BY e.created_at DESC LIMIT " ++ toString lim
      | none => " ORDER BY e.created_at ASC"
    ("SELECT e.content FROM event e " ++ idxStmt ++ " WHERE hidden!=TRUE" ++ " AND " ++
      joined " AND " b.filterComponents ++ order, b.params, idxName)

/-! ## Both vectors are those of the components

The source pushes to a vector of texts and one of parameters. After every push they are the texts
and parameters of a list of components. -/

variable {f} {b : Building}

/-- The clauses and parameters of further components. -/
def Building.add (b : Building) (cs : List Component) : Building where
  filterComponents := b.filterComponents ++ cs.map Component.render
  params := b.params ++ cs.flatMap Component.params

theorem Building.add_nil : b.add [] = b := by
  simp [Building.add]

theorem Building.add_add (cs ds : List Component) : (b.add cs).add ds = b.add (cs ++ ds) := by
  simp [Building.add]

/-- A popped repetition is a list with separators. -/
theorem flatten_replicate (n : Nat) :
    (List.replicate (n + 1) "?, ".toList).flatten =
      (joined ", " (List.replicate (n + 1) "?")).toList ++ [',', ' '] := by
  induction n with
  | zero => decide
  | succ n ih =>
    have hjoin : joined ", " (List.replicate (n + 1 + 1) "?") =
        "?" ++ ", " ++ joined ", " (List.replicate (n + 1) "?") := String.intercalate_cons_cons
    rw [List.replicate_succ, List.flatten_cons, ih, hjoin, String.toList_append, List.append_assoc]
    rfl

theorem repeatVars_eq (n : Nat) : repeatVars n = Sqlite.repeatVars n := by
  cases n with
  | zero => rfl
  | succ n =>
    rw [repeatVars, if_neg (Nat.succ_ne_zero n), flatten_replicate, Sqlite.repeatVars]
    simp only [List.dropLast_append_cons, List.dropLast_cons_cons, List.dropLast_singleton,
      List.append_nil, String.ofList_toList]

/-- The loop over authors or ids. -/
theorem foldl_hexes (search : String) (hexes : List String)
    (acc : List String × List SqlParam) :
    hexes.foldl (fun acc hex =>
        (acc.1 ++ [search], acc.2 ++ [SqlParam.blob (Hex.decode hex)])) acc =
      (acc.1 ++ hexes.map fun _ => search,
        acc.2 ++ hexes.map fun hex => SqlParam.blob (Hex.decode hex)) := by
  induction hexes generalizing acc with
  | nil => simp
  | cons hex rest ih => simp [ih]

/-- A list of hex values is a component. -/
theorem pushHexes_eq {search : String} (mk : List (Option Hex.Bytes) → Component)
    (hrender : ∀ blobs, (mk blobs).render =
      "(" ++ joined " OR " (blobs.map fun _ => search) ++ ")")
    (hparams : ∀ blobs, (mk blobs).params = blobs.map SqlParam.blob) (hexes : List String) :
    pushHexes b search hexes =
      b.add [if hexes.isEmpty then .never else mk (hexes.map Hex.decode)] := by
  rw [pushHexes, foldl_hexes]
  cases hexes with
  | nil =>
    have hnever : Component.never.render = "false" := rfl
    simp only [List.isEmpty_nil, if_true, List.map_nil, List.append_nil, Building.add,
      List.map_cons, List.flatMap_cons, List.flatMap_nil, hnever]
    rw [show Component.never.params = [] from rfl, List.append_nil]
  | cons hex rest =>
    simp only [List.isEmpty_cons, Bool.false_eq_true, if_false, Building.add, List.map_cons,
      List.map_nil, List.flatMap_cons, List.flatMap_nil, List.append_nil, List.nil_append, hrender,
      hparams, List.map_map]
    rfl

theorem append_ne_empty (s t : String) (h : s ≠ "") : s ++ t ≠ "" := by
  intro heq
  rw [← String.toList_inj, String.toList_append] at heq
  exact h (String.toList_inj.mp (List.append_eq_nil_iff.mp heq).1)

/-- An optional part is pushed when it is there. -/
theorem nonEmpty_getD {o : Option String} (h : ∀ s, o = some s → s ≠ "") :
    nonEmpty (o.getD "") = o.toList := by
  cases o with
  | none => rfl
  | some s => exact if_neg (h s rfl)

theorem map_append_ne_empty {α : Type} (start : String) (hstart : start ≠ "") (write : α → String)
    (o : Option α) : ∀ s, (o.map fun a => start ++ write a) = some s → s ≠ "" := by
  intro s hs
  obtain ⟨a, -, rfl⟩ := Option.map_eq_some_iff.mp hs
  exact append_ne_empty start (write a) hstart

/-- The text of a tag condition is that of its component. -/
theorem tagClauseText_eq (c : TagClause) (hk : c.kinds = f.kinds) (hs : c.since = f.since)
    (hu : c.until_ = f.until_) {first : String}
    (hfirst : first = match c.test with
      | .among values => "name=? AND value IN (" ++ Sqlite.repeatVars values.length ++ ")"
      | .is _ => "name=? AND value=?") :
    tagClauseText f first = (Component.tag c).render := by
  have hparts : tagWhereParts f first = c.whereParts := by
    obtain ⟨name, test, kinds, since, until_⟩ := c
    subst hk hs hu hfirst
    cases test <;> rw [tagWhereParts, TagClause.whereParts,
      nonEmpty_getD (map_append_ne_empty "AND " (by simp) kindList f.kinds),
      nonEmpty_getD (map_append_ne_empty "AND created_at >= " (by simp) toString f.since),
      nonEmpty_getD (map_append_ne_empty "AND created_at <= " (by simp) toString f.until_)]
  exact congrArg (fun parts =>
    "e.id IN (SELECT t.event_id FROM tag t WHERE (" ++ joined " " parts ++ "))") hparts

theorem pushTag_eq (key : Char) (val : TagOperand) :
    pushTag f b key val = b.add (tagComponents f key val) := by
  simp only [pushTag, tagComponents]
  split_ifs with hnil
  · exact Building.add_nil.symm
  · cases val with
    | or v =>
      simp only [Building.add, List.map_cons, List.map_nil, List.flatMap_cons, List.flatMap_nil,
        List.append_nil, repeatVars_eq, Component.params]
      rw [← tagClauseText_eq (f := f) ⟨String.singleton key, .among (v.sort (· ≤ ·)), f.kinds,
        f.since, f.until_⟩ rfl rfl rfl rfl]
      simp
    | and v =>
      dsimp only
      generalize v.sort (· ≤ ·) = values
      induction values generalizing b with
      | nil => exact Building.add_nil.symm
      | cons x rest ih =>
        have hstep : (⟨b.filterComponents ++ [tagClauseText f "name=? AND value=?"],
            b.params ++ [.text (String.singleton key)] ++ [.text x]⟩ : Building) =
            b.add [.tag ⟨String.singleton key, .is x, f.kinds, f.since, f.until_⟩] := by
          rw [tagClauseText_eq ⟨String.singleton key, .is x, f.kinds, f.since, f.until_⟩
            rfl rfl rfl rfl]
          simp [Building.add, Component.params]
        rw [List.foldl_cons, ih, hstep, Building.add_add]
        rfl

theorem pushTags_eq : pushTags f b = b.add (tagsComponents f) := by
  rw [pushTags, tagsComponents]
  rcases f.tags with _ | map
  · exact Building.add_nil.symm
  · simp only
    generalize map.keys.sort (· ≤ ·) = keys
    induction keys generalizing b with
    | nil => exact Building.add_nil.symm
    | cons key rest ih =>
      rw [List.foldl_cons, ih, List.flatMap_cons, ← Building.add_add]
      congr 1
      rcases map.lookup key with _ | val
      · exact Building.add_nil.symm
      · exact pushTag_eq key val

/-- An optional field pushes its component, if it is there. -/
theorem elim_eq {α : Type} {push : α → Building} (mk : α → Component)
    (h : ∀ a, push a = b.add [mk a]) (o : Option α) : o.elim b push = b.add (o.map mk).toList := by
  cases o with
  | none => exact Building.add_nil.symm
  | some a => exact h a

/-- A clause without values is a component. -/
theorem pushClause_eq (c : Component) {clause : String} (hrender : c.render = clause)
    (hparams : c.params = []) : pushClause b clause = b.add [c] := by
  simp only [pushClause, Building.add, List.map_cons, List.map_nil, hrender, List.flatMap_cons,
    List.flatMap_nil, hparams, List.append_nil]

/-- The components of the query, before one looks at `force_no_match`. -/
def components (f : ReqFilter) (unixTime : Nat) : List Component :=
  (f.authors.map fun authvec =>
    if authvec.isEmpty then Component.never else .author (authvec.map Hex.decode)).toList ++
  (f.kinds.map Component.kind).toList ++
  (f.ids.map fun idvec =>
    if idvec.isEmpty then Component.never else .eventHash (idvec.map Hex.decode)).toList ++
  tagsComponents f ++ (f.since.map Component.since).toList ++
  (f.until_.map Component.until_).toList ++ [.unexpired unixTime]

/-- The statement is built of its components. -/
theorem build_eq (f : ReqFilter) (unixTime : Nat) :
    build f unixTime = (⟨[], []⟩ : Building).add (components f unixTime) := by
  have hauthors : ∀ b : Building, f.authors.elim b (pushHexes b "author=?") =
      b.add (f.authors.map fun l =>
        if l.isEmpty then Component.never else .author (l.map Hex.decode)).toList := fun b =>
    elim_eq _ (pushHexes_eq .author (fun _ => rfl) fun _ => rfl) f.authors
  have hids : ∀ b : Building, f.ids.elim b (pushHexes b "event_hash=?") =
      b.add (f.ids.map fun l =>
        if l.isEmpty then Component.never else .eventHash (l.map Hex.decode)).toList := fun b =>
    elim_eq _ (pushHexes_eq .eventHash (fun _ => rfl) fun _ => rfl) f.ids
  have hkinds : ∀ b : Building, (f.kinds.elim b fun ks => pushClause b (kindList ks)) =
      b.add (f.kinds.map Component.kind).toList := fun b =>
    elim_eq .kind (fun a => pushClause_eq (.kind a) rfl rfl) f.kinds
  have hsince : ∀ b : Building,
      (f.since.elim b fun t => pushClause b ("created_at >= " ++ toString t)) =
        b.add (f.since.map Component.since).toList := fun b =>
    elim_eq .since (fun a => pushClause_eq (.since a) rfl rfl) f.since
  have huntil : ∀ b : Building,
      (f.until_.elim b fun t => pushClause b ("created_at <= " ++ toString t)) =
        b.add (f.until_.map Component.until_).toList := fun b =>
    elim_eq .until_ (fun a => pushClause_eq (.until_ a) rfl rfl) f.until_
  simp only [build, hauthors, hids, hkinds, hsince, huntil, pushTags_eq, Building.add_add]
  simp only [components, ← Building.add_add _ [Component.unexpired unixTime]]
  rfl

theorem components_eq (f : ReqFilter) (unixTime : Nat) (h : f.forceNoMatch = false) :
    (Sqlite.queryFromFilter f unixTime).components = some (components f unixTime) := by
  simp only [Sqlite.queryFromFilter, h, Bool.false_eq_true, if_false, components]

/-- **The statement of the source is the query of the filter.** -/
theorem queryFromFilter_eq (f : ReqFilter) (unixTime : Nat) :
    queryFromFilter f unixTime =
      ((Sqlite.queryFromFilter f unixTime).text, (Sqlite.queryFromFilter f unixTime).params,
        (Sqlite.queryFromFilter f unixTime).index) := by
  by_cases hforce : f.forceNoMatch = true
  · rw [queryFromFilter, if_pos hforce, Sqlite.queryFromFilter, if_pos hforce]
    rfl
  · have hcs := components_eq f unixTime (by simpa using hforce)
    have hindex : (Sqlite.queryFromFilter f unixTime).index = overrideIndex f ∧
        (Sqlite.queryFromFilter f unixTime).limit = f.limit := by
      rw [Sqlite.queryFromFilter, if_neg hforce]
      exact ⟨rfl, rfl⟩
    have hwhere : " WHERE hidden!=TRUE" ++ " AND " = " WHERE hidden!=TRUE AND " := rfl
    rw [Query.text, Query.params, hcs, hindex.1, hindex.2, queryFromFilter, if_neg hforce, build_eq]
    cases f.limit <;>
      simp only [Building.add, List.nil_append, Option.getD_some, ← hwhere, String.append_assoc]

end Statement

/-! ## Templates -/

/-- The condition of a tag subquery with its parameters in place. -/
def TagClause.template (c : TagClause) : List (Piece SqlParam) :=
  Template.join " " (
    ([.lit "name=", .hole (.text c.name)] ++
      match c.test with
      | .among values => [.lit " AND value IN ("] ++
          Template.join ", " (values.map fun v => [.hole (.text v)]) ++ [.lit ")"]
      | .is value => [.lit " AND value=", .hole (.text value)]) ::
    ((c.kinds.map fun ks => "AND " ++ kindList ks).toList ++
      (c.since.map fun t => "AND created_at >= " ++ toString t).toList ++
      (c.until_.map fun t => "AND created_at <= " ++ toString t).toList).map fun part => [.lit part])

/-- The searches of authors or ids with their blobs in place. -/
def blobsTemplate (column : String) (blobs : List (Option Bytes)) : List (Piece SqlParam) :=
  [.lit "("] ++ Template.join " OR " (blobs.map fun b => [.lit column, .hole (.blob b)]) ++
    [.lit ")"]

/-- The text of a component with its parameters in place. -/
def Component.template : Component → List (Piece SqlParam)
  | .author blobs => blobsTemplate "author=" blobs
  | .kind ks => [.lit (kindList ks)]
  | .eventHash blobs => blobsTemplate "event_hash=" blobs
  | .never => [.lit "false"]
  | .tag c => [.lit "e.id IN (SELECT t.event_id FROM tag t WHERE ("] ++ c.template ++ [.lit "))"]
  | .since t => [.lit ("created_at >= " ++ toString t)]
  | .until_ t => [.lit ("created_at <= " ++ toString t)]
  | .unexpired now => [.lit "(expires_at IS NULL OR expires_at > ", .hole (.integer now), .lit ")"]

/-- The text of a statement with its parameters in place. -/
def Query.template (q : Query) : List (Piece SqlParam) :=
  match q.components with
  | none => [.lit "SELECT e.content FROM event e WHERE 1=0"]
  | some components =>
    [.lit ("SELECT e.content FROM event e " ++ ((q.index.map fun i => "INDEXED BY " ++ i).getD "") ++
      " WHERE hidden!=TRUE AND ")] ++
    Template.join " AND " (components.map Component.template) ++
    [.lit (match q.limit with
      | some lim => " ORDER BY e.created_at DESC LIMIT " ++ toString lim
      | none => " ORDER BY e.created_at ASC")]

/-! ### Their text and parameters -/

theorem text_blobsTemplate (column : String) (blobs : List (Option Bytes)) :
    Template.text (blobsTemplate column blobs) =
      "(" ++ joined " OR " (blobs.map fun _ => column ++ "?") ++ ")" := by
  have hmap : (blobs.map fun b => [Piece.lit column, Piece.hole (SqlParam.blob b)]).map
      Template.text = blobs.map fun _ => column ++ "?" := by
    rw [List.map_map]
    exact List.map_congr_left fun b _ => by simp
  rw [blobsTemplate, Template.text_append, Template.text_append, Template.text_join, hmap]
  simp [joined]

theorem params_blobsTemplate (column : String) (blobs : List (Option Bytes)) :
    Template.params (blobsTemplate column blobs) = blobs.map SqlParam.blob := by
  rw [blobsTemplate, Template.params_append, Template.params_append, Template.params_join,
    List.flatMap_map]
  simp [List.map_eq_flatMap]

/-- Literal parts are their own text. -/
theorem map_text_lit (parts : List String) :
    (parts.map fun part => [(Piece.lit part : Piece SqlParam)]).map Template.text = parts := by
  rw [List.map_map]
  exact (List.map_congr_left fun part _ => by simp).trans (List.map_id parts)

/-- And have no parameters. -/
theorem flatMap_params_lit (parts : List String) :
    (parts.map fun part => [(Piece.lit part : Piece SqlParam)]).flatMap Template.params = [] := by
  simp

theorem TagClause.text_template (c : TagClause) :
    Template.text c.template = joined " " c.whereParts := by
  obtain ⟨name, test, kinds, since, until_⟩ := c
  rw [TagClause.template, Template.text_join, TagClause.whereParts, joined, List.map_cons,
    map_text_lit]
  cases test with
  | among values =>
    have hlit : ∀ x, "name=" ++ ("?" ++ (" AND value IN (" ++ x)) = "name=? AND value IN (" ++ x := by
      intro x
      rw [← String.append_assoc, ← String.append_assoc]
      exact congrArg (· ++ x) (rfl : "name=" ++ "?" ++ " AND value IN (" = "name=? AND value IN (")
    have hmap : (values.map fun v => [Piece.hole (SqlParam.text v)]).map Template.text =
        List.replicate values.length "?" := by
      rw [List.map_map, ← List.map_const]
      exact List.map_congr_left fun v _ => by simp
    simp only [Template.text_append, Template.text_join, hmap, Template.text_lit_cons,
      Template.text_hole_cons, Template.text_nil, String.append_empty, String.append_assoc, hlit,
      Sqlite.repeatVars, joined, List.cons_append, List.nil_append]
  | is value => rfl

theorem TagClause.params_template (c : TagClause) :
    Template.params c.template = (Component.tag c).params := by
  obtain ⟨name, test, kinds, since, until_⟩ := c
  rw [TagClause.template, Template.params_join, List.flatMap_cons, flatMap_params_lit,
    List.append_nil, Component.params]
  cases test with
  | among values =>
    have hvalues : (values.map fun v => [Piece.hole (SqlParam.text v)]).flatMap Template.params =
        values.map SqlParam.text := by
      rw [List.flatMap_map, List.map_eq_flatMap]
      rfl
    simp only [Template.params_append, Template.params_join, hvalues, Template.params_lit_cons,
      Template.params_hole_cons, Template.params_nil, List.append_nil, List.singleton_append]
  | is value => rfl

theorem Component.text_template (c : Component) : Template.text c.template = c.render := by
  cases c with
  | author blobs => exact text_blobsTemplate "author=" blobs
  | eventHash blobs => exact text_blobsTemplate "event_hash=" blobs
  | tag clause =>
    change _ = "e.id IN (SELECT t.event_id FROM tag t WHERE (" ++ joined " " clause.whereParts ++ "))"
    rw [Component.template, Template.text_append, Template.text_append, clause.text_template]
    simp only [Template.text_lit_cons, Template.text_nil, String.append_empty]
  | unexpired now => rfl
  | _ => exact Template.text_lit

theorem Component.params_template (c : Component) :
    Template.params c.template = c.params := by
  cases c with
  | author blobs => exact params_blobsTemplate "author=" blobs
  | eventHash blobs => exact params_blobsTemplate "event_hash=" blobs
  | tag clause =>
    rw [Component.template, Template.params_append, Template.params_append,
      clause.params_template]
    simp
  | _ => rfl

theorem Query.text_template (q : Query) : Template.text q.template = q.text := by
  obtain ⟨index, components, limit⟩ := q
  cases components with
  | none => simp [Query.template, Query.text]
  | some components =>
    have hmap : (components.map Component.template).map Template.text =
        components.map Component.render := by
      rw [List.map_map]
      exact List.map_congr_left fun c _ => c.text_template
    simp only [Query.template, Query.text, Template.text_append, Template.text_join, hmap, joined]
    cases limit <;> simp [String.append_assoc]

theorem Query.params_template (q : Query) : Template.params q.template = q.params := by
  obtain ⟨index, components, limit⟩ := q
  cases components with
  | none => rfl
  | some components =>
    simp only [Query.template, Query.params, Template.params_append, Template.params_join,
      List.flatMap_map, Option.getD_some, Template.params_lit_cons, Template.params_nil,
      List.nil_append, List.append_nil]
    exact List.flatMap_congr fun c _ => c.params_template

/-! ### No placeholder in literal text -/

theorem not_mem_toString (n : Nat) : '?' ∉ (toString n).toList := by
  rw [Nat.toString_eq_repr, Nat.toList_repr]
  intro h
  have := Nat.isDigit_of_mem_toDigits (by decide) (by decide) h
  revert this
  decide

theorem not_mem_append {s t : String} (hs : '?' ∉ s.toList) (ht : '?' ∉ t.toList) :
    '?' ∉ (s ++ t).toList := by
  rw [String.toList_append, List.mem_append, not_or]
  exact ⟨hs, ht⟩

/-- Literal parts with a separator are literal text. -/
theorem not_mem_joined {sep : String} {parts : List String} (hsep : '?' ∉ sep.toList)
    (h : ∀ part ∈ parts, '?' ∉ part.toList) : '?' ∉ (joined sep parts).toList := by
  have hplain : Template.Plain
      (Template.join sep (parts.map fun part => [(Piece.lit part : Piece SqlParam)])) := by
    refine Template.plain_join hsep fun ps hps => ?_
    obtain ⟨part, hpart, rfl⟩ := List.mem_map.mp hps
    exact Template.plain_lit_cons.mpr ⟨h part hpart, Template.plain_nil⟩
  have hcount := Template.count_text hplain
  rw [Template.text_join, map_text_lit, Template.params_join, flatMap_params_lit] at hcount
  exact List.count_eq_zero.mp hcount

theorem not_mem_kindList (ks : List Nat) : '?' ∉ (kindList ks).toList := by
  refine not_mem_append (not_mem_append (by decide) (not_mem_joined (by decide) ?_)) (by decide)
  intro part hpart
  obtain ⟨k, -, rfl⟩ := List.mem_map.mp hpart
  exact not_mem_toString k

theorem plain_lit {s : String} (h : '?' ∉ s.toList) : Template.Plain [(Piece.lit s : Piece SqlParam)] :=
  Template.plain_lit_cons.mpr ⟨h, Template.plain_nil⟩

/-- A list of blobs has no other placeholder. -/
theorem plain_blobsTemplate {column : String} (h : '?' ∉ column.toList)
    (blobs : List (Option Bytes)) : Template.Plain (blobsTemplate column blobs) := by
  refine Template.plain_append.mpr ⟨Template.plain_append.mpr ⟨plain_lit (by decide), ?_⟩,
    plain_lit (by decide)⟩
  refine Template.plain_join (by decide) fun ps hps => ?_
  obtain ⟨b, -, rfl⟩ := List.mem_map.mp hps
  exact Template.plain_lit_cons.mpr ⟨h, Template.plain_hole_cons.mpr Template.plain_nil⟩

theorem TagClause.plain_template (c : TagClause) : Template.Plain c.template := by
  obtain ⟨name, test, kinds, since, until_⟩ := c
  refine Template.plain_join (by decide) fun ps hps => ?_
  rcases List.mem_cons.mp hps with rfl | hps
  · refine Template.plain_append.mpr ⟨Template.plain_lit_cons.mpr ⟨by decide,
      Template.plain_hole_cons.mpr Template.plain_nil⟩, ?_⟩
    cases test with
    | among values =>
      refine Template.plain_append.mpr ⟨Template.plain_append.mpr ⟨plain_lit (by decide), ?_⟩,
        plain_lit (by decide)⟩
      refine Template.plain_join (by decide) fun ps hps => ?_
      obtain ⟨v, -, rfl⟩ := List.mem_map.mp hps
      exact Template.plain_hole_cons.mpr Template.plain_nil
    | is value =>
      exact Template.plain_lit_cons.mpr ⟨by decide, Template.plain_hole_cons.mpr Template.plain_nil⟩
  · obtain ⟨part, hpart, rfl⟩ := List.mem_map.mp hps
    refine plain_lit ?_
    rcases List.mem_append.mp hpart with hpart | hpart
    · rcases List.mem_append.mp hpart with hpart | hpart
      · rw [Option.mem_toList, Option.map_eq_some_iff] at hpart
        obtain ⟨ks, -, rfl⟩ := hpart
        exact not_mem_append (by decide) (not_mem_kindList ks)
      · rw [Option.mem_toList, Option.map_eq_some_iff] at hpart
        obtain ⟨t, -, rfl⟩ := hpart
        exact not_mem_append (by decide) (not_mem_toString t)
    · rw [Option.mem_toList, Option.map_eq_some_iff] at hpart
      obtain ⟨t, -, rfl⟩ := hpart
      exact not_mem_append (by decide) (not_mem_toString t)

theorem Component.plain_template (c : Component) : Template.Plain c.template := by
  cases c with
  | author blobs => exact plain_blobsTemplate (by decide) blobs
  | kind ks => exact plain_lit (not_mem_kindList ks)
  | eventHash blobs => exact plain_blobsTemplate (by decide) blobs
  | never => exact plain_lit (by decide)
  | tag clause =>
    exact Template.plain_append.mpr ⟨Template.plain_append.mpr ⟨plain_lit (by decide),
      clause.plain_template⟩, plain_lit (by decide)⟩
  | since t => exact plain_lit (not_mem_append (by decide) (not_mem_toString t))
  | until_ t => exact plain_lit (not_mem_append (by decide) (not_mem_toString t))
  | unexpired now =>
    exact Template.plain_lit_cons.mpr ⟨by decide, Template.plain_hole_cons.mpr (plain_lit (by decide))⟩

/-- The indexes are those of the schema. -/
theorem not_mem_overrideIndex {f : ReqFilter} {i : String} (h : overrideIndex f = some i) :
    '?' ∉ i.toList := by
  rw [overrideIndex] at h
  split_ifs at h <;> cases h <;> decide

theorem plain_template (f : ReqFilter) (unixTime : Nat) :
    Template.Plain (queryFromFilter f unixTime).template := by
  by_cases hforce : f.forceNoMatch = true
  · rw [queryFromFilter, if_pos hforce]
    exact plain_lit (by decide)
  · rw [queryFromFilter, if_neg hforce]
    refine Template.plain_append.mpr ⟨Template.plain_append.mpr ⟨plain_lit ?_, ?_⟩, plain_lit ?_⟩
    · refine not_mem_append (not_mem_append (by decide) ?_) (by decide)
      rcases hi : overrideIndex f with _ | i
      · exact (by decide : '?' ∉ ("" : String).toList)
      · exact not_mem_append (by decide) (not_mem_overrideIndex hi)
    · refine Template.plain_join (by decide) fun ps hps => ?_
      obtain ⟨c, -, rfl⟩ := List.mem_map.mp hps
      exact c.plain_template
    · rcases f.limit with _ | lim
      · exact (by decide : '?' ∉ (" ORDER BY e.created_at ASC" : String).toList)
      · exact not_mem_append (by decide) (not_mem_toString lim)

/-! ## The text depends on the shape of the filter

The text is a function of the numbers in the filter and of how many strings stand where, as is
shown clause by clause. -/

/-- The kind of a tag condition and how many values it has. -/
def operandShape : TagOperand → Bool × Nat
  | .and v => (true, v.card)
  | .or v => (false, v.card)

/-- Two filters that differ in strings alone. -/
structure SameShape (f g : ReqFilter) : Prop where
  kinds : f.kinds = g.kinds
  since : f.since = g.since
  until_ : f.until_ = g.until_
  limit : f.limit = g.limit
  forceNoMatch : f.forceNoMatch = g.forceNoMatch
  ids : f.ids.map List.length = g.ids.map List.length
  authors : f.authors.map List.length = g.authors.map List.length
  tags : f.tags.isSome = g.tags.isSome
  operands : ∀ c, ((f.tags.getD ∅).lookup c).map operandShape =
    ((g.tags.getD ∅).lookup c).map operandShape

variable {f g : ReqFilter}

theorem isSome_eq_of_map {α β : Type} {o o' : Option α} {k : α → β} (h : o.map k = o'.map k) :
    o.isSome = o'.isSome := by
  rw [← Option.isSome_map (f := k), h, Option.isSome_map]

/-- Filters of one shape use one index. -/
theorem overrideIndex_eq (h : SameShape f g) : overrideIndex f = overrideIndex g := by
  have hids := isSome_eq_of_map h.ids
  have hauthors := isSome_eq_of_map h.authors
  have hnone : f.authors.isNone = g.authors.isNone := by
    rw [← Option.not_isSome, hauthors, Option.not_isSome]
  have htags : f.tags.isNone = g.tags.isNone := by
    rw [← Option.not_isSome, h.tags, Option.not_isSome]
  simp only [overrideIndex, hids, hauthors, hnone, htags, h.kinds, h.since, h.until_, h.limit]

/-- The clause of a list depends on its length. -/
theorem render_blobs_eq {vs ws : Option (List String)} (mk : List (Option Bytes) → Component)
    (hmk : ∀ blobs blobs' : List (Option Bytes), blobs.length = blobs'.length →
      (mk blobs).render = (mk blobs').render) (h : vs.map List.length = ws.map List.length) :
    (vs.map fun l => if l.isEmpty then Component.never else mk (l.map Hex.decode)).toList.map
        Component.render =
      (ws.map fun l => if l.isEmpty then Component.never else mk (l.map Hex.decode)).toList.map
        Component.render := by
  rcases vs with _ | l <;> rcases ws with _ | l'
  · rfl
  · cases h
  · cases h
  · have hlen : l.length = l'.length := Option.some.inj h
    rcases l with _ | ⟨x, l⟩ <;> rcases l' with _ | ⟨y, l'⟩
    · rfl
    · cases hlen
    · cases hlen
    · have hrender := hmk ((x :: l).map Hex.decode) ((y :: l').map Hex.decode)
        (by rw [List.length_map, List.length_map, hlen])
      simp only [Option.map_some, List.isEmpty_cons, Bool.false_eq_true, if_false,
        Option.toList_some, List.map_cons, List.map_nil] at hrender ⊢
      rw [hrender]

/-- The clauses of a tag condition, from its shape. -/
def shapeTexts (f : ReqFilter) : Bool × Nat → List String
  | (_, 0) => []
  | (false, n + 1) =>
    [Statement.tagClauseText f ("name=? AND value IN (" ++ repeatVars (n + 1) ++ ")")]
  | (true, n + 1) => List.replicate (n + 1) (Statement.tagClauseText f "name=? AND value=?")

/-- The texts of a condition are told by its shape. -/
theorem map_render_tagComponents (f : ReqFilter) (key : Char) (val : TagOperand) :
    (tagComponents f key val).map Component.render = shapeTexts f (operandShape val) := by
  rcases val with v | v
  · rcases hcard : v.card with _ | n
    · have hv := Finset.card_eq_zero.mp hcard
      simp [tagComponents, TagOperand.values, hv, operandShape, shapeTexts]
    · have hne : (TagOperand.and v).values ≠ ∅ := fun hv => by
        rw [TagOperand.values] at hv
        simp [hv] at hcard
      simp only [tagComponents, if_neg hne, operandShape, hcard, shapeTexts, List.map_map]
      rw [← hcard, ← Finset.length_sort (· ≤ ·), ← List.map_const]
      refine List.map_congr_left fun x _ => ?_
      exact (Statement.tagClauseText_eq ⟨String.singleton key, .is x, f.kinds, f.since, f.until_⟩
        rfl rfl rfl rfl).symm
  · rcases hcard : v.card with _ | n
    · have hv := Finset.card_eq_zero.mp hcard
      simp [tagComponents, TagOperand.values, hv, operandShape, shapeTexts]
    · have hne : (TagOperand.or v).values ≠ ∅ := fun hv => by
        rw [TagOperand.values] at hv
        simp [hv] at hcard
      simp only [tagComponents, if_neg hne, operandShape, hcard, shapeTexts, List.map_cons,
        List.map_nil]
      rw [← hcard, ← Finset.length_sort (· ≤ ·)]
      exact congrArg (fun t => [t]) (Statement.tagClauseText_eq ⟨String.singleton key,
        .among (v.sort (· ≤ ·)), f.kinds, f.since, f.until_⟩ rfl rfl rfl rfl).symm

theorem tagWhereParts_eq (h : SameShape f g) (first : String) :
    Statement.tagWhereParts f first = Statement.tagWhereParts g first := by
  obtain ⟨hkinds, hsince, huntil, -, -, -, -, -, -⟩ := h
  cases f
  cases g
  subst hkinds hsince huntil
  rfl

/-- Filters of one shape have the same texts. -/
theorem shapeTexts_eq (h : SameShape f g) (shape : Bool × Nat) :
    shapeTexts f shape = shapeTexts g shape := by
  have htext : ∀ first, Statement.tagClauseText f first = Statement.tagClauseText g first :=
    fun first => congrArg
      (fun parts => "e.id IN (SELECT t.event_id FROM tag t WHERE (" ++ joined " " parts ++ "))")
      (tagWhereParts_eq h first)
  rcases shape with ⟨_ | _, _ | n⟩
  · rfl
  · exact congrArg (fun t => [t]) (htext _)
  · rfl
  · exact congrArg (List.replicate (n + 1)) (htext _)

/-- The clauses of all tag conditions, from their shapes. -/
theorem map_render_tagsComponents (f : ReqFilter) :
    (tagsComponents f).map Component.render =
      ((f.tags.getD ∅).keys.sort (· ≤ ·)).flatMap fun key =>
        (((f.tags.getD ∅).lookup key).map operandShape).elim [] (shapeTexts f) := by
  rw [tagsComponents]
  rcases f.tags with _ | map
  · simp
  · simp only [Option.getD_some, List.map_flatMap]
    refine List.flatMap_congr fun key _ => ?_
    rcases map.lookup key with _ | val
    · rfl
    · exact map_render_tagComponents f key val

theorem map_render_tagsComponents_eq (h : SameShape f g) :
    (tagsComponents f).map Component.render = (tagsComponents g).map Component.render := by
  have hkeys : (f.tags.getD ∅).keys = (g.tags.getD ∅).keys := by
    ext c
    rw [Finmap.mem_keys, Finmap.mem_keys, ← Finmap.lookup_isSome, ← Finmap.lookup_isSome,
      isSome_eq_of_map (h.operands c)]
  have hshape : shapeTexts f = shapeTexts g := funext (shapeTexts_eq h)
  rw [map_render_tagsComponents, map_render_tagsComponents, hkeys, hshape]
  exact List.flatMap_congr fun key _ => by rw [h.operands key]

/-- **The text does not depend on strings.** -/
theorem text_eq_of_sameShape (h : SameShape f g) (unixTime unixTime' : Nat) :
    (queryFromFilter f unixTime).text = (queryFromFilter g unixTime').text := by
  by_cases hforce : g.forceNoMatch = true
  · rw [queryFromFilter, if_pos (h.forceNoMatch.trans hforce), queryFromFilter, if_pos hforce]
  · have hforce' : ¬ f.forceNoMatch = true := by rwa [h.forceNoMatch]
    have hlist : ∀ (blobs blobs' : List (Option Bytes)) (column : String),
        blobs.length = blobs'.length →
        (blobs.map fun _ => column) = blobs'.map fun _ => column := by
      intro blobs blobs' column hlen
      rw [List.map_const', List.map_const', hlen]
    have hauthors := render_blobs_eq .author (fun blobs blobs' hlen => congrArg
      (fun l => "(" ++ joined " OR " l ++ ")") (hlist blobs blobs' "author=?" hlen)) h.authors
    have hids := render_blobs_eq .eventHash (fun blobs blobs' hlen => congrArg
      (fun l => "(" ++ joined " OR " l ++ ")") (hlist blobs blobs' "event_hash=?" hlen)) h.ids
    have hcomponents : (Statement.components f unixTime).map Component.render =
        (Statement.components g unixTime').map Component.render := by
      simp only [Statement.components, List.map_append, hauthors, hids,
        map_render_tagsComponents_eq h, h.kinds, h.since, h.until_]
      rfl
    rw [Query.text, Query.text, Statement.components_eq f unixTime (by simpa using hforce'),
      Statement.components_eq g unixTime' (by simpa using hforce)]
    simp only [hcomponents]
    rw [queryFromFilter, if_neg hforce', queryFromFilter, if_neg hforce]
    simp only [overrideIndex_eq h, h.limit]

/-- **No client string reaches the text of the statement.** Filters of one shape have one text;
the text has as many placeholders as there are parameters; and the `i`-th placeholder stands
where the template has the `i`-th parameter. -/
theorem no_client_string_in_text (f : ReqFilter) (unixTime : Nat) :
    (∀ g unixTime', SameShape f g →
      (Statement.queryFromFilter f unixTime).1 = (Statement.queryFromFilter g unixTime').1) ∧
    (Statement.queryFromFilter f unixTime).1.toList.count '?' =
      (Statement.queryFromFilter f unixTime).2.1.length ∧
    ∀ i p, (Statement.queryFromFilter f unixTime).2.1[i]? = some p →
      ∃ before after, (queryFromFilter f unixTime).template = before ++ .hole p :: after ∧
        (Statement.queryFromFilter f unixTime).1 =
          Template.text before ++ "?" ++ Template.text after ∧
        (Template.text before).toList.count '?' = i := by
  have hplain := plain_template f unixTime
  refine ⟨fun g unixTime' h => ?_, ?_, fun i p hp => ?_⟩
  · rw [Statement.queryFromFilter_eq, Statement.queryFromFilter_eq]
    exact text_eq_of_sameShape h unixTime unixTime'
  · rw [Statement.queryFromFilter_eq]
    simp only [← Query.text_template, ← Query.params_template]
    exact Template.count_text hplain
  · rw [Statement.queryFromFilter_eq] at hp ⊢
    simp only [← Query.text_template, ← Query.params_template] at hp ⊢
    exact Template.placeholder_at hplain hp

/-- A quote and a statement of the client's own, in the place of an author. -/
theorem sampleInjection_same_text :
    (Statement.queryFromFilter
      { ReqFilter.initial with authors := some ["00' OR 1=1; DROP TABLE event; --"] } 0).1 =
    (Statement.queryFromFilter
      { ReqFilter.initial with authors := some [sampleDelegator] } 0).1 :=
  (no_client_string_in_text
    { ReqFilter.initial with authors := some ["00' OR 1=1; DROP TABLE event; --"] } 0).1
    { ReqFilter.initial with authors := some [sampleDelegator] } 0
    { kinds := rfl, since := rfl, until_ := rfl, limit := rfl, forceNoMatch := rfl, ids := rfl
      authors := rfl, tags := rfl, operands := fun _ => rfl }

end Floonet.Sqlite
