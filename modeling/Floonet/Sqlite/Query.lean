import Mathlib.Algebra.BigOperators.Group.Finset.Basic
import Mathlib.Data.Finset.Sort
import Mathlib.Data.String.Basic
import Floonet.Delegation.Processing
import Floonet.Subscription
import Floonet.Sqlite.Run

/-!
# Stored queries

`queryFromFilter` turns a filter into one `SELECT` over `event`. Its condition is a
list of components joined by `AND`; a `Component` has the SQL text the source
writes (`render`), its parameters, and its meaning on a row (`holds`). Integers
are written into the text, where SQLite compares them as numbers whatever their
size.

The same filter is matched against fresh events by `interestedInEvent`. The two
part ways in three places: the query never looks at the delegator of an event;
it skips a tag condition without values, which no live event meets except for an
`#x&` condition on a letter it carries; and SQLite does not run every statement.
`selects_iff_interested` says exactly when they agree.
-/

namespace Floonet.Sqlite

open Hex (Bytes)
open Delegation (sampleToken sampleDelegator sampleApproved)

/-! ## The generated query -/

/-- A bound parameter. -/
inductive SqlParam where
  | blob (b : Option Bytes)
  | text (s : String)
  | integer (n : Nat)

/-- Which values a tag row may have. -/
inductive ValueTest where
  | among (values : List String)
  | is (value : String)

/-- A subquery that looks for a tag row of the event. Kind and time of the filter
are repeated, to reduce the number of tags that come back. -/
structure TagClause where
  name : String
  test : ValueTest
  kinds : Option (List Nat)
  since : Option Nat
  until_ : Option Nat

/-- Individual filter components. -/
inductive Component where
  | author (blobs : List (Option Bytes))
  | kind (ks : List Nat)
  | eventHash (blobs : List (Option Bytes))
  | never
  | tag (clause : TagClause)
  | since (t : Nat)
  | until_ (t : Nat)
  | unexpired (now : Nat)

/-- The statement for one filter; a malformed filter has no components. -/
structure Query where
  index : Option String
  components : Option (List Component)
  limit : Option Nat

/-- `[String]::join`. -/
def joined (sep : String) (parts : List String) : String := sep.intercalate parts

/-- As many `?` as there are values. -/
def repeatVars (count : Nat) : String := joined ", " (List.replicate count "?")

/-- Kinds are numbers, so they are written into the text. -/
def kindList (ks : List Nat) : String := "kind IN (" ++ joined ", " (ks.map toString) ++ ")"

/-- The parts of the condition in a tag subquery. -/
def TagClause.whereParts (c : TagClause) : List String :=
  [match c.test with
    | .among values => "name=? AND value IN (" ++ repeatVars values.length ++ ")"
    | .is _ => "name=? AND value=?"] ++
  (c.kinds.map fun ks => "AND " ++ kindList ks).toList ++
  (c.since.map fun t => "AND created_at >= " ++ toString t).toList ++
  (c.until_.map fun t => "AND created_at <= " ++ toString t).toList

namespace Component

/-- The text of a component. -/
def render : Component → String
  | .author blobs => "(" ++ joined " OR " (blobs.map fun _ => "author=?") ++ ")"
  | .kind ks => kindList ks
  | .eventHash blobs => "(" ++ joined " OR " (blobs.map fun _ => "event_hash=?") ++ ")"
  | .never => "false"
  | .tag c => "e.id IN (SELECT t.event_id FROM tag t WHERE (" ++ joined " " c.whereParts ++ "))"
  | .since t => "created_at >= " ++ toString t
  | .until_ t => "created_at <= " ++ toString t
  | .unexpired _ => "(expires_at IS NULL OR expires_at > ?)"

/-- The parameters of a component, in order. -/
def params : Component → List SqlParam
  | .author blobs => blobs.map .blob
  | .eventHash blobs => blobs.map .blob
  | .tag c => .text c.name ::
    match c.test with
    | .among values => values.map .text
    | .is value => [.text value]
  | .unexpired now => [.integer now]
  | _ => []

end Component

namespace Query

/-- The text of the statement. -/
def text (q : Query) : String :=
  match q.components with
  | none => "SELECT e.content FROM event e WHERE 1=0"
  | some components =>
    "SELECT e.content FROM event e " ++ ((q.index.map fun i => "INDEXED BY " ++ i).getD "") ++
      " WHERE hidden!=TRUE AND " ++ joined " AND " (components.map Component.render) ++
      match q.limit with
      | some lim => " ORDER BY e.created_at DESC LIMIT " ++ toString lim
      | none => " ORDER BY e.created_at ASC"

/-- The bound values, in the order of their placeholders. -/
def params (q : Query) : List SqlParam := (q.components.getD []).flatMap Component.params

end Query

/-- Decide if there is an index that should be used explicitly. -/
def overrideIndex (f : ReqFilter) : Option String :=
  if f.ids.isSome then some "event_hash_index"
  else if (f.kinds.any fun ks => 1 < ks.length) && f.since.isNone && f.until_.isNone &&
      f.tags.isNone && f.authors.isNone then some "kind_created_at_index"
  else if f.authors.isSome then
    if f.since.isNone && f.until_.isNone && f.limit.isNone then
      if f.kinds.isNone then some "author_index" else some "author_kind_index"
    else some "author_created_at_index"
  else none

/-- The subqueries of one tag condition: one for any of the values, or one for
each value that must be there. A condition without values is skipped. -/
def tagComponents (f : ReqFilter) (key : Char) (val : TagOperand) : List Component :=
  let clause := fun test => Component.tag
    { name := String.singleton key, test, kinds := f.kinds, since := f.since, until_ := f.until_ }
  if val.values = ∅ then []
  else
    match val with
    | .or v => [clause (.among (v.sort (· ≤ ·)))]
    | .and v => (v.sort (· ≤ ·)).map fun x => clause (.is x)

/-- The subqueries of all tag conditions, by key. -/
def tagsComponents (f : ReqFilter) : List Component :=
  match f.tags with
  | some map => (map.keys.sort (· ≤ ·)).flatMap fun key =>
    (map.lookup key).elim [] fun val => tagComponents f key val
  | none => []

/-- Create a dynamic SQL subquery and params from a subscription filter. -/
def queryFromFilter (f : ReqFilter) (unixTime : Nat) : Query :=
  if f.forceNoMatch then { index := none, components := none, limit := none }
  else
    { index := overrideIndex f
      components := some (
        (f.authors.map fun authvec =>
          if authvec.isEmpty then Component.never
          else .author (authvec.map Hex.decode)).toList ++
        (f.kinds.map Component.kind).toList ++
        (f.ids.map fun idvec =>
          if idvec.isEmpty then Component.never
          else .eventHash (idvec.map Hex.decode)).toList ++
        tagsComponents f ++
        (f.since.map Component.since).toList ++
        (f.until_.map Component.until_).toList ++
        [.unexpired unixTime])
      limit := f.limit }

/-- The statement for two kinds of one author. -/
example :
    (queryFromFilter { ReqFilter.initial with kinds := some [1, 7], authors := some ["ab"] }
      1700000000).text =
    "SELECT e.content FROM event e INDEXED BY author_kind_index WHERE hidden!=TRUE AND " ++
      "(author=?) AND kind IN (1, 7) AND (expires_at IS NULL OR expires_at > ?) " ++
      "ORDER BY e.created_at ASC" := by
  decide +kernel

/-! ## What the condition selects

Component by component the condition of the statement says of a row what the filter says of its
event, apart from delegators and tag conditions without values. -/

/-- The stored text passes the test. -/
def ValueTest.holds : ValueTest → String → Bool
  | .among values, v => values.contains v
  | .is value, v => v == value

/-- The condition of a tag subquery, on the columns of `tag`. -/
def TagClause.matches (c : TagClause) (t : TagRow) : Bool :=
  t.name == c.name && c.test.holds t.value && (c.kinds.all fun ks => ks.contains t.kind) &&
    (c.since.all fun from_ => decide (from_ ≤ t.createdAt)) &&
    (c.until_.all fun to_ => decide (t.createdAt ≤ to_))

/-- The meaning of a component on a row of `event`; `column = NULL` is never
true. -/
def Component.holds (db : Db) (r : EventRow) : Component → Bool
  | .author blobs => blobs.contains (some r.author)
  | .kind ks => ks.contains r.kind
  | .eventHash blobs => blobs.contains (some r.eventHash)
  | .never => false
  | .tag c => ((db.tags.filter c.matches).map TagRow.eventId).contains r.id
  | .since t => t ≤ r.createdAt
  | .until_ t => r.createdAt ≤ t
  | .unexpired now => r.expiresAt.all fun exp => decide (now < exp)

/-- The `WHERE` condition holds of the row. -/
def Query.selects (db : Db) (q : Query) (r : EventRow) : Bool :=
  match q.components with
  | none => false
  | some components => !r.hidden && components.all (Component.holds db r)

/-! ## What SQLite refuses

A statement with more parameters than one may carry is not prepared, and neither is a text the
parser gives up on: one that is too long, or an expression too deep, such as 998 ids or authors
joined by `OR`. A `LIMIT` of `2 ^ 63` or more is prepared, but is no integer to SQLite and fails
at the first row. Either way the caller has an error in place of rows. What the parser makes of a
text is left to the engine (`Sql.Engine.takes`); the other two are counted here. -/

/-- SQLite prepares the statement and runs it. -/
def Query.taken (eng : Sql.Engine) (q : Query) : Bool :=
  decide (q.params.length ≤ eng.maxVariables) && (q.limit.all fun lim => decide (lim < 2 ^ 63)) &&
    eng.takes q.text

/-- The statement is run, and its condition holds of the row. -/
def Query.finds (eng : Sql.Engine) (db : Db) (q : Query) (r : EventRow) : Bool :=
  q.taken eng && q.selects db r

/-- The parameters of a tag condition: its name once and any of the values, or the name with
each of them. -/
def operandParams : TagOperand → Nat
  | .or v => if v = ∅ then 0 else v.card + 1
  | .and v => 2 * v.card

/-- How many parameters the statement of a filter has; the last one is the time. -/
def paramCount (f : ReqFilter) : Nat :=
  f.authors.elim 0 List.length + f.ids.elim 0 List.length +
    f.tags.elim 0 (fun map => ∑ key ∈ map.keys, (map.lookup key).elim 0 operandParams) + 1

/-- The text of the statement of a filter. The time is a parameter and not in it. -/
def statementText (f : ReqFilter) : String := (queryFromFilter f 0).text

/-- SQLite takes the statement of the filter. -/
structure Taken (eng : Sql.Engine) (f : ReqFilter) : Prop where
  params : paramCount f ≤ eng.maxVariables
  limit : ∀ lim, f.limit = some lim → lim < 2 ^ 63
  text : eng.takes (statementText f) = true

variable {eng : Sql.Engine} {db : Db} {r : EventRow} {f : ReqFilter} {e : Event}

/-- The text does not depend on the time. -/
theorem text_queryFromFilter (f : ReqFilter) (now : Nat) :
    (queryFromFilter f now).text = statementText f := by
  have hrender : ∀ l : List Component, (l ++ [Component.unexpired now]).map Component.render =
      (l ++ [Component.unexpired 0]).map Component.render := by
    intro l
    rw [List.map_append, List.map_append]
    rfl
  rw [statementText]
  rcases hforce : f.forceNoMatch
  · simp only [queryFromFilter, hforce, Bool.false_eq_true, if_false, Query.text, hrender]
  · simp only [queryFromFilter, hforce, if_true]

theorem limit_of_not_forced (hforce : f.forceNoMatch = false) (now : Nat) :
    (queryFromFilter f now).limit = f.limit := by
  rw [queryFromFilter, hforce]
  rfl

/-- A list of blobs has a parameter for each. -/
theorem length_blobParams (vs : Option (List String)) (mk : List (Option Bytes) → Component)
    (hmk : ∀ blobs, (mk blobs).params.length = blobs.length) :
    ((vs.map fun l => if l.isEmpty then Component.never
      else mk (l.map Hex.decode)).toList.flatMap Component.params).length =
        vs.elim 0 List.length := by
  rcases vs with _ | l
  · rfl
  · rw [Option.map_some, Option.toList_some, List.flatMap_singleton, Option.elim_some]
    rcases l with _ | ⟨s, rest⟩
    · rfl
    · rw [if_neg (by simp), hmk, List.length_map]

/-- A tag condition binds its values and two more, or one for each value. -/
theorem length_tagParams (f : ReqFilter) (key : Char) (val : TagOperand) :
    ((tagComponents f key val).flatMap Component.params).length = operandParams val := by
  cases val with
  | or v =>
    rw [tagComponents, operandParams, TagOperand.values]
    split_ifs with hv
    · rfl
    · rw [List.flatMap_singleton, Component.params, List.length_cons, List.length_map,
        Finset.length_sort]
  | and v =>
    rw [tagComponents, operandParams, TagOperand.values]
    split_ifs with hv
    · rw [hv]
      rfl
    · rw [List.flatMap_map, List.length_flatMap]
      simp [Component.params, mul_comm]

theorem length_tagsParams (f : ReqFilter) :
    ((tagsComponents f).flatMap Component.params).length =
      f.tags.elim 0 fun map => ∑ key ∈ map.keys, (map.lookup key).elim 0 operandParams := by
  rw [tagsComponents]
  rcases f.tags with _ | map
  · rfl
  · have hsum : ∀ key, (((map.lookup key).elim [] fun val => tagComponents f key val).flatMap
        Component.params).length = (map.lookup key).elim 0 operandParams := by
      intro key
      rcases map.lookup key with _ | val
      · rfl
      · exact length_tagParams f key val
    simp only [List.flatMap_assoc, List.length_flatMap, hsum, Option.elim_some]
    rw [← List.sum_toFinset _ (Finset.sort_nodup ..), Finset.sort_toFinset]

/-- The parameters of the statement are those of the filter. -/
theorem length_params (hforce : f.forceNoMatch = false) (now : Nat) :
    (queryFromFilter f now).params.length = paramCount f := by
  have hauthors := length_blobParams f.authors .author fun blobs => by
    rw [Component.params, List.length_map]
  have hids := length_blobParams f.ids .eventHash fun blobs => by
    rw [Component.params, List.length_map]
  have hkinds : (f.kinds.map Component.kind).toList.flatMap Component.params = [] := by
    cases f.kinds <;> rfl
  have hsince : (f.since.map Component.since).toList.flatMap Component.params = [] := by
    cases f.since <;> rfl
  have huntil : (f.until_.map Component.until_).toList.flatMap Component.params = [] := by
    cases f.until_ <;> rfl
  simp only [queryFromFilter, hforce, Bool.false_eq_true, if_false, Query.params,
    Option.getD_some, List.flatMap_append, List.length_append, hauthors, hids, hkinds, hsince,
    huntil, length_tagsParams, List.flatMap_singleton, Component.params, List.length_singleton,
    List.length_nil, add_zero, paramCount]

/-- Whether the statement runs is seen from the filter. -/
theorem taken_iff (hforce : f.forceNoMatch = false) (now : Nat) :
    (queryFromFilter f now).taken eng = true ↔ Taken eng f := by
  rw [Query.taken, length_params hforce, limit_of_not_forced hforce, text_queryFromFilter,
    Bool.and_eq_true, Bool.and_eq_true, decide_eq_true_eq, Option.all_eq_true]
  simp only [decide_eq_true_eq]
  exact ⟨fun ⟨⟨hvars, hlimit⟩, htext⟩ => ⟨hvars, hlimit, htext⟩,
    fun h => ⟨⟨h.params, h.limit⟩, h.text⟩⟩

/-! ## The rows of an event -/

/-- The kind and time conditions of the filter, on an event. -/
def TagClause.inRange (c : TagClause) (e : Event) : Prop :=
  (c.kinds.all fun ks => ks.contains e.kind) = true ∧
    (c.since.all fun from_ => decide (from_ ≤ e.createdAt)) = true ∧
    (c.until_.all fun to_ => decide (e.createdAt ≤ to_)) = true

/-- A tag subquery looks at the searchable tags of the event. -/
theorem holds_tag (hcoh : db.Coherent) (hr : r ∈ db.events) (hrow : RowOf e r) {c : TagClause} :
    (Component.tag c).holds db r = true ↔
      (∃ v, (c.name, v) ∈ e.searchableTags ∧ c.test.holds v = true) ∧ c.inRange e := by
  have htags : ∀ t, t ∈ db.tags ∧ t.eventId = r.id ↔
      ∃ nv ∈ e.searchableTags, tagRow r.id e nv = t := by
    intro t
    have := mem_tagsOf hcoh hr (t := t)
    rw [hrow.content, Db.tagsOf, List.mem_filter, beq_iff_eq] at this
    exact this
  simp only [Component.holds, List.contains_iff_mem, List.mem_map, List.mem_filter]
  refine ⟨?_, ?_⟩
  · rintro ⟨t, ⟨ht, hm⟩, hid⟩
    obtain ⟨⟨n, v⟩, hnv, rfl⟩ := (htags t).mp ⟨ht, hid⟩
    simp only [TagClause.matches, tagRow, Bool.and_eq_true, beq_iff_eq] at hm
    obtain ⟨⟨⟨⟨rfl, hv⟩, hk⟩, hs⟩, hu⟩ := hm
    exact ⟨⟨v, hnv, hv⟩, hk, hs, hu⟩
  · rintro ⟨⟨v, hnv, hv⟩, hk, hs, hu⟩
    obtain ⟨ht, hid⟩ := (htags (tagRow r.id e (c.name, v))).mpr ⟨_, hnv, rfl⟩
    refine ⟨_, ⟨ht, ?_⟩, hid⟩
    simp only [TagClause.matches, tagRow, Bool.and_eq_true, beq_iff_eq]
    exact ⟨⟨⟨⟨trivial, hv⟩, hk⟩, hs⟩, hu⟩

/-- The values of a tag condition are found among the tags of the event. -/
def tagValuesFound (e : Event) (key : Char) : TagOperand → Prop
  | .or v => ∃ x ∈ v, (String.singleton key, x) ∈ e.searchableTags
  | .and v => ∀ x ∈ v, (String.singleton key, x) ∈ e.searchableTags

/-- A tag clause asks for a value of its condition, within kind and time of the filter. -/
theorem mem_tagComponents {key : Char} {val : TagOperand} {c : Component}
    (hc : c ∈ tagComponents f key val) :
    ∃ clause : TagClause, c = .tag clause ∧ clause.name = String.singleton key ∧
      clause.kinds = f.kinds ∧ clause.since = f.since ∧ clause.until_ = f.until_ ∧
      ∃ x ∈ val.values, clause.test.holds x = true := by
  simp only [tagComponents] at hc
  split_ifs at hc with hnil
  · exact absurd hc List.not_mem_nil
  · cases val with
    | or v =>
      obtain ⟨x, hx⟩ := Finset.nonempty_iff_ne_empty.mpr hnil
      refine ⟨_, List.mem_singleton.mp hc, rfl, rfl, rfl, rfl, x, hx, ?_⟩
      exact List.contains_iff_mem.mpr ((Finset.mem_sort _).mpr hx)
    | and v =>
      obtain ⟨x, hx, rfl⟩ := List.mem_map.mp hc
      rw [Finset.mem_sort] at hx
      exact ⟨_, rfl, rfl, rfl, rfl, rfl, x, hx, by simp [ValueTest.holds]⟩

/-- The subqueries of a condition with values. -/
theorem holds_tagComponents (hcoh : db.Coherent) (hr : r ∈ db.events) (hrow : RowOf e r)
    {key : Char} {val : TagOperand} (hne : val.values ≠ ∅) :
    (tagComponents f key val).all (Component.holds db r) = true ↔
      tagValuesFound e key val ∧ f.kindMatch e.kind = true ∧
        (f.since.all fun t => decide (t ≤ e.createdAt)) = true ∧
        (f.until_.all fun t => decide (e.createdAt ≤ t)) = true := by
  simp only [tagComponents, if_neg hne]
  cases val with
  | or v =>
    simp only [List.all_cons, List.all_nil, Bool.and_true, holds_tag hcoh hr hrow]
    simp only [ValueTest.holds, List.contains_iff_mem, Finset.mem_sort, tagValuesFound,
      TagClause.inRange, ReqFilter.kindMatch]
    refine and_congr_left fun _ => ?_
    exact ⟨fun ⟨x, hx, hv⟩ => ⟨x, hv, hx⟩, fun ⟨x, hv, hx⟩ => ⟨x, hx, hv⟩⟩
  | and v =>
    obtain ⟨x₀, hx₀⟩ := Finset.nonempty_iff_ne_empty.mpr hne
    simp only [List.all_map, List.all_eq_true, Function.comp_apply, Finset.mem_sort,
      holds_tag hcoh hr hrow]
    simp only [ValueTest.holds, beq_iff_eq, tagValuesFound, TagClause.inRange,
      ReqFilter.kindMatch]
    refine ⟨?_, ?_⟩
    · intro h
      refine ⟨fun x hx => ?_, (h x₀ hx₀).2⟩
      obtain ⟨⟨y, hy, rfl⟩, -⟩ := h x hx
      exact hy
    · rintro ⟨hall, hrange⟩ x hx
      exact ⟨⟨x, hall x hx, rfl⟩, hrange⟩

/-- The subqueries of all tag conditions. -/
theorem holds_tagsComponents :
    (tagsComponents f).all (Component.holds db r) = true ↔
      ∀ map, f.tags = some map → ∀ key val, map.lookup key = some val →
        (tagComponents f key val).all (Component.holds db r) = true := by
  rw [tagsComponents]
  rcases f.tags with _ | map
  · simp
  · simp only [Option.some.injEq, forall_eq', List.all_flatMap, List.all_eq_true,
      Finset.mem_sort, Finmap.mem_keys]
    refine ⟨?_, ?_⟩
    · intro h key val hl
      have := h key (Finmap.mem_of_lookup_eq_some hl)
      rwa [hl] at this
    · intro h key _
      rcases hl : map.lookup key with _ | val
      · exact fun c hc => absurd hc List.not_mem_nil
      · exact h key val hl

/-- The filter apart from authors and tag conditions without values. -/
structure MatchesRest (f : ReqFilter) (e : Event) : Prop where
  ids : f.idsMatch e = true
  kind : f.kindMatch e.kind = true
  since : (f.since.all fun t => decide (t ≤ e.createdAt)) = true
  until_ : (f.until_.all fun t => decide (e.createdAt ≤ t)) = true
  tags : ∀ map, f.tags = some map → ∀ key val, map.lookup key = some val → val.values ≠ ∅ →
    tagValuesFound e key val
  not_forced : f.forceNoMatch = false

/-- Every tag condition without values asks for all of no values, under a letter
the event carries. -/
def EmptyTagsMet (f : ReqFilter) (e : Event) : Prop :=
  ∀ map, f.tags = some map → ∀ key val, map.lookup key = some val → val.values = ∅ →
    val = .and ∅ ∧ ∃ x, (String.singleton key, x) ∈ e.searchableTags

/-- The ids and authors of the filter are full lower-case hex. -/
structure FullHexFilter (f : ReqFilter) : Prop where
  ids : ∀ vs, f.ids = some vs → ∀ v ∈ vs, ReqFilter.FullHex v
  authors : ∀ vs, f.authors = some vs → ∀ v ∈ vs, ReqFilter.FullHex v

/-- A list of blobs from full hex strings is matched like the strings. -/
theorem holds_blobs (db : Db) (r : EventRow) (mk : List (Option Bytes) → Component)
    {vs : Option (List String)} {s : String} {bs : Bytes}
    (hmk : ∀ blobs, (mk blobs).holds db r = blobs.contains (some bs))
    (hvs : ∀ l, vs = some l → ∀ v ∈ l, ReqFilter.FullHex v) (hs : ReqFilter.FullHex s)
    (hd : Hex.decode s = some bs) :
    (vs.map fun l => if l.isEmpty then Component.never else mk (l.map Hex.decode)).toList.all
        (Component.holds db r) = true ↔
      (vs.all fun l => ReqFilter.prefixMatch l s) = true := by
  cases vs with
  | none => simp
  | some l =>
    have hl := hvs l rfl
    simp only [Option.map_some, Option.toList_some, List.all_cons, List.all_nil, Bool.and_true,
      Option.all_some, ReqFilter.prefixMatch_iff hl hs]
    by_cases hnil : l.isEmpty = true
    · rw [if_pos hnil, List.isEmpty_iff.mp hnil]
      simp [Component.holds]
    · rw [if_neg hnil, hmk, List.contains_iff_mem, ReqFilter.mem_iff_decode hl hs hd]

/-- The query selects what the filter matches by author, without a look at tag
conditions that have no values. -/
theorem selects_iff (hcoh : db.Coherent) (hr : r ∈ db.events) (hrow : RowOf e r)
    (hf : FullHexFilter f) (hid : ReqFilter.FullHex e.id) (hpk : ReqFilter.FullHex e.pubkey)
    (hvis : r.hidden = false) {now : Nat}
    (hexp : (r.expiresAt.all fun exp => decide (now < exp)) = true) :
    (queryFromFilter f now).selects db r = true ↔
      MatchesRest f e ∧ f.authorsMatch e = true := by
  by_cases hforce : f.forceNoMatch = true
  · simp only [queryFromFilter, hforce, if_true, Query.selects, Bool.false_eq_true, false_iff]
    rintro ⟨hm, -⟩
    rw [hm.not_forced] at hforce
    cases hforce
  · have hids := holds_blobs db r .eventHash (fun _ => rfl) hf.ids hid hrow.decode_id
    have hauthors := holds_blobs db r .author (fun _ => rfl) hf.authors hpk hrow.decode_pubkey
    have hkinds : (f.kinds.map Component.kind).toList.all (Component.holds db r) =
        f.kindMatch e.kind := by
      rw [ReqFilter.kindMatch, ← hrow.kind]
      cases f.kinds <;> simp [Component.holds]
    have hsince : (f.since.map Component.since).toList.all (Component.holds db r) =
        f.since.all fun t => decide (t ≤ e.createdAt) := by
      rw [← hrow.createdAt]
      cases f.since <;> simp [Component.holds]
    have huntil : (f.until_.map Component.until_).toList.all (Component.holds db r) =
        f.until_.all fun t => decide (e.createdAt ≤ t) := by
      rw [← hrow.createdAt]
      cases f.until_ <;> simp [Component.holds]
    simp only [queryFromFilter, hforce, if_false, Query.selects, hvis, Bool.not_false,
      Bool.true_and, List.all_append, hkinds, hsince, huntil, List.all_cons, List.all_nil,
      Bool.and_true, Component.holds, hexp, Bool.and_eq_true, hids, hauthors,
      holds_tagsComponents, Bool.false_eq_true]
    refine ⟨?_, ?_⟩
    · rintro ⟨⟨⟨⟨⟨ha, hk⟩, hi⟩, ht⟩, hs⟩, hu⟩
      refine ⟨⟨hi, hk, hs, hu, fun map hmap key val hl hne => ?_, by simpa using hforce⟩, ha⟩
      exact ((holds_tagComponents hcoh hr hrow hne).mp (ht map hmap key val hl)).1
    · rintro ⟨⟨hi, hk, hs, hu, ht, -⟩, ha⟩
      refine ⟨⟨⟨⟨⟨ha, hk⟩, hi⟩, fun map hmap key val hl => ?_⟩, hs⟩, hu⟩
      by_cases hne : val.values = ∅
      · simp [tagComponents, hne]
      · exact (holds_tagComponents hcoh hr hrow hne).mpr ⟨ht map hmap key val hl hne, hk, hs, hu⟩

/-! ## What the live match finds -/

/-- The index of a wrapped event answers a tag condition from the tag list. -/
theorem genericTagValIntersect_wrapped {crypto : Crypto} {ec : EventCmd}
    (hec : ec.Deserialized) (h : EventWrapper.from crypto ec = .ok (.wrappedEvent e))
    (key : Char) (val : TagOperand) :
    e.genericTagValIntersect key val = true ↔
      (val.values ≠ ∅ → tagValuesFound e key val) ∧
        (val.values = ∅ → val = .and ∅ ∧ ∃ x, (String.singleton key, x) ∈ e.searchableTags) := by
  obtain ⟨-, d, -, rfl⟩ := EventWrapper.from_eq_wrappedEvent h
  have htags : Event.searchableTags { ec.event.buildIndex with delegatedBy := d } =
      ec.event.searchableTags := by
    rw [Event.buildIndex]
    split <;> rfl
  refine (Event.genericTagValIntersect_buildIndex hec.2 key val).trans ?_
  cases val with
  | or v =>
    simp only [TagOperand.values, tagValuesFound, htags, reduceCtorEq, false_and]
    refine ⟨?_, ?_⟩
    · rintro ⟨x, hx, hmem⟩
      exact ⟨fun _ => ⟨x, hx, hmem⟩, fun hv => absurd hx (by simp [hv])⟩
    · rintro ⟨hne, hempty⟩
      exact hne hempty
  | and v =>
    simp only [TagOperand.values, tagValuesFound, htags, TagOperand.and.injEq]
    refine ⟨?_, ?_⟩
    · rintro ⟨hx, hall⟩
      exact ⟨fun _ => hall, fun hv => ⟨hv, hx⟩⟩
    · rintro ⟨hne, hempty⟩
      by_cases hv : v = ∅
      · exact ⟨(hempty hv).2, by simp [hv]⟩
      · obtain ⟨x, hx⟩ := Finset.nonempty_iff_ne_empty.mpr hv
        exact ⟨⟨x, hne hv x hx⟩, hne hv⟩

/-- The live match takes authors or delegators, and meets every tag condition. -/
theorem interestedInEvent_iff {crypto : Crypto} {ec : EventCmd} (hec : ec.Deserialized)
    (h : EventWrapper.from crypto ec = .ok (.wrappedEvent e)) :
    f.interestedInEvent e = true ↔
      MatchesRest f e ∧ (f.authorsMatch e = true ∨ f.delegatedAuthorsMatch e = true) ∧
        EmptyTagsMet f e := by
  simp only [ReqFilter.interestedInEvent, Bool.and_eq_true, Bool.or_eq_true,
    ReqFilter.tagMatch_iff, genericTagValIntersect_wrapped hec h, Bool.not_eq_true']
  refine ⟨?_, ?_⟩
  · rintro ⟨⟨⟨⟨⟨⟨hi, hs⟩, hu⟩, hk⟩, ha⟩, ht⟩, hforce⟩
    exact ⟨⟨hi, hk, hs, hu, fun map hmap key val hl => (ht map hmap key val hl).1, hforce⟩, ha,
      fun map hmap key val hl => (ht map hmap key val hl).2⟩
  · rintro ⟨⟨hi, hk, hs, hu, ht, hforce⟩, ha, he⟩
    exact ⟨⟨⟨⟨⟨⟨hi, hs⟩, hu⟩, hk⟩, ha⟩, fun map hmap key val hl =>
      ⟨ht map hmap key val hl, he map hmap key val hl⟩⟩, hforce⟩

/-- The id and the lower-case key of a wrapped event are full hex. -/
theorem fullHex_wrapped {crypto : Crypto} {ec : EventCmd}
    (h : EventWrapper.from crypto ec = .ok (.wrappedEvent e)) (hlow : isLowerHex e.pubkey = true) :
    ReqFilter.FullHex e.id ∧ ReqFilter.FullHex e.pubkey := by
  obtain ⟨hval, d, -, rfl⟩ := EventWrapper.from_eq_wrappedEvent h
  have hfields : ec.event.buildIndex.id = ec.event.id ∧
      ec.event.buildIndex.pubkey = ec.event.pubkey := by
    rw [Event.buildIndex]
    split <;> exact ⟨rfl, rfl⟩
  simp only [hfields.1, hfields.2] at hlow ⊢
  refine ⟨⟨hval.isLowerHex_id, hval.byteLen_id⟩, hlow, ?_⟩
  obtain ⟨key, hkey, hlen⟩ := hval.exists_decode_pubkey
  have hlow' := hlow
  rw [isLowerHex_eq] at hlow'
  rw [Hex.eq_encode_of_decode hlow' hkey, byteLen_encode, hlen]

/-- **When stored queries and live matching agree.** On a visible and unexpired
row of a wrapped event and a filter of full hex strings: exactly if, for an event
that matches the rest of the filter, SQLite takes the statement and the live match
meets the tag conditions without values, or neither, where the author matches; and
where only the delegator does, the live match does not meet them. -/
theorem selects_iff_interested (crypto : Crypto) (eng : Sql.Engine) (ops : List Op)
    (ec : EventCmd) (e : Event) (f : ReqFilter) (r : EventRow) (now : Nat)
    (hec : ec.Deserialized) (hwrap : EventWrapper.from crypto ec = .ok (.wrappedEvent e))
    (hlow : isLowerHex e.pubkey = true) (hf : FullHexFilter f)
    (hr : r ∈ (run eng ops).events) (hcontent : r.content = e.serialized)
    (hvis : r.hidden = false) (hexp : (r.expiresAt.all fun exp => decide (now < exp)) = true) :
    ((queryFromFilter f now).finds eng (run eng ops) r = true ↔ f.interestedInEvent e = true) ↔
      (MatchesRest f e →
        (f.authorsMatch e = true → (EmptyTagsMet f e ↔ Taken eng f)) ∧
        (f.authorsMatch e = false → ¬ (f.delegatedAuthorsMatch e = true ∧ EmptyTagsMet f e))) := by
  have hcoh := run_coherent eng ops
  obtain ⟨hid, hpk⟩ := fullHex_wrapped hwrap hlow
  rw [Query.finds, Bool.and_eq_true,
    selects_iff hcoh hr ((hcoh r hr).rowOf hcontent) hf hid hpk hvis hexp,
    interestedInEvent_iff hec hwrap]
  by_cases hm : MatchesRest f e
  · rw [taken_iff hm.not_forced]
    by_cases ha : f.authorsMatch e = true <;> simp [hm, ha, iff_comm]
  · simp [hm]

/-- A note without tags. -/
def sampleQueried : Recorded where
  id := 0xdfb1807b5228856317ff59f3a5c522b2a3df50b134cce7c1cb879b6c85c26be0
  pubkey := 0x5cbdf0646e5db4eaa398f365f2ea7a0e3d419b7e0330e39ce92bddedcac4f9bc
  sigR := 0xb8856159c9137fca75803c9a196d5235f22548db4b2f182a10829ba3c7d4483e
  sigS := 0xf8253e0bd78ef9e4cf6d991a0bff02d9a71306bbb796b62d206655396908c9e8
  createdAt := 1700000080
  kind := 1
  tags := []
  content := "hello"

/-- The command a recorded event arrives in. -/
def sampleCmd (r : Recorded) : EventCmd where
  cmd := "EVENT"
  event := r.event

theorem sampleQueried_wrapped :
    EventWrapper.from (Recorded.crypto [sampleQueried]) (sampleCmd sampleQueried) =
      .ok (.wrappedEvent sampleQueried.event) := by
  have hval : (sampleCmd sampleQueried).event.validate (Recorded.crypto [sampleQueried]) =
      .ok () :=
    Recorded.validated (by decide) (by simp)
  simp only [EventWrapper.from, hval]
  rfl

/-- An event written to an empty store is in the row that is there. -/
theorem exists_row_alone {eng : Sql.Engine} (now : Nat)
    (hrows : (run eng [.persistEvent e]).events.map (fun r => (r.hidden, r.expiresAt)) =
      [(false, none)]) :
    ∃ r ∈ (run eng [.persistEvent e]).events, r.content = e.serialized ∧ r.hidden = false ∧
      (r.expiresAt.all fun exp => decide (now < exp)) = true := by
  obtain ⟨r, hr, hcols⟩ := List.mem_map.mp (hrows ▸ List.mem_singleton_self _)
  obtain ⟨e', he', -, hrow⟩ := exists_rowOf_run hr
  obtain rfl : e' = e := by simpa [written] using he'
  simp only [Prod.mk.injEq] at hcols
  exact ⟨r, hr, hrow.content, hcols.1, by rw [hcols.2]; rfl⟩

/-- A filter for notes. -/
def sampleKindFilter : ReqFilter := { ReqFilter.initial with kinds := some [1] }

theorem sampleKindFilter_agrees :
    ∃ r ∈ (run (Sql.Engine.inOrder 32766) [.persistEvent sampleQueried.event]).events,
      r.content = sampleQueried.event.serialized ∧
      ((queryFromFilter sampleKindFilter 1700000090).finds (Sql.Engine.inOrder 32766)
          (run (Sql.Engine.inOrder 32766) [.persistEvent sampleQueried.event]) r = true ↔
        sampleKindFilter.interestedInEvent sampleQueried.event = true) := by
  have hrows : (run (Sql.Engine.inOrder 32766) [.persistEvent sampleQueried.event]).events.map
      (fun r => (r.hidden, r.expiresAt)) = [(false, none)] := by
    decide +kernel
  obtain ⟨r, hr, hcontent, hvis, hexp⟩ := exists_row_alone 1700000090 hrows
  refine ⟨r, hr, hcontent, (selects_iff_interested (Recorded.crypto [sampleQueried]) _ _
    (sampleCmd sampleQueried) _ _ _ _ ⟨rfl, rfl⟩ sampleQueried_wrapped (isLowerHex_encode _)
    ⟨?_, ?_⟩ hr hcontent hvis hexp).mpr ?_⟩
  · exact fun _ h => by cases h
  · exact fun _ h => by cases h
  · have htaken : Taken (Sql.Engine.inOrder 32766) sampleKindFilter :=
      ⟨by decide, fun _ hlim => (by cases hlim), rfl⟩
    refine fun _ => ⟨fun _ => iff_of_true (fun _ hmap => ?_) htaken, fun ha => ?_⟩
    · cases hmap
    · cases ha

/-- The note after parsing: its index is built and the delegator is found. -/
def sampleWrapped : Event :=
  { sampleApproved.event.buildIndex with delegatedBy := some sampleDelegator }

theorem sampleApproved_wrapped :
    EventWrapper.from (Recorded.cryptoWith sampleToken [sampleApproved])
      (sampleCmd sampleApproved) = .ok (.wrappedEvent sampleWrapped) := by
  have hne : sampleApproved.event.toCanonical ≠ some sampleToken.text := by
    decide +kernel
  have hval : (sampleCmd sampleApproved).event.validate
      (Recorded.cryptoWith sampleToken [sampleApproved]) = .ok () :=
    Recorded.validated_cryptoWith (by decide) (by simp) hne
  have hdel : (sampleCmd sampleApproved).event.buildIndex.delegatedAuthor
      (Recorded.cryptoWith sampleToken [sampleApproved]) = .ok (some sampleDelegator) := by
    decide +kernel
  simp only [EventWrapper.from, hval, Event.updateDelegation, hdel, Outcome.ok_bind]
  rfl

/-- A filter for the delegator's events. -/
def sampleAuthorFilter : ReqFilter :=
  { ReqFilter.initial with authors := some [sampleDelegator] }

/-- A client asks for the events of the delegator: the note arriving live is
matched, the same note in the store is not selected. -/
theorem sampleApproved_disagrees :
    ReqFilter.deserialize (.object [("authors", .array [.string sampleDelegator])]) =
        .ok sampleAuthorFilter ∧
      FullHexFilter sampleAuthorFilter ∧ (sampleCmd sampleApproved).Deserialized ∧
      EventWrapper.from (Recorded.cryptoWith sampleToken [sampleApproved])
        (sampleCmd sampleApproved) = .ok (.wrappedEvent sampleWrapped) ∧
      isLowerHex sampleWrapped.pubkey = true ∧
      ∃ r ∈ (run (Sql.Engine.inOrder 32766) [.persistEvent sampleWrapped]).events,
        r.content = sampleWrapped.serialized ∧ r.hidden = false ∧
        (r.expiresAt.all fun exp => decide (1700000090 < exp)) = true ∧
        (queryFromFilter sampleAuthorFilter 1700000090).finds (Sql.Engine.inOrder 32766)
          (run (Sql.Engine.inOrder 32766) [.persistEvent sampleWrapped]) r = false ∧
        sampleAuthorFilter.interestedInEvent sampleWrapped = true := by
  have hrows : (run (Sql.Engine.inOrder 32766) [.persistEvent sampleWrapped]).events.map
      (fun r => (r.hidden, r.expiresAt)) = [(false, none)] := by
    decide +kernel
  obtain ⟨r, hr, hcontent, hvis, hexp⟩ := exists_row_alone 1700000090 hrows
  have hlow : isLowerHex sampleWrapped.pubkey = true := isLowerHex_encode _
  have hhex : FullHexFilter sampleAuthorFilter := by
    refine ⟨fun _ h => (by cases h), fun vs h v hv => ?_⟩
    obtain rfl := Option.some.inj h
    obtain rfl := List.mem_singleton.mp hv
    exact ⟨isLowerHex_encode _, byteLen_encode _⟩
  have hcoh := run_coherent (Sql.Engine.inOrder 32766) [.persistEvent sampleWrapped]
  obtain ⟨hid, hpk⟩ := fullHex_wrapped sampleApproved_wrapped hlow
  refine ⟨?_, hhex, ⟨rfl, rfl⟩, sampleApproved_wrapped, hlow, r, hr, hcontent, hvis, hexp, ?_, ?_⟩
  · rfl
  · rw [Bool.eq_false_iff, ne_eq, Query.finds, Bool.and_eq_true]
    rintro ⟨-, hsel⟩
    have hauthor :=
      ((selects_iff hcoh hr ((hcoh r hr).rowOf hcontent) hhex hid hpk hvis hexp).mp hsel).2
    revert hauthor
    decide +kernel
  · decide +kernel

end Floonet.Sqlite
