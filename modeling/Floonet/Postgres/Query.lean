import Mathlib
import Floonet.Postgres.Step
import Floonet.Recorded
import Floonet.Subscription.Serialize

/-!
# Stored queries on Postgres

`queryFromFilter` turns a filter into one `SELECT` over `event`. Where SQLite asks whether the
event has a tag, the tag conditions here are joins with table `tag`, one for each letter with
any-of values and one for each value that must be there. So a row comes out for every choice of
matching tag rows.

Values are looked up in one of the two columns of `tag`, by tests close to the one the writer
stores them with. A `NULL` parameter compares equal to nothing.
-/

namespace Floonet.Postgres

open Hex (Bytes)

/-! ## The generated query

The builder gives up in several places: for a malformed filter, a tag condition without values, a
list without hex and an empty list of kinds. It panics at a time chrono does not know. -/

/-- Which values one alias of `tag` may have. -/
inductive TagTest where
  /-- `(t."value" in (…) OR t."value_hex" in (…))`; a part is left out if the operand has no
  values of its kind -/
  | among (values : Option (List Bytes)) (hexes : Option (List (Option Bytes)))
  | value (v : Bytes)
  | valueHex (v : Option Bytes)

/-- `JOIN tag t on e.id = t.event_id AND t."name" = … AND …`. -/
structure TagJoin where
  name : String
  test : TagTest

/-- The statement for one filter. -/
structure Query where
  joins : List TagJoin
  authors : Option (List (Option Bytes))
  kinds : Option (List Int)
  ids : Option (List (Option Bytes))
  since : Option Int
  until_ : Option Int
  limit : Option Nat

section Generate

variable (strings : IterOrder String) (f : ReqFilter)

/-- The join of an any-of condition, whose set comes in some order. -/
def orJoin (key : Char) (v : Finset String) : TagJoin where
  name := String.singleton key
  test :=
    let values := strings.iter v
    let hasPlainValues := values.any fun x => !isLowerHex x
    let hasHexValues := values.any isLowerHex
    .among
      (if hasPlainValues then some ((values.filter fun x => !isLowerHex x).map asBytes) else none)
      (if hasHexValues then
        some ((values.filter fun x => byteLen x % 2 == 0 && isLowerHex x).map Hex.decode)
      else none)

/-- The join for one value of an all-of condition. -/
def andJoin (key : Char) (x : String) : TagJoin where
  name := String.singleton key
  test := if isLowerHex x then .valueHex (Hex.decode x) else .value (asBytes x)

/-- The joins of one tag condition. Without values the filter has no query. -/
def operandJoins (key : Char) (val : TagOperand) : Option (List TagJoin) :=
  if val.values = ∅ then none
  else
    match val with
    | .or v => some [orJoin strings key v]
    | .and v => some ((v.sort (· ≤ ·)).map (andJoin key))

/-- The joins of all tag conditions, by key. -/
def tagJoins : Option (List TagJoin) :=
  match f.tags with
  | some map => do
    let joins ← (map.keys.sort (· ≤ ·)).mapM fun key =>
      (map.lookup key).bind (operandJoins strings key)
    pure joins.flatten
  | none => some []

/-- The blobs of a list of ids or authors, without the values that are not hex. -/
def hexBlobs (hexes : List String) : Option (List (Option Bytes)) :=
  let hexes := hexes.filter isHex
  if hexes.isEmpty then none else some (hexes.map Hex.decode)

/-- The kinds as the database has them; an empty list matches nothing. -/
def kindValues (ks : List Nat) : Option (List Int) :=
  if ks.isEmpty then none else some (ks.map asI64)

/-- The parts in front of the times, each of which may turn out to match nothing. -/
structure Lists where
  joins : List TagJoin
  authors : Option (List (Option Bytes))
  kinds : Option (List Int)
  ids : Option (List (Option Bytes))

/-- The parts in front of the times; without them the query matches nothing. -/
def lists : Option Lists :=
  -- if the filter is malformed, don't return anything
  if f.forceNoMatch then none
  else do
    let joins ← tagJoins strings f
    let authors ← f.authors.mapM hexBlobs
    let kinds ← f.kinds.mapM kindValues
    let ids ← f.ids.mapM hexBlobs
    pure { joins, authors, kinds, ids }

/-- `Utc.timestamp_opt(t as i64, 0).unwrap()`. -/
def timeParam (t : Nat) : Outcome PgError Int := Outcome.unwrap (timestampOpt (asI64 t))

/-- Create a dynamic SQL query and params from a subscription filter. -/
def queryFromFilter : Outcome PgError (Option Query) :=
  match lists strings f with
  | none => .ok none
  | some l => do
    let since ← f.since.mapM timeParam
    let until_ ← f.until_.mapM timeParam
    pure (some
      { joins := l.joins
        authors := l.authors
        kinds := l.kinds
        ids := l.ids
        since, until_
        limit := f.limit })

end Generate

/-! ## Its meaning -/

/-- The row has one of the values. -/
def TagTest.holds (t : TagRow) : TagTest → Bool
  | .among values hexes =>
    (values.any fun vs => vs.any fun v => sqlEq t.value (some v)) ||
      (hexes.any fun vs => vs.any fun v => sqlEq t.valueHex v)
  | .value v => sqlEq t.value (some v)
  | .valueHex v => sqlEq t.valueHex v

/-- The condition of a join. -/
def TagJoin.on (j : TagJoin) (r : EventRow) (t : TagRow) : Bool :=
  t.eventId == r.id && t.name == j.name && j.test.holds t

/-- The joined rows, as far as `event` goes. -/
def joined (db : Db) : List TagJoin → List EventRow → List EventRow
  | [], rows => rows
  | j :: js, rows =>
    joined db js (rows.flatMap fun r => (db.tags.filter (j.on r)).map fun _ => r)

namespace Query

variable (q : Query)

/-- `= ANY` of a list of parameters. -/
def among (x : Option Bytes) (params : List (Option Bytes)) : Bool := params.any (sqlEq x)

/-- The condition, at a time in microseconds. -/
def meets (now : Int) (r : EventRow) : Bool :=
  (q.authors.all fun l => among (some r.pubKey) l || among r.delegatedBy l) &&
    (q.kinds.all fun ks => ks.contains r.kind) &&
    (q.ids.all fun l => among (some r.id) l) &&
    (q.since.all fun t => decide (t ≤ r.createdAt)) &&
    (q.until_.all fun t => decide (r.createdAt ≤ t)) &&
    -- never display hidden events
    !r.hidden &&
    -- never display expired events
    (r.expiresAt.all fun exp => decide (now < exp * 1000000))

/-- The rows before `ORDER BY` and `LIMIT`. -/
def found (db : Db) (now : Int) : List EventRow :=
  (joined db q.joins db.events).filter (q.meets now)

/-- How many rows the statement returns at most. -/
def cap : Nat := q.limit.elim 1000 fun lim => min lim 1000

/-- The rows in order. The use of a `LIMIT` implies a `DESC` order, to capture only the most
recent events. -/
def rows (eng : Sql.Engine) (db : Db) (now : Int) : List EventRow :=
  match q.limit with
  | some _ => (Sql.orderByDesc eng EventRow.createdAt (q.found db now)).take q.cap
  | none => (Sql.orderByAsc eng EventRow.createdAt (q.found db now)).take q.cap

end Query

/-! ## One tag condition -/

/-- The filter with one tag condition and no other constraint. -/
def onlyTag (c : Char) (op : TagOperand) : ReqFilter :=
  { ReqFilter.initial with tags := some (Finmap.singleton c op) }

section OnlyTag

variable {strings : IterOrder String} {f : ReqFilter} {c : Char} {op : TagOperand}

theorem tagJoins_singleton (h : f.tags = some (Finmap.singleton c op)) :
    tagJoins strings f = operandJoins strings c op := by
  simp only [tagJoins, h, Finmap.keys_singleton, Finset.sort_singleton, List.mapM_cons,
    Finmap.lookup_singleton_eq, Option.bind_some, List.mapM_nil]
  rcases operandJoins strings c op with _ | joins
  · rfl
  · exact congrArg some (List.append_nil joins)

theorem query_onlyTag {joins : List TagJoin} (h : operandJoins strings c op = some joins) :
    queryFromFilter strings (onlyTag c op) = .ok (some
      { joins, authors := none, kinds := none, ids := none, since := none, until_ := none
        limit := none }) := by
  rw [queryFromFilter, lists, tagJoins_singleton rfl, h]
  rfl

end OnlyTag

/-! ## Filters without a query

Each part in front of the times may say that no event matches, and then there is no query. Which
filters these are can be read off the filter (`lists_eq_none`), whatever the order of the hash
tables. -/

section Unmatchable

variable {strings : IterOrder String} {f : ReqFilter}

theorem option_mapM_eq_none {α β : Type} {read : α → Option β} {o : Option α} :
    o.mapM read = none ↔ ∃ a ∈ o, read a = none := by
  cases o with
  | none => simp
  | some a => rcases h : read a with _ | b <;> simp [h]

theorem list_mapM_eq_none {α β : Type} {read : α → Option β} {l : List α} :
    l.mapM read = none ↔ ∃ a ∈ l, read a = none := by
  induction l with
  | nil => simp
  | cons a l ih =>
    rw [List.mapM_cons, List.exists_mem_cons_iff, ← ih]
    rcases read a with _ | b
    · simp
    · rcases l.mapM read with _ | bs <;> simp

/-- What stands in front of the times says that no event matches: the filter is malformed, a tag
condition has no values, no author or no id is hex, or the list of kinds is empty. -/
def Unmatchable (f : ReqFilter) : Prop :=
  f.forceNoMatch = true ∨
    (∃ map ∈ f.tags, ∃ c, ∃ op ∈ map.lookup c, op.values = ∅) ∨
    (∃ l ∈ f.authors, ∀ a ∈ l, isHex a = false) ∨
    f.kinds = some [] ∨
    ∃ l ∈ f.ids, ∀ i ∈ l, isHex i = false

/-- A tag condition without values ends the query. -/
theorem operandJoins_eq_none {c : Char} {op : TagOperand} :
    operandJoins strings c op = none ↔ op.values = ∅ := by
  unfold operandJoins
  split_ifs with h
  · exact iff_of_true rfl h
  · cases op <;> simp [h]

/-- So does a list without hex. -/
theorem hexBlobs_eq_none {l : List String} :
    hexBlobs l = none ↔ ∀ a ∈ l, isHex a = false := by
  simp [hexBlobs, List.filter_eq_nil_iff]

/-- So does an empty list of kinds. -/
theorem kindValues_eq_none {ks : List Nat} : kindValues ks = none ↔ ks = [] := by
  simp [kindValues]

theorem tagJoins_eq_none : tagJoins strings f = none ↔
    ∃ map ∈ f.tags, ∃ c, ∃ op ∈ map.lookup c, op.values = ∅ := by
  rw [tagJoins]
  rcases f.tags with _ | map
  · simp
  · have hmap : (do
        let joins ← (map.keys.sort (· ≤ ·)).mapM fun key =>
          (map.lookup key).bind (operandJoins strings key)
        pure joins.flatten : Option (List TagJoin)) = none ↔
          (map.keys.sort (· ≤ ·)).mapM (fun key =>
            (map.lookup key).bind (operandJoins strings key)) = none := by
      rcases (map.keys.sort (· ≤ ·)).mapM _ with _ | joins <;> simp
    refine hmap.trans (list_mapM_eq_none.trans ?_)
    simp only [Finset.mem_sort, Finmap.mem_keys, Option.mem_def, Option.some.injEq, exists_eq_left']
    refine exists_congr fun c => ⟨?_, ?_⟩
    · rintro ⟨hc, hnone⟩
      obtain ⟨op, hop⟩ := Finmap.mem_iff.mp hc
      rw [hop, Option.bind_some, operandJoins_eq_none] at hnone
      exact ⟨op, hop, hnone⟩
    · rintro ⟨op, hop, hvals⟩
      refine ⟨Finmap.mem_iff.mpr ⟨op, hop⟩, ?_⟩
      rw [hop, Option.bind_some, operandJoins_eq_none]
      exact hvals

/-- The parts in front of the times are missing for just these filters. -/
theorem lists_eq_none : lists strings f = none ↔ Unmatchable f := by
  rw [lists, Unmatchable, ← @tagJoins_eq_none strings]
  split_ifs with hforce
  · exact iff_of_true rfl (.inl hforce)
  · rw [or_iff_right hforce]
    rcases hj : tagJoins strings f with _ | joins
    · simp
    · have hauthors : (∃ l ∈ f.authors, ∀ a ∈ l, isHex a = false) ↔
          f.authors.mapM hexBlobs = none := by
        simp only [option_mapM_eq_none, hexBlobs_eq_none]
      have hkinds : f.kinds = some [] ↔ f.kinds.mapM kindValues = none := by
        simp only [option_mapM_eq_none, kindValues_eq_none, Option.mem_def, exists_eq_right]
      have hids : (∃ l ∈ f.ids, ∀ i ∈ l, isHex i = false) ↔ f.ids.mapM hexBlobs = none := by
        simp only [option_mapM_eq_none, hexBlobs_eq_none]
      rw [or_iff_right (by simp), hauthors, hkinds, hids]
      -- the parts are read one by one, and the first that is missing ends it
      rcases f.authors.mapM hexBlobs with _ | authors
      · simp
      · rcases f.kinds.mapM kindValues with _ | kinds
        · simp
        · rcases f.ids.mapM hexBlobs with _ | ids <;> simp

end Unmatchable

/-! ## Times that chrono does not know -/

variable {server : Server} {db : Db} {e : Event} {strings : IterOrder String} {f : ReqFilter}

/-- The number is a time of chrono when it is read as an `i64`. -/
def Representable (t : Nat) : Prop := minUtc ≤ asI64 t ∧ asI64 t ≤ maxUtc

instance (t : Nat) : Decidable (Representable t) := inferInstanceAs (Decidable (_ ∧ _))

theorem timestampOpt_of_representable {t : Nat} (h : Representable t) :
    timestampOpt (asI64 t) = some (asI64 t) := if_pos h

theorem timestampOpt_of_not_representable {t : Nat} (h : ¬ Representable t) :
    timestampOpt (asI64 t) = none := if_neg h

/-- The time of the event is unwrapped. -/
theorem createdAtParam_eq_panic : createdAtParam e = .panic ↔ ¬ Representable e.createdAt := by
  rw [createdAtParam]
  by_cases h : Representable e.createdAt
  · rw [timestampOpt_of_representable h]
    simp only [Outcome.unwrap, Outcome.ok_bind, readTimestamptz]
    split_ifs <;> simp [h]
  · rw [timestampOpt_of_not_representable h]
    simp [Outcome.unwrap, h]

theorem bind_ne_panic {α β : Type} {m : Outcome PgError α} {k : α → Outcome PgError β}
    (hm : m ≠ .panic) (hk : ∀ a, k a ≠ .panic) : m >>= k ≠ .panic := by
  cases m with
  | ok a => exact hk a
  | err e => exact fun h => by cases h
  | panic => exact absurd rfl hm

theorem expiresAtParam_ne_panic : expiresAtParam e ≠ .panic := by
  rw [expiresAtParam]
  split
  · refine bind_ne_panic ?_ fun t h => by cases h
    rw [readTimestamptz]
    split_ifs <;> exact fun h => by cases h
  · exact fun h => by cases h

theorem kindParam_ne_panic : kindParam e ≠ .panic := by
  rw [kindParam]
  split_ifs <;> exact fun h => by cases h

theorem eventRow_ne_panic (h : Representable e.createdAt) : eventRow e ≠ .panic := by
  refine bind_ne_panic (fun hp => createdAtParam_eq_panic.mp hp h) fun createdAt => ?_
  refine bind_ne_panic expiresAtParam_ne_panic fun expiresAt => ?_
  refine bind_ne_panic kindParam_ne_panic fun kind => ?_
  split <;> exact fun h => by cases h

theorem shadowed_ne_panic (h : Representable e.createdAt) : shadowed db e ≠ .panic := by
  have hcreated : createdAtParam e ≠ .panic := fun hp => createdAtParam_eq_panic.mp hp h
  simp only [shadowed]
  split_ifs
  · refine bind_ne_panic hcreated fun createdAt => bind_ne_panic (fun h => by cases h) fun newer => ?_
    split_ifs
    · exact fun h => by cases h
    · split
      · exact bind_ne_panic hcreated fun _ h => by cases h
      · exact fun h => by cases h
  · refine bind_ne_panic (fun h => by cases h) fun newer => ?_
    split_ifs
    · exact fun h => by cases h
    · split
      · exact bind_ne_panic hcreated fun _ h => by cases h
      · exact fun h => by cases h

theorem applyDeletions_ne_panic (row : EventRow) : applyDeletions server db e row ≠ .panic := by
  rw [applyDeletions]
  split_ifs <;> exact fun h => by cases h

/-- The first time that is bound decides. -/
theorem writeEvent_eq_panic : writeEvent server db e = .panic ↔ ¬ Representable e.createdAt := by
  refine ⟨fun hp h => ?_, fun h => ?_⟩
  · refine bind_ne_panic (shadowed_ne_panic h) (fun shadow => ?_) hp
    split_ifs
    · exact fun h => by cases h
    · refine bind_ne_panic (eventRow_ne_panic h) fun row => ?_
      split_ifs
      · exact fun h => by cases h
      · split
        · exact fun h => by cases h
        · exact applyDeletions_ne_panic row
  · have hp := createdAtParam_eq_panic.mpr h
    have hrow : eventRow e = .panic := by rw [eventRow, hp, Outcome.panic_bind]
    rw [writeEvent, shadowed]
    by_cases hrepl : e.isReplaceable = true
    · simp only [hrepl, if_true, hp, Outcome.panic_bind]
    · simp only [hrepl, Bool.false_eq_true, if_false, pure, Outcome.ok_bind]
      rcases e.distinctParam with _ | d
      · simp only [Outcome.ok_bind, Bool.false_eq_true, if_false, hrow, Outcome.panic_bind]
      · simp only [hp, Outcome.panic_bind]

theorem mapM_timeParam {o : Option Nat} (h : ∀ t ∈ o, Representable t) :
    o.mapM timeParam = .ok (o.map asI64) := by
  cases o with
  | none => rfl
  | some t =>
    rw [Option.mapM, timeParam, timestampOpt_of_representable (h t rfl)]
    rfl

/-- A time of the filter is unwrapped if it is there. -/
theorem mapM_timeParam_eq_panic {o : Option Nat} :
    o.mapM timeParam = .panic ↔ ∃ t ∈ o, ¬ Representable t := by
  refine ⟨fun hp => ?_, ?_⟩
  · by_contra hall
    push Not at hall
    rw [mapM_timeParam hall] at hp
    cases hp
  · rintro ⟨t, rfl, h⟩
    rw [Option.mapM, timeParam, timestampOpt_of_not_representable h]
    rfl

/-- A query is written as far as its times, and then the times decide. -/
theorem queryFromFilter_eq_panic : queryFromFilter strings f = .panic ↔
    (lists strings f).isSome = true ∧
      ((∃ t ∈ f.since, ¬ Representable t) ∨ ∃ t ∈ f.until_, ¬ Representable t) := by
  rw [queryFromFilter]
  rcases lists strings f with _ | l
  · simp
  · simp only [Option.isSome_some, true_and, Outcome.bind_eq_panic, mapM_timeParam_eq_panic]
    by_cases hsince : ∃ t ∈ f.since, ¬ Representable t
    · exact iff_of_true (.inl hsince) (.inl hsince)
    · refine or_congr_right ⟨?_, fun huntil => ?_⟩
      · rintro ⟨since, -, huntil | ⟨until_, -, h⟩⟩
        · exact huntil
        · cases h
      · push Not at hsince
        exact ⟨_, mapM_timeParam hsince, .inl huntil⟩

/-- **Client times that do not crash.** A write panics exactly when the time of the event, cast to
64 signed bits, is outside the years of chrono. The query of a filter panics exactly when nothing
in front of the times says that no event matches, and one of the two times is such a time. -/
theorem times_do_not_panic_iff (server : Server) (strings : IterOrder String) :
    (∀ db e, writeEvent server db e ≠ .panic ↔ Representable e.createdAt) ∧
    ∀ f, queryFromFilter strings f ≠ .panic ↔
      (Unmatchable f ∨
        (∀ t ∈ f.since, Representable t) ∧ ∀ t ∈ f.until_, Representable t) := by
  refine ⟨fun db e => ?_, fun f => ?_⟩
  · rw [Ne, writeEvent_eq_panic, not_not]
  · rw [Ne, queryFromFilter_eq_panic, ← @lists_eq_none strings]
    rcases lists strings f with _ | l
    · simp
    · simp

/-! ## What the query has of its filter -/

/-- The parts of a query are those of the filter. -/
structure Generates (strings : IterOrder String) (f : ReqFilter) (q : Query) : Prop where
  joins : tagJoins strings f = some q.joins
  authors : f.authors.mapM hexBlobs = some q.authors
  kinds : f.kinds.mapM kindValues = some q.kinds
  ids : f.ids.mapM hexBlobs = some q.ids
  since : q.since = f.since.map asI64
  until_ : q.until_ = f.until_.map asI64
  limit : q.limit = f.limit

theorem eq_map_of_mapM_timeParam {o : Option Nat} {r : Option Int}
    (h : o.mapM timeParam = .ok r) : r = o.map asI64 := by
  by_cases hall : ∀ t ∈ o, Representable t
  · rw [mapM_timeParam hall] at h
    exact (Outcome.ok.inj h).symm
  · push Not at hall
    rw [mapM_timeParam_eq_panic.mpr hall] at h
    cases h

/-- A query has the parts of its filter. -/
theorem generates_of_query {q : Query} (h : queryFromFilter strings f = .ok (some q)) :
    Generates strings f q := by
  rw [queryFromFilter] at h
  rcases hl : lists strings f with _ | l
  · rw [hl] at h
    cases h
  · rw [hl] at h
    obtain ⟨since, hsince, h⟩ := Outcome.bind_eq_ok h
    obtain ⟨until_, huntil, h⟩ := Outcome.bind_eq_ok h
    cases h
    rw [lists] at hl
    split_ifs at hl
    simp only [Option.bind_eq_bind, Option.bind_eq_some_iff, Option.pure_def,
      Option.some.injEq] at hl
    obtain ⟨joins, hjoins, authors, hauthors, kinds, hkinds, ids, hids, rfl⟩ := hl
    exact ⟨hjoins, hauthors, hkinds, hids, eq_map_of_mapM_timeParam hsince,
      eq_map_of_mapM_timeParam huntil, rfl⟩

/-- A note from the year 287168. -/
def sampleFarFuture : Recorded where
  id := 0x66a3a2f542bb8a6655a836bfb9d7862584e5dadafe2ad6e7290049192f80c399
  pubkey := 0x5cbdf0646e5db4eaa398f365f2ea7a0e3d419b7e0330e39ce92bddedcac4f9bc
  sigR := 0x2d8654c32a4354a07d147049046a4d970d1d41041a2b2e953210c429c9867d3b
  sigS := 0xf953732a24830d8b5dc65b80316fc2e68ae893197807ec3e5100df2cb4de7120
  createdAt := 9000000000000
  kind := 1
  tags := []
  content := "hello from afar"

/-- The filter that asks for what came after it. -/
def sampleSinceFarFuture : ReqFilter := { ReqFilter.initial with since := some 9000000000000 }

/-- The note is valid, and neither it nor its time can be bound. -/
theorem sampleFarFuture_panics :
    sampleFarFuture.event.Validated (Recorded.crypto [sampleFarFuture]) ∧
      writeEvent Server.inOrder Db.empty sampleFarFuture.event = .panic ∧
      ∀ strings, queryFromFilter strings sampleSinceFarFuture = .panic := by
  have hfar : ¬ Representable 9000000000000 := by decide +kernel
  refine ⟨Recorded.validated (by decide) (List.mem_singleton_self _),
    writeEvent_eq_panic.mpr hfar, fun strings => queryFromFilter_eq_panic.mpr ⟨rfl, ?_⟩⟩
  exact .inl ⟨_, rfl, hfar⟩

end Floonet.Postgres
