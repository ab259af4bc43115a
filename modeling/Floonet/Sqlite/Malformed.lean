import Floonet.Sqlite.Rows
import Floonet.Subscription.Deserialize

/-!
# Malformed filter fields

A field that does not parse counts as absent, and an absent field restricts nothing; the flag
that would force the filter to match nothing is never set. So a malformed object matches
nothing only when the fields that are left do (`malformed_matches_nothing_iff`).

For the live match these are fields no event can meet, for the query fields no row can meet,
a `LIMIT` of 0, and whatever makes SQLite refuse the statement. The two differ in tag conditions
without values, which the query skips, and in ids, authors and numbers the columns cannot hold.
`wanted` is an event that meets every filter that can be met.
-/

namespace Floonet

namespace ReqFilter

/-! ## Fields that cannot be met

A live filter matches nothing when one of its fields excludes every event. The fields are looked
at one by one, and an event is built that meets the others. -/

/-- No event meets an empty list or an empty range. -/
def NeverMet (ids authors : Option (List String)) (kinds : Option (List Nat))
    (since until_ : Option Nat) : Prop :=
  ids = some [] ∨ authors = some [] ∨ kinds = some [] ∨
    ∃ s u, since = some s ∧ until_ = some u ∧ u < s

/-- None of the strings stands for a blob. -/
def Undecodable (vs : Option (List String)) : Prop :=
  ∃ l, vs = some l ∧ ∀ s ∈ l, Hex.decode s = none

/-- No column holds any of the values. -/
def NeverStored (ids authors : Option (List String)) (kinds : Option (List Nat))
    (since : Option Nat) : Prop :=
  Undecodable ids ∨ Undecodable authors ∨ (∃ l, kinds = some l ∧ ∀ k ∈ l, fitsI64 k = false) ∨
    ∃ s, since = some s ∧ fitsI64 s = false

/-- A tag condition asks for one of no values. -/
def AsksNoValue (f : ReqFilter) : Prop :=
  ∃ map c, f.tags = some map ∧ map.lookup c = some (.or ∅)

/-- The tags of an event that meets a condition: all its values, and one in any case. -/
def wantedTags (f : ReqFilter) : List (List String) :=
  match f.tags with
  | some map => (map.keys.sort (· ≤ ·)).flatMap fun c =>
    ("x" :: ((map.lookup c).elim ∅ TagOperand.values).sort (· ≤ ·)).map fun v =>
      [String.singleton c, v]
  | none => []

/-- An event that meets the filter, if one does. -/
def wanted (f : ReqFilter) : Event :=
  let e : Event :=
    { id := (f.ids.getD []).headD "", pubkey := (f.authors.getD []).headD "", delegatedBy := none,
      createdAt := f.since.getD 0, kind := (f.kinds.getD []).headD 0, tags := wantedTags f,
      content := "", sig := "", tagidx := none }
  { e with tagidx := e.buildIndex.tagidx }

variable {f : ReqFilter} {e : Event}

theorem wanted_indexed (f : ReqFilter) : (wanted f).Indexed := rfl

theorem mem_searchableTags_wanted {map : Finmap fun _ : Char => TagOperand} {c : Char}
    {op : TagOperand} {v : String} (hmap : f.tags = some map) (hl : map.lookup c = some op)
    (hv : v = "x" ∨ v ∈ op.values) : (String.singleton c, v) ∈ (wanted f).searchableTags := by
  rw [Event.mem_searchableTags]
  refine ⟨[], ?_, by rw [Event.singleCharTagname_iff.mpr rfl]; rfl⟩
  change _ ∈ wantedTags f
  simp only [wantedTags, hmap, List.mem_flatMap, Finset.mem_sort, Finmap.mem_keys]
  refine ⟨c, Finmap.mem_of_lookup_eq_some hl, List.mem_map.mpr ⟨v, ?_, rfl⟩⟩
  rw [hl, Option.elim_some, List.mem_cons, Finset.mem_sort]
  exact hv

/-- The head of a list that is not empty is matched by the list. -/
theorem prefixMatch_head {l : List String} (h : l ≠ []) : prefixMatch l (l.headD "") = true := by
  cases l with
  | nil => exact absurd rfl h
  | cons s rest => simp [prefixMatch]

theorem prefixMatch_nil (t : String) : prefixMatch [] t = false := rfl

/-- **When the live match is empty.** -/
theorem forall_not_interested_iff (hforce : f.forceNoMatch = false) :
    (∀ e : Event, f.interestedInEvent e = false) ↔
      NeverMet f.ids f.authors f.kinds f.since f.until_ ∨ AsksNoValue f := by
  refine ⟨fun h => ?_, ?_⟩
  · by_contra hno
    rw [not_or, NeverMet] at hno
    push Not at hno
    obtain ⟨⟨hids, hauthors, hkinds, htimes⟩, htags⟩ := hno
    have hi : f.idsMatch (wanted f) = true := by
      rw [idsMatch]
      rcases hf : f.ids with _ | l
      · rfl
      · have hne : l ≠ [] := fun hnil => hids (by rw [hf, hnil])
        have := prefixMatch_head hne
        simpa [wanted, hf] using this
    have ha : f.authorsMatch (wanted f) = true := by
      rw [authorsMatch]
      rcases hf : f.authors with _ | l
      · rfl
      · have hne : l ≠ [] := fun hnil => hauthors (by rw [hf, hnil])
        have := prefixMatch_head hne
        simpa [wanted, hf] using this
    have hk : f.kindMatch (wanted f).kind = true := by
      rw [kindMatch]
      rcases hf : f.kinds with _ | _ | ⟨k, ks⟩
      · rfl
      · exact absurd hf hkinds
      · simp [wanted, hf]
    have hs : (f.since.all fun t => decide (t ≤ (wanted f).createdAt)) = true := by
      rcases hf : f.since with _ | s <;> simp [wanted, hf]
    have hu : (f.until_.all fun t => decide ((wanted f).createdAt ≤ t)) = true := by
      rcases hu : f.until_ with _ | u
      · rfl
      · rcases hf : f.since with _ | s
        · simp [wanted, hf]
        · have := htimes s u hf hu
          simpa [wanted, hf] using this
    have ht : f.tagMatch (wanted f) = true := by
      rw [tagMatch_iff]
      intro map hmap c op hl
      rw [(wanted_indexed f).genericTagValIntersect]
      cases op with
      | and v =>
        exact ⟨⟨"x", mem_searchableTags_wanted hmap hl (.inl rfl)⟩,
          fun x hx => mem_searchableTags_wanted hmap hl (.inr hx)⟩
      | or v =>
        rcases v.eq_empty_or_nonempty with rfl | ⟨x, hx⟩
        · exact absurd ⟨map, c, hmap, hl⟩ htags
        · exact ⟨x, hx, mem_searchableTags_wanted hmap hl (.inr hx)⟩
    have := h (wanted f)
    simp [interestedInEvent, hi, ha, hk, hs, hu, ht, hforce] at this
  · intro h e
    rw [Bool.eq_false_iff]
    intro hint
    simp only [interestedInEvent, Bool.and_eq_true, Bool.or_eq_true] at hint
    obtain ⟨⟨⟨⟨⟨⟨hi, hs⟩, hu⟩, hk⟩, ha⟩, ht⟩, -⟩ := hint
    rcases h with (hids | hauthors | hkinds | ⟨s, u, hsince, huntil, hlt⟩) | ⟨map, c, hmap, hl⟩
    · rw [idsMatch, hids, Option.all_some, prefixMatch_nil] at hi
      cases hi
    · rw [authorsMatch, delegatedAuthorsMatch, hauthors] at ha
      rcases hd : e.delegatedBy with _ | d <;> simp [hd, prefixMatch_nil] at ha
    · rw [kindMatch, hkinds] at hk
      simp at hk
    · rw [hsince] at hs
      rw [huntil] at hu
      simp only [Option.all_some, decide_eq_true_eq] at hs hu
      omega
    · have hval := tagMatch_iff.mp ht map hmap c _ hl
      rw [Event.genericTagValIntersect] at hval
      rcases hidx : e.tagidx with _ | idx
      · simp [hidx] at hval
      · rcases hv : idx.lookup c with _ | valset <;> simp [hidx, hv] at hval

end ReqFilter

namespace Sqlite

open ReqFilter

/-! ## Queries that select nothing

The condition of the statement is taken apart in the same way: a row and a store are built that
meet every field which can be met. With a limit of 0 nothing is returned either. -/

/-- The integer columns hold 64-bit signed numbers. -/
def Storable (db : Db) : Prop :=
  ∀ r ∈ db.events, fitsI64 r.createdAt = true ∧ fitsI64 r.kind = true

/-- The query returns no row, whatever the tables hold. -/
def SelectsNothing (eng : Sql.Engine) (f : ReqFilter) : Prop :=
  ∀ db, Storable db → ∀ now, (queryFromFilter f now).results eng db = []

/-- No row can come back of the statement: of what the columns hold nothing meets the condition,
the limit is 0, or SQLite refuses it. -/
def ReturnsNoRow (eng : Sql.Engine) (f : ReqFilter) : Prop :=
  NeverStored f.ids f.authors f.kinds f.since ∨ f.limit = some 0 ∨ ¬ Taken eng f

variable {eng : Sql.Engine} {f : ReqFilter}

/-- The first blob that can be decoded. -/
def wantedBlob (vs : Option (List String)) : Hex.Bytes :=
  (((vs.getD []).filterMap Hex.decode).head?).getD []

/-- The row of an event that the query selects, if it selects any. -/
def wantedRow (f : ReqFilter) : EventRow where
  id := 1
  eventHash := wantedBlob f.ids
  createdAt := f.since.getD 0
  expiresAt := none
  author := wantedBlob f.authors
  delegatedBy := none
  kind := ((f.kinds.getD []).find? fitsI64).getD 0
  hidden := false
  content := wanted f

/-- A store with this row and its tags. -/
def wantedDb (f : ReqFilter) : Db where
  events := [wantedRow f]
  tags := ((wanted f).searchableTags).map fun nv =>
    ⟨1, nv.1, nv.2, (wantedRow f).createdAt, (wantedRow f).kind⟩
  userVerification := []
  id_nodup := List.nodup_singleton _
  hash_nodup := List.nodup_singleton _
  verification_id_nodup := List.nodup_nil
  tag_fk := by
    intro t ht
    obtain ⟨nv, -, rfl⟩ := List.mem_map.mp ht
    exact ⟨_, List.mem_singleton_self _, rfl⟩
  verification_fk := fun v h => absurd h List.not_mem_nil

/-- A list with a decodable string is met by the first of them. -/
theorem wantedBlob_mem {vs : Option (List String)} {l : List String} (hvs : vs = some l)
    (h : ¬ Undecodable vs) : some (wantedBlob vs) ∈ l.map Hex.decode := by
  subst hvs
  rw [Undecodable] at h
  push Not at h
  obtain ⟨s, hs, hdec⟩ := h l rfl
  obtain ⟨b, hb⟩ := Option.ne_none_iff_exists'.mp hdec
  have hmem : b ∈ l.filterMap Hex.decode := List.mem_filterMap.mpr ⟨s, hs, hb⟩
  rcases hl : l.filterMap Hex.decode with _ | ⟨b', rest⟩
  · rw [hl] at hmem
    exact absurd hmem List.not_mem_nil
  · obtain ⟨s', hs', hb'⟩ := List.mem_filterMap.mp (hl ▸ List.mem_cons_self .. : b' ∈ _)
    refine List.mem_map.mpr ⟨s', hs', ?_⟩
    rw [hb', wantedBlob, Option.getD_some, hl]
    rfl

/-- The blob clause of a list that is met. -/
theorem holds_wantedBlob (db : Db) (r : EventRow) (mk : List (Option Hex.Bytes) → Component)
    {vs : Option (List String)}
    (hmk : ∀ blobs, (mk blobs).holds db r = blobs.contains (some (wantedBlob vs)))
    (h : ¬ Undecodable vs) :
    (vs.map fun l => if l.isEmpty then Component.never else mk (l.map Hex.decode)).toList.all
      (Component.holds db r) = true := by
  rcases hvs : vs with _ | l
  · rfl
  · have hmem := wantedBlob_mem hvs h
    have hne : l.isEmpty = false := by
      cases l with
      | nil => exact absurd hmem List.not_mem_nil
      | cons s rest => rfl
    subst hvs
    simp only [Option.map_some, Option.toList_some, List.all_cons, List.all_nil, Bool.and_true, hne,
      Bool.false_eq_true, if_false, hmk]
    exact List.contains_iff_mem.mpr hmem

/-- What a filter that can be met leaves to choose from. -/
structure Storeable (f : ReqFilter) : Prop where
  ids : ¬ Undecodable f.ids
  authors : ¬ Undecodable f.authors
  kinds : ∀ l, f.kinds = some l → ∃ k ∈ l, fitsI64 k = true
  since : ∀ s, f.since = some s → fitsI64 s = true
  times : ∀ s u, f.since = some s → f.until_ = some u → s ≤ u

/-- The wanted row has the kind and time of the filter. -/
theorem wantedRow_inRange (h : Storeable f) :
    fitsI64 (wantedRow f).createdAt = true ∧ fitsI64 (wantedRow f).kind = true ∧
      (f.kinds.all fun ks => ks.contains (wantedRow f).kind) = true ∧
      (f.since.all fun t => decide (t ≤ (wantedRow f).createdAt)) = true ∧
      (f.until_.all fun t => decide ((wantedRow f).createdAt ≤ t)) = true := by
  have hkind : fitsI64 (wantedRow f).kind = true ∧
      (f.kinds.all fun ks => ks.contains (wantedRow f).kind) = true := by
    rcases hks : f.kinds with _ | l
    · simp [wantedRow, hks, fitsI64]
    · obtain ⟨k, hk, hfit⟩ := h.kinds l hks
      rcases hfind : l.find? fitsI64 with _ | k'
      · exact absurd hfit (List.find?_eq_none.mp hfind k hk)
      · simp only [wantedRow, hks, Option.getD_some, hfind, Option.all_some]
        exact ⟨List.find?_some hfind, List.contains_iff_mem.mpr (List.mem_of_find?_eq_some hfind)⟩
  refine ⟨?_, hkind.1, hkind.2, ?_, ?_⟩
  · rcases hs : f.since with _ | s
    · simp [wantedRow, hs, fitsI64]
    · simpa [wantedRow, hs] using h.since s hs
  · rcases hs : f.since with _ | s <;> simp [wantedRow, hs]
  · rcases hu : f.until_ with _ | u
    · rfl
    · rcases hs : f.since with _ | s
      · simp [wantedRow, hs]
      · simpa [wantedRow, hs] using h.times s u hs hu

/-- The wanted row is selected. -/
theorem selects_wantedRow (hforce : f.forceNoMatch = false) (h : Storeable f) (now : Nat) :
    (queryFromFilter f now).selects (wantedDb f) (wantedRow f) = true := by
  obtain ⟨-, -, hk, hs, hu⟩ := wantedRow_inRange h
  have hauthors := holds_wantedBlob (wantedDb f) (wantedRow f) .author (fun _ => rfl) h.authors
  have hids := holds_wantedBlob (wantedDb f) (wantedRow f) .eventHash (fun _ => rfl) h.ids
  have hkinds : (f.kinds.map Component.kind).toList.all
      (Component.holds (wantedDb f) (wantedRow f)) = true := by
    rcases hf : f.kinds with _ | l <;> simp_all [Component.holds]
  have hsince : (f.since.map Component.since).toList.all
      (Component.holds (wantedDb f) (wantedRow f)) = true := by
    rcases hf : f.since with _ | l <;> simp_all [Component.holds]
  have huntil : (f.until_.map Component.until_).toList.all
      (Component.holds (wantedDb f) (wantedRow f)) = true := by
    rcases hf : f.until_ with _ | l <;> simp_all [Component.holds]
  have htags : (tagsComponents f).all (Component.holds (wantedDb f) (wantedRow f)) = true := by
    rw [holds_tagsComponents]
    intro map hmap key val hl
    rw [List.all_eq_true]
    intro c hc
    obtain ⟨clause, rfl, hname, hks, hsi, hun, x, hx, htest⟩ := mem_tagComponents hc
    have hmem := mem_searchableTags_wanted hmap hl (.inr hx)
    simp only [Component.holds, List.contains_iff_mem, List.mem_map, List.mem_filter]
    refine ⟨_, ⟨List.mem_map.mpr ⟨_, hmem, rfl⟩, ?_⟩, rfl⟩
    simp only [TagClause.matches, hname, htest, hks, hk, hsi, hs, hun, hu, BEq.rfl, Bool.and_self]
  simp only [queryFromFilter, hforce, Bool.false_eq_true, if_false, Query.selects, List.all_append,
    hauthors, hkinds, hids, htags, hsince, huntil, List.all_cons, List.all_nil]
  rfl

/-- **When the condition is empty.** -/
theorem forall_not_selects_iff (hforce : f.forceNoMatch = false) :
    (∀ db, Storable db → ∀ r ∈ db.events, ∀ now, (queryFromFilter f now).selects db r = false) ↔
      NeverStored f.ids f.authors f.kinds f.since ∨
        ∃ s u, f.since = some s ∧ f.until_ = some u ∧ u < s := by
  refine ⟨fun h => ?_, ?_⟩
  · by_contra hno
    rw [not_or, NeverStored] at hno
    push Not at hno
    obtain ⟨⟨hids, hauthors, hkinds, hsince⟩, htimes⟩ := hno
    have hstore : Storeable f :=
      ⟨hids, hauthors, fun l hl => (hkinds l hl).imp fun k hk => ⟨hk.1, by simpa using hk.2⟩,
        fun s hs => by simpa using hsince s hs, htimes⟩
    obtain ⟨hfc, hfk, -⟩ := wantedRow_inRange hstore
    have hdb : Storable (wantedDb f) := fun r hr => by
      rw [List.mem_singleton.mp hr]
      exact ⟨hfc, hfk⟩
    have := h _ hdb _ (List.mem_singleton_self _) 0
    rw [selects_wantedRow hforce hstore] at this
    cases this
  · intro h db hdb r hr now
    obtain ⟨hfc, hfk⟩ := hdb r hr
    rw [Bool.eq_false_iff]
    intro hsel
    simp only [queryFromFilter, hforce, Bool.false_eq_true, if_false, Query.selects,
      List.all_append, Bool.and_eq_true] at hsel
    obtain ⟨-, ⟨⟨⟨⟨⟨ha, hk⟩, hi⟩, -⟩, hs⟩, hu⟩, -⟩ := hsel
    have hblob : ∀ (vs : Option (List String)) (mk : List (Option Hex.Bytes) → Component)
        (b : Hex.Bytes), (∀ blobs, (mk blobs).holds db r = blobs.contains (some b)) →
        Undecodable vs → (vs.map fun l => if l.isEmpty then Component.never
          else mk (l.map Hex.decode)).toList.all (Component.holds db r) = false := by
      rintro vs mk b hmk ⟨l, rfl, hl⟩
      rcases hnil : l.isEmpty with _ | _
      · rw [Bool.eq_false_iff]
        intro hall
        simp only [Option.map_some, hnil, Bool.false_eq_true, if_false, Option.toList_some,
          List.all_cons, List.all_nil, Bool.and_true, hmk, List.contains_iff_mem,
          List.mem_map] at hall
        obtain ⟨s, hs, hdec⟩ := hall
        rw [hl s hs] at hdec
        cases hdec
      · simp only [Option.map_some, hnil, if_true]
        rfl
    rcases h with (hids | hauthors | ⟨l, hl, hno⟩ | ⟨s, hsince, hno⟩) | ⟨s, u, hsince, huntil, hlt⟩
    · rw [hblob f.ids .eventHash r.eventHash (fun _ => rfl) hids] at hi
      cases hi
    · rw [hblob f.authors .author r.author (fun _ => rfl) hauthors] at ha
      cases ha
    · rw [hl] at hk
      simp only [Option.map_some, Option.toList_some, List.all_cons, List.all_nil, Bool.and_true,
        Component.holds, List.contains_iff_mem] at hk
      rw [hno _ hk] at hfk
      cases hfk
    · rw [hsince] at hs
      simp only [Option.map_some, Option.toList_some, List.all_cons, List.all_nil, Bool.and_true,
        Component.holds, decide_eq_true_eq] at hs
      simp only [fitsI64, decide_eq_true_eq, decide_eq_false_iff_not] at hno hfc
      omega
    · rw [hsince] at hs
      rw [huntil] at hu
      simp only [Option.map_some, Option.toList_some, List.all_cons, List.all_nil, Bool.and_true,
        Component.holds, decide_eq_true_eq] at hs hu
      omega

/-- **When the query is empty.** -/
theorem selectsNothing_iff (hforce : f.forceNoMatch = false) :
    SelectsNothing eng f ↔ ReturnsNoRow eng f ∨
      ∃ s u, f.since = some s ∧ f.until_ = some u ∧ u < s := by
  have hrefused : ∀ now, (queryFromFilter f now).taken eng = false ↔ ¬ Taken eng f := by
    intro now
    rw [← taken_iff hforce now, Bool.not_eq_true]
  simp only [SelectsNothing, results_eq_nil_iff, hrefused, limit_of_not_forced hforce]
  rw [ReturnsNoRow]
  by_cases htaken : Taken eng f
  · by_cases hlimit : f.limit = some 0
    · simp [hlimit]
    · have hiff := forall_not_selects_iff hforce
      simp only [htaken, hlimit, not_true_eq_false, false_or, or_false] at hiff ⊢
      rw [← hiff]
      exact ⟨fun h db hdb r hr now => h db hdb now r hr, fun h db hdb now r hr => h db hdb r hr now⟩
  · simp [htaken]

/-! ## Objects -/

/-- A recognised key with a value of another type. -/
def Malformed (m : Member) : Prop :=
  ((m.1 = "ids" ∨ m.1 = "authors") ∧ m.2.toItems Json.Value.toStr = none) ∨
  (m.1 = "kinds" ∧ m.2.toItems Json.Value.toU64 = none) ∨
  ((m.1 = "since" ∨ m.1 = "until") ∧ m.2.toU64 = none) ∨
  ∃ c : Char, c.utf8Size = 1 ∧ (m.1.toList = ['#', c] ∨ m.1.toList = ['#', c, '&']) ∧
    m.2.toItems Json.Value.toStr = none

/-- The filter matches no event and its query selects nothing. -/
def MatchesNothing (eng : Sql.Engine) (f : ReqFilter) : Prop :=
  (∀ e : Event, f.interestedInEvent e = false) ∧ SelectsNothing eng f

/-- A list of strings under this key. -/
def stringsAt (members : List Member) (key : String) : Option (List String) :=
  (value members key).bind fun v => v.toItems Json.Value.toStr

/-- A list of integers under this key. -/
def integersAt (members : List Member) (key : String) : Option (List Nat) :=
  (value members key).bind fun v => v.toItems Json.Value.toU64

/-- An integer under this key. -/
def integerAt (members : List Member) (key : String) : Option Nat :=
  (value members key).bind Json.Value.toU64

/-- The filter that the members ask for one after the other. -/
def asked (members : List Member) : ReqFilter := members.foldl enter initial

/-- The well-formed fields cannot be met: by no event, or there is a `#x` key without values
and what the others ask for is held by no row, limited to 0 rows, or refused by SQLite. -/
def Contradictory (eng : Sql.Engine) (members : List Member) : Prop :=
  NeverMet (stringsAt members "ids") (stringsAt members "authors") (integersAt members "kinds")
      (integerAt members "since") (integerAt members "until") ∨
    (∃ c, LastCondition members c (.or ∅)) ∧
      (NeverStored (stringsAt members "ids") (stringsAt members "authors")
          (integersAt members "kinds") (integerAt members "since") ∨
        integerAt members "limit" = some 0 ∨ ¬ Taken eng (asked members))

/-- A filter that is not forced matches nothing by a field that no event meets, or by tags that
no row has while it returns no row. -/
theorem matchesNothing_iff (hforce : f.forceNoMatch = false) :
    MatchesNothing eng f ↔ NeverMet f.ids f.authors f.kinds f.since f.until_ ∨
      AsksNoValue f ∧ ReturnsNoRow eng f := by
  rw [MatchesNothing, forall_not_interested_iff hforce, selectsNothing_iff hforce]
  refine ⟨?_, ?_⟩
  · rintro ⟨hmet | hval, hstored | htimes⟩
    · exact .inl hmet
    · exact .inl hmet
    · exact .inr ⟨hval, hstored⟩
    · exact .inl (.inr (.inr (.inr htimes)))
  · rintro (hmet | ⟨hval, hstored⟩)
    · refine ⟨.inl hmet, ?_⟩
      rcases hmet with hids | hauthors | hkinds | htimes
      · exact .inl (.inl (.inl ⟨[], hids, fun _ h => absurd h List.not_mem_nil⟩))
      · exact .inl (.inl (.inr (.inl ⟨[], hauthors, fun _ h => absurd h List.not_mem_nil⟩)))
      · exact .inl (.inl (.inr (.inr (.inl ⟨[], hkinds, fun _ h => absurd h List.not_mem_nil⟩))))
      · exact .inr htimes
    · exact ⟨.inr hval, .inl hstored⟩

/-- **What a malformed object matches.** An object with a malformed key yields no filter that
could match anything if and only if it yields none at all, or its well-formed keys cannot be
met. -/
theorem malformed_matches_nothing_iff (eng : Sql.Engine) (members : List Member)
    (_hmal : ∃ m ∈ members, Malformed m) :
    (∀ f, ReqFilter.deserialize (.object members) = .ok f → MatchesNothing eng f) ↔
      (∃ m ∈ members, Refused m ∨ TwoByteLetter m) ∨ Contradictory eng members := by
  by_cases hclean : Clean members
  · have hno : ¬ ∃ m ∈ members, Refused m ∨ TwoByteLetter m := by
      rintro ⟨m, hm, hr | ht⟩
      · exact (hclean m hm).1 hr
      · exact (hclean m hm).2 ht
    have hd : ReqFilter.deserialize (.object members) = .ok (asked members) :=
      foldlM_clean hclean
    have hreads : Reads members (asked members) := reads_foldl_enter members
    have hval : AsksNoValue (asked members) ↔
        ∃ c, LastCondition members c (.or ∅) := by
      refine ⟨fun ⟨map, c, hmap, hl⟩ => ⟨c, (hreads.lookup_tags map hmap c _).mp hl⟩, ?_⟩
      rintro ⟨c, hlast⟩
      obtain ⟨map, hmap⟩ := hreads.exists_map hlast
      exact ⟨map, c, hmap, (hreads.lookup_tags map hmap c _).mpr hlast⟩
    have hiff : MatchesNothing eng (asked members) ↔ _ := matchesNothing_iff hreads.not_forced
    rw [hval, ReturnsNoRow, hreads.ids, hreads.authors, hreads.kinds, hreads.since, hreads.until_,
      hreads.limit] at hiff
    refine ⟨fun h => .inr (hiff.mp (h _ hd)), fun h f hf => ?_⟩
    obtain rfl := Outcome.ok.inj (hd.symm.trans hf)
    exact hiff.mpr (h.resolve_left hno)
  · have hsome : ∃ m ∈ members, Refused m ∨ TwoByteLetter m := by
      rw [Clean] at hclean
      push Not at hclean
      obtain ⟨m, hm, h⟩ := hclean
      by_cases hr : Refused m
      · exact ⟨m, hm, .inl hr⟩
      · exact ⟨m, hm, .inr (h hr)⟩
    exact ⟨fun _ => .inl hsome, fun _ f hf => absurd (reads_of_deserialize hf).1 hclean⟩

/-- A malformed time, and an empty list of kinds. -/
def sampleNoKinds : List Member := [("since", .string "yesterday"), ("kinds", .array [])]

theorem sampleNoKinds_matches_nothing :
    MatchesNothing (Sql.Engine.inOrder 32766) { initial with kinds := some [] } :=
  (malformed_matches_nothing_iff (Sql.Engine.inOrder 32766) sampleNoKinds
    ⟨_, List.mem_cons_self .., .inr (.inr (.inl ⟨.inl rfl, rfl⟩))⟩).mpr
    (.inr (.inl (.inr (.inr (.inl rfl))))) _ rfl

/-- A malformed time alone. -/
def sampleYesterday : List Member := [("since", .string "yesterday")]

/-- Its filter matches every event. -/
theorem sampleYesterday_matches :
    (∃ m ∈ sampleYesterday, Malformed m) ∧
      ReqFilter.deserialize (.object sampleYesterday) = .ok initial ∧
      initial.interestedInEvent sampleQueried.event = true ∧
      ¬ ∀ f, ReqFilter.deserialize (.object sampleYesterday) = .ok f →
        MatchesNothing (Sql.Engine.inOrder 32766) f := by
  have hint : initial.interestedInEvent sampleQueried.event = true := by decide +kernel
  refine ⟨⟨_, List.mem_cons_self .., .inr (.inr (.inl ⟨.inl rfl, rfl⟩))⟩, rfl, hint, fun h => ?_⟩
  have := (h initial rfl).1 sampleQueried.event
  rw [hint] at this
  cases this

end Sqlite

end Floonet
