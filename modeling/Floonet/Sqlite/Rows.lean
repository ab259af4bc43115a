import Floonet.Sqlite.Frame
import Floonet.Sqlite.Query

/-!
# The rows of a statement

What the statement of a filter returns on the database it finds, and what becomes of a row
later: one of no replaceable kind that is never hidden and does not expire stays, and every
statement of a filter that selected it once selects it again.
-/

namespace Floonet

/-- The event came out of the wrapper: it is validated, its index is built and its delegator
is known. -/
def Event.Wrapped (crypto : Crypto) (e : Event) : Prop :=
  ∃ ec : EventCmd, ec.Deserialized ∧ EventWrapper.from crypto ec = .ok (.wrappedEvent e)

namespace Sqlite

/-- The rows of a statement, in order. -/
def Query.rows (eng : Sql.Engine) (db : Db) (q : Query) : List EventRow :=
  let found := db.events.filter (q.selects db)
  match q.limit with
  | some lim => (Sql.orderByDesc eng EventRow.createdAt found).take lim
  | none => Sql.orderByAsc eng EventRow.createdAt found

/-- What comes back of a statement: its rows, or none when SQLite refuses it. -/
def Query.results (eng : Sql.Engine) (db : Db) (q : Query) : List EventRow :=
  if q.taken eng then q.rows eng db else []

variable {eng : Sql.Engine} {db db' : Db} {q : Query} {r : EventRow} {f : ReqFilter} {e : Event}
  {now now' : Nat}

/-- A row of the answer is in the table and selected. -/
theorem selects_of_mem_rows (h : r ∈ q.rows eng db) : r ∈ db.events ∧ q.selects db r = true := by
  rw [← List.mem_filter]
  rcases hl : q.limit with _ | lim <;> simp only [Query.rows, hl] at h
  · exact Sql.mem_orderByAsc.mp h
  · exact Sql.mem_orderByDesc.mp (List.mem_of_mem_take h)

/-- Nothing comes back of a statement that is refused, has the limit 0, or selects no row. -/
theorem results_eq_nil_iff : q.results eng db = [] ↔
    q.taken eng = false ∨ q.limit = some 0 ∨ ∀ r ∈ db.events, q.selects db r = false := by
  have hnone : (∀ r ∈ db.events, q.selects db r = false) ↔ db.events.filter (q.selects db) = [] := by
    simp only [List.filter_eq_nil_iff, Bool.not_eq_true]
  rw [hnone, Query.results]
  rcases htaken : q.taken eng
  · simp
  rcases hlimit : q.limit with _ | lim
  · have hperm := Sql.orderByAsc_perm eng EventRow.createdAt (db.events.filter (q.selects db))
    simp only [Query.rows, hlimit, if_true, reduceCtorEq, false_or]
    exact ⟨fun h => (hperm.symm.trans (.of_eq h)).eq_nil,
      fun h => (hperm.trans (.of_eq h)).eq_nil⟩
  · have hperm := Sql.orderByDesc_perm eng EventRow.createdAt (db.events.filter (q.selects db))
    simp only [Query.rows, hlimit, if_true, reduceCtorEq, false_or, Option.some.injEq,
      List.take_eq_nil_iff]
    exact or_congr_right ⟨fun h => (hperm.symm.trans (.of_eq h)).eq_nil,
      fun h => (hperm.trans (.of_eq h)).eq_nil⟩

/-- Without a limit a statement returns all it selects. -/
theorem mem_rows (hlimit : q.limit = none) (hr : r ∈ db.events) (h : q.selects db r = true) :
    r ∈ q.rows eng db := by
  rw [Query.rows, hlimit]
  exact Sql.mem_orderByAsc.mpr (List.mem_filter.mpr ⟨hr, h⟩)

theorem limit_queryFromFilter (h : f.limit = none) : (queryFromFilter f now).limit = none := by
  rw [queryFromFilter]
  split_ifs
  · rfl
  · exact h

/-! ## Selected rows match -/

/-- A selected row is visible, and has not expired. -/
theorem visible_of_selects (h : (queryFromFilter f now).selects db r = true) :
    r.hidden = false ∧ (r.expiresAt.all fun exp => decide (now < exp)) = true := by
  rw [queryFromFilter] at h
  split_ifs at h with hforce
  · cases h
  · simp only [Query.selects, Bool.and_eq_true, Bool.not_eq_true', List.all_append,
      List.all_cons, List.all_nil, Bool.and_true, Component.holds] at h
    exact ⟨h.1, h.2.2⟩

/-- Where statements and the live match may read a filter differently: ids and authors are
compared as bytes by the one and as text by the other, and a tag condition without values is
skipped by the one and met by almost no event for the other. -/
structure ReadsAlike (f : ReqFilter) (e : Event) : Prop where
  ids : f.idsMatch e = true
  authors : f.authorsMatch e = true ∨ f.delegatedAuthorsMatch e = true
  tags : EmptyTagsMet f e

/-- What the condition of a statement says in the same words as the live match. -/
theorem matches_of_selects (hcoh : db.Coherent) (hr : r ∈ db.events) (hrow : RowOf e r)
    (h : (queryFromFilter f now).selects db r = true) :
    f.forceNoMatch = false ∧ f.kindMatch e.kind = true ∧
      (f.since.all fun t => decide (t ≤ e.createdAt)) = true ∧
      (f.until_.all fun t => decide (e.createdAt ≤ t)) = true ∧
      ∀ map, f.tags = some map → ∀ key val, map.lookup key = some val → val.values ≠ ∅ →
        tagValuesFound e key val := by
  rw [queryFromFilter] at h
  split_ifs at h with hforce
  · cases h
  · simp only [Query.selects, Bool.and_eq_true, Bool.not_eq_true', List.all_append,
      holds_tagsComponents] at h
    obtain ⟨-, ⟨⟨⟨⟨⟨-, hkind⟩, -⟩, htags⟩, hsince⟩, huntil⟩, -⟩ := h
    refine ⟨by simpa using hforce, ?_, ?_, ?_, fun map hmap key val hl hne => ?_⟩
    · rw [ReqFilter.kindMatch, ← hrow.kind]
      rcases hk : f.kinds with _ | ks
      · rfl
      · rw [hk] at hkind
        simpa [Component.holds] using hkind
    · rw [← hrow.createdAt]
      rcases hs : f.since with _ | t
      · rfl
      · rw [hs] at hsince
        simpa [Component.holds] using hsince
    · rw [← hrow.createdAt]
      rcases hu : f.until_ with _ | t
      · rfl
      · rw [hu] at huntil
        simpa [Component.holds] using huntil
    · exact ((holds_tagComponents hcoh hr hrow hne).mp (htags map hmap key val hl)).1

/-- The event of a selected row is one the filter is interested in, where both read the filter
alike. -/
theorem interested_of_selects {crypto : Crypto} (hcoh : db.Coherent) (hr : r ∈ db.events)
    (hcontent : r.content = e.serialized) (hwrap : e.Wrapped crypto) (halike : ReadsAlike f e)
    (h : (queryFromFilter f now).selects db r = true) : f.interestedInEvent e = true := by
  obtain ⟨ec, hec, hwrap⟩ := hwrap
  obtain ⟨hforce, hkind, hsince, huntil, htags⟩ :=
    matches_of_selects hcoh hr ((hcoh r hr).rowOf hcontent) h
  exact (interestedInEvent_iff hec hwrap).mpr
    ⟨⟨halike.ids, hkind, hsince, huntil, htags, hforce⟩, halike.authors, halike.tags⟩

/-- For filters of full hex only the tag conditions without values make a difference. -/
theorem readsAlike_iff {crypto : Crypto} (hcoh : db.Coherent) (hr : r ∈ db.events)
    (hcontent : r.content = e.serialized) (hwrap : e.Wrapped crypto)
    (hlow : isLowerHex e.pubkey = true) (hf : FullHexFilter f)
    (h : (queryFromFilter f now).selects db r = true) : ReadsAlike f e ↔ EmptyTagsMet f e := by
  obtain ⟨ec, hec, hwrap⟩ := hwrap
  obtain ⟨hvis, hexp⟩ := visible_of_selects h
  obtain ⟨hid, hpk⟩ := fullHex_wrapped hwrap hlow
  obtain ⟨hrest, hauthor⟩ :=
    (selects_iff hcoh hr ((hcoh r hr).rowOf hcontent) hf hid hpk hvis hexp).mp h
  exact ⟨ReadsAlike.tags, fun htags => ⟨hrest.ids, .inl hauthor, htags⟩⟩

/-- A filter of full hex whose tag conditions all have values is read alike by both. -/
theorem readsAlike_of_values {crypto : Crypto} (hcoh : db.Coherent) (hr : r ∈ db.events)
    (hcontent : r.content = e.serialized) (hwrap : e.Wrapped crypto)
    (hlow : isLowerHex e.pubkey = true) (hf : FullHexFilter f)
    (hvalues : ∀ map, f.tags = some map → ∀ key val, map.lookup key = some val → val.values ≠ ∅)
    (h : (queryFromFilter f now).selects db r = true) : ReadsAlike f e :=
  (readsAlike_iff hcoh hr hcontent hwrap hlow hf h).mpr fun map hmap key val hl hnone =>
    absurd hnone (hvalues map hmap key val hl)

/-! ## Rows that stay -/

/-- A tag condition looks for a tag row of the event. -/
theorem holds_tag_eq (db : Db) (r : EventRow) (c : TagClause) :
    (Component.tag c).holds db r = (db.tagsOf r.id).any c.matches := by
  rw [Bool.eq_iff_iff, Component.holds, List.contains_iff_mem, List.mem_map, List.any_eq_true]
  refine ⟨?_, ?_⟩
  · rintro ⟨t, ht, hid⟩
    obtain ⟨ht, hm⟩ := List.mem_filter.mp ht
    exact ⟨t, List.mem_filter.mpr ⟨ht, by rw [beq_iff_eq, hid]⟩, hm⟩
  · rintro ⟨t, ht, hm⟩
    obtain ⟨ht, hid⟩ := List.mem_filter.mp ht
    exact ⟨t, List.mem_filter.mpr ⟨ht, hm⟩, beq_iff_eq.mp hid⟩

/-- Of the tags a condition looks at those of the row only. -/
theorem holds_congr (htags : db'.tagsOf r.id = db.tagsOf r.id) (c : Component) :
    c.holds db' r = c.holds db r := by
  cases c with
  | tag c => rw [holds_tag_eq, holds_tag_eq, htags]
  | _ => rfl

/-- A row that was selected is selected again as long as it has not expired. -/
theorem selects_again (htags : db'.tagsOf r.id = db.tagsOf r.id)
    (hexp : (r.expiresAt.all fun exp => decide (now' < exp)) = true)
    (h : (queryFromFilter f now).selects db r = true) :
    (queryFromFilter f now').selects db' r = true := by
  have hholds : Component.holds db' r = Component.holds db r := funext (holds_congr htags)
  rw [queryFromFilter] at h ⊢
  split_ifs at h ⊢ with hforce
  · exact h
  · simp only [Query.selects, Bool.and_eq_true, Bool.not_eq_true', List.all_append, List.all_cons,
      List.all_nil, Bool.and_true, hholds] at h ⊢
    exact ⟨h.1, h.2.1, hexp⟩

/-- An event of no replaceable kind that is added has a row. -/
theorem exists_row_of_persistEvent {n : Nat} (h : persistEvent eng db e = .ok (n, db')) (hn : n ≠ 0)
    (hkind : e.isReplaceable = false ∧ e.isParamReplaceable = false) :
    ∃ r ∈ db'.events, r.content = e.serialized := by
  rcases persistEvent_cases eng db e with ⟨err, herr⟩ | hdup | ⟨hash, author, hacc, -, hok⟩
  · rw [h] at herr
    cases herr
  · rw [h] at hdup
    cases hdup
    exact absurd rfl hn
  · rw [h] at hok
    cases hok
    refine ⟨_, (mem_accepted hacc).mpr ⟨_, .inr rfl, ?_, rfl⟩, Db.hideRow_content ..⟩
    by_contra hsw
    obtain ⟨-, -, hrep⟩ := swept_le ((Bool.not_eq_false _).mp hsw)
    rw [hkind.1, hkind.2] at hrep
    simp at hrep

/-- A row of no replaceable kind that is not hidden stays, until it expires. -/
theorem mem_apply {op : Op} (hr : r ∈ db.events)
    (hkind : r.content.isReplaceable = false ∧ r.content.isParamReplaceable = false)
    (hrow : r.kind = r.content.kind)
    (hvis : ∀ s ∈ (op.apply eng db).events, s.content = r.content → s.hidden = false)
    (hexp : ∀ now, op = .deleteExpired now →
      (r.expiresAt.all fun exp => decide (now < exp)) = true) :
    r ∈ (op.apply eng db).events := by
  cases op with
  | persistEvent e =>
    by_contra hch
    obtain ⟨-, ⟨hk, hrep⟩ | ⟨-, -, -, hin⟩⟩ := changed_cases hr hch
    · rw [hrow] at hk
      rw [Event.isReplaceable_iff, Event.isParamReplaceable_iff, ← hk,
        ← Event.isReplaceable_iff, ← Event.isParamReplaceable_iff, hkind.1, hkind.2] at hrep
      simp at hrep
    · have hhid := hvis _ hin rfl
      cases hhid
  | deleteExpired now =>
    refine Db.mem_deleteEvents.mpr ⟨hr, ?_⟩
    have hlive := hexp now rfl
    rcases hex : r.expiresAt with _ | exp
    · simp
    · rw [hex] at hlive
      simp only [Option.all_some, decide_eq_true_eq] at hlive
      simp [not_le.mpr hlive]
  | createVerificationRecord metadata name now => simpa [Op.apply] using hr
  | updateVerificationTimestamp id verifTime => exact hr
  | failVerification id failTime => exact hr
  | deleteVerification id => exact hr

end Sqlite

end Floonet
