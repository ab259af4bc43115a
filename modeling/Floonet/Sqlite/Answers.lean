import Floonet.Lib.Answers
import Floonet.Sqlite.Rows

/-!
# The answers of a statement

What the client gets for a filter is a list of events; in which order rows of the same time come,
and which of them a `LIMIT` cuts off, is the engine's choice. `answers` collects the lists over
all engines. It depends on the events of the selected rows only (`answers_eq_of_perm`), and
without a limit it determines them (`perm_of_answers_eq`).
-/

namespace Floonet.Sqlite

variable {db db' : Db} {q q' : Query} {r : EventRow} {f : ReqFilter} {e : Event} {now : Nat}

/-- The lists of events a statement can return. -/
def answers (db : Db) (q : Query) : Set (List Event) :=
  { l | ∃ eng, (q.rows eng db).map EventRow.content = l }

/-- The events of the selected rows, in the order of the table. -/
def selected (db : Db) (q : Query) : List Event :=
  (db.events.filter (q.selects db)).map EventRow.content

/-- Column `created_at` says what the event says. -/
def TimesAgree (db : Db) : Prop := ∀ r ∈ db.events, r.createdAt = r.content.createdAt

/-- The answers are the sorted arrangements of the selected events, up to the limit. -/
theorem mem_answers (htimes : TimesAgree db) {l : List Event} :
    l ∈ answers db q ↔ ∃ m : List Event, m.Perm (selected db q) ∧
      match q.limit with
      | some lim => (m.Pairwise fun a b => b.createdAt ≤ a.createdAt) ∧ m.take lim = l
      | none => (m.Pairwise fun a b => a.createdAt ≤ b.createdAt) ∧ m = l := by
  have hagree : ∀ rows : List EventRow, rows.Perm (db.events.filter (q.selects db)) →
      ∀ r ∈ rows, r.createdAt = r.content.createdAt := by
    intro rows hperm r hr
    exact htimes r (List.mem_filter.mp (hperm.mem_iff.mp hr)).1
  rcases hlim : q.limit with _ | lim
  · refine ⟨?_, ?_⟩
    · rintro ⟨eng, rfl⟩
      obtain ⟨hperm, hsorted⟩ := Sql.exists_orderByAsc_eq_iff EventRow.createdAt |>.mp
        ⟨eng, rfl⟩
      refine ⟨_, hperm.map EventRow.content, ?_, by rw [Query.rows, hlim]⟩
      rw [List.pairwise_map]
      refine hsorted.imp_of_mem fun ha hb hab => ?_
      rwa [← hagree _ hperm _ ha, ← hagree _ hperm _ hb]
    · rintro ⟨m, hm, hsorted, rfl⟩
      obtain ⟨rows, hperm, rfl⟩ := Sql.exists_perm_map_eq hm
      rw [List.pairwise_map] at hsorted
      obtain ⟨eng, heng⟩ := Sql.exists_orderByAsc_eq_iff EventRow.createdAt |>.mpr
        ⟨hperm, hsorted.imp_of_mem fun ha hb hab => by
          rwa [hagree _ hperm _ ha, hagree _ hperm _ hb]⟩
      exact ⟨eng, by rw [Query.rows, hlim]; exact congrArg _ heng⟩
  · refine ⟨?_, ?_⟩
    · rintro ⟨eng, rfl⟩
      obtain ⟨hperm, hsorted⟩ := Sql.exists_orderByDesc_eq_iff EventRow.createdAt |>.mp
        ⟨eng, rfl⟩
      refine ⟨_, hperm.map EventRow.content, ?_, by rw [Query.rows, hlim, List.map_take]⟩
      rw [List.pairwise_map]
      refine hsorted.imp_of_mem fun ha hb hab => ?_
      rwa [← hagree _ hperm _ ha, ← hagree _ hperm _ hb]
    · rintro ⟨m, hm, hsorted, rfl⟩
      obtain ⟨rows, hperm, rfl⟩ := Sql.exists_perm_map_eq hm
      rw [List.pairwise_map] at hsorted
      obtain ⟨eng, heng⟩ := Sql.exists_orderByDesc_eq_iff EventRow.createdAt |>.mpr
        ⟨hperm, hsorted.imp_of_mem fun ha hb hab => by
          rwa [hagree _ hperm _ ha, hagree _ hperm _ hb]⟩
      refine ⟨eng, ?_⟩
      simp only [Query.rows, hlim]
      rw [heng, List.map_take]

/-- Statements that select the same events have the same answers. -/
theorem answers_eq_of_perm (ht : TimesAgree db) (ht' : TimesAgree db')
    (h : (selected db q).Perm (selected db' q)) : answers db q = answers db' q := by
  ext l
  rw [mem_answers ht, mem_answers ht']
  exact exists_congr fun m => and_congr_left fun _ =>
    ⟨fun hm => hm.trans h, fun hm => hm.trans h.symm⟩

/-- Without a limit, the same answers are the same events. -/
theorem perm_of_answers_eq (ht : TimesAgree db) (ht' : TimesAgree db') (hlim : q.limit = none)
    (h : answers db q = answers db' q) : (selected db q).Perm (selected db' q) := by
  have hmem : ((q.rows (Sql.Engine.inOrder 0) db).map EventRow.content) ∈ answers db q :=
    ⟨_, rfl⟩
  obtain ⟨m, hm, hml⟩ := (mem_answers ht).mp hmem
  obtain ⟨m', hm', hml'⟩ := (mem_answers ht').mp (h ▸ hmem)
  rw [hlim] at hml hml'
  exact hm.symm.trans ((hml.2.trans hml'.2.symm) ▸ hm')

/-- Two databases that no filter tells apart. -/
def SameAnswers (db db' : Db) : Prop :=
  ∀ f now, answers db (queryFromFilter f now) = answers db' (queryFromFilter f now)

/-! ## Two filters -/

/-- A filter without conditions selects every row that is visible and never expires. -/
theorem selects_initial (hvis : r.hidden = false) (hexp : r.expiresAt = none) :
    (queryFromFilter ReqFilter.initial now).selects db r = true := by
  simp [queryFromFilter, ReqFilter.initial, Query.selects, tagsComponents, Component.holds, hvis,
    hexp]

/-- The filter for one value of one letter. -/
def tagFilter (c : Char) (v : String) : ReqFilter :=
  { ReqFilter.initial with tags := some (Finmap.singleton c (.or {v})) }

theorem lookup_singleton_eq_some {c key : Char} {op val : TagOperand} :
    (Finmap.singleton c op : Finmap fun _ : Char => TagOperand).lookup key = some val ↔
      key = c ∧ val = op := by
  by_cases hkey : key = c
  · subst hkey
    rw [Finmap.lookup_singleton_eq, Option.some.injEq]
    exact ⟨fun h => ⟨rfl, h.symm⟩, fun h => h.2.symm⟩
  · have hnone : (Finmap.singleton c op : Finmap fun _ : Char => TagOperand).lookup key = none :=
      Finmap.lookup_eq_none.mpr fun hmem => hkey (Finmap.mem_singleton _ _ _ |>.mp hmem)
    rw [hnone]
    exact ⟨fun h => (by cases h), fun h => absurd h.1 hkey⟩

/-- It selects the rows of the events with such a tag. -/
theorem selects_tagFilter_iff {c : Char} {v : String} :
    (queryFromFilter (tagFilter c v) now).selects db r = true ↔
      r.hidden = false ∧ (r.expiresAt.all fun exp => decide (now < exp)) = true ∧
        (tagComponents (tagFilter c v) c (.or {v})).all (Component.holds db r) = true := by
  have htags : (tagsComponents (tagFilter c v)).all (Component.holds db r) = true ↔
      (tagComponents (tagFilter c v) c (.or {v})).all (Component.holds db r) = true := by
    rw [holds_tagsComponents]
    refine ⟨fun h => h _ rfl c _ (lookup_singleton_eq_some.mpr ⟨rfl, rfl⟩), ?_⟩
    rintro h map hmap key val hl
    obtain rfl := Option.some.inj hmap
    obtain ⟨rfl, rfl⟩ := lookup_singleton_eq_some.mp hl
    exact h
  have hquery : (queryFromFilter (tagFilter c v) now).selects db r =
      (!r.hidden && ((tagsComponents (tagFilter c v)).all (Component.holds db r) &&
        (Component.unexpired now).holds db r)) := by
    rw [queryFromFilter, show (tagFilter c v).forceNoMatch = false from rfl]
    simp only [Bool.false_eq_true, if_false, Query.selects,
      show (tagFilter c v).authors = none from rfl, show (tagFilter c v).kinds = none from rfl,
      show (tagFilter c v).ids = none from rfl, show (tagFilter c v).since = none from rfl,
      show (tagFilter c v).until_ = none from rfl, Option.map_none, Option.toList_none,
      List.nil_append, List.append_nil, List.all_append, List.all_cons, List.all_nil,
      Bool.and_true]
  rw [hquery, Bool.and_eq_true, Bool.and_eq_true, Bool.not_eq_true', htags]
  exact and_congr_right fun _ => and_comm

/-- A row of an event with the tag is selected. -/
theorem selects_tagFilter (now : Nat) (hcoh : db.Coherent) (hr : r ∈ db.events) (hrow : RowOf e r)
    (hvis : r.hidden = false) (hexp : r.expiresAt = none) {c : Char} {v : String}
    (hmem : (String.singleton c, v) ∈ e.searchableTags) :
    (queryFromFilter (tagFilter c v) now).selects db r = true := by
  have hne : (TagOperand.or {v}).values ≠ ∅ := Finset.singleton_ne_empty v
  refine selects_tagFilter_iff.mpr ⟨hvis, by rw [hexp]; rfl, ?_⟩
  refine (holds_tagComponents hcoh hr hrow hne).mpr ⟨?_, rfl, rfl, rfl⟩
  exact ⟨v, Finset.mem_singleton_self v, hmem⟩

/-- Without tag rows it selects nothing. -/
theorem selected_tagFilter_nil (htags : db.tags = []) (c : Char) (v : String) :
    selected db (queryFromFilter (tagFilter c v) now) = [] := by
  have hne : (TagOperand.or {v}).values ≠ ∅ := Finset.singleton_ne_empty v
  have hnone : ∀ r ∈ db.events,
      ¬ (queryFromFilter (tagFilter c v) now).selects db r = true := by
    intro r _ hsel
    obtain ⟨-, -, htag⟩ := selects_tagFilter_iff.mp hsel
    rw [tagComponents, if_neg hne] at htag
    simp [Component.holds, htags] at htag
  rw [selected, List.filter_eq_nil_iff.mpr hnone, List.map_nil]

end Floonet.Sqlite
