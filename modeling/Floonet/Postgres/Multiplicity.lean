import Mathlib.Algebra.BigOperators.GroupWithZero.Finset
import Floonet.Lib.Answers
import Floonet.Postgres.TagValues
import Floonet.Postgres.WellFormed

/-!
# How often a query returns an event

A tag condition is a join, so a row comes out of a query once for every choice of matching tag
rows: the counts of one letter and of several letters multiply (`found_eq`). The first of these
rows are what the `LIMIT` keeps. They are distinct unless an event with several choices stands in
front of it (`query_rows_distinct_iff`).
-/

namespace Floonet.Postgres

open Hex (Bytes)
open SqlText (WellFormed)

variable {db : Db} {r : EventRow} {strings : IterOrder String} {f : ReqFilter} {q : Query}
  {now : Int}

/-! ## What a filter asks for

A tag condition contributes one join, or one for each value of an all-of condition. The number of
copies of a row is the product of the choices of the joins. -/

section Filter

variable (f : ReqFilter) (db : Db)

/-- The conditions of the filter apart from those on tags. -/
def admits (now : Int) (r : EventRow) : Bool :=
  !f.forceNoMatch &&
    (f.authors.all fun l => l.any fun a => isHex a &&
      (sqlEq (some r.pubKey) (Hex.decode a) || sqlEq r.delegatedBy (Hex.decode a))) &&
    (f.kinds.all fun ks => ks.any fun k => r.kind == asI64 k) &&
    (f.ids.all fun l => l.any fun i => isHex i && sqlEq (some r.id) (Hex.decode i)) &&
    (f.since.all fun t => decide (Representable t) && decide (asI64 t ≤ r.createdAt)) &&
    (f.until_.all fun t => decide (Representable t) && decide (r.createdAt ≤ asI64 t)) &&
    !r.hidden &&
    (r.expiresAt.all fun exp => decide (now < exp * 1000000))

/-- The tag rows of the event with this name that pass the test. -/
def tagCount (c : Char) (p : TagRow → Bool) (r : EventRow) : Nat :=
  db.tags.countP fun t => t.eventId == r.id && t.name == String.singleton c && p t

/-- In how many ways tag rows of the event meet one condition. -/
def conditionCopies (r : EventRow) (c : Char) : TagOperand → Nat
  | .or v => tagCount db c (fun t => decide (∃ x ∈ v, foundBy x t = true)) r
  | .and v => if v = ∅ then 0 else ∏ x ∈ v, tagCount db c (foundBy x) r

/-- In how many ways tag rows of the event meet the tag conditions. -/
def copies (r : EventRow) : Nat :=
  ∏ c ∈ (conditions f).keys, ((conditions f).lookup c).elim 1 (conditionCopies db r c)

/-- The events a filter asks for. -/
def matching (now : Int) : List EventRow :=
  db.events.filter fun r => admits f now r && decide (0 < copies f db r)

/-- The event comes first in the order of the answer. -/
def precedes (a b : EventRow) : Bool :=
  match f.limit with
  | some _ => decide (b.createdAt < a.createdAt)
  | none => decide (a.createdAt < b.createdAt)

/-- How many rows of the join stand in front of those of the event. -/
def rowsBefore (now : Int) (r : EventRow) : Nat :=
  ((db.events.filter fun a => admits f now a && precedes f a r).map (copies f db)).sum

/-- The effective limit. -/
def cap : Nat := f.limit.elim 1000 fun lim => min lim 1000

end Filter

/-! ## The rows of a query

The list the joins produce is counted: a row stands in it once for every choice of tag rows, when
the other conditions admit it. -/

/-- A row is there once for every choice of tag rows. -/
theorem joined_eq (joins : List TagJoin) (rows : List EventRow) :
    joined db joins rows = rows.flatMap fun r =>
      List.replicate (joins.map fun j => db.tags.countP (j.on r)).prod r := by
  induction joins generalizing rows with
  | nil => simp [joined]
  | cons j joins ih =>
    rw [joined, ih, List.flatMap_assoc]
    refine List.flatMap_congr fun r _ => ?_
    rw [List.map_const', ← List.countP_eq_length_filter, List.map_cons, List.prod_cons]
    generalize db.tags.countP (j.on r) = n
    induction n with
    | zero => simp
    | succ n ihn =>
      rw [List.replicate_succ, List.flatMap_cons, ihn, List.replicate_append_replicate,
        Nat.succ_mul, Nat.add_comm]

theorem prod_map_sort {α : Type} [LinearOrder α] (s : Finset α) (g : α → Nat) :
    ((s.sort (· ≤ ·)).map g).prod = ∏ x ∈ s, g x := by
  rw [Finset.prod_eq_multiset_prod, ← Finset.sort_eq s (· ≤ ·), Multiset.map_coe,
    Multiset.prod_coe]

/-- The joins of a condition with values. -/
def conditionJoins (strings : IterOrder String) (c : Char) : TagOperand → List TagJoin
  | .or v => [orJoin strings c v]
  | .and v => (v.sort (· ≤ ·)).map (andJoin c)

/-- A condition with values has its joins. -/
theorem operandJoins_eq_some {c : Char} {op : TagOperand} {js : List TagJoin} :
    operandJoins strings c op = some js ↔ op.values ≠ ∅ ∧ conditionJoins strings c op = js := by
  by_cases h : op.values = ∅
  · simp [operandJoins, h]
  · cases op <;> simp [operandJoins, conditionJoins, h]

/-- Joined lists of results that are there if `p` holds of all arguments. -/
theorem mapM_flatten_eq_some {α β : Type} {g : α → Option (List β)} {k : α → List β}
    {p : α → Prop} {l : List α} {r : List β}
    (h : ∀ a ∈ l, ∀ y, g a = some y ↔ p a ∧ k a = y) :
    (do let ys ← l.mapM g; pure ys.flatten) = some r ↔ (∀ a ∈ l, p a) ∧ l.flatMap k = r := by
  induction l generalizing r with
  | nil => simp
  | cons a l ih =>
    have ih' := fun r => ih (r := r) fun b hb => h b (List.mem_cons_of_mem _ hb)
    have ha := h a (List.mem_cons_self ..)
    simp only [Option.bind_eq_bind, Option.bind_eq_some_iff, Option.pure_def,
      Option.some.injEq] at ih'
    simp only [List.mapM_cons, Option.bind_eq_bind, Option.bind_eq_some_iff, Option.pure_def,
      Option.some.injEq, List.forall_mem_cons, List.flatMap_cons]
    refine ⟨?_, ?_⟩
    · rintro ⟨ys, ⟨y, hy, zs, hzs, rfl⟩, rfl⟩
      obtain ⟨hp, rfl⟩ := (ha y).mp hy
      obtain ⟨hall, hflat⟩ := (ih' _).mp ⟨zs, hzs, rfl⟩
      exact ⟨⟨hp, hall⟩, by rw [hflat, List.flatten_cons]⟩
    · rintro ⟨⟨hp, hall⟩, rfl⟩
      obtain ⟨zs, hzs, hflat⟩ := (ih' _).mpr ⟨hall, rfl⟩
      exact ⟨_, ⟨_, (ha _).mpr ⟨hp, rfl⟩, zs, hzs, rfl⟩, by rw [List.flatten_cons, hflat]⟩

/-- The joins of a filter, if all its conditions have values. -/
theorem tagJoins_eq_some {joins : List TagJoin} :
    tagJoins strings f = some joins ↔
      (∀ c op, (conditions f).lookup c = some op → op.values ≠ ∅) ∧
        ((conditions f).keys.sort (· ≤ ·)).flatMap (fun c =>
          ((conditions f).lookup c).elim [] (conditionJoins strings c)) = joins := by
  rw [tagJoins, conditions]
  rcases f.tags with _ | map
  · simp
  · rw [Option.getD_some]
    refine (mapM_flatten_eq_some
      (p := fun c => ∀ op, map.lookup c = some op → op.values ≠ ∅)
      (k := fun c => (map.lookup c).elim [] (conditionJoins strings c)) fun c hc y => ?_).trans ?_
    · obtain ⟨op, hop⟩ := Option.isSome_iff_exists.mp
        (Finmap.lookup_isSome.mpr (Finmap.mem_keys.mp ((Finset.mem_sort _).mp hc)))
      simp only [hop, Option.bind_some, operandJoins_eq_some, Option.some.injEq, forall_eq',
        Option.elim_some]
    · refine and_congr_left fun _ => ⟨fun h c op hop => h c ?_ op hop, fun h c _ => h c⟩
      rw [Finset.mem_sort, Finmap.mem_keys, ← Finmap.lookup_isSome, hop]
      rfl

/-- The choices of tag rows for the joins of one condition. -/
theorem prod_conditionJoins {c : Char} {op : TagOperand} (h : op.values ≠ ∅) (r : EventRow) :
    ((conditionJoins strings c op).map fun j => db.tags.countP (j.on r)).prod =
      conditionCopies db r c op := by
  have hon : ∀ j : TagJoin, j.name = String.singleton c → ∀ p : TagRow → Bool,
      (∀ t, j.test.holds t = p t) → db.tags.countP (j.on r) = tagCount db c p r := by
    intro j hname p hp
    refine List.countP_congr fun t _ => ?_
    rw [TagJoin.on, hname, hp]
  cases op with
  | or v =>
    rw [conditionJoins, List.map_singleton, List.prod_singleton]
    refine hon _ (orJoin_name ..) _ fun t => ?_
    rw [Bool.eq_iff_iff, orJoin_holds, decide_eq_true_iff]
  | and v =>
    have hv : v ≠ ∅ := h
    rw [conditionJoins, conditionCopies, if_neg hv, List.map_map, ← prod_map_sort]
    refine congrArg List.prod (List.map_congr_left fun x _ => ?_)
    exact hon _ (andJoin_name ..) _ (andJoin_holds c x)

/-- The choices of tag rows for all joins of a query. -/
theorem prod_joins {joins : List TagJoin} (h : tagJoins strings f = some joins) (r : EventRow) :
    (joins.map fun j => db.tags.countP (j.on r)).prod = copies f db r := by
  obtain ⟨hvalues, rfl⟩ := tagJoins_eq_some.mp h
  rw [copies, ← prod_map_sort, List.map_flatMap, List.flatMap, List.prod_flatten, List.map_map]
  refine congrArg List.prod (List.map_congr_left fun c _ => ?_)
  rw [Function.comp_apply]
  rcases hop : (conditions f).lookup c with _ | op
  · rfl
  · exact prod_conditionJoins (hvalues c op hop) r

/-- A condition on a list and the one on what is read from it. -/
theorem all_mapM {α β : Type} {read : α → Option β} {o : Option α} {u : Option β}
    (h : o.mapM read = some u) {p : β → Bool} {k : α → Bool}
    (hk : ∀ a b, read a = some b → p b = k a) : u.all p = o.all k := by
  cases o with
  | none =>
    cases h
    rfl
  | some a =>
    simp only [Option.mapM_some, Option.map_eq_map, Option.map_eq_some_iff] at h
    obtain ⟨b, hb, rfl⟩ := h
    exact hk a b hb

theorem any_hexBlobs {l : List String} {bs : List (Option Bytes)} (h : hexBlobs l = some bs)
    (p : Option Bytes → Bool) : bs.any p = l.any fun a => isHex a && p (Hex.decode a) := by
  simp only [hexBlobs] at h
  split_ifs at h
  cases h
  rw [List.any_map, List.any_filter]
  rfl

theorem any_kindValues {ks : List Nat} {zs : List Int} (h : kindValues ks = some zs)
    (k : Int) : zs.contains k = ks.any fun n => k == asI64 n := by
  rw [kindValues] at h
  split_ifs at h
  cases h
  rw [← List.any_beq, List.any_map]
  rfl

theorem all_times {o : Option Nat} (h : ∀ t ∈ o, Representable t) {p : Int → Bool} :
    (o.map asI64).all p = o.all fun t => decide (Representable t) && p (asI64 t) := by
  cases o with
  | none => rfl
  | some t => simp [h t rfl]

/-- A filter with a query asks for something, and its times are times. -/
theorem written_of_query (h : queryFromFilter strings f = .ok (some q)) :
    f.forceNoMatch = false ∧ (∀ t ∈ f.since, Representable t) ∧
      ∀ t ∈ f.until_, Representable t := by
  have hlists : (lists strings f).isSome = true := by
    rw [queryFromFilter] at h
    rcases hl : lists strings f with _ | l
    · rw [hl] at h
      cases h
    · rfl
  have hno : ¬ queryFromFilter strings f = .panic := by
    rw [h]
    intro hpanic
    cases hpanic
  rw [queryFromFilter_eq_panic, not_and, not_or] at hno
  obtain ⟨hsince, huntil⟩ := hno hlists
  push Not at hsince huntil
  refine ⟨?_, hsince, huntil⟩
  rw [lists] at hlists
  split_ifs at hlists with hforce
  · cases hlists
  · simpa using hforce

/-- What a query asks of an event is what its filter asks. -/
theorem meets_eq (h : queryFromFilter strings f = .ok (some q)) (now : Int) (r : EventRow) :
    q.meets now r = admits f now r := by
  obtain ⟨hforce, htimes⟩ := written_of_query h
  have hg := generates_of_query h
  have hauthors : (q.authors.all fun l =>
      Query.among (some r.pubKey) l || Query.among r.delegatedBy l) =
      f.authors.all fun l => l.any fun a => isHex a &&
        (sqlEq (some r.pubKey) (Hex.decode a) || sqlEq r.delegatedBy (Hex.decode a)) := by
    refine all_mapM hg.authors fun l bs hbs => ?_
    rw [Query.among, Query.among, any_hexBlobs hbs, any_hexBlobs hbs, Bool.eq_iff_iff]
    simp only [Bool.or_eq_true, List.any_eq_true, Bool.and_eq_true, and_or_left, exists_or]
  have hids : (q.ids.all fun l => Query.among (some r.id) l) =
      f.ids.all fun l => l.any fun i => isHex i && sqlEq (some r.id) (Hex.decode i) :=
    all_mapM hg.ids fun l bs hbs => any_hexBlobs hbs _
  have hkinds : (q.kinds.all fun ks => ks.contains r.kind) =
      f.kinds.all fun ks => ks.any fun k => r.kind == asI64 k :=
    all_mapM hg.kinds fun ks zs hzs => any_kindValues hzs _
  have hsince : (q.since.all fun t => decide (t ≤ r.createdAt)) =
      f.since.all fun t => decide (Representable t) && decide (asI64 t ≤ r.createdAt) := by
    rw [hg.since]
    exact all_times htimes.1
  have huntil : (q.until_.all fun t => decide (r.createdAt ≤ t)) =
      f.until_.all fun t => decide (Representable t) && decide (r.createdAt ≤ asI64 t) := by
    rw [hg.until_]
    exact all_times htimes.2
  rw [Query.meets, admits, hauthors, hkinds, hids, hsince, huntil, hforce, Bool.not_false,
    Bool.true_and]

/-- The rows of a query before its limit. -/
theorem found_eq (h : queryFromFilter strings f = .ok (some q)) (db : Db) (now : Int) :
    q.found db now = (db.events.filter (admits f now)).flatMap fun r =>
      List.replicate (copies f db r) r := by
  have hmeets : q.meets now = admits f now := funext (meets_eq h now)
  rw [Query.found, joined_eq, List.filter_flatMap, hmeets]
  simp only [prod_joins (generates_of_query h).joins]
  induction db.events with
  | nil => rfl
  | cons r rows ih =>
    rw [List.flatMap_cons, ih, List.filter_replicate]
    by_cases hr : admits f now r = true
    · rw [if_pos hr, List.filter_cons_of_pos hr, List.flatMap_cons]
    · rw [if_neg hr, List.filter_cons_of_neg hr, List.nil_append]

section Repeated

variable {α : Type} (g : α → Nat)

theorem count_flatMap_replicate [DecidableEq α] {l : List α} (hl : l.Nodup) (x : α) :
    (l.flatMap fun a => List.replicate (g a) a).count x = if x ∈ l then g x else 0 := by
  induction l with
  | nil => rfl
  | cons a l ih =>
    obtain ⟨ha, hl⟩ := List.nodup_cons.mp hl
    rw [List.flatMap_cons, List.count_append, ih hl, List.count_replicate]
    by_cases hx : a = x
    · obtain rfl := hx
      simp [ha]
    · simp [hx, Ne.symm hx]

theorem countP_flatMap_replicate (p : α → Bool) (l : List α) :
    (l.flatMap fun a => List.replicate (g a) a).countP p = ((l.filter p).map g).sum := by
  induction l with
  | nil => rfl
  | cons a l ih =>
    rw [List.flatMap_cons, List.countP_append, ih, List.countP_replicate]
    by_cases ha : p a = true
    · rw [if_pos ha, List.filter_cons_of_pos ha, List.map_cons, List.sum_cons]
    · rw [if_neg ha, List.filter_cons_of_neg ha, Nat.zero_add]

end Repeated

/-! ## Which filters have a query -/

/-- A condition without values has no rows. -/
theorem conditionCopies_of_empty {c : Char} {op : TagOperand} (h : op.values = ∅) (r : EventRow) :
    conditionCopies db r c op = 0 := by
  cases op with
  | or v =>
    obtain rfl : v = ∅ := h
    simp [conditionCopies, tagCount]
  | and v =>
    obtain rfl : v = ∅ := h
    rw [conditionCopies, if_pos rfl]

theorem exists_mapM {α β : Type} {read : α → Option β} {o : Option α}
    (h : ∀ a ∈ o, ∃ b, read a = some b) : ∃ u, o.mapM read = some u := by
  cases o with
  | none => exact ⟨none, rfl⟩
  | some a =>
    obtain ⟨b, hb⟩ := h a rfl
    exact ⟨some b, by simp [hb]⟩

/-- A list with a hex value has blobs. -/
theorem exists_hexBlobs {l : List String} {p : String → Bool}
    (h : (l.any fun a => isHex a && p a) = true) : ∃ bs, hexBlobs l = some bs := by
  obtain ⟨a, ha, hhex⟩ := List.any_eq_true.mp h
  have hmem : a ∈ l.filter isHex := List.mem_filter.mpr ⟨ha, (Bool.and_eq_true_iff.mp hhex).1⟩
  refine ⟨(l.filter isHex).map Hex.decode, ?_⟩
  simp only [hexBlobs]
  rw [if_neg fun hnil => by simp [List.isEmpty_iff.mp hnil] at hmem]

/-- A filter that asks for an event has a query. -/
theorem exists_query (strings : IterOrder String) (hadm : admits f now r = true)
    (hcopies : 0 < copies f db r) : ∃ q, queryFromFilter strings f = .ok (some q) := by
  simp only [admits, Bool.and_eq_true, Option.all_eq_true] at hadm
  obtain ⟨⟨⟨⟨⟨⟨⟨hforce, hauthors⟩, hkinds⟩, hids⟩, hsince⟩, huntil⟩, -⟩, -⟩ := hadm
  have hvalues : ∀ c op, (conditions f).lookup c = some op → op.values ≠ ∅ := by
    intro c op hop hempty
    have hkey : c ∈ (conditions f).keys := by
      rw [Finmap.mem_keys, ← Finmap.lookup_isSome, hop]
      rfl
    refine hcopies.ne' (Finset.prod_eq_zero hkey ?_)
    rw [hop]
    exact conditionCopies_of_empty hempty r
  obtain ⟨joins, hjoins⟩ : ∃ joins, tagJoins strings f = some joins :=
    ⟨_, tagJoins_eq_some.mpr ⟨hvalues, rfl⟩⟩
  obtain ⟨authors, hauthors⟩ := exists_mapM fun l hl => exists_hexBlobs (hauthors l hl)
  obtain ⟨ids, hids⟩ := exists_mapM fun l hl => exists_hexBlobs (hids l hl)
  obtain ⟨kinds, hkinds⟩ : ∃ u, f.kinds.mapM kindValues = some u := by
    refine exists_mapM fun ks hks => ⟨ks.map asI64, ?_⟩
    obtain ⟨k, hk, -⟩ := List.any_eq_true.mp (hkinds ks hks)
    rw [kindValues, if_neg fun hnil => by simp [List.isEmpty_iff.mp hnil] at hk]
  have hlists : lists strings f = some ⟨joins, authors, kinds, ids⟩ := by
    rw [lists, if_neg (by simpa using hforce), hjoins, hauthors, hkinds, hids]
    rfl
  have htime : ∀ {o : Option Nat}, (∀ t ∈ o, Representable t) →
      o.mapM timeParam = .ok (o.map asI64) := mapM_timeParam
  rw [queryFromFilter, hlists]
  simp only [htime fun t ht => of_decide_eq_true (hsince t ht).1,
    htime fun t ht => of_decide_eq_true (huntil t ht).1]
  exact ⟨_, rfl⟩

/-! ## Distinct rows

The limit cuts the ordered list, so a row that is there twice may still come out once. The
condition counts the rows in front of it, for every order an engine may choose among equal times. -/

/-- The answers to the query of a filter, in the orders of all engines. A statement that is not
well formed has none, nor has one that the server does not take for another reason. -/
def answers (strings : IterOrder String) (takes : ReqFilter → Prop) (db : Db) (f : ReqFilter)
    (now : Int) : Set (List EventRow) :=
  { rows | takes f ∧ ∃ q, queryFromFilter strings f = .ok (some q) ∧ WellFormed columnsOf q.sql ∧
    ∃ eng, q.rows eng db now = rows }

/-- The rows are the newest `n` of the events. -/
structure Newest (n : Nat) (events rows : List EventRow) : Prop where
  mem : ∀ r ∈ rows, r ∈ events
  length : rows.length = min n events.length
  newest : ∀ r ∈ rows, ∀ a ∈ events, a ∉ rows → a.createdAt ≤ r.createdAt

theorem nodup_events (db : Db) : db.events.Nodup := List.Nodup.of_map _ db.id_nodup

/-- Distinct rows have distinct ids. -/
theorem nodup_ids_iff {rows : List EventRow} (h : ∀ r ∈ rows, r ∈ db.events) :
    (rows.map EventRow.id).Nodup ↔ rows.Nodup := by
  refine ⟨List.Nodup.of_map _, fun hnodup => hnodup.map_on fun a ha b hb heq => ?_⟩
  exact List.inj_on_of_nodup_map db.id_nodup (h a ha) (h b hb) heq

theorem nodup_matching (f : ReqFilter) (db : Db) (now : Int) : (matching f db now).Nodup :=
  (nodup_events db).filter _

section Found

variable (h : queryFromFilter strings f = .ok (some q))

include h

/-- The matching rows are those of the query. -/
theorem mem_matching : r ∈ matching f db now ↔ r ∈ q.found db now := by
  rw [found_eq h, matching]
  simp only [List.mem_filter, Bool.and_eq_true, decide_eq_true_eq, List.mem_flatMap,
    List.mem_replicate]
  refine ⟨fun ⟨hr, hadm, hpos⟩ => ⟨r, ⟨hr, hadm⟩, hpos.ne', rfl⟩, ?_⟩
  rintro ⟨a, ⟨ha, hadm⟩, hpos, rfl⟩
  exact ⟨ha, hadm, Nat.pos_of_ne_zero hpos⟩

/-- A row that the query finds twice. -/
theorem count_found [DecidableEq EventRow] (r : EventRow) :
    2 ≤ (q.found db now).count r ↔ r ∈ matching f db now ∧ 2 ≤ copies f db r := by
  rw [found_eq h, count_flatMap_replicate _ ((nodup_events db).filter _), matching]
  simp only [List.mem_filter, Bool.and_eq_true, decide_eq_true_eq]
  split_ifs with hr
  · exact ⟨fun hc => ⟨⟨hr.1, hr.2, by omega⟩, hc⟩, fun hc => hc.2⟩
  · exact iff_of_false (by omega) fun hc => hr ⟨hc.1.1, hc.1.2.1⟩

theorem countP_found (r : EventRow) :
    (q.found db now).countP (precedes f · r) = rowsBefore f db now r := by
  rw [found_eq h, countP_flatMap_replicate, List.filter_filter, rowsBefore]
  simp only [Bool.and_comm]

/-- The rows are distinct for every engine, if and only if no repeated row gets in twice. -/
theorem forall_nodup_rows_iff : (∀ eng, (q.rows eng db now).Nodup) ↔
    ∀ r ∈ matching f db now, 2 ≤ copies f db r → cap f ≤ rowsBefore f db now r + 1 := by
  classical
  have hcap : q.cap = cap f := by rw [Query.cap, (generates_of_query h).limit, cap]
  have hlimit := (generates_of_query h).limit
  have hiff : (∀ r, 2 ≤ (q.found db now).count r →
      q.cap ≤ (q.found db now).countP (precedes f · r) + 1) ↔
      ∀ r ∈ matching f db now, 2 ≤ copies f db r → cap f ≤ rowsBefore f db now r + 1 := by
    simp only [count_found h, countP_found h, hcap, and_imp]
  rw [← hiff]
  rcases hf : f.limit with _ | lim
  · rw [hf] at hlimit
    simp only [Query.rows, hlimit, precedes, hf]
    exact Sql.forall_nodup_take_orderByAsc_iff EventRow.createdAt
  · rw [hf] at hlimit
    simp only [Query.rows, hlimit, precedes, hf]
    exact Sql.forall_nodup_take_orderByDesc_iff EventRow.createdAt

omit h in
/-- The rows in order are among those found. -/
theorem mem_rows {eng : Sql.Engine} (hr : r ∈ q.rows eng db now) : r ∈ q.found db now := by
  rw [Query.rows] at hr
  split at hr
  · exact Sql.mem_orderByDesc.mp (List.mem_of_mem_take hr)
  · exact Sql.mem_orderByAsc.mp (List.mem_of_mem_take hr)

/-- Distinct rows under a limit are the newest events. -/
theorem newest_of_nodup {eng : Sql.Engine} {n : Nat} (hlimit : f.limit = some n)
    (hnodup : (q.rows eng db now).Nodup) :
    Newest (min n 1000) (matching f db now) (q.rows eng db now) := by
  have hq : q.limit = some n := (generates_of_query h).limit.trans hlimit
  have hcap : q.cap = min n 1000 := by rw [Query.cap, hq, Option.elim_some]
  have hmem : ∀ r, r ∈ matching f db now ↔ r ∈ q.found db now := fun r => mem_matching h
  simp only [Query.rows, hq, hcap] at hnodup ⊢
  obtain ⟨hlen, hnewest⟩ := Sql.take_orderByDesc_of_nodup EventRow.createdAt
    (nodup_matching f db now) hmem eng hnodup
  exact ⟨fun r hr => (hmem r).mpr (Sql.mem_orderByDesc.mp (List.mem_of_mem_take hr)), hlen,
    hnewest⟩

end Found

/-- **One row for each event.** The answers to the query of a filter have each event once, and
under a limit the newest events, if and only if the statement is malformed or not taken, or every
matching event with several choices of tag rows has so many rows in front of it that the limit lets
one of its own in at most. -/
theorem query_rows_distinct_iff (strings : IterOrder String) (takes : ReqFilter → Prop) (db : Db)
    (f : ReqFilter) (now : Int) :
    (∀ rows ∈ answers strings takes db f now, (rows.map EventRow.id).Nodup ∧
        ∀ n, f.limit = some n → Newest (min n 1000) (matching f db now) rows) ↔
      (takes f → (f.ids.isSome = true → conditions f = ∅) →
        (∀ c v, (conditions f).lookup c = some (.or v) → HexPaired v) →
        ∀ r ∈ matching f db now, 2 ≤ copies f db r → cap f ≤ rowsBefore f db now r + 1) := by
  refine ⟨fun hall htakes hids hpaired r hr hcopies => ?_, fun hcond rows hrows => ?_⟩
  · have hmatch := (List.mem_filter.mp hr).2
    rw [Bool.and_eq_true, decide_eq_true_iff] at hmatch
    obtain ⟨q, hq⟩ := exists_query strings hmatch.1 hmatch.2
    have hwf := (wellFormed_iff_of_generates (generates_of_query hq)).mpr ⟨hids, hpaired⟩
    refine (forall_nodup_rows_iff hq).mp (fun eng => ?_) r hr hcopies
    exact (hall _ ⟨htakes, q, hq, hwf, eng, rfl⟩).1.of_map
  · obtain ⟨htakes, q, hq, hwf, eng, rfl⟩ := hrows
    obtain ⟨hids, hpaired⟩ := (wellFormed_iff_of_generates (generates_of_query hq)).mp hwf
    have hnodup := (forall_nodup_rows_iff hq).mpr (hcond htakes hids hpaired) eng
    have hmem : ∀ r ∈ q.rows eng db now, r ∈ db.events := fun r hr =>
      (List.mem_filter.mp ((mem_matching hq).mpr (mem_rows hr))).1
    exact ⟨(nodup_ids_iff hmem).mpr hnodup, fun n hn => newest_of_nodup hq hn hnodup⟩

/-- A note with two topics. -/
def sampleTopics : Recorded where
  id := 0xd9f33d088a5ad358a67d6ba1434f575b272311126ccf2b6b7c1c437fa4ffb3a7
  pubkey := 0x5cbdf0646e5db4eaa398f365f2ea7a0e3d419b7e0330e39ce92bddedcac4f9bc
  sigR := 0xc37b3b6c9ce54b88af5fe9f5d42486fa6f5f22914eb832f63843f2d6727fdd4d
  sigS := 0xaa1f7db25748febbbe7e385447e932e12ffffb16a1ce554a5d53e3d264d095a1
  createdAt := 1700000200
  kind := 1
  tags := [["t", "grin"], ["t", "relay"]]
  content := "two topics"

theorem sampleTopics_stored :
    Stores Server.inOrder Db.empty sampleTopics.event (sampleDb sampleTopics)
      (sampleRow sampleTopics) :=
  stores_sample rfl (storable_note rfl (by decide) rfl (by decide +kernel))

/-- The notes on either topic. -/
def sampleTopicsFilter : ReqFilter := onlyTag 't' (.or {"grin", "relay"})

/-- The one note comes out twice. -/
theorem sampleTopics_twice :
    sampleTopics.event.Validated (Recorded.crypto [sampleTopics]) ∧
      Stores Server.inOrder Db.empty sampleTopics.event (sampleDb sampleTopics)
        (sampleRow sampleTopics) ∧
      ReqFilter.deserialize (.object [("#t", .array [.string "grin", .string "relay"])]) =
        .ok sampleTopicsFilter ∧
      ∃ rows ∈ answers (ReqFilter.sampleOrder String) (fun _ => True) (sampleDb sampleTopics)
        sampleTopicsFilter 1700000300000000, ¬ (rows.map EventRow.id).Nodup := by
  have hq : queryFromFilter (ReqFilter.sampleOrder String) sampleTopicsFilter = .ok (some _) :=
    query_onlyTag rfl
  have hpaired : HexPaired {"grin", "relay"} := by
    rintro ⟨x, hx, hhex⟩
    revert x
    decide
  have hwf := (wellFormed_iff_of_generates (generates_of_query hq)).mpr
    ⟨nofun, fun c v hv => by
      obtain ⟨-, heq⟩ := eq_of_lookup_singleton hv
      cases heq
      exact hpaired⟩
  have hcopies : copies sampleTopicsFilter (sampleDb sampleTopics) (sampleRow sampleTopics) = 2 := by
    decide +kernel
  have hmatch : sampleRow sampleTopics ∈
      matching sampleTopicsFilter (sampleDb sampleTopics) 1700000300000000 := by
    refine List.mem_filter.mpr ⟨sampleTopics_stored.mem, ?_⟩
    rw [hcopies]
    decide +kernel
  -- no row stands in front of the two
  have hrepeat : ¬ ∀ eng, (Query.rows _ eng (sampleDb sampleTopics) 1700000300000000).Nodup :=
    fun h => absurd ((forall_nodup_rows_iff hq).mp h _ hmatch hcopies.ge) (by decide +kernel)
  push Not at hrepeat
  obtain ⟨eng, heng⟩ := hrepeat
  exact ⟨Recorded.validated (by decide) (List.mem_singleton_self _), sampleTopics_stored, rfl, _,
    ⟨trivial, _, hq, hwf, eng, rfl⟩, fun h => heng h.of_map⟩

end Floonet.Postgres
