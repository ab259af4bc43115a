import Mathlib.Data.List.Sort
import Mathlib.Data.List.Perm.Basic
import Mathlib.Data.List.NodupEquivFin
import Mathlib.Order.OrderDual
import Floonet.Lib.Sql

/-!
# What engines can answer

A statement leaves the order of rows that compare equal to the engine, so it has not one answer
but a set of them. Every order of the rows met is the order of some engine
(`Engine.exists_scan_eq`), hence the answers of an `ORDER BY` are the sorted arrangements of its
rows (`exists_orderByDesc_eq_iff`, `exists_orderByAsc_eq_iff`). A `LIMIT` keeps the first of them,
which may hold a row twice (`forall_nodup_take_orderByDesc_iff`).
-/

namespace Sql

variable {α β κ : Type}

/-! ## Engines

An engine returns rows in any order that `ORDER BY` allows. A property of all engines is a
property of all arrangements of equal keys. -/

/-- An arrangement of the images of rows is the image of an arrangement of the rows. -/
theorem exists_perm_map_eq {f : α → β} {l : List α} {m : List β} (h : m.Perm (l.map f)) :
    ∃ l' : List α, l'.Perm l ∧ l'.map f = m := by
  have hmap : List.Forall₂ (fun b a => b = f a) (l.map f) l := by
    rw [List.forall₂_map_left_iff]
    exact List.forall₂_same.mpr fun _ _ => rfl
  obtain ⟨l', hl', hperm⟩ := List.perm_comp_forall₂ h hmap
  have heq : List.Forall₂ (· = ·) m (l'.map f) := List.forall₂_map_right_iff.mpr hl'
  rw [List.forall₂_eq_eq_eq] at heq
  exact ⟨l', hperm, heq.symm⟩

/-- Positions of a list, taken one after the other. -/
def arranged (idx : List Nat) (l : List α) : List α := idx.filterMap fun i => l[i]?

theorem arranged_range (l : List α) : arranged (List.range l.length) l = l := by
  induction l with
  | nil => rfl
  | cons x l ih =>
    rw [List.length_cons, List.range_succ_eq_map, arranged, List.filterMap_cons_some (by rfl),
      List.filterMap_map]
    congr 1

/-- The engine that meets the rows of a result of this length in the given order of positions,
and every other result in insertion order. -/
def Engine.placing (idx : List Nat) (n : Nat) : Engine where
  scan l := if idx.Perm (List.range l.length) then arranged idx l else l
  scan_perm l := by
    split
    · rename_i h
      calc (arranged idx l).Perm (arranged (List.range l.length) l) := h.filterMap _
        _ = l := arranged_range l
    · exact List.Perm.refl l
  maxVariables := n
  takes := fun _ => true

/-- An arrangement of a list is one of its positions. -/
theorem exists_arranged_eq {l l' : List α} (h : l'.Perm l) :
    ∃ idx : List Nat, idx.Perm (List.range l.length) ∧ arranged idx l = l' := by
  rw [← List.zipIdx_map_fst 0 l] at h
  obtain ⟨z, hperm, rfl⟩ := exists_perm_map_eq h
  refine ⟨z.map Prod.snd, ?_, ?_⟩
  · have hsnd := hperm.map Prod.snd
    rwa [List.zipIdx_map_snd, ← List.range_eq_range'] at hsnd
  · have hat : ∀ p ∈ z, l[p.2]? = some p.1 := fun p hp =>
      List.mem_zipIdx_iff_getElem?.mp (hperm.mem_iff.mp hp)
    rw [arranged, List.filterMap_map, ← List.filterMap_eq_map]
    exact List.filterMap_congr hat

/-- Every order in which the rows of a result can be met is that of some engine. -/
theorem Engine.exists_scan_eq {l l' : List α} (h : l'.Perm l) (n : Nat) :
    ∃ eng : Engine, eng.maxVariables = n ∧ eng.scan l = l' := by
  obtain ⟨idx, hidx, rfl⟩ := exists_arranged_eq h
  exact ⟨Engine.placing idx n, rfl, if_pos hidx⟩

/-! ## Ordered results -/

section Order

variable [LinearOrder κ] (key : α → κ) {l l' : List α}

theorem pairwise_orderByAsc (eng : Engine) (l : List α) :
    (orderByAsc eng key l).Pairwise fun a b => key a ≤ key b := by
  have : Std.Total fun a b : α => key a ≤ key b := ⟨fun a b => le_total _ _⟩
  have : IsTrans α fun a b => key a ≤ key b := ⟨fun _ _ _ h₁ h₂ => le_trans h₁ h₂⟩
  exact List.pairwise_insertionSort _ _

/-- The answers of `ORDER BY key DESC` are the descending arrangements of the rows. -/
theorem exists_orderByDesc_eq_iff : (∃ eng, orderByDesc eng key l = l') ↔
    l'.Perm l ∧ l'.Pairwise fun a b => key b ≤ key a := by
  refine ⟨?_, ?_⟩
  · rintro ⟨eng, rfl⟩
    exact ⟨orderByDesc_perm eng key l, pairwise_orderByDesc l⟩
  · rintro ⟨hperm, hsorted⟩
    obtain ⟨eng, -, hscan⟩ := Engine.exists_scan_eq hperm 0
    exact ⟨eng, by rw [orderByDesc, hscan, hsorted.insertionSort_eq]⟩

/-- The answers of `ORDER BY key ASC` are the ascending arrangements of the rows. -/
theorem exists_orderByAsc_eq_iff : (∃ eng, orderByAsc eng key l = l') ↔
    l'.Perm l ∧ l'.Pairwise fun a b => key a ≤ key b := by
  refine ⟨?_, ?_⟩
  · rintro ⟨eng, rfl⟩
    exact ⟨orderByAsc_perm eng key l, pairwise_orderByAsc key eng l⟩
  · rintro ⟨hperm, hsorted⟩
    obtain ⟨eng, -, hscan⟩ := Engine.exists_scan_eq hperm 0
    exact ⟨eng, by rw [orderByAsc, hscan, hsorted.insertionSort_eq]⟩

end Order

/-! ## Limited results -/

section Limit

variable {α κ : Type} [LinearOrder κ] (key : α → κ) {l : List α} {n : Nat}

/-- Rows that are greater stand before a row of an ordered result. -/
theorem countP_greater_le {m : List α} (hsorted : m.Pairwise fun a b => key b ≤ key a) {i : Nat}
    (hi : i < m.length) : (m.countP fun y => key m[i] < key y) ≤ i := by
  have hrest : (m.drop i).countP (fun y => decide (key m[i] < key y)) = 0 := by
    rw [List.countP_eq_zero]
    intro y hy
    rw [List.drop_eq_getElem_cons hi] at hy
    have hsuffix : (m.drop i).Pairwise fun a b => key b ≤ key a := hsorted.drop
    rw [List.drop_eq_getElem_cons hi, List.pairwise_cons] at hsuffix
    rcases List.mem_cons.mp hy with rfl | hy
    · simp
    · simpa using hsuffix.1 y hy
  calc (m.countP fun y => key m[i] < key y)
      = ((m.take i ++ m.drop i).countP fun y => key m[i] < key y) := by rw [List.take_append_drop]
    _ = ((m.take i).countP fun y => key m[i] < key y) := by
      rw [List.countP_append, hrest, Nat.add_zero]
    _ ≤ (m.take i).length := List.countP_le_length
    _ ≤ i := List.length_take_le i m

/-- Ascending order is descending order of the dual. -/
theorem orderByAsc_eq (eng : Engine) :
    orderByAsc eng key l = orderByDesc eng (fun a => OrderDual.toDual (key a)) l := rfl

variable [DecidableEq α]

/-- A row that is there twice can stand right behind the greater rows, twice. -/
theorem exists_arranged_twice {x : α} (hx : 2 ≤ l.count x) :
    ∃ above rest : List α, (above ++ x :: x :: rest).Perm l ∧
      ((above ++ x :: x :: rest).Pairwise fun a b => key b ≤ key a) ∧
      above.length = l.countP fun y => key x < key y := by
  have htotal : Std.Total fun a b : α => key b ≤ key a := ⟨fun a b => le_total _ _⟩
  have htrans : IsTrans α fun a b => key b ≤ key a := ⟨fun _ _ _ h₁ h₂ => le_trans h₂ h₁⟩
  obtain ⟨l', hl'⟩ : ∃ l', (x :: x :: l').Perm l := by
    obtain ⟨l', hl'⟩ := (List.replicate_sublist_iff.mpr hx).exists_perm_append
    exact ⟨l', hl'.symm⟩
  let greater : α → Bool := fun y => decide (key x < key y)
  let above := (l.filter greater).insertionSort fun a b => key b ≤ key a
  let rest := (l'.filter fun y => !greater y).insertionSort fun a b => key b ≤ key a
  have habove : above.Perm (l.filter greater) := List.perm_insertionSort _ _
  have hrest : rest.Perm (l'.filter fun y => !greater y) := List.perm_insertionSort _ _
  have hxx : (x :: x :: rest).Perm (l.filter fun y => !greater y) := by
    refine List.Perm.trans ?_ (hl'.filter _)
    have hself : (!greater x) = true := by simp [greater]
    rw [List.filter_cons_of_pos (p := fun y => !greater y) hself,
      List.filter_cons_of_pos (p := fun y => !greater y) hself]
    exact (hrest.cons x).cons x
  have hmem : ∀ a ∈ above, key x < key a := fun a ha =>
    of_decide_eq_true (List.mem_filter.mp (habove.mem_iff.mp ha)).2
  have hmem' : ∀ b ∈ rest, key b ≤ key x := by
    intro b hb
    simpa [greater] using (List.mem_filter.mp (hrest.mem_iff.mp hb)).2
  refine ⟨above, rest, (habove.append hxx).trans (List.filter_append_perm greater l), ?_, ?_⟩
  · refine List.pairwise_append.mpr ⟨List.pairwise_insertionSort _ _, ?_, ?_⟩
    · refine List.pairwise_cons.mpr ⟨?_, List.pairwise_cons.mpr
        ⟨hmem', List.pairwise_insertionSort _ _⟩⟩
      exact List.forall_mem_cons.mpr ⟨le_rfl, hmem'⟩
    · intro a ha b hb
      have hbx : key b ≤ key x := by
        rcases List.mem_cons.mp hb with rfl | hb
        · exact le_rfl
        · rcases List.mem_cons.mp hb with rfl | hb
          · exact le_rfl
          · exact hmem' b hb
      exact hbx.trans (hmem a ha).le
  · rw [habove.length_eq, ← List.countP_eq_length_filter]

/-- **Limited results.** Whatever the engine, the first rows of a descending result are distinct,
if and only if no row that is there twice can get in twice behind the greater rows. -/
theorem forall_nodup_take_orderByDesc_iff :
    (∀ eng, ((orderByDesc eng key l).take n).Nodup) ↔
      ∀ x, 2 ≤ l.count x → n ≤ (l.countP fun y => key x < key y) + 1 := by
  refine ⟨fun h x hx => ?_, fun h eng => ?_⟩
  · obtain ⟨above, rest, hperm, hsorted, hlen⟩ := exists_arranged_twice key hx
    obtain ⟨eng, heng⟩ := (exists_orderByDesc_eq_iff key).mpr ⟨hperm, hsorted⟩
    by_contra hlt
    push Not at hlt
    have hnodup := h eng
    obtain ⟨k, rfl⟩ : ∃ k, n = above.length + (k + 2) := ⟨n - above.length - 2, by omega⟩
    rw [heng, List.take_length_add_append, List.take_succ_cons, List.take_succ_cons] at hnodup
    have hcons := (List.nodup_append.mp hnodup).2.1
    exact (List.nodup_cons.mp hcons).1 (List.mem_cons_self ..)
  · have hperm := orderByDesc_perm eng key l
    have hsorted : (orderByDesc eng key l).Pairwise fun a b => key b ≤ key a :=
      pairwise_orderByDesc l
    generalize orderByDesc eng key l = m at hperm hsorted
    refine List.pairwise_iff_getElem.mpr fun i j hi hj hij heq => ?_
    rw [List.length_take, Nat.lt_min] at hi hj
    rw [List.getElem_take, List.getElem_take] at heq
    have htwice : 2 ≤ l.count m[i] := by
      rw [← hperm.count_eq, ← List.duplicate_iff_two_le_count, List.duplicate_iff_exists_distinct_get]
      exact ⟨⟨i, hi.2⟩, ⟨j, hj.2⟩, hij, rfl, heq⟩
    have hle := h _ htwice
    rw [← hperm.countP_eq] at hle
    have := countP_greater_le key hsorted hi.2
    omega

/-- Whatever the order among equal keys, the first rows hold no row twice exactly when every row
that is there twice comes too late for that. -/
theorem forall_nodup_take_orderByAsc_iff :
    (∀ eng, ((orderByAsc eng key l).take n).Nodup) ↔
      ∀ x, 2 ≤ l.count x → n ≤ (l.countP fun y => key y < key x) + 1 := by
  simp only [orderByAsc_eq]
  exact forall_nodup_take_orderByDesc_iff fun a => OrderDual.toDual (key a)

omit [DecidableEq α] in
/-- The first rows of a descending result, when they are distinct, are the greatest of its distinct
rows. -/
theorem take_orderByDesc_of_nodup {d : List α} (hd : d.Nodup) (hmem : ∀ x, x ∈ d ↔ x ∈ l)
    (eng : Engine) (h : ((orderByDesc eng key l).take n).Nodup) :
    ((orderByDesc eng key l).take n).length = min n d.length ∧
      ∀ x ∈ (orderByDesc eng key l).take n, ∀ y ∈ d, y ∉ (orderByDesc eng key l).take n →
        key y ≤ key x := by
  have hlen : d.length ≤ l.length := (List.subperm_of_subset hd fun x hx => (hmem x).mp hx).length_le
  have hlen' : ((orderByDesc eng key l).take n).length ≤ d.length :=
    (List.subperm_of_subset h fun x hx => (hmem x).mpr (mem_orderByDesc.mp (List.mem_of_mem_take hx))).length_le
  refine ⟨?_, fun x hx y hy hout => ?_⟩
  · have hl := (orderByDesc_perm eng key l).length_eq
    rw [List.length_take, hl] at hlen' ⊢
    omega
  · have hsorted : (orderByDesc eng key l).Pairwise fun a b => key b ≤ key a :=
      pairwise_orderByDesc l
    rw [← List.take_append_drop n (orderByDesc eng key l), List.pairwise_append] at hsorted
    have hy' : y ∈ (orderByDesc eng key l).take n ++ (orderByDesc eng key l).drop n := by
      rw [List.take_append_drop]
      exact mem_orderByDesc.mpr ((hmem y).mp hy)
    exact hsorted.2.2 x hx y ((List.mem_append.mp hy').resolve_left hout)

end Limit

end Sql
