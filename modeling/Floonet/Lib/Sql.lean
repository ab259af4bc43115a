import Mathlib.Data.List.Sort
import Mathlib.Data.List.Perm.Basic

/-!
# The fragment of SQL the write paths are built from

A table is a list of rows, a `WHERE` is a filter, and the two constructs with a
meaning of their own are the outer join and `ORDER BY … DESC`. Neither `SELECT`
nor `ORDER BY` fixes the order of rows that compare equal, so the order in which
an engine meets rows is a parameter (`Engine.scan`), and every lemma below holds
for every such order.
-/

namespace Sql

/-- What the text of a statement leaves to the engine. -/
structure Engine where
  /-- the order in which the rows of a result are met before any `ORDER BY` -/
  scan : {α : Type} → List α → List α
  /-- no row is lost or repeated by the scan -/
  scan_perm : ∀ {α : Type} (l : List α), (scan l).Perm l
  /-- how many `?` variables one prepared statement may carry -/
  maxVariables : Nat
  /-- which texts it prepares; one that is too long, or an expression too deep, is refused -/
  takes : String → Bool

/-- The engine that meets rows in insertion order and prepares every text. -/
def Engine.inOrder (n : Nat) : Engine where
  scan := fun l => l
  scan_perm := fun l => List.Perm.refl l
  maxVariables := n
  takes := fun _ => true

/-! ## Ordering -/

section Order

variable {α κ : Type} [LinearOrder κ] (eng : Engine) (key : α → κ)

/-- `ORDER BY key DESC`. -/
def orderByDesc (l : List α) : List α :=
  (eng.scan l).insertionSort fun a b => key b ≤ key a

/-- Ordering loses no row and makes none. -/
theorem orderByDesc_perm (l : List α) : (orderByDesc eng key l).Perm l :=
  (List.perm_insertionSort _ _).trans (eng.scan_perm l)

variable {eng key}

@[simp] theorem mem_orderByDesc {l : List α} {x : α} : x ∈ orderByDesc eng key l ↔ x ∈ l :=
  (orderByDesc_perm eng key l).mem_iff

/-- `ORDER BY key ASC`. -/
def orderByAsc (eng : Engine) (key : α → κ) (l : List α) : List α :=
  (eng.scan l).insertionSort fun a b => key a ≤ key b

theorem orderByAsc_perm (eng : Engine) (key : α → κ) (l : List α) :
    (orderByAsc eng key l).Perm l :=
  (List.perm_insertionSort _ _).trans (eng.scan_perm l)

@[simp] theorem mem_orderByAsc {l : List α} {x : α} : x ∈ orderByAsc eng key l ↔ x ∈ l :=
  (orderByAsc_perm eng key l).mem_iff

@[simp] theorem orderByDesc_nil : orderByDesc eng key [] = [] :=
  (orderByDesc_perm eng key []).eq_nil

theorem pairwise_orderByDesc (l : List α) :
    (orderByDesc eng key l).Pairwise fun a b => key b ≤ key a := by
  have : Std.Total fun a b : α => key b ≤ key a := ⟨fun a b => le_total _ _⟩
  have : IsTrans α fun a b => key b ≤ key a := ⟨fun _ _ _ h₁ h₂ => le_trans h₂ h₁⟩
  exact List.pairwise_insertionSort _ _

/-- The row `LIMIT 1` keeps has the largest key. -/
theorem key_le_head {l rest : List α} {x : α} (h : orderByDesc eng key l = x :: rest) :
    ∀ y ∈ l, key y ≤ key x := by
  intro y hy
  have hp : (orderByDesc eng key l).Pairwise _ := pairwise_orderByDesc l
  rw [h, List.pairwise_cons] at hp
  have hy' : y ∈ x :: rest := h ▸ mem_orderByDesc.mpr hy
  rcases List.mem_cons.mp hy' with rfl | hy'
  · exact le_rfl
  · exact hp.1 y hy'

/-- `OFFSET 1` skips a row of the largest key, so a row with a smaller one than
some other is never skipped. -/
theorem mem_drop_one_of_lt {l : List α} {x y : α} (hx : x ∈ l) (hy : y ∈ l)
    (hlt : key x < key y) : x ∈ (orderByDesc eng key l).drop 1 := by
  rcases h : orderByDesc eng key l with _ | ⟨z, rest⟩
  · have : x ∈ orderByDesc eng key l := mem_orderByDesc.mpr hx
    rw [h] at this
    cases this
  · have hz := key_le_head h y hy
    have hx' : x ∈ z :: rest := h ▸ mem_orderByDesc.mpr hx
    rcases List.mem_cons.mp hx' with rfl | hx'
    · exact absurd hlt (not_lt.mpr hz)
    · simpa using hx'

theorem mem_of_mem_drop_one {l : List α} {x : α} (h : x ∈ (orderByDesc eng key l).drop 1) :
    x ∈ l :=
  mem_orderByDesc.mp (List.mem_of_mem_drop h)

/-- Some row after the first one satisfies `p` if two rows do, or if the first one does not. -/
theorem exists_mem_drop_one_iff {p : α → Bool} {l : List α} (h : ∃ x ∈ l, p x = true) :
    (∃ x ∈ l.drop 1, p x = true) ↔ 2 ≤ l.countP p ∨ ∀ x ∈ l.head?, p x = false := by
  rcases l with _ | ⟨y, rest⟩
  · obtain ⟨x, hx, -⟩ := h
    cases hx
  · rw [List.drop_one, List.tail_cons, ← List.countP_pos_iff, List.countP_cons]
    by_cases hy : p y = true
    · simp only [hy, if_true, List.head?_cons, Option.mem_def, Option.some.injEq, forall_eq',
        Bool.true_eq_false, or_false]
      omega
    · obtain ⟨x, hx, hpx⟩ := h
      rcases List.mem_cons.mp hx with rfl | hx
      · exact absurd hpx hy
      · exact iff_of_true (List.countP_pos_iff.mpr ⟨x, hx, hpx⟩) (.inr fun z hz => by
          obtain rfl := Option.some.inj hz
          simpa using hy)

/-- When the rows satisfying `p` have the largest keys, `OFFSET 1` skips
exactly one of them. -/
theorem countP_drop_one (eng : Engine) (key : α → κ) {l : List α} {p : α → Bool} {y : α}
    (hy : y ∈ l) (hlt : ∀ z ∈ l, p z = false → key z < key y) :
    ((orderByDesc eng key l).drop 1).countP p + 1 = l.countP p := by
  rw [← (orderByDesc_perm eng key l).countP_eq p]
  rcases h : orderByDesc eng key l with _ | ⟨z, rest⟩
  · have : y ∈ orderByDesc eng key l := mem_orderByDesc.mpr hy
    rw [h] at this
    cases this
  · have hz : p z = true := by
      by_contra hpz
      have hzl : z ∈ l := mem_orderByDesc.mp (by rw [h]; exact List.mem_cons_self ..)
      exact absurd (hlt z hzl (by simpa using hpz)) (not_lt.mpr (key_le_head h y hy))
    rw [List.countP_cons_of_pos hz, List.drop_one, List.tail_cons]

/-- When one row has the strictly largest key, it is the one `LIMIT 1` keeps. -/
theorem take_one_eq {l : List α} {y : α} (hy : y ∈ l)
    (hlt : ∀ z ∈ l, z ≠ y → key z < key y) : (orderByDesc eng key l).take 1 = [y] := by
  rcases h : orderByDesc eng key l with _ | ⟨z, rest⟩
  · have : y ∈ orderByDesc eng key l := mem_orderByDesc.mpr hy
    rw [h] at this
    cases this
  · have hzl : z ∈ l := mem_orderByDesc.mp (by rw [h]; exact List.mem_cons_self ..)
    have hle := key_le_head h y hy
    by_cases hzy : z = y
    · rw [hzy, List.take_succ_cons, List.take_zero]
    · exact absurd (hlt z hzl hzy) (not_lt.mpr hle)

end Order

/-! ## Outer join -/

section Join

variable {α β : Type}

/-- A row of the left table with its partners, or once with `NULL` for the
columns of the right one. -/
def withPartners (a : α) : List β → List (α × Option β)
  | [] => [(a, none)]
  | b :: rest => (b :: rest).map fun b => (a, some b)

/-- `a LEFT JOIN b ON …`. -/
def leftJoin (on : α → β → Bool) (as : List α) (bs : List β) : List (α × Option β) :=
  as.flatMap fun a => withPartners a (bs.filter (on a))

/-- A condition on the right table's columns drops the rows without partner. -/
theorem filter_withPartners (p : β → Bool) (a : α) (bs : List β) :
    (withPartners a bs).filter (fun ab => ab.2.any p) =
      (bs.filter p).map fun b => (a, some b) := by
  cases bs with
  | nil => rfl
  | cons b rest => simp only [withPartners, List.filter_map, Function.comp_def, Option.any_some]

/-- The joined rows under a condition that reads the right table: one for each
pair that satisfies both the join condition and the `WHERE`. -/
theorem filter_leftJoin (on p : α → β → Bool) (as : List α) (bs : List β) :
    (leftJoin on as bs).filter (fun ab => ab.2.any (p ab.1)) =
      as.flatMap fun a => (bs.filter fun b => p a b && on a b).map fun b => (a, some b) := by
  induction as with
  | nil => rfl
  | cons a as ih =>
    have hhead : (withPartners a (bs.filter (on a))).filter (fun ab => ab.2.any (p ab.1)) =
        (withPartners a (bs.filter (on a))).filter (fun ab => ab.2.any (p a)) := by
      refine List.filter_congr fun ab hab => ?_
      have : ab.1 = a := by
        rcases hf : bs.filter (on a) with _ | ⟨b, rest⟩ <;> rw [hf] at hab <;>
          simp only [withPartners, List.mem_singleton, List.mem_map] at hab
        · rw [hab]
        · obtain ⟨c, -, rfl⟩ := hab
          rfl
      rw [this]
    rw [List.flatMap_cons, ← ih, leftJoin, List.flatMap_cons, List.filter_append, hhead,
      filter_withPartners, List.filter_filter]
    rfl

end Join

end Sql
