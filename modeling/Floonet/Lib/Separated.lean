import Mathlib.Data.List.Basic

/-!
# Separated sequences

A text that lists items with a separator between them, optionally with one more
at the end. `Separated sep Item as s` says that `s` is such a text of the items
`as`, where `Item a t` says that `t` is a text of `a`. Cutting a text at the
separator, dropping an empty last piece and reading each piece accepts just these
texts (`Separated.iff_mapM`).
-/

variable {α : Type}

/-- The text of a sequence of items. A separator after the last one is the second
constructor over the first. -/
inductive Separated (sep : Char) (Item : α → List Char → Prop) : List α → List Char → Prop
  | nil : Separated sep Item [] []
  | cons {a as t s} : Item a t → Separated sep Item as s →
      Separated sep Item (a :: as) (t ++ sep :: s)
  | last {a t} : Item a t → Separated sep Item [a] t

namespace Separated

variable {sep : Char} {P Q : α → List Char → Prop} {as : List α} {s t xs : List Char}

/-- A weaker reading of the items; it may use which characters they are made of. -/
theorem imp {K : Char → Prop} (h : Separated sep P as s) (hs : ∀ c ∈ s, K c)
    (hPQ : ∀ a t, (∀ c ∈ t, K c) → P a t → Q a t) : Separated sep Q as s := by
  induction h with
  | nil => exact .nil
  | cons ht _ ih =>
    refine .cons (hPQ _ _ (fun c hc => hs c ?_) ht) (ih fun c hc => hs c ?_)
    · exact List.mem_append_left _ hc
    · exact List.mem_append_right _ (List.mem_cons_of_mem _ hc)
  | last ht => exact .last (hPQ _ _ hs ht)

/-- The items renamed. -/
theorem map {β : Type} {R : β → List Char → Prop} {f : α → β} (h : Separated sep P as s)
    (hPR : ∀ a ∈ as, ∀ t, P a t → R (f a) t) : Separated sep R (as.map f) s := by
  induction h with
  | nil => exact .nil
  | cons ht _ ih =>
    exact .cons (hPR _ List.mem_cons_self _ ht)
      (ih fun a ha => hPR a (List.mem_cons_of_mem _ ha))
  | last ht => exact .last (hPR _ List.mem_cons_self _ ht)

/-- Items that are read as values of something larger. -/
theorem exists_map {β : Type} {R : β → List Char → Prop} {f : β → α}
    (h : Separated sep (fun a t => ∃ b, f b = a ∧ R b t) as s) :
    ∃ bs, bs.map f = as ∧ Separated sep R bs s := by
  induction h with
  | nil => exact ⟨[], rfl, .nil⟩
  | cons ht _ ih =>
    obtain ⟨b, rfl, hb⟩ := ht
    obtain ⟨bs, rfl, hbs⟩ := ih
    exact ⟨b :: bs, rfl, .cons hb hbs⟩
  | last ht =>
    obtain ⟨b, rfl, hb⟩ := ht
    exact ⟨[b], rfl, .last hb⟩

/-- The text is made of the separator and the characters of items. -/
theorem forall_mem {K : Char → Prop} (h : Separated sep P as s) (hsep : K sep)
    (hP : ∀ a t, P a t → ∀ c ∈ t, K c) : ∀ c ∈ s, K c := by
  induction h with
  | nil => exact fun c hc => absurd hc List.not_mem_nil
  | cons ht _ ih =>
    intro c hc
    rcases List.mem_append.mp hc with hc | hc
    · exact hP _ _ ht c hc
    · rcases List.mem_cons.mp hc with rfl | hc
      · exact hsep
      · exact ih c hc
  | last ht => exact hP _ _ ht

/-- When no item has the empty text, only the empty sequence has it. -/
theorem eq_nil_iff (h : Separated sep P as s) (hP : ∀ a, ¬ P a []) : s = [] ↔ as = [] := by
  cases h with
  | nil => simp
  | cons => simp
  | last ht =>
    simp only [List.cons_ne_nil, iff_false]
    rintro rfl
    exact hP _ ht

/-! ## Cutting at the separator -/

/-- The pieces of a text, an empty last one dropped. -/
def pieces (sep : Char) (s : List Char) : List (List Char) :=
  let parts := s.splitOn sep
  if parts.getLast? = some [] then parts.dropLast else parts

@[simp] theorem pieces_nil : pieces sep [] = [] := by
  simp [pieces]

/-- Without a separator there is one piece. -/
theorem pieces_of_notMem (h : sep ∉ s) (hs : s ≠ []) : pieces sep s = [s] := by
  rw [pieces, List.splitOn_eq_singleton h]
  simp [hs]

/-- The text up to the first separator is the first piece. -/
theorem pieces_append_cons (h : sep ∉ t) : pieces sep (t ++ sep :: s) = t :: pieces sep s := by
  obtain ⟨p, ps, hp⟩ := List.exists_cons_of_ne_nil (List.splitOn_ne_nil sep s)
  have hcut : (t ++ sep :: s).splitOn sep = t :: p :: ps := by
    rw [List.splitOn_append_cons_self_of_not_mem h, hp]
  simp only [pieces, hcut, hp, List.getLast?_cons_cons, List.dropLast_cons_cons]
  split_ifs <;> rfl

/-- A text ends before its first separator, if it has one. -/
theorem notMem_or_eq_append_cons (sep : Char) (s : List Char) :
    sep ∉ s ∨ ∃ t rest, s = t ++ sep :: rest ∧ sep ∉ t := by
  by_cases h : sep ∈ s
  · obtain ⟨t, rest, hs, ht⟩ := List.eq_append_cons_of_mem h
    exact Or.inr ⟨t, rest, hs, ht⟩
  · exact Or.inl h

/-- The first piece is determined, and with it the rest. -/
theorem append_cons_inj {rest rest' : List Char} (ht : sep ∉ t) (hxs : sep ∉ xs)
    (h : t ++ sep :: rest = xs ++ sep :: rest') : t = xs ∧ rest = rest' := by
  have hp := congrArg (pieces sep) h
  rw [pieces_append_cons ht, pieces_append_cons hxs] at hp
  obtain rfl := (List.cons.inj hp).1
  exact ⟨rfl, (List.cons.inj (List.append_cancel_left h)).2⟩

/-- Reading the pieces one by one accepts the separated sequences of readable
items, when the empty text is not readable. -/
theorem iff_mapM {read : List Char → Option α} (hnil : read [] = none) :
    (pieces sep s).mapM read = some as ↔
      Separated sep (fun a t => sep ∉ t ∧ read t = some a) as s := by
  induction hn : s.length using Nat.strongRecOn generalizing s as with
  | ind n ih =>
    subst hn
    rcases notMem_or_eq_append_cons sep s with hsep | ⟨t, rest, rfl, ht⟩
    · rcases List.eq_nil_or_concat s with rfl | hs
      · rw [pieces_nil]
        refine ⟨?_, ?_⟩
        · intro h
          obtain rfl : [] = as := by simpa using h
          exact .nil
        · intro h
          rw [(h.eq_nil_iff fun a ha => by simp [hnil] at ha).mp rfl]
          rfl
      · have hne : s ≠ [] := by
          obtain ⟨l, b, rfl⟩ := hs
          simp
        rw [pieces_of_notMem hsep hne]
        refine ⟨?_, ?_⟩
        · intro h
          rcases hr : read s with _ | a
          · simp [hr] at h
          · obtain rfl : [a] = as := by simpa [hr] using h
            exact .last ⟨hsep, hr⟩
        · intro h
          cases h with
          | nil => exact absurd rfl hne
          | cons => simp at hsep
          | last ha => simp [ha.2]
    · rw [pieces_append_cons ht]
      have hlt : rest.length < (t ++ sep :: rest).length := by
        simp only [List.length_append, List.length_cons]
        omega
      refine ⟨?_, ?_⟩
      · intro h
        rw [List.mapM_cons] at h
        rcases hr : read t with _ | a
        · simp [hr] at h
        · rcases hm : (pieces sep rest).mapM read with _ | bs
          · simp [hr, hm] at h
          · obtain rfl : a :: bs = as := by simpa [hr, hm] using h
            exact .cons ⟨ht, hr⟩ ((ih _ hlt rfl).mp hm)
      · intro h
        generalize hw : t ++ sep :: rest = w at h
        cases h with
        | nil => simp at hw
        | cons ha hs =>
          obtain ⟨rfl, rfl⟩ := append_cons_inj ht ha.1 hw
          rw [List.mapM_cons, ha.2, (ih _ hlt rfl).mpr hs]
          rfl
        | last ha =>
          rw [← hw] at ha
          simp at ha

/-- Two readings of one text go piece by piece. -/
theorem forall₂ {β : Type} {R : β → List Char → Prop} {bs : List β}
    (hP : ∀ a t, P a t → t ≠ [] ∧ sep ∉ t) (hR : ∀ b t, R b t → t ≠ [] ∧ sep ∉ t)
    (h : Separated sep P as s) (h' : Separated sep R bs s) :
    List.Forall₂ (fun a b => ∃ t, P a t ∧ R b t) as bs := by
  induction h generalizing bs with
  | nil =>
    rw [(h'.eq_nil_iff fun b hb => (hR b _ hb).1 rfl).mp rfl]
    exact .nil
  | @cons a as t s ht _ ih =>
    generalize hw : t ++ sep :: s = w at h'
    cases h' with
    | nil => simp at hw
    | cons hb hbs =>
      obtain ⟨rfl, rfl⟩ := append_cons_inj (hP _ _ ht).2 (hR _ _ hb).2 hw
      exact .cons ⟨t, ht, hb⟩ (ih hbs)
    | last hb => exact absurd (by simp [← hw]) (hR _ _ hb).2
  | @last a t ht =>
    cases h' with
    | nil => exact absurd rfl (hP _ _ ht).1
    | cons hb => exact absurd (by simp) (hP _ _ ht).2
    | last hb => exact .cons ⟨t, ht, hb⟩ .nil

end Separated
