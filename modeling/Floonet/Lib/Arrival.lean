import Mathlib.Data.List.Basic

/-!
# Who came first

The order in which the elements of a list arrive, as a relation: `Before l a b`
says that somewhere in `l` an `a` is followed, at once or later, by a `b`.
-/

namespace Arrival

variable {α : Type} {l m : List α} {a b c : α}

/-- `a` arrives before `b`. -/
def Before (l : List α) (a b : α) : Prop := [a, b].Sublist l

theorem Before.mem_left (h : Before l a b) : a ∈ l := h.subset (List.mem_cons_self ..)

theorem Before.mem_right (h : Before l a b) : b ∈ l :=
  h.subset (List.mem_cons_of_mem _ (List.mem_cons_self ..))

/-- A relation that holds along the list holds of what arrives in that order. -/
theorem Before.rel {R : α → α → Prop} (h : Before l a b) (hp : l.Pairwise R) : R a b :=
  (List.pairwise_cons.mp (hp.sublist h)).1 b (List.mem_singleton_self _)

/-- The last arrival comes after everything. -/
theorem before_concat : Before (l ++ [c]) a b ↔ Before l a b ∨ (a ∈ l ∧ b = c) := by
  refine ⟨?_, ?_⟩
  · intro h
    have h' : [b, a].Sublist (c :: l.reverse) := by
      have := List.reverse_sublist.mpr h
      rwa [List.reverse_append] at this
    rcases List.sublist_cons_iff.mp h' with h' | ⟨r, hr, h'⟩
    · exact Or.inl (List.reverse_sublist.mp h')
    · obtain ⟨rfl, rfl⟩ := List.cons.inj hr
      exact Or.inr ⟨List.mem_reverse.mp (List.singleton_sublist.mp h'), rfl⟩
  · rintro (h | ⟨ha, rfl⟩)
    · exact h.trans (List.sublist_append_left _ _)
    · exact (List.singleton_sublist.mpr ha).append (List.Sublist.refl [b])

/-- What comes in the first part comes before what comes in the second. -/
theorem before_append (ha : a ∈ l) (hb : b ∈ m) : Before (l ++ m) a b :=
  (List.singleton_sublist.mpr ha).append (List.singleton_sublist.mpr hb)

/-- Of two different arrivals, one is first. -/
theorem before_total (ha : a ∈ l) (hb : b ∈ l) (hne : a ≠ b) : Before l a b ∨ Before l b a := by
  induction l with
  | nil => cases ha
  | cons c l ih =>
    rcases List.mem_cons.mp ha with rfl | ha' <;> rcases List.mem_cons.mp hb with rfl | hb'
    · exact absurd rfl hne
    · exact Or.inl ((List.singleton_sublist.mpr hb').cons_cons a)
    · exact Or.inr ((List.singleton_sublist.mpr ha').cons_cons b)
    · exact (ih ha' hb').imp (fun h => h.cons c) (fun h => h.cons c)

/-! ## Marks

Arrivals may mark each other, those before them (`late`) in another way than those after them
(`early`).
-/

/-- Something that came marks `x`. -/
def Marked (l : List α) (x : α) (early late : α → Prop) : Prop :=
  ∃ d, (Before l d x ∧ early d) ∨ (Before l x d ∧ late d)

section Marked

variable {x : α} {early early' late : α → Prop}

/-- One more arrival marks what came before it. -/
theorem marked_concat (hne : x ≠ c) (hx : x ∈ l) :
    Marked (l ++ [c]) x early late ↔ Marked l x early late ∨ late c := by
  simp only [Marked, before_concat]
  refine ⟨?_, ?_⟩
  · rintro ⟨d, ⟨hb | ⟨-, hxc⟩, h⟩ | ⟨hb | ⟨-, rfl⟩, h⟩⟩
    · exact Or.inl ⟨d, Or.inl ⟨hb, h⟩⟩
    · exact absurd hxc hne
    · exact Or.inl ⟨d, Or.inr ⟨hb, h⟩⟩
    · exact Or.inr h
  · rintro (⟨d, ⟨hb, h⟩ | ⟨hb, h⟩⟩ | h)
    · exact ⟨d, Or.inl ⟨Or.inl hb, h⟩⟩
    · exact ⟨d, Or.inr ⟨Or.inl hb, h⟩⟩
    · exact ⟨c, Or.inr ⟨Or.inr ⟨hx, rfl⟩, h⟩⟩

/-- The last arrival is marked by what came before it. -/
theorem marked_last (hc : c ∉ l) : Marked (l ++ [c]) c early late ↔ ∃ d ∈ l, early d := by
  simp only [Marked, before_concat]
  refine ⟨?_, ?_⟩
  · rintro ⟨d, ⟨hb | ⟨hd, -⟩, h⟩ | ⟨hb | ⟨hmem, -⟩, -⟩⟩
    · exact absurd hb.mem_right hc
    · exact ⟨d, hd, h⟩
    · exact absurd hb.mem_left hc
    · exact absurd hmem hc
  · rintro ⟨d, hd, h⟩
    exact ⟨d, Or.inl ⟨Or.inr ⟨hd, trivial⟩, h⟩⟩

/-- Two ways to mark what comes later agree on `x`, if they do where nothing later marks it. -/
theorem marked_congr_iff : (Marked l x early late ↔ Marked l x early' late) ↔
    ((∀ d, Before l x d → ¬ late d) →
      ((∃ d, Before l d x ∧ early d) ↔ ∃ d, Before l d x ∧ early' d)) := by
  simp only [Marked, exists_or]
  by_cases h : ∃ d, Before l x d ∧ late d
  · refine iff_of_true ⟨fun _ => Or.inr h, fun _ => Or.inr h⟩ fun hno => ?_
    obtain ⟨d, hb, hd⟩ := h
    exact absurd hd (hno d hb)
  · rw [or_iff_left h, or_iff_left h]
    push Not at h
    exact ⟨fun hiff _ => hiff, fun hiff => hiff h⟩

/-- Where `x` comes once, what comes before it stands in front of it. -/
theorem before_middle_left {l₁ l₂ : List α} (h₂ : x ∉ l₂)
    (h : Before (l₁ ++ x :: l₂) c x) : c ∈ l₁ := by
  obtain ⟨m₁, m₂, heq, hm₁, hm₂⟩ := List.sublist_append_iff.mp h
  rcases m₁ with _ | ⟨d, _ | ⟨y, rest⟩⟩
  · -- both stand behind `l₁`
    rw [List.nil_append] at heq
    subst heq
    rcases List.sublist_cons_iff.mp hm₂ with hm₂ | ⟨r, hr, hm₂⟩
    · exact absurd (hm₂.subset (List.mem_cons_of_mem _ (List.mem_singleton_self _))) h₂
    · obtain ⟨-, rfl⟩ := List.cons.inj hr
      exact absurd (hm₂.subset (List.mem_singleton_self _)) h₂
  · obtain ⟨rfl, -⟩ := List.cons.inj heq
    exact hm₁.subset (List.mem_singleton_self _)
  · obtain ⟨rfl, -⟩ := List.cons.inj heq
    exact hm₁.subset (List.mem_cons_self ..)

/-- What comes after an element is in the rest of the list. -/
theorem before_middle_right {l₁ l₂ : List α} (h₁ : x ∉ l₁)
    (h : Before (l₁ ++ x :: l₂) x c) : c ∈ l₂ := by
  have h' : Before (l₂.reverse ++ x :: l₁.reverse) c x := by
    have := List.reverse_sublist.mpr h
    simpa [Before] using this
  exact List.mem_reverse.mp (before_middle_left (by simpa using h₁) h')

/-- **When the order of arrival does not matter**: what marks `x` at all marks it both ways, or
something else does. -/
theorem marked_perm_iff (early late : α → Prop) (hl : l.Nodup) (hx : x ∈ l) (hearly : ¬ early x)
    (hlate : ¬ late x) :
    (∀ l₁ l₂, l₁.Perm l → l₂.Perm l → (Marked l₁ x early late ↔ Marked l₂ x early late)) ↔
      ((∃ d ∈ l, early d ∨ late d) → ∃ d ∈ l, early d ∧ late d) := by
  classical
  -- `x` behind those that meet a condition and in front of the others
  have harrange : ∀ p : α → Prop, ∃ l₁ l₂, (l₁ ++ x :: l₂).Perm l ∧ x ∉ l₁ ∧ x ∉ l₂ ∧
      (∀ d ∈ l₁, p d) ∧ ∀ d ∈ l₂, ¬ p d := by
    intro p
    have hnot : x ∉ l.erase x := hl.not_mem_erase
    refine ⟨(l.erase x).filter p, (l.erase x).filter fun d => ¬ p d, ?_,
      fun h => hnot (List.mem_filter.mp h).1, fun h => hnot (List.mem_filter.mp h).1,
      fun d hd => by simpa using (List.mem_filter.mp hd).2,
      fun d hd => by simpa using (List.mem_filter.mp hd).2⟩
    refine List.perm_middle.trans (List.Perm.trans (List.Perm.cons x ?_)
      (List.perm_cons_erase hx).symm)
    simpa using List.filter_append_perm (fun d => decide (p d)) (l.erase x)
  refine ⟨fun hfree hsome => ?_, fun hboth l₁ l₂ hp₁ hp₂ => ?_⟩
  · by_contra hno
    push Not at hno
    obtain ⟨l₁, l₂, hp, hx₁, hx₂, hl₁, hl₂⟩ := harrange late
    obtain ⟨m₁, m₂, hq, hy₁, hy₂, hm₁, hm₂⟩ := harrange early
    have hunmarked : ¬ Marked (l₁ ++ x :: l₂) x early late := by
      rintro ⟨d, ⟨hb, hd⟩ | ⟨hb, hd⟩⟩
      · exact hno d (hp.mem_iff.mp hb.mem_left) hd (hl₁ d (before_middle_left hx₂ hb))
      · exact hl₂ d (before_middle_right hx₁ hb) hd
    refine hunmarked ((hfree _ _ hp hq).mpr ?_)
    obtain ⟨d, hd, hmark⟩ := hsome
    have hne : d ≠ x := by
      rintro rfl
      exact hmark.elim hearly hlate
    have hd' := hq.mem_iff.mpr hd
    have hx' := hq.mem_iff.mpr hx
    by_cases he : early d
    · refine ⟨d, Or.inl ⟨?_, he⟩⟩
      refine (before_total hd' hx' hne).resolve_right fun hb => ?_
      exact hm₂ d (before_middle_right hy₁ hb) he
    · refine ⟨d, Or.inr ⟨?_, hmark.resolve_left he⟩⟩
      refine (before_total hd' hx' hne).resolve_left fun hb => ?_
      exact he (hm₁ d (before_middle_left hy₂ hb))
  · have hiff : ∀ m, m.Perm l → (Marked m x early late ↔ ∃ d ∈ l, early d ∨ late d) := by
      intro m hm
      refine ⟨?_, fun hsome => ?_⟩
      · rintro ⟨d, ⟨hb, hd⟩ | ⟨hb, hd⟩⟩
        · exact ⟨d, hm.mem_iff.mp hb.mem_left, Or.inl hd⟩
        · exact ⟨d, hm.mem_iff.mp hb.mem_right, Or.inr hd⟩
      · obtain ⟨d, hd, he, hlt⟩ := hboth hsome
        have hne : d ≠ x := fun h => hearly (h ▸ he)
        rcases before_total (hm.mem_iff.mpr hd) (hm.mem_iff.mpr hx) hne with hb | hb
        · exact ⟨d, Or.inl ⟨hb, he⟩⟩
        · exact ⟨d, Or.inr ⟨hb, hlt⟩⟩
    rw [hiff l₁ hp₁, hiff l₂ hp₂]

end Marked

end Arrival
