import Mathlib.Data.List.Induction

/-!
# The last of a kind

`Last p l a` says that `a` is the last element of `l` with the property `p`. A fold
that sets a field at such an element and keeps it at every other ends with what the
last one set (`Last.foldl`).
-/

variable {α β γ : Type}

/-- The last element with the property. -/
def Last (p : α → Prop) (l : List α) (a : α) : Prop :=
  ∃ before after, l = before ++ a :: after ∧ p a ∧ ∀ x ∈ after, ¬ p x

namespace Last

variable {p : α → Prop} {l : List α} {a b : α}

theorem prop (h : Last p l a) : p a := by
  obtain ⟨-, -, -, ha, -⟩ := h
  exact ha

theorem mem (h : Last p l a) : a ∈ l := by
  obtain ⟨before, after, rfl, -⟩ := h
  exact List.mem_append_right _ List.mem_cons_self

/-- The last element is the last one with a property that it has. -/
theorem concat (hb : p b) : Last p (l ++ [b]) b :=
  ⟨l, [], rfl, hb, fun _ hx => absurd hx List.not_mem_nil⟩

/-- An element without the property does not count. -/
theorem append_singleton (h : Last p l a) (hb : ¬ p b) : Last p (l ++ [b]) a := by
  obtain ⟨before, after, rfl, ha, hafter⟩ := h
  refine ⟨before, after ++ [b], by simp, ha, ?_⟩
  intro x hx
  rcases List.mem_append.mp hx with hx | hx
  · exact hafter x hx
  · rwa [List.mem_singleton.mp hx]

/-- Where there is one at all, there is a last one. -/
theorem exists_of_mem (ha : a ∈ l) (hp : p a) : ∃ b, Last p l b := by
  induction l using List.reverseRecOn with
  | nil => exact absurd ha List.not_mem_nil
  | append_singleton l c ih =>
    by_cases hc : p c
    · exact ⟨c, concat hc⟩
    · rcases List.mem_append.mp ha with ha | ha
      · obtain ⟨b, hb⟩ := ih ha
        exact ⟨b, hb.append_singleton hc⟩
      · exact absurd (List.mem_singleton.mp ha ▸ hp) hc

/-- There is one last element. -/
theorem unique (h : Last p l a) (h' : Last p l b) : a = b := by
  obtain ⟨u, v, rfl, ha, hv⟩ := h
  obtain ⟨u', v', heq, hb, hv'⟩ := h'
  rcases List.append_eq_append_iff.mp heq with ⟨w, rfl, hw⟩ | ⟨w, rfl, hw⟩
  · rcases w with _ | ⟨c, w⟩
    · exact (List.cons.inj hw).1
    · have hmem : b ∈ v := by
        rw [(List.cons.inj hw).2]
        exact List.mem_append_right _ List.mem_cons_self
      exact absurd hb (hv b hmem)
  · rcases w with _ | ⟨c, w⟩
    · exact (List.cons.inj hw).1.symm
    · have hmem : a ∈ v' := by
        rw [(List.cons.inj hw).2]
        exact List.mem_append_right _ List.mem_cons_self
      exact absurd ha (hv' a hmem)

/-- A field that the elements of one kind set, and the others keep, ends as the last
one of the kind set it. -/
theorem foldl {f : β → α → β} {field : β → γ} {value : α → γ}
    (hset : ∀ b a, p a → field (f b a) = value a)
    (hkeep : ∀ b a, ¬ p a → field (f b a) = field b) (l : List α) (b : β) :
    (∃ a, Last p l a ∧ field (l.foldl f b) = value a) ∨
      (∀ a ∈ l, ¬ p a) ∧ field (l.foldl f b) = field b := by
  induction l using List.reverseRecOn with
  | nil => exact Or.inr ⟨fun a ha => absurd ha List.not_mem_nil, rfl⟩
  | append_singleton l a ih =>
    rw [List.foldl_append, List.foldl_cons, List.foldl_nil]
    by_cases ha : p a
    · exact Or.inl ⟨a, concat ha, hset _ _ ha⟩
    · rw [hkeep _ _ ha]
      rcases ih with ⟨c, hc, hv⟩ | ⟨hnone, hv⟩
      · exact Or.inl ⟨c, hc.append_singleton ha, hv⟩
      · refine Or.inr ⟨?_, hv⟩
        intro x hx
        rcases List.mem_append.mp hx with hx | hx
        · exact hnone x hx
        · rwa [List.mem_singleton.mp hx]

end Last
