import Mathlib.Data.List.Basic
import Mathlib.Logic.Relation

/-!
# Words up to dropped and exchanged letters

Some letters of an alphabet are dropped and some stand for others. Two words are look-alikes if
a sequence of single edits leads from the one to the other: a letter that is dropped is inserted
or removed, or a letter is exchanged with the one it stands for. A fold that drops and replaces
letter by letter decides this: look-alikes are the words with one fold
(`lookAlike_iff_filterMap_eq`).
-/

namespace Letters

variable {α : Type}

/-- One edit of a word. -/
inductive Edit (dropped : α → Prop) (standsFor : α → α → Prop) : List α → List α → Prop where
  | insert (u v : List α) {a : α} : dropped a → Edit dropped standsFor (u ++ v) (u ++ a :: v)
  | delete (u v : List α) {a : α} : dropped a → Edit dropped standsFor (u ++ a :: v) (u ++ v)
  | replace (u v : List α) {a b : α} : standsFor a b →
    Edit dropped standsFor (u ++ a :: v) (u ++ b :: v)
  | restore (u v : List α) {a b : α} : standsFor a b →
    Edit dropped standsFor (u ++ b :: v) (u ++ a :: v)

/-- Any sequence of edits. -/
def LookAlike (dropped : α → Prop) (standsFor : α → α → Prop) : List α → List α → Prop :=
  Relation.ReflTransGen (Edit dropped standsFor)

/-- The fold drops the letters that are dropped, replaces those that stand for another one, and
keeps the others and the replacements. -/
structure Folds (fold : α → Option α) (dropped : α → Prop) (standsFor : α → α → Prop) : Prop where
  none_iff : ∀ a, fold a = none ↔ dropped a
  of_standsFor : ∀ {a b}, standsFor a b → fold a = some b ∧ fold b = some b
  of_some : ∀ {a b}, fold a = some b → a = b ∨ standsFor a b

variable {dropped : α → Prop} {standsFor : α → α → Prop} {fold : α → Option α} {s t u : List α}

theorem Edit.symm (h : Edit dropped standsFor s t) : Edit dropped standsFor t s := by
  cases h with
  | insert u v ha => exact .delete u v ha
  | delete u v ha => exact .insert u v ha
  | replace u v hab => exact .restore u v hab
  | restore u v hab => exact .replace u v hab

theorem Edit.cons (a : α) (h : Edit dropped standsFor s t) :
    Edit dropped standsFor (a :: s) (a :: t) := by
  cases h with
  | insert u v ha => exact .insert (a :: u) v ha
  | delete u v ha => exact .delete (a :: u) v ha
  | replace u v hab => exact .replace (a :: u) v hab
  | restore u v hab => exact .restore (a :: u) v hab

theorem LookAlike.symm (h : LookAlike dropped standsFor s t) : LookAlike dropped standsFor t s := by
  induction h with
  | refl => exact .refl
  | tail _ hedit ih => exact ih.head hedit.symm

theorem LookAlike.cons (a : α) (h : LookAlike dropped standsFor s t) :
    LookAlike dropped standsFor (a :: s) (a :: t) := by
  induction h with
  | refl => exact .refl
  | tail _ hedit ih => exact ih.tail (hedit.cons a)

/-- An edit does not change the fold. -/
theorem Edit.filterMap_eq (hf : Folds fold dropped standsFor) (h : Edit dropped standsFor s t) :
    s.filterMap fold = t.filterMap fold := by
  have hdropped : ∀ (u v : List α) {a : α}, dropped a →
      (u ++ a :: v).filterMap fold = (u ++ v).filterMap fold := by
    intro u v a ha
    rw [List.filterMap_append, List.filterMap_cons_none ((hf.none_iff a).mpr ha),
      List.filterMap_append]
  have hreplaced : ∀ (u v : List α) {a b : α}, standsFor a b →
      (u ++ a :: v).filterMap fold = (u ++ b :: v).filterMap fold := by
    intro u v a b hab
    obtain ⟨ha, hb⟩ := hf.of_standsFor hab
    rw [List.filterMap_append, List.filterMap_cons_some ha, List.filterMap_append,
      List.filterMap_cons_some hb]
  cases h with
  | insert u v ha => exact (hdropped u v ha).symm
  | delete u v ha => exact hdropped u v ha
  | replace u v hab => exact hreplaced u v hab
  | restore u v hab => exact (hreplaced u v hab).symm

/-- A word leads to its fold. -/
theorem lookAlike_filterMap (hf : Folds fold dropped standsFor) (s : List α) :
    LookAlike dropped standsFor s (s.filterMap fold) := by
  induction s with
  | nil => exact .refl
  | cons a s ih =>
    rcases ha : fold a with _ | b
    · rw [List.filterMap_cons_none ha]
      exact ih.head (.delete [] s ((hf.none_iff a).mp ha))
    · rw [List.filterMap_cons_some ha]
      obtain rfl | hab := hf.of_some ha
      · exact ih.cons a
      · exact (ih.cons b).head (.replace [] s hab)

/-- **The fold decides.** -/
theorem lookAlike_iff_filterMap_eq (hf : Folds fold dropped standsFor) :
    LookAlike dropped standsFor s t ↔ s.filterMap fold = t.filterMap fold := by
  refine ⟨fun h => ?_, fun h => ?_⟩
  · induction h with
    | refl => rfl
    | tail _ hedit ih => exact ih.trans (hedit.filterMap_eq hf)
  · have ht := (lookAlike_filterMap hf t).symm
    rw [← h] at ht
    exact (lookAlike_filterMap hf s).trans ht

end Letters
