import Mathlib.Data.List.Basic
import Mathlib.Tactic.Common

/-!
# Texts with placeholders

A statement whose parameters are handed over apart from its text. A template is a list of
pieces: literal text, and holes with the parameter that belongs there. Written out, a hole is a
`?`, or `$` and its number (`numbered`); the parameters are those of the holes in order. As long as the literal text has no `?` of
its own, the placeholders of the text are the holes, one by one (`placeholder_at`).
-/

namespace Template

/-- A piece of text, or the place of a parameter. -/
inductive Piece (π : Type) where
  | lit : String → Piece π
  | hole : π → Piece π

variable {π : Type}

/-- A piece as text. -/
def Piece.text : Piece π → String
  | .lit s => s
  | .hole _ => "?"

/-- The value that a piece binds. -/
def Piece.param : Piece π → Option π
  | .lit _ => none
  | .hole p => some p

/-- The text of a template. -/
def text : List (Piece π) → String
  | [] => ""
  | p :: ps => p.text ++ text ps

/-- The parameters of a template. -/
def params (ps : List (Piece π)) : List π := ps.filterMap Piece.param

/-- Templates with a separator between neighbours. -/
def join (sep : String) : List (List (Piece π)) → List (Piece π)
  | [] => []
  | [p] => p
  | p :: q :: rest => p ++ .lit sep :: join sep (q :: rest)

/-- The literal text has no placeholder of its own. -/
def Plain (ps : List (Piece π)) : Prop := ∀ s, Piece.lit s ∈ ps → '?' ∉ s.toList

variable {ps qs : List (Piece π)} {s : String} {p : π}

@[simp] theorem text_nil : text ([] : List (Piece π)) = "" := rfl

@[simp] theorem text_lit_cons : text (.lit s :: ps) = s ++ text ps := rfl

theorem text_lit : text [(.lit s : Piece π)] = s := by
  rw [text_lit_cons, text_nil, String.append_empty]

@[simp] theorem text_hole_cons : text (.hole p :: ps) = "?" ++ text ps := rfl

@[simp] theorem text_append : text (ps ++ qs) = text ps ++ text qs := by
  induction ps with
  | nil => simp
  | cons p ps ih => rw [List.cons_append, text, ih, text, String.append_assoc]

@[simp] theorem params_nil : params ([] : List (Piece π)) = [] := rfl

@[simp] theorem params_lit_cons : params (.lit s :: ps) = params ps := rfl

@[simp] theorem params_hole_cons : params (.hole p :: ps) = p :: params ps := rfl

@[simp] theorem params_append : params (ps ++ qs) = params ps ++ params qs :=
  List.filterMap_append

theorem text_join (sep : String) (parts : List (List (Piece π))) :
    text (join sep parts) = sep.intercalate (parts.map text) := by
  induction parts with
  | nil => rw [join, List.map_nil, String.intercalate_nil, text_nil]
  | cons p rest ih =>
    cases rest with
    | nil => rw [join, List.map_cons, List.map_nil, String.intercalate_singleton]
    | cons q rest =>
      rw [join, text_append, text_lit_cons, ih]
      simp only [List.map_cons, String.intercalate_cons_cons, String.append_assoc]

theorem params_join (sep : String) (parts : List (List (Piece π))) :
    params (join sep parts) = parts.flatMap params := by
  induction parts with
  | nil => rfl
  | cons p rest ih =>
    cases rest with
    | nil => simp [join]
    | cons q rest =>
      rw [join, params_append, params_lit_cons, ih]
      simp only [List.flatMap_cons]

@[simp] theorem plain_nil : Plain ([] : List (Piece π)) := fun _ h => absurd h List.not_mem_nil

@[simp] theorem plain_append : Plain (ps ++ qs) ↔ Plain ps ∧ Plain qs := by
  simp only [Plain, List.mem_append, or_imp, forall_and]

@[simp] theorem plain_lit_cons : Plain (.lit s :: ps) ↔ '?' ∉ s.toList ∧ Plain ps := by
  simp only [Plain, List.mem_cons, Piece.lit.injEq, or_imp, forall_and, forall_eq]

@[simp] theorem plain_hole_cons : Plain (.hole p :: ps) ↔ Plain ps := by
  simp only [Plain, List.mem_cons, reduceCtorEq, false_or]

/-- Joined pieces are plain if the separator is. -/
theorem plain_join {sep : String} {parts : List (List (Piece π))} (hsep : '?' ∉ sep.toList)
    (h : ∀ part ∈ parts, Plain part) : Plain (join sep parts) := by
  induction parts with
  | nil => exact plain_nil
  | cons p rest ih =>
    obtain ⟨hp, hrest⟩ := List.forall_mem_cons.mp h
    cases rest with
    | nil => exact hp
    | cons q rest => exact plain_append.mpr ⟨hp, plain_lit_cons.mpr ⟨hsep, ih hrest⟩⟩

/-- The placeholders are as many as the parameters. -/
theorem count_text (h : Plain ps) : (text ps).toList.count '?' = (params ps).length := by
  induction ps with
  | nil => rfl
  | cons p ps ih =>
    cases p with
    | lit s =>
      obtain ⟨hs, hps⟩ := plain_lit_cons.mp h
      rw [text_lit_cons, String.toList_append, List.count_append,
        List.count_eq_zero_of_not_mem hs, ih hps, Nat.zero_add, params_lit_cons]
    | hole p =>
      rw [text_hole_cons, String.toList_append, List.count_append, ih (plain_hole_cons.mp h),
        params_hole_cons, List.length_cons, Nat.add_comm]
      rfl

/-- A parameter has a hole, after those of the parameters before it. -/
theorem exists_hole (ps : List (Piece π)) {i : Nat} (hi : (params ps)[i]? = some p) :
    ∃ before after, ps = before ++ .hole p :: after ∧ (params before).length = i := by
  induction ps generalizing i with
  | nil => cases hi
  | cons q ps ih =>
    cases q with
    | lit s =>
      obtain ⟨before, after, rfl, hlen⟩ := ih hi
      exact ⟨.lit s :: before, after, rfl, hlen⟩
    | hole q =>
      cases i with
      | zero =>
        cases hi
        exact ⟨[], ps, rfl, rfl⟩
      | succ i =>
        obtain ⟨before, after, rfl, hlen⟩ := ih hi
        exact ⟨.hole q :: before, after, rfl, by rw [params_hole_cons, List.length_cons, hlen]⟩

/-- **The `i`-th placeholder is the hole of the `i`-th parameter.** -/
theorem placeholder_at (h : Plain ps) {i : Nat} (hi : (params ps)[i]? = some p) :
    ∃ before after, ps = before ++ .hole p :: after ∧
      text ps = text before ++ "?" ++ text after ∧ (text before).toList.count '?' = i := by
  obtain ⟨before, after, rfl, hlen⟩ := exists_hole ps hi
  refine ⟨before, after, rfl, ?_, ?_⟩
  · rw [text_append, text_hole_cons, String.append_assoc]
  · rw [count_text (plain_append.mp h).1, hlen]

/-! ## Numbered placeholders -/

/-- The text with `$` and a number for each hole, after `k` others. -/
def numbered (k : Nat) : List (Piece π) → String
  | [] => ""
  | .lit s :: ps => s ++ numbered k ps
  | .hole _ :: ps => "$" ++ toString (k + 1) ++ numbered (k + 1) ps

@[simp] theorem numbered_nil (k : Nat) : numbered k ([] : List (Piece π)) = "" := rfl

@[simp] theorem numbered_lit_cons (k : Nat) : numbered k (.lit s :: ps) = s ++ numbered k ps := rfl

@[simp] theorem numbered_hole_cons (k : Nat) :
    numbered k (.hole p :: ps) = "$" ++ toString (k + 1) ++ numbered (k + 1) ps := rfl

/-- The numbers go on where the first text ends. -/
theorem numbered_append (k : Nat) :
    numbered k (ps ++ qs) = numbered k ps ++ numbered (k + (params ps).length) qs := by
  induction ps generalizing k with
  | nil => simp
  | cons p ps ih =>
    cases p with
    | lit s => rw [List.cons_append, numbered_lit_cons, numbered_lit_cons, ih, String.append_assoc,
        params_lit_cons]
    | hole p =>
      rw [List.cons_append, numbered_hole_cons, numbered_hole_cons, ih, String.append_assoc,
        String.append_assoc, String.append_assoc, params_hole_cons, List.length_cons]
      congr 4
      omega

end Template
