import Floonet.Subscription.Deserialize

/-!
# What a filter means

A filter object asks for events that meet every key it lists (`Meets`). The parser keeps one
tag condition for each letter, the last one; and a `#x&` key without values asks for a tag `x`
after all. `interested_iff_meets_iff` says for which objects and events this makes a
difference.
-/

namespace Floonet

namespace ReqFilter

/-! ## The keys of an object -/

/-- Some string of the list starts one of the targets. -/
def StartsOne (l : List String) (targets : List String) : Prop :=
  ∃ s ∈ l, ∃ t ∈ targets, s.toList <+: t.toList

/-- The values of the event's tags named by this letter meet the condition. -/
def TagMet (e : Event) (c : Char) : TagOperand → Prop
  | .or v => ∃ x ∈ v, x ∈ e.tagValuesByName (String.singleton c)
  | .and v => ∀ x ∈ v, x ∈ e.tagValuesByName (String.singleton c)

/-- The event satisfies this key. -/
structure Meets (e : Event) (m : Member) : Prop where
  ids : m.1 = "ids" → ∃ l, m.2.toItems Json.Value.toStr = some l ∧ StartsOne l [e.id]
  authors : m.1 = "authors" → ∃ l, m.2.toItems Json.Value.toStr = some l ∧
    StartsOne l (e.pubkey :: e.delegatedBy.toList)
  kinds : m.1 = "kinds" → ∃ l, m.2.toItems Json.Value.toU64 = some l ∧ e.kind ∈ l
  since : m.1 = "since" → ∃ t, m.2.toU64 = some t ∧ t ≤ e.createdAt
  until_ : m.1 = "until" → ∃ t, m.2.toU64 = some t ∧ e.createdAt ≤ t
  tag : ∀ c op, tagCondition m = some (c, op) → TagMet e c op

/-- All recognised keys have values of their types, and letters are ASCII. -/
structure WellTyped (members : List Member) : Prop where
  nodup : (members.map Prod.fst).Nodup
  hexes : ∀ m ∈ members, m.1 = "ids" ∨ m.1 = "authors" →
    ∃ l, m.2.toItems Json.Value.toStr = some l ∧ "" ∉ l
  kinds : ∀ m ∈ members, m.1 = "kinds" → ∃ l, m.2.toItems Json.Value.toU64 = some l
  numbers : ∀ m ∈ members, m.1 = "since" ∨ m.1 = "until" ∨ m.1 = "limit" → ∃ n, m.2.toU64 = some n
  tags : ∀ m ∈ members, ∀ c, m.1.toList = ['#', c] ∨ m.1.toList = ['#', c, '&'] →
    c.utf8Size = 1 → ∃ l, m.2.toItems Json.Value.toStr = some l
  ascii : ∀ m ∈ members, ∀ c, m.1.toList = ['#', c] → c.utf8Size ≠ 2

/-- The member is not a tag key that is followed by the other one for its letter. -/
def Kept (members : List Member) (m : Member) : Prop :=
  ∀ c op, tagCondition m = some (c, op) → LastCondition members c op

/-- For every kept `#x&` key without values the event has a tag `x`. -/
def Carries (members : List Member) (e : Event) : Prop :=
  ∀ c, LastCondition members c (.and ∅) → ∃ x, x ∈ e.tagValuesByName (String.singleton c)

/-- Nothing hangs on the tag keys that are not kept, nor on those without values. -/
structure NothingLost (members : List Member) (e : Event) : Prop where
  dropped : (∀ m ∈ members, Kept members m → Meets e m) → Carries members e →
    ∀ m ∈ members, Meets e m
  valueless : (∀ m ∈ members, Meets e m) → Carries members e

variable {members : List Member} {e : Event} {f : ReqFilter}

/-- Members of the right types are clean. -/
theorem clean_of_wellTyped (h : WellTyped members) : Clean members := by
  intro m hm
  refine ⟨?_, ?_⟩
  · rintro ⟨hkey, a, ha, hempty⟩
    obtain ⟨l, hl, hno⟩ := h.hexes m hm hkey
    rw [ha] at hl
    cases hl
    exact hno hempty
  · rintro ⟨c, hkey, hsize, -⟩
    exact h.ascii m hm c hkey hsize

/-- A named field of the filter tests what the member of that name says. -/
theorem all_field_iff {α : Type} {key : String} {parse : Json.Value → Option α} {p : α → Bool}
    (hnodup : (members.map Prod.fst).Nodup)
    (hparse : ∀ m ∈ members, m.1 = key → ∃ a, parse m.2 = some a) :
    ((value members key).bind parse).all p = true ↔
      ∀ m ∈ members, m.1 = key → ∃ a, parse m.2 = some a ∧ p a = true := by
  refine ⟨?_, ?_⟩
  · rintro h m hm rfl
    obtain ⟨a, ha⟩ := hparse m hm rfl
    rw [value_of_mem hnodup hm, Option.bind_some, ha] at h
    exact ⟨a, ha, h⟩
  · intro h
    rcases hv : value members key with _ | v
    · rfl
    · obtain ⟨a, ha, hp⟩ := h _ (mem_of_value hv) rfl
      rw [Option.bind_some, ha]
      exact hp

theorem prefixMatch_iff_startsOne {l : List String} {t : String} :
    prefixMatch l t = true ↔ StartsOne l [t] := by
  simp [prefixMatch, StartsOne, List.isPrefixOf_iff_prefix]

/-- Authors are looked for among the pubkey and the delegator. -/
theorem authors_or_delegated :
    (f.authorsMatch e || f.delegatedAuthorsMatch e) =
      f.authors.all fun l => prefixMatch l e.pubkey || e.delegatedBy.any (prefixMatch l) := by
  rw [authorsMatch, delegatedAuthorsMatch]
  rcases e.delegatedBy with _ | d <;> rcases f.authors with _ | l <;> simp

/-- One of several texts starts with a prefix. -/
theorem startsOne_cons {l : List String} {t : String} {ts : List String} :
    StartsOne l (t :: ts) ↔ StartsOne l [t] ∨ StartsOne l ts := by
  simp only [StartsOne, List.mem_cons, List.not_mem_nil, or_false]
  grind

theorem singleCharTagname_singleton (c : Char) : singleCharTagname (String.singleton c) = some c :=
  Event.singleCharTagname_iff.mpr rfl

/-- A tag condition on an indexed event. -/
theorem genericTagValIntersect_iff_tagMet (hidx : e.Indexed) (c : Char) (op : TagOperand) :
    e.genericTagValIntersect c op = true ↔
      TagMet e c op ∧ (op = .and ∅ → ∃ x, x ∈ e.tagValuesByName (String.singleton c)) := by
  have hmem : ∀ x, (String.singleton c, x) ∈ e.searchableTags ↔
      x ∈ e.tagValuesByName (String.singleton c) := fun x =>
    (Event.mem_tagValuesByName (by rw [singleCharTagname_singleton]; rfl)).symm
  rw [hidx.genericTagValIntersect]
  cases op with
  | or v => simp [TagMet, hmem]
  | and v =>
    simp only [TagMet, hmem, TagOperand.and.injEq]
    refine ⟨fun h => ⟨h.2, fun _ => h.1⟩, fun h => ⟨?_, h.1⟩⟩
    rcases v.eq_empty_or_nonempty with rfl | ⟨x, hx⟩
    · exact h.2 rfl
    · exact ⟨x, h.1 x hx⟩

/-- The tag conditions of the filter are the kept ones. -/
theorem tagMatch_iff_kept (hidx : e.Indexed) (hreads : Reads members f) :
    f.tagMatch e = true ↔
      (∀ m ∈ members, Kept members m → ∀ c op, tagCondition m = some (c, op) → TagMet e c op) ∧
        Carries members e := by
  have hlast : f.tagMatch e = true ↔
      ∀ c op, LastCondition members c op → e.genericTagValIntersect c op = true := by
    rw [tagMatch_iff]
    refine ⟨fun h c op hl => ?_, fun h map hmap c op hl =>
      h c op ((hreads.lookup_tags map hmap c op).mp hl)⟩
    obtain ⟨map, hmap⟩ := hreads.exists_map hl
    exact h map hmap c op ((hreads.lookup_tags map hmap c op).mpr hl)
  rw [hlast]
  refine ⟨fun h => ⟨fun m hm hk c op hcond => ?_, fun c hl => ?_⟩, ?_⟩
  · exact ((genericTagValIntersect_iff_tagMet hidx c op).mp (h c op (hk c op hcond))).1
  · exact ((genericTagValIntersect_iff_tagMet hidx c _).mp (h c _ hl)).2 rfl
  · rintro ⟨hmet, hcarries⟩ c op hl
    obtain ⟨m, hm, hcond⟩ := hl.exists_mem
    refine (genericTagValIntersect_iff_tagMet hidx c op).mpr ⟨hmet m hm ?_ c op hcond, ?_⟩
    · intro c' op' hcond'
      rw [hcond] at hcond'
      cases hcond'
      exact hl
    · rintro rfl
      exact hcarries c hl

/-- Named fields are no tag keys, and so are kept. -/
theorem kept_of_field {m : Member} (hkey : m.1 ∈ fieldNames) : Kept members m := by
  intro c op hcond
  have htag := isTagMember_of_tagCondition hcond
  simp only [isTagMember, Bool.and_eq_true, decide_eq_true_eq] at htag
  exact absurd htag.1.1.1 (head_ne_hash hkey)

/-- **What the parsed filter matches**: the kept keys, and a tag for every key without values. -/
theorem interestedInEvent_iff_kept (hw : WellTyped members) (hidx : e.Indexed)
    (hreads : Reads members f) :
    f.interestedInEvent e = true ↔
      (∀ m ∈ members, Kept members m → Meets e m) ∧ Carries members e := by
  have hparse : ∀ m ∈ members, m.1 = "ids" ∨ m.1 = "authors" →
      ∃ l, m.2.toItems Json.Value.toStr = some l := fun m hm h =>
    (hw.hexes m hm h).imp fun _ hl => hl.1
  have hids : f.idsMatch e = true ↔ ∀ m ∈ members, m.1 = "ids" →
      ∃ l, m.2.toItems Json.Value.toStr = some l ∧ prefixMatch l e.id = true := by
    rw [idsMatch, hreads.ids]
    exact all_field_iff hw.nodup fun m hm h => hparse m hm (.inl h)
  have hauthors : (f.authorsMatch e || f.delegatedAuthorsMatch e) = true ↔
      ∀ m ∈ members, m.1 = "authors" → ∃ l, m.2.toItems Json.Value.toStr = some l ∧
        (prefixMatch l e.pubkey || e.delegatedBy.any (prefixMatch l)) = true := by
    rw [authors_or_delegated, hreads.authors]
    exact all_field_iff hw.nodup fun m hm h => hparse m hm (.inr h)
  have hkinds : f.kindMatch e.kind = true ↔ ∀ m ∈ members, m.1 = "kinds" →
      ∃ l, m.2.toItems Json.Value.toU64 = some l ∧ l.contains e.kind = true := by
    rw [kindMatch, hreads.kinds]
    exact all_field_iff hw.nodup hw.kinds
  have hsince : (f.since.all fun t => decide (t ≤ e.createdAt)) = true ↔
      ∀ m ∈ members, m.1 = "since" →
        ∃ t, m.2.toU64 = some t ∧ decide (t ≤ e.createdAt) = true := by
    rw [hreads.since]
    exact all_field_iff hw.nodup fun m hm h => hw.numbers m hm (.inl h)
  have huntil : (f.until_.all fun t => decide (e.createdAt ≤ t)) = true ↔
      ∀ m ∈ members, m.1 = "until" →
        ∃ t, m.2.toU64 = some t ∧ decide (e.createdAt ≤ t) = true := by
    rw [hreads.until_]
    exact all_field_iff hw.nodup fun m hm h => hw.numbers m hm (.inr (.inl h))
  have hany : ∀ l : List String,
      (prefixMatch l e.pubkey || e.delegatedBy.any (prefixMatch l)) = true ↔
        StartsOne l (e.pubkey :: e.delegatedBy.toList) := by
    intro l
    rw [startsOne_cons, Bool.or_eq_true, prefixMatch_iff_startsOne]
    refine or_congr_right ?_
    rcases e.delegatedBy with _ | d
    · simp [StartsOne]
    · rw [Option.any_some, prefixMatch_iff_startsOne]
      rfl
  simp only [prefixMatch_iff_startsOne] at hids
  simp only [hany] at hauthors
  simp only [List.contains_iff_mem] at hkinds
  simp only [decide_eq_true_eq] at hsince huntil
  have hsplit : f.interestedInEvent e = true ↔ f.idsMatch e = true ∧
      (f.since.all fun t => decide (t ≤ e.createdAt)) = true ∧
      (f.until_.all fun t => decide (e.createdAt ≤ t)) = true ∧ f.kindMatch e.kind = true ∧
      (f.authorsMatch e || f.delegatedAuthorsMatch e) = true ∧ f.tagMatch e = true := by
    simp only [interestedInEvent, hreads.not_forced, Bool.not_false, Bool.and_true,
      Bool.and_eq_true, and_assoc]
  rw [hsplit, hids, hsince, huntil, hkinds, hauthors, tagMatch_iff_kept hidx hreads]
  refine ⟨?_, ?_⟩
  · rintro ⟨hi, hs, hu, hk, ha, ht, hc⟩
    exact ⟨fun m hm hkept => ⟨hi m hm, ha m hm, hk m hm, hs m hm, hu m hm, ht m hm hkept⟩, hc⟩
  · rintro ⟨h, hc⟩
    have hfield : ∀ m ∈ members, m.1 ∈ fieldNames → Meets e m := fun m hm hkey =>
      h m hm (kept_of_field hkey)
    refine ⟨fun m hm hkey => (hfield m hm (by rw [hkey]; decide)).ids hkey,
      fun m hm hkey => (hfield m hm (by rw [hkey]; decide)).since hkey,
      fun m hm hkey => (hfield m hm (by rw [hkey]; decide)).until_ hkey,
      fun m hm hkey => (hfield m hm (by rw [hkey]; decide)).kinds hkey,
      fun m hm hkey => (hfield m hm (by rw [hkey]; decide)).authors hkey,
      fun m hm hkept => (h m hm hkept).tag, hc⟩

/-- **The meaning of a filter.** The filter of a well-typed object matches an event exactly when
the event meets every key, if and only if nothing hangs on tag keys that the parser drops, nor
on those without values. -/
theorem interested_iff_meets_iff (members : List Member) (e : Event) (hw : WellTyped members)
    (hidx : e.Indexed) :
    (∃ f, deserialize (.object members) = .ok f ∧
      (f.interestedInEvent e = true ↔ ∀ m ∈ members, Meets e m)) ↔ NothingLost members e := by
  have hreads := reads_foldl_enter members
  have hd : deserialize (.object members) = .ok (members.foldl enter initial) :=
    foldlM_clean (clean_of_wellTyped hw)
  have hkept := interestedInEvent_iff_kept hw hidx hreads
  refine ⟨?_, fun h => ⟨_, hd, ?_⟩⟩
  · rintro ⟨f, hf, hiff⟩
    rw [hd] at hf
    cases hf
    rw [hkept] at hiff
    exact ⟨fun hk hc => hiff.mp ⟨hk, hc⟩, fun hall => (hiff.mpr hall).2⟩
  · rw [hkept]
    exact ⟨fun hk => h.dropped hk.1 hk.2, fun hall => ⟨fun m hm _ => hall m hm, h.valueless hall⟩⟩

/-- With one tag key for each letter and values in all of them, nothing is lost. -/
theorem nothingLost_of_kept (hkept : ∀ m ∈ members, Kept members m)
    (hvalues : ∀ c, ¬ LastCondition members c (.and ∅)) (e : Event) : NothingLost members e where
  dropped h _ m hm := h m hm (hkept m hm)
  valueless _ c hl := absurd hl (hvalues c)

/-- A note with one tag. -/
def sampleTagEvent (value : String) : Event :=
  ({ id := "01", pubkey := "02", delegatedBy := none, createdAt := 1700000000, kind := 1,
     tags := [["e", value]], content := "", sig := "", tagidx := none } : Event).buildIndex

/-- `{"kinds": [1], "#e": ["a"]}`. -/
def sampleConjunction : List Member :=
  [("kinds", .array [.number (.posInt 1)]), ("#e", .array [.string "a"])]

theorem wellTyped_sampleConjunction : WellTyped sampleConjunction where
  nodup := by decide
  hexes := by simp [sampleConjunction]
  kinds := by
    simp only [sampleConjunction, List.forall_mem_cons]
    exact ⟨fun _ => ⟨[1], rfl⟩, fun h => absurd h (by decide), fun _ h => absurd h List.not_mem_nil⟩
  numbers := by simp [sampleConjunction]
  tags := by
    simp only [sampleConjunction, List.forall_mem_cons]
    refine ⟨fun c h => absurd h (by simp), fun c _ _ => ⟨["a"], rfl⟩,
      fun _ h => absurd h List.not_mem_nil⟩
  ascii := by
    simp only [sampleConjunction, List.forall_mem_cons]
    refine ⟨fun c h => absurd h (by simp), fun c h => ?_, fun _ h => absurd h List.not_mem_nil⟩
    obtain rfl : c = 'e' := by simpa using h.symm
    decide

theorem sampleConjunction_meaning :
    ∃ f, deserialize (.object sampleConjunction) = .ok f ∧
      (f.interestedInEvent (sampleTagEvent "a") = true ↔
        ∀ m ∈ sampleConjunction, Meets (sampleTagEvent "a") m) := by
  refine (interested_iff_meets_iff sampleConjunction (sampleTagEvent "a")
    wellTyped_sampleConjunction (Event.indexed_buildIndex rfl)).mpr (nothingLost_of_kept ?_ ?_ _)
  · intro m hm c op hcond
    simp only [sampleConjunction, List.mem_cons, List.not_mem_nil, or_false] at hm
    rcases hm with rfl | rfl
    · cases hcond
    · exact ⟨[("kinds", .array [.number (.posInt 1)])], _, [], rfl, hcond,
        fun _ h => absurd h List.not_mem_nil⟩
  · intro c hlast
    obtain ⟨m, hm, hcond⟩ := hlast.exists_mem
    simp only [sampleConjunction, List.mem_cons, List.not_mem_nil, or_false] at hm
    rcases hm with rfl | rfl <;> cases hcond

/-- `{"#e": ["a"], "#e&": ["b"]}`. -/
def sampleCollapsed : List Member :=
  [("#e", .array [.string "a"]), ("#e&", .array [.string "b"])]

/-- Both keys are recognised; only the second is looked at. -/
theorem sampleCollapsed_matches :
    WellTyped sampleCollapsed ∧ (sampleTagEvent "b").Indexed ∧
      ¬ ∃ f, deserialize (.object sampleCollapsed) = .ok f ∧
        (f.interestedInEvent (sampleTagEvent "b") = true ↔
          ∀ m ∈ sampleCollapsed, Meets (sampleTagEvent "b") m) := by
  refine ⟨⟨by decide, by simp [sampleCollapsed], by simp [sampleCollapsed],
    by simp [sampleCollapsed], ?_, ?_⟩, Event.indexed_buildIndex rfl, ?_⟩
  · simp only [sampleCollapsed, List.forall_mem_cons]
    exact ⟨fun c _ _ => ⟨["a"], rfl⟩, fun c _ _ => ⟨["b"], rfl⟩,
      fun _ h => absurd h List.not_mem_nil⟩
  · simp only [sampleCollapsed, List.forall_mem_cons]
    refine ⟨fun c h => ?_, fun c h => absurd h (by simp), fun _ h => absurd h List.not_mem_nil⟩
    obtain rfl : c = 'e' := by simpa using h.symm
    decide
  · rintro ⟨f, hf, hiff⟩
    have hd : deserialize (.object sampleCollapsed) = .ok { initial with
        tags := some (Finmap.insert 'e' (.and {"b"}) (Finmap.insert 'e' (.or {"a"}) ∅)) } := rfl
    rw [hd] at hf
    cases hf
    have hmeets := hiff.mp (by decide +kernel) _ (List.mem_cons_self ..)
    obtain ⟨x, hx, hval⟩ := hmeets.tag 'e' (.or {"a"}) rfl
    rw [Finset.mem_singleton.mp hx] at hval
    revert hval
    decide +kernel

end ReqFilter

end Floonet
