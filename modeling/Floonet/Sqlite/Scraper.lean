import Floonet.Sqlite.Query
import Floonet.Subscription.Deserialize

/-!
# The scraper gate

A request is turned away as a scraper by the fields its filters have; what the query looks up is
decided by what the fields hold. A filter may have tag conditions without a value, of which the
query has no clause, and an empty list of ids or authors, for which it has `false`.
`scraper_gate_iff` says for which requests the gate keeps what it promises.
-/

namespace Floonet.Sqlite

open ReqFilter (Member)

/-! ## Clauses -/

namespace Component

/-- The component asks for ids. -/
def isId : Component → Bool
  | .eventHash _ => true
  | _ => false

/-- The component asks for authors. -/
def isAuthor : Component → Bool
  | .author _ => true
  | _ => false

/-- The component asks for kinds. -/
def isKind : Component → Bool
  | .kind _ => true
  | _ => false

/-- The component asks for tags. -/
def isTag : Component → Bool
  | .tag _ => true
  | _ => false

end Component

/-- Two of three. -/
def TwoOf (p q r : Prop) : Prop := (p ∧ q) ∨ (p ∧ r) ∨ (q ∧ r)

/-- The condition looks up ids, or two of authors, kinds and tags. -/
def Selective (cs : List Component) : Prop :=
  cs.any Component.isId = true ∨
    TwoOf (cs.any Component.isAuthor = true) (cs.any Component.isKind = true)
      (cs.any Component.isTag = true)

/-- The query of the filter has a selective condition. -/
def Guarded (f : ReqFilter) (unixTime : Nat) : Prop :=
  ∃ cs, (queryFromFilter f unixTime).components = some cs ∧ Selective cs

/-- A list with something in it. -/
def Filled {α : Type} (l : Option (List α)) : Prop := ∃ a rest, l = some (a :: rest)

/-- A tag condition with a value. -/
def HasTagValue (f : ReqFilter) : Prop :=
  ∃ map c op, f.tags = some map ∧ map.lookup c = some op ∧ op.values ≠ ∅

variable {f : ReqFilter} {now : Nat}

/-- The clause of an optional field. -/
theorem any_field {α : Type} {o : Option α} {mk : α → Component} {p : Component → Bool} :
    (o.map mk).toList.any p = o.any fun a => p (mk a) := by
  cases o <;> simp

/-- A field whose clause is of another kind. -/
theorem any_other {α : Type} {o : Option α} {q : α → Bool} (h : ∀ a, q a = false) :
    o.any q = false := by
  cases o <;> simp [h]

/-- A list of ids or authors becomes a clause of its kind when it is not empty. -/
theorem any_filled {α : Type} {o : Option (List α)} {q : List α → Bool}
    (h : ∀ l, q l = !l.isEmpty) : o.any q = true ↔ Filled o := by
  rcases o with _ | _ | ⟨a, rest⟩ <;> simp [Filled, h]

theorem tagComponents_isTag {key : Char} {val : TagOperand} {c : Component}
    (hc : c ∈ tagComponents f key val) : ∃ clause, c = .tag clause := by
  simp only [tagComponents] at hc
  split_ifs at hc with hnil
  · exact absurd hc List.not_mem_nil
  · cases val with
    | or v => exact ⟨_, List.mem_singleton.mp hc⟩
    | and v =>
      obtain ⟨x, -, rfl⟩ := List.mem_map.mp hc
      exact ⟨_, rfl⟩

theorem tagsComponents_isTag {c : Component} (hc : c ∈ tagsComponents f) :
    ∃ clause, c = .tag clause := by
  rw [tagsComponents] at hc
  rcases htags : f.tags with _ | map <;> simp only [htags] at hc
  · exact absurd hc List.not_mem_nil
  · obtain ⟨key, -, hc⟩ := List.mem_flatMap.mp hc
    rcases hl : map.lookup key with _ | val
    · rw [hl] at hc
      exact absurd hc List.not_mem_nil
    · rw [hl] at hc
      exact tagComponents_isTag hc

/-- There are tag clauses when some condition has a value. -/
theorem tagsComponents_ne_nil_iff : tagsComponents f ≠ [] ↔ HasTagValue f := by
  rw [tagsComponents]
  rcases htags : f.tags with _ | map
  · simp [HasTagValue, htags]
  · simp only [ne_eq, List.flatMap_eq_nil_iff, Finset.mem_sort, Finmap.mem_keys]
    refine ⟨fun h => ?_, ?_⟩
    · push Not at h
      obtain ⟨key, -, hne⟩ := h
      rcases hl : map.lookup key with _ | val
      · rw [hl] at hne
        exact absurd rfl hne
      · rw [hl] at hne
        refine ⟨map, key, val, htags, hl, fun hv => hne ?_⟩
        simp [tagComponents, hv]
    · rintro ⟨map', c, op, hmap, hl, hne⟩ hall
      rw [htags] at hmap
      cases hmap
      have := hall c (Finmap.mem_of_lookup_eq_some hl)
      rw [hl] at this
      simp only [Option.elim_some, tagComponents, if_neg hne] at this
      cases op with
      | or v => cases this
      | and v =>
        rw [List.map_eq_nil_iff, ← List.length_eq_zero_iff, Finset.length_sort,
          Finset.card_eq_zero] at this
        exact hne this

/-- A query has a tag component when its filter has a tag value. -/
theorem any_tagsComponents_isTag :
    (tagsComponents f).any Component.isTag = true ↔ HasTagValue f := by
  rw [← tagsComponents_ne_nil_iff, List.any_eq_true]
  refine ⟨?_, fun hne => ?_⟩
  · rintro ⟨c, hc, -⟩ hnil
    rw [hnil] at hc
    exact absurd hc List.not_mem_nil
  · obtain ⟨c, hc⟩ := List.exists_mem_of_ne_nil _ hne
    obtain ⟨clause, rfl⟩ := tagsComponents_isTag hc
    exact ⟨_, hc, rfl⟩

theorem any_tagsComponents_other {p : Component → Bool} (hp : ∀ clause, p (.tag clause) = false) :
    (tagsComponents f).any p = false := by
  rw [List.any_eq_false]
  intro c hc
  obtain ⟨clause, rfl⟩ := tagsComponents_isTag hc
  simp [hp]

/-- **What the query looks up.** -/
theorem guarded_iff (hforce : f.forceNoMatch = false) :
    Guarded f now ↔
      Filled f.ids ∨ TwoOf (Filled f.authors) (f.kinds.isSome = true) (HasTagValue f) := by
  have hid : (f.ids.any fun l => Component.isId (if l.isEmpty then .never
      else .eventHash (l.map Hex.decode))) = true ↔ Filled f.ids :=
    any_filled fun l => by cases l <;> rfl
  have hauthor : (f.authors.any fun l => Component.isAuthor (if l.isEmpty then .never
      else .author (l.map Hex.decode))) = true ↔ Filled f.authors :=
    any_filled fun l => by cases l <;> rfl
  have hkind : (f.kinds.any fun ks => Component.isKind (.kind ks)) = true ↔
      f.kinds.isSome = true := by
    cases f.kinds <;> simp [Component.isKind]
  have hother : ∀ (vs : Option (List String)) (mk : List (Option Hex.Bytes) → Component)
      (p : Component → Bool), p .never = false → (∀ blobs, p (mk blobs) = false) →
      (vs.any fun l => p (if l.isEmpty then .never else mk (l.map Hex.decode))) = false :=
    fun vs mk p hn hp => any_other fun l => by cases l <;> simp [hn, hp]
  simp only [Guarded, queryFromFilter, hforce, Bool.false_eq_true, if_false, Option.some.injEq,
    exists_eq_left', Selective, List.any_append, any_field, List.any_cons, List.any_nil,
    Bool.or_false, Bool.or_eq_true, hid, hauthor, hkind, any_tagsComponents_isTag]
  rw [hother f.authors .author Component.isId rfl fun _ => rfl,
    hother f.authors .author Component.isKind rfl fun _ => rfl,
    hother f.authors .author Component.isTag rfl fun _ => rfl,
    hother f.ids .eventHash Component.isAuthor rfl fun _ => rfl,
    hother f.ids .eventHash Component.isKind rfl fun _ => rfl,
    hother f.ids .eventHash Component.isTag rfl fun _ => rfl]
  simp only [any_tagsComponents_other (p := Component.isId) fun _ => rfl,
    any_tagsComponents_other (p := Component.isAuthor) fun _ => rfl,
    any_tagsComponents_other (p := Component.isKind) fun _ => rfl]
  have hnone : ∀ {α : Type} (o : Option α), (o.any fun _ => false) = false := fun o =>
    any_other fun _ => rfl
  simp [Component.isId, Component.isAuthor, Component.isKind, Component.isTag, hnone]

/-! ## Requests -/

/-- The object names ids, or two of authors, kinds and tag values. An empty list of ids or
authors names nothing. -/
def Precise (members : List Member) : Prop :=
  Filled ((ReqFilter.value members "ids").bind fun v => v.toItems Json.Value.toStr) ∨
    TwoOf
      (Filled ((ReqFilter.value members "authors").bind fun v => v.toItems Json.Value.toStr))
      (((ReqFilter.value members "kinds").bind fun v => v.toItems Json.Value.toU64).isSome = true)
      (∃ c op, ReqFilter.LastCondition members c op ∧ op.values ≠ ∅)

/-- The query is guarded when the request is precise. -/
theorem guarded_iff_precise {members : List Member}
    (h : ReqFilter.deserialize (.object members) = .ok f) : Guarded f now ↔ Precise members := by
  obtain ⟨-, hreads⟩ := ReqFilter.reads_of_deserialize h
  have htag : HasTagValue f ↔ ∃ c op, ReqFilter.LastCondition members c op ∧ op.values ≠ ∅ := by
    refine ⟨?_, ?_⟩
    · rintro ⟨map, c, op, hmap, hl, hne⟩
      exact ⟨c, op, (hreads.lookup_tags map hmap c op).mp hl, hne⟩
    · rintro ⟨c, op, hlast, hne⟩
      obtain ⟨map, hmap⟩ := hreads.exists_map hlast
      exact ⟨map, c, op, hmap, (hreads.lookup_tags map hmap c op).mpr hlast, hne⟩
  rw [guarded_iff hreads.not_forced, htag, hreads.ids, hreads.authors, hreads.kinds, Precise]

/-- **The scraper gate.** The filters of a request that is not taken for a scraper all have a
selective query if and only if all its objects name ids, or two of authors, kinds and tag
values. -/
theorem scraper_gate_iff (v : Json.Value) (s : Subscription) (unixTime : Nat)
    (hs : Subscription.deserialize v = .ok s) (_hgate : s.isScraper = false) :
    (∀ f ∈ s.filters, Guarded f unixTime) ↔
      ∀ id fvs, v = .array (.string "REQ" :: .string id :: fvs) →
        ∀ members, .object members ∈ fvs → Precise members := by
  obtain ⟨id, fvs, rfl, hall, hmem⟩ := Subscription.mem_filters_iff hs
  refine ⟨?_, ?_⟩
  · rintro h id' fvs' heq members hobj
    cases heq
    obtain ⟨f, hf⟩ := hall _ hobj
    exact (guarded_iff_precise hf).mp (h f ((hmem f).mpr ⟨_, hobj, hf⟩))
  · intro h f hf
    obtain ⟨fv, hfv, hd⟩ := (hmem f).mp hf
    obtain ⟨members, rfl, -⟩ := ReqFilter.deserialize_eq_ok_iff.mp hd
    exact (guarded_iff_precise hd).mpr (h id fvs rfl members hfv)

/-- A request for the notes of an author. -/
def sampleAuthorRequest : Json.Value :=
  .array [.string "REQ", .string "s",
    .object [("kinds", .array [.number (.posInt 1)]), ("authors", .array [.string "ab"])]]

theorem sampleAuthorRequest_guarded :
    Guarded { ReqFilter.initial with kinds := some [1], authors := some ["ab"] } 1700000000 := by
  refine (scraper_gate_iff sampleAuthorRequest
    ⟨"s", [{ ReqFilter.initial with kinds := some [1], authors := some ["ab"] }]⟩ 1700000000
    rfl rfl).mpr ?_ _ (List.mem_singleton_self _)
  intro id fvs heq members hobj
  cases heq
  obtain rfl : members = _ := Json.Value.object.inj (List.mem_singleton.mp hobj)
  exact .inr (.inl ⟨⟨"ab", [], rfl⟩, rfl⟩)

/-- All notes, with a tag condition without values. -/
def sampleUnvalued : List Member :=
  [("kinds", .array [.number (.posInt 1)]), ("#e", .array [])]

theorem sampleUnvalued_passes :
    ∃ s, Subscription.deserialize (.array [.string "REQ", .string "s", .object sampleUnvalued]) =
        .ok s ∧
      s.isScraper = false ∧ ¬ ∀ f ∈ s.filters, Guarded f 1700000000 := by
  have hd : ReqFilter.deserialize (.object sampleUnvalued) = .ok { ReqFilter.initial with
      kinds := some [1], tags := some (Finmap.insert 'e' (.or ∅) ∅) } := rfl
  refine ⟨_, rfl, rfl, fun h => ?_⟩
  rcases (guarded_iff_precise hd).mp (h _ (List.mem_singleton_self _)) with
    ⟨a, rest, hids⟩ | ⟨⟨a, rest, hauthors⟩, -⟩ | ⟨⟨a, rest, hauthors⟩, -⟩ | ⟨-, c, op, hlast, hne⟩
  · cases hids
  · cases hauthors
  · cases hauthors
  · obtain ⟨m, hm, hcond⟩ := hlast.exists_mem
    simp only [sampleUnvalued, List.mem_cons, List.not_mem_nil, or_false] at hm
    rcases hm with rfl | rfl
    · cases hcond
    · cases hcond
      exact hne rfl

end Floonet.Sqlite
