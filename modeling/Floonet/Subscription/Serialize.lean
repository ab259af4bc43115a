import Mathlib.Data.Finset.Sort
import Mathlib.Data.String.Basic
import Floonet.Subscription.Deserialize

/-!
# Writing a filter

The writer gives tag conditions the derived encoding of `TagOperand`, an object that names the
operand, under a key without operand mark. The reader looks for arrays: it reads back what was
written only of a filter that has no tag conditions at all (`deserialize_serialize_iff`).
-/

namespace Floonet

/-- The order in which a hash set or the keys of a hash map come. -/
structure IterOrder (α : Type) where
  iter : Finset α → List α
  perm : ∀ s, (iter s : Multiset α) = s.val

@[simp] theorem IterOrder.mem_iter {α : Type} (o : IterOrder α) {s : Finset α} {x : α} :
    x ∈ o.iter s ↔ x ∈ s := by
  rw [← Multiset.mem_coe, o.perm, Finset.mem_val]

namespace ReqFilter

variable (chars : IterOrder Char) (strings : IterOrder String)

/-- A number of a field. -/
def writeU64 (n : Nat) : Json.Value := .number (.posInt n)

/-- A sequence of strings. -/
def writeStrings (l : List String) : Json.Value := .array (l.map .string)

/-- The derived encoding of `TagOperand`. -/
def serializeOperand : TagOperand → Json.Value
  | .and v => .object [("And", writeStrings (strings.iter v))]
  | .or v => .object [("Or", writeStrings (strings.iter v))]

/-- The members of the tag conditions. -/
def serializeTags (map : Finmap fun _ : Char => TagOperand) : List Member :=
  (chars.iter map.keys).filterMap fun k =>
    (map.lookup k).map fun v => (String.ofList ['#', k], serializeOperand strings v)

/-- The entry of an optional field. -/
def entry {α : Type} (key : String) (write : α → Json.Value) (o : Option α) : List Member :=
  (o.map fun a => (key, write a)).toList

/-- The entries that are there, in the order they are written in, then the tags. -/
def serializeMembers (f : ReqFilter) : List Member :=
  entry "ids" writeStrings f.ids ++
  entry "kinds" (fun ks => .array (ks.map writeU64)) f.kinds ++
  entry "until" writeU64 f.until_ ++
  entry "since" writeU64 f.since ++
  entry "limit" writeU64 f.limit ++
  entry "authors" writeStrings f.authors ++
  f.tags.elim [] (serializeTags chars strings)

/-- `ReqFilter::serialize`. -/
def serialize (f : ReqFilter) : Json.Value := .object (serializeMembers chars strings f)

variable {chars strings} {f : ReqFilter} {members : List Member}

/-! ## What is read back -/

/-- The last value counts, in two parts. -/
theorem value_append (a b : List Member) (key : String) :
    value (a ++ b) key = (value b key).or (value a key) := by
  rw [value, List.reverse_append, List.lookup_append, value, value]

theorem value_entry {α : Type} (key key' : String) (write : α → Json.Value) (o : Option α) :
    value (entry key write o) key' = if key' = key then o.map write else none := by
  cases o with
  | none => simp [entry, value]
  | some a =>
    simp only [entry, Option.map_some, Option.toList_some, value, List.reverse_singleton,
      List.lookup_cons, List.lookup_nil]
    by_cases h : key' = key
    · rw [if_pos h, beq_iff_eq.mpr h]
    · rw [if_neg h, beq_false_of_ne h]

/-- A written tag condition has a key with `#`. -/
theorem mem_serializeTags {map : Finmap fun _ : Char => TagOperand} {m : Member}
    (hm : m ∈ serializeTags chars strings map) :
    m.1.toList.head? = some '#' ∧ ∃ ms, m.2 = .object ms := by
  obtain ⟨k, -, hk⟩ := List.mem_filterMap.mp hm
  obtain ⟨v, -, rfl⟩ := Option.map_eq_some_iff.mp hk
  refine ⟨by rw [String.toList_ofList]; rfl, ?_⟩
  cases v with
  | and v => exact ⟨_, rfl⟩
  | or v => exact ⟨_, rfl⟩

/-- No named field is among the tag conditions. -/
theorem value_serializeTags {key : String} (hkey : key ∈ fieldNames)
    (tags : Option (Finmap fun _ : Char => TagOperand)) :
    value (tags.elim [] (serializeTags chars strings)) key = none := by
  rcases hv : value (tags.elim [] (serializeTags chars strings)) key with _ | v
  · rfl
  · have hmem := mem_of_value hv
    cases tags with
    | none => exact absurd hmem List.not_mem_nil
    | some map => exact absurd (mem_serializeTags hmem).1 (head_ne_hash hkey)

/-- What a parsed filter can hold: no empty ids or authors, numbers of 64 bits. -/
structure Readable (f : ReqFilter) : Prop where
  ids : ∀ l, f.ids = some l → "" ∉ l
  authors : ∀ l, f.authors = some l → "" ∉ l
  kinds : ∀ l, f.kinds = some l → ∀ k ∈ l, k < 2 ^ 64
  since : ∀ t, f.since = some t → t < 2 ^ 64
  until_ : ∀ t, f.until_ = some t → t < 2 ^ 64
  limit : ∀ n, f.limit = some n → n < 2 ^ 64
  not_forced : f.forceNoMatch = false

/-- What is read can be read again. -/
theorem readable_of_deserialize {v : Json.Value} (h : deserialize v = .ok f) : Readable f := by
  obtain ⟨members, rfl, hclean, -⟩ := deserialize_eq_ok_iff.mp h
  obtain ⟨-, hreads⟩ := reads_of_deserialize h
  have hhexes : ∀ (key : String) (l : List String), (key = "ids" ∨ key = "authors") →
      ((value members key).bind fun v => v.toItems Json.Value.toStr) = some l → "" ∉ l := by
    intro key l hkey hl hempty
    obtain ⟨v, hv, hitems⟩ := Option.bind_eq_some_iff.mp hl
    exact (hclean _ (mem_of_value hv)).1 ⟨hkey, l, hitems, hempty⟩
  have hnumber : ∀ (key : String) (n : Nat),
      (value members key).bind Json.Value.toU64 = some n → n < 2 ^ 64 := by
    intro key n hn
    obtain ⟨v, -, hv⟩ := Option.bind_eq_some_iff.mp hn
    exact Json.Value.toU64_lt hv
  refine ⟨fun l hl => hhexes "ids" l (.inl rfl) (hreads.ids ▸ hl),
    fun l hl => hhexes "authors" l (.inr rfl) (hreads.authors ▸ hl), fun l hl k hk => ?_,
    fun t ht => hnumber "since" t (hreads.since ▸ ht),
    fun t ht => hnumber "until" t (hreads.until_ ▸ ht),
    fun n hn => hnumber "limit" n (hreads.limit ▸ hn), hreads.not_forced⟩
  rw [hreads.kinds] at hl
  obtain ⟨v, -, hv⟩ := Option.bind_eq_some_iff.mp hl
  obtain ⟨w, hw⟩ := Json.Value.exists_of_mem_toItems hv hk
  exact Json.Value.toU64_lt hw

/-- Strings are read as they were written. -/
theorem toItems_writeStrings (l : List String) :
    (writeStrings l).toItems Json.Value.toStr = some l :=
  Json.Value.toItems_array_map fun _ _ => rfl

/-- The value of a named field in the output. -/
theorem value_serializeMembers {key : String} (hkey : key ∈ fieldNames) :
    value (serializeMembers chars strings f) key =
      if key = "ids" then f.ids.map writeStrings
      else if key = "kinds" then f.kinds.map fun ks => .array (ks.map writeU64)
      else if key = "until" then f.until_.map writeU64
      else if key = "since" then f.since.map writeU64
      else if key = "limit" then f.limit.map writeU64
      else f.authors.map writeStrings := by
  simp only [serializeMembers, value_append, value_entry, value_serializeTags hkey]
  simp only [fieldNames, List.mem_cons, List.not_mem_nil, or_false] at hkey
  rcases hkey with rfl | rfl | rfl | rfl | rfl | rfl <;> simp

/-- A member that is read without trouble and is no tag condition. -/
def Plain (m : Member) : Prop := ¬ Refused m ∧ ¬ TwoByteLetter m ∧ isTagMember m = false

theorem plain_of_field {key : String} {v : Json.Value} (hkey : key ∈ fieldNames)
    (hv : key = "ids" ∨ key = "authors" → ∃ l, v = writeStrings l ∧ "" ∉ l) :
    Plain (key, v) := by
  have hhead := head_ne_hash hkey
  refine ⟨?_, ?_, ?_⟩
  · rintro ⟨hhex, a, ha, hempty⟩
    obtain ⟨l, rfl, hl⟩ := hv hhex
    rw [toItems_writeStrings] at ha
    cases ha
    exact hl hempty
  · rintro ⟨c, hc, -⟩
    simp only at hc
    rw [hc] at hhead
    exact hhead rfl
  · simp [isTagMember, hhead]

theorem plain_of_object {m : Member} (hobj : ∃ ms, m.2 = .object ms) : Plain m := by
  obtain ⟨ms, hms⟩ := hobj
  refine ⟨?_, ?_, ?_⟩
  · rintro ⟨-, a, ha, -⟩
    rw [hms] at ha
    cases ha
  · rintro ⟨c, -, -, ha⟩
    rw [hms] at ha
    cases ha
  · simp [isTagMember, hms, Json.Value.isArray]

/-- A tag condition is written as an object, which is not read as one. -/
theorem plain_serializeMembers (h : Readable f) :
    ∀ m ∈ serializeMembers chars strings f, Plain m := by
  have hentry : ∀ {α : Type} {key : String} {write : α → Json.Value} {o : Option α} {m : Member},
      m ∈ entry key write o → ∃ a, o = some a ∧ m = (key, write a) := by
    intro α key write o m hm
    rw [entry, Option.mem_toList, Option.map_eq_some_iff] at hm
    exact hm.imp fun a ha => ⟨ha.1, ha.2.symm⟩
  intro m hm
  simp only [serializeMembers, List.mem_append] at hm
  rcases hm with (((((hm | hm) | hm) | hm) | hm) | hm) | hm
  · obtain ⟨l, hl, rfl⟩ := hentry hm
    exact plain_of_field (by decide) fun _ => ⟨l, rfl, h.ids l hl⟩
  · obtain ⟨ks, -, rfl⟩ := hentry hm
    exact plain_of_field (by decide) fun hkey => absurd hkey (by decide)
  · obtain ⟨t, -, rfl⟩ := hentry hm
    exact plain_of_field (by decide) fun hkey => absurd hkey (by decide)
  · obtain ⟨t, -, rfl⟩ := hentry hm
    exact plain_of_field (by decide) fun hkey => absurd hkey (by decide)
  · obtain ⟨n, -, rfl⟩ := hentry hm
    exact plain_of_field (by decide) fun hkey => absurd hkey (by decide)
  · obtain ⟨l, hl, rfl⟩ := hentry hm
    exact plain_of_field (by decide) fun _ => ⟨l, rfl, h.authors l hl⟩
  · rcases htags : f.tags with _ | map <;> rw [htags] at hm
    · exact absurd hm List.not_mem_nil
    · exact plain_of_object (mem_serializeTags hm).2

/-- **What is read back**: the filter without its tag conditions. -/
theorem deserialize_serialize (h : Readable f) :
    deserialize (serialize chars strings f) = .ok { f with tags := none } := by
  have hplain : ∀ m ∈ serializeMembers chars strings f, Plain m := plain_serializeMembers h
  have hclean : Clean (serializeMembers chars strings f) := fun m hm =>
    ⟨(hplain m hm).1, (hplain m hm).2.1⟩
  have hreads := reads_foldl_enter (serializeMembers chars strings f)
  have hback : ∀ {α : Type} {o : Option α} {write : α → Json.Value}
      {read : Json.Value → Option α}, (∀ a, o = some a → read (write a) = some a) →
      (o.map write).bind read = o := by
    intro α o write read hread
    cases o with
    | none => rfl
    | some a => exact hread a rfl
  have hkinds : ∀ ks, f.kinds = some ks →
      (Json.Value.array (ks.map writeU64)).toItems Json.Value.toU64 = some ks := fun ks hks =>
    Json.Value.toItems_array_map fun k hk => Json.Value.toU64_posInt (h.kinds ks hks k hk)
  refine deserialize_eq_ok_iff.mpr ⟨_, rfl, hclean, ?_⟩
  have htags : ((serializeMembers chars strings f).foldl enter initial).tags = none := by
    rw [← Option.not_isSome_iff_eq_none, hreads.tags_isSome, List.any_eq_true]
    rintro ⟨m, hm, htag⟩
    rw [(hplain m hm).2.2] at htag
    cases htag
  rw [ReqFilter.mk.injEq]
  refine ⟨?_, ?_, ?_, ?_, ?_, ?_, htags.symm, ?_⟩
  · rw [hreads.ids, value_serializeMembers (by decide)]
    exact (hback fun l _ => toItems_writeStrings l).symm
  · rw [hreads.kinds, value_serializeMembers (by decide)]
    exact (hback hkinds).symm
  · rw [hreads.since, value_serializeMembers (by decide)]
    exact (hback fun t ht => Json.Value.toU64_posInt (h.since t ht)).symm
  · rw [hreads.until_, value_serializeMembers (by decide)]
    exact (hback fun t ht => Json.Value.toU64_posInt (h.until_ t ht)).symm
  · rw [hreads.authors, value_serializeMembers (by decide)]
    exact (hback fun l _ => toItems_writeStrings l).symm
  · rw [hreads.limit, value_serializeMembers (by decide)]
    exact (hback fun n hn => Json.Value.toU64_posInt (h.limit n hn)).symm
  · rw [hreads.not_forced, h.not_forced]

/-- **The round trip.** A filter that was parsed is read back from what is written of it if and
only if it has no tag conditions, whatever order its sets come in. -/
theorem deserialize_serialize_iff (v : Json.Value) (f : ReqFilter) (chars : IterOrder Char)
    (strings : IterOrder String) (h : deserialize v = .ok f) :
    deserialize (serialize chars strings f) = .ok f ↔ f.tags = none := by
  rw [deserialize_serialize (readable_of_deserialize h), Outcome.ok.injEq]
  refine ⟨fun heq => ?_, fun htags => ?_⟩
  · rw [← heq]
  · cases f
    cases htags
    rfl

/-- The order of the elements themselves. -/
def sampleOrder (α : Type) [LinearOrder α] : IterOrder α where
  iter s := s.sort (· ≤ ·)
  perm s := s.sort_eq (· ≤ ·)

/-- The filter of `{"kinds": [1], "limit": 5}`. -/
def sampleWritten : ReqFilter := { initial with kinds := some [1], limit := some 5 }

theorem sampleWritten_read_back :
    deserialize (serialize (sampleOrder Char) (sampleOrder String) sampleWritten) =
      .ok sampleWritten := by
  have hd : deserialize (.object [("kinds", .array [.number (.posInt 1)]),
      ("limit", .number (.posInt 5))]) = .ok sampleWritten := rfl
  exact (deserialize_serialize_iff _ sampleWritten _ _ hd).mpr rfl

/-- The filter of `{"#e": ["a"]}`. -/
def sampleTagged : ReqFilter :=
  { initial with tags := some (Finmap.insert 'e' (.or {"a"}) ∅) }

/-- Its tag condition is lost: what is read back matches everything. -/
theorem sampleTagged_not_read_back :
    deserialize (.object [("#e", .array [.string "a"])]) = .ok sampleTagged ∧
      deserialize (serialize (sampleOrder Char) (sampleOrder String) sampleTagged) =
        .ok initial ∧
      deserialize (serialize (sampleOrder Char) (sampleOrder String) sampleTagged) ≠
        .ok sampleTagged := by
  have hd : deserialize (.object [("#e", .array [.string "a"])]) = .ok sampleTagged := rfl
  have hback : deserialize (serialize (sampleOrder Char) (sampleOrder String) sampleTagged) =
      .ok initial := deserialize_serialize (readable_of_deserialize hd)
  refine ⟨hd, hback, ?_⟩
  rw [hback]
  intro heq
  cases heq

end ReqFilter

end Floonet
