import Floonet.Subscription

/-!
# What a filter is parsed to

The deserializer goes through the members of the object one by one. A member is refused
(`Refused`), makes an `unwrap` fail (`TwoByteLetter`), or is entered into the filter
(`ReqFilter.enter`); the filter of an object is the fold of `enter` over its members, and its
fields are read off member by member.

The length of a tag key is counted in bytes and its letter taken by character: a letter of two
bytes fills the three bytes, and there is no third character. `deserialize_ne_panic_iff` says
that nothing else panics.
-/

namespace Floonet

namespace ReqFilter

/-- A member of the object. -/
abbrev Member : Type := String × Json.Value

/-! ## Members -/

/-- A list of ids or authors with an empty string. -/
def Refused (m : Member) : Prop :=
  (m.1 = "ids" ∨ m.1 = "authors") ∧ ∃ a, m.2.toItems Json.Value.toStr = some a ∧ "" ∈ a

/-- A tag key whose letter takes two bytes, with a list of strings. -/
def TwoByteLetter (m : Member) : Prop :=
  ∃ c : Char, m.1.toList = ['#', c] ∧ c.utf8Size = 2 ∧
    (m.2.toItems Json.Value.toStr).isSome = true

/-- The member makes the filter have tag conditions, possibly none. -/
def isTagMember (m : Member) : Bool :=
  m.1.toList.head? = some '#' && 1 < byteLen m.1 && byteLen m.1 < 4 && m.2.isArray

/-- The tag condition a member adds. -/
def tagCondition (m : Member) : Option (Char × TagOperand) :=
  match m.1.toList, m.2.toItems Json.Value.toStr with
  | ['#', c], some v => if c.utf8Size = 1 then some (c, .or v.toFinset) else none
  | ['#', c, '&'], some v => if c.utf8Size = 1 then some (c, .and v.toFinset) else none
  | _, _ => none

/-- The map with one more condition, the last one for its letter. -/
def addCondition (map : Finmap fun _ : Char => TagOperand) :
    Option (Char × TagOperand) → Finmap fun _ : Char => TagOperand
  | some (c, op) => map.insert c op
  | none => map

/-- The filter after a member that is neither refused nor panics. -/
def enter (rf : ReqFilter) (m : Member) : ReqFilter where
  ids := if m.1 = "ids" then m.2.toItems Json.Value.toStr else rf.ids
  kinds := if m.1 = "kinds" then m.2.toItems Json.Value.toU64 else rf.kinds
  since := if m.1 = "since" then m.2.toU64 else rf.since
  until_ := if m.1 = "until" then m.2.toU64 else rf.until_
  authors := if m.1 = "authors" then m.2.toItems Json.Value.toStr else rf.authors
  limit := if m.1 = "limit" then m.2.toU64 else rf.limit
  tags := if isTagMember m then some (addCondition (rf.tags.getD ∅) (tagCondition m)) else rf.tags
  forceNoMatch := rf.forceNoMatch

/-- The length of a text in bytes. -/
theorem byteLen_eq_sum {s : String} {cs : List Char} (h : s.toList = cs) :
    byteLen s = (cs.map Char.utf8Size).sum := by
  rw [byteLen, h]

/-- The keys of two and three bytes that start with `#`. -/
theorem tagKey_cases {key : String} (hhead : key.toList.head? = some '#') (h1 : 1 < byteLen key)
    (h4 : byteLen key < 4) :
    (∃ c, key.toList = ['#', c] ∧ c.utf8Size = 1 ∧ byteLen key = 2) ∨
    (∃ c, key.toList = ['#', c] ∧ c.utf8Size = 2 ∧ byteLen key = 3) ∨
    (∃ c d, key.toList = ['#', c, d] ∧ c.utf8Size = 1 ∧ byteLen key = 3) := by
  have hhash : Char.utf8Size '#' = 1 := rfl
  rcases hk : key.toList with _ | ⟨a, _ | ⟨c, _ | ⟨d, rest⟩⟩⟩
  · rw [hk] at hhead
    cases hhead
  all_goals
    rw [hk] at hhead
    cases hhead
    have hlen := byteLen_eq_sum hk
    simp only [List.map_cons, List.map_nil, List.sum_cons, List.sum_nil, hhash] at hlen
  · omega
  · have hc := Char.utf8Size_pos c
    by_cases h : c.utf8Size = 1
    · exact .inl ⟨c, rfl, h, by omega⟩
    · exact .inr (.inl ⟨c, rfl, by omega, by omega⟩)
  · have hc := Char.utf8Size_pos c
    have hd := Char.utf8Size_pos d
    rcases rest with _ | ⟨x, rest⟩
    · simp only [List.map_nil, List.sum_nil] at hlen
      exact .inr (.inr ⟨c, d, rfl, by omega, by omega⟩)
    · have hx := Char.utf8Size_pos x
      simp only [List.map_cons, List.sum_cons] at hlen
      omega

variable {rf : ReqFilter} {m : Member}

/-- A tag key is none of the named fields. -/
theorem ne_of_head_hash {key field : String} (hhead : key.toList.head? = some '#')
    (hfield : field.toList.head? ≠ some '#') : key ≠ field := by
  rintro rfl
  exact hfield hhead

/-- The named fields, in the order they are looked for. -/
def fieldNames : List String := ["ids", "kinds", "since", "until", "limit", "authors"]

theorem head_ne_hash {field : String} (h : field ∈ fieldNames) :
    field.toList.head? ≠ some '#' := by
  revert field
  decide

/-- A tag key goes past all named fields. -/
theorem deserializeMember_hash (hhead : m.1.toList.head? = some '#') :
    deserializeMember rf m =
      if isTagMember m then do
        let ts ← deserializeTag rf.tags m.1 m.2
        pure { rf with tags := some ts }
      else .ok rf := by
  have hne : ∀ field ∈ fieldNames, m.1 ≠ field := fun _ hf =>
    ne_of_head_hash hhead (head_ne_hash hf)
  simp only [fieldNames, List.forall_mem_cons] at hne
  obtain ⟨h1, h2, h3, h4, h5, h6, -⟩ := hne
  obtain ⟨key, val⟩ := m
  simp only [deserializeMember, if_neg h1, if_neg h2, if_neg h3, if_neg h4, if_neg h5, if_neg h6,
    isTagMember]
  rfl

theorem deserializeHexes_refused {val : Json.Value}
    (h : ∃ a, val.toItems Json.Value.toStr = some a ∧ "" ∈ a) :
    deserializeHexes val = .err (invalidType "prefix matches must not be empty strings") := by
  obtain ⟨a, ha, hmem⟩ := h
  rw [deserializeHexes, ha]
  exact if_pos (List.contains_iff_mem.mpr hmem)

theorem deserializeHexes_ok {val : Json.Value}
    (h : ¬ ∃ a, val.toItems Json.Value.toStr = some a ∧ "" ∈ a) :
    deserializeHexes val = .ok (val.toItems Json.Value.toStr) := by
  rw [deserializeHexes]
  rcases ha : val.toItems Json.Value.toStr with _ | a
  · rfl
  · exact if_neg fun hmem => h ⟨a, ha, List.contains_iff_mem.mp hmem⟩

/-- A refused member is an error. -/
theorem deserializeMember_refused (h : Refused m) :
    deserializeMember rf m =
      .err (invalidType "prefix matches must not be empty strings") := by
  obtain ⟨key, val⟩ := m
  obtain ⟨hkey | hkey, hval⟩ := h <;> obtain rfl : key = _ := hkey
  · simp only [deserializeMember, if_true, deserializeHexes_refused hval, Outcome.err_bind]
  · simp [deserializeMember, deserializeHexes_refused hval]

/-- A list is an array. -/
theorem isArray_of_toItems {val : Json.Value} {α : Type} {item : Json.Value → Option α}
    (h : (val.toItems item).isSome = true) : val.isArray = true := by
  cases val <;> first | rfl | cases h

/-- A letter of two bytes has no third character after it. -/
theorem deserializeMember_twoByteLetter (h : TwoByteLetter m) :
    deserializeMember rf m = .panic := by
  obtain ⟨c, hkey, hsize, hval⟩ := h
  obtain ⟨a, ha⟩ := Option.isSome_iff_exists.mp hval
  have hlen : byteLen m.1 = 3 := by
    rw [byteLen_eq_sum hkey]
    simp [hsize, show Char.utf8Size '#' = 1 from rfl]
  have htag : isTagMember m = true := by
    simp [isTagMember, hkey, hlen, isArray_of_toItems hval]
  rw [deserializeMember_hash (by rw [hkey]; rfl), if_pos htag]
  simp [deserializeTag, ha, deserializeOperand, hlen, hkey, Outcome.unwrap]

/-- A tag member without a two-byte letter adds its condition. -/
theorem deserializeTag_ok (htag : isTagMember m = true) (ht : ¬ TwoByteLetter m) :
    deserializeTag rf.tags m.1 m.2 = .ok (addCondition (rf.tags.getD ∅) (tagCondition m)) := by
  simp only [isTagMember, Bool.and_eq_true, decide_eq_true_eq] at htag
  obtain ⟨⟨⟨hhead, h1⟩, h4⟩, -⟩ := htag
  rcases hval : m.2.toItems Json.Value.toStr with _ | v
  · have hcond : tagCondition m = none := by
      rw [tagCondition, hval]
      split <;> simp_all
    rw [hcond]
    simp only [deserializeTag, hval]
    rfl
  · rcases tagKey_cases hhead h1 h4 with ⟨c, hkey, hsize, hlen⟩ | ⟨c, hkey, hsize, hlen⟩ |
      ⟨c, d, hkey, hsize, hlen⟩
    · simp [deserializeTag, hval, deserializeOperand, hlen, hkey, Outcome.unwrap, tagCondition,
        hsize, addCondition]
      rfl
    · exact absurd ⟨c, hkey, hsize, by rw [hval]; rfl⟩ ht
    · by_cases hd : d = '&'
      · subst hd
        simp [deserializeTag, hval, deserializeOperand, hlen, hkey, Outcome.unwrap, tagCondition,
          hsize, addCondition]
        rfl
      · simp [deserializeTag, hval, deserializeOperand, hlen, hkey, Outcome.unwrap, tagCondition,
          hd, addCondition]
        rfl

/-- **One turn of the loop**, when nothing is wrong with the member. -/
theorem deserializeMember_ok (hr : ¬ Refused m) (ht : ¬ TwoByteLetter m) :
    deserializeMember rf m = .ok (enter rf m) := by
  by_cases hhead : m.1.toList.head? = some '#'
  · have hne : ∀ field ∈ fieldNames, m.1 ≠ field := fun _ hf =>
      ne_of_head_hash hhead (head_ne_hash hf)
    simp only [fieldNames, List.forall_mem_cons] at hne
    obtain ⟨h1, h2, h3, h4, h5, h6, -⟩ := hne
    rw [deserializeMember_hash hhead]
    by_cases htag : isTagMember m = true
    · rw [if_pos htag, deserializeTag_ok htag ht, Outcome.ok_bind]
      simp only [enter, if_neg h1, if_neg h2, if_neg h3, if_neg h4, if_neg h5, if_neg h6,
        if_pos htag]
      rfl
    · rw [if_neg htag]
      simp only [enter, if_neg h1, if_neg h2, if_neg h3, if_neg h4, if_neg h5, if_neg h6,
        if_neg htag]
  · have htag : isTagMember m = false := by
      simp [isTagMember, hhead]
    obtain ⟨key, val⟩ := m
    by_cases h1 : key = "ids"
    · subst h1
      have hval := fun h => hr ⟨.inl rfl, h⟩
      simp [deserializeMember, enter, htag, deserializeHexes_ok hval]
      rfl
    · by_cases h2 : key = "authors"
      · subst h2
        have hval := fun h => hr ⟨.inr rfl, h⟩
        simp [deserializeMember, enter, htag, deserializeHexes_ok hval]
        rfl
      · simp only [deserializeMember, enter, htag, if_neg h1, if_neg h2, hhead]
        split_ifs <;> simp_all

/-! ## Objects

The members are entered one by one. A member is refused, dropped or taken, or its text is cut at a
byte that is no boundary, which panics. -/

variable {members : List Member}

/-- No member is refused or panics. -/
def Clean (members : List Member) : Prop := ∀ m ∈ members, ¬ Refused m ∧ ¬ TwoByteLetter m

/-- The members up to the first one that is refused have no two-byte letter. -/
def Steady : List Member → Prop
  | [] => True
  | m :: rest => ¬ TwoByteLetter m ∧ (Refused m ∨ Steady rest)

/-- Clean members are entered one by one. -/
theorem foldlM_clean (h : Clean members) :
    members.foldlM deserializeMember rf = .ok (members.foldl enter rf) := by
  induction members generalizing rf with
  | nil => rfl
  | cons m rest ih =>
    obtain ⟨hm, hrest⟩ := List.forall_mem_cons.mp h
    rw [List.foldlM_cons, deserializeMember_ok hm.1 hm.2, Outcome.ok_bind, ih hrest,
      List.foldl_cons]

theorem clean_of_foldlM {f : ReqFilter} (h : members.foldlM deserializeMember rf = .ok f) :
    Clean members := by
  induction members generalizing rf with
  | nil => exact fun _ hm => absurd hm List.not_mem_nil
  | cons m rest ih =>
    rw [List.foldlM_cons] at h
    obtain ⟨rf', hm, hrest⟩ := Outcome.bind_eq_ok h
    refine List.forall_mem_cons.mpr ⟨⟨fun hr => ?_, fun ht => ?_⟩, ih hrest⟩
    · rw [deserializeMember_refused hr] at hm
      cases hm
    · rw [deserializeMember_twoByteLetter ht] at hm
      cases hm

/-- Members are entered without panic when they are steady. -/
theorem foldlM_ne_panic_iff :
    members.foldlM deserializeMember rf ≠ .panic ↔ Steady members := by
  induction members generalizing rf with
  | nil => exact ⟨fun _ => trivial, fun _ h => by cases h⟩
  | cons m rest ih =>
    rw [List.foldlM_cons, Steady]
    by_cases ht : TwoByteLetter m
    · rw [deserializeMember_twoByteLetter ht, Outcome.panic_bind]
      exact ⟨fun h => absurd rfl h, fun h => absurd ht h.1⟩
    · by_cases hr : Refused m
      · rw [deserializeMember_refused hr, Outcome.err_bind]
        exact ⟨fun _ => ⟨ht, .inl hr⟩, fun _ h => by cases h⟩
      · rw [deserializeMember_ok hr ht, Outcome.ok_bind, ih]
        exact ⟨fun h => ⟨ht, .inr h⟩, fun h => h.2.resolve_left hr⟩

/-- Without refused members the whole object counts. -/
theorem clean_of_steady (hno : ∀ m ∈ members, ¬ Refused m) (h : Steady members) :
    Clean members := by
  induction members with
  | nil => exact fun _ hm => absurd hm List.not_mem_nil
  | cons m rest ih =>
    obtain ⟨hm, hrest⟩ := List.forall_mem_cons.mp hno
    exact List.forall_mem_cons.mpr ⟨⟨hm, h.1⟩, ih hrest (h.2.resolve_left hm)⟩

/-- **The filter of an object.** -/
theorem deserialize_eq_ok_iff {v : Json.Value} {f : ReqFilter} :
    deserialize v = .ok f ↔
      ∃ members, v = .object members ∧ Clean members ∧ f = members.foldl enter initial := by
  refine ⟨?_, ?_⟩
  · intro h
    cases v with
    | object members =>
      have hclean := clean_of_foldlM h
      rw [deserialize, foldlM_clean hclean] at h
      exact ⟨members, rfl, hclean, (Outcome.ok.inj h).symm⟩
    | _ => cases h
  · rintro ⟨members, rfl, hclean, rfl⟩
    exact foldlM_clean hclean

/-! ## Fields -/

/-- The value of the last member with this key; objects have one at most. -/
def value (members : List Member) (key : String) : Option Json.Value :=
  members.reverse.lookup key

/-- The last value of a key counts. -/
theorem value_concat (key : String) :
    value (members ++ [m]) key = if m.1 = key then some m.2 else value members key := by
  obtain ⟨k, v⟩ := m
  rw [value, List.reverse_append, List.reverse_singleton, List.singleton_append,
    List.lookup_cons]
  by_cases hk : k = key
  · rw [if_pos hk, hk, BEq.rfl]
  · rw [if_neg hk, beq_false_of_ne (Ne.symm hk), value]

/-- Where keys do not repeat, it is the member's value. -/
theorem value_of_mem (hnodup : (members.map Prod.fst).Nodup) (hm : m ∈ members) :
    value members m.1 = some m.2 := by
  induction members using List.reverseRecOn with
  | nil => exact absurd hm List.not_mem_nil
  | append_singleton rest last ih =>
    rw [List.map_append, List.nodup_append] at hnodup
    rw [value_concat]
    rcases List.mem_append.mp hm with hm | hm
    · rw [if_neg, ih hnodup.1 hm]
      exact fun h => hnodup.2.2 _ (List.mem_map_of_mem hm) _ (List.mem_singleton_self _) h.symm
    · rw [if_pos (by rw [List.mem_singleton.mp hm]), List.mem_singleton.mp hm]

theorem mem_of_value {key : String} {v : Json.Value} (h : value members key = some v) :
    (key, v) ∈ members := by
  induction members using List.reverseRecOn with
  | nil => cases h
  | append_singleton rest last ih =>
    rw [value_concat] at h
    split_ifs at h with hk
    · cases h
      subst hk
      exact List.mem_append_right _ (List.mem_singleton_self _)
    · exact List.mem_append_left _ (ih h)

/-- A field that members of one key set is read from the last of them. -/
theorem foldl_enter_field {α : Type} {key : String} {parse : Json.Value → Option α}
    {field : ReqFilter → Option α} (hinit : field initial = none)
    (henter : ∀ rf m, field (enter rf m) = if m.1 = key then parse m.2 else field rf) :
    field (members.foldl enter initial) = (value members key).bind parse := by
  induction members using List.reverseRecOn with
  | nil => exact hinit
  | append_singleton rest last ih =>
    rw [List.foldl_concat, henter, ih, value_concat]
    split_ifs <;> rfl

/-- The last tag condition for a letter. -/
def LastCondition (members : List Member) (c : Char) (op : TagOperand) : Prop :=
  ∃ before m after, members = before ++ m :: after ∧ tagCondition m = some (c, op) ∧
    ∀ m' ∈ after, ∀ op', tagCondition m' ≠ some (c, op')

/-- The last condition of a letter counts. -/
theorem lastCondition_concat {c : Char} {op : TagOperand} :
    LastCondition (members ++ [m]) c op ↔
      tagCondition m = some (c, op) ∨
        (∀ op', tagCondition m ≠ some (c, op')) ∧ LastCondition members c op := by
  refine ⟨?_, ?_⟩
  · rintro ⟨before, m', after, heq, hcond, hafter⟩
    rcases after.eq_nil_or_concat with rfl | ⟨after, last, rfl⟩
    · obtain ⟨-, hlast⟩ := List.append_inj' heq rfl
      cases hlast
      exact .inl hcond
    · rw [List.concat_eq_append, ← List.cons_append, ← List.append_assoc] at heq
      obtain ⟨hinit, hlast⟩ := List.append_inj' heq rfl
      cases hlast
      rw [List.concat_eq_append] at hafter
      refine .inr ⟨hafter _ (List.mem_append_right _ (List.mem_singleton_self _)),
        before, m', after, hinit, hcond, fun x hx => hafter x (List.mem_append_left _ hx)⟩
  · rintro (hcond | ⟨hother, before, m', after, rfl, hcond, hafter⟩)
    · exact ⟨members, m, [], rfl, hcond, fun _ hx => absurd hx List.not_mem_nil⟩
    · refine ⟨before, m', after ++ [m], by simp, hcond, fun x hx => ?_⟩
      rcases List.mem_append.mp hx with hx | hx
      · exact hafter x hx
      · rw [List.mem_singleton.mp hx]
        exact hother

theorem LastCondition.exists_mem {c : Char} {op : TagOperand} (h : LastCondition members c op) :
    ∃ m ∈ members, tagCondition m = some (c, op) := by
  obtain ⟨before, m, after, rfl, hcond, -⟩ := h
  exact ⟨m, List.mem_append_right _ (List.mem_cons_self ..), hcond⟩

/-- Only tag members have a condition. -/
theorem isTagMember_of_tagCondition {p : Char × TagOperand} (h : tagCondition m = some p) :
    isTagMember m = true := by
  have hval : ∀ v, m.2.toItems Json.Value.toStr = some v → m.2.isArray = true := fun v hv =>
    isArray_of_toItems (by rw [hv]; rfl)
  rw [tagCondition] at h
  split at h
  · rename_i c v hkey hv
    split_ifs at h with hsize
    have hlen := byteLen_eq_sum hkey
    simp only [List.map_cons, List.map_nil, List.sum_cons, List.sum_nil, hsize,
      show Char.utf8Size '#' = 1 from rfl] at hlen
    simp [isTagMember, hkey, hlen, hval v hv]
  · rename_i c v hkey hv
    split_ifs at h with hsize
    have hlen := byteLen_eq_sum hkey
    simp only [List.map_cons, List.map_nil, List.sum_cons, List.sum_nil, hsize,
      show Char.utf8Size '#' = 1 from rfl, show Char.utf8Size '&' = 1 from rfl] at hlen
    simp [isTagMember, hkey, hlen, hval v hv]
  · cases h

theorem lookup_addCondition {map : Finmap fun _ : Char => TagOperand} {c : Char}
    {op : TagOperand} {cond : Option (Char × TagOperand)} :
    (addCondition map cond).lookup c = some op ↔
      cond = some (c, op) ∨ (∀ op', cond ≠ some (c, op')) ∧ map.lookup c = some op := by
  rcases cond with _ | ⟨d, op'⟩
  · simp [addCondition]
  · rw [addCondition]
    by_cases hcd : c = d
    · subst hcd
      rw [Finmap.lookup_insert]
      simp
    · rw [Finmap.lookup_insert_of_ne _ hcd]
      simp [Ne.symm hcd]

/-- What the filter of an object has in its fields. -/
structure Reads (members : List Member) (f : ReqFilter) : Prop where
  ids : f.ids = (value members "ids").bind fun v => v.toItems Json.Value.toStr
  kinds : f.kinds = (value members "kinds").bind fun v => v.toItems Json.Value.toU64
  since : f.since = (value members "since").bind Json.Value.toU64
  until_ : f.until_ = (value members "until").bind Json.Value.toU64
  authors : f.authors = (value members "authors").bind fun v => v.toItems Json.Value.toStr
  limit : f.limit = (value members "limit").bind Json.Value.toU64
  tags_isSome : f.tags.isSome = members.any isTagMember
  lookup_tags : ∀ map, f.tags = some map → ∀ c op, map.lookup c = some op ↔
    LastCondition members c op
  not_forced : f.forceNoMatch = false

/-- The tag conditions of the fold. -/
theorem tags_foldl_enter (members : List Member) :
    (members.foldl enter initial).tags.isSome = members.any isTagMember ∧
      ∀ c op, ((members.foldl enter initial).tags.getD ∅).lookup c = some op ↔
        LastCondition members c op := by
  induction members using List.reverseRecOn with
  | nil =>
    refine ⟨rfl, fun c op => ⟨fun h => (by cases h), ?_⟩⟩
    rintro ⟨before, m, after, heq, -⟩
    simp at heq
  | append_singleton rest last ih =>
    rw [List.foldl_concat, List.any_append, ← ih.1]
    refine ⟨?_, fun c op => ?_⟩
    · simp only [enter, List.any_cons, List.any_nil, Bool.or_false]
      split_ifs with htag <;> simp [htag]
    · rw [lastCondition_concat, ← ih.2 c op]
      simp only [enter]
      split_ifs with htag
      · exact lookup_addCondition
      · have hnone : ∀ p, tagCondition last ≠ some p := fun p h =>
          htag (isTagMember_of_tagCondition h)
        simp [hnone]

/-- The filter is what its members say. -/
theorem reads_foldl_enter (members : List Member) : Reads members (members.foldl enter initial) where
  ids := foldl_enter_field rfl fun _ _ => rfl
  kinds := foldl_enter_field rfl fun _ _ => rfl
  since := foldl_enter_field rfl fun _ _ => rfl
  until_ := foldl_enter_field rfl fun _ _ => rfl
  authors := foldl_enter_field rfl fun _ _ => rfl
  limit := foldl_enter_field rfl fun _ _ => rfl
  tags_isSome := (tags_foldl_enter members).1
  lookup_tags map hmap c op := by
    rw [← (tags_foldl_enter members).2 c op, hmap, Option.getD_some]
  not_forced := by
    induction members using List.reverseRecOn with
    | nil => rfl
    | append_singleton rest last ih =>
      rw [List.foldl_concat]
      exact ih

/-- With a condition there is a map of conditions. -/
theorem Reads.exists_map {f : ReqFilter} {c : Char} {op : TagOperand} (h : Reads members f)
    (hlast : LastCondition members c op) : ∃ map, f.tags = some map := by
  obtain ⟨m, hm, hcond⟩ := hlast.exists_mem
  rw [← Option.isSome_iff_exists, h.tags_isSome, List.any_eq_true]
  exact ⟨m, hm, isTagMember_of_tagCondition hcond⟩

/-- A filter that was parsed reads as its object. -/
theorem reads_of_deserialize {f : ReqFilter} (h : deserialize (.object members) = .ok f) :
    Clean members ∧ Reads members f := by
  obtain ⟨members', hobj, hclean, rfl⟩ := deserialize_eq_ok_iff.mp h
  cases hobj
  exact ⟨hclean, reads_foldl_enter members⟩

end ReqFilter

namespace Subscription

open ReqFilter

/-- The filters up to the first one that does not parse are steady. -/
def SteadyFilters : List Json.Value → Prop
  | [] => True
  | .object members :: rest => Steady members ∧ ((∃ m ∈ members, Refused m) ∨ SteadyFilters rest)
  | _ :: _ => True

theorem deserializeFilters_ne_panic_iff {fvs : List Json.Value} :
    deserializeFilters fvs ≠ .panic ↔ SteadyFilters fvs := by
  induction fvs with
  | nil => exact ⟨fun _ => trivial, fun _ h => by cases h⟩
  | cons fv rest ih =>
    cases fv with
    | object members =>
      have hpanic : ReqFilter.deserialize (.object members) ≠ .panic ↔ Steady members :=
        foldlM_ne_panic_iff
      rw [SteadyFilters, ← hpanic, ← ih]
      rcases hf : ReqFilter.deserialize (.object members) with f | err | _
      · obtain ⟨members', hobj, hclean, -⟩ := deserialize_eq_ok_iff.mp hf
        cases hobj
        have hno : ¬ ∃ m ∈ members, Refused m := fun ⟨m, hm, hr⟩ => (hclean m hm).1 hr
        simp only [deserializeFilters, hf]
        rcases deserializeFilters rest with fs | err | _ <;> simp [hno]
      · have hrefused : ∃ m ∈ members, Refused m := by
          by_contra hno
          push Not at hno
          have hsteady : Steady members := hpanic.mp (by rw [hf]; simp)
          rw [ReqFilter.deserialize, foldlM_clean (clean_of_steady hno hsteady)] at hf
          cases hf
        simp [deserializeFilters, hf, hrefused]
      · simp [deserializeFilters, hf]
    | _ =>
      simp only [deserializeFilters, ReqFilter.deserialize, SteadyFilters]
      simp

/-- A message is an error, or a request whose filters are parsed. -/
theorem deserialize_cases (v : Json.Value) :
    (∃ err, deserialize v = .err err) ∨
    ∃ id fvs, v = .array (.string "REQ" :: .string id :: fvs) ∧
      deserialize v = (do
        let filters ← deserializeFilters fvs
        pure ⟨id, filters.destutter (· ≠ ·)⟩) := by
  rcases v with _ | _ | _ | _ | (_ | ⟨reqCmd, _ | ⟨subId, fvs⟩⟩) | _
  · exact .inl ⟨_, rfl⟩
  · exact .inl ⟨_, rfl⟩
  · exact .inl ⟨_, rfl⟩
  · exact .inl ⟨_, rfl⟩
  · exact .inl ⟨_, rfl⟩
  · exact .inl ⟨_, rfl⟩
  · by_cases hnil : fvs = []
    · exact .inl ⟨_, by rw [deserialize, if_pos hnil]⟩
    · rcases hcmd : reqCmd.toStr with _ | req
      · exact .inl ⟨_, by simp only [deserialize, if_neg hnil, hcmd]; rfl⟩
      · by_cases hreq : req = "REQ"
        · rcases hid : subId.toStr with _ | id
          · exact .inl ⟨_, by simp only [deserialize, if_neg hnil, hcmd, hreq, hid]; rfl⟩
          · subst hreq
            rw [Json.Value.toStr_eq_some] at hcmd hid
            subst hcmd hid
            refine .inr ⟨id, fvs, rfl, ?_⟩
            simp only [deserialize, if_neg hnil, Json.Value.toStr, ne_eq, not_true_eq_false,
              if_false]
        · exact .inl ⟨_, by simp only [deserialize, if_neg hnil, hcmd, if_pos hreq, ne_eq]; rfl⟩
  · exact .inl ⟨_, rfl⟩

/-- `dedup` loses no filter. -/
theorem mem_destutter {α : Type} [DecidableEq α] {l : List α} {a : α} :
    a ∈ l.destutter (· ≠ ·) ↔ a ∈ l := by
  have hdestutter' : ∀ (l : List α) (b : α), a ∈ l.destutter' (· ≠ ·) b ↔ a = b ∨ a ∈ l := by
    intro l
    induction l with
    | nil => simp
    | cons c l ih =>
      intro b
      rw [List.destutter'_cons, List.mem_cons]
      split_ifs with h
      · rw [List.mem_cons, ih]
      · rw [not_not] at h
        rw [ih, h]
        tauto
  cases l with
  | nil => simp
  | cons b l => rw [List.destutter_cons', hdestutter', List.mem_cons]

/-- The parsed filters, one for each element. -/
theorem forall₂_of_deserializeFilters {fvs : List Json.Value} {filters : List ReqFilter}
    (h : deserializeFilters fvs = .ok filters) :
    List.Forall₂ (fun fv f => ReqFilter.deserialize fv = .ok f) fvs filters := by
  induction fvs generalizing filters with
  | nil =>
    cases h
    exact .nil
  | cons fv rest ih =>
    rw [deserializeFilters] at h
    rcases hf : ReqFilter.deserialize fv with f | err | _ <;> simp only [hf] at h
    · obtain ⟨fs, hfs, heq⟩ := Outcome.bind_eq_ok h
      cases heq
      exact .cons hf (ih hfs)
    · cases h
    · cases h

/-- The filters of a request that parses, and the objects they are from. -/
theorem mem_filters_iff {v : Json.Value} {s : Subscription} (h : deserialize v = .ok s) :
    ∃ id fvs, v = .array (.string "REQ" :: .string id :: fvs) ∧
      (∀ fv ∈ fvs, ∃ f, ReqFilter.deserialize fv = .ok f) ∧
      ∀ f, f ∈ s.filters ↔ ∃ fv ∈ fvs, ReqFilter.deserialize fv = .ok f := by
  rcases deserialize_cases v with ⟨err, herr⟩ | ⟨id, fvs, rfl, hd⟩
  · rw [herr] at h
    cases h
  · rw [hd] at h
    obtain ⟨filters, hfilters, heq⟩ := Outcome.bind_eq_ok h
    cases heq
    have hall := forall₂_of_deserializeFilters hfilters
    refine ⟨id, fvs, rfl, fun fv hfv => ?_, fun f => ?_⟩
    · obtain ⟨i, hi, rfl⟩ := List.getElem_of_mem hfv
      exact ⟨_, hall.get hi (hall.length_eq ▸ hi)⟩
    · rw [mem_destutter]
      refine ⟨fun hf => ?_, ?_⟩
      · obtain ⟨i, hi, rfl⟩ := List.getElem_of_mem hf
        have hi' : i < fvs.length := hall.length_eq ▸ hi
        exact ⟨_, List.getElem_mem hi', hall.get hi' hi⟩
      · rintro ⟨fv, hfv, hf⟩
        obtain ⟨i, hi, rfl⟩ := List.getElem_of_mem hfv
        have hget := hall.get hi (hall.length_eq ▸ hi)
        rw [List.get_eq_getElem, hf] at hget
        cases hget
        exact List.getElem_mem _

/-- **Parsing a filter panics on a two-byte letter alone.** A filter panics if and only if its
object has a tag key of a letter of two bytes, with a list of strings, before any member that
is refused; a request, if and only if one of its filters does and all before it parse. -/
theorem deserialize_ne_panic_iff (v : Json.Value) :
    (ReqFilter.deserialize v ≠ .panic ↔ ∀ members, v = .object members → Steady members) ∧
    (Subscription.deserialize v ≠ .panic ↔
      ∀ id fvs, v = .array (.string "REQ" :: .string id :: fvs) → SteadyFilters fvs) := by
  refine ⟨?_, ?_⟩
  · cases v with
    | object members =>
      simp only [Json.Value.object.injEq, forall_eq']
      exact foldlM_ne_panic_iff
    | _ => exact ⟨fun _ members h => (by cases h), fun _ h => (by cases h)⟩
  · rcases deserialize_cases v with ⟨err, herr⟩ | ⟨id, fvs, rfl, hd⟩
    · refine ⟨fun _ id fvs hv => ?_, fun _ hp => ?_⟩
      · by_contra hsteady
        subst hv
        have hnil : fvs ≠ [] := by
          rintro rfl
          exact hsteady trivial
        have hfs := mt deserializeFilters_ne_panic_iff.mp hsteady
        rw [not_not] at hfs
        simp only [deserialize, if_neg hnil, Json.Value.toStr, ne_eq, not_true_eq_false, if_false,
          hfs, Outcome.panic_bind, reduceCtorEq] at herr
      · rw [herr] at hp
        cases hp
    · rw [hd]
      have hiff : deserializeFilters fvs ≠ .panic ↔ SteadyFilters fvs :=
        deserializeFilters_ne_panic_iff
      refine ⟨fun h id' fvs' heq => ?_, fun h => ?_⟩
      · cases heq
        refine hiff.mp fun hp => h ?_
        rw [hp, Outcome.panic_bind]
      · have hfs := hiff.mpr (h id fvs rfl)
        rcases hcase : deserializeFilters fvs with fs | err | _
        · exact fun hp => by cases hp
        · exact fun hp => by cases hp
        · exact absurd hcase hfs

/-- An empty list under a letter of two bytes. -/
def sampleTwoByte : Json.Value := .object [("#é", .array [])]

theorem sampleTwoByte_panics :
    ReqFilter.deserialize sampleTwoByte = .panic ∧
      Subscription.deserialize (.array [.string "REQ", .string "s", sampleTwoByte]) = .panic := by
  refine ⟨rfl, rfl⟩

end Subscription

end Floonet
