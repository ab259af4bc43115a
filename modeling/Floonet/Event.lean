import Mathlib.Data.Finmap
import Floonet.Lib.Hex
import Floonet.Lib.Json
import Floonet.Utils

/-!
# Event parsing and validation

The event record of `event.rs` with the predicates on its kind, the readings of
its tag list (`expiration`, `distinctParam`, `tagValuesByName`), the tag index a
live subscription is matched against, and the signed serialization.

Hashing and signatures come from outside the repository, so `Crypto` is a
parameter: SHA-256, the two hex parsers of the curve library and its signature
check. What the code relies on is written as laws of the structure. That SHA-256
does not collide is never assumed of all strings, only of the events of a run
(`Crypto.NoCollision`).
-/

namespace Floonet

open Hex (Bytes)

/-- Errors an event or a command can be refused with. -/
inductive Error where
  | eventInvalidSignature
  | eventInvalidId
  | eventMalformedPubkey
  | eventCouldNotCanonicalize
  | commandUnknownError
  | delegationParseError
  deriving DecidableEq

/-- Parsed nostr event. `createdAt` and `kind` are `u64` in the source. -/
structure Event where
  id : String
  pubkey : String
  /-- `#[serde(skip)]`, set by `updateDelegation` -/
  delegatedBy : Option String
  createdAt : Nat
  kind : Nat
  tags : List (List String)
  content : String
  sig : String
  /-- `#[serde(skip)]`, tag values by letter, set by `buildIndex` -/
  tagidx : Option (Finmap fun _ : Char => Finset String)

/-- Tag query is AND or OR operation. -/
inductive TagOperand where
  | and : Finset String → TagOperand
  | or : Finset String → TagOperand

/-- The value set, whatever the operation. -/
def TagOperand.values : TagOperand → Finset String
  | .and v => v
  | .or v => v

/-- Attempt to form a single-char tag name. -/
def singleCharTagname (tagname : String) : Option Char :=
  match tagname.toList with
  | [c] => some c
  | _ => none

theorem singleCharTagname_eq_some {s : String} {c : Char} :
    singleCharTagname s = some c ↔ s.toList = [c] := by
  rw [singleCharTagname]
  split
  · rename_i d h
    rw [h]
    simp
  · rename_i h
    simp only [reduceCtorEq, false_iff]
    exact h c

namespace Event

/-! ## Kinds -/

/-- The event is a profile of its author. -/
def isKindMetadata (e : Event) : Bool := e.kind == 0

/-- Should this event be persisted? -/
def isEphemeral (e : Event) : Bool := 20000 ≤ e.kind && e.kind < 30000

/-- Should this event be replaced with newer timestamps from same author? -/
def isReplaceable (e : Event) : Bool :=
  e.kind == 0 || e.kind == 3 || e.kind == 41 || (10000 ≤ e.kind && e.kind < 20000)

/-- Should this event be replaced with newer timestamps from same author, for
distinct `d` tag values? -/
def isParamReplaceable (e : Event) : Bool := 30000 ≤ e.kind && e.kind < 40000

theorem isReplaceable_iff {e : Event} : e.isReplaceable = true ↔
    e.kind = 0 ∨ e.kind = 3 ∨ e.kind = 41 ∨ (10000 ≤ e.kind ∧ e.kind < 20000) := by
  simp only [isReplaceable, Bool.or_eq_true, Bool.and_eq_true, beq_iff_eq, decide_eq_true_eq,
    or_assoc]

theorem isParamReplaceable_iff {e : Event} : e.isParamReplaceable = true ↔
    30000 ≤ e.kind ∧ e.kind < 40000 := by
  simp only [isParamReplaceable, Bool.and_eq_true, decide_eq_true_eq]

/-! ## Tags -/

/-- The second element of the first tag with this name, the empty string where
that tag has none. Both `expiration` and `distinctParam` read the tag list this
way. -/
def firstTagValue (e : Event) (name : String) : Option String :=
  ((((e.tags.filter fun x => !x.isEmpty).filter fun x => x.head? == some name).map
    fun x => (x[1]?).getD "").take 1).head?

/-- Determine the time at which this event should expire. -/
def expiration (e : Event) : Option Nat := (e.firstTagValue "expiration").bind parseU64

/-- Is this event expired at `now`? -/
def isExpired (e : Event) (now : Nat) : Bool :=
  match e.expiration with
  | some exp => exp ≤ now
  | none => false

/-- Is the time of this event at most that far ahead of `now`? The sum is one of `u64`. -/
def isValidTimestamp (e : Event) (now : Nat) (rejectFutureSeconds : Option Nat) : Bool :=
  match rejectFutureSeconds with
  | some allowableFuture => !decide ((now + allowableFuture) % 2 ^ 64 < e.createdAt)
  | none => true

/-- The coordinate of a parameterized replaceable event: its first `d` tag,
which counts as empty when it has no value or there is none at all. -/
def distinctParam (e : Event) : Option String :=
  if e.isParamReplaceable then
    match e.firstTagValue "d" with
    | some v => some v
    | none => some ""
  else none

/-- Retrieve tag initial values across all tags matching the name. -/
def tagValuesByName (e : Event) (tagName : String) : List String :=
  ((e.tags.filter fun x => 1 < x.length).filter fun x => x.head? == some tagName).map
    fun x => (x[1]?).getD ""

/-- The name and value of a tag that is searchable: two elements at least and a
name of one character. -/
def searchable : List String → Option (String × String)
  | name :: value :: _ => if (singleCharTagname name).isSome then some (name, value) else none
  | _ => none

/-- The searchable tags, in order and with repetitions. -/
def searchableTags (e : Event) : List (String × String) := e.tags.filterMap searchable

/-- One turn of the indexing loop. -/
def indexTag (idx : Finmap fun _ : Char => Finset String) (t : List String) :
    Finmap fun _ : Char => Finset String :=
  match t with
  | name :: value :: _ =>
    match singleCharTagname name with
    | some c => idx.insert c (insert value ((idx.lookup c).getD ∅))
    | none => idx
  | _ => idx

/-- Build an event tag index. -/
def buildIndex (e : Event) : Event :=
  if e.tags.isEmpty then e else { e with tagidx := some (e.tags.foldl indexTag ∅) }

/-- Determine if the given tag and value set intersect with tags in this event. -/
def genericTagValIntersect (e : Event) (tagname : Char) (check : TagOperand) : Bool :=
  match e.tagidx with
  | some idx =>
    match idx.lookup tagname with
    | some valset =>
      match check with
      | .and v => (valset ∩ v).card == v.card
      | .or v => 0 < (valset ∩ v).card
    | none => false
  | none => false

/-- A single-char name is the one-letter string of its character. -/
theorem singleCharTagname_iff {s : String} {c : Char} :
    singleCharTagname s = some c ↔ s = String.singleton c := by
  rw [singleCharTagname_eq_some, ← String.toList_inj, String.toList_singleton]

/-- A searchable tag has a name of one character and a value. -/
theorem mem_searchableTags {e : Event} {name value : String} :
    (name, value) ∈ e.searchableTags ↔
      ∃ rest, name :: value :: rest ∈ e.tags ∧ (singleCharTagname name).isSome = true := by
  rw [searchableTags, List.mem_filterMap]
  refine ⟨?_, ?_⟩
  · rintro ⟨t, ht, hs⟩
    match t, hs with
    | n :: v :: rest, hs =>
      simp only [searchable] at hs
      split_ifs at hs with hn
      simp only [Option.some.injEq, Prod.mk.injEq] at hs
      obtain ⟨rfl, rfl⟩ := hs
      exact ⟨rest, ht, hn⟩
  · rintro ⟨rest, ht, hn⟩
    exact ⟨_, ht, by simp only [searchable, hn, if_true]⟩

/-- A value read by `tagValuesByName` under a one-letter name is a searchable
tag. -/
theorem mem_tagValuesByName {e : Event} {name value : String}
    (hn : (singleCharTagname name).isSome = true) :
    value ∈ e.tagValuesByName name ↔ (name, value) ∈ e.searchableTags := by
  rw [mem_searchableTags, tagValuesByName, List.mem_map]
  refine ⟨?_, ?_⟩
  · rintro ⟨t, ht, rfl⟩
    simp only [List.mem_filter, beq_iff_eq, decide_eq_true_eq] at ht
    match t, ht with
    | n :: v :: rest, ⟨⟨hmem, _⟩, hh⟩ =>
      obtain rfl : n = name := Option.some.inj hh
      exact ⟨rest, hmem, hn⟩
  · rintro ⟨rest, ht, -⟩
    refine ⟨name :: value :: rest, ?_, rfl⟩
    simp only [List.mem_filter, beq_iff_eq, decide_eq_true_eq]
    exact ⟨⟨ht, by simp⟩, rfl⟩

/-! ## The tag index -/

/-- The values the index holds under a letter, the empty set where the letter
is absent. -/
def indexed (idx : Finmap fun _ : Char => Finset String) (c : Char) : Finset String :=
  (idx.lookup c).getD ∅

/-- One turn of the loop adds the value of a searchable tag under its letter. -/
theorem mem_indexed_indexTag (idx : Finmap fun _ : Char => Finset String) (t : List String)
    (c : Char) (v : String) :
    v ∈ indexed (indexTag idx t) c ↔
      v ∈ indexed idx c ∨ searchable t = some (String.singleton c, v) := by
  match t with
  | [] => simp [indexTag, searchable]
  | [_] => simp [indexTag, searchable]
  | name :: value :: rest =>
    rcases hn : singleCharTagname name with _ | d
    · simp [indexTag, searchable, hn]
    · obtain rfl := singleCharTagname_iff.mp hn
      simp only [indexTag, searchable, hn, Option.isSome_some, if_true, indexed,
        Option.some.injEq, Prod.mk.injEq]
      by_cases hcd : c = d
      · subst hcd
        rw [Finmap.lookup_insert, Option.getD_some, Finset.mem_insert]
        refine ⟨?_, ?_⟩
        · rintro (rfl | h)
          · exact Or.inr ⟨rfl, rfl⟩
          · exact Or.inl h
        · rintro (h | ⟨-, rfl⟩)
          · exact Or.inr h
          · exact Or.inl rfl
      · rw [Finmap.lookup_insert_of_ne _ hcd]
        have : String.singleton d ≠ String.singleton c := by
          rw [Ne, ← String.toList_inj, String.toList_singleton, String.toList_singleton]
          exact fun h => hcd (List.cons.inj h).1.symm
        simp [this]

/-- The index has the searchable tags, and what it had before. -/
theorem mem_indexed_foldl (tags : List (List String))
    (idx : Finmap fun _ : Char => Finset String) (c : Char) (v : String) :
    v ∈ indexed (tags.foldl indexTag idx) c ↔
      v ∈ indexed idx c ∨ ∃ t ∈ tags, searchable t = some (String.singleton c, v) := by
  induction tags generalizing idx with
  | nil => simp
  | cons t tags ih =>
    rw [List.foldl_cons, ih, mem_indexed_indexTag, List.exists_mem_cons_iff, or_assoc]

/-- A letter is in the index only with a value. -/
theorem lookup_foldl_nonempty (tags : List (List String)) (c : Char) :
    ∀ idx : Finmap fun _ : Char => Finset String,
      (∀ s, idx.lookup c = some s → s.Nonempty) →
      ∀ s, (tags.foldl indexTag idx).lookup c = some s → s.Nonempty := by
  induction tags with
  | nil => exact fun _ h => h
  | cons t tags ih =>
    intro idx h
    refine ih _ ?_
    intro s hs
    match t, hs with
    | [], hs => exact h s hs
    | [_], hs => exact h s hs
    | name :: value :: rest, hs =>
      rcases hn : singleCharTagname name with _ | d
      · simp only [indexTag, hn] at hs
        exact h s hs
      · simp only [indexTag, hn] at hs
        by_cases hcd : c = d
        · subst hcd
          rw [Finmap.lookup_insert, Option.some.injEq] at hs
          exact ⟨value, by rw [← hs]; exact Finset.mem_insert_self ..⟩
        · rw [Finmap.lookup_insert_of_ne _ hcd] at hs
          exact h s hs

/-- The values found under a letter of a freshly indexed event. -/
theorem mem_indexed_buildIndex {e : Event} {c : Char} {v : String} :
    v ∈ indexed (e.tags.foldl indexTag ∅) c ↔ (String.singleton c, v) ∈ e.searchableTags := by
  rw [mem_indexed_foldl, searchableTags, List.mem_filterMap]
  simp [indexed]

/-- Matching against the index is a scan of the tag list. -/
theorem genericTagValIntersect_buildIndex {e : Event} (hidx : e.tagidx = none) (c : Char)
    (op : TagOperand) :
    e.buildIndex.genericTagValIntersect c op = true ↔
      match op with
      | .and v => (∃ x, (String.singleton c, x) ∈ e.searchableTags) ∧
          ∀ x ∈ v, (String.singleton c, x) ∈ e.searchableTags
      | .or v => ∃ x ∈ v, (String.singleton c, x) ∈ e.searchableTags := by
  by_cases ht : e.tags = []
  · have hs : e.searchableTags = [] := by rw [searchableTags, ht]; rfl
    have : e.buildIndex.genericTagValIntersect c op = false := by
      simp [buildIndex, ht, genericTagValIntersect, hidx]
    rw [this, hs]
    cases op <;> simp
  · have hb : e.buildIndex.tagidx = some (e.tags.foldl indexTag ∅) := by
      simp [buildIndex, ht]
    have hmem := fun v => mem_indexed_buildIndex (e := e) (c := c) (v := v)
    have hne := lookup_foldl_nonempty e.tags c ∅ (by simp)
    simp only [genericTagValIntersect, hb]
    simp only [indexed] at hmem
    rcases hl : (e.tags.foldl indexTag ∅).lookup c with _ | valset
    · -- the letter is absent: no tag carries it
      simp only [hl, Option.getD_none, Finset.notMem_empty, false_iff] at hmem
      cases op <;> simp [hmem]
    · simp only [hl, Option.getD_some] at hmem
      obtain ⟨x, hx⟩ := hne valset hl
      cases op with
      | and v =>
        simp only [beq_iff_eq]
        refine ⟨?_, ?_⟩
        · intro hc
          have hsub : v ⊆ valset := by
            have : valset ∩ v = v := Finset.eq_of_subset_of_card_le Finset.inter_subset_right hc.ge
            exact Finset.inter_eq_right.mp this
          exact ⟨⟨x, (hmem x).mp hx⟩, fun y hy => (hmem y).mp (hsub hy)⟩
        · rintro ⟨-, hall⟩
          rw [Finset.inter_eq_right.mpr fun y hy => (hmem y).mpr (hall y hy)]
      | or v =>
        simp only [decide_eq_true_eq, Finset.card_pos]
        refine ⟨?_, ?_⟩
        · rintro ⟨y, hy⟩
          rw [Finset.mem_inter] at hy
          exact ⟨y, hy.2, (hmem y).mp hy.1⟩
        · rintro ⟨y, hy, hy'⟩
          exact ⟨y, Finset.mem_inter.mpr ⟨(hmem y).mpr hy', hy⟩⟩

/-- The tag index is the one that `buildIndex` makes of the tags. -/
def Indexed (e : Event) : Prop := e.tagidx = ({ e with tagidx := none } : Event).buildIndex.tagidx

/-- Matching looks at the index only, so that of an indexed event is a scan of its tags. -/
theorem Indexed.genericTagValIntersect {e : Event} (h : e.Indexed) (c : Char) (op : TagOperand) :
    e.genericTagValIntersect c op = true ↔
      match op with
      | .and v => (∃ x, (String.singleton c, x) ∈ e.searchableTags) ∧
          ∀ x ∈ v, (String.singleton c, x) ∈ e.searchableTags
      | .or v => ∃ x ∈ v, (String.singleton c, x) ∈ e.searchableTags := by
  have hbuild := genericTagValIntersect_buildIndex (e := { e with tagidx := none }) rfl c op
  have heq : ({ e with tagidx := none } : Event).buildIndex.genericTagValIntersect c op =
      e.genericTagValIntersect c op := by
    rw [Event.genericTagValIntersect, Event.genericTagValIntersect, ← h]
  rw [← heq, hbuild]
  rfl

/-- Building the index of an event that has none gives it its index. -/
theorem indexed_buildIndex {e : Event} (h : e.tagidx = none) : e.buildIndex.Indexed := by
  rw [Indexed, buildIndex]
  split_ifs with ht <;> simp [buildIndex, ht, h]

/-! ## The signed serialization -/

/-- Convert tags to a canonical form for signing. -/
def tagsToCanonical (e : Event) : Json.Value :=
  .array (e.tags.map fun t => .array (t.map .string))

/-- Convert event to canonical representation for signing. -/
def toCanonical (e : Event) : Option String :=
  some (Json.toText (.array [.number (.posInt 0), .string e.pubkey, .number (.posInt e.createdAt),
    .number (.posInt e.kind), e.tagsToCanonical, .string e.content]))

/-- What `serde_json::to_string` keeps of an event: the `#[serde(skip)]` fields
are dropped. A stored row holds its event in this form. -/
def serialized (e : Event) : Event := { e with delegatedBy := none, tagidx := none }

/-- The members `#[derive(Serialize)]` writes. -/
def toJson (e : Event) : Json.Value :=
  .object [("id", .string e.id), ("pubkey", .string e.pubkey),
    ("created_at", .number (.posInt e.createdAt)), ("kind", .number (.posInt e.kind)),
    ("tags", e.tagsToCanonical), ("content", .string e.content), ("sig", .string e.sig)]

/-- `serde_json::to_string`. -/
def eventStr (e : Event) : String := Json.toText e.toJson

/-- Agreement on everything that is signed. -/
structure SameBody (e f : Event) : Prop where
  pubkey : e.pubkey = f.pubkey
  createdAt : e.createdAt = f.createdAt
  kind : e.kind = f.kind
  tags : e.tags = f.tags
  content : e.content = f.content

/-- The text of the tag list is a bracketed list of bracketed lists of strings. -/
theorem render_tagsToCanonical (e : Event) :
    Json.render e.tagsToCanonical = Json.renderList (Json.renderList Json.renderString) e.tags := by
  rw [tagsToCanonical, Json.render_array_map]
  congr 1
  funext t
  rw [Json.render_array_map]
  congr 1

/-- The signed text determines everything that is signed. -/
theorem sameBody_of_toCanonical {e f : Event} {c : String} (he : e.toCanonical = some c)
    (hf : f.toCanonical = some c) : e.SameBody f := by
  have h := (Option.some.inj he).trans (Option.some.inj hf).symm
  rw [Json.toText, Json.toText, ← String.toList_inj, String.toList_ofList,
    String.toList_ofList] at h
  simp only [Json.render, Json.renderItems, render_tagsToCanonical, Json.renderNumber] at h
  have h0 := (Json.toDigits_comma_inj (List.cons.inj h).2).2
  obtain ⟨hp, h1⟩ := Json.uniquelyReadable_renderString _ _ _ _ h0
  obtain ⟨hc, h2⟩ := Json.toDigits_comma_inj (List.cons.inj h1).2
  obtain ⟨hk, h3⟩ := Json.toDigits_comma_inj h2
  obtain ⟨ht, h4⟩ := Json.uniquelyReadable_renderList
    (Json.uniquelyReadable_renderList Json.uniquelyReadable_renderString Json.opens_renderString)
    (Json.opens_renderList _) _ _ _ _ h3
  obtain ⟨hcont, -⟩ := Json.uniquelyReadable_renderString _ _ _ _ (List.cons.inj h4).2
  exact ⟨hp, hc, hk, ht, hcont⟩

/-- The text of an event determines everything that is written. -/
theorem serialized_of_eventStr {e f : Event} (h : e.eventStr = f.eventStr) :
    e.serialized = f.serialized := by
  rw [eventStr, eventStr, Json.toText, Json.toText, ← String.toList_inj, String.toList_ofList,
    String.toList_ofList] at h
  simp only [toJson, Json.render, Json.renderMembers, render_tagsToCanonical, Json.renderNumber,
    List.append_assoc, List.cons_append, List.cons.injEq, true_and, List.append_cancel_left_eq]
    at h
  obtain ⟨hid, h⟩ := Json.uniquelyReadable_renderString _ _ _ _ h
  simp only [List.cons.injEq, true_and, List.append_cancel_left_eq] at h
  obtain ⟨hpk, h⟩ := Json.uniquelyReadable_renderString _ _ _ _ h
  simp only [List.cons.injEq, true_and, List.append_cancel_left_eq] at h
  obtain ⟨hcreated, h⟩ := Json.toDigits_comma_inj h
  simp only [List.append_cancel_left_eq, List.cons.injEq, true_and] at h
  obtain ⟨hkind, h⟩ := Json.toDigits_comma_inj h
  simp only [List.append_cancel_left_eq, List.cons.injEq, true_and] at h
  obtain ⟨htags, h⟩ := Json.uniquelyReadable_renderList
    (Json.uniquelyReadable_renderList Json.uniquelyReadable_renderString Json.opens_renderString)
    (Json.opens_renderList _) _ _ _ _ h
  simp only [List.cons.injEq, true_and, List.append_cancel_left_eq] at h
  obtain ⟨hcontent, h⟩ := Json.uniquelyReadable_renderString _ _ _ _ h
  simp only [List.cons.injEq, true_and, List.append_cancel_left_eq] at h
  obtain ⟨hsig, -⟩ := Json.uniquelyReadable_renderString _ _ _ _ h
  simp only [serialized, hid, hpk, hcreated, hkind, htags, hcontent, hsig]

end Event

/-! ## Validation -/

/-- The hash and signature library. -/
structure Crypto where
  /-- SHA-256 of the UTF-8 text -/
  sha256 : String → Bytes
  /-- a digest has 32 bytes -/
  sha256_length : ∀ s, (sha256 s).length = 32
  /-- `schnorr::Signature::from_str` -/
  signatureFromStr : String → Option Bytes
  /-- `secp256k1::Message::from_slice` -/
  messageFromSlice : Bytes → Option Bytes
  /-- `XOnlyPublicKey::from_str` -/
  xOnlyPublicKeyFromStr : String → Option Bytes
  /-- a key is parsed from the hex text, in either case, of its 32 bytes -/
  xOnlyPublicKeyFromStr_hex : ∀ {s k}, xOnlyPublicKeyFromStr s = some k →
    Hex.decode s = some k ∧ k.length = 32
  /-- `verify_schnorr` on signature, message and key -/
  verifySchnorr : Bytes → Bytes → Bytes → Bool

/-- Check if this event has a valid signature. -/
def Event.validate (crypto : Crypto) (e : Event) : Except Error Unit :=
  match e.toCanonical with
  | none => .error .eventCouldNotCanonicalize
  | some c =>
    let digest := crypto.sha256 c
    if e.id ≠ Hex.encode digest then .error .eventInvalidId
    else
      match crypto.signatureFromStr e.sig with
      | none => .error .eventInvalidSignature
      | some sig =>
        match crypto.messageFromSlice digest with
        | some msg =>
          match crypto.xOnlyPublicKeyFromStr e.pubkey with
          | some pubkey =>
            if crypto.verifySchnorr sig msg pubkey then .ok ()
            else .error .eventInvalidSignature
          | none => .error .eventMalformedPubkey
        | none => .error .eventInvalidSignature

/-- The event passed `validate`. -/
def Event.Validated (crypto : Crypto) (e : Event) : Prop := e.validate crypto = .ok ()

/-- No two of these events have different serializations with one digest. -/
def Crypto.NoCollision (crypto : Crypto) (es : List Event) : Prop :=
  ∀ e ∈ es, ∀ f ∈ es, e.toCanonical.map crypto.sha256 = f.toCanonical.map crypto.sha256 →
    e.toCanonical = f.toCanonical

namespace Event.Validated

variable {crypto : Crypto} {e f : Event}

/-- What a passing event is made of. -/
theorem intro {c : String} {sig msg key : Bytes} (hc : e.toCanonical = some c)
    (hid : e.id = Hex.encode (crypto.sha256 c)) (hsig : crypto.signatureFromStr e.sig = some sig)
    (hmsg : crypto.messageFromSlice (crypto.sha256 c) = some msg)
    (hkey : crypto.xOnlyPublicKeyFromStr e.pubkey = some key)
    (hver : crypto.verifySchnorr sig msg key = true) : e.Validated crypto := by
  rw [Validated, validate, hc]
  simp only [if_neg (not_not.mpr hid), hsig, hmsg, hkey, hver, if_true]

/-- The index is not signed. -/
theorem buildIndex (h : e.Validated crypto) : e.buildIndex.Validated crypto := by
  rw [Event.buildIndex]
  split_ifs
  · exact h
  · exact h

/-- Inversion for `validate`: the id is the lower-case digest and the key parses. -/
theorem inv (h : e.Validated crypto) :
    ∃ c key, e.toCanonical = some c ∧ e.id = Hex.encode (crypto.sha256 c) ∧
      crypto.xOnlyPublicKeyFromStr e.pubkey = some key := by
  rw [Validated, validate] at h
  rcases hc : e.toCanonical with _ | c <;> simp only [hc] at h
  · cases h
  · split_ifs at h with hid
    rcases hs : crypto.signatureFromStr e.sig with _ | sig <;> simp only [hs] at h
    · cases h
    · rcases hm : crypto.messageFromSlice (crypto.sha256 c) with _ | msg <;> simp only [hm] at h
      · cases h
      · rcases hk : crypto.xOnlyPublicKeyFromStr e.pubkey with _ | key <;> simp only [hk] at h
        · cases h
        · exact ⟨c, key, rfl, not_not.mp hid, rfl⟩

/-- A validated id is hex for 32 bytes. -/
theorem exists_decode_id (h : e.Validated crypto) :
    ∃ hash, Hex.decode e.id = some hash ∧ hash.length = 32 := by
  obtain ⟨c, -, -, hid, -⟩ := h.inv
  exact ⟨crypto.sha256 c, by rw [hid, Hex.decode_encode], crypto.sha256_length c⟩

/-- A validated id is in lower case. -/
theorem isLowerHex_id (h : e.Validated crypto) : isLowerHex e.id = true := by
  obtain ⟨c, -, -, hid, -⟩ := h.inv
  rw [hid]
  exact isLowerHex_encode _

theorem byteLen_id (h : e.Validated crypto) : byteLen e.id = 64 := by
  obtain ⟨c, -, -, hid, -⟩ := h.inv
  rw [hid, byteLen_encode, crypto.sha256_length]

/-- A validated author is hex for 32 bytes. -/
theorem exists_decode_pubkey (h : e.Validated crypto) :
    ∃ key, Hex.decode e.pubkey = some key ∧ key.length = 32 := by
  obtain ⟨-, key, -, -, hk⟩ := h.inv
  exact ⟨key, crypto.xOnlyPublicKeyFromStr_hex hk⟩

/-- Validated events with one id bytes have one id text. -/
theorem id_eq_of_decode (he : e.Validated crypto) (hf : f.Validated crypto)
    (h : Hex.decode e.id = Hex.decode f.id) : e.id = f.id := by
  obtain ⟨hash, hhash, -⟩ := he.exists_decode_id
  exact Floonet.eq_of_decode_eq he.isLowerHex_id hf.isLowerHex_id hhash (h ▸ hhash)

/-- Without collisions, the id of a validated event determines what is signed. -/
theorem sameBody {es : List Event} (hn : crypto.NoCollision es) (hes : e ∈ es) (hfs : f ∈ es)
    (he : e.Validated crypto) (hf : f.Validated crypto) (h : e.id = f.id) : e.SameBody f := by
  obtain ⟨c, -, hc, hid, -⟩ := he.inv
  obtain ⟨d, -, hd, hid', -⟩ := hf.inv
  have hdig : crypto.sha256 c = crypto.sha256 d := by
    rw [hid, hid'] at h
    simpa using congrArg Hex.decode h
  have hcd := hn e hes f hfs (by rw [hc, hd, Option.map_some, Option.map_some, hdig])
  exact sameBody_of_toCanonical hc (hcd ▸ hc)

end Event.Validated

end Floonet
