import Mathlib.Data.List.Destutter
import Mathlib.Data.String.Basic
import Floonet.Lib.Outcome
import Floonet.Event

/-!
# Subscription and filter parsing

`ReqFilter` is one client-provided filter, with its deserializer and the live
match `interestedInEvent` that decides whether a fresh event goes to an open
subscription. A field that does not parse is treated as absent; a tag condition
keeps only keys of one letter, `#e` for any of the values and `#e&` for all of
them.

Ids and authors are matched as the start of the event's field. For the full hex
strings clients send, that is equality (`prefixMatch_iff`).
-/

namespace Floonet

/-- Tag letters and tag values are sorted in their usual order. -/
instance instTransChar : IsTrans Char (· ≤ ·) := inferInstance

@[inherit_doc instTransChar] instance instTransString : IsTrans String (· ≤ ·) := inferInstance

@[inherit_doc instTransChar] instance instAntisymmString : Std.Antisymm fun a b : String => a ≤ b :=
  inferInstance

/-- Filter for requests. A field that is absent is ignored. -/
structure ReqFilter where
  /-- event hashes -/
  ids : Option (List String)
  /-- event kinds -/
  kinds : Option (List Nat)
  /-- events published after this time -/
  since : Option Nat
  /-- events published before this time -/
  until_ : Option Nat
  /-- author public keys -/
  authors : Option (List String)
  /-- limit number of results -/
  limit : Option Nat
  /-- set of tags -/
  tags : Option (Finmap fun _ : Char => TagOperand)
  /-- force no matches due to malformed data -/
  forceNoMatch : Bool

namespace ReqFilter

/-! ## The deserializer -/

/-- The filter the deserializer starts from. -/
def initial : ReqFilter where
  ids := none
  kinds := none
  since := none
  until_ := none
  authors := none
  limit := none
  tags := none
  forceNoMatch := false

/-- `serde::de::Error::invalid_type` with an expected JSON object. -/
def invalidType (unexpected : String) : String :=
  "invalid type: " ++ unexpected ++ ", expected a json object"

/-- A list of ids or authors. An empty string among them would match everything
and is an error; anything that is not a list of strings counts as absent. -/
def deserializeHexes (val : Json.Value) : Outcome String (Option (List String)) :=
  match val.toItems Json.Value.toStr with
  | some a =>
    if a.contains "" then .err (invalidType "prefix matches must not be empty strings")
    else .ok (some a)
  | none => .ok none

/-- The operand of a tag key, which is two or three bytes long. -/
def deserializeOperand (key : String) (hs : Finset String) : Outcome String (Option TagOperand) :=
  if byteLen key = 2 then .ok (some (.or hs))
  else if byteLen key = 3 then do
    -- a two-byte letter leaves no third character to look at
    let c ← Outcome.unwrap key.toList[2]?
    pure (if c = '&' then some (.and hs) else none)
  else .ok none

/-- The tag conditions after one more tag key. -/
def deserializeTag (ts : Option (Finmap fun _ : Char => TagOperand)) (key : String)
    (val : Json.Value) : Outcome String (Finmap fun _ : Char => TagOperand) := do
  let m := ts.getD ∅
  match val.toItems Json.Value.toStr with
  | some v => do
    let hsOp ← deserializeOperand key v.toFinset
    match hsOp with
    | some op => do
      let c ← Outcome.unwrap key.toList[1]?
      pure (m.insert c op)
    | none => pure m
  | none => pure m

/-- One turn of the loop over the members of the object. -/
def deserializeMember (rf : ReqFilter) (member : String × Json.Value) :
    Outcome String ReqFilter :=
  let (key, val) := member
  if key = "ids" then do
    let ids ← deserializeHexes val
    pure { rf with ids }
  else if key = "kinds" then .ok { rf with kinds := val.toItems Json.Value.toU64 }
  else if key = "since" then .ok { rf with since := val.toU64 }
  else if key = "until" then .ok { rf with until_ := val.toU64 }
  else if key = "limit" then .ok { rf with limit := val.toU64 }
  else if key = "authors" then do
    let authors ← deserializeHexes val
    pure { rf with authors }
  else if key.toList.head? = some '#' && 1 < byteLen key && byteLen key < 4 && val.isArray then do
    let ts ← deserializeTag rf.tags key val
    pure { rf with tags := some ts }
  else .ok rf

/-- `ReqFilter::deserialize`. -/
def deserialize (received : Json.Value) : Outcome String ReqFilter :=
  match received with
  | .object filter => filter.foldlM deserializeMember initial
  | _ => .err (invalidType "reqfilter is not an object")

/-! ## The live match -/

/-- Some string of the list starts the target. -/
def prefixMatch (prefixes : List String) (target : String) : Bool :=
  prefixes.any fun p => p.toList.isPrefixOf target.toList

/-- The id starts with one of those asked for, if any are. -/
def idsMatch (f : ReqFilter) (event : Event) : Bool :=
  f.ids.all fun vs => prefixMatch vs event.id

/-- The author starts with one of those asked for, if any are. -/
def authorsMatch (f : ReqFilter) (event : Event) : Bool :=
  f.authors.all fun vs => prefixMatch vs event.pubkey

/-- The delegator starts with one of the authors asked for, if any are. -/
def delegatedAuthorsMatch (f : ReqFilter) (event : Event) : Bool :=
  match event.delegatedBy with
  | some delegatedPubkey => f.authors.all fun vs => prefixMatch vs delegatedPubkey
  | none => false

/-- Every tag condition is met. -/
def tagMatch (f : ReqFilter) (event : Event) : Bool :=
  f.tags.all fun map => map.all fun key val => event.genericTagValIntersect key val

/-- Check if this filter either matches, or does not care about the kind. -/
def kindMatch (f : ReqFilter) (kind : Nat) : Bool := f.kinds.all fun ks => ks.contains kind

/-- Determine if all populated fields in this filter match the provided event. -/
def interestedInEvent (f : ReqFilter) (event : Event) : Bool :=
  f.idsMatch event && (f.since.all fun t => decide (t ≤ event.createdAt)) &&
    (f.until_.all fun t => decide (event.createdAt ≤ t)) && f.kindMatch event.kind &&
    (f.authorsMatch event || f.delegatedAuthorsMatch event) && f.tagMatch event &&
    !f.forceNoMatch

/-! ## Maps -/

/-- A fold of conjunctions is a conjunction. -/
theorem foldl_and {α : Type} (p : α → Bool) (l : List α) (b : Bool) :
    l.foldl (fun x a => x && p a) b = (b && l.all p) := by
  induction l generalizing b with
  | nil => rw [List.foldl_nil, List.all_nil, Bool.and_true]
  | cons a l ih => rw [List.foldl_cons, ih, List.all_cons, Bool.and_assoc]

/-- A test of all entries of a map is a test of what lookups find. -/
theorem finmap_all_iff {α β : Type} [DecidableEq α] {p : α → β → Bool}
    {m : Finmap fun _ : α => β} :
    m.all p = true ↔ ∀ key val, m.lookup key = some val → p key val = true := by
  induction m using Finmap.induction_on with
  | H s =>
    have hfold : (AList.toFinmap s).all p =
        s.entries.foldl (fun x kv => x && p kv.1 kv.2) true := rfl
    rw [hfold, foldl_and, Bool.true_and, List.all_eq_true]
    refine ⟨?_, ?_⟩
    · intro h key val hl
      rw [Finmap.lookup_toFinmap] at hl
      exact h ⟨key, val⟩ (AList.mem_lookup_iff.mp hl)
    · rintro h ⟨key, val⟩ hmem
      refine h key val ?_
      rw [Finmap.lookup_toFinmap]
      exact AList.mem_lookup_iff.mpr hmem

/-- The filter's tag conditions, one by one. -/
theorem tagMatch_iff {f : ReqFilter} {event : Event} :
    f.tagMatch event = true ↔
      ∀ map, f.tags = some map → ∀ key val, map.lookup key = some val →
        event.genericTagValIntersect key val = true := by
  rw [tagMatch]
  rcases f.tags with _ | map
  · simp
  · rw [Option.all_some, finmap_all_iff]
    simp only [Option.some.injEq, forall_eq']

/-! ## Full hex strings -/

/-- Lower-case hex for 32 bytes. -/
def FullHex (s : String) : Prop := isLowerHex s = true ∧ byteLen s = 64

theorem FullHex.length {s : String} (h : FullHex s) : s.toList.length = 64 := by
  rw [← byteLen_of_isHex (isHex_of_isLowerHex h.1), h.2]

/-- Among full hex strings, a match of the start is equality. -/
theorem prefixMatch_iff {vs : List String} {target : String} (hvs : ∀ v ∈ vs, FullHex v)
    (ht : FullHex target) : prefixMatch vs target = true ↔ target ∈ vs := by
  rw [prefixMatch, List.any_eq_true]
  refine ⟨?_, ?_⟩
  · rintro ⟨v, hv, hp⟩
    have hpre := List.isPrefixOf_iff_prefix.mp hp
    have heq := hpre.eq_of_length ((hvs v hv).length.trans ht.length.symm)
    rwa [← String.toList_inj.mp heq]
  · exact fun h => ⟨target, h, List.isPrefixOf_iff_prefix.mpr (List.prefix_refl _)⟩

/-- A full hex string stands for bytes, and different ones for different bytes. -/
theorem mem_iff_decode {vs : List String} {s : String} {bs : Hex.Bytes}
    (hvs : ∀ v ∈ vs, FullHex v) (hs : FullHex s) (hd : Hex.decode s = some bs) :
    s ∈ vs ↔ some bs ∈ vs.map Hex.decode := by
  rw [List.mem_map]
  refine ⟨?_, ?_⟩
  · exact fun h => ⟨s, h, hd⟩
  · rintro ⟨v, hv, hdv⟩
    rwa [eq_of_decode_eq hs.1 (hvs v hv).1 hd hdv]

end ReqFilter

/-! ## Subscriptions -/

deriving instance DecidableEq for TagOperand

deriving instance DecidableEq for ReqFilter

/-- Subscription identifier and set of request filters. -/
structure Subscription where
  id : String
  filters : List ReqFilter
  deriving DecidableEq

namespace Subscription

/-- Get a copy of the subscription identifier. -/
def getId (s : Subscription) : String := s.id

/-- Determine if any filter is requesting historical (database) queries. -/
def needsHistoricalEvents (s : Subscription) : Bool := s.filters.any fun f => f.limit != some 0

/-- Determine if this subscription matches a given event. Any individual filter
match is sufficient. -/
def interestedInEvent (s : Subscription) (event : Event) : Bool :=
  s.filters.any fun f => f.interestedInEvent event

/-- How precise a filter is, for `isScraper`. -/
def precision (f : ReqFilter) : Nat :=
  (if f.ids.isSome then 2 else 0) + (if f.authors.isSome then 1 else 0) +
    (if f.kinds.isSome then 1 else 0) + (if f.tags.isSome then 1 else 0)

/-- Is this subscription defined as a scraper query? -/
def isScraper (s : Subscription) : Bool := s.filters.any fun f => precision f < 2

/-! ## The deserializer -/

/-- Convert each of the remaining elements into a filter. -/
def deserializeFilters : List Json.Value → Outcome String (List ReqFilter)
  | [] => .ok []
  | fv :: rest =>
    match ReqFilter.deserialize fv with
    | .err _ => .err "could not parse filter"
    | .panic => .panic
    | .ok f => do
      let filters ← deserializeFilters rest
      pure (f :: filters)

/-- `Subscription::deserialize`: a 3-or-more element array of the command, the
subscription id and the filters, without repeated neighbours. -/
def deserialize (v : Json.Value) : Outcome String Subscription :=
  match v with
  | .array (reqCmd :: subId :: fvs) =>
    if fvs = [] then .err "not enough fields"
    else
      match reqCmd.toStr with
      | none => .err "first element of request was not a string"
      | some req =>
        if req ≠ "REQ" then .err "missing REQ command"
        else
          match subId.toStr with
          | none => .err "missing subscription id"
          | some subId => do
            let filters ← deserializeFilters fvs
            pure ⟨subId, filters.destutter (· ≠ ·)⟩
  | .array _ => .err "not enough fields"
  | _ => .err "not array"

end Subscription

end Floonet
