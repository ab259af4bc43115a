import Floonet.Sqlite.Query
import Floonet.Postgres.Expiry
import Floonet.Postgres.Multiplicity
import Floonet.Postgres.Values

/-!
# Stored queries and live matching on Postgres

What the query of a filter selects of an event is what the filter matches live, delegated events
included, with two exceptions (`Findable`): a tag condition is met in the store by a value that is
not hex of odd length only, and a condition for all of no values by nothing
(`found_iff_interested`). This is said of statements the server accepts (`Accepted`): beside ids a
tag condition makes the column `id` ambiguous, a list of hex of odd length only leaves `IN ()`,
and a statement can have more parameters than the protocol counts.
-/

namespace Floonet.Postgres

open Hex (Bytes)
open SqlText (WellFormed)
open Sqlite (MatchesRest EmptyTagsMet FullHexFilter tagValuesFound)

variable {db : Db} {e : Event} {r : EventRow} {f : ReqFilter} {now : Int} {c : Char}
  {op : TagOperand} {crypto : Crypto}

/-- An event as a client submits it, its keys in lower case, its time one of `i64`. -/
structure Received (crypto : Crypto) (e : Event) : Prop where
  wrapped : ∃ ec : EventCmd, ec.Deserialized ∧
    EventWrapper.from crypto ec = .ok (.wrappedEvent e)
  pubkey : isLowerHex e.pubkey = true
  delegatedBy : ∀ d ∈ e.delegatedBy, isLowerHex d = true
  createdAt : e.createdAt < 2 ^ 63
  kind : e.kind < 2 ^ 64

/-- A filter of full hex strings, its times ones of chrono. -/
structure Asked (f : ReqFilter) : Prop where
  hexes : FullHexFilter f
  kinds : ∀ ks ∈ f.kinds, ∀ k ∈ ks, k < 2 ^ 64
  since : ∀ t ∈ f.since, (t : Int) ≤ maxUtc
  until_ : ∀ t ∈ f.until_, (t : Int) ≤ maxUtc

/-- The stored tags can show that the event meets the condition. -/
def FindableTag (e : Event) (c : Char) : TagOperand → Prop
  | .or v => ∃ x ∈ v, ¬ OddHex x ∧ (String.singleton c, x) ∈ e.searchableTags
  | .and v => v ≠ ∅ ∧ ∀ x ∈ v, ¬ OddHex x

/-- The stored tags can show that the event meets the conditions of the filter. -/
def Findable (f : ReqFilter) (e : Event) : Prop :=
  ∀ map, f.tags = some map → ∀ c op, map.lookup c = some op → FindableTag e c op

/-- The statement of the filter is accepted: no `id` is ambiguous in it, no list is empty, and the
server takes it. -/
structure Accepted (takes : ReqFilter → Prop) (f : ReqFilter) : Prop where
  takes : takes f
  ids : f.ids.isSome = true → conditions f = ∅
  paired : ∀ c v, (conditions f).lookup c = some (.or v) → HexPaired v

/-- The statement of the filter is well formed, the server takes it, and it selects the row. -/
def Selects (strings : IterOrder String) (takes : ReqFilter → Prop) (db : Db) (f : ReqFilter)
    (now : Int) (r : EventRow) : Prop :=
  takes f ∧ ∃ q, queryFromFilter strings f = .ok (some q) ∧ WellFormed columnsOf q.sql ∧
    r ∈ q.found db now

/-! ## Times and kinds

Times of chrono and kinds of the columns are stored as they are, so comparisons in the statement
are comparisons of the event. -/

theorem representable_of_le {t : Nat} (ht : (t : Int) ≤ maxUtc) : Representable t := by
  rw [Representable, asI64_of_le_maxUtc ht, minUtc]
  exact ⟨by omega, ht⟩

/-! ## Keys -/

/-- The delegator of a wrapped event is the hex text of a key. -/
theorem decode_delegatedBy {ec : EventCmd} (h : EventWrapper.from crypto ec = .ok (.wrappedEvent e))
    {d : String} (hd : e.delegatedBy = some d) :
    ∃ key, Hex.decode d = some key ∧ key.length = 32 := by
  obtain ⟨-, d', hdel, rfl⟩ := EventWrapper.from_eq_wrappedEvent h
  obtain rfl : d' = some d := hd
  rw [Event.delegatedAuthor] at hdel
  split at hdel
  · rename_i delegator querystr sig hfind
    obtain ⟨cond, hcond, hdel⟩ := Outcome.bind_eq_ok hdel
    obtain ⟨sig', -, hcond⟩ := Outcome.bind_eq_ok hcond
    split at hcond
    · split at hcond
      · rename_i key hkey
        cases cond with
        | none => cases hdel
        | some q =>
          simp only at hdel
          split_ifs at hdel
          · cases hdel
            exact ⟨key, crypto.xOnlyPublicKeyFromStr_hex hkey⟩
          · cases hdel
      · cases hcond
        cases hdel
    · cases hcond
      cases hdel
  · cases hdel

/-- Lower-case hex of 32 bytes is a full key. -/
theorem fullHex_of_decode {s : String} {key : Bytes} (hlow : isLowerHex s = true)
    (hkey : Hex.decode s = some key) (hlen : key.length = 32) : ReqFilter.FullHex s := by
  refine ⟨hlow, ?_⟩
  rw [isLowerHex_eq] at hlow
  rw [Hex.eq_encode_of_decode hlow hkey, byteLen_encode, hlen]

/-- Among full hex strings, a comparison of bytes is a match of the start. -/
theorem any_sqlEq_iff {vs : List String} {s : String} {bs : Bytes}
    (hvs : ∀ v ∈ vs, ReqFilter.FullHex v) (hs : ReqFilter.FullHex s)
    (hd : Hex.decode s = some bs) :
    (∃ v ∈ vs, sqlEq (some bs) (Hex.decode v) = true) ↔ ReqFilter.prefixMatch vs s = true := by
  rw [ReqFilter.prefixMatch_iff hvs hs, ReqFilter.mem_iff_decode hvs hs hd, List.mem_map]
  refine exists_congr fun v => and_congr_right fun _ => ?_
  rw [sqlEq, Option.any_some, beq_iff_eq]

/-! ## The columns -/

section Columns

variable (hrow : db.RowHolds e r) (hrec : Received crypto e) (hf : Asked f)

include hrow hrec hf

/-- The ids of the query and of the live filter. -/
theorem ids_iff : (∀ l, f.ids = some l → ∃ i ∈ l, isHex i = true ∧
    sqlEq (some r.id) (Hex.decode i) = true) ↔ f.idsMatch e = true := by
  obtain ⟨ec, -, hwrap⟩ := hrec.wrapped
  have hid := (Sqlite.fullHex_wrapped hwrap hrec.pubkey).1
  rw [ReqFilter.idsMatch, Option.all_eq_true]
  refine forall₂_congr fun l hl => ?_
  have hvs := hf.hexes.ids l hl
  rw [← any_sqlEq_iff hvs hid hrow.decode_id]
  refine exists_congr fun v => and_congr_right fun hv => and_iff_right ?_
  exact isHex_of_isLowerHex (hvs v hv).1

/-- The authors of the query and of the live filter. -/
theorem authors_iff : (∀ l, f.authors = some l → ∃ a ∈ l, isHex a = true ∧
    (sqlEq (some r.pubKey) (Hex.decode a) = true ∨
      sqlEq r.delegatedBy (Hex.decode a) = true)) ↔
    f.authorsMatch e = true ∨ f.delegatedAuthorsMatch e = true := by
  obtain ⟨ec, -, hwrap⟩ := hrec.wrapped
  have hpk := (Sqlite.fullHex_wrapped hwrap hrec.pubkey).2
  rw [ReqFilter.authorsMatch, ReqFilter.delegatedAuthorsMatch]
  rcases hauthors : f.authors with _ | l
  · simp
  · have hvs := hf.hexes.authors l hauthors
    have hhex : ∀ a ∈ l, isHex a = true := fun a ha => isHex_of_isLowerHex (hvs a ha).1
    have hkey := any_sqlEq_iff hvs hpk hrow.decode_pubkey
    have hdel : (∃ a ∈ l, sqlEq r.delegatedBy (Hex.decode a) = true) ↔
        ∃ d, e.delegatedBy = some d ∧ ReqFilter.prefixMatch l d = true := by
      rw [hrow.delegatedBy]
      rcases hd : e.delegatedBy with _ | d
      · simp [sqlEq]
      · obtain ⟨key, hkey, hlen⟩ := decode_delegatedBy hwrap hd
        have hfull := fullHex_of_decode (hrec.delegatedBy d hd) hkey hlen
        rw [Option.bind_some, hkey, any_sqlEq_iff hvs hfull hkey]
        simp
    simp only [Option.some.injEq, forall_eq', Option.all_some]
    rw [← hkey]
    refine Iff.trans ⟨?_, ?_⟩ (or_congr_right (hdel.trans ?_))
    · rintro ⟨a, ha, -, h | h⟩
      · exact .inl ⟨a, ha, h⟩
      · exact .inr ⟨a, ha, h⟩
    · rintro (⟨a, ha, h⟩ | ⟨a, ha, h⟩)
      · exact ⟨a, ha, hhex a ha, .inl h⟩
      · exact ⟨a, ha, hhex a ha, .inr h⟩
    · rcases e.delegatedBy with _ | d <;> simp

/-- The conditions on columns are those of the live match. -/
theorem admits_iff (hvis : r.hidden = false)
    (hexp : (r.expiresAt.all fun exp => decide (now < exp * 1000000)) = true) :
    admits f now r = true ↔ f.forceNoMatch = false ∧ f.idsMatch e = true ∧
      f.kindMatch e.kind = true ∧ (f.since.all fun t => decide (t ≤ e.createdAt)) = true ∧
      (f.until_.all fun t => decide (e.createdAt ≤ t)) = true ∧
      (f.authorsMatch e = true ∨ f.delegatedAuthorsMatch e = true) := by
  have hkind : (∀ ks, f.kinds = some ks → ∃ k ∈ ks, r.kind = asI64 k) ↔ f.kindMatch e.kind = true := by
    rw [ReqFilter.kindMatch, Option.all_eq_true]
    refine forall₂_congr fun ks hks => ?_
    rw [List.contains_iff_mem, hrow.kind]
    refine ⟨?_, fun h => ⟨_, h, rfl⟩⟩
    rintro ⟨k, hk, heq⟩
    rwa [(asI64_inj hrec.kind (hf.kinds ks hks k hk)).mp heq]
  have hcreated : r.createdAt = e.createdAt := hrow.createdAt.trans (asI64_of_lt hrec.createdAt)
  have hsince : (∀ t, f.since = some t → Representable t ∧ asI64 t ≤ r.createdAt) ↔
      ∀ t, f.since = some t → t ≤ e.createdAt := by
    refine forall₂_congr fun t ht => ?_
    rw [and_iff_right (representable_of_le (hf.since t ht)), asI64_of_le_maxUtc (hf.since t ht),
      hcreated, Int.ofNat_le]
  have huntil : (∀ t, f.until_ = some t → Representable t ∧ r.createdAt ≤ asI64 t) ↔
      ∀ t, f.until_ = some t → e.createdAt ≤ t := by
    refine forall₂_congr fun t ht => ?_
    rw [and_iff_right (representable_of_le (hf.until_ t ht)), asI64_of_le_maxUtc (hf.until_ t ht),
      hcreated, Int.ofNat_le]
  simp only [admits, hvis, hexp, Bool.and_eq_true, Option.all_eq_true, List.any_eq_true,
    Bool.or_eq_true, decide_eq_true_eq, beq_iff_eq, Bool.not_false, and_true,
    Bool.not_eq_true']
  rw [authors_iff hrow hrec hf, hkind, ids_iff hrow hrec hf, hsince, huntil]
  tauto

end Columns

/-! ## The tags

A live tag condition looks into the tag index, the statement joins the tag rows. They agree on
what the rows can show: hex of odd length is looked up as bytes and never found, and a condition
for all of no values has no query. -/

/-- The tag rows of the event are those of its tags. -/
theorem tagCount_pos (hrow : db.RowHolds e r) {p : TagRow → Bool} :
    0 < tagCount db c p r ↔
      ∃ x, (String.singleton c, x) ∈ e.searchableTags ∧
        p (tagRow r.id (String.singleton c, x)) = true := by
  rw [tagCount, List.countP_pos_iff]
  have hmem : ∀ t, t ∈ db.tags ∧ t.eventId = r.id ↔ t ∈ tagRows r.id e := by
    intro t
    rw [← hrow.tagsOf, Db.tagsOf, List.mem_filter, beq_iff_eq]
  refine ⟨?_, ?_⟩
  · rintro ⟨t, ht, h⟩
    simp only [Bool.and_eq_true, beq_iff_eq] at h
    obtain ⟨⟨hid, hname⟩, hp⟩ := h
    obtain ⟨⟨n, x⟩, hnx, rfl⟩ := List.mem_map.mp ((hmem t).mp ⟨ht, hid⟩)
    obtain rfl : n = String.singleton c := hname
    exact ⟨x, hnx, hp⟩
  · rintro ⟨x, hx, hp⟩
    obtain ⟨ht, hid⟩ := (hmem _).mpr (List.mem_map_of_mem hx)
    refine ⟨_, ht, ?_⟩
    rw [hid, hp, beq_self_eq_true]
    simp [tagRow]

/-- A condition has a choice of tag rows, when it is met live and can be found. -/
theorem conditionCopies_pos (hrow : db.RowHolds e r) :
    0 < conditionCopies db r c op ↔
      (op.values ≠ ∅ → tagValuesFound e c op) ∧ FindableTag e c op := by
  cases op with
  | or v =>
    rw [conditionCopies, tagCount_pos hrow]
    simp only [decide_eq_true_eq, foundBy_tagRow_iff, TagOperand.values, tagValuesFound,
      FindableTag]
    constructor
    · rintro ⟨y, hmem, x, hx, rfl, hodd⟩
      exact ⟨fun _ => ⟨y, hx, hmem⟩, y, hx, hodd, hmem⟩
    · rintro ⟨-, x, hx, hodd, hmem⟩
      exact ⟨x, hmem, x, hx, rfl, hodd⟩
  | and v =>
    rw [conditionCopies]
    split_ifs with hv
    · exact iff_of_false (lt_irrefl 0) fun h => h.2.1 hv
    · rw [CanonicallyOrderedAdd.prod_pos]
      simp only [tagCount_pos hrow, foundBy_tagRow_iff, TagOperand.values, tagValuesFound,
        FindableTag]
      refine ⟨fun h => ⟨fun _ x hx => ?_, hv, fun x hx => ?_⟩, fun h x hx => ?_⟩
      · obtain ⟨y, hy, rfl, -⟩ := h x hx
        exact hy
      · obtain ⟨y, -, -, hodd⟩ := h x hx
        exact hodd
      · exact ⟨x, h.1 hv x hx, rfl, h.2.2 x hx⟩

/-- A row is in the join when its tags are found. -/
theorem copies_pos (hrow : db.RowHolds e r) :
    0 < copies f db r ↔
      (∀ map, f.tags = some map → ∀ c op, map.lookup c = some op → op.values ≠ ∅ →
        tagValuesFound e c op) ∧ Findable f e := by
  have hall : 0 < copies f db r ↔
      ∀ c op, (conditions f).lookup c = some op → 0 < conditionCopies db r c op := by
    rw [copies, CanonicallyOrderedAdd.prod_pos]
    refine ⟨fun h c op hop => ?_, fun h c hc => ?_⟩
    · have hpos := h c (Finmap.mem_keys.mpr (Finmap.lookup_isSome.mp (by rw [hop]; rfl)))
      rwa [hop, Option.elim_some] at hpos
    · rcases hop : (conditions f).lookup c with _ | op
      · exact Nat.one_pos
      · exact h c op hop
  rw [hall, conditions, Findable]
  simp only [conditionCopies_pos hrow]
  rcases f.tags with _ | map
  · simp
  · simp only [Option.getD_some, Option.some.injEq, forall_eq']
    exact ⟨fun h => ⟨fun c op hop => (h c op hop).1, fun c op hop => (h c op hop).2⟩,
      fun h c op hop => ⟨h.1 c op hop, h.2 c op hop⟩⟩

/-- A condition without values is not one that can be found. -/
theorem Findable.emptyTagsMet (h : Findable f e) : EmptyTagsMet f e := by
  intro map hmap c op hop hnil
  have hfind := h map hmap c op hop
  cases op with
  | or v =>
    obtain ⟨x, hx, -⟩ := hfind
    obtain rfl : v = ∅ := hnil
    cases hx
  | and v => exact absurd hnil hfind.1

/-- The events a filter asks for are those it matches live and can find. -/
theorem mem_matching_iff (hr : r ∈ db.events) (hrow : db.RowHolds e r) (hrec : Received crypto e)
    (hf : Asked f) (hvis : r.hidden = false)
    (hexp : (r.expiresAt.all fun exp => decide (now < exp * 1000000)) = true) :
    r ∈ matching f db now ↔ f.interestedInEvent e = true ∧ Findable f e := by
  obtain ⟨ec, hec, hwrap⟩ := hrec.wrapped
  rw [matching, List.mem_filter, Bool.and_eq_true, decide_eq_true_eq,
    admits_iff hrow hrec hf hvis hexp, copies_pos hrow, Sqlite.interestedInEvent_iff hec hwrap]
  refine ⟨?_, ?_⟩
  · rintro ⟨-, ⟨hforce, hi, hk, hs, hu, ha⟩, ht, hfind⟩
    exact ⟨⟨⟨hi, hk, hs, hu, ht, hforce⟩, ha, hfind.emptyTagsMet⟩, hfind⟩
  · rintro ⟨⟨⟨hi, hk, hs, hu, ht, hforce⟩, ha, -⟩, hfind⟩
    exact ⟨hr, ⟨hforce, hi, hk, hs, hu, ha⟩, ht, hfind⟩

/-- What the statement of a filter selects, by the filter. -/
theorem selects_iff {strings : IterOrder String} {takes : ReqFilter → Prop} :
    Selects strings takes db f now r ↔ r ∈ matching f db now ∧ Accepted takes f := by
  refine ⟨?_, ?_⟩
  · rintro ⟨htakes, q, hq, hwf, hfound⟩
    obtain ⟨hids, hpaired⟩ := (wellFormed_iff_of_generates (generates_of_query hq)).mp hwf
    exact ⟨(mem_matching hq).mpr hfound, htakes, hids, hpaired⟩
  · rintro ⟨hmem, hacc⟩
    have hboth := (List.mem_filter.mp hmem).2
    rw [Bool.and_eq_true, decide_eq_true_eq] at hboth
    obtain ⟨q, hq⟩ := exists_query strings hboth.1 hboth.2
    have hwf := (wellFormed_iff_of_generates (generates_of_query hq)).mpr ⟨hacc.ids, hacc.paired⟩
    exact ⟨hacc.takes, q, hq, hwf, (mem_matching hq).mp hmem⟩

/-- **When stored queries and live matching agree.** After any run, every row holds an event that
was written, and while the row is visible and unexpired, the statement of a filter selects it if
and only if the filter matches the event live, its tag conditions can be found, and the statement
is accepted. -/
theorem found_iff_interested (crypto : Crypto) (server : Server) (strings : IterOrder String)
    (takes : ReqFilter → Prop) (ops : List Op) (hrec : ∀ e ∈ written ops, Received crypto e) :
    ∀ r ∈ (run server ops).events, ∃ e ∈ written ops, r.content = e.serialized ∧
      ∀ (f : ReqFilter) (now : Int), Asked f → r.hidden = false →
        (r.expiresAt.all fun exp => decide (now < exp * 1000000)) = true →
        (Selects strings takes (run server ops) f now r ↔
          f.interestedInEvent e = true ∧ Findable f e ∧ Accepted takes f) := by
  intro r hr
  obtain ⟨e, ⟨he, -⟩, hrow⟩ := run_holds server ops r hr
  refine ⟨e, he, hrow.content, fun f now hf hvis hexp => ?_⟩
  rw [selects_iff, mem_matching_iff hr hrow (hrec e he) hf hvis hexp, and_assoc]

/-- A note under a delegation is found by a query for the events of its delegator. -/
theorem sampleWrapped_found :
    ∃ r ∈ (run Server.inOrder [.writeEvent Sqlite.sampleWrapped]).events,
      Selects (ReqFilter.sampleOrder String) (fun _ => True)
        (run Server.inOrder [.writeEvent Sqlite.sampleWrapped]) Sqlite.sampleAuthorFilter
        1700000090000000 r := by
  have hrows : (run Server.inOrder [.writeEvent Sqlite.sampleWrapped]).events.map
      (fun r => (r.hidden, r.expiresAt)) = [(false, none)] := by
    decide +kernel
  obtain ⟨r, hr, hcols⟩ := List.mem_map.mp (hrows ▸ List.mem_singleton_self _)
  simp only [Prod.mk.injEq] at hcols
  have hrec : ∀ e ∈ written [.writeEvent Sqlite.sampleWrapped],
      Received (Recorded.cryptoWith Delegation.sampleToken [Delegation.sampleApproved]) e := by
    intro e he
    obtain rfl : e = Sqlite.sampleWrapped := by simpa [written] using he
    exact
      { wrapped := ⟨_, ⟨rfl, rfl⟩, Sqlite.sampleApproved_wrapped⟩
        pubkey := isLowerHex_encode _
        delegatedBy := fun d hd => Option.some.inj hd ▸ isLowerHex_encode _
        createdAt := by decide
        kind := by decide }
  have hf : Asked Sqlite.sampleAuthorFilter :=
    { hexes := ⟨fun _ h => (by cases h), fun vs h v hv => by
        obtain rfl := Option.some.inj h
        obtain rfl := List.mem_singleton.mp hv
        exact ⟨isLowerHex_encode _, byteLen_encode _⟩⟩
      kinds := fun _ h => by cases h
      since := fun _ h => by cases h
      until_ := fun _ h => by cases h }
  obtain ⟨e, he, -, hiff⟩ := found_iff_interested _ Server.inOrder (ReqFilter.sampleOrder String)
    (fun _ => True) _ hrec r hr
  obtain rfl : e = Sqlite.sampleWrapped := by simpa [written] using he
  exact ⟨r, hr, (hiff _ _ hf hcols.1 (by rw [hcols.2]; rfl)).mpr
    ⟨by decide +kernel, fun _ h => (by cases h), trivial, fun _ => rfl, fun _ _ h => by cases h⟩⟩

end Floonet.Postgres
