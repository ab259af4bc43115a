import Floonet.NameAuthority.WellFormed
import Floonet.NameAuthority.Undisturbed
import Floonet.NameAuthority.Signed
import Floonet.Nip05

/-!
# The read endpoints

Availability, well-known resolution, profile and by-pubkey each lower-case, validate and look up
for themselves. On every store that the relay can reach they agree with each other, and
availability with what a register request would do there (`name_endpoints_agree`). A read
endpoint opens the store at most once, so its answer is a function of the table it finds.
-/

namespace Floonet.NameAuthority

open Hex (Bytes)
open Process (Alone)
open NameAuthority.Arrival (runs)

/-! ## The endpoints

Each read endpoint lower-cases and validates what it was given and then looks it up, with its own
status codes and bodies. -/

/-- The authority, with what only its read endpoints use. -/
structure Reader where
  authority : Authority
  cm : CaseMap
  /-- relays advertised in `/.well-known/nostr.json` -/
  relays : List String

namespace Reader

variable (rd : Reader) (t : NameClaims)

/-- The name has the form of a name and an allowed length. -/
def valid (name : String) : Bool :=
  validName name rd.authority.cfg.nameMin rd.authority.cfg.nameMax

/-- There is no such name. -/
def notFound : Response := errorResponse 404 "not found"

/-- The document of `/.well-known/nostr.json`. -/
def document (names relays : List (String × Json.Value)) : Response :=
  ⟨200, .object [("names", .object names), ("relays", .object relays)]⟩

/-- `GET /.well-known/nostr.json`; `allowed` is what `allow_read` says. -/
def wellKnown (allowed : Bool) (query : Option String) : Response :=
  if !allowed then rateLimited
  else
    match query.map rd.cm.toLowercase with
    | none => document [] []
    | some name =>
      if rd.valid name then
        match t.lookup name with
        | some pk => document [(name, .string pk)] [(pk, .array (rd.relays.map .string))]
        | none => document [] []
      else document [] []

/-- The name cannot be had, and why. -/
def unavailable (name reason : String) : Response :=
  ⟨200, .object [("name", .string name), ("available", .bool false), ("reason", .string reason)]⟩

/-- `GET /api/v1/name/{name}` -/
def availability (allowed : Bool) (name : String) : Response :=
  if !allowed then rateLimited
  else
    let name := rd.cm.toLowercase name
    if !rd.valid name then unavailable name "invalid"
    else if isReserved name rd.authority.extraReserved then unavailable name "reserved"
    else if (t.lookup name).isSome then unavailable name "taken"
    else ⟨200, .object [("name", .string name), ("available", .bool true)]⟩

/-- A name and its key. -/
def claimed (name pubkey : String) : Response :=
  ⟨200, .object [("name", .string name), ("pubkey", .string pubkey)]⟩

/-- `GET /api/v1/profile/{name}` -/
def profile (allowed : Bool) (name : String) : Response :=
  if !allowed then rateLimited
  else
    let name := rd.cm.toLowercase name
    if !rd.valid name then notFound
    else
      match t.lookup name with
      | some pubkey => claimed name pubkey
      | none => notFound

/-- `GET /api/v1/by-pubkey/{pubkey}` -/
def byPubkey (allowed : Bool) (pubkey : String) : Response :=
  if !allowed then rateLimited
  else
    let pubkey := rd.cm.toLowercase pubkey
    if !validPubkeyHex pubkey then notFound
    else
      match t.nameOf pubkey with
      | some name => claimed name pubkey
      | none => notFound

end Reader

/-! ## What a response says -/

namespace Response

/-- The response reports that the name is available. -/
def Available (resp : Response) : Prop := memberOf "available" resp.body = some (.bool true)

/-- The document lists the key under the name. -/
def Lists (resp : Response) (name pubkey : String) : Prop :=
  ∃ names, memberOf "names" resp.body = some names ∧ memberOf name names = some (.string pubkey)

/-- The response has the key of the name it was asked for. -/
def HasPubkey (resp : Response) (pubkey : String) : Prop :=
  memberOf "pubkey" resp.body = some (.string pubkey)

/-- The response has the name of the key it was asked for. -/
def HasName (resp : Response) (name : String) : Prop :=
  memberOf "name" resp.body = some (.string name)

end Response

namespace Reader

variable {rd : Reader} {t : NameClaims} {name pubkey n p : String}

/-- What cannot be had is not reported as available. -/
theorem not_available_unavailable (name reason : String) :
    ¬ (unavailable name reason).Available := by
  intro h
  cases h

/-- Available is what is valid, not reserved and not taken. -/
theorem available_iff : (rd.availability t true name).Available ↔
    rd.valid (rd.cm.toLowercase name) = true ∧
      isReserved (rd.cm.toLowercase name) rd.authority.extraReserved = false ∧
      t.lookup (rd.cm.toLowercase name) = none := by
  rw [availability, if_neg (by decide)]
  by_cases hvalid : rd.valid (rd.cm.toLowercase name) = true
  · by_cases hres : isReserved (rd.cm.toLowercase name) rd.authority.extraReserved = true
    · simp only [hvalid, hres, Bool.not_true, Bool.false_eq_true, if_false, if_true]
      exact iff_of_false (not_available_unavailable _ _) fun h => Bool.true_eq_false_eq_False h.2.1
    · rw [Bool.not_eq_true] at hres
      rcases hl : t.lookup (rd.cm.toLowercase name) with _ | pk
      · simp only [hvalid, hres, hl, Bool.not_true, Bool.false_eq_true, if_false, Option.isSome_none,
          and_self, iff_true]
        rfl
      · simp only [hvalid, hres, hl, Bool.not_true, Bool.false_eq_true, if_false, Option.isSome_some,
          if_true]
        exact iff_of_false (not_available_unavailable _ _) fun h => nomatch h.2.2
  · rw [Bool.not_eq_true] at hvalid
    simp only [hvalid, Bool.not_false, if_true]
    exact iff_of_false (not_available_unavailable _ _) fun h => nomatch h.1

/-- The document lists the owner of a valid name. -/
theorem lists_iff : (rd.wellKnown t true (some name)).Lists n p ↔
    rd.valid (rd.cm.toLowercase name) = true ∧ n = rd.cm.toLowercase name ∧
      t.lookup (rd.cm.toLowercase name) = some p := by
  have hempty : ¬ (document [] []).Lists n p := by
    rintro ⟨names, hnames, hn⟩
    cases hnames
    cases hn
  rw [wellKnown, if_neg (by decide), Option.map_some]
  by_cases hvalid : rd.valid (rd.cm.toLowercase name) = true
  · simp only [hvalid, if_true, true_and]
    rcases hl : t.lookup (rd.cm.toLowercase name) with _ | pk
    · exact iff_of_false hempty fun h => nomatch h.2
    · refine ⟨?_, ?_⟩
      · rintro ⟨names, hnames, hn⟩
        cases hnames
        simp only [memberOf, List.reverse_singleton, List.find?_singleton] at hn
        split_ifs at hn with heq
        · cases hn
          exact ⟨(beq_iff_eq.mp heq).symm, rfl⟩
        · cases hn
      · rintro ⟨rfl, hpk⟩
        cases hpk
        refine ⟨_, rfl, ?_⟩
        simp [memberOf]
  · simp only [hvalid, Bool.false_eq_true, if_false, false_and, iff_false]
    exact hempty

/-- The profile of a valid name has its owner. -/
theorem hasPubkey_iff : (rd.profile t true name).HasPubkey p ↔
    rd.valid (rd.cm.toLowercase name) = true ∧ t.lookup (rd.cm.toLowercase name) = some p := by
  have hnone : ¬ notFound.HasPubkey p := fun h => nomatch h
  rw [profile, if_neg (by decide)]
  by_cases hvalid : rd.valid (rd.cm.toLowercase name) = true
  · simp only [hvalid, Bool.not_true, Bool.false_eq_true, if_false, true_and]
    rcases t.lookup (rd.cm.toLowercase name) with _ | pk
    · exact iff_of_false hnone fun h => nomatch h
    · refine ⟨fun h => ?_, fun h => ?_⟩
      · cases h
        rfl
      · cases h
        rfl
  · rw [Bool.not_eq_true] at hvalid
    simp only [hvalid, Bool.not_false, if_true]
    exact iff_of_false hnone fun h => nomatch h.1

theorem hasName_iff : (rd.byPubkey t true pubkey).HasName n ↔
    validPubkeyHex (rd.cm.toLowercase pubkey) = true ∧
      t.nameOf (rd.cm.toLowercase pubkey) = some n := by
  have hnone : ¬ notFound.HasName n := fun h => nomatch h
  rw [byPubkey, if_neg (by decide)]
  by_cases hvalid : validPubkeyHex (rd.cm.toLowercase pubkey) = true
  · simp only [hvalid, Bool.not_true, Bool.false_eq_true, if_false, true_and]
    rcases t.nameOf (rd.cm.toLowercase pubkey) with _ | m
    · exact iff_of_false hnone fun h => nomatch h
    · refine ⟨fun h => ?_, fun h => ?_⟩
      · cases h
        rfl
      · cases h
        rfl
  · rw [Bool.not_eq_true] at hvalid
    simp only [hvalid, Bool.not_false, if_true]
    exact iff_of_false hnone fun h => nomatch h.1

end Reader

/-! ## Lower case

The relay may lower-case by other Unicode tables than the model. A text on which the two differ
has a character outside ASCII in both results, so it is a valid name in neither. -/

section CaseMap

variable {cm : CaseMap} {s : String} {nameMin nameMax : Nat}

theorem toNat_lt_of_okChar {c : Char} (h : okChar c = true) : c.toNat < 128 := by
  simp only [okChar, isAlnum, Hex.isDecimal, Bool.or_eq_true, Bool.and_eq_true, decide_eq_true_eq,
    beq_iff_eq] at h
  rcases h with ((h | rfl) | rfl) | rfl
  · omega
  · decide
  · decide
  · decide

/-- A text that is a name in the one lower case is the same in the other. -/
theorem CaseMap.eq_of_valid
    (h : validName (cm.toLowercase s) nameMin nameMax = true ∨
      validName (strToLowercase s) nameMin nameMax = true) :
    cm.toLowercase s = strToLowercase s := by
  have hnot : ∀ {name : String}, validName name nameMin nameMax = true →
      ¬ ∃ c ∈ name.toList, 128 ≤ c.toNat := by
    rintro name hvalid ⟨c, hc, hle⟩
    have hok : okChar c = true := by
      rw [validName] at hvalid
      split_ifs at hvalid with hlen hall
      simp only [Bool.not_eq_true', Bool.not_eq_false, List.all_eq_true] at hall
      exact hall c hc
    exact absurd (toNat_lt_of_okChar hok) (not_lt.mpr hle)
  obtain heq | ⟨hcm, hstr⟩ := cm.ascii s
  · exact heq
  · exact h.elim (fun h => absurd hcm (hnot h)) fun h => absurd hstr (hnot h)

/-- Both lower-casings agree on which names are valid. -/
theorem CaseMap.validName_eq :
    validName (cm.toLowercase s) nameMin nameMax = validName (strToLowercase s) nameMin nameMax := by
  rw [Bool.eq_iff_iff]
  refine ⟨fun h => ?_, fun h => ?_⟩
  · rw [← CaseMap.eq_of_valid (.inl h)]
    exact h
  · rw [CaseMap.eq_of_valid (.inr h)]
    exact h

/-- Lower-case hex text stays as it is. -/
theorem CaseMap.toLowercase_of_isLowerDigit (h : ∀ c ∈ s.toList, Hex.isLowerDigit c = true) :
    cm.toLowercase s = s := by
  have hstr := strToLowercase_of_isLowerDigit h
  obtain heq | ⟨-, c, hc, hle⟩ := cm.ascii s
  · exact heq.trans hstr
  · rw [hstr] at hc
    have hdigit := h c hc
    simp only [Hex.isLowerDigit, Hex.isDecimal, Hex.isLowerLetter, Bool.or_eq_true,
      Bool.and_eq_true, decide_eq_true_eq] at hdigit
    omega

end CaseMap

/-! ## A register request in a given state

To say that an available name can be claimed, the request is run alone in that state: every call
but the insert is answered as the premise says, and the insert goes through since name and key are
free. -/

/-- A claim of a free name by a free key goes through. -/
theorem NameClaims.insert_of_free {t : NameClaims} {name pubkey : String} {now : Nat}
    (hname : t.lookup name = none) (hpubkey : t.nameOf pubkey = none) :
    (t.insert name pubkey now).2 = .ok 1 := by
  have hidx : hasActive t.rows pubkey = false := by
    rw [not_hasActive_iff]
    rintro r hr hactive rfl
    rw [nameOf_eq_some.mpr ⟨r, hr, hactive, rfl, rfl⟩] at hpubkey
    cases hpubkey
  rw [insert]
  split
  · rw [dif_pos hidx]
  · rename_i row hrow
    have hrel : row.active = false := by
      rw [← Bool.not_eq_true]
      intro hactive
      have hact : t.Active name row.pubkey := ⟨row, mem_of_row hrow, hactive, name_of_row hrow, rfl⟩
      exact not_active_of_lookup hname hact
    rw [dif_pos hrel, dif_pos hidx]

/-- A register request for the name by the key, within the limits of size. -/
structure Asks (a : Authority) (req : HttpRequest) (name pk : String) : Prop where
  sizeHint : ∃ n, req.sizeHint = some n ∧ n ≤ MAX_BODY_BYTES
  body : ∃ body pubkey, req.body = some body ∧ body.length ≤ MAX_BODY_BYTES ∧
    a.registerBody body = some (name, pubkey) ∧ strToLowercase pubkey = pk
  signer : req.signer a = some pk
  hex : validPubkeyHex pk = true

/-- The step meets no obstacle but the name: the limiter lets it pass, the authorization holds and
was not used before, the key has no active cooldown, and the database does not fail. -/
def Unhindered (rl : Relay) (req : HttpRequest) (s : Shared) : Op → Env → Prop
  | .limits (.allow bucket ip max window), e =>
    (Op.exec rl.engine s e (.limits (.allow bucket ip max window))).2 = true
  | .unixTime, e => ∀ body, req.body = some body → ∃ auth,
    registerAuth rl.authority req body (Op.exec rl.engine s e .unixTime).2 = .ok auth
  | .limits (.authEventFresh window id), e =>
    (Op.exec rl.engine s e (.limits (.authEventFresh window id))).2 = true
  | .limits (.cooldownActive bucket key window), e =>
    (Op.exec rl.engine s e (.limits (.cooldownActive bucket key window))).2 = false
  | _, e => e.fails = false

section Register

variable {rl : Relay} {req : HttpRequest} {s : Shared} {t : NameClaims} {past : List Call}
  {name pk : String}

/-- The claim of a free name by a free key succeeds. -/
theorem claim_created (hs : s.claims = t) (hname : t.lookup name = none)
    (hpk : t.nameOf pk = none) :
    Alone (Op.exec rl.engine) (Unhindered rl req) (fun _ _ resp => resp.status = 201) s past
      (claim rl.authority name pk) := by
  refine .call fun e he => ?_
  replace he : e.fails = false := he
  have hok : ((insertOp name pk).exec rl.engine s e).2 = .ok 1 := by
    simp only [Op.exec, ClaimOp.exec, he, Bool.false_eq_true, if_false, hs]
    exact NameClaims.insert_of_free hname hpk
  rw [hok]
  exact .ret rfl

theorem registerName_created (hs : s.claims = t) (hfree : rl.authority.paid = none)
    (hpk : t.nameOf pk = none) :
    Alone (Op.exec rl.engine) (Unhindered rl req)
      (fun _ _ resp => resp.status = 201 ↔ t.lookup name = none) s past
      (registerName rl.authority name pk) := by
  refine .call fun e he => ?_
  replace he : e.fails = false := he
  have howner : ((lookupOp name).exec rl.engine s e).2 = t.lookup name := by
    simp only [Op.exec, ClaimOp.exec, he, Bool.false_eq_true, if_false, hs]
  rw [howner]
  rcases hl : t.lookup name with _ | owner
  · refine .call fun e' he' => ?_
    replace he' : e'.fails = false := he'
    have hexisting :
        ((nameOfOp pk).exec rl.engine ((lookupOp name).exec rl.engine s e).1 e').2 = none := by
      simp only [Op.exec, ClaimOp.exec, he', Bool.false_eq_true, if_false, hs]
      exact hpk
    rw [hexisting]
    simp only [paidGate, hfree]
    refine Process.Alone.imp (claim_created (by exact hs) hl hpk) fun _ _ resp h => ?_
    exact iff_of_true h trivial
  · -- the key has no name, so the owner is somebody else
    have hne : owner ≠ pk := by
      rintro rfl
      rw [NameClaims.nameOf_eq_some.mpr (NameClaims.lookup_eq_some.mp hl)] at hpk
      cases hpk
    change Alone _ _ _ _ _ (if owner = pk then _ else _)
    rw [if_neg hne]
    exact .ret (iff_of_false (by decide) (by simp))

theorem registerChecked_created (hs : s.claims = t) (hfree : rl.authority.paid = none)
    (hpk : t.nameOf pk = none) (hhex : validPubkeyHex pk = true) :
    Alone (Op.exec rl.engine) (Unhindered rl req)
      (fun _ _ resp => resp.status = 201 ↔
        validName name rl.authority.cfg.nameMin rl.authority.cfg.nameMax = true ∧
          isReserved name rl.authority.extraReserved = false ∧ t.lookup name = none) s past
      (registerChecked rl.authority name pk pk) := by
  rw [registerChecked, if_neg (by simp [hhex]), if_neg (by simp)]
  split_ifs with hvalid hres
  · rw [Bool.not_eq_true'] at hvalid
    exact .ret (iff_of_false (by decide) fun h => by simp [hvalid] at h)
  · exact .ret (iff_of_false (by decide) fun h => by simp [hres] at h)
  · rw [Bool.not_eq_true', Bool.not_eq_false] at hvalid
    rw [Bool.not_eq_true] at hres
    refine Process.Alone.imp (registerName_created hs hfree hpk) fun _ _ resp h => ?_
    rw [h, hvalid, hres, eq_self_iff_true, true_and, eq_self_iff_true, true_and]

/-- In free mode an unhindered request of a key without a name is answered with 201 exactly when
the name is valid, not reserved and not taken. -/
theorem register_created (hs : s.claims = t) (hfree : rl.authority.paid = none)
    (hpk : t.nameOf pk = none) (hasks : Asks rl.authority req name pk) :
    Alone (Op.exec rl.engine) (Unhindered rl req)
      (fun _ _ resp => resp.status = 201 ↔
        validName (strToLowercase name) rl.authority.cfg.nameMin rl.authority.cfg.nameMax = true ∧
          isReserved (strToLowercase name) rl.authority.extraReserved = false ∧
          t.lookup (strToLowercase name) = none) s []
      (register rl.authority req) := by
  obtain ⟨n, hhint, hn⟩ := hasks.sizeHint
  obtain ⟨body, pubkey, hbody, hlen, hparsed, hlower⟩ := hasks.body
  refine .call fun e₁ h₁ => ?_
  replace h₁ : ((allowWriteOp rl.authority "na-reg" req.ip).exec rl.engine s e₁).2 = true := h₁
  rw [h₁]
  change Alone _ _ _ _ _ (if _ then _ else _)
  rw [if_neg (by simp [hhint, hn]), hbody]
  change Alone _ _ _ _ _ (if _ then _ else _)
  rw [if_neg (not_lt.mpr hlen)]
  refine .call fun e₂ h₂ => ?_
  obtain ⟨⟨pk', id⟩, hauth⟩ := h₂ body hbody
  obtain rfl : pk' = pk := by
    have hsigner : req.signer rl.authority = some pk' := Nip98.signer_of_verifyNip98 hauth
    rw [hasks.signer] at hsigner
    exact (Option.some.inj hsigner).symm
  rw [hauth, onAuth_ok, registerAs]
  refine .call fun e₃ h₃ => ?_
  replace h₃ : ((freshOp rl.authority id).exec rl.engine _ e₃).2 = true := h₃
  rw [h₃]
  refine .call fun e₄ h₄ => ?_
  replace h₄ : ((cooldownOp rl.authority pk').exec rl.engine _ e₄).2 = false := h₄
  rw [h₄]
  change Alone _ _ _ _ _ (registerParsed rl.authority (rl.authority.registerBody body) pk')
  rw [hparsed]
  change Alone _ _ _ _ _ (registerChecked rl.authority (strToLowercase name)
    (strToLowercase pubkey) pk')
  rw [hlower]
  exact registerChecked_created hs hfree hpk hasks.hex

end Register

/-! ## The endpoints agree -/

/-- **Name endpoints agree.** On every reachable store, whatever the Unicode tables:

* in free mode, availability reports what a register request of a key without name and cooldown
  would be answered;
* the well-known document, the profile and by-pubkey give one relation between names and keys;
* a name and its lower-case form are answered alike. -/
theorem name_endpoints_agree (rl : Relay) (cm : CaseMap) (relays : List String) (clock : Nat)
    (acts : List Action) :
    let rd : Reader := ⟨rl.authority, cm, relays⟩
    let s := (rl.run clock acts).shared
    (rl.authority.paid = none → ∀ name pk req, s.claims.nameOf pk = none →
      Asks rl.authority req name pk →
      Alone (Op.exec rl.engine) (Unhindered rl req) (fun _ _ resp =>
        (rd.availability s.claims true name).Available ↔ resp.status = 201) s []
        (register rl.authority req)) ∧
    (∀ n p, cm.toLowercase n = n → (∀ c ∈ p.toList, Hex.isLowerDigit c = true) →
      ((rd.wellKnown s.claims true (some n)).Lists n p ↔
        (rd.profile s.claims true n).HasPubkey p) ∧
      ((rd.profile s.claims true n).HasPubkey p ↔ (rd.byPubkey s.claims true p).HasName n)) ∧
    ∀ allowed name, rd.wellKnown s.claims allowed (some (cm.toLowercase name)) =
        rd.wellKnown s.claims allowed (some name) ∧
      rd.availability s.claims allowed (cm.toLowercase name) =
        rd.availability s.claims allowed name ∧
      rd.profile s.claims allowed (cm.toLowercase name) = rd.profile s.claims allowed name ∧
      rd.byPubkey s.claims allowed (cm.toLowercase name) =
        rd.byPubkey s.claims allowed name := by
  intro rd s
  refine ⟨fun hfree name pk req hpk hasks => ?_, fun n p hn hp => ⟨?_, ?_⟩, fun allowed name => ?_⟩
  · refine Process.Alone.imp (register_created rfl hfree hpk hasks) fun _ _ resp h => ?_
    rw [h, Reader.available_iff, Reader.valid, CaseMap.validName_eq]
    refine and_congr_right fun hvalid => ?_
    rw [CaseMap.eq_of_valid (.inr hvalid)]
  · rw [Reader.lists_iff, Reader.hasPubkey_iff, hn, eq_self_iff_true, true_and]
  · rw [Reader.hasPubkey_iff, Reader.hasName_iff, hn, CaseMap.toLowercase_of_isLowerDigit hp,
      NameClaims.lookup_eq_some, NameClaims.nameOf_eq_some]
    refine ⟨fun h => ⟨?_, h.2⟩, fun h => ⟨?_, h.2⟩⟩
    · obtain ⟨row, hrow, -, -, rfl⟩ := h.2
      exact (checked_run rl clock acts row hrow).pubkey
    · obtain ⟨row, hrow, -, rfl, -⟩ := h.2
      exact (checked_run rl clock acts row hrow).name
  · simp only [Reader.wellKnown, Reader.availability, Reader.profile, Reader.byPubkey, rd,
      Option.map_some, cm.idem, and_self]

/-- A signed sample is such a request. -/
theorem asks_signed {a : Authority} {rs : List Signed} {r : Signed} (hlib : a.nip98 = Signed.lib rs)
    (hbody : a.registerBody = Signed.registerBody rs) (hd : Signed.Distinct rs) (hr : r ∈ rs)
    (hadm : Signed.Admissible a r) (ip : String) : Asks a (r.register ip) r.name r.pubkey := by
  have hparsed : a.registerBody r.body = some (r.name, r.pubkey) := by
    rw [hbody, Signed.registerBody_body hr]
  have hsigner : (r.register ip).signer a = some r.pubkey := by
    rw [HttpRequest.signer, hlib]
    exact Signed.signer_lib hd hr
  exact ⟨⟨_, rfl, hadm.size⟩, ⟨_, _, rfl, hadm.size, hparsed, hadm.lowerPubkey⟩, hsigner, hadm.hex⟩

/-- The endpoints of the sample relay. -/
def sampleReader : Reader := ⟨(sampleRelay none).authority, .basic, []⟩

/-- Ada registers her name. -/
def adaRegisters : List (Process.Act Arrival Env) := .spawn .ada :: runs 0 7

/-- Who has the name, and which name Eve has. -/
def adaAndEve (t : NameClaims) : Option String × Option String :=
  (t.lookup "ada", t.nameOf Signed.takeAda.pubkey)

/-- Ada has it, and Eve has none. -/
theorem adaAndEve_adaRegisters :
    adaAndEve (sampleRun none (secs 1700000007) adaRegisters).shared.claims =
      (some Signed.registerAda.pubkey, none) := by
  decide +kernel

/-- So a sample is one. -/
theorem asks_sample {r : Signed} (hr : r ∈ Signed.samples) (ip : String) :
    Asks (sampleRelay none).authority (r.register ip) r.name r.pubkey :=
  asks_signed rfl rfl Signed.distinct_samples hr (admissible_sample none hr) ip

/-- On the empty store Ada can have the name. Once she has it, Eve cannot: all endpoints say that it
is Ada's, and they answer `Ada` as they answer `ada`. -/
theorem ada_availability_agrees :
    let s := ((sampleRelay none).run (secs 1700000007) []).shared
    let s' := ((sampleRelay none).run (secs 1700000007)
      (adaRegisters.map (Process.Act.rename Arrival.request))).shared
    let ask := Signed.registerAda.register "203.0.113.7"
    let askEve := Signed.takeAda.register "203.0.113.8"
    Alone (Op.exec (sampleRelay none).engine) (Unhindered (sampleRelay none) ask)
      (fun _ _ resp => (sampleReader.availability s.claims true "ada").Available ↔
        resp.status = 201) s [] (register (sampleRelay none).authority ask) ∧
    Alone (Op.exec (sampleRelay none).engine) (Unhindered (sampleRelay none) askEve)
      (fun _ _ resp => (sampleReader.availability s'.claims true "ada").Available ↔
        resp.status = 201) s' [] (register (sampleRelay none).authority askEve) ∧
    ¬ (sampleReader.availability s'.claims true "ada").Available ∧
    (sampleReader.wellKnown s'.claims true (some "ada")).Lists "ada" Signed.registerAda.pubkey ∧
    (sampleReader.byPubkey s'.claims true Signed.registerAda.pubkey).HasName "ada" ∧
    sampleReader.profile s'.claims true "ada" = sampleReader.profile s'.claims true "Ada" := by
  have hempty := name_endpoints_agree (sampleRelay none) .basic [] (secs 1700000007) []
  have hnamed := name_endpoints_agree (sampleRelay none) .basic [] (secs 1700000007)
    (adaRegisters.map (Process.Act.rename Arrival.request))
  have hclaims := adaAndEve_adaRegisters
  rw [← shared_samples, adaAndEve, Prod.mk.injEq] at hclaims
  generalize adaRegisters.map (Process.Act.rename Arrival.request) = acts at hnamed hclaims ⊢
  obtain ⟨hlookup, heve⟩ := hclaims
  obtain ⟨hregister, hsame, hlower⟩ := hnamed
  have hada := asks_sample (by simp [Signed.samples] : Signed.registerAda ∈ Signed.samples)
  have hEve := asks_sample (by simp [Signed.samples] : Signed.takeAda ∈ Signed.samples)
  have hlow : sampleReader.cm.toLowercase "ada" = "ada" := by decide +kernel
  have hupper : sampleReader.cm.toLowercase "Ada" = "ada" := by decide +kernel
  have hvalid : sampleReader.valid "ada" = true := by decide +kernel
  have hpk : ∀ c ∈ Signed.registerAda.pubkey.toList, Hex.isLowerDigit c = true :=
    isLowerDigit_of_validPubkeyHex (hada "").hex
  refine ⟨hempty.1 rfl "ada" _ _ rfl (hada _), hregister rfl "ada" _ _ heve (hEve _), ?_⟩
  replace hsame := hsame "ada" Signed.registerAda.pubkey hlow hpk
  replace hlower := (hlower true "Ada").2.2.1
  -- from here on the relay and its run do not matter
  generalize ((sampleRelay none).run (secs 1700000007) acts).shared.claims = t at *
  have hprofile : (sampleReader.profile t true "ada").HasPubkey Signed.registerAda.pubkey := by
    rw [Reader.hasPubkey_iff, hlow]
    exact ⟨hvalid, hlookup⟩
  refine ⟨fun havail => ?_, hsame.1.mpr hprofile, hsame.2.mp hprofile, ?_⟩
  · have hnone := (Reader.available_iff.mp havail).2.2
    rw [hlow, hlookup] at hnone
    cases hnone
  · rw [← hupper]
    exact hlower

end Floonet.NameAuthority
