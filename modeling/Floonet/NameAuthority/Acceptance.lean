import Mathlib.Data.List.DropRight
import Floonet.Lib.Last
import Floonet.NameAuthority.Signed

/-!
# Which headers are accepted

`verifyNip98` accepts a header exactly when it carries a signed auth event that is
fresh over the integers, whatever time an attacker wrote into it, and whose last
valued `u` and `method` tags and last `payload` tag fit the request
(`verifyNip98_iff`). The loop over the tags is one fold of three fields, each set by
the last tag of its kind.
-/

namespace Floonet.NameAuthority

open Hex (Bytes)

/-! ## Texts up to what surrounds them -/

/-- `t` is what is left of `s` without the whitespace around it. -/
def Trimmed (s t : String) : Prop :=
  ∃ left right, s.toList = left ++ (t.toList ++ right) ∧
    (∀ c ∈ left, isWhitespace c = true) ∧ (∀ c ∈ right, isWhitespace c = true) ∧
    (∀ c ∈ t.toList.head?, isWhitespace c = false) ∧
    ∀ c ∈ t.toList.getLast?, isWhitespace c = false

/-- The two texts differ in slashes at their ends only. -/
def SameUpToSlashes (s t : String) : Prop :=
  ∃ w m n, s.toList = w ++ List.replicate m '/' ∧ t.toList = w ++ List.replicate n '/'

theorem toList_trim (s : String) :
    (trim s).toList = (s.toList.dropWhile isWhitespace).rdropWhile isWhitespace := by
  rw [trim, String.toList_ofList]
  rfl

theorem trim_eq_iff {s t : String} : trim s = t ↔ Trimmed s t := by
  refine ⟨?_, ?_⟩
  · rintro rfl
    refine ⟨s.toList.takeWhile isWhitespace,
      (s.toList.dropWhile isWhitespace).rtakeWhile isWhitespace, ?_, ?_, ?_, ?_, ?_⟩
    · rw [toList_trim, List.rdropWhile_append_rtakeWhile, List.takeWhile_append_dropWhile]
    · exact fun c hc => List.mem_takeWhile_imp hc
    · exact fun c hc => List.mem_rtakeWhile_imp hc
    · intro c hc
      rw [toList_trim] at hc
      obtain ⟨r, hr⟩ := List.rdropWhile_prefix isWhitespace (l := s.toList.dropWhile isWhitespace)
      have hdrop : (s.toList.dropWhile isWhitespace).head? = some c := by
        rw [← hr, List.head?_append, Option.mem_def.mp hc, Option.some_or]
      have := List.head?_dropWhile_not isWhitespace s.toList
      rw [hdrop] at this
      exact this
    · intro c hc
      rw [toList_trim] at hc
      have hne : (s.toList.dropWhile isWhitespace).rdropWhile isWhitespace ≠ [] := by
        intro hnil
        rw [hnil] at hc
        cases hc
      have hlast := List.rdropWhile_last_not _ _ hne
      rw [List.getLast?_eq_some_getLast hne, Option.mem_some_iff] at hc
      rw [hc] at hlast
      simpa using hlast
  · rintro ⟨left, right, hs, hleft, hright, hhead, hlast⟩
    have hend : (t.toList ++ right).rdropWhile isWhitespace = t.toList := by
      rw [List.rdropWhile, List.reverse_append,
        List.dropWhile_append_of_pos (by simpa using hright)]
      refine List.rdropWhile_eq_self_iff.mpr fun hne => ?_
      simp [hlast _ (List.getLast?_eq_some_getLast hne)]
    rw [← String.toList_inj, toList_trim, hs, List.dropWhile_append_of_pos hleft]
    rcases ht : t.toList with _ | ⟨c, cs⟩
    · rw [List.nil_append, List.dropWhile_eq_nil_iff.mpr hright]
      rfl
    · have hc : ¬ isWhitespace c = true := by simp [hhead c (by rw [ht]; rfl)]
      rw [List.cons_append, List.dropWhile_cons_of_neg hc, ← List.cons_append, ← ht, hend]

theorem toList_trimEndSlashes (s : String) :
    (trimEndSlashes s).toList = s.toList.rdropWhile (· == '/') := by
  rw [trimEndSlashes, String.toList_ofList]
  rfl

theorem rdropWhile_append_replicate (w : List Char) (n : Nat) :
    (w ++ List.replicate n '/').rdropWhile (· == '/') = w.rdropWhile (· == '/') := by
  rw [List.rdropWhile, List.reverse_append, List.dropWhile_append_of_pos (by simp)]
  rfl

/-- Two texts are alike without their slashes at the end. -/
theorem trimEndSlashes_eq_iff {s t : String} :
    trimEndSlashes s = trimEndSlashes t ↔ SameUpToSlashes s t := by
  rw [← String.toList_inj, toList_trimEndSlashes, toList_trimEndSlashes]
  have hend : ∀ l : List Char, ∃ n, l = l.rdropWhile (· == '/') ++ List.replicate n '/' := by
    intro l
    refine ⟨(l.rtakeWhile (· == '/')).length, ?_⟩
    rw [← List.eq_replicate_of_mem fun c hc => by
        simpa using List.mem_rtakeWhile_imp hc, List.rdropWhile_append_rtakeWhile]
  refine ⟨?_, ?_⟩
  · intro h
    obtain ⟨m, hm⟩ := hend s.toList
    obtain ⟨n, hn⟩ := hend t.toList
    exact ⟨_, m, n, hm, h ▸ hn⟩
  · rintro ⟨w, m, n, hs, ht⟩
    rw [hs, ht, rdropWhile_append_replicate, rdropWhile_append_replicate]

/-! ## The last tags

The loop keeps three flags and overwrites each at every tag of its name. So the result is what the
last such tag says, and the fold is reduced to a search from the end. -/

/-- A tag of this name with a value. -/
def Valued (name : String) (t : List String) : Prop := ∃ value rest, t = name :: value :: rest

/-- A tag of this name, with or without a value. -/
def Named (name : String) (t : List String) : Prop := t.head? = some name

section Tags

variable {method expected : String} (acc : AuthTags) (t : List String)

/-- What one tag does to each of the three fields. -/
theorem read_u {u : String} {rest : List String} :
    (acc.read method expected ("u" :: u :: rest)).uOk =
      (trimEndSlashes u == trimEndSlashes expected) := rfl

theorem read_method {m : String} {rest : List String} :
    (acc.read method expected ("method" :: m :: rest)).methodOk = eqIgnoreAsciiCase m method := rfl

theorem read_payload {rest : List String} :
    (acc.read method expected ("payload" :: rest)).payloadHash = rest.head? := rfl

/-- Only a `u` tag with a value changes what is known of the URL. -/
theorem read_uOk (h : ¬ Valued "u" t) : (acc.read method expected t).uOk = acc.uOk := by
  unfold AuthTags.read
  split
  · rename_i rest
    rcases rest with _ | ⟨u, rest⟩
    · rfl
    · exact absurd ⟨u, rest, rfl⟩ h
  · rename_i rest
    rcases rest with _ | ⟨m, rest⟩ <;> rfl
  · rfl
  · rfl

/-- Only a `method` tag with a value changes what is known of the method. -/
theorem read_methodOk (h : ¬ Valued "method" t) :
    (acc.read method expected t).methodOk = acc.methodOk := by
  unfold AuthTags.read
  split
  · rename_i rest
    rcases rest with _ | ⟨u, rest⟩ <;> rfl
  · rename_i rest
    rcases rest with _ | ⟨m, rest⟩
    · rfl
    · exact absurd ⟨m, rest, rfl⟩ h
  · rfl
  · rfl

/-- Only a `payload` tag changes what is known of the body. -/
theorem read_payloadHash (h : ¬ Named "payload" t) :
    (acc.read method expected t).payloadHash = acc.payloadHash := by
  unfold AuthTags.read
  split
  · rename_i rest
    rcases rest with _ | ⟨u, rest⟩ <;> rfl
  · rename_i rest
    rcases rest with _ | ⟨m, rest⟩ <;> rfl
  · exact absurd rfl h
  · rfl

end Tags

variable {method expected : String} {tags : List (List String)}

/-- The loop over the tags, from nothing seen. -/
abbrev readTags (method expected : String) (tags : List (List String)) : AuthTags :=
  tags.foldl (AuthTags.read method expected) {}

/-- A flag that the valued tags of one name set is what the last of them sets it to. -/
theorem flag_foldl {name : String} {f : AuthTags → List String → AuthTags}
    {flag : AuthTags → Bool} {ok : String → Bool} (hstart : flag {} = false)
    (hset : ∀ acc value rest, flag (f acc (name :: value :: rest)) = ok value)
    (hkeep : ∀ acc t, ¬ Valued name t → flag (f acc t) = flag acc) :
    flag (tags.foldl f {}) = true ↔
      ∃ value rest, Last (Valued name) tags (name :: value :: rest) ∧ ok value = true := by
  have hvalued : ∀ (acc : AuthTags) (t : List String), Valued name t →
      flag (f acc t) = t.tail.head?.any ok := by
    rintro acc t ⟨value, rest, rfl⟩
    exact hset acc value rest
  rcases Last.foldl hvalued hkeep tags {} with ⟨t, hlast, hval⟩ | ⟨hnone, hval⟩
  · obtain ⟨value, rest, rfl⟩ := hlast.prop
    rw [hval, List.tail_cons, List.head?_cons, Option.any_some]
    refine ⟨fun h => ⟨value, rest, hlast, h⟩, ?_⟩
    rintro ⟨value', rest', hlast', h⟩
    have heq := (List.cons.inj (hlast.unique hlast')).2
    rwa [(List.cons.inj heq).1]
  · rw [hval, hstart]
    refine ⟨fun h => (by cases h), ?_⟩
    rintro ⟨value, rest, hlast, -⟩
    exact absurd hlast.prop (hnone _ hlast.mem)

theorem uOk_readTags : (readTags method expected tags).uOk = true ↔
    ∃ u rest, Last (Valued "u") tags ("u" :: u :: rest) ∧ SameUpToSlashes u expected := by
  rw [readTags, flag_foldl rfl (fun acc u rest => read_u acc) read_uOk]
  simp only [beq_iff_eq, trimEndSlashes_eq_iff]

theorem methodOk_readTags : (readTags method expected tags).methodOk = true ↔
    ∃ m rest, Last (Valued "method") tags ("method" :: m :: rest) ∧
      eqIgnoreAsciiCase m method = true := by
  rw [readTags, flag_foldl rfl (fun acc m rest => read_method acc) read_methodOk]

/-- The payload is what the last payload tag says, even when that is nothing. -/
theorem payloadHash_readTags :
    (∃ rest, Last (Named "payload") tags ("payload" :: rest) ∧
        (readTags method expected tags).payloadHash = rest.head?) ∨
      (∀ t ∈ tags, ¬ Named "payload" t) ∧
        (readTags method expected tags).payloadHash = none := by
  have hnamed : ∀ (acc : AuthTags) (t : List String), Named "payload" t →
      (acc.read method expected t).payloadHash = t.tail.head? := by
    intro acc t ht
    obtain ⟨rest, rfl⟩ := List.head?_eq_some_iff.mp ht
    exact read_payload acc
  rcases Last.foldl hnamed read_payloadHash tags {} with ⟨t, hlast, hval⟩ | ⟨hnone, hval⟩
  · obtain ⟨rest, rfl⟩ := List.head?_eq_some_iff.mp hlast.prop
    exact Or.inl ⟨rest, hlast, hval⟩
  · exact Or.inr ⟨hnone, hval⟩

/-! ## The clock

The age is a wrapped subtraction on machine integers. It is compared with the distance over the
integers, which it equals as long as both times are far from the ends. -/

/-- With a clock below 2^62 and an age limit that is not above it, the wrapped
difference passes exactly when the integers do, for every time of 64 bits. -/
theorem age_iff {now createdAt : Nat} {maxAge : Int} (hnow : now < 2 ^ 62)
    (hcreated : createdAt < 2 ^ 64) (hmax : maxAge ≤ now) :
    (-5 ≤ wrapI64 (asI64 now - asI64 createdAt) ∧
        wrapI64 (asI64 now - asI64 createdAt) ≤ maxAge) ↔
      -5 ≤ (now : Int) - createdAt ∧ (now : Int) - createdAt ≤ maxAge := by
  have hn : asI64 now = now := by
    rw [asI64, Nat.mod_eq_of_lt (by omega)]
    exact if_pos (by omega)
  rw [hn]
  by_cases hsmall : createdAt < 2 ^ 63
  · -- the cast keeps the time, and the difference does not wrap
    have hc : asI64 createdAt = createdAt := by
      rw [asI64, Nat.mod_eq_of_lt hcreated]
      exact if_pos hsmall
    have hw : wrapI64 ((now : Int) - createdAt) = (now : Int) - createdAt := by
      rw [wrapI64]
      omega
    rw [hc, hw]
  · -- the cast is negative: the age is above every limit, or wraps far below zero
    have hc : asI64 createdAt = (createdAt : Int) - 2 ^ 64 := by
      rw [asI64, Nat.mod_eq_of_lt hcreated]
      exact if_neg hsmall
    have hw : wrapI64 ((now : Int) - ((createdAt : Int) - 2 ^ 64)) < -5 ∨
        maxAge < wrapI64 ((now : Int) - ((createdAt : Int) - 2 ^ 64)) := by
      rw [wrapI64]
      omega
    rw [hc]
    omega

/-! ## Acceptance

The stages of `verify_nip98` are inverted one after the other, and their conditions are gathered
into one predicate on the event the header carries. -/

namespace Nip98

variable (lib : Nip98)

/-- The JSON reader gives times of 64 bits. -/
def ReadsU64 : Prop :=
  ∀ raw event, lib.eventFromSlice raw = some event → event.createdAt < 2 ^ 64

/-- The header is the scheme, a blank and, up to whitespace, the base64 JSON of a
valid event. -/
def Carries (authHeader : Option String) (event : Event) : Prop :=
  ∃ header b64 raw, authHeader = some ("Nostr " ++ header) ∧ Trimmed header b64 ∧
    lib.base64Decode b64 = some raw ∧ lib.eventFromSlice raw = some event ∧
    event.Validated lib.crypto

/-- The last payload tag has the hash of the body, or there is nothing to sign. -/
def SignsBody (tags : List (List String)) (body : Bytes) : Prop :=
  (∃ hash rest, Last (Named "payload") tags ("payload" :: hash :: rest) ∧
    eqIgnoreAsciiCase hash (Hex.encode (lib.sha256 body)) = true) ∨
  body = [] ∧ (Last (Named "payload") tags ["payload"] ∨ ∀ t ∈ tags, ¬ Named "payload" t)

/-- An event that authorizes a request at a time. -/
structure Authorizes (event : Event) (method urlPath : String) (body : Bytes) (baseUrl : String)
    (authMaxAgeSecs : Int) (now : Nat) : Prop where
  kind : event.kind = HTTP_AUTH_KIND
  fresh : -5 ≤ (now : Int) - event.createdAt ∧ (now : Int) - event.createdAt ≤ authMaxAgeSecs
  url : ∃ u rest, Last (Valued "u") event.tags ("u" :: u :: rest) ∧
    SameUpToSlashes u (baseUrl ++ urlPath)
  method : ∃ m rest, Last (Valued "method") event.tags ("method" :: m :: rest) ∧
    eqIgnoreAsciiCase m method = true
  payload : lib.SignsBody event.tags body

variable {lib}

/-- A prefix is stripped where it is there. -/
theorem stripPrefix_eq_some {pre s t : String} : stripPrefix pre s = some t ↔ s = pre ++ t := by
  refine ⟨?_, ?_⟩
  · intro h
    rw [stripPrefix] at h
    split_ifs at h with hpre
    obtain ⟨rest, hrest⟩ := List.isPrefixOf_iff_prefix.mp hpre
    obtain rfl := Option.some.inj h
    rw [← String.toList_inj, String.toList_append, String.toList_ofList, ← hrest, List.drop_left]
  · rintro rfl
    exact Signed.stripPrefix_append pre t

theorem authEvent_eq_ok {authHeader : Option String} {event : Event} :
    lib.authEvent authHeader = .ok event ↔ lib.Carries authHeader event := by
  refine ⟨?_, ?_⟩
  · intro h
    rcases authHeader with _ | auth
    · cases h
    · simp only [authEvent] at h
      rcases hs : stripPrefix "Nostr " auth with _ | header <;> simp only [hs] at h
      · cases h
      · rcases hb : lib.base64Decode (trim header) with _ | raw <;> simp only [hb] at h
        · cases h
        · rcases he : lib.eventFromSlice raw with _ | e <;> simp only [he] at h
          · cases h
          · rcases hv : e.validate lib.crypto with err | u <;> simp only [hv] at h
            · cases h
            · obtain rfl := Except.ok.inj h
              exact ⟨header, trim header, raw, congrArg some (stripPrefix_eq_some.mp hs),
                trim_eq_iff.mp rfl, hb, he, hv⟩
  · rintro ⟨header, b64, raw, rfl, htrim, hb, he, hv⟩
    have hval : event.validate lib.crypto = .ok () := hv
    simp only [authEvent, stripPrefix_eq_some.mpr rfl, trim_eq_iff.mpr htrim, hb, he, hval]

/-- The body is signed, or is not spoken of. -/
theorem checkPayload_eq_ok {method expected : String} {tags : List (List String)} {body : Bytes} :
    lib.checkPayload (readTags method expected tags).payloadHash body = .ok () ↔
      lib.SignsBody tags body := by
  have hsome : ∀ hash, lib.checkPayload (some hash) body = .ok () ↔
      eqIgnoreAsciiCase hash (Hex.encode (lib.sha256 body)) = true := by
    intro hash
    simp [checkPayload]
  have hnone : lib.checkPayload none body = .ok () ↔ body = [] := by
    simp [checkPayload]
  rcases @payloadHash_readTags method expected tags with ⟨rest, hlast, hval⟩ | ⟨habsent, hval⟩
  · rw [hval]
    rcases rest with _ | ⟨hash, rest⟩
    · rw [List.head?_nil, hnone]
      refine ⟨fun h => Or.inr ⟨h, Or.inl hlast⟩, ?_⟩
      rintro (⟨hash, rest, hlast', -⟩ | ⟨h, -⟩)
      · cases hlast.unique hlast'
      · exact h
    · rw [List.head?_cons, hsome]
      refine ⟨fun h => Or.inl ⟨hash, rest, hlast, h⟩, ?_⟩
      rintro (⟨hash', rest', hlast', h⟩ | ⟨-, hlast' | habsent⟩)
      · have heq := (List.cons.inj (hlast.unique hlast')).2
        rwa [(List.cons.inj heq).1]
      · cases hlast.unique hlast'
      · exact absurd hlast.prop (habsent _ hlast.mem)
  · rw [hval, hnone]
    refine ⟨fun h => Or.inr ⟨h, Or.inr habsent⟩, ?_⟩
    rintro (⟨hash, rest, hlast, -⟩ | ⟨h, -⟩)
    · exact absurd hlast.prop (habsent _ hlast.mem)
    · exact h

theorem checkEvent_eq_ok {event : Event} {method urlPath : String} {body : Bytes}
    {baseUrl : String} {maxAge : Int} {now : Nat} {pk id : String} (hnow : now < 2 ^ 62)
    (hcreated : event.createdAt < 2 ^ 64) (hmax : maxAge ≤ now) :
    lib.checkEvent event method urlPath body baseUrl maxAge now = .ok (pk, id) ↔
      lib.Authorizes event method urlPath body baseUrl maxAge now ∧
        event.pubkey = pk ∧ event.id = id := by
  have hage := age_iff hnow hcreated hmax
  have hpayload := @checkPayload_eq_ok lib method (baseUrl ++ urlPath) event.tags body
  refine ⟨?_, ?_⟩
  · intro h
    simp only [checkEvent] at h
    split_ifs at h with hkind hold hu hm
    rw [not_or, not_lt, not_lt] at hold
    split at h
    · cases h
    · rename_i hp
      obtain ⟨rfl, rfl⟩ := Prod.mk.inj (Except.ok.inj h)
      refine ⟨⟨not_not.mp hkind, hage.mp ⟨hold.2, hold.1⟩,
        (@uOk_readTags method (baseUrl ++ urlPath) event.tags).mp ?_,
        (@methodOk_readTags method (baseUrl ++ urlPath) event.tags).mp ?_, hpayload.mp hp⟩, rfl, rfl⟩
      · simpa using hu
      · simpa using hm
  · rintro ⟨⟨hkind, hfresh, hu, hm, hp⟩, rfl, rfl⟩
    have hold := hage.mpr hfresh
    have hnot : ¬ (maxAge < wrapI64 (asI64 now - asI64 event.createdAt) ∨
        wrapI64 (asI64 now - asI64 event.createdAt) < -5) := by
      rw [not_or, not_lt, not_lt]
      exact ⟨hold.2, hold.1⟩
    have hu := (@uOk_readTags method (baseUrl ++ urlPath) event.tags).mpr hu
    have hm := (@methodOk_readTags method (baseUrl ++ urlPath) event.tags).mpr hm
    have hp := hpayload.mpr hp
    simp only [checkEvent, if_neg (not_not.mpr hkind), if_neg hnot, hu, hm, hp, Bool.not_true,
      Bool.false_eq_true, if_false]

/-- A header is accepted exactly when it carries an event that authorizes the
request. -/
theorem verifyNip98_iff (lib : Nip98) (hjson : lib.ReadsU64) (authHeader : Option String)
    (method urlPath : String) (body : Bytes) (baseUrl : String) (authMaxAgeSecs : Int) (now : Nat)
    (hnow : now < 2 ^ 62) (hmax : authMaxAgeSecs ≤ now) (pk id : String) :
    lib.verifyNip98 authHeader method urlPath body baseUrl authMaxAgeSecs now = .ok (pk, id) ↔
      ∃ event, lib.Carries authHeader event ∧ event.pubkey = pk ∧ event.id = id ∧
        lib.Authorizes event method urlPath body baseUrl authMaxAgeSecs now := by
  rw [verifyNip98]
  rcases he : lib.authEvent authHeader with msg | event
  · refine iff_of_false (fun h => by cases h) ?_
    rintro ⟨event, hcarries, -⟩
    rw [authEvent_eq_ok.mpr hcarries] at he
    cases he
  · have hcarries := authEvent_eq_ok.mp he
    obtain ⟨-, -, raw, -, -, -, hraw, -⟩ := hcarries
    dsimp only
    rw [checkEvent_eq_ok hnow (hjson raw event hraw) hmax]
    refine ⟨?_, ?_⟩
    · rintro ⟨hauth, hpk, hid⟩
      exact ⟨event, authEvent_eq_ok.mp he, hpk, hid, hauth⟩
    · rintro ⟨event', hcarries', hpk, hid, hauth⟩
      have heq := authEvent_eq_ok.mpr hcarries'
      rw [he] at heq
      obtain rfl := Except.ok.inj heq
      exact ⟨hauth, hpk, hid⟩

end Nip98

namespace Signed

theorem readsU64_samples : (lib samples).ReadsU64 := by
  intro raw event h
  simp only [lib, Option.map_eq_some_iff] at h
  obtain ⟨r, hr, rfl⟩ := h
  have hmem := List.mem_of_find?_eq_some hr
  have hall : ∀ r ∈ samples, r.auth.createdAt < 2 ^ 64 := by decide
  exact hall r hmem

/-- The first registration, a minute after it was signed. -/
theorem registerAda_authorizes : ∃ event,
    (lib samples).Carries (some ("Nostr " ++ registerAda.token)) event ∧
      event.pubkey = registerAda.pubkey ∧ event.id = registerAda.auth.event.id ∧
      (lib samples).Authorizes event "POST" "/api/v1/register" registerAda.body sampleUrl 60
        1700000060 := by
  have hverify := @verify_register samples registerAda sampleUrl 60 1700000060 distinct_samples
    List.mem_cons_self (registers_forRegister sampleUrl "ada" adaDigest _ _ _ _ _)
  exact (Nip98.verifyNip98_iff (lib samples) readsU64_samples _ _ _ _ _ _ _ (by decide)
    (by decide) _ _).mp (hverify.trans (by decide +kernel))

end Signed

end Floonet.NameAuthority
