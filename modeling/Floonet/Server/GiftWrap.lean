import Floonet.Server.PrivateMessages
import Floonet.Sqlite.GiftWrap
import Floonet.Sqlite.Query

/-!
# A gift wrap is readable by its recipient

Admission lets a gift wrap in only with a single tag, which names the recipient. That tag
is what everything behind it looks at: the tag rows and the condition of the stored query,
the index of the live match, and the gate for private events. So a recipient who asks for
kind 1059 with their own key under `#p` finds the wrap, stored or live, as long as the list
under `#p` leaves SQLite a statement it runs.
-/

namespace Floonet

open Sqlite (Db EventRow RowOf Component Taken written queryFromFilter statementText)

variable {crypto : Crypto} {eng : Sql.Engine} {w : Event}

/-- A filter for kinds and recipients, and nothing else. -/
def recipientFilter (kinds : List Nat) (recipients : Finset String) : ReqFilter :=
  { ReqFilter.initial with
    kinds := some kinds
    tags := some (Finmap.singleton 'p' (.or recipients)) }

/-! ## The row of a wrap -/

section Row

variable {ops pre post : List Sqlite.Op} {r : EventRow}

/-- The row with the id of the wrap holds what the wrap says. -/
theorem exists_sameBody (hval : ∀ e ∈ written ops, e.Validated crypto)
    (hnc : crypto.NoCollision (written ops)) (hw : w ∈ written ops)
    (hr : r ∈ (Sqlite.run eng pre).events) (hsub : ∀ e ∈ written pre, e ∈ written ops)
    (hid : Hex.decode w.id = some r.eventHash) :
    ∃ f, RowOf f r ∧ f.SameBody w ∧ r.expiresAt = w.expiration := by
  obtain ⟨f, hf, -, hrow⟩ := Sqlite.exists_rowOf_run hr
  have hbody := hrow.sameBody hval hnc (hsub f hf) hw hid
  refine ⟨f, hrow, hbody, ?_⟩
  rw [(Sqlite.run_coherent eng pre r hr).expiresAt, hrow.content, Event.expiration,
    Event.expiration, Event.firstTagValue, Event.firstTagValue, ← hbody.tags]
  rfl

/-- Once it was written, the wrap is stored for good. -/
theorem stored_giftWrap (eng : Sql.Engine)
    (hval : ∀ e ∈ written (pre ++ .persistEvent w :: post), e.Validated crypto)
    (hnc : crypto.NoCollision (written (pre ++ .persistEvent w :: post)))
    (hk : w.kind = GIFT_WRAP_KIND) (hfit : fitsI64 w.createdAt = true)
    (hexp : w.expiration = none) :
    ∃ r ∈ (Sqlite.run eng (pre ++ .persistEvent w :: post)).events,
      Hex.decode w.id = some r.eventHash := by
  have hw : w ∈ written (pre ++ .persistEvent w :: post) :=
    Sqlite.mem_written.mpr (List.mem_append_right _ (List.mem_cons_self ..))
  have hpre : ∀ e ∈ written pre, e ∈ written (pre ++ .persistEvent w :: post) := fun e he =>
    Sqlite.mem_written.mpr (List.mem_append_left _ (Sqlite.mem_written.mp he))
  -- its row, which may be there from an earlier write
  have hrow : ∃ r ∈ (Sqlite.write eng (Sqlite.run eng pre) w).events,
      Hex.decode w.id = some r.eventHash ∧ r.kind = GIFT_WRAP_KIND ∧ r.expiresAt = none := by
    by_cases hnew : ∀ r ∈ (Sqlite.run eng pre).events, Hex.decode w.id ≠ some r.eventHash
    · obtain ⟨hash, author, hacc⟩ := Sqlite.accepts_giftWrap hnew (hval w hw) hk hfit hexp
      exact ⟨_, (Sqlite.write_giftWrap eng hacc hk).2, hacc.decode_id, hk, hexp⟩
    · push Not at hnew
      obtain ⟨r, hr, hid⟩ := hnew
      obtain ⟨f, hrow, hbody, hexp'⟩ := exists_sameBody hval hnc hw hr hpre hid
      have hkind : r.kind = GIFT_WRAP_KIND := by rw [hrow.kind, hbody.kind, hk]
      exact ⟨r, Sqlite.mem_write_of_kind hr (.inr hkind), hid, hkind, by rw [hexp', hexp]⟩
  obtain ⟨r, hr, hid, hkind, hexp'⟩ := hrow
  refine ⟨r, ?_, hid⟩
  rw [Sqlite.run, Machine.run_append, Machine.run_cons]
  refine Machine.invariant (P := fun db => r ∈ Db.events db) ?_ hr
  exact fun db op _ hin => Sqlite.mem_apply_giftWrap hin hkind hexp' op

end Row

/-! ## The stages

On its way to a reader a wrap passes the stored query or the live match, and then the gate. There
is a lemma for each. -/

section Stages

variable {kinds : List Nat} {recipients : Finset String} {recipient : String}

/-- The tag condition of the filter, on an event of the recipient. -/
theorem tagValuesFound_recipient {e : Event} {rest : List String}
    (htags : e.tags = ["p" :: recipient :: rest]) (hr : recipient ∈ recipients) :
    Sqlite.tagValuesFound e 'p' (.or recipients) := by
  refine ⟨recipient, hr, ?_⟩
  rw [Event.mem_searchableTags]
  exact ⟨rest, by rw [htags]; exact List.mem_singleton_self _, rfl⟩

/-- The filter has one tag condition. -/
theorem lookup_recipientFilter {map : Finmap fun _ : Char => TagOperand} {key : Char}
    {val : TagOperand} (hmap : (recipientFilter kinds recipients).tags = some map)
    (hl : map.lookup key = some val) : key = 'p' ∧ val = .or recipients := by
  obtain rfl := Option.some.inj hmap
  obtain rfl : key = 'p' := by
    by_contra hkey
    rw [Finmap.lookup_eq_none.mpr (by simpa [Finmap.mem_singleton] using hkey)] at hl
    cases hl
  rw [Finmap.lookup_singleton_eq] at hl
  exact ⟨rfl, (Option.some.inj hl).symm⟩

/-- The statement has a parameter for the letter, one for each recipient, and the time. -/
theorem taken_recipientFilter (hmem : recipient ∈ recipients) :
    Taken eng (recipientFilter kinds recipients) ↔ recipients.card + 2 ≤ eng.maxVariables ∧
      eng.takes (statementText (recipientFilter kinds recipients)) = true := by
  have hne : recipients ≠ ∅ := Finset.ne_empty_of_mem hmem
  have hparams : Sqlite.paramCount (recipientFilter kinds recipients) = recipients.card + 2 := by
    simp [Sqlite.paramCount, recipientFilter, ReqFilter.initial, Sqlite.operandParams, hne]
  refine ⟨fun h => ⟨hparams ▸ h.params, h.text⟩, fun h => ⟨hparams ▸ h.1, ?_, h.2⟩⟩
  rintro lim hlim
  cases hlim

/-- The stored query selects the row. -/
theorem selects_giftWrap {db : Db} {r : EventRow} {f : Event} {rest : List String} {now : Nat}
    (hcoh : db.Coherent) (hr : r ∈ db.events) (hrow : RowOf f r)
    (htags : f.tags = ["p" :: recipient :: rest]) (hkind : f.kind ∈ kinds)
    (hmem : recipient ∈ recipients) (hvis : r.hidden = false) (hexp : r.expiresAt = none) :
    (queryFromFilter (recipientFilter kinds recipients) now).selects db r = true := by
  have hne : (TagOperand.or recipients).values ≠ ∅ := Finset.ne_empty_of_mem hmem
  have hcomp : (Sqlite.tagsComponents (recipientFilter kinds recipients)).all
      (Component.holds db r) = true := by
    rw [Sqlite.holds_tagsComponents]
    intro map hmap key val hl
    obtain ⟨rfl, rfl⟩ := lookup_recipientFilter hmap hl
    rw [Sqlite.holds_tagComponents hcoh hr hrow hne]
    refine ⟨tagValuesFound_recipient htags hmem, ?_, rfl, rfl⟩
    simpa [ReqFilter.kindMatch, recipientFilter] using hkind
  have hk : r.kind ∈ kinds := hrow.kind ▸ hkind
  simp only [queryFromFilter, recipientFilter, ReqFilter.initial, Sqlite.Query.selects] at hcomp ⊢
  simp [hvis, hcomp, hk, Component.holds, hexp]

/-- The live match takes the copy that is broadcast. -/
theorem interested_giftWrap {ec : EventCmd} {rest : List String} (hec : ec.Deserialized)
    (hwrap : EventWrapper.from crypto ec = .ok (.wrappedEvent w))
    (htags : w.tags = ["p" :: recipient :: rest]) (hkind : w.kind ∈ kinds)
    (hmem : recipient ∈ recipients) :
    (recipientFilter kinds recipients).interestedInEvent w = true := by
  rw [Sqlite.interestedInEvent_iff hec hwrap]
  refine ⟨⟨rfl, ?_, rfl, rfl, ?_, rfl⟩, .inl rfl, ?_⟩
  · simpa [ReqFilter.kindMatch, recipientFilter] using hkind
  · intro map hmap key val hl _
    obtain ⟨rfl, rfl⟩ := lookup_recipientFilter hmap hl
    exact tagValuesFound_recipient htags hmem
  · intro map hmap key val hl hempty
    obtain ⟨rfl, rfl⟩ := lookup_recipientFilter hmap hl
    exact absurd hempty (Finset.ne_empty_of_mem hmem)

/-- The gate lets the wrap through to its recipient. -/
theorem allowedToSend_giftWrap {sv : Server} {conn : ClientConn} {rest : List String}
    (htags : w.tags = ["p" :: recipient :: rest]) (hk : w.kind = GIFT_WRAP_KIND)
    (hfit : fitsI64 w.createdAt = true) (hauth : conn.authPubkey = some recipient) :
    sv.allowedToSend w.eventStr conn = true := by
  have hcreated : w.createdAt < 2 ^ 64 := by
    rw [fitsI64, decide_eq_true_eq] at hfit
    omega
  have hread := sv.fromStr_eventStr w hcreated (by rw [hk]; decide)
  have hp : (w.serialized.tagValuesByName "p").head? = some recipient := by
    rw [Event.tagValuesByName, show w.serialized.tags = _ from htags]
    rfl
  rw [Server.allowedToSend, hread]
  simp only [hauth, hp, beq_self_eq_true, Bool.true_or, ite_self]

end Stages

/-- **Gift wraps are readable.** An admitted gift wrap names exactly one recipient. Once it was
written, in every later state, a query for kind 1059 and this recipient finds it exactly if
SQLite runs the statement, which has two parameters more than it names recipients; the live
match of this filter takes it; and a connection authenticated as the recipient may receive
it. -/
theorem giftWrap_readable (sv : Server) (eng : Sql.Engine) (authed : Option String)
    (pre post : List Sqlite.Op) (ec : EventCmd) (w : Event) (hec : ec.Deserialized)
    (hwrap : EventWrapper.from sv.crypto ec = .ok (.wrappedEvent w))
    (hk : w.kind = GIFT_WRAP_KIND) (hfit : fitsI64 w.createdAt = true)
    (hadm : sv.admission.check w authed = .allow)
    (hval : ∀ e ∈ written (pre ++ .persistEvent w :: post), e.Validated sv.crypto)
    (hnc : sv.crypto.NoCollision (written (pre ++ .persistEvent w :: post))) :
    ∃! recipient, (∃ rest, w.tags = ["p" :: recipient :: rest]) ∧
      byteLen recipient = 64 ∧ isLowerHex recipient = true ∧
      ∀ kinds recipients, 1059 ∈ kinds → recipient ∈ recipients →
        (∀ now, (∃ r ∈ (Sqlite.run eng (pre ++ .persistEvent w :: post)).events,
            Hex.decode w.id = some r.eventHash ∧
            (queryFromFilter (recipientFilter kinds recipients) now).finds eng
              (Sqlite.run eng (pre ++ .persistEvent w :: post)) r = true) ↔
          recipients.card + 2 ≤ eng.maxVariables ∧
            eng.takes (statementText (recipientFilter kinds recipients)) = true) ∧
        (recipientFilter kinds recipients).interestedInEvent w = true ∧
        ∀ conn : ClientConn, conn.authPubkey = some recipient →
          sv.allowedToSend w.eventStr conn = true := by
  obtain ⟨recipient, rest, htags, hlen, hlow⟩ := Admission.giftWrap_tags hk hadm
  have hexp := Admission.giftWrap_expiration hk hadm
  have hw : w ∈ written (pre ++ .persistEvent w :: post) :=
    Sqlite.mem_written.mpr (List.mem_append_right _ (List.mem_cons_self ..))
  refine ⟨recipient, ⟨⟨rest, htags⟩, hlen, hlow, fun kinds recipients h1059 hmem => ?_⟩, ?_⟩
  · refine ⟨fun now => ?_, interested_giftWrap hec hwrap htags (hk ▸ h1059) hmem,
      fun conn hauth => allowedToSend_giftWrap htags hk hfit hauth⟩
    rw [← taken_recipientFilter hmem, ← Sqlite.taken_iff rfl now]
    refine ⟨?_, fun htaken => ?_⟩
    · rintro ⟨r, -, -, hfinds⟩
      rw [Sqlite.Query.finds, Bool.and_eq_true] at hfinds
      exact hfinds.1
    · obtain ⟨r, hr, hid⟩ := stored_giftWrap eng hval hnc hk hfit hexp
      obtain ⟨f, hrow, hbody, hexp'⟩ := exists_sameBody hval hnc hw hr (fun _ h => h) hid
      have hkind : f.kind = GIFT_WRAP_KIND := hbody.kind.trans hk
      have hvis : r.hidden = false :=
        Sqlite.not_hidden_giftWrap eng _ r hr (hrow.kind.trans hkind)
      refine ⟨r, hr, hid, ?_⟩
      rw [Sqlite.Query.finds, htaken, Bool.true_and]
      exact selects_giftWrap (Sqlite.run_coherent eng _) hr hrow (hbody.tags.trans htags)
        (hkind ▸ h1059) hmem hvis (hexp'.trans hexp)
  · rintro other ⟨⟨rest', htags'⟩, -⟩
    rw [htags] at htags'
    exact (List.cons.inj (List.cons.inj (List.cons.inj htags').1).2).1.symm

/-- The wrap of the samples as it is broadcast. -/
def sampleWrapCopy : Event := Sqlite.sampleWrap.event.buildIndex

/-- The command the wrap arrives in. -/
def sampleWrapCmd : EventCmd := { cmd := "EVENT", event := Sqlite.sampleWrap.event }

/-- The wrap is written to an empty store, and an expiry sweep follows. -/
def sampleWrapOps : List Sqlite.Op :=
  [] ++ .persistEvent sampleWrapCopy :: [.deleteExpired 1800000000]

/-- What the relay has made sure of when the wrap is written. -/
theorem sampleWrap_arrives :
    EventWrapper.from (sampleServer [Sqlite.sampleWrap]).crypto sampleWrapCmd =
        .ok (.wrappedEvent sampleWrapCopy) ∧
      (sampleServer [Sqlite.sampleWrap]).admission.check sampleWrapCopy none = .allow ∧
      (∀ e ∈ written sampleWrapOps, e.Validated (sampleServer [Sqlite.sampleWrap]).crypto) ∧
      (sampleServer [Sqlite.sampleWrap]).crypto.NoCollision (written sampleWrapOps) := by
  have hval : Sqlite.sampleWrap.event.validate (Recorded.crypto [Sqlite.sampleWrap]) = .ok () :=
    Recorded.validated (by decide) (by simp)
  have hall : sampleWrapCopy.delegatedAuthor (Recorded.crypto [Sqlite.sampleWrap]) = .ok none ∧
      (sampleServer [Sqlite.sampleWrap]).admission.check sampleWrapCopy none = .allow := by
    decide +kernel
  have hcrypto : (sampleServer [Sqlite.sampleWrap]).crypto =
      Recorded.crypto [Sqlite.sampleWrap] := rfl
  have hwritten : written sampleWrapOps = [sampleWrapCopy] := rfl
  refine ⟨?_, hall.2, ?_, ?_⟩
  · rw [EventWrapper.from, sampleWrapCmd, if_pos rfl]
    simp only [hcrypto, hval, Event.updateDelegation]
    rw [show Sqlite.sampleWrap.event.buildIndex = sampleWrapCopy from rfl, hall.1]
    rfl
  · intro e he
    rw [hwritten, List.mem_singleton] at he
    rw [he]
    exact Event.Validated.buildIndex hval
  · intro e he f hf _
    rw [hwritten, List.mem_singleton] at he hf
    rw [he, hf]

/-- The relay takes the sample wrap: its recipient can read it, and finds it with a filter that
names no one else. -/
theorem sampleWrap_readable :
    ∃! recipient, (∃ rest, sampleWrapCopy.tags = ["p" :: recipient :: rest]) ∧
      byteLen recipient = 64 ∧ isLowerHex recipient = true ∧
      ∀ kinds recipients, 1059 ∈ kinds → recipient ∈ recipients →
        (∀ now, (∃ r ∈ (Sqlite.run (Sql.Engine.inOrder 32766) sampleWrapOps).events,
            Hex.decode sampleWrapCopy.id = some r.eventHash ∧
            (queryFromFilter (recipientFilter kinds recipients) now).finds
              (Sql.Engine.inOrder 32766)
              (Sqlite.run (Sql.Engine.inOrder 32766) sampleWrapOps) r = true) ↔
          recipients.card + 2 ≤ (Sql.Engine.inOrder 32766).maxVariables ∧
            (Sql.Engine.inOrder 32766).takes
              (statementText (recipientFilter kinds recipients)) = true) ∧
        (recipientFilter kinds recipients).interestedInEvent sampleWrapCopy = true ∧
        ∀ conn : ClientConn, conn.authPubkey = some recipient →
          (sampleServer [Sqlite.sampleWrap]).allowedToSend sampleWrapCopy.eventStr conn =
            true :=
  giftWrap_readable (sampleServer [Sqlite.sampleWrap]) (Sql.Engine.inOrder 32766) none []
    [.deleteExpired 1800000000] sampleWrapCmd sampleWrapCopy ⟨rfl, rfl⟩ sampleWrap_arrives.1 rfl
    (by decide) sampleWrap_arrives.2.1 sampleWrap_arrives.2.2.1 sampleWrap_arrives.2.2.2

/-- The key the sample wrap is for. -/
def sampleRecipient : String := "acd484e2f0c7f65309ad178a9f559abde09796974c57e714c35f110dfc27ccbe"

/-- The recipient among 32764 texts of one letter each. -/
def sampleCrowd : Finset String :=
  insert sampleRecipient
    ((Finset.range 32764).image fun n => String.singleton (Char.ofNat (0x4e00 + n)))

theorem mem_sampleCrowd : sampleRecipient ∈ sampleCrowd := Finset.mem_insert_self ..

/-- The letters differ. -/
theorem card_sampleCrowd : sampleCrowd.card = 32765 := by
  have hinj : Set.InjOn (fun n => String.singleton (Char.ofNat (0x4e00 + n)))
      (Finset.range 32764 : Set Nat) := by
    have htoNat : ∀ n < 32764, (Char.ofNat (0x4e00 + n)).toNat = 0x4e00 + n := by
      intro n hn
      have hvalid : (0x4e00 + n).isValidChar := .inl (by omega)
      rw [Char.ofNat, dif_pos hvalid]
      rfl
    intro m hm n hn heq
    rw [Finset.coe_range, Set.mem_Iio] at hm hn
    have hval := congrArg Char.toNat (String.singleton_inj.mp heq)
    rw [htoNat m hm, htoNat n hn] at hval
    omega
  have hnot : sampleRecipient ∉
      (Finset.range 32764).image fun n => String.singleton (Char.ofNat (0x4e00 + n)) := by
    rw [Finset.mem_image]
    rintro ⟨n, -, heq⟩
    have hlen := congrArg (fun s => s.toList.length) heq
    rw [String.toList_singleton, List.length_singleton] at hlen
    exact absurd hlen (by decide)
  rw [sampleCrowd, Finset.card_insert_of_notMem hnot, Finset.card_image_of_injOn hinj,
    Finset.card_range]

/-- Their statement has 32767 parameters. -/
theorem sampleCrowd_refused (now : Nat) :
    (queryFromFilter (recipientFilter [1059] sampleCrowd) now).taken
      (Sql.Engine.inOrder 32766) = false := by
  rw [Bool.eq_false_iff, ne_eq, Sqlite.taken_iff rfl,
    taken_recipientFilter mem_sampleCrowd, card_sampleCrowd]
  exact fun h => absurd h.1 (by decide)

/-- The wrap is stored, and its recipient asks for it among too many others. -/
theorem sampleWrap_lost :
    sampleWrapCmd.Deserialized ∧
      EventWrapper.from (sampleServer [Sqlite.sampleWrap]).crypto sampleWrapCmd =
        .ok (.wrappedEvent sampleWrapCopy) ∧
      (sampleServer [Sqlite.sampleWrap]).admission.check sampleWrapCopy none = .allow ∧
      sampleWrapCopy.tags = [["p", sampleRecipient]] ∧ sampleRecipient ∈ sampleCrowd ∧
      ∀ now, ¬ ∃ r ∈ (Sqlite.run (Sql.Engine.inOrder 32766) sampleWrapOps).events,
        Hex.decode sampleWrapCopy.id = some r.eventHash ∧
        (queryFromFilter (recipientFilter [1059] sampleCrowd) now).finds
          (Sql.Engine.inOrder 32766)
          (Sqlite.run (Sql.Engine.inOrder 32766) sampleWrapOps) r = true := by
  refine ⟨⟨rfl, rfl⟩, sampleWrap_arrives.1, sampleWrap_arrives.2.1, rfl,
    mem_sampleCrowd, ?_⟩
  rintro now ⟨r, -, -, hfinds⟩
  rw [Sqlite.Query.finds, sampleCrowd_refused, Bool.false_and] at hfinds
  cases hfinds

end Floonet
