import Floonet.Lib.JsonText
import Floonet.Server.Feed

/-!
# The text of outgoing frames

The frames for a subscription are put together by `format!`, with the identifier between two
quotes. Its own quotes are dropped, except in the answer to a scraper, and nothing is escaped. So
the reader of a frame gets the identifier back exactly if it needs no escapes
(`frames_name_subscription_iff`).
-/

namespace Floonet

open Json (Unescaped Parses)

/-! ## Frames -/

/-- The text of a frame for a subscription. Pings and notices are none. -/
def Frame.text : Frame → Option String
  | .eose subId => some ("[\"EOSE\",\"" ++ subId ++ "\"]")
  | .event subId eventStr => some ("[\"EVENT\",\"" ++ subId ++ "\"," ++ eventStr ++ "]")
  | .ping => none
  | .notice _ => none

/-- An identifier that is written without escapes. -/
def PlainId (s : String) : Prop := ∀ c ∈ s.toList, Unescaped c

/-- The type of the frame for an event, or for the end of the stored ones. -/
def frameType : Option Event → String
  | none => "EOSE"
  | some _ => "EVENT"

/-- The frame is a JSON array of its type, the subscription, and the event. -/
def Frame.Names (f : Frame) (s : String) (e : Option Event) : Prop :=
  ∃ text rest, f.text = some text ∧ Parses text (.array
    (.string (frameType e) :: .string s :: ((e.map Event.toJson).toList ++ rest)))

/-- The frame is a JSON array with this identifier. -/
def Frame.Carries (f : Frame) (s : String) : Prop :=
  ∃ text type rest, f.text = some text ∧ Parses text (.array (.string type :: .string s :: rest))

/-- The loop sends the frame for the subscription, about the event. -/
inductive Server.SentFor (sv : Server) (s : String) : Frame → Option Event → Prop where
  /-- the end of its stored events -/
  | eose {st : Session} {i : Input} {f : Frame} : i.turn = .queryResult ⟨s, "EOSE"⟩ →
    .send f ∈ (sv.step st i).2 → SentFor sv s f none
  | stored {st : Session} {i : Input} {f : Frame} {e : Event} :
    i.turn = .queryResult ⟨s, e.eventStr⟩ → .send f ∈ (sv.step st i).2 → SentFor sv s f (some e)
  /-- its part of a broadcast -/
  | live {st : Session} {i : Input} {f : Frame} {e : Event} {sub : Subscription} :
    i.turn = .broadcast e → ⟨s, sub⟩ ∈ st.conn.subscriptions.entries →
    .send f ∈ sv.deliver st.conn e s sub → .send f ∈ (sv.step st i).2 → SentFor sv s f (some e)
  | scraper {st : Session} {i : Input} {f : Frame} {sub : Subscription} : sub.id = s →
    sv.received i.turn = some (.subMsg sub) → sv.settings.limitScrapers = true →
    sub.isScraper = true → .send f ∈ (sv.step st i).2 → SentFor sv s f none

section Frames

variable {sv : Server} {s s' : String} {f f' : Frame} {eo eo' : Option Event}

/-- The identifier as it stands in the frame. -/
theorem Server.SentFor.cases (h : sv.SentFor s f eo) :
    (f = .eose (withoutQuotes s) ∧ eo = none) ∨ (f = .eose s ∧ eo = none) ∨
      ∃ e, f = .event (withoutQuotes s) e.eventStr ∧ eo = some e := by
  cases h with
  | eose hturn hsend =>
    obtain ⟨-, st', effects, hon, hmem⟩ := send_of_step hsend
    rw [hturn] at hon
    cases hon
    rw [onQueryResult, if_pos rfl] at hmem
    cases List.mem_singleton.mp hmem
    exact .inl ⟨rfl, rfl⟩
  | @stored st i f e hturn hsend =>
    obtain ⟨-, st', effects, hon, hmem⟩ := send_of_step hsend
    rw [hturn] at hon
    cases hon
    rw [onQueryResult, if_neg (Feed.eventStr_ne_eose e)] at hmem
    split_ifs at hmem
    · cases List.mem_singleton.mp hmem
      exact .inr (.inr ⟨e, rfl, rfl⟩)
    · cases hmem
  | @live st i f e sub _ _ hdeliver _ =>
    rw [deliver] at hdeliver
    split_ifs at hdeliver
    · cases List.mem_singleton.mp hdeliver
      exact .inr (.inr ⟨e, rfl, rfl⟩)
    · cases hdeliver
  | @scraper st i f sub hid hrec hlimit hscraper hsend =>
    obtain ⟨-, st', effects, hon, hmem⟩ := send_of_step hsend
    rw [onTurn_of_received hrec] at hon
    have heffects : (sv.onReq st sub).2 = effects := congrArg Prod.snd (Option.some.inj hon)
    rw [← heffects, onReq] at hmem
    by_cases hdup : st.conn.hasSubscription sub = true
    · rw [if_pos hdup] at hmem
      cases hmem
    · rw [if_neg hdup, if_pos (by rw [hlimit, hscraper]; rfl)] at hmem
      cases List.mem_singleton.mp hmem
      exact .inr (.inl ⟨hid ▸ rfl, rfl⟩)

/-! ## Reading a frame -/

theorem length_withoutQuotes_le (s : String) :
    (withoutQuotes s).toList.length ≤ s.toList.length := by
  rw [withoutQuotes, String.toList_ofList]
  exact List.length_filter_le ..

theorem quote_notMem_withoutQuotes (s : String) : Json.quote ∉ (withoutQuotes s).toList := by
  rw [withoutQuotes, String.toList_ofList]
  simp

/-- A plain name stays as it is. -/
theorem withoutQuotes_of_plainId (h : PlainId s) : withoutQuotes s = s := by
  rw [withoutQuotes, List.filter_eq_self.mpr, String.ofList_toList]
  exact fun c hc => decide_eq_true (h c hc).1

theorem plainId_frameType (eo : Option Event) : PlainId (frameType eo) := by
  have hall : ∀ s ∈ ["EOSE", "EVENT"], s.toList.all (fun c => decide (Unescaped c)) = true := by
    decide
  have hmem : frameType eo ∈ ["EOSE", "EVENT"] := by cases eo <;> simp [frameType]
  exact fun c hc => of_decide_eq_true (List.all_eq_true.mp (hall _ hmem) c hc)

/-- The identifier of a frame, between its quotes. -/
theorem body_of_parses {text type i id : String} {rest : List Json.Value} {x : List Char}
    (heo : PlainId type) (h : Parses text (.array (.string i :: .string s :: rest)))
    (htext : text = "[\"" ++ type ++ "\",\"" ++ id ++ String.ofList x) :
    i = type ∧ ∃ raw y w c z, Json.Body raw s.toList ∧
      id.toList ++ x = raw ++ Json.quote :: y ∧ Json.Blank w ∧ (c = ',' ∨ c = ']') ∧
      y = w ++ c :: z := by
  refine h.second_string heo ?_
  rw [htext]
  simp [Json.quote]

/-- The text of an event starts with the name of its first member. -/
theorem eventStr_eq (e : Event) :
    ∃ x, e.eventStr.toList = Char.ofNat 123 :: Json.quote :: 'i' :: x := by
  rw [Event.eventStr, Json.toText, String.toList_ofList]
  exact ⟨_, rfl⟩

/-- An event is rendered as a text of it. -/
theorem text_toJson (e : Event) : Json.Text (Json.render e.toJson) e.toJson := by
  refine Json.text_object fun m hm => ?_
  simp only [List.mem_cons, List.not_mem_nil, or_false] at hm
  have htags : Json.Text (Json.render e.tagsToCanonical) e.tagsToCanonical := by
    refine Json.text_array fun v hv => ?_
    obtain ⟨t, -, rfl⟩ := List.mem_map.mp hv
    refine Json.text_array fun v hv => ?_
    obtain ⟨x, -, rfl⟩ := List.mem_map.mp hv
    exact Json.text_string x
  rcases hm with rfl | rfl | rfl | rfl | rfl | rfl | rfl
  · exact Json.text_string _
  · exact Json.text_string _
  · exact Json.text_posInt _
  · exact Json.text_posInt _
  · exact htags
  · exact Json.text_string _
  · exact Json.text_string _

/-! ## The identifier of a frame

A reader takes the identifier up to the first quotation mark that is not escaped. It gets back
what was written exactly if nothing in it needs an escape. -/

/-- The text of a frame from its identifier on. -/
def frameTail : Option Event → List Char
  | none => [Json.quote, ']']
  | some e => Json.quote :: ',' :: e.eventStr.toList ++ [']']

/-- The text of a frame for a plain identifier is the one of the writer. -/
theorem parses_of_plainId (hs : PlainId s) (eo : Option Event) :
    Parses ("[\"" ++ frameType eo ++ "\",\"" ++ s ++ String.ofList (frameTail eo))
      (.array (.string (frameType eo) :: .string s :: (eo.map Event.toJson).toList)) := by
  have htext : "[\"" ++ frameType eo ++ "\",\"" ++ s ++ String.ofList (frameTail eo) =
      Json.toText
        (.array (.string (frameType eo) :: .string s :: (eo.map Event.toJson).toList)) := by
    rw [← String.toList_inj, Json.toText, String.toList_ofList]
    have htype := Json.renderString_of_unescaped (plainId_frameType eo)
    cases eo <;>
      simp [Json.render, Json.renderItems, htype, Json.renderString_of_unescaped hs, frameTail,
        Event.eventStr, Json.toText, Json.quote]
  rw [htext]
  refine Json.parses_toText (Json.text_array fun w hw => ?_)
  rcases List.mem_cons.mp hw with rfl | hw
  · exact Json.text_string _
  · rcases List.mem_cons.mp hw with rfl | hw
    · exact Json.text_string _
    · obtain ⟨e, -, rfl⟩ := Option.map_eq_some_iff.mp (Option.mem_toList.mp hw)
      exact text_toJson e

/-- Every frame for a subscription has its type, some form of the identifier, and the rest. -/
theorem Server.SentFor.text_eq (h : sv.SentFor s f eo) :
    ∃ id, (id = withoutQuotes s ∨ id = s ∧ eo = none) ∧
      f.text = some ("[\"" ++ frameType eo ++ "\",\"" ++ id ++ String.ofList (frameTail eo)) := by
  have htext : ∀ id : String, Frame.text (.eose id) =
      some ("[\"" ++ frameType none ++ "\",\"" ++ id ++ String.ofList (frameTail none)) := by
    intro id
    rw [Frame.text, Option.some.injEq, ← String.toList_inj]
    simp [frameType, frameTail, Json.quote]
  rcases h.cases with ⟨rfl, rfl⟩ | ⟨rfl, rfl⟩ | ⟨e, rfl, rfl⟩
  · exact ⟨_, .inl rfl, htext _⟩
  · exact ⟨_, .inr ⟨rfl, rfl⟩, htext _⟩
  · refine ⟨_, .inl rfl, ?_⟩
    rw [Frame.text, Option.some.injEq, ← String.toList_inj]
    simp [frameType, frameTail, Json.quote]

/-- An identifier that a reader gets back is plain. -/
theorem plainId_of_parses {id i : String} {rest : List Json.Value}
    (hid : id = withoutQuotes s ∨ id = s ∧ eo = none)
    (h : Parses ("[\"" ++ frameType eo ++ "\",\"" ++ id ++ String.ofList (frameTail eo))
      (.array (.string i :: .string s :: rest))) : PlainId s := by
  obtain ⟨-, raw, y, w, c, z, hb, heq, hw, hc, hy⟩ := body_of_parses (plainId_frameType eo) h rfl
  have hlen : id.toList.length ≤ s.toList.length := by
    rcases hid with rfl | ⟨rfl, -⟩
    · exact length_withoutQuotes_le s
    · exact le_rfl
  refine (hb.eq_of_length (le_trans ?_ hlen)).2
  cases eo with
  | none =>
    -- no second quote follows the one behind the identifier
    rcases List.append_eq_append_iff.mp heq with ⟨v, rfl, hv⟩ | ⟨v, hv, -⟩
    · rcases v with _ | ⟨a, _ | ⟨b, v⟩⟩
      · simp
      · exact absurd (List.cons.inj (List.cons.inj hv).2).1 (by decide)
      · have := congrArg List.length hv
        simp [frameTail] at this
    · rw [hv, List.length_append]
      exact Nat.le_add_right ..
  | some e =>
    obtain rfl : id = withoutQuotes s := hid.resolve_right fun h => by cases h.2
    obtain ⟨x, hx⟩ := eventStr_eq e
    have htail : frameTail (some e) =
        Json.quote :: (',' :: Char.ofNat 123 :: Json.quote :: 'i' :: x ++ [']']) := by
      rw [frameTail, hx]
      rfl
    rw [htail] at heq
    rcases hb.split (quote_notMem_withoutQuotes s) heq.symm with ⟨rfl, -⟩ | ⟨-, raw', cs, hb', heq'⟩
    · exact le_rfl
    · -- the quote behind the identifier is escaped, and the next one ends the string too early
      have hopen : Json.quote ∉ [',', Char.ofNat 123] := by decide
      rcases hb'.split (y := 'i' :: x ++ [']']) hopen heq' with ⟨-, rfl⟩ | ⟨⟨u, hu⟩, -⟩
      · rcases w with _ | ⟨b, w⟩
        · rcases hc with rfl | rfl <;> exact absurd (List.cons.inj hy).1 (by decide)
        · have hblank := hw b (List.mem_cons_self ..)
          rw [← (List.cons.inj hy).1] at hblank
          exact absurd hblank (by decide)
      · have hlast := congrArg List.getLast? hu
        rw [List.getLast?_concat] at hlast
        exact absurd hlast (by decide)

/-- A reader gets a plain identifier from each of its frames, and no other. -/
theorem eq_of_carries (hs : PlainId s) (h : sv.SentFor s f eo) {i : String} (hi : f.Carries i) :
    i = s := by
  obtain ⟨id, hid, htext⟩ := h.text_eq
  obtain rfl : id = s := by
    rcases hid with rfl | ⟨rfl, -⟩
    · exact withoutQuotes_of_plainId hs
    · rfl
  obtain ⟨text, type, rest, htext', hparse⟩ := hi
  rw [htext] at htext'
  cases htext'
  obtain ⟨-, raw, y, w, c, z, hb, heq, -⟩ := body_of_parses (plainId_frameType eo) hparse rfl
  obtain ⟨x, hx⟩ : ∃ x, frameTail eo = Json.quote :: x := by cases eo <;> exact ⟨_, rfl⟩
  rw [hx] at heq
  rcases hb.split (fun hq => (hs _ hq).1 rfl) heq.symm with ⟨rfl, -⟩ | ⟨⟨u, hu⟩, -⟩
  · exact String.toList_inj.mp (hb.eq_of_unescaped hs)
  · exact absurd rfl (hs Json.backslash (hu ▸ List.mem_append_right _ (List.mem_singleton_self _))).2.1

/-- A frame names its subscription exactly if the identifier is plain. -/
theorem names_iff (h : sv.SentFor s f eo) : f.Names s eo ↔ PlainId s := by
  obtain ⟨id, hid, htext⟩ := h.text_eq
  refine ⟨?_, fun hs => ?_⟩
  · rintro ⟨text, rest, htext', hparse⟩
    rw [htext] at htext'
    cases htext'
    exact plainId_of_parses hid hparse
  · obtain rfl : id = s := by
      rcases hid with rfl | ⟨rfl, -⟩
      · exact withoutQuotes_of_plainId hs
      · rfl
    exact ⟨_, [], htext, by rw [List.append_nil]; exact parses_of_plainId hs eo⟩

/-- The end of the stored events is sent for every identifier. -/
theorem sentFor_eose (sv : Server) (s : String) : sv.SentFor s (.eose (withoutQuotes s)) none := by
  have hturn : sv.onTurn (sv.start "") 0 (.queryResult ⟨s, "EOSE"⟩) =
      some (sv.start "", [.send (.eose (withoutQuotes s))]) := rfl
  have hsend : .send (.eose (withoutQuotes s)) ∈
      (sv.step (sv.start "") ⟨.queryResult ⟨s, "EOSE"⟩, 0, none⟩).2 := by
    rw [Server.step_of_onTurn rfl hturn rfl]
    exact List.mem_singleton_self _
  exact .eose rfl hsend

end Frames

/-- **Frames name their subscription.** Every frame sent for the identifier is an array of the
frame's type, the identifier and, if it is about an event, the event, if and only if the identifier
has no quotes, backslashes and control characters; it is the same for each single frame. Frames of
two such subscriptions never carry the same identifier. -/
theorem frames_name_subscription_iff (sv : Server) (s : String) :
    ((∀ f eo, sv.SentFor s f eo → f.Names s eo) ↔ PlainId s) ∧
      (∀ f eo, sv.SentFor s f eo → (f.Names s eo ↔ PlainId s)) ∧
      ∀ s' f f' eo eo' i, PlainId s → PlainId s' → sv.SentFor s f eo → sv.SentFor s' f' eo' →
        f.Carries i → f'.Carries i → s = s' := by
  refine ⟨⟨fun h => ?_, fun hs f eo h => (names_iff h).mpr hs⟩, fun f eo h => names_iff h, ?_⟩
  · exact (names_iff (sentFor_eose sv s)).mp (h _ _ (sentFor_eose sv s))
  · intro s' f f' eo eo' i hs hs' h h' hi hi'
    rw [← eq_of_carries hs h hi, ← eq_of_carries hs' h' hi']

/-- The end of the stored events of two subscriptions, one with a quote in its identifier. -/
theorem sampleQuoted_unnamed :
    (ClientConn.new.subscribe ⟨"a\"b", []⟩).2 = .ok () ∧
      (sampleServer []).SentFor "a\"b" (.eose "ab") none ∧
      ¬ (Frame.eose "ab").Names "a\"b" none ∧
      (sampleServer []).SentFor "ab" (.eose "ab") none ∧
      (Frame.eose "ab").Carries "ab" := by
  have hquoted : (sampleServer []).SentFor "a\"b" (.eose "ab") none :=
    sentFor_eose (sampleServer []) "a\"b"
  have hplain : (sampleServer []).SentFor "ab" (.eose "ab") none :=
    sentFor_eose (sampleServer []) "ab"
  have hab : PlainId "ab" := by
    have hall : "ab".toList.all (fun c => decide (Unescaped c)) = true := by decide
    exact fun c hc => of_decide_eq_true (List.all_eq_true.mp hall c hc)
  obtain ⟨text, rest, htext, hparse⟩ := (names_iff hplain).mpr hab
  refine ⟨rfl, hquoted, fun h => ?_, hplain, text, _, _, htext, hparse⟩
  exact ((names_iff hquoted).mp h Json.quote (by decide)).1 rfl

end Floonet
