import Floonet.Server.Connection

/-!
# Subscriptions and running queries stay in step

A connection keeps two maps by subscription id: the open subscriptions, which decide what is
delivered live, and the channels that cancel their queries. Different branches of the loop
insert into them, replace and remove. `Booked` is what every turn keeps, so the channel
found under an id is always the one of the subscription registered there.
-/

namespace Floonet

namespace Session

/-- The two maps agree. -/
structure Booked (st : Session) : Prop where
  maxSubs : st.conn.maxSubs = 32
  room : st.conn.subscriptions.keys.length ≤ 32
  own_id : ∀ id s, st.conn.subscriptions.lookup id = some s → s.id = id ∧ byteLen id ≤ 256
  in_step : ∀ id, id ∈ st.runningQueries ↔ id ∈ st.conn.subscriptions
  /-- a channel belongs to one subscription -/
  one_id : ∀ id id' q, st.runningQueries.lookup id = some q →
    st.runningQueries.lookup id' = some q → id = id'
  /-- and was created by an earlier REQ -/
  numbered : ∀ id q, st.runningQueries.lookup id = some q → q < st.nextQuery

end Session

open Session (Booked)

variable {sv : Server} {st : Session}

theorem booked_start (sv : Server) (uuid : String) : Booked (sv.start uuid) where
  maxSubs := by
    rw [Server.start]
    split_ifs <;> rfl
  room := by
    rw [Server.start]
    split_ifs <;> exact Nat.zero_le _
  own_id id s h := by
    rw [Server.start] at h
    split_ifs at h <;> cases h
  in_step id := by
    rw [Server.start]
    split_ifs <;> exact Iff.rfl
  one_id _ _ _ h := by cases h
  numbered _ _ h := by cases h

/-- A subscription that is taken up is booked under its id in both maps. -/
theorem booked_accepted {s : Subscription} (h : Booked st)
    (hok : ∀ err, (st.conn.subscribe s).2 ≠ .error err) :
    Booked { st with
      conn := (st.conn.subscribe s).1
      runningQueries := st.runningQueries.insert s.id st.nextQuery
      nextQuery := st.nextQuery + 1 } := by
  obtain ⟨hlen, hroom, hsub⟩ := ClientConn.subscribe_ok hok
  rw [hsub]
  refine ⟨h.maxSubs, ?_, ?_, ?_, ?_, ?_⟩
  · -- a new id needs room, a known one takes its own place
    rw [AList.keys_insert, List.length_cons]
    rcases hroom with hmem | hroom
    · rw [List.length_erase_of_mem (AList.mem_keys.mp hmem)]
      have := List.length_pos_of_mem (AList.mem_keys.mp hmem)
      have := h.room
      omega
    · have := List.length_erase_le (a := s.id) (l := st.conn.subscriptions.keys)
      have := h.maxSubs
      omega
  · intro id t ht
    by_cases hid : id = s.id
    · subst hid
      rw [AList.lookup_insert, Option.some.injEq] at ht
      exact ⟨by rw [← ht], hlen⟩
    · rw [AList.lookup_insert_ne hid] at ht
      exact h.own_id id t ht
  · intro id
    rw [AList.mem_insert, AList.mem_insert, h.in_step]
  · intro id id' q hq hq'
    by_cases hid : id = s.id <;> by_cases hid' : id' = s.id
    · rw [hid, hid']
    · subst hid
      rw [AList.lookup_insert, Option.some.injEq] at hq
      rw [AList.lookup_insert_ne hid'] at hq'
      exact absurd (h.numbered _ _ hq') (by omega)
    · subst hid'
      rw [AList.lookup_insert, Option.some.injEq] at hq'
      rw [AList.lookup_insert_ne hid] at hq
      exact absurd (h.numbered _ _ hq) (by omega)
    · rw [AList.lookup_insert_ne hid] at hq
      rw [AList.lookup_insert_ne hid'] at hq'
      exact h.one_id _ _ _ hq hq'
  · intro id q hq
    by_cases hid : id = s.id
    · subst hid
      rw [AList.lookup_insert, Option.some.injEq] at hq
      exact hq ▸ Nat.lt_succ_self _
    · rw [AList.lookup_insert_ne hid] at hq
      exact Nat.lt_succ_of_lt (h.numbered _ _ hq)

/-- Nothing else about the session matters. -/
theorem Session.Booked.congr {st' : Session} (h : Booked st)
    (hsubs : st'.conn.subscriptions = st.conn.subscriptions)
    (hmax : st'.conn.maxSubs = st.conn.maxSubs)
    (hqueries : st'.runningQueries = st.runningQueries) (hnext : st.nextQuery ≤ st'.nextQuery) :
    Booked st' where
  maxSubs := hmax.trans h.maxSubs
  room := hsubs ▸ h.room
  own_id := hsubs ▸ h.own_id
  in_step := hsubs ▸ hqueries ▸ h.in_step
  one_id := hqueries ▸ h.one_id
  numbered id q hq := (h.numbered id q (hqueries ▸ hq)).trans_le hnext

theorem booked_onReq (s : Subscription) (h : Booked st) : Booked (sv.onReq st s).1 := by
  by_cases hs : sv.Refuses st.conn s
  · obtain ⟨hconn, hqueries, hnext, -⟩ := Server.onReq_of_refuses st hs
    exact h.congr (by rw [hconn]) (by rw [hconn]) hqueries hnext
  · rw [Server.onReq_of_accepts hs]
    exact booked_accepted h fun err herr => hs (.inr (.inr ⟨err, herr⟩))

theorem booked_onClose (cc : CloseCmd) (h : Booked st) : Booked (st.onClose cc).1 := by
  rcases Server.onClose_cases st cc with hc | hc <;> rw [hc]
  · exact h
  · have hlookup : ∀ id q, (st.runningQueries.erase cc.id).lookup id = some q →
        st.runningQueries.lookup id = some q := by
      intro id q hq
      by_cases hid : id = cc.id
      · rw [hid, AList.lookup_erase] at hq
        cases hq
      · rwa [AList.lookup_erase_ne hid] at hq
    refine ⟨h.maxSubs, ?_, ?_, ?_, ?_, ?_⟩
    · refine le_trans ?_ h.room
      rw [ClientConn.subscriptions_unsubscribe, AList.keys_erase]
      exact List.length_erase_le
    · intro id s hs
      by_cases hid : id = cc.id
      · rw [hid, ClientConn.subscriptions_unsubscribe, AList.lookup_erase] at hs
        cases hs
      · rw [ClientConn.subscriptions_unsubscribe, AList.lookup_erase_ne hid] at hs
        exact h.own_id id s hs
    · intro id
      rw [ClientConn.subscriptions_unsubscribe, AList.mem_erase, AList.mem_erase, h.in_step]
    · exact fun id id' q hq hq' => h.one_id id id' q (hlookup id q hq) (hlookup id' q hq')
    · exact fun id q hq => h.numbered id q (hlookup id q hq)

/-- Every turn keeps the two maps in step. -/
theorem booked_step (i : Input) (h : Booked st) : Booked (sv.step st i).1 := by
  have hclose : ∀ {st : Session}, Booked st → Booked st.close := fun h => h.congr rfl rfl rfl le_rfl
  rcases Server.step_cases sv st i with ⟨-, hs⟩ | ⟨-, -, hs⟩ | ⟨st', effects, -, hturn, hs⟩
  · rw [hs]
    exact h
  · rw [hs]
    exact hclose h
  · have hst' : Booked st' := by
      rcases Server.onTurn_cases hturn with ⟨s, -, hreq⟩ | ⟨cc, -, hcl⟩ | ⟨-, hst⟩
      · rw [← show _ = st' from congrArg Prod.fst hreq]
        exact booked_onReq s h
      · rw [← show _ = st' from congrArg Prod.fst hcl]
        exact booked_onClose cc h
      · rcases hst with rfl | ⟨ec, relay, -, -, -, -, rfl⟩
        · exact h
        · obtain ⟨hsubs, hmax⟩ := ClientConn.authenticate_subscriptions
            sv.crypto sv.hostStr st.conn i.now ec.event relay
          exact h.congr hsubs hmax rfl le_rfl
    rcases hs with hs | ⟨sent, -, -, hs⟩ <;> rw [hs]
    · exact hst'
    · exact hclose hst'

theorem booked_run (sv : Server) (uuid : String) (is : List Input) : Booked (sv.run uuid is) :=
  Machine.invariant (fun _ i _ h => booked_step i h) (booked_start sv uuid)

/-! ## The three kinds of turns -/

/-- A branch that sends nothing is carried out in full. -/
theorem step_of_silent {i : Input} {st' : Session} {effects : List Effect}
    (hopen : st.isOpen = true) (hturn : sv.onTurn st i.now i.turn = some (st', effects))
    (hsilent : ∀ f, Effect.send f ∉ effects) : sv.step st i = (st', effects) := by
  rcases Server.step_cases sv st i with ⟨hcl, -⟩ | ⟨-, hnone, -⟩ | ⟨st'', effects', -, hst, hs⟩
  · rw [hopen] at hcl
    cases hcl
  · rw [hturn] at hnone
    cases hnone
  · rw [hturn] at hst
    cases hst
    rcases hs with hs | ⟨sent, hp, ⟨f, hf⟩, -⟩
    · exact hs
    · exact absurd (hp.subset hf) (hsilent f)

/-- A loop that runs after a turn ran before it. -/
theorem Server.isOpen_of_step {i : Input} (h : (sv.step st i).1.isOpen = true) :
    st.isOpen = true := by
  rcases Server.step_cases sv st i with ⟨-, hs⟩ | ⟨ho, -⟩ | ⟨-, -, ho, -⟩
  · rw [hs] at h
    exact h
  · exact ho
  · exact ho

/-- The session after a REQ that is taken up. -/
def Session.withQuery (st : Session) (s : Subscription) : Session :=
  { st with
    conn := { st.conn with subscriptions := st.conn.subscriptions.insert s.id s }
    runningQueries := st.runningQueries.insert s.id st.nextQuery
    nextQuery := st.nextQuery + 1 }

/-- The session after a CLOSE. -/
def Session.withoutQuery (st : Session) (id : String) : Session :=
  { st with
    conn := st.conn.unsubscribe ⟨id⟩
    runningQueries := st.runningQueries.erase id }

/-- The message to the query that runs under an id. -/
def Session.cancelOf (st : Session) (id : String) : List Effect :=
  ((st.runningQueries.lookup id).map Effect.cancel).toList

/-- What is cancelled is the query of the name. -/
theorem mem_cancelOf {id : String} {e : Effect} :
    e ∈ st.cancelOf id ↔ ∃ q, st.runningQueries.lookup id = some q ∧ e = .cancel q := by
  rw [Session.cancelOf, Option.mem_toList, Option.map_eq_some_iff]
  exact exists_congr fun q => and_congr_right fun _ => eq_comm

/-- A turn takes up a REQ. -/
structure TakesUp (sv : Server) (st : Session) (i : Input) (s : Subscription) : Prop where
  received : sv.received i.turn = some (.subMsg s)
  accepts : ¬ sv.Refuses st.conn s
  isOpen : st.isOpen = true

/-- A turn closes a subscription. -/
structure Closes (sv : Server) (st : Session) (i : Input) (id : String) : Prop where
  received : sv.received i.turn = some (.closeMsg ⟨"CLOSE", id⟩)
  isOpen : st.isOpen = true

theorem TakesUp.received_ne {i : Input} {s : Subscription} (h : TakesUp sv st i s) :
    sv.received i.turn ≠ none := by
  rw [h.received]
  exact Option.some_ne_none _

theorem Closes.received_ne {i : Input} {id : String} (h : Closes sv st i id) :
    sv.received i.turn ≠ none := by
  rw [h.received]
  exact Option.some_ne_none _

/-- A subscription that is taken up replaces the one of its name. -/
theorem step_of_takesUp {i : Input} {s : Subscription} (h : TakesUp sv st i s) :
    sv.step st i = (st.withQuery s, st.cancelOf s.id ++
      if s.needsHistoricalEvents then [.query st.nextQuery s] else []) := by
  have hreq := Server.onReq_of_accepts h.accepts
  obtain ⟨-, -, hsub⟩ := ClientConn.subscribe_ok fun err herr =>
    h.accepts (.inr (.inr ⟨err, herr⟩))
  rw [hsub] at hreq
  refine step_of_silent h.isOpen ?_ fun f hf => ?_
  · rw [Server.onTurn_of_received h.received, Server.onMessage, hreq]
    rfl
  · rcases List.mem_append.mp hf with hf | hf
    · obtain ⟨q, -, hq⟩ := mem_cancelOf.mp hf
      cases hq
    · split_ifs at hf <;> simp at hf

/-- A CLOSE cancels the query of its name. -/
theorem step_of_closes {i : Input} {id : String} (h : Closes sv st i id) :
    sv.step st i = (st.withoutQuery id, st.cancelOf id) := by
  refine step_of_silent h.isOpen ?_ fun f hf => ?_
  · rw [Server.onTurn_of_received h.received, Server.onMessage]
    rfl
  · obtain ⟨q, -, hq⟩ := mem_cancelOf.mp hf
    cases hq

/-- A turn that leaves subscriptions and queries alone, except that it may end the loop. -/
structure Quiet (st st' : Session) (effects : List Effect) : Prop where
  subscriptions : st'.conn.subscriptions = st.conn.subscriptions
  runningQueries : st'.runningQueries = st.runningQueries
  nextQuery : st.nextQuery ≤ st'.nextQuery
  no_query : ∀ q s, Effect.query q s ∉ effects
  no_cancel : st'.isOpen = true → ∀ q, Effect.cancel q ∉ effects

/-- The three kinds of turns. -/
theorem turn_cases (sv : Server) (st : Session) (i : Input) :
    Quiet st (sv.step st i).1 (sv.step st i).2 ∨ (∃ s, TakesUp sv st i s) ∨
      ∃ id, Closes sv st i id := by
  have hcancelAll : ∀ (st : Session) (q : Nat) (s : Subscription),
      Effect.query q s ∉ st.cancelAll := by
    intro st q s hmem
    obtain ⟨x, -, hx⟩ := List.mem_map.mp hmem
    cases hx
  -- a branch carried out in full or up to a failing send
  have hquiet : ∀ {st' : Session} {effects : List Effect},
      st'.conn.subscriptions = st.conn.subscriptions → st'.runningQueries = st.runningQueries →
      st.nextQuery ≤ st'.nextQuery → (∀ e ∈ effects, e.Plain) →
      (sv.step st i = (st', effects) ∨ ∃ sent, sent <+: effects ∧
        (∃ f, Effect.send f ∈ sent) ∧ sv.step st i = (st'.close, sent ++ st'.cancelAll)) →
      Quiet st (sv.step st i).1 (sv.step st i).2 := by
    rintro st' effects hsubs hqueries hnext hplain (hs | ⟨sent, hp, -, hs⟩) <;> rw [hs]
    · exact ⟨hsubs, hqueries, hnext, fun q s h => hplain _ h, fun _ q h => hplain _ h⟩
    · refine ⟨hsubs, hqueries, hnext, fun q s h => ?_, fun h => (by cases h)⟩
      rcases List.mem_append.mp h with h | h
      · exact hplain _ (hp.subset h)
      · exact hcancelAll _ q s h
  rcases Server.step_cases sv st i with ⟨-, hs⟩ | ⟨-, -, hs⟩ | ⟨st', effects, hopen, hturn, hs⟩
  · refine .inl ?_
    rw [hs]
    exact ⟨rfl, rfl, le_rfl, fun _ _ => List.not_mem_nil, fun _ _ => List.not_mem_nil⟩
  · refine .inl ?_
    rw [hs]
    exact ⟨rfl, rfl, le_rfl, hcancelAll _, fun h => (by cases h)⟩
  · rcases Server.onTurn_cases hturn with ⟨s, hrec, hreq⟩ | ⟨cc, hrec, hcl⟩ | ⟨hplain, hst⟩
    · by_cases href : sv.Refuses st.conn s
      · refine .inl ?_
        obtain ⟨hconn, hqueries, hnext, hanswer⟩ := Server.onReq_of_refuses st href
        rw [hreq] at hconn hqueries hnext hanswer
        refine hquiet (congrArg _ hconn) hqueries hnext (fun e he => ?_) hs
        rcases hanswer e he with rfl | ⟨msg, rfl⟩ <;> trivial
      · exact .inr (.inl ⟨s, hrec, href, hopen⟩)
    · obtain ⟨cmd, id⟩ := cc
      by_cases hcmd : cmd = "CLOSE"
      · subst hcmd
        exact .inr (.inr ⟨id, hrec, hopen⟩)
      · refine .inl (@hquiet st' effects ?_ ?_ ?_ ?_ hs)
        all_goals
          rw [Session.onClose, Close.from, if_neg hcmd] at hcl
          cases hcl
        · rfl
        · rfl
        · exact le_rfl
        · intro e he
          rw [List.mem_singleton.mp he]
          trivial
    · refine .inl (hquiet ?_ ?_ ?_ hplain hs)
      · rcases hst with rfl | ⟨ec, relay, -, -, -, -, rfl⟩
        · rfl
        · exact (ClientConn.authenticate_subscriptions sv.crypto sv.hostStr st.conn i.now ec.event
            relay).1
      · rcases hst with rfl | ⟨ec, relay, -, -, -, -, rfl⟩ <;> rfl
      · rcases hst with rfl | ⟨ec, relay, -, -, -, -, rfl⟩ <;> exact le_rfl

theorem step_of_refuses {i : Input} {s : Subscription}
    (hrec : sv.received i.turn = some (.subMsg s)) (h : sv.Refuses st.conn s) :
    (sv.step st i).1.conn.subscriptions = st.conn.subscriptions ∧
      (sv.step st i).1.runningQueries = st.runningQueries := by
  obtain ⟨hconn, hqueries, -⟩ := Server.onReq_of_refuses st h
  rcases Server.step_cases sv st i with ⟨-, hs⟩ | ⟨-, -, hs⟩ | ⟨st', effects, -, hturn, hs⟩
  · rw [hs]
    exact ⟨rfl, rfl⟩
  · rw [hs]
    exact ⟨rfl, rfl⟩
  · rw [Server.onTurn_of_received hrec, Server.onMessage, Option.some.injEq] at hturn
    rw [hturn] at hconn hqueries
    rcases hs with hs | ⟨sent, -, -, hs⟩ <;> rw [hs]
    · exact ⟨congrArg _ hconn, hqueries⟩
    · exact ⟨congrArg _ hconn, hqueries⟩

/-- An accepted one is the one of its name. -/
theorem step_of_accepts {i : Input} {s : Subscription}
    (hrec : sv.received i.turn = some (.subMsg s)) (h : ¬ sv.Refuses st.conn s)
    (hopen : st.isOpen = true) :
    (sv.step st i).1.conn.subscriptions.lookup s.id = some s ∧
      ∀ q, .cancel q ∈ (sv.step st i).2 ↔ st.runningQueries.lookup s.id = some q := by
  rw [step_of_takesUp ⟨hrec, h, hopen⟩]
  refine ⟨AList.lookup_insert _, fun q => ?_⟩
  rw [List.mem_append, mem_cancelOf]
  refine ⟨?_, fun hq => .inl ⟨q, hq, rfl⟩⟩
  rintro (⟨q', hq', heq⟩ | hq)
  · cases heq
    exact hq'
  · split_ifs at hq <;> simp at hq

/-- **Subscription bookkeeping.** After any sequence of turns there are at most 32
subscriptions, each under its own short id, and the running queries are those of the open
subscriptions. A REQ that is refused or a duplicate changes neither map. One that is taken up
cancels the query stored under its id, if there is one, and no other. -/
theorem subscription_bookkeeping (sv : Server) (uuid : String) (is : List Input) :
    (sv.run uuid is).conn.subscriptions.keys.length ≤ 32 ∧
    (∀ id s, (sv.run uuid is).conn.subscriptions.lookup id = some s →
      s.id = id ∧ byteLen id ≤ 256) ∧
    (∀ id, id ∈ (sv.run uuid is).runningQueries ↔ id ∈ (sv.run uuid is).conn.subscriptions) ∧
    (∀ id id' q, (sv.run uuid is).runningQueries.lookup id = some q →
      (sv.run uuid is).runningQueries.lookup id' = some q → id = id') ∧
    ∀ i s, sv.received i.turn = some (.subMsg s) →
      (sv.Refuses (sv.run uuid is).conn s →
        (sv.step (sv.run uuid is) i).1.conn.subscriptions =
            (sv.run uuid is).conn.subscriptions ∧
          (sv.step (sv.run uuid is) i).1.runningQueries = (sv.run uuid is).runningQueries) ∧
      (¬ sv.Refuses (sv.run uuid is).conn s → (sv.run uuid is).isOpen = true →
        (sv.step (sv.run uuid is) i).1.conn.subscriptions.lookup s.id = some s ∧
          ∀ q, .cancel q ∈ (sv.step (sv.run uuid is) i).2 ↔
            (sv.run uuid is).runningQueries.lookup s.id = some q) := by
  have h := booked_run sv uuid is
  refine ⟨h.room, h.own_id, h.in_step, h.one_id, fun i s hrec => ⟨fun href => ?_, fun hacc hopen => ?_⟩⟩
  · exact step_of_refuses hrec href
  · exact step_of_accepts hrec hacc hopen

end Floonet
