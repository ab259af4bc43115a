import Floonet.Writer.DbWriter
import Floonet.Writer.Verifier

/-!
# Nothing bypasses admission

Any number of connections feed one queue to the database writer, and the writer feeds
metadata to the verifier. An event is written or broadcast by the one or the other. The
repository, the admission service and the web answer as they like; whatever they do, an
event that gets out was taken by one connection, at a moment when it met every configured
policy with the pubkey of that connection (`Vetted`).

The queues are not bounded here: a full queue makes its sender wait.
-/

namespace Floonet

/-- The relay's configuration, as its tasks share it. -/
structure Pipeline where
  /-- the server of a connection, up to its client -/
  server : Server
  writer : DbWriter
  reader : Nip05Reader
  /-- all tasks are started with one `Settings` -/
  same : writer.settings.toSettings = server.settings.toSettings

namespace Pipeline

/-- A client connection. -/
structure Connection where
  client : ClientInfo
  session : Session

/-- The connections, the two queues and the writer. -/
structure State where
  connections : List Connection
  /-- the queue of the database writer -/
  submitted : List SubmittedEvent
  /-- the events the verifier has not received yet -/
  metadata : List Event
  /-- the writer is in its loop -/
  writing : Bool

/-- A step of a connection, of the writer or of the verifier. -/
inductive Action where
  | connect (client : ClientInfo) (uuid : String)
  /-- a turn of a connection -/
  | turn (i : Nat) (input : Input)
  /-- a round of the writer, on the head of its queue -/
  | write (r : Round)
  /-- the verifier takes the next metadata event -/
  | verify (c : MetadataCheck)
  /-- the verifier lags and loses the oldest metadata event -/
  | lag

/-- What the other clients get to see. -/
inductive Outlet where
  /-- `write_event` -/
  | written (e : Event)
  /-- the broadcast channel -/
  | broadcast (e : Event)

/-- The event that gets out. -/
def Outlet.event : Outlet → Event
  | .written e => e
  | .broadcast e => e

variable (pl : Pipeline)

/-- The server of a connection. -/
def serverOf (c : Connection) : Server := { pl.server with client := c.client }

/-- Nobody is connected and nothing is queued. -/
def start : State := ⟨[], [], [], !pl.writer.quotaPanics⟩

/-- The events a turn hands to the writer. -/
def submissions (effects : List Effect) : List SubmittedEvent :=
  effects.filterMap fun
    | .submit s => some s
    | _ => none

/-- The events a round hands to the verifier. -/
def forwarded (effects : List WriterEffect) : List Event :=
  effects.filterMap fun
    | .metadata e => some e
    | _ => none

/-- Where a round of the writer lets an event out. -/
def writerOutlets (effects : List WriterEffect) : List Outlet :=
  effects.filterMap fun
    | .writeEvent e => some (.written e)
    | .broadcast e => some (.broadcast e)
    | _ => none

/-- Where a check of the verifier lets an event out. -/
def verifierOutlets (effects : List VerifierEffect) : List Outlet :=
  effects.filterMap fun
    | .writeEvent e => some (.written e)
    | .broadcast e => some (.broadcast e)
    | .createVerificationRecord _ _ => none

/-- One step of one task. -/
def step (st : State) : Action → State × List Outlet
  | .connect client uuid =>
    ({ st with connections := st.connections ++ [⟨client, pl.server.start uuid⟩] }, [])
  | .turn i input =>
    match st.connections[i]? with
    | none => (st, [])
    | some c =>
      let (session, effects) := (pl.serverOf c).step c.session input
      ({ st with
          connections := st.connections.set i { c with session }
          -- when the writer has gone, so has its queue
          submitted := if st.writing then st.submitted ++ submissions effects else [] }, [])
  | .write r =>
    match st.writing, st.submitted with
    | true, s :: rest =>
      if r.shutdown then ({ st with submitted := [], writing := false }, [])
      else
        let (effects, exit) := pl.writer.round { r with submitted := s }
        ({ st with
            submitted := if exit = .next then rest else []
            metadata := st.metadata ++ forwarded effects
            writing := exit = .next }, writerOutlets effects)
    | _, _ => (st, [])
  | .verify c =>
    match st.metadata with
    | [] => (st, [])
    | e :: rest =>
      ({ st with metadata := rest },
        verifierOutlets (onMetadata pl.writer.settings.verifiedUsers pl.reader c e))
  | .lag => ({ st with metadata := st.metadata.tail }, [])

/-- The state after a sequence of steps. -/
def run (acts : List Action) : State := Machine.run (fun st a => (pl.step st a).1) pl.start acts

/-! ## Where events come from

An event in the system was submitted by a connection that had admitted it, or comes from the
verifier, which passes on what the writer forwarded. -/

/-- In this sequence of steps a connection took the event: it was parsed and validated, not
expired, not too far in the future, and acceptable for the pubkey of the connection. -/
def Vetted (acts : List Action) (e : Event) : Prop :=
  ∃ pre i input post c ec, acts = pre ++ .turn i input :: post ∧
    (pl.run pre).connections[i]? = some c ∧
    (pl.serverOf c).received input.turn = some (.eventMsg ec) ∧
    EventWrapper.from pl.server.crypto ec = .ok (.wrappedEvent e) ∧
    e.Validated pl.server.crypto ∧
    e.isExpired input.now = false ∧
    e.isValidTimestamp input.now pl.server.settings.rejectFutureSeconds = true ∧
    Acceptable pl.server.bech32 pl.writer.settings.toSettings e c.session.conn.authPubkey

/-- All events under way were taken by a connection. -/
structure Sourced (acts : List Action) (st : State) : Prop where
  submitted : ∀ s ∈ st.submitted, pl.Vetted acts s.event
  metadata : ∀ e ∈ st.metadata, pl.Vetted acts e

variable {pl} {acts : List Action} {e : Event}

theorem Vetted.concat (h : pl.Vetted acts e) (a : Action) : pl.Vetted (acts ++ [a]) e := by
  obtain ⟨pre, i, input, post, c, ec, rfl, h⟩ := h
  exact ⟨pre, i, input, post ++ [a], c, ec, by simp, h⟩

theorem Sourced.concat {st : State} (h : pl.Sourced acts st) (a : Action) :
    pl.Sourced (acts ++ [a]) st :=
  ⟨fun s hs => (h.submitted s hs).concat a, fun e he => (h.metadata e he).concat a⟩

theorem mem_submissions {effects : List Effect} {s : SubmittedEvent} :
    s ∈ submissions effects ↔ .submit s ∈ effects := by
  rw [submissions, List.mem_filterMap]
  refine ⟨?_, fun h => ⟨_, h, rfl⟩⟩
  rintro ⟨x, hx, heq⟩
  cases x <;> cases heq
  exact hx

/-- A submission of a turn is vetted. -/
theorem vetted_of_turn {i : Nat} {input : Input} {c : Connection} {s : SubmittedEvent}
    (hc : (pl.run acts).connections[i]? = some c)
    (hs : .submit s ∈ ((pl.serverOf c).step c.session input).2) :
    pl.Vetted (acts ++ [.turn i input]) s.event := by
  obtain ⟨ec, hrec, hwrap, hexp, htime, hadm⟩ := Server.submit_of_step hs
  have hval : s.event.Validated pl.server.crypto := by
    obtain ⟨hval, d, -, hd⟩ := EventWrapper.from_eq_wrappedEvent hwrap
    rw [hd]
    exact hval.buildIndex
  refine ⟨acts, i, input, [], c, ec, rfl, hc, hrec, hwrap, hval, hexp, htime, ?_⟩
  rw [pl.same]
  exact Admission.check_eq_allow_iff.mp hadm

theorem mem_forwarded {effects : List WriterEffect} :
    e ∈ forwarded effects ↔ .metadata e ∈ effects := by
  rw [forwarded, List.mem_filterMap]
  refine ⟨?_, fun h => ⟨_, h, rfl⟩⟩
  rintro ⟨x, hx, heq⟩
  cases x <;> cases heq
  exact hx

/-- A step takes its events from where they may come. -/
theorem sourced_step {a : Action} (h : pl.Sourced acts (pl.run acts)) :
    pl.Sourced (acts ++ [a]) (pl.step (pl.run acts) a).1 := by
  have hkept := h.concat a
  cases a with
  | connect client uuid => exact ⟨hkept.submitted, hkept.metadata⟩
  | turn i input =>
    rw [step]
    rcases hc : (pl.run acts).connections[i]? with _ | c
    · exact hkept
    · refine ⟨fun s hs => ?_, hkept.metadata⟩
      simp only at hs
      split_ifs at hs
      · rcases List.mem_append.mp hs with hs | hs
        · exact hkept.submitted s hs
        · exact vetted_of_turn hc (mem_submissions.mp hs)
      · cases hs
  | write r =>
    rw [step]
    rcases hw : (pl.run acts).writing with _ | _
    · exact hkept
    · rcases hq : (pl.run acts).submitted with _ | ⟨s, rest⟩
      · exact hkept
      · have hs := hkept.submitted s (by rw [hq]; exact List.mem_cons_self ..)
        have hrest : ∀ t ∈ rest, pl.Vetted (acts ++ [.write r]) t.event := fun t ht =>
          hkept.submitted t (by rw [hq]; exact List.mem_cons_of_mem _ ht)
        by_cases hsh : r.shutdown = true
        · simp only [hsh, if_true]
          exact ⟨fun t ht => absurd ht List.not_mem_nil, hkept.metadata⟩
        · simp only [hsh, Bool.false_eq_true, if_false]
          refine ⟨fun t ht => ?_, fun f hf => ?_⟩
          · split_ifs at ht
            · exact hrest t ht
            · cases ht
          · rcases List.mem_append.mp hf with hf | hf
            · exact hkept.metadata f hf
            · obtain ⟨rfl, -⟩ := DbWriter.event_of_round (mem_forwarded.mp hf) rfl
              exact hs
  | verify c =>
    rw [step]
    rcases hm : (pl.run acts).metadata with _ | ⟨f, rest⟩
    · exact hkept
    · exact ⟨hkept.submitted, fun g hg => hkept.metadata g (by
        rw [hm]; exact List.mem_cons_of_mem _ hg)⟩
  | lag => exact ⟨hkept.submitted, fun g hg => hkept.metadata g (List.mem_of_mem_tail hg)⟩

theorem sourced_run (pl : Pipeline) (acts : List Action) : pl.Sourced acts (pl.run acts) := by
  refine Machine.history (P := pl.Sourced) ⟨?_, ?_⟩ (fun acts a h => sourced_step h) acts
  · exact fun s hs => absurd hs List.not_mem_nil
  · exact fun e he => absurd he List.not_mem_nil

/-! ## What gets out -/

/-- What the writer lets out is an event of its round. -/
theorem event_of_writerOutlets {effects : List WriterEffect} {o : Outlet}
    (h : o ∈ writerOutlets effects) : ∃ x ∈ effects, x.event? = some o.event := by
  obtain ⟨x, hx, ho⟩ := List.mem_filterMap.mp h
  cases x <;> cases ho <;> exact ⟨_, hx, rfl⟩

/-- What the verifier lets out is the event it checked. -/
theorem event_of_verifierOutlets {effects : List VerifierEffect} {o : Outlet}
    (h : o ∈ verifierOutlets effects) :
    .writeEvent o.event ∈ effects ∨ .broadcast o.event ∈ effects := by
  obtain ⟨x, hx, ho⟩ := List.mem_filterMap.mp h
  cases x with
  | writeEvent e =>
    cases ho
    exact .inl hx
  | broadcast e =>
    cases ho
    exact .inr hx
  | createVerificationRecord eventId name => cases ho

/-- An event gets out only from the queue of the writer or of the verifier. -/
theorem vetted_of_step {a : Action} {o : Outlet} (h : o ∈ (pl.step (pl.run acts) a).2) :
    pl.Vetted acts o.event := by
  have hs := sourced_run pl acts
  cases a with
  | connect client uuid => cases h
  | turn i input =>
    rw [step] at h
    rcases hc : (pl.run acts).connections[i]? with _ | c <;> simp only [hc] at h <;> cases h
  | write r =>
    rw [step] at h
    rcases hw : (pl.run acts).writing with _ | _
    · simp only [hw] at h
      cases h
    · rcases hq : (pl.run acts).submitted with _ | ⟨s, rest⟩
      · simp only [hw, hq] at h
        cases h
      · simp only [hw, hq] at h
        by_cases hsh : r.shutdown = true
        · rw [if_pos hsh] at h
          cases h
        · rw [if_neg hsh] at h
          obtain ⟨x, hx, he⟩ := event_of_writerOutlets h
          obtain ⟨heq, -⟩ := DbWriter.event_of_round hx he
          rw [heq]
          exact hs.submitted s (by rw [hq]; exact List.mem_cons_self ..)
  | verify c =>
    rw [step] at h
    rcases hm : (pl.run acts).metadata with _ | ⟨f, rest⟩ <;> simp only [hm] at h
    · cases h
    · rw [event_of_onMetadata (event_of_verifierOutlets h)]
      exact hs.metadata f (by rw [hm]; exact List.mem_cons_self ..)
  | lag => cases h

/-- The writer looks at the configured lists only, and asks no more of an event than the
pipeline does. -/
theorem writer_accepts {authed : Option String} (h : Acceptable pl.server.bech32
    pl.writer.settings.toSettings e authed) :
    pl.writer.allowlistRefuses e = false ∧ pl.writer.whitelistRefuses e = false := by
  refine ⟨?_, ?_⟩
  · rw [DbWriter.allowlistRefuses]
    have := h.kind
    rcases hl : pl.writer.settings.eventKindAllowlist with _ | kinds
    · rfl
    · rw [hl] at this
      simpa using this
  · rw [DbWriter.whitelistRefuses, DbWriter.listed]
    rcases hp : pl.writer.settings.payToRelayEnabled with _ | _
    · rcases hl : pl.writer.settings.pubkeyWhitelist with _ | allowed
      · rfl
      · simpa using h.author hp allowed hl
    · rfl

/-- **Nothing bypasses admission.** In every run of the connections, the writer and the
verifier, an event that is written or broadcast was taken by a connection before, after it
was validated, was neither expired nor too far in the future, and met every configured
policy with the pubkey of that connection at that moment. And an event that meets them is
refused neither by the pipeline nor by the writer's own lists. -/
theorem nothing_bypasses (pl : Pipeline) :
    (∀ acts a, ∀ o ∈ (pl.step (pl.run acts) a).2, pl.Vetted acts o.event) ∧
    ∀ e authed, Acceptable pl.server.bech32 pl.writer.settings.toSettings e authed →
      pl.server.admission.check e authed = .allow ∧
        pl.writer.allowlistRefuses e = false ∧ pl.writer.whitelistRefuses e = false := by
  refine ⟨fun acts a o ho => vetted_of_step ho, fun e authed h => ⟨?_, writer_accepts h⟩⟩
  rw [pl.same] at h
  exact Admission.check_eq_allow_iff.mpr h

end Pipeline

end Floonet
