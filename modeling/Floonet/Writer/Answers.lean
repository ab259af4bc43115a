import Floonet.NameAuthority.Signed
import Floonet.Sqlite.Verification
import Floonet.Writer.DbWriter

/-!
# Every submission is answered

A client learns what became of its event from one event result. The writer keeps to that
through every refusal and through a failed write, but a few answers of the repository make
it skip the notice or leave the loop. `Silent` and `ChargeFails` are all of them, so a
sequence of events is answered in full exactly when none of its rounds meets one.
-/

namespace Floonet.DbWriter

variable {w : DbWriter} {r : Round}

/-- The event results a round sends. -/
def results (effects : List WriterEffect) : List EventResult :=
  effects.filterMap fun
    | .notice (.eventResult res) => some res
    | _ => none

/-- The event was broadcast as ephemeral, or `write_event` returned `Ok`. -/
def Succeeded (r : Round) (effects : List WriterEffect) : Prop :=
  (r.event.isEphemeral = true ∧ .broadcast r.event ∈ effects) ∨
    (.writeEvent r.event ∈ effects ∧ ∃ updated, r.write = .ok updated)

/-- The round sends one event result, and it is positive when the event succeeded. -/
def Answered (r : Round) (effects : List WriterEffect) : Prop :=
  ∃ res, results effects = [res] ∧ res.id = r.event.id ∧
    (res.status.toBool = true ↔ Succeeded r effects)

/-- The writer runs until the channel closes, and answers each event. -/
def AnswersAll (w : DbWriter) (rounds : List Round) : Prop :=
  ∃ outs, w.dbWriter rounds = (outs, .closed) ∧ List.Forall₂ Answered rounds outs

/-- The event is new to the relay. -/
def Fresh (r : Round) : Prop :=
  r.event.isEphemeral = true ∨ ∃ updated, r.write = .ok updated ∧ updated ≠ 0

/-- The author cannot be charged for an event that went out. -/
def ChargeFails (w : DbWriter) (r : Round) : Prop :=
  w.Passes r ∧ w.Pays r ∧ 0 < w.settings.costPerEvent ∧ Fresh r ∧ ∃ err, r.charge = .error err

/-! ## One round -/

/-- An effect that neither answers nor publishes. -/
def Quiet : WriterEffect → Prop
  | .notice _ => False
  | .broadcast _ => False
  | .writeEvent _ => False
  | _ => True

/-- A request to another service is no answer. -/
theorem quiet_of_isRequest {x : WriterEffect} (h : x.IsRequest) : Quiet x := by
  cases x with
  | payment m => trivial
  | admitEvent s address => trivial
  | _ => exact absurd h id

theorem quiet_forward {x : WriterEffect} (h : x ∈ w.forward r) : Quiet x := by
  rw [forward] at h
  split_ifs at h
  · rw [List.mem_singleton.mp h]
    trivial
  · cases h

theorem quiet_chargeAuthor {x : WriterEffect} {balance : Option Nat} {written : Bool}
    (h : x ∈ (w.chargeAuthor r balance written).1) : Quiet x := by
  rw [chargeAuthor] at h
  split at h
  · rcases hkey : w.keys.fromPkStr r.event.pubkey with _ | key <;> rw [hkey] at h
    · cases h
    · rw [List.mem_singleton.mp h]
      trivial
  · cases h

theorem results_append (a b : List WriterEffect) : results (a ++ b) = results a ++ results b :=
  List.filterMap_append

theorem results_of_quiet {a : List WriterEffect} (h : ∀ x ∈ a, Quiet x) : results a = [] := by
  refine List.filterMap_eq_nil_iff.mpr fun x hx => ?_
  have := h x hx
  cases x with
  | notice n => exact absurd this id
  | _ => rfl

/-- Around the publication nothing is answered or published. -/
theorem answered_append {a b stored : List WriterEffect} (ha : ∀ x ∈ a, Quiet x)
    (hb : ∀ x ∈ b, Quiet x) : Answered r (a ++ stored ++ b) ↔ Answered r stored := by
  have hmem : ∀ x, ¬ Quiet x → (x ∈ a ++ stored ++ b ↔ x ∈ stored) := by
    intro x hx
    rw [List.mem_append, List.mem_append]
    have : x ∉ a := fun h => hx (ha x h)
    have : x ∉ b := fun h => hx (hb x h)
    tauto
  have hsucc : Succeeded r (a ++ stored ++ b) ↔ Succeeded r stored := by
    rw [Succeeded, Succeeded, hmem _ id, hmem _ id]
  rw [Answered, Answered, hsucc, results_append, results_append, results_of_quiet ha,
    results_of_quiet hb, List.nil_append, List.append_nil]

/-- The publication answers. -/
theorem answered_store (r : Round) : Answered r (store r).1 := by
  rw [store]
  by_cases heph : r.event.isEphemeral = true
  · rw [if_pos heph]
    exact ⟨_, rfl, rfl, by simp [Succeeded, heph, EventResultStatus.toBool]⟩
  · rw [if_neg heph]
    rcases hw : r.write with err | updated <;> simp only
    · exact ⟨_, rfl, rfl, by simp [Succeeded, heph, hw, EventResultStatus.toBool]⟩
    · by_cases h0 : updated = 0
      · rw [if_pos h0]
        exact ⟨_, rfl, rfl, by simp [Succeeded, hw, EventResultStatus.toBool]⟩
      · rw [if_neg h0]
        exact ⟨_, rfl, rfl, by simp [Succeeded, hw, EventResultStatus.toBool]⟩

/-- The event is published when it is new. -/
theorem store_fresh (r : Round) : (store r).2 = true ↔ Fresh r := by
  rw [store, Fresh]
  by_cases heph : r.event.isEphemeral = true
  · simp [heph]
  · rcases hw : r.write with err | updated
    · simp [heph]
    · by_cases h0 : updated = 0 <;> simp [heph, h0]

/-- A refusal answers. -/
theorem answered_of_refusedBy {ended : Ended} (h : RefusedBy r.event ended) :
    ended.2 = .next ∧ Answered r ended.1 := by
  obtain ⟨requests, res, rfl, hid, hstatus, hreq⟩ := h
  refine ⟨rfl, res, ?_, hid, ?_⟩
  · rw [results_append, results_of_quiet fun x hx => quiet_of_isRequest (hreq x hx)]
    rfl
  · have hout : ∀ x, ¬ Quiet x → (∀ n, x ≠ .notice n) →
        x ∉ requests ++ [.notice (.eventResult res)] := by
      intro x hx hn hmem
      rcases List.mem_append.mp hmem with h | h
      · exact hx (quiet_of_isRequest (hreq x h))
      · exact hn _ (List.mem_singleton.mp h)
    rw [hstatus, Succeeded]
    have hb := hout (.broadcast r.event) id fun _ h => by cases h
    have hw := hout (.writeEvent r.event) id fun _ h => by cases h
    simp [hb, hw]

/-- The charge ends the round unless it fails. -/
theorem chargeAuthor_next {balance : Option Nat} (hp : w.Passes r)
    (hbal : balance.isSome ↔ w.Pays r) :
    (w.chargeAuthor r balance (store r).2).2 = .next ↔ ¬ w.ChargeFails r := by
  have hiff : ((store r).2 && w.settings.payToRelayEnabled && 0 < w.settings.costPerEvent &&
      balance.isSome) = true ↔ Fresh r ∧ 0 < w.settings.costPerEvent ∧ w.Pays r := by
    simp only [Bool.and_eq_true, decide_eq_true_eq, store_fresh, hbal]
    exact ⟨fun h => ⟨h.1.1.1, h.1.2, h.2⟩, fun h => ⟨⟨⟨h.1, h.2.2.1⟩, h.2.1⟩, h.2.2⟩⟩
  rw [chargeAuthor]
  by_cases hc : Fresh r ∧ 0 < w.settings.costPerEvent ∧ w.Pays r
  · rw [if_pos (hiff.mpr hc)]
    obtain ⟨hfresh, hcost, hpays⟩ := hc
    obtain ⟨key, hkey⟩ := Option.isSome_iff_exists.mp (hp.author.2 hpays).1
    rw [hkey]
    rcases hcharge : r.charge with err | ⟨⟩
    · simp [ChargeFails, hp, hfresh, hcost, hpays, hcharge, Except.isOk, Except.toBool]
    · simp [ChargeFails, hcharge, Except.isOk, Except.toBool]
  · rw [if_neg fun h => hc (hiff.mp h)]
    exact ⟨fun _ h => hc ⟨h.2.2.2.1, h.2.2.1, h.2.1⟩, fun _ => rfl⟩

/-- A round goes on to the next event and answers its own, unless it is silent or the
charge fails. -/
theorem round_answers (w : DbWriter) (r : Round) :
    ((w.round r).2 = .next ∧ Answered r (w.round r).1) ↔ ¬ w.Silent r ∧ ¬ w.ChargeFails r := by
  rcases round_cases w r with ⟨hp, hs, balance, called, hbal, hreq, hr⟩ | ⟨hp, hs, href⟩ |
    ⟨hp, hs, exit, hr, -⟩
  · rw [hr, chargeAuthor_next hp hbal]
    refine ⟨fun h => ⟨hs, h.1⟩, fun h => ⟨h.2, ?_⟩⟩
    refine (answered_append ?_ fun x => quiet_chargeAuthor).mpr (answered_store r)
    intro x hx
    rcases List.mem_append.mp hx with hx | hx
    · exact quiet_of_isRequest (hreq x hx)
    · exact quiet_forward hx
  · exact ⟨fun _ => ⟨hs, fun h => hp h.1⟩, fun _ => answered_of_refusedBy href⟩
  · rw [hr]
    refine ⟨?_, fun h => absurd hs h.1⟩
    rintro ⟨-, res, hres, -⟩
    cases hres

/-! ## All rounds -/

/-- The writer answers every event exactly when no round is silent or fails. -/
theorem loop_answers (w : DbWriter) (rounds : List Round) :
    (∃ outs, w.loop rounds = (outs, .closed) ∧ List.Forall₂ Answered rounds outs) ↔
      ∀ r ∈ rounds, r.shutdown = false ∧ ¬ w.Silent r ∧ ¬ w.ChargeFails r := by
  induction rounds with
  | nil => exact ⟨fun _ r hr => absurd hr List.not_mem_nil, fun _ => ⟨[], rfl, .nil⟩⟩
  | cons r rest ih =>
    rw [List.forall_mem_cons, ← ih, ← round_answers, loop]
    by_cases hsh : r.shutdown = true
    · rw [if_pos hsh]
      refine ⟨?_, fun h => ?_⟩
      · rintro ⟨outs, h, -⟩
        cases h
      · rw [h.1.1] at hsh
        cases hsh
    · rw [if_neg hsh]
      rcases hr : w.round r with ⟨effects, exit⟩
      cases exit with
      | next =>
        refine ⟨?_, ?_⟩
        · rintro ⟨outs, h, hall⟩
          obtain ⟨rfl, hstop⟩ := Prod.mk.inj h
          obtain ⟨ha, hrest⟩ := List.forall₂_cons.mp hall
          exact ⟨⟨by simpa using hsh, rfl, ha⟩, _, Prod.ext rfl hstop, hrest⟩
        · rintro ⟨⟨-, -, ha⟩, outs, h, hall⟩
          exact ⟨effects :: outs, by rw [h], .cons ha hall⟩
      | _ =>
        refine ⟨?_, fun h => by cases h.1.2.1⟩
        rintro ⟨outs, h, -⟩
        cases h

/-- **Answers of the writer.** For every sequence of events and everything the calls may
return, the writer stays until the channel closes and sends each event its one result,
positive on success, if and only if the rate limit can be built, no shutdown is signalled,
and no round ends without a notice or with a charge that fails. -/
theorem dbWriter_answers (w : DbWriter) (rounds : List Round) :
    w.AnswersAll rounds ↔ w.quotaPanics = false ∧
      ∀ r ∈ rounds, r.shutdown = false ∧ ¬ w.Silent r ∧ ¬ w.ChargeFails r := by
  rw [← loop_answers, AnswersAll, dbWriter]
  by_cases hq : w.quotaPanics = true
  · rw [if_pos hq]
    refine ⟨?_, fun h => ?_⟩
    · rintro ⟨outs, h, -⟩
      cases h
    · rw [h.1] at hq
      cases hq
  · rw [if_neg hq]
    exact ⟨fun h => ⟨by simpa using hq, h⟩, fun h => h.2⟩

/-! ## A lookup that fails -/

/-- A writer that publishes for verified authors only. -/
def verifiedOnly : DbWriter where
  settings := { Settings.default with
    eventKindBlacklist := none
    messagesPerSec := some 5
    costPerEvent := 0
    signUps := false
    directMessage := false
    verifiedUsers :=
      { mode := .enabled
        domainWhitelist := none
        domainBlacklist := none
        verifyExpirationDuration := some 604800000000000
        verifyUpdateFrequencyDuration := some 86400000000000
        maxConsecutiveFailures := 20 }
    eventAdmissionServer := none }
  keys := NameAuthority.sampleKeys

/-- The pool has no connection to look the author up with. -/
def lookupError : Round where
  shutdown := false
  now := 1700000063000000000
  submitted :=
    { event := Sqlite.sampleMetadata.event
      sourceIp := "192.0.2.7"
      origin := none
      userAgent := none
      authPubkey := none }
  balance := .error .noRows
  verification := .error .other
  decision := .error ()
  write := .ok 1
  charge := .ok ()

/-- The author never hears of the event. -/
theorem lookupError_unanswered : ¬ verifiedOnly.AnswersAll [lookupError] := by
  rintro ⟨outs, hrun, hall⟩
  have hsilent : verifiedOnly.dbWriter [lookupError] = ([[]], .closed) := rfl
  rw [hsilent] at hrun
  obtain ⟨rfl, -⟩ := Prod.mk.inj hrun
  obtain ⟨⟨res, hres, -⟩, -⟩ := List.forall₂_cons.mp hall
  cases hres

end Floonet.DbWriter
