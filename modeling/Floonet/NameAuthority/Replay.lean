import Floonet.NameAuthority.Signed

/-!
# Replayed auth events

An auth event is acceptable for `auth_max_age_secs + 5` seconds and part of one more, by
whole seconds of the clock; its id is remembered for `auth_max_age_secs + 5` seconds from
its first use. An event used in the first of these seconds can be used again in the last
one (`replayed`). What decides it is the time between two uses: an event authorizes only
once exactly when all its uses are closer together than that window
(`authorizes_once_iff`).
-/

namespace Floonet.NameAuthority

open Process (Obeys System)

/-- The event id a replay check looks at. -/
def presented : Call → Option String
  | ⟨.limits (.authEventFresh _ eventId), _⟩ => some eventId
  | _ => none

/-- The event id a replay check lets pass. -/
def authorized : Call → Option String
  | ⟨.limits (.authEventFresh _ eventId), true⟩ => some eventId
  | _ => none

/-- `verify_nip98` accepts the request at a clock reading, for an event id. -/
def Accepts (rl : Relay) (unixTime : Nat) (eventId : String) : Request → Prop
  | .register req => ∃ body pk, req.body = some body ∧
      registerAuth rl.authority req body unixTime = .ok (pk, eventId)
  | .unregister name req => ∃ pk,
      unregisterAuth rl.authority (strToLowercase name) req unixTime = .ok (pk, eventId)
  | _ => False

/-- The task of the step has read the clock, and its request was accepted at the
reading. -/
def Verified (rl : Relay) (c : Configuration) (m : Move) (eventId : String) : Prop :=
  ∃ m' ∈ c.trace, m'.thread = m.thread ∧
    ∃ now, m'.call = ⟨.unixTime, now⟩ ∧ Accepts rl now eventId m.request

/-- The event of a request passes both `verify_nip98` and the replay check. -/
def Authorizes (rl : Relay) (c : Configuration) (m : Move) (eventId : String) : Prop :=
  Verified rl c m eventId ∧ authorized m.call = some eventId

/-! ## One step -/

section Step

variable {rl : Relay} {r : Request} {past : List Call} {s : Shared} {e : Env} {o : Op}
  {eventId : String}

/-- A replay check comes right after the header was accepted. -/
theorem fresh_inv (h : rl.Calls r past (freshOp rl.authority eventId)) :
    ∃ now rest, past = ⟨.unixTime, now⟩ :: rest ∧ Accepts rl now eventId r := by
  cases r with
  | register req =>
    cases h with
    | fresh _ hbody hauth => exact ⟨_, _, rfl, _, _, hbody, hauth⟩
    | gate _ _ _ hg => exact absurd hg.inGate (by simp [Op.inGate])
  | unregister name req =>
    cases h with
    | fresh _ hauth => exact ⟨_, _, rfl, _, hauth⟩
  | payment m => exact absurd h id
  | event pk => exact absurd h id

theorem presented_of_authorized {x : Call} (h : authorized x = some eventId) :
    presented x = some eventId := by
  rcases x with ⟨o, a⟩
  cases o with
  | limits lo =>
    cases lo with
    | authEventFresh window id =>
      cases a with
      | true => exact h
      | false => cases h
    | _ => cases h
  | _ => cases h

/-- A step is a replay check, or leaves the seen ids alone. -/
theorem fresh_or_seenAuth (hcall : rl.Calls r past o) :
    (∃ id, o = freshOp rl.authority id) ∨
    ((∀ a : o.Res, presented ⟨o, a⟩ = none) ∧
      (rl.system.exec s e o).1.limits.seenAuth = s.limits.seenAuth) := by
  by_cases ho : ∃ lo, o = .limits lo
  · obtain ⟨bucket, ip, -, rfl⟩ | ⟨id, rfl⟩ | ⟨pk, rfl⟩ | ⟨pk, rfl⟩ := rl.limits_inv hcall ho
    · refine .inr ⟨fun a => rfl, ?_⟩
      change (s.limits.allow _ _ _ _ _).1.seenAuth = _
      simp only [Limits.allow]
      split_ifs <;> rfl
    · exact .inl ⟨id, rfl⟩
    · refine .inr ⟨fun a => rfl, ?_⟩
      change (s.limits.cooldownActive _ _ _ _).1.seenAuth = _
      rw [Limits.cooldownActive]
      split <;> rfl
    · exact .inr ⟨fun a => rfl, rfl⟩
  · have hne : ∀ lo, o ≠ .limits lo := fun lo hlo => ho ⟨lo, hlo⟩
    refine .inr ⟨fun a => ?_, congrArg Limits.seenAuth (Op.exec_limits hne)⟩
    cases o with
    | limits lo => exact absurd rfl (hne lo)
    | _ => rfl

end Step

/-! ## The invariant

The map of seen ids and the history bear each other out: a use is remembered until its window is
over, and what is remembered was used at that time. A step is a replay check that lets an event
pass, one that does not, or leaves the map alone. -/

/-- What the map and the history say about each other. -/
structure ReplayInv (rl : Relay) (c : Configuration) : Prop where
  clock : ∀ m ∈ c.trace, m.after.clock ≤ c.shared.clock
  /-- a use is remembered until its window is over -/
  seen : ∀ m ∈ c.trace, ∀ id, authorized m.call = some id →
    c.shared.limits.seenAuth.lookup id = some m.after.clock ∨
      m.after.clock + authWindow rl.authority ≤ c.shared.clock
  /-- what is remembered is a use -/
  source : ∀ id t, c.shared.limits.seenAuth.lookup id = some t →
    ∃ m ∈ c.trace, authorized m.call = some id ∧ m.after.clock = t
  /-- a check finds or makes a use in its window -/
  recent : ∀ m ∈ c.trace, ∀ id, presented m.call = some id →
    ∃ m₀ ∈ c.trace, authorized m₀.call = some id ∧ m₀.after.clock ≤ m.after.clock ∧
      m.after.clock < m₀.after.clock + authWindow rl.authority
  /-- two uses are a window apart -/
  apart : c.trace.Pairwise fun later earlier => ∀ id, authorized later.call = some id →
    authorized earlier.call = some id →
    earlier.after.clock + authWindow rl.authority ≤ later.after.clock
  /-- checks are made for accepted requests -/
  verified : ∀ m ∈ c.trace, ∀ id, presented m.call = some id → Verified rl c m id

section Invariant

variable {rl : Relay} {c : Configuration} {i : Nat} {e : Env} {r : Request} {past : List Call}

theorem authWindow_pos (a : Authority) : 0 < authWindow a := by
  rw [authWindow, secs]
  omega

/-- The configuration after a step: one more move, at the time it is now. -/
structure Extends (c c' : Configuration) (m : Move) : Prop where
  trace : c'.trace = m :: c.trace
  clock : m.after.clock = c'.shared.clock
  le : c.shared.clock ≤ c'.shared.clock

theorem extends_fire {o : Op} {k : o.Res → Task Answer} :
    Extends c (rl.system.fire c i e r past o k) ⟨i, r, ⟨o, (rl.system.exec c.shared e o).2⟩,
      c.shared, (rl.system.exec c.shared e o).1, (k (rl.system.exec c.shared e o).2).result⟩ where
  trace := rfl
  clock := rfl
  le := (Nat.le_add_right _ _).trans_eq (rl.clock_exec o).symm

section Check

variable {c' : Configuration} {m x : Move} {id : String}

theorem Verified.mono (hx : Verified rl c x id) (hc : Extends c c' m) : Verified rl c' x id := by
  obtain ⟨m₁, hm₁, hrest⟩ := hx
  exact ⟨m₁, hc.trace ▸ List.mem_cons_of_mem _ hm₁, hrest⟩

theorem ReplayInv.clock_cons (h : ReplayInv rl c) (hc : Extends c c' m) :
    ∀ x ∈ c'.trace, x.after.clock ≤ c'.shared.clock := by
  rw [hc.trace]
  exact List.forall_mem_cons.mpr ⟨hc.clock.le, fun x hx => (h.clock x hx).trans hc.le⟩

theorem ReplayInv.verified_cons (h : ReplayInv rl c) (hc : Extends c c' m)
    (hm : ∀ id, presented m.call = some id → Verified rl c' m id) :
    ∀ x ∈ c'.trace, ∀ id, presented x.call = some id → Verified rl c' x id := by
  intro x hx
  rw [hc.trace] at hx
  rcases List.mem_cons.mp hx with rfl | hx
  · exact hm
  · exact fun id ha => (h.verified x hx id ha).mono hc

/-- An id is remembered as before, unless its window is over. -/
def Kept (rl : Relay) (c c' : Configuration) (id : String) : Prop :=
  c'.shared.limits.seenAuth.lookup id = c.shared.limits.seenAuth.lookup id ∨
    c'.shared.limits.seenAuth.lookup id = (c.shared.limits.seenAuth.lookup id).filter
      fun t => c'.shared.clock - t < authWindow rl.authority

/-- A use is remembered still, or its window is over. -/
theorem ReplayInv.seen_of_kept (h : ReplayInv rl c) (hc : Extends c c' m) (hx : x ∈ c.trace)
    (ha : authorized x.call = some id) (hkept : Kept rl c c' id) :
    c'.shared.limits.seenAuth.lookup id = some x.after.clock ∨
      x.after.clock + authWindow rl.authority ≤ c'.shared.clock := by
  have hpos := authWindow_pos rl.authority
  obtain hsome | hover := h.seen x hx id ha
  · obtain hsame | hfilter := hkept
    · exact .inl (hsame.trans hsome)
    · rw [hfilter, hsome, Option.filter_some]
      by_cases hlt : c'.shared.clock - x.after.clock < authWindow rl.authority
      · exact .inl (if_pos (by simpa using hlt))
      · exact .inr (by omega)
  · exact .inr (hover.trans hc.le)

/-- What is remembered was authorized at that time. -/
theorem ReplayInv.source_of_kept (h : ReplayInv rl c) (hc : Extends c c' m)
    (hkept : Kept rl c c' id) {t : Nat} (ht : c'.shared.limits.seenAuth.lookup id = some t) :
    ∃ x ∈ c'.trace, authorized x.call = some id ∧ x.after.clock = t := by
  have hold : c.shared.limits.seenAuth.lookup id = some t := by
    obtain hsame | hfilter := hkept
    · exact hsame.symm.trans ht
    · rw [hfilter, Option.filter_eq_some_iff] at ht
      exact ht.1
  obtain ⟨x, hx, hrest⟩ := h.source id t hold
  exact ⟨x, hc.trace ▸ List.mem_cons_of_mem _ hx, hrest⟩

/-- What was presented was authorized not long before. -/
theorem ReplayInv.recent_cons (h : ReplayInv rl c) (hc : Extends c c' m) (hx : x ∈ c.trace)
    (ha : presented x.call = some id) :
    ∃ m₀ ∈ c'.trace, authorized m₀.call = some id ∧ m₀.after.clock ≤ x.after.clock ∧
      x.after.clock < m₀.after.clock + authWindow rl.authority := by
  obtain ⟨m₀, hm₀, hrest⟩ := h.recent x hx id ha
  exact ⟨m₀, hc.trace ▸ List.mem_cons_of_mem _ hm₀, hrest⟩

/-- A step that lets no event pass. -/
theorem ReplayInv.refuse (h : ReplayInv rl c) (hc : Extends c c' m)
    (hm : ∀ id, authorized m.call ≠ some id) (hkept : ∀ id, Kept rl c c' id)
    (hrecent : ∀ id, presented m.call = some id →
      ∃ t, c.shared.limits.seenAuth.lookup id = some t ∧
        c'.shared.clock - t < authWindow rl.authority)
    (hver : ∀ id, presented m.call = some id → Verified rl c' m id) : ReplayInv rl c' where
  clock := h.clock_cons hc
  seen := by
    rw [hc.trace]
    exact List.forall_mem_cons.mpr ⟨fun id ha => absurd ha (hm id),
      fun x hx id ha => h.seen_of_kept hc hx ha (hkept id)⟩
  source := fun id t ht => h.source_of_kept hc (hkept id) ht
  recent := by
    intro x hx id ha
    rw [hc.trace] at hx
    rcases List.mem_cons.mp hx with rfl | hx
    · obtain ⟨t, ht, hlt⟩ := hrecent id ha
      obtain ⟨m₀, hm₀, hauth, rfl⟩ := h.source id t ht
      have hm₀c := (h.clock m₀ hm₀).trans hc.le
      rw [hc.clock]
      exact ⟨m₀, hc.trace ▸ List.mem_cons_of_mem _ hm₀, hauth, hm₀c, by omega⟩
    · exact h.recent_cons hc hx ha
  apart := by
    rw [hc.trace]
    exact List.pairwise_cons.mpr ⟨fun x _ id ha _ => absurd ha (hm id), h.apart⟩
  verified := h.verified_cons hc hver

/-- A step that lets an event pass: its earlier uses are a window ago. -/
theorem ReplayInv.accept (h : ReplayInv rl c) (hc : Extends c c' m)
    (hm : authorized m.call = some id)
    (hforgot : ∀ t, c.shared.limits.seenAuth.lookup id = some t →
      authWindow rl.authority ≤ c'.shared.clock - t)
    (hnew : c'.shared.limits.seenAuth.lookup id = some c'.shared.clock)
    (hkept : ∀ id', id' ≠ id → Kept rl c c' id')
    (hver : Verified rl c' m id) : ReplayInv rl c' := by
  have hself : ∀ id', authorized m.call = some id' → id' = id := fun id' ha =>
    (Option.some.inj (hm.symm.trans ha)).symm
  have hpos := authWindow_pos rl.authority
  have hmem : m ∈ c'.trace := hc.trace ▸ List.mem_cons_self ..
  have hover : ∀ x ∈ c.trace, authorized x.call = some id →
      x.after.clock + authWindow rl.authority ≤ c'.shared.clock := by
    intro x hx ha
    obtain hsome | hover := h.seen x hx id ha
    · have := hforgot _ hsome
      omega
    · exact hover.trans hc.le
  refine ⟨h.clock_cons hc, ?_, ?_, ?_, ?_, h.verified_cons hc ?_⟩
  · intro x hx id' ha
    rw [hc.trace] at hx
    rcases List.mem_cons.mp hx with rfl | hx
    · rw [hself id' ha, hc.clock]
      exact .inl hnew
    · by_cases hid : id' = id
      · rw [hid] at ha
        exact .inr (hover x hx ha)
      · exact h.seen_of_kept hc hx ha (hkept id' hid)
  · intro id' t ht
    by_cases hid : id' = id
    · rw [hid, hnew] at ht
      exact ⟨m, hmem, hid ▸ hm, hc.clock.trans (Option.some.inj ht)⟩
    · exact h.source_of_kept hc (hkept id' hid) ht
  · intro x hx id' ha
    rw [hc.trace] at hx
    rcases List.mem_cons.mp hx with rfl | hx
    · have hid : id' = id := by
        have := (presented_of_authorized hm).symm.trans ha
        exact (Option.some.inj this).symm
      exact ⟨x, hmem, hid ▸ hm, le_refl _, by omega⟩
    · exact h.recent_cons hc hx ha
  · rw [hc.trace]
    refine List.pairwise_cons.mpr ⟨fun x hx id' ha ha' => ?_, h.apart⟩
    rw [hself id' ha] at ha'
    rw [hc.clock]
    exact hover x hx ha'
  · intro id' ha
    obtain rfl := Option.some.inj ((presented_of_authorized hm).symm.trans ha)
    exact hver

end Check

theorem replayInv_fire {o : Op} {k : o.Res → Task Answer} (hc : rl.Sound c) (h : ReplayInv rl c)
    (hi : c.threads[i]? = some ⟨r, past, .call o k⟩) :
    ReplayInv rl (rl.system.fire c i e r past o k) := by
  have hcall := (Process.obeys_call.mp (hc.obeys hi)).1
  obtain ⟨id, rfl⟩ | ⟨hnone, hseen⟩ := fresh_or_seenAuth (s := c.shared) (e := e) hcall
  · have hver : ∀ m : Move, m.thread = i → m.request = r →
        Verified rl (rl.system.fire c i e r past (freshOp rl.authority id) k) m id := by
      rintro m rfl rfl
      obtain ⟨now, rest, rfl, hacc⟩ := fresh_inv hcall
      obtain ⟨m', hm', hthread, -, hmcall⟩ := hc.past hi _ (List.mem_cons_self ..)
      exact ⟨m', List.mem_cons_of_mem _ hm', hthread, now, hmcall, hacc⟩
    obtain ⟨htrue, hforgot, hnew, hkept⟩ | ⟨hfalse, hknown, hkept⟩ :=
      c.shared.limits.authEventFresh_cases (c.shared.clock + e.elapsed) (authWindow rl.authority) id
    · refine h.accept extends_fire ?_ hforgot hnew (fun id' hid => .inr (hkept id' hid))
        (hver _ rfl rfl)
      exact congrArg (fun b => authorized ⟨freshOp rl.authority id, b⟩) htrue
    · refine h.refuse extends_fire ?_ (fun id' => .inr (hkept id')) ?_ ?_
      · intro id' ha
        have hnone := congrArg (fun b => authorized ⟨freshOp rl.authority id, b⟩) hfalse
        exact absurd (hnone.symm.trans ha) (by simp [authorized])
      · rintro id' hid
        obtain rfl := Option.some.inj hid
        exact hknown
      · rintro id' hid
        obtain rfl := Option.some.inj hid
        exact hver _ rfl rfl
  · refine h.refuse extends_fire ?_ ?_ ?_ ?_
    · intro id ha
      have := (hnone _).symm.trans (presented_of_authorized ha)
      cases this
    · exact fun id => .inl (congrArg (fun m => m.lookup id) hseen)
    · exact fun id ha => absurd ((hnone _).symm.trans ha) (by simp)
    · exact fun id ha => absurd ((hnone _).symm.trans ha) (by simp)

theorem replayInv_run (rl : Relay) (clock : Nat) (acts : List Action) :
    ReplayInv rl (rl.run clock acts) := by
  refine (System.invariant (P := ReplayInv rl) rl.obeys ?_ ?_ ?_ acts).2
  · refine ⟨?_, ?_, ?_, ?_, List.Pairwise.nil, ?_⟩
    · intro m hm
      cases hm
    · intro m hm
      cases hm
    · intro id t ht
      cases ht
    · intro m hm
      cases hm
    · intro m hm
      cases hm
  · exact fun c r _ h => ⟨h.clock, h.seen, h.source, h.recent, h.apart, h.verified⟩
  · exact fun c i e r past o k hc h hi => replayInv_fire hc h hi

end Invariant

/-- No event passes `verify_nip98` and the replay check twice, exactly when any two
requests that carry the same event reach the replay check within its window. -/
theorem authorizes_once_iff (rl : Relay) (clock : Nat) (acts : List Action) :
    ((rl.run clock acts).trace.Pairwise fun later earlier => ∀ id,
      ¬(Authorizes rl (rl.run clock acts) later id ∧
        Authorizes rl (rl.run clock acts) earlier id)) ↔
    (rl.run clock acts).trace.Pairwise fun later earlier => ∀ id,
      presented later.call = some id → presented earlier.call = some id →
        later.after.clock < earlier.after.clock + authWindow rl.authority := by
  have hinv := replayInv_run rl clock acts
  have hauth : ∀ m ∈ (rl.run clock acts).trace, ∀ id, authorized m.call = some id →
      Authorizes rl (rl.run clock acts) m id := fun m hm id ha =>
    ⟨hinv.verified m hm id (presented_of_authorized ha), ha⟩
  refine ⟨fun honce => ?_, fun hclose => ?_⟩
  · -- two checks a window apart each have a use near them
    refine List.pairwise_iff_getElem.mpr fun i j hi hj hij id hlater hearlier => ?_
    obtain ⟨m₀, hm₀, ha₀, -, hnear⟩ := hinv.recent _ (List.getElem_mem hi) id hlater
    obtain ⟨m₁, hm₁, ha₁, hbefore, -⟩ := hinv.recent _ (List.getElem_mem hj) id hearlier
    by_contra hfar
    have hne : m₀ ≠ m₁ := by
      rintro rfl
      omega
    have : Std.Symm fun x y : Move => ∀ id,
        ¬(Authorizes rl (rl.run clock acts) x id ∧ Authorizes rl (rl.run clock acts) y id) :=
      ⟨fun x y hxy id hyx => hxy id ⟨hyx.2, hyx.1⟩⟩
    exact honce.forall hm₀ hm₁ hne id ⟨hauth m₀ hm₀ id ha₀, hauth m₁ hm₁ id ha₁⟩
  · refine (hinv.apart.and hclose).imp fun {later earlier} h id hboth => ?_
    have hfar := h.1 id hboth.1.2 hboth.2.2
    have hnear := h.2 id (presented_of_authorized hboth.1.2) (presented_of_authorized hboth.2.2)
    omega

open NameAuthority.Arrival (runs)

/-- Ada's request arrives five seconds before the time it is dated, and is sent again
sixty-five seconds later, in the last second in which it is acceptable. -/
def twice : List (Process.Act Arrival Env) :=
  .spawn .ada :: runs 0 7 ++ .spawn .ada :: .run 1 { elapsed := secs 65 } :: runs 1 2

theorem twice_trace :
    (sampleRun none (secs 1699999995) twice).trace[0]?.map (fun m => authorized m.call) =
      some (some Signed.registerAda.auth.event.id) ∧
    (sampleRun none (secs 1699999995) twice).trace[7]?.map (fun m => authorized m.call) =
      some (some Signed.registerAda.auth.event.id) := by
  decide +kernel

/-- Both times the event passes. -/
theorem replayed :
    ¬((sampleRelay none).run (secs 1699999995)
        (twice.map (Process.Act.rename Arrival.request))).trace.Pairwise fun later earlier => ∀ id,
      ¬(Authorizes (sampleRelay none) ((sampleRelay none).run (secs 1699999995)
          (twice.map (Process.Act.rename Arrival.request))) later id ∧
        Authorizes (sampleRelay none) ((sampleRelay none).run (secs 1699999995)
          (twice.map (Process.Act.rename Arrival.request))) earlier id) := by
  intro h
  obtain ⟨h₀, h₇⟩ := twice_trace
  obtain ⟨later, hlater, hauth⟩ := Option.map_eq_some_iff.mp h₀
  obtain ⟨earlier, hearlier, hauth'⟩ := Option.map_eq_some_iff.mp h₇
  have hinv := replayInv_run (sampleRelay none) (secs 1699999995)
    (twice.map (Process.Act.rename Arrival.request))
  have hid := presented_of_authorized hauth
  have hid' := presented_of_authorized hauth'
  refine pairwise_samples h (by decide : 0 < 7) hlater hearlier _ ⟨⟨?_, hauth⟩, ?_, hauth'⟩
  · exact hinv.verified _ (List.mem_of_getElem? (getElem?_samples hlater)) _ hid
  · exact hinv.verified _ (List.mem_of_getElem? (getElem?_samples hearlier)) _ hid'

end Floonet.NameAuthority
