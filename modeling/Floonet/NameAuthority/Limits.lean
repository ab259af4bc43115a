import Mathlib.Data.List.AList

/-!
# Rate limits, replay window and cooldowns

The two in-memory maps of the authority, each behind its own mutex: `rate`, which
holds the hits of every rate-limit bucket and of the release cooldown, and
`seen_auth`, the auth event ids in use. Times are readings of the monotone clock in
nanoseconds; `Instant::duration_since` of a later instant is zero, as subtraction of
naturals is.
-/

namespace Floonet.NameAuthority

/-- Nanoseconds in a second: `Duration::from_secs`. -/
def secs (n : Nat) : Nat := n * 1000000000

/-- `HashMap::retain`. -/
def retain {β : Type} (p : String → β → Bool) (m : AList fun _ : String => β) :
    AList fun _ : String => β :=
  ⟨m.entries.filter fun kv => p kv.1 kv.2, m.nodupKeys.sublist List.filter_sublist⟩

/-- What is retained is found as before. -/
theorem lookup_retain {β : Type} (p : String → β → Bool) (m : AList fun _ : String => β)
    (k : String) : (retain p m).lookup k = (m.lookup k).filter (p k) := by
  refine Option.ext fun v => ?_
  rw [Option.filter_eq_some_iff, ← Option.mem_def, ← Option.mem_def, AList.mem_lookup_iff,
    AList.mem_lookup_iff]
  exact List.mem_filter

/-- The maps `rate` and `seen_auth`. -/
structure Limits where
  /-- per-IP sliding windows and per-pubkey cooldowns -/
  rate : AList fun _ : String => List Nat
  /-- seen NIP-98 auth event ids (one-time use in the freshness window) -/
  seenAuth : AList fun _ : String => Nat

namespace Limits

/-- No windows and no authorizations. -/
def empty : Limits := ⟨∅, ∅⟩

/-- The key of a bucket. -/
def bucketKey (bucket key : String) : String := bucket ++ ":" ++ key

/-- The hits under a key, none if the key is absent. -/
def hits (l : Limits) (k : String) : List Nat := (l.rate.lookup k).getD []

/-- Keep the hits that are less than `window` old. -/
def recent (now window : Nat) (ts : List Nat) : List Nat := ts.filter fun t => now - t < window

/-- Record a NIP-98 auth event id as used; false if replayed. `window` is
`auth_max_age_secs.max(0) + 5` seconds. -/
def authEventFresh (l : Limits) (now window : Nat) (eventId : String) : Limits × Bool :=
  let seen := retain (fun _ t => now - t < window) l.seenAuth
  if eventId ∈ seen then ({ l with seenAuth := seen }, false)
  else ({ l with seenAuth := seen.insert eventId now }, true)

/-- True when an operation in this bucket happened within the window. -/
def cooldownActive (l : Limits) (now : Nat) (bucket key : String) (window : Nat) : Limits × Bool :=
  match l.rate.lookup (bucketKey bucket key) with
  | some ts =>
    let kept := recent now window ts
    ({ l with rate := l.rate.insert (bucketKey bucket key) kept }, !kept.isEmpty)
  | none => (l, false)

/-- Record a completed operation for cooldown tracking. -/
def recordOp (l : Limits) (now : Nat) (bucket key : String) : Limits :=
  let k := bucketKey bucket key
  { l with rate := l.rate.insert k (l.hits k ++ [now]) }

/-- The number of keys above which the map is cleaned. -/
def maxKeys : Nat := 50000

/-- Sliding-window per-IP limiter; true when the call is allowed. -/
def allow (l : Limits) (now : Nat) (bucket ip : String) (max window : Nat) : Limits × Bool :=
  let k := bucketKey bucket ip
  let kept := recent now window (l.hits k)
  if max ≤ kept.length then ({ l with rate := l.rate.insert k kept }, false)
  else
    let rate := l.rate.insert k (kept ++ [now])
    -- Opportunistic global cleanup to bound memory.
    if maxKeys < rate.keys.length then
      ({ l with rate := retain (fun _ ts => ts.any fun t => now - t < window) rate }, true)
    else ({ l with rate := rate }, true)

/-- This call passes its limit and finds the map too large. -/
def Cleans (l : Limits) (now : Nat) (bucket ip : String) (max window : Nat) : Prop :=
  (recent now window (l.hits (bucketKey bucket ip))).length < max ∧
    maxKeys < (l.rate.insert (bucketKey bucket ip) []).keys.length

instance (l : Limits) (now : Nat) (bucket ip : String) (max window : Nat) :
    Decidable (l.Cleans now bucket ip max window) := inferInstanceAs (Decidable (_ ∧ _))

/-! ## What becomes of a hit -/

section Hits

variable {l : Limits} {k bucket key ip : String} {now max window h : Nat}

/-- What is written for one key changes no other. -/
theorem hits_insert {ts : List Nat} {rate : AList fun _ : String => List Nat}
    (hrate : l.rate = rate.insert key ts) :
    l.hits k = if k = key then ts else (rate.lookup k).getD [] := by
  rw [hits, hrate]
  split_ifs with hk
  · rw [hk, AList.lookup_insert, Option.getD_some]
  · rw [AList.lookup_insert_ne hk]

/-- Recording keeps every hit and adds one. -/
theorem mem_hits_recordOp (hh : h ∈ l.hits k) : h ∈ (l.recordOp now bucket key).hits k := by
  rw [hits_insert (l := l.recordOp now bucket key) rfl]
  split_ifs with hk
  · exact List.mem_append_left _ (hk ▸ hh)
  · exact hh

theorem now_mem_hits_recordOp :
    now ∈ (l.recordOp now bucket key).hits (bucketKey bucket key) := by
  rw [hits_insert (l := l.recordOp now bucket key) rfl, if_pos rfl]
  exact List.mem_append_right _ (List.mem_singleton_self _)

/-- A check drops a hit only when its window is over. -/
theorem mem_hits_cooldownActive (hh : h ∈ l.hits k) :
    h ∈ (l.cooldownActive now bucket key window).1.hits k ∨ window ≤ now - h := by
  rw [cooldownActive]
  rcases hl : l.rate.lookup (bucketKey bucket key) with _ | ts
  · exact .inl hh
  · simp only
    rw [hits_insert rfl]
    split_ifs with hk
    · rw [hits, hk, hl, Option.getD_some] at hh
      by_cases hr : now - h < window
      · exact .inl (List.mem_filter.mpr ⟨hh, by simpa using hr⟩)
      · exact .inr (not_lt.mp hr)
    · exact .inl hh

/-- A check that passes found every hit out of its window. -/
theorem window_le_of_not_cooldownActive (hh : h ∈ l.hits (bucketKey bucket key))
    (hfalse : (l.cooldownActive now bucket key window).2 = false) : window ≤ now - h := by
  rw [cooldownActive] at hfalse
  rcases hl : l.rate.lookup (bucketKey bucket key) with _ | ts
  · rw [hits, hl] at hh
    cases hh
  · simp only [hl, Bool.not_eq_false', List.isEmpty_iff, recent] at hfalse
    rw [hits, hl, Option.getD_some] at hh
    have := List.filter_eq_nil_iff.mp hfalse h hh
    simpa using this

/-- The limiter touches its own key only, unless it cleans the map; then it also drops the keys
without a hit in the window. -/
theorem mem_hits_allow (hh : h ∈ l.hits k) (hk : k ≠ bucketKey bucket ip) :
    h ∈ (l.allow now bucket ip max window).1.hits k ∨
      (l.Cleans now bucket ip max window ∧ ∀ h' ∈ l.hits k, window ≤ now - h') := by
  simp only [allow]
  split_ifs with hmax hclean
  · left
    rwa [hits_insert rfl, if_neg hk]
  · have hkeys : maxKeys < (l.rate.insert (bucketKey bucket ip) []).keys.length := by
      rwa [AList.keys_insert] at hclean ⊢
    by_cases hr : ∃ h' ∈ l.hits k, now - h' < window
    · left
      rw [hits] at hh hr ⊢
      rcases hl : l.rate.lookup k with _ | ts
      · rw [hl] at hh
        cases hh
      · rw [hl, Option.getD_some] at hh hr
        have hany : (ts.any fun t => decide (now - t < window)) = true := by
          simpa only [List.any_eq_true, decide_eq_true_eq] using hr
        rw [lookup_retain, AList.lookup_insert_ne hk, hl, Option.filter_some, if_pos hany]
        exact hh
    · refine .inr ⟨⟨not_le.mp hmax, hkeys⟩, fun h' hh' => not_lt.mp fun hlt => hr ⟨h', hh', hlt⟩⟩
  · left
    rwa [hits_insert rfl, if_neg hk]

end Hits

/-! ## The replay check -/

/-- The replay check forgets the ids whose window is over; then it accepts an id it does
not know and remembers it, or refuses one it knows. -/
theorem authEventFresh_cases (l : Limits) (now window : Nat) (eventId : String) :
    ((l.authEventFresh now window eventId).2 = true ∧
      (∀ t, l.seenAuth.lookup eventId = some t → window ≤ now - t) ∧
      (l.authEventFresh now window eventId).1.seenAuth.lookup eventId = some now ∧
      ∀ k, k ≠ eventId → (l.authEventFresh now window eventId).1.seenAuth.lookup k =
        (l.seenAuth.lookup k).filter fun t => now - t < window) ∨
    ((l.authEventFresh now window eventId).2 = false ∧
      (∃ t, l.seenAuth.lookup eventId = some t ∧ now - t < window) ∧
      ∀ k, (l.authEventFresh now window eventId).1.seenAuth.lookup k =
        (l.seenAuth.lookup k).filter fun t => now - t < window) := by
  simp only [authEventFresh]
  split_ifs with hmem
  · right
    obtain ⟨t, ht⟩ := Option.isSome_iff_exists.mp (AList.lookup_isSome.mpr hmem)
    rw [lookup_retain, Option.filter_eq_some_iff] at ht
    exact ⟨rfl, ⟨t, ht.1, by simpa using ht.2⟩, fun k => lookup_retain _ _ k⟩
  · left
    refine ⟨rfl, ?_, AList.lookup_insert _, ?_⟩
    · intro t ht
      by_contra hlt
      refine hmem (AList.lookup_isSome.mp ?_)
      rw [lookup_retain, ht, Option.filter_some, if_pos (by simpa using hlt)]
      rfl
    · intro k hk
      rw [AList.lookup_insert_ne hk, lookup_retain]

end Limits

end Floonet.NameAuthority
