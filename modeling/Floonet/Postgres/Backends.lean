import Floonet.Postgres.Order

/-!
# Two backends

The same events written to both backends are shown alike, except where a deletion comes before
its event (`showAlike_iff`): SQLite looks for the text of the id in the stored deletions, Postgres
for its bytes. On Postgres the order therefore matters whenever an event is named at all
(`orderFree_iff`).
-/

namespace Floonet.Postgres

open Arrival (Before)
open Sqlite (Submission NamesText NamesHash Deletable)

variable {crypto : Crypto} {eng : Sql.Engine} {server : Server} {es pre : List Event}
  {d x : Event}

theorem deletable_not_deletionBy (hx : Deletable x) : ¬ DeletionBy server x x := fun h => hx.1 h.kind

/-- A kept event is shown, unless it is hidden. -/
theorem serialized_mem_visible (hs : Submission crypto es) (hu64 : ∀ e ∈ es, U64 e)
    (hk : Kept server es x) :
    x.serialized ∈ visible (writes server es) ↔ ¬ HiddenIn server es x := by
  rw [mem_visible hs hu64]
  refine ⟨?_, fun hh => ⟨x, hk, hh, rfl⟩⟩
  rintro ⟨y, hky, hh, hy⟩
  have hid : y.serialized.id = x.serialized.id := by rw [hy]
  obtain rfl := hs.eq_of_id hky.mem hk.mem hid
  exact hh

/-! ## The order on Postgres

What one order hides is known. All orders hide the same when a target that is named at all is
named both ways by one deletion. -/

/-- Any two orders of the events leave the same visible events. -/
def OrderFree (server : Server) (es : List Event) : Prop :=
  ∀ es₁ es₂, es₁.Perm es → es₂.Perm es →
    visible (writes server es₁) = visible (writes server es₂)

/-- **When the order does not matter on Postgres**: every kept event that a deletion of its author
names, in hex or in raw bytes, is named both ways by one of them. -/
theorem orderFree_iff (crypto : Crypto) (server : Server) (es : List Event)
    (hs : Submission crypto es) (hu64 : ∀ e ∈ es, U64 e) :
    OrderFree server es ↔ ∀ x, Kept server es x → Deletable x →
      (∃ d ∈ es, DeletionBy server d x ∧ (NamesBytes d x ∨ NamesHash d x)) →
        ∃ d ∈ es, DeletionBy server d x ∧ NamesBytes d x ∧ NamesHash d x := by
  have hu : ∀ {m : List Event}, m.Perm es → ∀ e ∈ m, U64 e :=
    fun hp e he => hu64 e (hp.mem_iff.mp he)
  have hmark : ∀ x, Kept server es x → Deletable x →
      ((∀ l₁ l₂, l₁.Perm es → l₂.Perm es →
        (HiddenIn server l₁ x ↔ HiddenIn server l₂ x)) ↔
      ((∃ d ∈ es, DeletionBy server d x ∧ (NamesBytes d x ∨ NamesHash d x)) →
        ∃ d ∈ es, DeletionBy server d x ∧ NamesBytes d x ∧ NamesHash d x)) := by
    intro x hk hdel
    have hself : ¬ DeletionBy server x x := deletable_not_deletionBy hdel
    have hlib := Arrival.marked_perm_iff
      (fun d => DeletionBy server d x ∧ NamesBytes d x)
      (fun d => DeletionBy server d x ∧ NamesHash d x)
      (List.Nodup.of_map _ hs.id_nodup) hk.mem (fun h => hself h.1) fun h => hself h.1
    simp only [HiddenIn, and_iff_right hdel]
    refine hlib.trans (imp_congr ?_ ?_)
    · simp only [and_or_left]
    · refine exists_congr fun d => and_congr_right fun _ => ?_
      exact ⟨fun h => ⟨h.1.1, h.1.2, h.2.2⟩, fun h => ⟨⟨h.1, h.2.1⟩, h.1, h.2.2⟩⟩
  refine ⟨fun hfree x hk hdel => (hmark x hk hdel).mp fun l₁ l₂ hp₁ hp₂ => ?_, fun h => ?_⟩
  · rw [← not_iff_not, ← serialized_mem_visible (hs.perm hp₁) (hu hp₁) (hk.perm hp₁),
      ← serialized_mem_visible (hs.perm hp₂) (hu hp₂) (hk.perm hp₂), hfree l₁ l₂ hp₁ hp₂]
  · intro l₁ l₂ hp₁ hp₂
    ext y
    have hsame : ∀ x, Kept server es x → (HiddenIn server l₁ x ↔ HiddenIn server l₂ x) := by
      intro x hk
      by_cases hdel : Deletable x
      · exact (hmark x hk hdel).mpr (h x hk hdel) l₁ l₂ hp₁ hp₂
      · exact iff_of_false (fun hh => hdel hh.1) fun hh => hdel hh.1
    rw [mem_visible (hs.perm hp₁) (hu hp₁), mem_visible (hs.perm hp₂) (hu hp₂)]
    refine exists_congr fun x => ⟨?_, ?_⟩
    · rintro ⟨hk, hh, hy⟩
      have hk' := hk.perm hp₁.symm
      exact ⟨hk'.perm hp₂, fun hh' => hh ((hsame x hk').mpr hh'), hy⟩
    · rintro ⟨hk, hh, hy⟩
      have hk' := hk.perm hp₂.symm
      exact ⟨hk'.perm hp₁, fun hh' => hh ((hsame x hk').mp hh'), hy⟩

/-! ## The same events on SQLite

Both backends keep the same events, so they show the same exactly if they hide the same ones. A
deletion that comes later is found by the hash on both; of one that came before SQLite looks for
the text of the id, Postgres for the bytes. -/

/-- The backends can store the same events. -/
def TakenAlike (eng : Sql.Engine) (server : Server) (es : List Event) : Prop :=
  ∀ e ∈ es, Sqlite.storable eng e = true ↔ Storable server e

/-- A stored time stays what it is. -/
theorem asI64_of_storable (h : Sqlite.storable eng x = true) : asI64 x.createdAt = x.createdAt :=
  asI64_of_lt (of_decide_eq_true (Sqlite.fitsI64_of_storable h))

/-- The backends keep the same events. -/
theorem kept_iff (ht : TakenAlike eng server es) : Sqlite.Kept eng es x ↔ Kept server es x := by
  refine ⟨fun hk => ⟨hk.mem, (ht x hk.mem).mp hk.storable, fun hrep y hy hst hpk hky => ?_⟩,
    fun hk => ⟨hk.mem, (ht x hk.mem).mpr hk.storable, fun hrep y hy hst hpk hky => ?_⟩⟩
  · have hst' := (ht y hy).mpr hst
    rw [asI64_of_storable hst', asI64_of_storable hk.storable, Int.ofNat_le]
    exact hk.newest hrep y hy hst' hpk hky
  · have hle := hk.newest hrep y hy ((ht y hy).mp hst) hpk hky
    rwa [asI64_of_storable hst, asI64_of_storable ((ht x hk.mem).mpr hk.storable),
      Int.ofNat_le] at hle

theorem deletionBy_iff (ht : TakenAlike eng server es) (hd : d ∈ es) :
    Sqlite.DeletionBy eng d x ↔ DeletionBy server d x :=
  ⟨fun h => ⟨h.kind, (ht d hd).mp h.storable, h.author⟩,
    fun h => ⟨h.kind, (ht d hd).mpr h.storable, h.author⟩⟩

/-- Hiding on SQLite, in terms of what Postgres can store. -/
theorem hiddenIn_sqlite_iff (ht : TakenAlike eng server es) :
    Sqlite.HiddenIn eng es x ↔ Deletable x ∧ Arrival.Marked es x
      (fun d => DeletionBy server d x ∧ NamesText d x)
      fun d => DeletionBy server d x ∧ NamesHash d x := by
  refine and_congr_right fun _ => exists_congr fun d => ?_
  rw [and_or_left]
  refine or_congr ?_ ?_
  · refine ⟨fun ⟨hd, hb, hn⟩ => ⟨hb, (deletionBy_iff ht hb.mem_left).mp hd, hn⟩,
      fun ⟨hb, hd, hn⟩ => ⟨(deletionBy_iff ht hb.mem_left).mpr hd, hb, hn⟩⟩
  · refine ⟨fun ⟨hd, hb, hn⟩ => ⟨hb, (deletionBy_iff ht hb.mem_right).mp hd, hn⟩,
      fun ⟨hb, hd, hn⟩ => ⟨(deletionBy_iff ht hb.mem_right).mpr hd, hb, hn⟩⟩

/-- The backends show the same events. -/
def ShowAlike (eng : Sql.Engine) (server : Server) (es : List Event) : Prop :=
  Sqlite.visible (Sqlite.writes eng es) = visible (writes server es)

/-- They do when they hide the same kept events. -/
theorem showAlike_iff_hiddenIn (hs : Submission crypto es) (hu64 : ∀ e ∈ es, U64 e)
    (ht : TakenAlike eng server es) : ShowAlike eng server es ↔
      ∀ x, Kept server es x → (Sqlite.HiddenIn eng es x ↔ HiddenIn server es x) := by
  refine ⟨fun h x hk => ?_, fun h => ?_⟩
  · have hsq : x.serialized ∈ Sqlite.visible (Sqlite.writes eng es) ↔
        ¬ Sqlite.HiddenIn eng es x := by
      rw [Sqlite.mem_visible hs]
      refine ⟨?_, fun hh => ⟨x, (kept_iff ht).mpr hk, hh, rfl⟩⟩
      rintro ⟨y, hky, hh, hy⟩
      have hid : y.serialized.id = x.serialized.id := by rw [hy]
      obtain rfl := hs.eq_of_id hky.mem hk.mem hid
      exact hh
    rw [← not_iff_not, ← hsq, ← serialized_mem_visible hs hu64 hk, show
      Sqlite.visible (Sqlite.writes eng es) = visible (writes server es) from h]
  · refine Set.ext fun y => ?_
    rw [Sqlite.mem_visible hs, mem_visible hs hu64]
    refine exists_congr fun x => ?_
    rw [kept_iff ht]
    refine and_congr_right fun hk => ?_
    rw [h x hk]

/-- **When the backends show the same.** For events that both or neither can store, in any order:
exactly when every kept event that no later deletion names was named by an earlier one with its
id, if and only if by an earlier one with its bytes. -/
theorem showAlike_iff (crypto : Crypto) (eng : Sql.Engine) (server : Server) (es : List Event)
    (hs : Submission crypto es) (hu64 : ∀ e ∈ es, U64 e) (ht : TakenAlike eng server es) :
    ShowAlike eng server es ↔ ∀ x, Kept server es x → Deletable x →
      (∀ d, Before es x d → ¬ (DeletionBy server d x ∧ NamesHash d x)) →
        ((∃ d, Before es d x ∧ DeletionBy server d x ∧ NamesText d x) ↔
          ∃ d, Before es d x ∧ DeletionBy server d x ∧ NamesBytes d x) := by
  rw [showAlike_iff_hiddenIn hs hu64 ht]
  refine forall₂_congr fun x _ => ?_
  rw [hiddenIn_sqlite_iff ht, HiddenIn]
  by_cases hdel : Deletable x
  · simp only [hdel, true_and, true_implies]
    exact Arrival.marked_congr_iff
  · simp [hdel]

/-! ## A note and its deletion -/

/-- What the two write paths read in the note and its deletion. -/
structure SamplePair (note deletion : Event) : Prop where
  note_taken : ∀ nv ∈ note.searchableTags, refusal Server.inOrder (tagRow [] nv) = none
  deletion_taken : ∀ nv ∈ deletion.searchableTags, refusal Server.inOrder (tagRow [] nv) = none
  ids : deletionIds deletion ≠ [] ∧
    1 + (deletionIds deletion).length ≤ Server.inOrder.maxVariables
  hex : ∀ v ∈ deletion.tagValuesByName "e", storedAsHex v = true
  note_storable : Sqlite.storable (Sql.Engine.inOrder 32766) note = true
  deletion_storable : Sqlite.storable (Sql.Engine.inOrder 32766) deletion = true
  author : Hex.decode deletion.pubkey = Hex.decode note.pubkey
  names : Hex.ofNat 32 Sqlite.sampleNote.id ∈ Sqlite.deletionHashes deletion
  names_text : ("e", note.id) ∈ deletion.searchableTags

theorem samplePair : SamplePair Sqlite.sampleNote.event Sqlite.sampleNoteDeletion.event := by
  constructor <;> decide +kernel

theorem samplePair_storable : Storable Server.inOrder Sqlite.sampleNote.event ∧
    Storable Server.inOrder Sqlite.sampleNoteDeletion.event := by
  refine ⟨storable_note rfl (by decide) rfl samplePair.note_taken, ?_⟩
  exact
    { createdAt := ⟨1700000051, by decide, by decide⟩
      expiresAt := fun _ h => by cases h
      kind := by decide
      tags := by
        intro id _ t ht
        obtain ⟨nv, hnv, rfl⟩ := List.mem_map.mp ht
        exact samplePair.deletion_taken nv hnv
      deletion := fun _ => samplePair.ids }

/-- The deletion does not have the bytes of a hash. -/
theorem samplePair_not_bytes : ¬ NamesBytes Sqlite.sampleNoteDeletion.event x := by
  rintro ⟨id, -, v, hv, hhex, -⟩
  rw [samplePair.hex v hv] at hhex
  cases hhex

theorem samplePair_submission : Submission (Recorded.crypto [Sqlite.sampleNote,
    Sqlite.sampleNoteDeletion]) [Sqlite.sampleNote.event, Sqlite.sampleNoteDeletion.event] :=
  Submission.recorded [Sqlite.sampleNote, Sqlite.sampleNoteDeletion] (by decide)
    (by decide +kernel) (by decide) (by decide)

theorem samplePair_u64 : ∀ e ∈ [Sqlite.sampleNote.event, Sqlite.sampleNoteDeletion.event],
    U64 e := by
  intro e he
  rcases List.mem_pair.mp he with rfl | rfl
  · exact ⟨by decide, by decide⟩
  · exact ⟨by decide, by decide⟩

theorem samplePair_takenAlike : TakenAlike (Sql.Engine.inOrder 32766) Server.inOrder
    [Sqlite.sampleNote.event, Sqlite.sampleNoteDeletion.event] := by
  intro e he
  rcases List.mem_pair.mp he with rfl | rfl
  · exact iff_of_true samplePair.note_storable samplePair_storable.1
  · exact iff_of_true samplePair.deletion_storable samplePair_storable.2

theorem samplePair_deletionBy :
    DeletionBy Server.inOrder Sqlite.sampleNoteDeletion.event Sqlite.sampleNote.event :=
  ⟨rfl, samplePair_storable.2, samplePair.author⟩

/-- Whether the note is shown in the end depends on which came first. -/
theorem samplePair_not_orderFree :
    ¬ OrderFree Server.inOrder [Sqlite.sampleNote.event, Sqlite.sampleNoteDeletion.event] := by
  intro hfree
  obtain ⟨d, hd, -, hbytes, -⟩ := (orderFree_iff _ _ _ samplePair_submission samplePair_u64).mp
    hfree Sqlite.sampleNote.event
    ⟨by simp, samplePair_storable.1, fun h => absurd h (by decide)⟩ ⟨by decide, by decide⟩
    ⟨_, by simp, samplePair_deletionBy, .inr ⟨_, samplePair.names, Recorded.decode_event_id _⟩⟩
  rcases List.mem_pair.mp hd with rfl | rfl
  · obtain ⟨-, -, v, hv, -⟩ := hbytes
    cases hv
  · exact samplePair_not_bytes hbytes

/-- The note first: both backends hide it. The deletion first: only SQLite does. -/
theorem samplePair_showAlike :
    ShowAlike (Sql.Engine.inOrder 32766) Server.inOrder
        [Sqlite.sampleNote.event, Sqlite.sampleNoteDeletion.event] ∧
      ¬ ShowAlike (Sql.Engine.inOrder 32766) Server.inOrder
        [Sqlite.sampleNoteDeletion.event, Sqlite.sampleNote.event] := by
  have hswap : [Sqlite.sampleNoteDeletion.event, Sqlite.sampleNote.event].Perm
      [Sqlite.sampleNote.event, Sqlite.sampleNoteDeletion.event] := List.Perm.swap ..
  have hd := samplePair_deletionBy
  refine ⟨?_, fun h => ?_⟩
  · refine (showAlike_iff _ _ _ _ samplePair_submission samplePair_u64
      samplePair_takenAlike).mpr fun x hk hdel hlater => ?_
    rcases List.mem_pair.mp hk.mem with rfl | rfl
    · exact absurd ⟨hd, _, samplePair.names, Recorded.decode_event_id _⟩
        (hlater _ (List.Sublist.refl _))
    · exact absurd rfl hdel.1
  · have hk : Kept Server.inOrder [Sqlite.sampleNoteDeletion.event, Sqlite.sampleNote.event]
        Sqlite.sampleNote.event :=
      ⟨by simp, samplePair_storable.1, fun h => absurd h (by decide)⟩
    have hone := (showAlike_iff _ _ _ _ (samplePair_submission.perm hswap)
      (fun e he => samplePair_u64 e (hswap.mem_iff.mp he))
      (fun e he => samplePair_takenAlike e (hswap.mem_iff.mp he))).mp h _ hk
      ⟨by decide, by decide⟩ fun d hb hdel => ?_
    · obtain ⟨d, hb, -, hbytes⟩ := hone.mp ⟨_, List.Sublist.refl _, hd, samplePair.names_text⟩
      rcases List.mem_pair.mp hb.mem_left with rfl | rfl
      · exact samplePair_not_bytes hbytes
      · obtain ⟨-, -, v, hv, -⟩ := hbytes
        cases hv
    · -- nothing came after the note
      have hhead := (List.cons.inj (List.Sublist.eq_of_length hb rfl)).1
      exact absurd (congrArg Event.kind hhead) (by decide)

end Floonet.Postgres
