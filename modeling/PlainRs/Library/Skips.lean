import PlainRs.Base.Runs
import PlainRs.Library.AudioQueue

/-! When the loop of `resolve_next` past superseded ranks comes to an end. -/
namespace PlainRs.Library

open Keyed Runs Loops

variable {lib : LibraryTracks} {db db' : LibraryDb} {order : Order} {queued : List QueueItem}
  {superseded : Finset String} {isNext : Bool} {shuffle : Option Nat} {now : String} {total : Nat}
  {target t' : Int} {audio audio' : Option AudioTrack}

/-- Every rank holds a superseded track, and no two neighbours in the cycle have the same path. -/
structure AllSkipped (lib : LibraryTracks) (db : LibraryDb) (order : Order)
    (queued : List QueueItem) (superseded : Finset String) : Prop where
  superseded : ∀ rank : Int, 0 ≤ rank → rank < order.total →
    ∃ a, trackAt lib db order queued rank = .ok (some a) ∧ a.path ∈ superseded
  distinct : ∀ (rank : Int) a b, 0 ≤ rank → rank < order.total →
    trackAt lib db order queued rank = .ok (some a) →
      trackAt lib db order queued (nextTarget order true rank) = .ok (some b) → a.path ≠ b.path

/-- `resolve_next` comes to an answer, whatever it is. -/
def Resolves (lib : LibraryTracks) (db : LibraryDb) (isNext : Bool) (shuffle : Option Nat)
    (now : String) : Prop := ∃ fuel out, resolveNext lib db isNext shuffle now fuel = some out

/-- The playback order of the queue and the paths it supersedes, where both can be read and some
rank is counted. -/
def Playable (lib : LibraryTracks) (db db' : LibraryDb) (order : Order)
    (superseded : Finset String) : Prop :=
  playbackOrder lib db = .ok (db', order) ∧
    supersededSourcePaths lib db' order db'.allQueueItems = .ok superseded ∧
    superseded.card < order.total

theorem nextTarget_eq :
    nextTarget order isNext target = (target + if isNext then 1 else -1) % order.total := by
  cases isNext with
  | true => rfl
  | false => simp [nextTarget, ← sub_eq_add_neg]

theorem nextTarget_mem (h : 0 < order.total) :
    0 ≤ nextTarget order isNext target ∧ nextTarget order isNext target < order.total := by
  rw [nextTarget_eq]
  exact ⟨Int.emod_nonneg _ (by omega), Int.emod_lt_of_pos _ (by omega)⟩

theorem nextTarget_back (isNext : Bool) (h : 0 ≤ target ∧ target < order.total) :
    nextTarget order (!isNext) (nextTarget order isNext target) = target := by
  have hsum : ((if isNext then 1 else -1) + if (!isNext) then 1 else -1 : Int) = 0 := by
    cases isNext <;> rfl
  rw [nextTarget_eq, nextTarget_eq, Int.emod_add_emod, add_assoc, hsum, add_zero,
    Int.emod_eq_of_lt h.1 h.2]

theorem firstTarget_mem (h : 0 < total) :
    0 ≤ firstTarget order queued isNext total shuffle ∧
      firstTarget order queued isNext total shuffle < total := by
  have hmod : ∀ x : Int, 0 ≤ x % (total : Int) ∧ x % (total : Int) < total := fun x =>
    ⟨Int.emod_nonneg _ (by omega), Int.emod_lt_of_pos _ (by omega)⟩
  cases shuffle with
  | some draw =>
    have := Nat.mod_lt draw h
    simp only [firstTarget]
    omega
  | none =>
    simp only [firstTarget]
    cases isNext
    · exact hmod _
    · exact hmod _

/-- The loop goes on only from a superseded track, to the next rank, if that has another path. -/
theorem skip_inv (h : skipSuperseded lib db order queued superseded isNext (target, audio) =
    .inl (t', audio')) :
    ∃ a, audio = some a ∧ a.path ∈ superseded ∧ t' = nextTarget order isNext target ∧
      trackAt lib db order queued t' = .ok audio' ∧ ∀ n, audio' = some n → n.path ≠ a.path := by
  cases audio with
  | none => cases h
  | some a =>
    simp only [skipSuperseded] at h
    split at h
    · cases h
    · next ha =>
      split at h
      · cases h
      · next next ht =>
        split at h
        · cases h
        · next hn =>
          obtain ⟨rfl, rfl⟩ : nextTarget order isNext target = t' ∧ next = audio' := by
            simpa using h
          refine ⟨a, rfl, not_not.mp ha, rfl, ht, ?_⟩
          rintro n rfl hp
          simp [hp] at hn

theorem skip_of_superseded {a b : AudioTrack} (ha : a.path ∈ superseded)
    (hb : trackAt lib db order queued (nextTarget order isNext target) = .ok (some b))
    (hne : b.path ≠ a.path) :
    skipSuperseded lib db order queued superseded isNext (target, some a) =
      .inl (nextTarget order isNext target, some b) := by
  simp [skipSuperseded, ha, hb, hne]

/-- Started at a rank of the order, the loop ends unless it would skip every rank. -/
theorem skip_halts_iff (ht : 0 ≤ target ∧ target < order.total)
    (ha : trackAt lib db order queued target = .ok audio) :
    Halts (skipSuperseded lib db order queued superseded isNext) (target, audio) ↔
      ¬ AllSkipped lib db order queued superseded := by
  have hpos : 0 < order.total := by omega
  rw [← not_iff_not, not_not]
  constructor
  · intro h
    obtain ⟨f, hf0, hf⟩ := exists_run_of_not_halts h
    have hgo : ∀ k, ∃ a, (f k).2 = some a ∧ a.path ∈ superseded ∧
        (f (k + 1)).1 = nextTarget order isNext (f k).1 ∧
        trackAt lib db order queued (f (k + 1)).1 = .ok (f (k + 1)).2 ∧
        ∀ n, (f (k + 1)).2 = some n → n.path ≠ a.path := fun k => skip_inv (hf k)
    have htrack : ∀ k, trackAt lib db order queued (f k).1 = .ok (f k).2 := by
      intro k
      cases k with
      | zero => rw [hf0, ha]
      | succ k =>
        obtain ⟨_, -, -, -, h, -⟩ := hgo k
        exact h
    -- the walk comes to every rank, in either direction
    have hall : ∀ r, 0 ≤ r → r < (order.total : Int) → ∃ k, (f k).1 = r := by
      intro r hr0 hr
      refine exists_step_eq (f := fun k => (f k).1) (n := order.total)
        (δ := if isNext then 1 else -1) (by cases isNext <;> rfl) (by simpa [hf0] using ht) ?_
        ⟨hr0, hr⟩
      intro k
      obtain ⟨_, -, -, h, -⟩ := hgo k
      exact h.trans nextTarget_eq
    refine ⟨fun r hr0 hr => ?_, fun r a b hr0 hr hra hrb => ?_⟩
    · obtain ⟨k, rfl⟩ := hall r hr0 hr
      obtain ⟨a, hk, hmem, -⟩ := hgo k
      exact ⟨a, hk ▸ htrack k, hmem⟩
    · have hwalk : ∀ k x y, trackAt lib db order queued (f k).1 = .ok (some x) →
          trackAt lib db order queued (f (k + 1)).1 = .ok (some y) → y.path ≠ x.path := by
        intro k x y hx hy
        obtain ⟨_, hk, -, -, hk', hne⟩ := hgo k
        rw [htrack k, Except.ok.injEq, hk, Option.some.injEq] at hx
        rw [hk', Except.ok.injEq] at hy
        exact hx ▸ hne y hy
      cases isNext with
      | true =>
        obtain ⟨k, rfl⟩ := hall r hr0 hr
        obtain ⟨_, -, -, hk, -⟩ := hgo k
        exact (hwalk k a b hra (hk ▸ hrb)).symm
      | false =>
        obtain ⟨hge, hlt⟩ : 0 ≤ nextTarget order true r ∧ nextTarget order true r < order.total :=
          nextTarget_mem hpos
        obtain ⟨k, hk⟩ := hall _ hge hlt
        obtain ⟨_, -, -, hk', -⟩ := hgo k
        have hback : (f (k + 1)).1 = r := by
          rw [hk', hk]
          exact nextTarget_back true ⟨hr0, hr⟩
        exact hwalk k b a (hk ▸ hrb) (hback ▸ hra)
  · intro h
    refine not_halts_of_invariant
      (I := fun s => (0 ≤ s.1 ∧ s.1 < order.total) ∧ trackAt lib db order queued s.1 = .ok s.2) ?_
      ⟨ht, ha⟩
    rintro ⟨target, audio⟩ ⟨ht, ha⟩
    obtain ⟨a, hra, hmem⟩ := h.superseded target ht.1 ht.2
    obtain rfl : audio = some a := by simpa [hra] using ha.symm
    have hnext : 0 ≤ nextTarget order isNext target ∧ nextTarget order isNext target < order.total :=
      nextTarget_mem hpos
    obtain ⟨b, hrb, -⟩ := h.superseded _ hnext.1 hnext.2
    refine ⟨(nextTarget order isNext target, some b), skip_of_superseded hmem hrb ?_, hnext, hrb⟩
    cases isNext with
    | true => exact (h.distinct target a b ht.1 ht.2 hra hrb).symm
    | false =>
      refine h.distinct _ b a hnext.1 hnext.2 hrb ?_
      rw [show nextTarget order true (nextTarget order false target) = target from
        nextTarget_back false ht, hra]

theorem Playable.unique {order₁ order₂ : Order} {db₁ db₂ : LibraryDb} {p₁ p₂ : Finset String}
    (h₁ : Playable lib db db₁ order₁ p₁) (h₂ : Playable lib db db₂ order₂ p₂) :
    db₁ = db₂ ∧ order₁ = order₂ ∧ p₁ = p₂ := by
  obtain ⟨hp₁, hs₁, -⟩ := h₁
  obtain ⟨hp₂, hs₂, -⟩ := h₂
  rw [hp₁, Except.ok.injEq, Prod.mk.injEq] at hp₂
  obtain ⟨rfl, rfl⟩ := hp₂
  rw [hs₁, Except.ok.injEq] at hs₂
  exact ⟨rfl, rfl, hs₂⟩

/-- An order that cannot be read, or that counts no rank, is answered before the loop. -/
theorem resolves_of_not_playable
    (h : ∀ db' order superseded, ¬ Playable lib db db' order superseded) :
    Resolves lib db isNext shuffle now := by
  cases hp : playbackOrder lib db with
  | error e =>
    refine ⟨0, (db, .error e), ?_⟩
    simp only [resolveNext, hp]
  | ok out =>
    obtain ⟨db', order⟩ := out
    by_cases h0 : order.total = 0
    · refine ⟨0, (db', .ok none), ?_⟩
      simp only [resolveNext, hp, if_pos h0]
    · cases hs : supersededSourcePaths lib db' order db'.allQueueItems with
      | error e =>
        refine ⟨0, (db', .error e), ?_⟩
        simp only [resolveNext, hp, if_neg h0, hs]
      | ok superseded =>
        have hle : ¬ superseded.card < order.total := fun hlt => h _ _ _ ⟨hp, hs, hlt⟩
        refine ⟨0, (db', .ok none), ?_⟩
        simp only [resolveNext, hp, if_neg h0, hs, if_pos (Nat.sub_eq_zero_of_le (not_lt.mp hle))]

theorem resolves_of_playable (h : Playable lib db db' order superseded) :
    Resolves lib db isNext shuffle now ↔
      ¬ AllSkipped lib db' order db'.allQueueItems superseded := by
  obtain ⟨hp, hs, hlt⟩ := h
  have h0 : order.total ≠ 0 := by omega
  have hn : order.total - superseded.card ≠ 0 := by omega
  obtain ⟨hge, hle⟩ := firstTarget_mem (Nat.pos_of_ne_zero hn)
  generalize hfirst : firstTarget order db'.allQueueItems isNext
    (order.total - superseded.card) shuffle = first at hge hle
  have hrange : 0 ≤ first ∧ first < order.total := by omega
  cases ht : trackAt lib db' order db'.allQueueItems first with
  | error e =>
    refine iff_of_true ⟨0, (db', .error e), ?_⟩ fun hall => ?_
    · simp only [resolveNext, hp, if_neg h0, hs, if_neg hn, hfirst, ht]
    · obtain ⟨a, ha, -⟩ := hall.superseded first hrange.1 hrange.2
      rw [ht] at ha
      cases ha
  | ok audio =>
    refine Iff.trans ?_ (@skip_halts_iff lib db' order _ superseded isNext first audio hrange ht)
    refine exists_congr fun fuel => ?_
    simp only [resolveNext, hp, if_neg h0, hs, if_neg hn, hfirst, ht, Option.map_eq_some_iff]
    constructor
    · rintro ⟨_, r, hr, -⟩
      exact ⟨r, hr⟩
    · rintro ⟨r, hr⟩
      exact ⟨_, r, hr, rfl⟩

/-- The playback order can be read, it counts some rank, and every rank of it would be skipped. -/
def Endless (lib : LibraryTracks) (db : LibraryDb) : Prop :=
  ∃ db' order superseded, Playable lib db db' order superseded ∧
    AllSkipped lib db' order db'.allQueueItems superseded

/-- `resolve_next` ends, in either direction and with any draw, unless every rank is skipped. -/
theorem resolves_iff : Resolves lib db isNext shuffle now ↔ ¬ Endless lib db := by
  by_cases h : ∃ db' order superseded, Playable lib db db' order superseded
  · obtain ⟨db', order, superseded, hplay⟩ := h
    rw [resolves_of_playable hplay, not_iff_not]
    constructor
    · exact fun hall => ⟨db', order, superseded, hplay, hall⟩
    · rintro ⟨_, _, _, hplay', hall⟩
      obtain ⟨rfl, rfl, rfl⟩ := hplay.unique hplay'
      exact hall
  · refine iff_of_true (resolves_of_not_playable fun _ _ _ hplay => h ⟨_, _, _, hplay⟩) ?_
    rintro ⟨_, _, _, hplay, -⟩
    exact h ⟨_, _, _, hplay⟩

/-- The rank holds a superseded track whose path the next rank does not repeat. -/
def skippedAt (lib : LibraryTracks) (db : LibraryDb) (order : Order) (queued : List QueueItem)
    (superseded : Finset String) (rank : Int) : Bool :=
  match trackAt lib db order queued rank, trackAt lib db order queued (nextTarget order true rank) with
  | .ok (some a), .ok (some b) => a.path ∈ superseded && a.path ≠ b.path
  | _, _ => false

theorem skippedAt_iff {rank : Int} : skippedAt lib db order queued superseded rank = true ↔
    ∃ a b, trackAt lib db order queued rank = .ok (some a) ∧
      trackAt lib db order queued (nextTarget order true rank) = .ok (some b) ∧
        a.path ∈ superseded ∧ a.path ≠ b.path := by
  unfold skippedAt
  split
  · next a b ha hb => simp [ha, hb]
  · next hno =>
    refine iff_of_false (by simp) ?_
    rintro ⟨a, b, ha, hb, -⟩
    exact hno a b ha hb

theorem allSkipped_iff : AllSkipped lib db order queued superseded ↔
    ∀ rank ∈ List.range order.total, skippedAt lib db order queued superseded rank = true := by
  constructor
  · intro h rank hr
    have hr : rank < order.total := List.mem_range.mp hr
    obtain ⟨a, ha, hmem⟩ := h.superseded rank (by omega) (by omega)
    obtain ⟨hge, hlt⟩ : 0 ≤ nextTarget order true rank ∧ nextTarget order true rank < order.total :=
      nextTarget_mem (by omega)
    obtain ⟨b, hb, -⟩ := h.superseded _ hge hlt
    exact skippedAt_iff.mpr ⟨a, b, ha, hb, hmem, h.distinct rank a b (by omega) (by omega) ha hb⟩
  · intro h
    have hat : ∀ rank : Int, 0 ≤ rank → rank < order.total →
        skippedAt lib db order queued superseded rank = true := by
      intro rank h0 hlt
      obtain ⟨n, rfl⟩ := Int.eq_ofNat_of_zero_le h0
      exact h n (List.mem_range.mpr (by omega))
    refine ⟨fun rank h0 hlt => ?_, fun rank a b h0 hlt ha hb => ?_⟩
    · obtain ⟨a, -, ha, -, hmem, -⟩ := skippedAt_iff.mp (hat rank h0 hlt)
      exact ⟨a, ha, hmem⟩
    · obtain ⟨a', b', ha', hb', -, hne⟩ := skippedAt_iff.mp (hat rank h0 hlt)
      rw [ha, Except.ok.injEq, Option.some.injEq] at ha'
      rw [hb, Except.ok.injEq, Option.some.injEq] at hb'
      exact ha' ▸ hb' ▸ hne

instance : Decidable (AllSkipped lib db order queued superseded) :=
  decidable_of_iff _ allSkipped_iff.symm

/-- The state of the queue under any operations, from an empty database. -/
inductive QueueAction
  | createPlaylist (id name now : String)
  | renamePlaylist (id name now : String)
  | deletePlaylist (id : String)
  | addPlaylistItems (id : String) (items : List (String × AudioTrack)) (now : String)
  | removePlaylistItem (id path now : String)
  | setPlaylistSource (id : String) (startPath : Option String) (now : String)
  | setLibrarySource (lib : LibraryTracks) (startPath : Option String) (shuffle : Option Nat)
      (now : String)
  | saveAudioCurrent (path : String)
  | onPlaying (path title artist : String) (durationSecs : Int) (now : String)
  | enqueue (items : List AudioTrack) (playNext : Bool)
  | removeQueued (path : String)
  | reorderQueued (paths : List String)
  | removePaths (paths : List String)
  | clearQueue
  | resolveNext (lib : LibraryTracks) (isNext : Bool) (shuffle : Option Nat) (now : String)
      (fuel : Nat)

/-- A skip that does not come to its end has no state after it. -/
def audioQueue : System LibraryDb QueueAction where
  init db := db = .empty
  next db
    | .createPlaylist id name now => some (createPlaylist db now id name)
    | .renamePlaylist id name now => some (renamePlaylist db now id name)
    | .deletePlaylist id => some (deletePlaylist db id)
    | .addPlaylistItems id items now => some (addPlaylistItems db now id items)
    | .removePlaylistItem id path now => some (removePlaylistItem db now id path)
    | .setPlaylistSource id startPath now => some (setPlaylistSource db now id startPath).1
    | .setLibrarySource lib startPath shuffle now =>
      some (setLibrarySource db now lib startPath shuffle).1
    | .saveAudioCurrent path => some (saveAudioCurrent db path)
    | .onPlaying path title artist durationSecs now =>
      some (onPlaying db now path title artist durationSecs)
    | .enqueue items playNext => some (enqueue db items playNext)
    | .removeQueued path => some (removeQueued db path)
    | .reorderQueued paths => some (reorderQueued db paths)
    | .removePaths paths => some (removePaths db paths)
    | .clearQueue => some (clearQueue db)
    | .resolveNext lib isNext shuffle now fuel =>
      (resolveNext lib db isNext shuffle now fuel).map Prod.fst

def demoTrack (path : String) : AudioTrack := ⟨path, "", path, 180⟩

/-- Both tracks of a playlist are queued again, in the other order. -/
def queuedAgain : List QueueAction :=
  [.createPlaylist "p" "Mix" "t1",
    .addPlaylistItems "p" [("i1", demoTrack "/a"), ("i2", demoTrack "/b")] "t2",
    .setPlaylistSource "p" none "t3", .enqueue [demoTrack "/b", demoTrack "/a"] false]

/-- Whether a skip would go around for good. -/
def endlessIn (lib : LibraryTracks) (db : LibraryDb) : Bool :=
  match playbackOrder lib db with
  | .error _ => false
  | .ok (db, order) =>
    match supersededSourcePaths lib db order db.allQueueItems with
    | .error _ => false
    | .ok superseded => superseded.card < order.total &&
      AllSkipped lib db order db.allQueueItems superseded

theorem endless_of_endlessIn (h : endlessIn lib db = true) : Endless lib db := by
  unfold endlessIn at h
  split at h
  · cases h
  · next db' order hord =>
    split at h
    · cases h
    · next superseded hs =>
      rw [Bool.and_eq_true, decide_eq_true_eq, decide_eq_true_eq] at h
      exact ⟨db', order, superseded, ⟨hord, hs, h.1⟩, h.2⟩

/-- The order is then `/a`, `/b`, `/a`, `/b`, all superseded, and the loop goes around for good. -/
theorem queuedAgain_endless : ¬ ∀ db, Reachable audioQueue db →
    ∀ lib isNext shuffle now, Resolves lib db isNext shuffle now := by
  intro h
  have hr : (audioQueue.run (fun _ _ => True) .empty queuedAgain).any (endlessIn noLibrary) =
      true := by decide +kernel
  obtain ⟨db, hdb, hp⟩ := ReachableUnder.of_run rfl hr
  exact resolves_iff.mp (h db hdb noLibrary true none "t5") (endless_of_endlessIn hp)

end PlainRs.Library
