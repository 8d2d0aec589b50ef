import PlainRs.Base.Runs
import PlainRs.Chat.AppFileStore

/-! Imports and decrements that interleave at single statements, and whether the counts of
references are exact. -/
namespace PlainRs.Chat

open Keyed Runs

/-- Where an import is: before its first statement, after the weak probe found nothing, with the
row it found, without one, or done. -/
inductive ImportPhase
  | idle
  | probed
  | found (row : DAppFile)
  | missing
  | done (result : ImportResult)

inductive RefEvent
  | imported (id : String)
  | decremented (id : String)
  deriving DecidableEq

/-- The rows, the phase of each import, and what has been completed: imports, and decrements of
rows that were there, latest first. -/
structure AppFileState (ι : Type) where
  rows : AppFileTable
  phase : ι → ImportPhase
  log : List RefEvent

/-- A statement of an import, or of a decrement. -/
inductive AppFileAction (ι : Type)
  | probe (i : ι)
  | lookup (i : ι)
  | increment (i : ι)
  | insert (i : ι)
  | decrement (id : String)

section

variable {ι : Type} [DecidableEq ι] (sha : Sha) (source : ι → ImportSource)

namespace AppFileState

def setPhase (s : AppFileState ι) (i : ι) (phase : ImportPhase) : AppFileState ι :=
  { s with phase := Function.update s.phase i phase }

/-- The row is found or not. -/
def look (s : AppFileState ι) (i : ι) (row : Option DAppFile) (miss : ImportPhase) : AppFileState ι :=
  s.setPhase i (row.elim miss .found)

/-- The last statement of an import. -/
def complete (s : AppFileState ι) (i : ι) (rows : AppFileTable) (result : ImportResult) :
    AppFileState ι :=
  { rows := rows
    phase := Function.update s.phase i (.done result)
    log := .imported ((source i).strongHash sha) :: s.log }

end AppFileState

/-- `import_file` begins with the weak probe, `import_bytes` with the lookup by id. -/
def appFileNext (s : AppFileState ι) : AppFileAction ι → Option (AppFileState ι)
  | .probe i =>
    match s.phase i, (source i).fileName with
    | .idle, some _ => some (s.look i ((source i).probe sha s.rows) .probed)
    | _, _ => none
  | .lookup i =>
    match s.phase i, (source i).fileName with
    | .probed, some _ | .idle, none =>
      some (s.look i (s.rows.find? ((source i).strongHash sha)) .missing)
    | _, _ => none
  | .increment i =>
    match s.phase i with
    | .found row => some (s.complete sha source i
        (AppFileTable.increment s.rows ((source i).strongHash sha)) ((source i).reuse sha row))
    | _ => none
  | .insert i =>
    match s.phase i with
    | .missing => some (s.complete sha source i (s.rows.insert ((source i).record sha))
        ((source i).inserted sha))
    | _ => none
  | .decrement id => some { s with
      rows := AppFileTable.decrement s.rows id
      log := if (s.rows.find? id).isSome then .decremented id :: s.log else s.log }

def appFileRuns (rows : AppFileTable) : System (AppFileState ι) (AppFileAction ι) where
  init s := s = ⟨rows, fun _ => .idle, []⟩
  next := appFileNext sha source

/-- An import that found no row inserts while there is still none. -/
def InsertsFirst (s : AppFileState ι) : AppFileAction ι → Prop
  | .insert i => s.rows.find? ((source i).strongHash sha) = none
  | _ => True

omit [DecidableEq ι] in
/-- Each row counts the imports completed less the decrements completed since it was there, and an
imported content has a row. -/
def RefsExact (start : AppFileTable) (s : AppFileState ι) : Prop :=
  (∀ id row, s.rows.find? id = some row → row.refCount = (start.find? id).elim 0 (·.refCount) +
    s.log.count (.imported id) - s.log.count (.decremented id)) ∧
  ∀ id, .imported id ∈ s.log → (s.rows.find? id).isSome

end

variable {ι : Type} [DecidableEq ι] {sha : Sha} {source : ι → ImportSource} {start : AppFileTable}
  {s t : AppFileState ι} {a : AppFileAction ι} {i : ι} {id : String}

/-- Rows stay, rows that were found are there, and nothing is completed of a content without a row. -/
structure RowsStay (sha : Sha) (source : ι → ImportSource) (start : AppFileTable)
    (s : AppFileState ι) : Prop where
  start : ∀ id, (start.find? id).isSome → (s.rows.find? id).isSome
  found : ∀ i row, s.phase i = .found row → (s.rows.find? ((source i).strongHash sha)).isSome
  absent : ∀ id, s.rows.find? id = none → .imported id ∉ s.log ∧ .decremented id ∉ s.log

/-- What a statement does: it looks for the row, or completes an import, or decrements. -/
theorem appFileNext_cases (h : appFileNext sha source s a = some t) :
    (∃ i phase, t = s.setPhase i phase ∧
        ∀ row, phase = .found row → (s.rows.find? ((source i).strongHash sha)).isSome) ∨
      (∃ i row, a = .increment i ∧ s.phase i = .found row ∧ t = s.complete sha source i
        (AppFileTable.increment s.rows ((source i).strongHash sha)) ((source i).reuse sha row)) ∨
      (∃ i, a = .insert i ∧ t = s.complete sha source i (s.rows.insert ((source i).record sha))
        ((source i).inserted sha)) ∨
      ∃ id, t = { s with
        rows := AppFileTable.decrement s.rows id
        log := if (s.rows.find? id).isSome then .decremented id :: s.log else s.log } := by
  cases a with
  | probe i =>
    simp only [appFileNext] at h
    split at h
    · left
      refine ⟨i, _, (Option.some.inj h).symm, ?_⟩
      intro row hrow
      cases hp : (source i).probe sha s.rows with
      | none => simp [hp] at hrow
      | some cand =>
        have hid : cand.id = (source i).strongHash sha := by simpa using List.find?_some hp
        have hmem : cand ∈ s.rows.rows := List.mem_of_mem_filter (List.mem_of_find?_eq_some hp)
        have hfind : s.rows.find? ((source i).strongHash sha) = some cand :=
          Table.find?_eq_some.mpr ⟨hmem, hid⟩
        rw [hfind]
        rfl
    · cases h
  | lookup i =>
    left
    have hlook : t = s.look i (s.rows.find? ((source i).strongHash sha)) .missing := by
      simp only [appFileNext] at h
      split at h
      · exact (Option.some.inj h).symm
      · exact (Option.some.inj h).symm
      · cases h
    refine ⟨i, _, hlook, ?_⟩
    intro row hrow
    cases hf : s.rows.find? ((source i).strongHash sha) with
    | none => simp [hf] at hrow
    | some _ => rfl
  | increment i =>
    right; left
    simp only [appFileNext] at h
    split at h
    · next row hp => exact ⟨i, row, rfl, hp, (Option.some.inj h).symm⟩
    · cases h
  | insert i =>
    right; right; left
    simp only [appFileNext] at h
    split at h
    · exact ⟨i, rfl, (Option.some.inj h).symm⟩
    · cases h
  | decrement id =>
    right; right; right
    exact ⟨id, (Option.some.inj h).symm⟩

theorem find?_increment {T : AppFileTable} {k : String} : (T.increment k).find? id =
    if id = k then (T.find? id).map fun f => { f with refCount := f.refCount + 1 } else T.find? id :=
  Table.find?_modify

theorem find?_decrement {T : AppFileTable} {k : String} : (T.decrement k).find? id =
    if id = k then (T.find? id).map fun f => { f with refCount := f.refCount - 1 } else T.find? id :=
  Table.find?_modify

theorem isSome_increment {T : AppFileTable} {k : String} :
    ((T.increment k).find? id).isSome = (T.find? id).isSome := by
  rw [find?_increment]
  split
  · exact Option.isSome_map
  · rfl

theorem isSome_decrement {T : AppFileTable} {k : String} :
    ((T.decrement k).find? id).isSome = (T.find? id).isSome := by
  rw [find?_decrement]
  split
  · exact Option.isSome_map
  · rfl

/-- A row that is there after an insert of another is there before. -/
theorem isSome_insert {T : AppFileTable} {r : DAppFile} :
    ((T.insert r).find? id).isSome ↔ (T.find? id).isSome ∨ id = r.id := by
  cases hr : T.find? r.id with
  | none =>
    rw [Table.find?_insert_of_none hr]
    by_cases hid : id = r.id
    · simp [hid]
    · simp [hid]
  | some row =>
    rw [Table.insert_of_some hr]
    constructor
    · exact .inl
    · rintro (h | rfl)
      · exact h
      · rw [hr]
        rfl

omit [DecidableEq ι] in
/-- Rows that stay, a found row among them, and a log of contents that have a row. -/
theorem rowsStay_of (h : RowsStay sha source start s)
    (hrows : ∀ id, (s.rows.find? id).isSome → (t.rows.find? id).isSome)
    (hfound : ∀ i row, t.phase i = .found row → s.phase i = .found row ∨
      (t.rows.find? ((source i).strongHash sha)).isSome)
    (hlog : ∀ id, t.rows.find? id = none → (.imported id ∈ t.log → .imported id ∈ s.log) ∧
      (.decremented id ∈ t.log → .decremented id ∈ s.log)) : RowsStay sha source start t := by
  refine ⟨fun id hid => hrows id (h.start id hid), ?_, ?_⟩
  · intro i row hp
    rcases hfound i row hp with hs | ht
    · exact hrows _ (h.found i row hs)
    · exact ht
  · intro id hid
    have hnone : s.rows.find? id = none := by
      by_contra hne
      have hsome := hrows id (Option.isSome_iff_ne_none.mpr hne)
      rw [hid] at hsome
      cases hsome
    obtain ⟨himp, hdec⟩ := h.absent id hnone
    exact ⟨fun hm => himp ((hlog id hid).1 hm), fun hm => hdec ((hlog id hid).2 hm)⟩

theorem found_complete {rows : AppFileTable} {result : ImportResult} {j : ι} {row : DAppFile}
    (hp : (s.complete sha source i rows result).phase j = .found row) : s.phase j = .found row := by
  by_cases hj : j = i
  · subst hj
    simp [AppFileState.complete] at hp
  · simpa [AppFileState.complete, hj] using hp

theorem log_complete {rows : AppFileTable} {result : ImportResult}
    (hrow : (rows.find? ((source i).strongHash sha)).isSome) (hid : rows.find? id = none) :
    (.imported id ∈ (s.complete sha source i rows result).log → .imported id ∈ s.log) ∧
      (.decremented id ∈ (s.complete sha source i rows result).log → .decremented id ∈ s.log) := by
  have hne : id ≠ (source i).strongHash sha := by
    rintro rfl
    rw [hid] at hrow
    cases hrow
  simp [AppFileState.complete, hne]

theorem rowsStay_step (h : RowsStay sha source start s) (ht : appFileNext sha source s a = some t) :
    RowsStay sha source start t := by
  rcases appFileNext_cases ht with ⟨i, phase, rfl, hphase⟩ | ⟨i, row, rfl, hp, rfl⟩ | ⟨i, rfl, rfl⟩ |
    ⟨k, rfl⟩
  · refine rowsStay_of h (fun _ hid => hid) ?_ fun _ _ => ⟨fun hm => hm, fun hm => hm⟩
    intro j row hj
    by_cases hji : j = i
    · subst hji
      right
      exact hphase row (by simpa [AppFileState.setPhase] using hj)
    · left
      simpa [AppFileState.setPhase, hji] using hj
  · have hrow := h.found i row hp
    refine rowsStay_of h ?_ (fun j row hj => .inl (found_complete hj)) fun id hid =>
      log_complete ?_ hid
    · intro id hid
      exact isSome_increment.trans hid
    · exact isSome_increment.trans hrow
  · have hin : ((s.rows.insert ((source i).record sha)).find? ((source i).strongHash sha)).isSome :=
      isSome_insert.mpr (.inr rfl)
    refine rowsStay_of h ?_ (fun j row hj => .inl (found_complete hj)) fun id hid =>
      log_complete hin hid
    intro id hid
    exact isSome_insert.mpr (.inl hid)
  · refine rowsStay_of h (fun id hid => isSome_decrement.trans hid) (fun j row hj => .inl hj) ?_
    intro id hid
    have hnone : s.rows.find? id = none := by
      have hsome : (s.rows.find? id).isSome = ((s.rows.decrement k).find? id).isSome :=
        isSome_decrement.symm
      rw [hid] at hsome
      exact Option.isSome_eq_false_iff.mp hsome |> Option.isNone_iff_eq_none.mp
    by_cases hk : (s.rows.find? k).isSome
    · have hne : id ≠ k := by
        rintro rfl
        rw [hnone] at hk
        cases hk
      simp [hk, hne]
    · simp [hk]

/-- Under the condition each statement keeps the counts exact. -/
theorem refsExact_step (hr : RowsStay sha source start s) (h : RefsExact start s)
    (hg : InsertsFirst sha source s a) (ht : appFileNext sha source s a = some t) :
    RefsExact start t := by
  have hrt := rowsStay_step hr ht
  refine ⟨?_, fun id hid => ?_⟩
  swap
  · by_contra hne
    exact (hrt.absent id (by simpa using hne)).1 hid
  intro id row hrow
  rcases appFileNext_cases ht with ⟨i, phase, rfl, -⟩ | ⟨i, found, rfl, hp, rfl⟩ | ⟨i, rfl, rfl⟩ |
    ⟨k, rfl⟩
  · exact h.1 id row hrow
  · simp only [AppFileState.complete] at hrow ⊢
    rw [find?_increment] at hrow
    split at hrow
    · next hid =>
      obtain ⟨before, hb, rfl⟩ := Option.map_eq_some_iff.mp hrow
      have hcount := h.1 id before hb
      rw [List.count_cons, List.count_cons, hid] at *
      simp
      omega
    · next hid =>
      have hcount := h.1 id row hrow
      rw [List.count_cons, List.count_cons]
      simp [Ne.symm hid]
      omega
  · have hnone : s.rows.find? ((source i).record sha).id = none := hg
    simp only [AppFileState.complete] at hrow ⊢
    rw [Table.find?_insert_of_none hnone] at hrow
    split at hrow
    · next hid =>
      cases hrow
      subst hid
      obtain ⟨himp, hdec⟩ := hr.absent _ hnone
      have hstart : start.find? ((source i).record sha).id = none := by
        by_contra hne
        have hsome := hr.start _ (Option.isSome_iff_ne_none.mpr hne)
        rw [hnone] at hsome
        cases hsome
      have hcount := List.count_eq_zero_of_not_mem himp
      have hcount' := List.count_eq_zero_of_not_mem hdec
      simp only [ImportSource.record] at hstart hcount hcount' ⊢
      simp [hstart, hcount, hcount']
    · next hid =>
      have hcount := h.1 id row hrow
      have hne : (source i).strongHash sha ≠ id := fun he => hid he.symm
      simpa [List.count_cons, hne] using hcount
  · rw [find?_decrement] at hrow
    split at hrow
    · next hid =>
      obtain ⟨before, hb, rfl⟩ := Option.map_eq_some_iff.mp hrow
      have hcount := h.1 id before hb
      subst hid
      simp only [hb, Option.isSome_some, if_true, List.count_cons]
      simp only [beq_self_eq_true, if_true, reduceCtorEq, beq_iff_eq, if_false]
      omega
    · next hid =>
      have hcount := h.1 id row hrow
      have hne : k ≠ id := fun he => hid he.symm
      by_cases hk : (s.rows.find? k).isSome
      · simpa [hk, List.count_cons, hne] using hcount
      · simpa [hk] using hcount

/-- In a run whose imports all insert first, every count is exact and every imported content has a
row, in every state reached. -/
theorem refs_exact (h : ReachableUnder (appFileRuns sha source start) (InsertsFirst sha source) s) :
    RefsExact start s := by
  have hboth : RowsStay sha source start s ∧ RefsExact start s := by
    refine ReachableUnder.invariant (I := fun s => RowsStay sha source start s ∧ RefsExact start s)
      ?_ ?_ h
    · rintro s rfl
      refine ⟨⟨fun _ hid => hid, ?_, ?_⟩, ?_, ?_⟩
      · intro i row hp
        cases hp
      · intro id _
        exact ⟨List.not_mem_nil, List.not_mem_nil⟩
      · intro id row hrow
        have hstart : start.find? id = some row := hrow
        simp [hstart]
      · intro id hid
        cases hid
    · rintro s a t ⟨hr, hs⟩ hg ht
      exact ⟨rowsStay_step hr ht, refsExact_step hr hs hg ht⟩
  exact hboth.2

/-- Every content hashes alike. -/
def oneSha : Sha := fun _ => "e3b0c44298fc1c149afbf4c8996fb92427ae41e4649b934ca495991b7852b855"

/-- Two imports of the empty content, from a file and from memory. -/
def emptySource (fromFile : Bool) : ImportSource where
  content := []
  fileName := if fromFile then some "empty.txt" else none
  mimeType := "text/plain"

/-- The count of the row, and how many imports and decrements are completed. -/
def countsAre (count : Int) (imports decrements : Nat) (s : AppFileState Bool) : Bool :=
  (s.rows.find? (oneSha [])).any (fun row => row.refCount = count) &&
    s.log.count (.imported (oneSha [])) = imports &&
    s.log.count (.decremented (oneSha [])) = decrements

instance (s : AppFileState ι) (a : AppFileAction ι) : Decidable (InsertsFirst sha source s a) :=
  match a with
  | .insert i => inferInstanceAs (Decidable (s.rows.find? ((source i).strongHash sha) = none))
  | .probe _ | .lookup _ | .increment _ | .decrement _ => inferInstanceAs (Decidable True)

/-- One import after the other, and a decrement. -/
theorem refs_exact_importTwice : ∃ s, ReachableUnder (appFileRuns oneSha emptySource Table.empty)
    (InsertsFirst oneSha emptySource) s ∧ RefsExact Table.empty s ∧ countsAre 1 2 1 s = true := by
  have hrun : ((appFileRuns oneSha emptySource Table.empty).run (InsertsFirst oneSha emptySource)
      ⟨Table.empty, fun _ => .idle, []⟩ [.probe true, .lookup true, .insert true, .lookup false,
        .increment false, .decrement (oneSha [])]).any (countsAre 1 2 1) = true := by
    decide +kernel
  obtain ⟨s, hs, hcounts⟩ := ReachableUnder.of_run rfl hrun
  exact ⟨s, hs, refs_exact hs, hcounts⟩

/-- Two imports that both found no row leave a count of one. -/
theorem importsBoth_lose_reference : ∃ s, Reachable (appFileRuns oneSha emptySource Table.empty) s ∧
    ¬ RefsExact Table.empty s := by
  have hrun : ((appFileRuns oneSha emptySource Table.empty).run (fun _ _ => True)
      ⟨Table.empty, fun _ => .idle, []⟩ [.probe true, .lookup true, .lookup false, .insert true,
        .insert false]).any (countsAre 1 2 0) = true := by
    decide +kernel
  obtain ⟨s, hs, hcounts⟩ := ReachableUnder.of_run rfl hrun
  refine ⟨s, hs, fun hexact => ?_⟩
  simp only [countsAre, Bool.and_eq_true, Option.any_eq_true, decide_eq_true_eq] at hcounts
  obtain ⟨⟨⟨row, hrow, hcount⟩, himports⟩, hdecrements⟩ := hcounts
  have hexactly := hexact.1 _ row hrow
  rw [hcount, himports, hdecrements] at hexactly
  simp [Table.empty, Table.find?] at hexactly

end PlainRs.Chat
