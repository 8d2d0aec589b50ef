import PlainRs.Prefs

/-! The preferences file across restarts: each process loads it and changes it until a kill, which
comes between two calls or breaks one off. -/
namespace PlainRs.Prefs

/-- The map without entries outside `keys`. -/
def Within {Value : Type} (keys : Finset String) (m : String → Option Value) : Prop :=
  ∀ key ∉ keys, m key = none

/-- What a call makes of the map in memory. -/
def effect {Value : Type} (m : String → Option Value) : Call Value → String → Option Value
  | .set key value _ => value.elim m fun new => Function.update m key (some new)
  | .remove key _ => Function.update m key none
  | .clear _ => fun _ => none

def KeyIn {Value : Type} (keys : Finset String) : Call Value → Prop
  | .set key _ _ => key ∈ keys
  | .remove key _ => key ∈ keys
  | .clear _ => True

/-- The calls of one process, and the one that the kill breaks off; its fault is the file operation
that the kill forestalls, and it has none when the file was already renamed. -/
structure Session (Value : Type) where
  calls : List (Call Value)
  cut : Option (Call Value)

structure Disk where
  file : Option String
  tmp : Option String
  deriving DecidableEq

/-- What a text says when it is read back: the map that it was made from. -/
def ReadsBack {Value : Type} (codec : PrefsCodec Value) (keys : Finset String) : Prop :=
  ∀ m text, Within keys m → codec.toStringPretty m = some text → codec.fromStr text = some m

section

variable {Value : Type} [DecidableEq Value] (codec : PrefsCodec Value)

/-- Calls one after the other, with what each returns. -/
def execAll : Prefs Value → List (Call Value) → List (Except PrefsError Bool) × Prefs Value
  | p, [] => ([], p)
  | p, c :: cs =>
    let (r, q) := exec codec p c
    let (rs, last) := execAll q cs
    (r :: rs, last)

/-- A process that is killed: what its calls returned, and the files that it leaves. -/
def Session.run (d : Disk) (s : Session Value) :
    Except PrefsError (List (Except PrefsError Bool) × Disk) := do
  let inner ← load codec d.file
  let (answers, p) := execAll codec ⟨inner, d.file, d.tmp⟩ s.calls
  let left := s.cut.elim p fun c => (exec codec p c).2
  pure (answers, ⟨left.file, left.tmp⟩)

/-- Processes one after the other on the same files. -/
def restarts : Disk → List (Session Value) →
    Except PrefsError (List (Session Value × List (Except PrefsError Bool)) × Disk)
  | d, [] => pure ([], d)
  | d, s :: ss => do
    let (answers, d) ← s.run codec d
    let (log, d) ← restarts d ss
    pure ((s, answers) :: log, d)

end

/-- What is left of a session: some first calls of it, with each that returned `Ok(true)`, and with
all that returned when none failed. -/
def Survives {Value : Type} (kept : List (Call Value))
    (log : Session Value × List (Except PrefsError Bool)) : Prop :=
  kept <+: log.1.calls ++ log.1.cut.toList ∧
    (∀ j, log.2[j]? = some (.ok true) → j < kept.length) ∧
    ((∀ r ∈ log.2, r.isOk = true) → log.1.calls <+: kept)

variable {Value : Type} [DecidableEq Value] {codec : PrefsCodec Value} {keys : Finset String}
  {m m₀ : String → Option Value} {p q : Prefs Value} {c : Call Value} {cs done : List (Call Value)}
  {r : Except PrefsError Bool} {answers : List (Except PrefsError Bool)} {d : Disk}
  {s : Session Value} {ss : List (Session Value)}

omit [DecidableEq Value] in
theorem within_update {key : String} {value : Option Value} (h : Within keys m) (hkey : key ∈ keys) :
    Within keys (Function.update m key value) := by
  intro other hother
  have hne : other ≠ key := by
    rintro rfl
    exact hother hkey
  rw [Function.update_of_ne hne]
  exact h other hother

omit [DecidableEq Value] in
theorem within_effect (h : Within keys m) (hc : KeyIn keys c) : Within keys (effect m c) := by
  cases c with
  | set key value fault =>
    cases value with
    | none => exact h
    | some new => exact within_update h hc
  | remove key fault => exact within_update h hc
  | clear fault =>
    intro key _
    rfl

omit [DecidableEq Value] in
theorem within_foldl (h : Within keys m) (hcs : ∀ c ∈ cs, KeyIn keys c) :
    Within keys (cs.foldl effect m) := by
  induction cs generalizing m with
  | nil => exact h
  | cons c cs ih =>
    rw [List.foldl_cons]
    refine ih (within_effect h (hcs c List.mem_cons_self)) ?_
    intro c' hc'
    exact hcs c' (List.mem_cons_of_mem _ hc')

/-- The map that a call goes on to save is what it makes of the one in memory; a call that saves
none has nothing to change. -/
theorem saved_effect : (∀ out, saved p c = some out → out.1 = effect p.inner c) ∧
    (saved p c = none → effect p.inner c = p.inner) := by
  cases c with
  | set key value fault =>
    cases value with
    | none =>
      refine ⟨?_, fun _ => rfl⟩
      intro out hout
      cases hout
    | some new =>
      simp only [saved, Option.bind_some, effect, Option.elim_some]
      by_cases hk : p.inner key = some new
      · rw [if_pos hk]
        refine ⟨?_, fun _ => ?_⟩
        · intro out hout
          cases hout
        · rw [← hk, Function.update_eq_self]
      · rw [if_neg hk]
        refine ⟨?_, ?_⟩
        · intro out hout
          cases hout
          rfl
        · intro hnone
          cases hnone
  | remove key fault =>
    simp only [saved, effect]
    cases hk : p.inner key with
    | none =>
      refine ⟨?_, fun _ => ?_⟩
      · intro out hout
        cases hout
      · rw [← hk, Function.update_eq_self]
    | some value =>
      refine ⟨?_, ?_⟩
      · intro out hout
        cases hout
        rfl
      · intro hnone
        cases hnone
  | clear fault =>
    refine ⟨?_, ?_⟩
    · intro out hout
      cases hout
      rfl
    · intro hnone
      cases hnone

theorem exec_unsaved (h : saved p c = none) : (exec codec p c).1 ≠ .ok true := by
  cases c with
  | set key value fault =>
    cases value with
    | none => simp [exec, set]
    | some new =>
      have hk : p.inner key = some new := by
        by_contra hk
        simp [saved, hk] at h
      simp [exec, set, hk]
  | remove key fault =>
    have hk : p.inner key = none := by
      simpa [saved] using h
    simp [exec, remove, hk]
  | clear fault => cases h

/-- A call changes the map in memory whatever becomes of its save; it returns `Ok(true)` with the
map in the file, and else leaves the file. -/
theorem exec_effect (hcodec : ReadsBack codec keys) (hin : Within keys (effect p.inner c))
    (h : exec codec p c = (r, q)) : q.inner = effect p.inner c ∧
      (r = .ok true ∧ load codec q.file = .ok q.inner ∨
        r ≠ .ok true ∧ q.file = p.file ∧ (r.isOk = true → q.inner = p.inner)) := by
  rcases @exec_cases _ codec p c _ with ⟨m, fault, hs, he⟩ | ⟨hs, he⟩
  · rw [he] at h
    have hm : m = effect p.inner c := saved_effect.1 _ hs
    obtain ⟨hq, ⟨-, hr, text, ht, hf⟩ | ⟨-, ⟨e, hr⟩, hf⟩⟩ := save_cases h
    · refine ⟨hq.trans hm, .inl ⟨hr, ?_⟩⟩
      rw [hf, load_some, hq]
      refine hcodec _ _ ?_ ht
      rw [hm]
      exact hin
    · refine ⟨hq.trans hm, .inr ⟨?_, hf, ?_⟩⟩
      · simp [hr]
      · simp [hr, Except.isOk, Except.toBool]
  · have hq : q = p := by
      rw [← he, h]
    subst hq
    refine ⟨(saved_effect.2 hs).symm, .inr ⟨?_, rfl, fun _ => rfl⟩⟩
    have hr : (exec codec q c).1 ≠ .ok true := exec_unsaved hs
    rw [h] at hr
    exact hr

/-- A process that loaded `m₀`: the map in memory is that of all calls so far, and the one in the
file that of the first of them. -/
structure Keeps (codec : PrefsCodec Value) (m₀ : String → Option Value) (done : List (Call Value))
    (answers : List (Except PrefsError Bool)) (p : Prefs Value) : Prop where
  inner : p.inner = done.foldl effect m₀
  length : answers.length = done.length
  file : ∃ kept, kept <+: done ∧ load codec p.file = .ok (kept.foldl effect m₀) ∧
    (∀ j, answers[j]? = some (.ok true) → j < kept.length) ∧
    ((∀ r ∈ answers, r.isOk = true) → done = kept)

omit [DecidableEq Value] in
theorem keeps_loaded (h : load codec d.file = .ok m₀) :
    Keeps codec m₀ [] [] ⟨m₀, d.file, d.tmp⟩ where
  inner := rfl
  length := rfl
  file := ⟨[], List.nil_prefix, h, by simp, fun _ => rfl⟩

theorem Keeps.exec (h : Keeps codec m₀ done answers p) (hcodec : ReadsBack codec keys)
    (hm : Within keys m₀) (hdone : ∀ c ∈ done, KeyIn keys c) (hc : KeyIn keys c)
    (he : Prefs.exec codec p c = (r, q)) : Keeps codec m₀ (done ++ [c]) (answers ++ [r]) q := by
  have hin : Within keys (effect p.inner c) := by
    rw [h.inner]
    exact within_effect (within_foldl hm hdone) hc
  obtain ⟨hq, hcases⟩ := exec_effect hcodec hin he
  have hinner : q.inner = (done ++ [c]).foldl effect m₀ := by
    rw [hq, h.inner, List.foldl_append, List.foldl_cons, List.foldl_nil]
  have hlen : (answers ++ [r]).length = (done ++ [c]).length := by
    rw [List.length_append, List.length_append, h.length, List.length_singleton,
      List.length_singleton]
  obtain ⟨kept, hpre, hload, htrue, hall⟩ := h.file
  refine ⟨hinner, hlen, ?_⟩
  have hwhole : load codec q.file = .ok q.inner → ∃ kept, kept <+: done ++ [c] ∧
      load codec q.file = .ok (kept.foldl effect m₀) ∧
      (∀ j, (answers ++ [r])[j]? = some (.ok true) → j < kept.length) ∧
      ((∀ r' ∈ answers ++ [r], r'.isOk = true) → done ++ [c] = kept) := by
    intro hf
    refine ⟨done ++ [c], List.prefix_rfl, hf.trans (by rw [hinner]), ?_, fun _ => rfl⟩
    intro j hj
    rw [← hlen]
    exact (List.getElem?_eq_some_iff.mp hj).1
  rcases hcases with ⟨rfl, hf⟩ | ⟨hr, hf, hsame⟩
  · exact hwhole hf
  · by_cases hok : ∀ r' ∈ answers ++ [r], r'.isOk = true
    · -- nothing has failed, and this call had nothing to change
      have hkept : done = kept := hall fun r' hr' => hok r' (List.mem_append_left _ hr')
      have hrok : r.isOk = true := hok r (List.mem_append_right _ (List.mem_singleton_self r))
      refine hwhole ?_
      rw [hf, hload, hsame hrok, h.inner, hkept]
    · refine ⟨kept, hpre.trans (List.prefix_append _ _), hf ▸ hload, ?_, fun h => absurd h hok⟩
      intro j hj
      by_cases hlt : j < answers.length
      · rw [List.getElem?_append_left hlt] at hj
        exact htrue j hj
      · rw [List.getElem?_append_right (by omega), List.getElem?_singleton] at hj
        split at hj
        · exact absurd (Option.some.inj hj) hr
        · cases hj

theorem Keeps.execAll (h : Keeps codec m₀ done answers p) (hcodec : ReadsBack codec keys)
    (hm : Within keys m₀) (hdone : ∀ c ∈ done ++ cs, KeyIn keys c) :
    Keeps codec m₀ (done ++ cs) (answers ++ (Prefs.execAll codec p cs).1)
      (Prefs.execAll codec p cs).2 := by
  induction cs generalizing done answers p with
  | nil =>
    rw [List.append_nil]
    simpa [Prefs.execAll] using h
  | cons c cs ih =>
    have hmem : ∀ c' ∈ done ++ [c], KeyIn keys c' := by
      intro c' hc'
      refine hdone c' ?_
      rw [List.append_cons]
      exact List.mem_append_left _ hc'
    generalize he : Prefs.exec codec p c = out
    obtain ⟨r, q⟩ := out
    have hstep := h.exec hcodec hm (fun c' hc' => hmem c' (List.mem_append_left _ hc'))
      (hmem c (List.mem_append_right _ (List.mem_singleton_self c))) he
    have hrest := ih hstep (by rwa [← List.append_cons])
    simp only [Prefs.execAll, he]
    rwa [List.append_cons, List.append_cons answers]

/-- What a process leaves in the file is what some first calls of it make of the map it loaded. -/
theorem run_survives (hcodec : ReadsBack codec keys) (hm : Within keys m₀)
    (hkeys : ∀ c ∈ s.calls ++ s.cut.toList, KeyIn keys c) (hload : load codec d.file = .ok m₀) :
    ∃ answers d', s.run codec d = .ok (answers, d') ∧
      ∃ kept, Survives kept (s, answers) ∧ load codec d'.file = .ok (kept.foldl effect m₀) := by
  have hk := (keeps_loaded hload).execAll hcodec hm fun c hc =>
    hkeys c (List.mem_append_left _ hc)
  simp only [List.nil_append] at hk
  generalize hout : execAll codec ⟨m₀, d.file, d.tmp⟩ s.calls = out at hk
  obtain ⟨answers, p⟩ := out
  refine ⟨answers, ⟨(s.cut.elim p fun c => (exec codec p c).2).file,
    (s.cut.elim p fun c => (exec codec p c).2).tmp⟩, ?_, ?_⟩
  · simp only [Session.run, hload, bind, Except.bind, hout]
    rfl
  obtain ⟨kept, hpre, hfile, htrue, hall⟩ := hk.file
  have hbefore : Survives kept (s, answers) := by
    refine ⟨hpre.trans (List.prefix_append _ _), htrue, ?_⟩
    intro hok
    have hsame : s.calls = kept := hall hok
    change s.calls <+: kept
    rw [hsame]
  cases hcut : s.cut with
  | none => exact ⟨kept, hbefore, hfile⟩
  | some c =>
    simp only [Option.elim_some]
    rw [hcut] at hkeys
    generalize he : exec codec p c = out
    obtain ⟨r, q⟩ := out
    have hin : Within keys (effect p.inner c) := by
      rw [hk.inner]
      exact within_effect (within_foldl hm fun c hc => hkeys c (List.mem_append_left _ hc))
        (hkeys c (List.mem_append_right _ (List.mem_singleton_self c)))
    obtain ⟨hq, ⟨-, hf⟩ | ⟨-, hf, -⟩⟩ := exec_effect hcodec hin he
    · -- the kill came after the rename
      refine ⟨s.calls ++ [c], ⟨?_, ?_, fun _ => List.prefix_append _ _⟩, ?_⟩
      · rw [hcut]
        exact List.prefix_rfl
      · intro j hj
        have hlen := (List.getElem?_eq_some_iff.mp hj).1
        rw [List.length_append, ← hk.length]
        exact Nat.lt_add_right _ hlen
      · rw [hf, hq, hk.inner, List.foldl_append, List.foldl_cons, List.foldl_nil]
    · refine ⟨kept, hbefore, ?_⟩
      rw [hf]
      exact hfile

theorem demoCodec_readsBack : ReadsBack demoCodec {"k"} := by
  intro m text hm ht
  refine congrArg some (funext fun key => ?_)
  by_cases hk : key = "k"
  · subst hk
    simp only [demoCodec] at ht
    cases hv : m "k" with
    | none =>
      rw [hv] at ht
      cases ht
      rfl
    | some v =>
      rw [hv] at ht
      cases ht
      rw [if_pos rfl, String.toList_ofList, List.head?_cons]
  · rw [if_neg hk]
    exact (hm key (by simpa using hk)).symm

/-- A set that is made again after its save failed returns `Ok(false)`, and is lost all the same. -/
example : ((restarts demoCodec ⟨none, none⟩ [⟨[.set "k" (some 'a') (some .rename),
      .set "k" (some 'a') none], none⟩]).toOption.map fun out => (out.1.map Prod.snd, out.2)) =
    some ([[.error (.write .prefs), .ok false]], ⟨none, some "a"⟩) := by
  simp [restarts, Session.run, load, execAll, exec, set, save, demoCodec, bind, Except.bind, pure,
    Except.pure, Except.toOption]

end PlainRs.Prefs
