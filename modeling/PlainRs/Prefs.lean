import PlainRs.Base.Along

/-! The preferences store: a map in memory and the file it is saved to. -/
namespace PlainRs

open Runs

/-- The file that a write error names. -/
inductive PrefsFile
  | parent
  | tmp
  | prefs
  deriving DecidableEq

inductive PrefsError
  | parse
  | encode
  | write (file : PrefsFile)
  deriving DecidableEq

/-- `serde_json`: the text of a map, pretty-printed, and the map of a text. -/
structure PrefsCodec (Value : Type) where
  toStringPretty : (String → Option Value) → Option String
  fromStr : String → Option (String → Option Value)

/-- The file operation of `save` that fails; a failed write leaves anything in the file beside. -/
inductive SaveFault
  | createDirAll
  | write (left : Option String)
  | rename
  deriving DecidableEq

/-- The map in memory, and the texts of the file at `path` and of the one beside it. -/
structure Prefs (Value : Type) where
  inner : String → Option Value
  file : Option String
  tmp : Option String

namespace Prefs

/-- A call, with the operation of its `save` that fails, if any. A value that cannot be turned into
JSON is `none`. -/
inductive Call (Value : Type)
  | set (key : String) (value : Option Value) (fault : Option SaveFault)
  | remove (key : String) (fault : Option SaveFault)
  | clear (fault : Option SaveFault)

section

variable {Value : Type} (codec : PrefsCodec Value)

/-- A missing file starts empty. -/
def load : Option String → Except PrefsError (String → Option Value)
  | none => .ok fun _ => none
  | some text => (codec.fromStr text).elim (.error .parse) .ok

/-- The new text is written beside the file and renamed over it. -/
def save (fault : Option SaveFault) (p : Prefs Value) : Except PrefsError Bool × Prefs Value :=
  if fault = some .createDirAll then (.error (.write .parent), p)
  else
    match codec.toStringPretty p.inner with
    | none => (.error .encode, p)
    | some text =>
      match fault with
      | some (.write left) => (.error (.write .tmp), { p with tmp := left })
      | some .rename => (.error (.write .prefs), { p with tmp := some text })
      | _ => (.ok true, { p with file := some text, tmp := none })

def remove (key : String) (fault : Option SaveFault) (p : Prefs Value) :
    Except PrefsError Bool × Prefs Value :=
  match p.inner key with
  | none => (.ok false, p)
  | some _ => save codec fault { p with inner := Function.update p.inner key none }

def clear (fault : Option SaveFault) (p : Prefs Value) : Except PrefsError Bool × Prefs Value :=
  save codec fault { p with inner := fun _ => none }

variable [DecidableEq Value]

/-- An equal value is not written again. -/
def set (key : String) (value : Option Value) (fault : Option SaveFault) (p : Prefs Value) :
    Except PrefsError Bool × Prefs Value :=
  match value with
  | none => (.error .encode, p)
  | some new =>
    if p.inner key = some new then (.ok false, p)
    else save codec fault { p with inner := Function.update p.inner key (some new) }

def exec (p : Prefs Value) : Call Value → Except PrefsError Bool × Prefs Value
  | .set key value fault => set codec key value fault p
  | .remove key fault => remove codec key fault p
  | .clear fault => clear codec fault p

/-- A store under calls, from one that was loaded. -/
def runs : System (Prefs Value) (Call Value) where
  init p := load codec p.file = .ok p.inner
  next p c := some (exec codec p c).2

/-- A call that succeeds leaves the map in the file, and one that fails leaves both as they were. -/
def Agrees (p : Prefs Value) (c : Call Value) : Prop :=
  match exec codec p c with
  | (.ok _, q) => load codec q.file = .ok q.inner
  | (.error _, q) => q.inner = p.inner ∧ q.file = p.file

end

/-- The map that a call goes on to save, and the file operation that fails. -/
def saved {Value : Type} [DecidableEq Value] (p : Prefs Value) :
    Call Value → Option ((String → Option Value) × Option SaveFault)
  | .set key value fault => value.bind fun new =>
    if p.inner key = some new then none else some (Function.update p.inner key (some new), fault)
  | .remove key fault => (p.inner key).map fun _ => (Function.update p.inner key none, fault)
  | .clear fault => some (fun _ => none, fault)

/-- A map whose save succeeds is read from its text again; one whose save fails is as before. -/
def SaveKeeps {Value : Type} (codec : PrefsCodec Value) (before m : String → Option Value) :
    Option SaveFault → Prop
  | none => (codec.toStringPretty m).elim (m = before) fun text => codec.fromStr text = some m
  | some _ => m = before

/-- No map that a call changes fails to be saved, and each is read from its text again. -/
def Saves {Value : Type} [DecidableEq Value] (codec : PrefsCodec Value) (p : Prefs Value)
    (c : Call Value) : Prop :=
  ∀ m fault, saved p c = some (m, fault) → SaveKeeps codec p.inner m fault

variable {Value : Type} {codec : PrefsCodec Value} {p q : Prefs Value} {c : Call Value}
  {cs : List (Call Value)} {fault : Option SaveFault} {r : Except PrefsError Bool}

/-- A save that succeeds writes the text of the map, and one that fails leaves the file. -/
theorem save_cases (h : save codec fault p = (r, q)) : q.inner = p.inner ∧
    ((fault = none ∧ r = .ok true ∧ ∃ text, codec.toStringPretty p.inner = some text ∧
        q.file = some text) ∨
      ((fault ≠ none ∨ codec.toStringPretty p.inner = none) ∧ (∃ e, r = .error e) ∧
        q.file = p.file)) := by
  unfold save at h
  split at h
  · next hc =>
    cases h
    exact ⟨rfl, .inr ⟨.inl (by simp [hc]), ⟨_, rfl⟩, rfl⟩⟩
  · next hc =>
    split at h
    · next ht =>
      cases h
      exact ⟨rfl, .inr ⟨.inr ht, ⟨_, rfl⟩, rfl⟩⟩
    · next text ht =>
      split at h
      · cases h
        exact ⟨rfl, .inr ⟨.inl (by simp), ⟨_, rfl⟩, rfl⟩⟩
      · cases h
        exact ⟨rfl, .inr ⟨.inl (by simp), ⟨_, rfl⟩, rfl⟩⟩
      · next hw hr =>
        cases h
        have hnone : fault = none := by
          cases fault with
          | none => rfl
          | some fault =>
            cases fault with
            | createDirAll => exact absurd rfl hc
            | write left => exact absurd rfl (hw left)
            | rename => exact absurd rfl hr
        exact ⟨rfl, .inl ⟨hnone, rfl, text, ht, rfl⟩⟩

variable [DecidableEq Value]

/-- A call either saves a map, or changes nothing. -/
theorem exec_cases : (∃ m fault, saved p c = some (m, fault) ∧
      exec codec p c = save codec fault { p with inner := m }) ∨
    saved p c = none ∧ (exec codec p c).2 = p := by
  cases c with
  | set key value fault =>
    cases value with
    | none => exact .inr ⟨rfl, rfl⟩
    | some new =>
      by_cases hk : p.inner key = some new
      · right
        simp [saved, exec, set, hk]
      · left
        exact ⟨Function.update p.inner key (some new), fault, if_neg hk, if_neg hk⟩
  | remove key fault =>
    cases hk : p.inner key with
    | none =>
      right
      simp [saved, exec, remove, hk]
    | some value =>
      left
      refine ⟨Function.update p.inner key none, fault, ?_, ?_⟩
      · simp [saved, hk]
      · simp [exec, remove, hk]
  | clear fault => exact .inl ⟨_, fault, rfl, rfl⟩

omit [DecidableEq Value] in
theorem load_some {text : String} {m : String → Option Value} :
    load codec (some text) = .ok m ↔ codec.fromStr text = some m := by
  cases h : codec.fromStr text with
  | none => simp [load, h]
  | some m' => simp [load, h]

omit [DecidableEq Value] in
theorem saveKeeps_of_fault {before m : String → Option Value}
    (h : fault ≠ none ∨ codec.toStringPretty m = none) :
    SaveKeeps codec before m fault ↔ m = before := by
  cases fault with
  | some fault => exact Iff.rfl
  | none =>
    rcases h with h | h
    · exact absurd rfl h
    · rw [SaveKeeps, h, Option.elim_none]

/-- From a store that agrees with its file, one call keeps to the contract exactly if its save
does, and leaves a store that agrees with its file. -/
theorem agrees_iff (hp : load codec p.file = .ok p.inner) :
    (Agrees codec p c ↔ Saves codec p c) ∧
      (Agrees codec p c → load codec (exec codec p c).2.file = .ok (exec codec p c).2.inner) := by
  rcases @exec_cases _ codec p c _ with ⟨m, fault, hs, he⟩ | ⟨hs, he⟩
  · have hsaves : Saves codec p c ↔ SaveKeeps codec p.inner m fault := by
      constructor
      · intro h
        exact h m fault hs
      · intro h m' fault' hs'
        rw [hs] at hs'
        cases hs'
        exact h
    rw [hsaves, Agrees, he]
    generalize hr : save codec fault { p with inner := m } = out
    obtain ⟨r, q⟩ := out
    obtain ⟨hm, ⟨rfl, rfl, text, ht, hf⟩ | ⟨hfail, ⟨e, rfl⟩, hf⟩⟩ := save_cases hr
    · simp only [SaveKeeps, hm] at ht ⊢
      rw [ht, hf, load_some, Option.elim_some]
      exact ⟨Iff.rfl, id⟩
    · simp only [hm] at hfail ⊢
      rw [saveKeeps_of_fault hfail, hf]
      simp only [and_true, true_and]
      rintro rfl
      exact hp
  · have hsaves : Saves codec p c := by
      intro m fault hm
      rw [hs] at hm
      cases hm
    simp only [hsaves, iff_true, he, hp, imp_true_iff, and_true]
    unfold Agrees
    generalize hr : exec codec p c = out
    obtain ⟨r, q⟩ := out
    rw [hr] at he
    cases he
    cases r with
    | ok _ => exact hp
    | error _ => exact ⟨rfl, rfl⟩

/-- In a run from a loaded store all calls keep memory and file together, exactly if each map that is
saved is read back from its text, and none fails to be saved but one that is not changed. -/
theorem memory_agrees_with_file (hp : load codec p.file = .ok p.inner) :
    (runs codec).StepsAlong (Agrees codec) p cs ↔ (runs codec).StepsAlong (Saves codec) p cs := by
  refine System.stepsAlong_iff (I := fun p => load codec p.file = .ok p.inner) hp ?_
  intro p c q hp hq
  cases hq
  exact agrees_iff hp

/-- Keys with values that are each one character, one after the other. -/
def demoCodec : PrefsCodec Char where
  toStringPretty m := (m "k").elim (some "") fun c => some (String.ofList [c])
  fromStr text := some fun key => if key = "k" then text.toList.head? else none

/-- A set, and the same one again. -/
theorem memory_agrees_with_file_twice : (runs demoCodec).StepsAlong (Agrees demoCodec)
    ⟨fun _ => none, none, none⟩ [.set "k" (some 'v') none, .set "k" (some 'v') none] := by
  refine (memory_agrees_with_file rfl).mpr ?_
  intro q hq
  cases hq
  refine ⟨?_, ?_⟩
  · rintro m fault hm
    cases hm
    refine congrArg some (funext fun key => ?_)
    by_cases hk : key = "k"
    · subst hk
      rfl
    · simp [hk]
  · intro q hq
    cases hq
    refine ⟨?_, trivial⟩
    intro m fault hm
    cases hm

/-- A set whose rename fails stays in memory. -/
theorem unsavedSet_staysInMemory : ¬ ∀ p cs, load demoCodec p.file = .ok p.inner →
    (runs demoCodec).StepsAlong (Agrees demoCodec) p cs := by
  intro h
  have hrun := h ⟨fun _ => none, none, none⟩ [.set "k" (some 'v') (some .rename)] rfl _ rfl
  have hin : Function.update (fun _ => none) "k" (some 'v') "k" = (none : Option Char) :=
    congrFun hrun.1.1 "k"
  rw [Function.update_self] at hin
  cases hin

end Prefs

end PlainRs
