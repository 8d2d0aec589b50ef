import PlainRs.Base.Runs

/-! Operations that take several steps each, one operation after the other. -/
namespace Runs

variable {σ τ α β : Type*} {S : System σ α} {T : System τ β} {G : σ → α → Prop} {s : σ}

/-- `a` again, as long as it is enabled, at most `n` times. -/
def System.complete (S : System σ α) : Nat → σ → α → σ
  | 0, s, _ => s
  | n + 1, s, a => (S.next s a).elim s fun t => S.complete n t a

/-- The sequential runs: `a` is completed, in at most `n` more steps, before the next begins. -/
def System.alone (S : System σ α) (n : Nat) : System σ α where
  init := S.init
  next s a := (S.next s a).map fun t => S.complete n t a

/-- Where each step under `G` is matched by none or by one step of `T`, each state reached under `G`
is matched by a state that `T` reaches. -/
theorem ReachableUnder.matched {R : σ → τ → Prop} (hinit : ∀ s, S.init s → ∃ v, T.init v ∧ R s v)
    (hstep : ∀ s a t v, R s v → G s a → S.next s a = some t →
      R t v ∨ ∃ b w, T.next v b = some w ∧ R t w) (h : ReachableUnder S G s) :
    ∃ v, Reachable T v ∧ R s v := by
  induction h with
  | init hs =>
    obtain ⟨v, hv, hr⟩ := hinit _ hs
    exact ⟨v, .init hv, hr⟩
  | step _ hg ht ih =>
    obtain ⟨v, hv, hr⟩ := ih
    rcases hstep _ _ _ v hr hg ht with hr | ⟨b, w, hw, hr⟩
    · exact ⟨v, hv, hr⟩
    · exact ⟨w, hv.step hw, hr⟩

/-- What is in a list that each step stays in is all that is reached. -/
theorem Reachable.mem {L : List σ} (hinit : ∀ s, S.init s → s ∈ L)
    (hstep : ∀ s ∈ L, ∀ a t, S.next s a = some t → t ∈ L) (h : Reachable S s) : s ∈ L :=
  h.invariant hinit fun s a t hs ht => hstep s hs a t ht

end Runs
