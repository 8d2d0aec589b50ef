import Mathlib

/-! Paths by their components, and where they lead in a tree of directories. -/
namespace PlainRs.Components

/-- A name that leads to what bears it, in the directory that it is looked up in. -/
def Plain (name : String) : Prop := name ≠ "" ∧ name ≠ "." ∧ name ≠ ".." ∧ '/' ∉ name.toList

instance (name : String) : Decidable (Plain name) :=
  inferInstanceAs (Decidable (_ ∧ _ ∧ _ ∧ _))

inductive Component
  | parentDir
  | normal (name : String)
  deriving DecidableEq

def component? (text : List Char) : Option Component :=
  if text = [] ∨ text = ['.'] then none
  else if text = ['.', '.'] then some .parentDir
  else some (.normal (String.ofList text))

def components (path : String) : List Component := (path.toList.splitOn '/').filterMap component?

/-- `Path::join`: an absolute path takes the place of the base. -/
def join (base : List String) (path : String) : List Component :=
  if path.toList.head? = some '/' then components path
  else base.map .normal ++ components path

def Component.enter (dir : List String) : Component → List String
  | .parentDir => dir.dropLast
  | .normal name => dir ++ [name]

/-- The path that the components lead to, if each is looked up in a directory. -/
def resolve (isDir : List String → Bool) : List String → List Component → Option (List String)
  | dir, [] => some dir
  | dir, c :: cs => if isDir dir then resolve isDir (c.enter dir) cs else none

/-- What is passed on the way. -/
def visited : List String → List Component → List (List String)
  | dir, [] => [dir]
  | dir, c :: cs => dir :: visited (c.enter dir) cs

variable {isDir : List String → Bool} {dir stop base names : List String} {cs : List Component}
  {path name : String}

theorem resolve_of_visited (h : ∀ d ∈ visited dir cs, isDir d) :
    resolve isDir dir cs = some (cs.foldl Component.enter dir) := by
  induction cs generalizing dir with
  | nil => rfl
  | cons c cs ih =>
    have hdir : isDir dir = true := h dir List.mem_cons_self
    rw [resolve, if_pos hdir, List.foldl_cons]
    apply ih
    intro d hd
    exact h d (List.mem_cons_of_mem dir hd)

theorem resolve_normal (h : resolve isDir dir (names.map .normal) = some stop) :
    stop = dir ++ names := by
  induction names generalizing dir with
  | nil => simpa [resolve, eq_comm] using h
  | cons name names ih =>
    rw [List.map_cons, resolve] at h
    split at h
    · simpa [Component.enter] using ih h
    · cases h

theorem mem_visited_end : cs.foldl Component.enter dir ∈ visited dir cs := by
  induction cs generalizing dir with
  | nil => exact List.mem_cons_self
  | cons c cs ih => exact List.mem_cons_of_mem dir ih

theorem plain_end (hdir : ∀ name ∈ dir, Plain name) (hcs : ∀ name, .normal name ∈ cs → Plain name) :
    ∀ name ∈ cs.foldl Component.enter dir, Plain name := by
  induction cs generalizing dir with
  | nil => exact hdir
  | cons c cs ih =>
    apply ih
    · intro name hname
      cases c with
      | parentDir => exact hdir name (List.mem_of_mem_dropLast hname)
      | normal n =>
        rcases List.mem_append.mp hname with hname | hname
        · exact hdir name hname
        · obtain rfl := List.mem_singleton.mp hname
          exact hcs name List.mem_cons_self
    · intro name hname
      exact hcs name (List.mem_cons_of_mem c hname)

theorem not_mem_of_mem_splitOn {α : Type*} [DecidableEq α] {a : α} {l piece : List α}
    (h : piece ∈ l.splitOn a) : a ∉ piece := by
  induction l generalizing piece with
  | nil =>
    obtain rfl : piece = [] := by simpa using h
    exact List.not_mem_nil
  | cons b l ih =>
    rw [List.splitOn_cons_eq_if_modifyHead] at h
    split at h
    · rcases List.mem_cons.mp h with rfl | h
      · exact List.not_mem_nil
      · exact ih h
    · next hb =>
      cases hs : l.splitOn a with
      | nil => exact absurd hs (List.splitOn_ne_nil a l)
      | cons first rest =>
        rw [hs, List.modifyHead_cons] at h
        rcases List.mem_cons.mp h with rfl | h
        · intro ha
          rcases List.mem_cons.mp ha with rfl | ha
          · exact hb BEq.rfl
          · exact ih (hs ▸ List.mem_cons_self) ha
        · exact ih (hs ▸ List.mem_cons_of_mem first h)

theorem plain_of_component? {text : List Char} (hs : '/' ∉ text)
    (h : component? text = some (.normal name)) : Plain name := by
  unfold component? at h
  split at h
  · cases h
  · next hne =>
    split at h
    · cases h
    · next hdots =>
      obtain rfl : String.ofList text = name := by simpa using h
      have heq : ∀ s : String, String.ofList text = s → text = s.toList := fun s hs => by
        rw [← hs, String.toList_ofList]
      refine ⟨fun hn => hne (.inl (heq _ hn)), fun hn => hne (.inr (heq _ hn)),
        fun hn => hdots (heq _ hn), ?_⟩
      rwa [String.toList_ofList]

theorem plain_of_mem_components (h : .normal name ∈ components path) : Plain name := by
  obtain ⟨text, ht, hname⟩ := List.mem_filterMap.mp h
  exact plain_of_component? (not_mem_of_mem_splitOn ht) hname

theorem plain_of_mem_join (hbase : ∀ name ∈ base, Plain name) (h : .normal name ∈ join base path) :
    Plain name := by
  unfold join at h
  split at h
  · exact plain_of_mem_components h
  · rcases List.mem_append.mp h with h | h
    · obtain ⟨n, hn, hname⟩ := List.mem_map.mp h
      obtain rfl : n = name := by simpa using hname
      exact hbase n hn
    · exact plain_of_mem_components h

theorem components_plain (h : Plain name) : components name = [.normal name] := by
  obtain ⟨hne, hdot, hdots, hslash⟩ := h
  have hsplit : name.toList.splitOn '/' = [name.toList] := by
    apply List.splitOn_eq_singleton_of_beq_eq_false
    intro c hc
    rw [beq_eq_false_iff_ne]
    rintro rfl
    exact hslash hc
  have heq : ∀ s : String, name.toList = s.toList → name = s := fun s => String.toList_inj.mp
  have hnone : ¬ (name.toList = [] ∨ name.toList = ['.']) := by
    rintro (hn | hn)
    · exact hne (heq "" hn)
    · exact hdot (heq "." hn)
  have hparent : name.toList ≠ ['.', '.'] := fun hn => hdots (heq ".." hn)
  have hname : component? name.toList = some (.normal name) := by
    rw [component?, if_neg hnone, if_neg hparent, String.ofList_toList]
  rw [components, hsplit, List.filterMap_cons_some hname, List.filterMap_nil]

/-- A plain name is joined as it is. -/
theorem join_plain (base : List String) (h : Plain name) :
    join base name = (base ++ [name]).map .normal := by
  have hhead : name.toList.head? ≠ some '/' := fun hh => h.2.2.2 (List.mem_of_head? hh)
  rw [join, if_neg hhead, components_plain h, List.map_append]
  rfl

example : join ["data", "tmp"] "../a/./b" =
    [.normal "data", .normal "tmp", .parentDir, .normal "a", .normal "b"] := by decide +kernel

end PlainRs.Components
