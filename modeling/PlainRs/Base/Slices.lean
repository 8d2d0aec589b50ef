import PlainRs.Base.Checked
import PlainRs.Base.Text
import PlainRs.Base.Utf8

/-! Texts cut at byte positions that a search found, in characters and in bytes. -/
namespace Text

open Checked

/-- `&s[i..j]`. -/
def cut (cs : List Char) (i j : Nat) : Checked (List Char) :=
  if i ≤ j then ofBoundary ((dropBytes i cs).bind (takeBytes (j - i))) else .error .outOfBounds

/-- `&s[i..]`. -/
def cutFrom (cs : List Char) (i : Nat) : Checked (List Char) := ofBoundary (dropBytes i cs)

/-- `str::find` of a text. -/
def findStr (pat : List Char) : List Char → Option Nat
  | [] => if pat = [] then some 0 else none
  | c :: cs => if pat <+: c :: cs then some 0 else (findStr pat cs).map (c.utf8Size + ·)

/-- `str::find` of a character of some kind. -/
def findWhere (p : Char → Bool) : List Char → Option Nat
  | [] => none
  | c :: cs => if p c then some 0 else (findWhere p cs).map (c.utf8Size + ·)

/-- `str::rfind` of a character. -/
def rfindByte (c : Char) : List Char → Option Nat
  | [] => none
  | d :: cs => (rfindByte c cs).elim (if d = c then some 0 else none) (some <| d.utf8Size + ·)

/-- `bytes[i..].iter().position(|&b| b == c)`, counted from the beginning. -/
def position (bytes : List UInt8) (i : Nat) (c : Char) : Checked (Option {k // i ≤ k}) := do
  let rest ← Checked.slice bytes i bytes.length
  pure ((rest.findIdx? (· = c.toNat.toUInt8)).map fun k => ⟨i + k, Nat.le_add_right i k⟩)

variable {c d : Char} {cs pre mid post post' pat open' : List Char} {n i j : Nat}

/-- `post` stands at byte `i` of `cs`. -/
def StandsAt (post : List Char) (i : Nat) (cs : List Char) : Prop :=
  ∃ pre, cs = pre ++ post ∧ String.utf8Len pre = i

theorem standsAt_zero : StandsAt cs 0 cs := ⟨[], rfl, rfl⟩

theorem StandsAt.append (h : StandsAt (mid ++ post) i cs) :
    StandsAt post (i + String.utf8Len mid) cs := by
  obtain ⟨pre, rfl, rfl⟩ := h
  exact ⟨pre ++ mid, by simp, String.utf8Len_append ..⟩

theorem StandsAt.tail (h : StandsAt (c :: post) i cs) : StandsAt post (i + c.utf8Size) cs := by
  have h : StandsAt ([c] ++ post) i cs := h
  simpa [String.utf8Len_cons, String.utf8Len] using h.append

theorem StandsAt.length_le (h : StandsAt post i cs) :
    i + String.utf8Len post = String.utf8Len cs := by
  obtain ⟨pre, rfl, rfl⟩ := h
  exact (String.utf8Len_append ..).symm

theorem StandsAt.dropBytes_eq (h : StandsAt post i cs) : dropBytes i cs = some post := by
  obtain ⟨pre, rfl, rfl⟩ := h
  exact dropBytes_append

theorem dropBytes_add : dropBytes (String.utf8Len pre + n) (pre ++ post) = dropBytes n post := by
  induction pre with
  | nil => simp [String.utf8Len]
  | cons c cs ih =>
    have hc := c.utf8Size_pos
    obtain ⟨k, hk⟩ : ∃ k, String.utf8Len (c :: cs) + n = k + 1 :=
      ⟨String.utf8Len cs + c.utf8Size + n - 1, by simp [String.utf8Len_cons]; omega⟩
    have hrest : k + 1 - c.utf8Size = String.utf8Len cs + n := by
      rw [← hk, String.utf8Len_cons]
      omega
    rw [hk, List.cons_append, dropBytes,
      if_pos (by rw [← hk, String.utf8Len_cons]; omega), hrest, ih]

theorem takeBytes_eq_some (h : takeBytes n cs = some pre) :
    ∃ post, cs = pre ++ post ∧ String.utf8Len pre = n := by
  induction cs generalizing n pre with
  | nil =>
    cases n with
    | zero =>
      obtain rfl := Option.some.inj h
      exact ⟨[], rfl, rfl⟩
    | succ n => cases h
  | cons c cs ih =>
    cases n with
    | zero =>
      obtain rfl := Option.some.inj h
      exact ⟨c :: cs, rfl, rfl⟩
    | succ n =>
      rw [takeBytes] at h
      split at h
      · obtain ⟨rest, hrest, rfl⟩ := Option.map_eq_some_iff.mp h
        obtain ⟨post, rfl, hlen⟩ := ih hrest
        refine ⟨post, rfl, ?_⟩
        rw [String.utf8Len_cons]
        omega
      · cases h

theorem cutFrom_spec (h : StandsAt post i cs) : Spec (cutFrom cs i) (· = post) :=
  ofBoundary_spec h.dropBytes_eq

/-- A cut between two positions where something stands gives what is between them. -/
theorem cut_spec (h : StandsAt (mid ++ post) i cs) (hj : j = i + String.utf8Len mid) :
    Spec (cut cs i j) (· = mid) := by
  obtain ⟨pre, rfl, rfl⟩ := h
  subst hj
  rw [cut, if_pos (Nat.le_add_right _ _), dropBytes_append, Option.bind_some,
    Nat.add_sub_cancel_left, takeBytes_append]
  exact .pure rfl

theorem standsAt_of_findStr (h : findStr pat cs = some n) :
    ∃ post, StandsAt (pat ++ post) n cs := by
  induction cs generalizing n with
  | nil =>
    rw [findStr] at h
    split at h
    · next hp =>
      obtain rfl := Option.some.inj h
      exact ⟨[], [], by simp [hp], rfl⟩
    · cases h
  | cons d ds ih =>
    rw [findStr] at h
    split at h
    · next hp =>
      obtain rfl := Option.some.inj h
      obtain ⟨post, hpost⟩ := hp
      exact ⟨post, [], hpost.symm, rfl⟩
    · obtain ⟨m, hm, rfl⟩ := Option.map_eq_some_iff.mp h
      obtain ⟨post, pre, rfl, rfl⟩ := ih hm
      exact ⟨post, d :: pre, rfl, by rw [String.utf8Len_cons, Nat.add_comm]⟩

theorem standsAt_of_findByte (h : findByte c cs = some n) :
    ∃ mid post, cs = mid ++ c :: post ∧ String.utf8Len mid = n ∧ StandsAt (c :: post) n cs := by
  obtain ⟨pre, post, rfl, rfl⟩ := findByte_eq_some h
  exact ⟨pre, post, rfl, rfl, pre, rfl, rfl⟩

/-- What begins with a character that `pat` has at most in front does not begin within it. -/
theorem StandsAt.apart (h : StandsAt (pat ++ post) i cs) (h' : StandsAt (c :: post') j cs)
    (hc : c ∉ pat.tail) (hij : i < j) :
    ∃ mid, j = i + String.utf8Len (pat ++ mid) ∧ post = mid ++ c :: post' := by
  obtain ⟨pre, rfl, rfl⟩ := h
  obtain ⟨pre', heq, rfl⟩ := h'
  rcases List.append_eq_append_iff.mp heq with ⟨a, rfl, ha⟩ | ⟨a, rfl, -⟩
  · rcases List.append_eq_append_iff.mp ha with ⟨m, rfl, hm⟩ | ⟨m, hm, hcm⟩
    · exact ⟨m, by rw [String.utf8Len_append], hm⟩
    · cases m with
      | nil =>
        rw [List.append_nil] at hm
        subst hm
        exact ⟨[], by simp [String.utf8Len_append], hcm.symm⟩
      | cons d m =>
        obtain ⟨rfl, -⟩ := List.cons.inj hcm
        cases a with
        | nil => simp at hij
        | cons e a =>
          refine absurd ?_ hc
          rw [hm]
          simp
  · rw [String.utf8Len_append] at hij
    omega

section Found

theorem cut_append : cut (pre ++ post) 0 (String.utf8Len pre) = .ok pre := by
  have hstand : StandsAt (pre ++ post) 0 (pre ++ post) := standsAt_zero
  obtain ⟨_, hcut, hpre⟩ := cut_spec hstand (Nat.zero_add _).symm
  rw [hcut, hpre]

theorem cutFrom_append : cutFrom (pre ++ post) (String.utf8Len pre) = .ok post := by
  obtain ⟨_, hcut, hpost⟩ := cutFrom_spec ⟨pre, rfl, rfl⟩
  rw [hcut, hpost]

/-- Behind a character of one byte. -/
theorem cutFrom_behind (hc : c.utf8Size = 1) :
    cutFrom (pre ++ c :: post) (String.utf8Len pre + 1) = .ok post := by
  have hlen : String.utf8Len (pre ++ [c]) = String.utf8Len pre + 1 := by
    rw [String.utf8Len_append, String.utf8Len_cons, hc]
    rfl
  have hcut : cutFrom (pre ++ [c] ++ post) (String.utf8Len (pre ++ [c])) = .ok post :=
    cutFrom_append
  rwa [hlen, List.append_assoc, List.singleton_append] at hcut

/-- Up to the first character of the kind, or to the end. -/
theorem findWhere_getD (p : Char → Bool) (cs : List Char) :
    (findWhere p cs).getD (String.utf8Len cs) = String.utf8Len (cs.takeWhile (!p ·)) := by
  induction cs with
  | nil => rfl
  | cons d cs ih =>
    rw [findWhere]
    by_cases hd : p d = true
    · rw [if_pos hd, List.takeWhile_cons_of_neg (by simp [hd])]
      rfl
    · rw [if_neg hd, List.takeWhile_cons_of_pos (by simpa using hd), String.utf8Len_cons,
        String.utf8Len_cons, ← ih]
      cases findWhere p cs with
      | none => rfl
      | some n => exact Nat.add_comm ..

theorem findStr_append (hc : c ∉ pre) :
    findStr (c :: pat) (pre ++ (c :: pat ++ post)) = some (String.utf8Len pre) := by
  induction pre with
  | nil => simp [findStr, String.utf8Len]
  | cons d pre ih =>
    rw [List.mem_cons, not_or] at hc
    have hne : ¬ c :: pat <+: d :: (pre ++ (c :: pat ++ post)) := by
      rw [List.cons_prefix_cons]
      exact fun h => hc.1 h.1
    rw [List.cons_append, findStr, if_neg hne, ih hc.2, Option.map_some, String.utf8Len_cons,
      Nat.add_comm]

theorem rfindByte_none (h : c ∉ cs) : rfindByte c cs = none := by
  induction cs with
  | nil => rfl
  | cons d cs ih =>
    rw [List.mem_cons, not_or] at h
    rw [rfindByte, ih h.2, Option.elim_none, if_neg (Ne.symm h.1)]

theorem rfindByte_append (h : c ∉ post) :
    rfindByte c (pre ++ c :: post) = some (String.utf8Len pre) := by
  induction pre with
  | nil => rw [List.nil_append, rfindByte, rfindByte_none h, Option.elim_none, if_pos rfl]; rfl
  | cons d pre ih =>
    rw [List.cons_append, rfindByte, ih, Option.elim_some, String.utf8Len_cons, Nat.add_comm]

/-- The last place of a character. -/
theorem exists_last (h : c ∈ cs) : ∃ pre post, cs = pre ++ c :: post ∧ c ∉ post := by
  obtain ⟨front, back, hsplit, hnot⟩ := List.eq_append_cons_of_mem (List.mem_reverse.mpr h)
  refine ⟨back.reverse, front.reverse, ?_, by rwa [List.mem_reverse]⟩
  have hrev := congrArg List.reverse hsplit
  simpa using hrev

end Found

section Bytes

/-- A character that is not ASCII has no byte of one that is. -/
theorem le_of_mem_utf8EncodeChar {b : UInt8} (hc : 128 ≤ c.toNat)
    (hb : b ∈ String.utf8EncodeChar c) : 128 ≤ b.toNat := by
  simp only [String.utf8EncodeChar] at hb
  simp only [Char.toNat] at hc
  rw [if_neg (by omega)] at hb
  split at hb
  all_goals try split at hb
  all_goals simp only [List.mem_cons, List.not_mem_nil, or_false] at hb
  · rcases hb with rfl | rfl
    all_goals simp only [UInt8.toNat_ofNat']
    all_goals omega
  · rcases hb with rfl | rfl | rfl
    all_goals simp only [UInt8.toNat_ofNat']
    all_goals omega
  · rcases hb with rfl | rfl | rfl | rfl
    all_goals simp only [UInt8.toNat_ofNat']
    all_goals omega

theorem bytes_char_ascii (hc : c.toNat < 128) :
    String.utf8EncodeChar c = [c.toNat.toUInt8] := by
  have hb : bytes (String.ofList [c]) = [c].map fun c => c.toNat.toUInt8 :=
    bytes_ofList_ascii (by simpa using hc)
  rwa [bytes_ofList, List.flatMap_singleton] at hb

/-- A search for an ASCII character in the bytes finds it where it stands. -/
theorem findIdx?_bytes (hc : c.toNat < 128) :
    (bytes (String.ofList cs)).findIdx? (· = c.toNat.toUInt8) = findByte c cs := by
  rw [bytes_ofList]
  induction cs with
  | nil => rfl
  | cons d ds ih =>
    rw [List.flatMap_cons, List.findIdx?_append, ih, findByte]
    split
    · next hd =>
      subst hd
      have hb := bytes_char_ascii hc
      simp [hb]
    · next hd =>
      have hnone : (String.utf8EncodeChar d).findIdx? (· = c.toNat.toUInt8) = none := by
        rw [List.findIdx?_eq_none_iff]
        intro b hb
        simp only [decide_eq_false_iff_not]
        rintro rfl
        by_cases hlow : d.toNat < 128
        · have hbytes := bytes_char_ascii hlow
          simp only [hbytes, List.mem_singleton] at hb
          have hn := congrArg UInt8.toNat hb
          simp only [Nat.toUInt8, UInt8.toNat_ofNat'] at hn
          exact hd (Char.ext (UInt32.toNat_inj.mp (by simp only [Char.toNat] at *; omega)))
        · have hle := le_of_mem_utf8EncodeChar (by omega) hb
          simp only [Nat.toUInt8, UInt8.toNat_ofNat'] at hle
          omega
      rw [hnone]
      simp [Nat.add_comm]

theorem length_bytes (cs : List Char) : (bytes (String.ofList cs)).length = String.utf8Len cs := by
  rw [bytes_ofList]
  induction cs with
  | nil => rfl
  | cons c cs ih =>
    rw [List.flatMap_cons, List.length_append, ih, String.length_utf8EncodeChar,
      String.utf8Len_cons, Nat.add_comm]

/-- A search from where something stands is one in what stands there. -/
theorem position_eq (hc : c.toNat < 128) (h : StandsAt post i cs) :
    position (bytes (String.ofList cs)) i c =
      .ok ((findByte c post).map fun k => ⟨i + k, Nat.le_add_right i k⟩) := by
  obtain ⟨pre, rfl, rfl⟩ := h
  have hlen := length_bytes (pre ++ post)
  rw [String.utf8Len_append] at hlen
  have hdrop : (bytes (String.ofList (pre ++ post))).drop (String.utf8Len pre) =
      bytes (String.ofList post) := by
    rw [bytes_ofList, List.flatMap_append, ← bytes_ofList, ← bytes_ofList, ← length_bytes pre,
      List.drop_left]
  have hslice : Checked.slice (bytes (String.ofList (pre ++ post))) (String.utf8Len pre)
      (bytes (String.ofList (pre ++ post))).length = .ok (bytes (String.ofList post)) := by
    rw [Checked.slice, if_pos ⟨by omega, le_rfl⟩, hdrop, List.take_of_length_le]
    rw [length_bytes]
    omega
  rw [position, hslice, ← findIdx?_bytes hc]
  rfl

/-- What a search from where something stands comes to: nothing, or a place where the character
stands. -/
theorem position_spec (hc : c.toNat < 128) (h : StandsAt post i cs) :
    Spec (position (bytes (String.ofList cs)) i c) fun out => ∀ k ∈ out,
      ∃ mid post', post = mid ++ c :: post' ∧ k.val = i + String.utf8Len mid := by
  rw [position_eq hc h]
  refine .pure fun k hk => ?_
  obtain ⟨n, hn, rfl⟩ := Option.map_eq_some_iff.mp hk
  obtain ⟨mid, post', rfl, rfl, -⟩ := standsAt_of_findByte hn
  exact ⟨mid, post', rfl, rfl⟩

theorem findByte_append (h : c ∉ mid) :
    findByte c (mid ++ c :: post) = some (String.utf8Len mid) := by
  induction mid with
  | nil => simp [findByte, String.utf8Len]
  | cons d mid ih =>
    have hd : d ≠ c := fun hd => h (hd ▸ List.mem_cons_self)
    rw [List.cons_append, findByte, if_neg hd, ih fun hmem => h (List.mem_cons_of_mem _ hmem),
      Option.map_some, String.utf8Len_cons, Nat.add_comm]

/-- The first place where a character stands. -/
theorem position_found (hc : c.toNat < 128) (h : StandsAt (mid ++ c :: post) i cs)
    (hmid : c ∉ mid) :
    position (bytes (String.ofList cs)) i c =
      .ok (some ⟨i + String.utf8Len mid, Nat.le_add_right _ _⟩) := by
  rw [position_eq hc h, findByte_append hmid]
  rfl

end Bytes

end Text
