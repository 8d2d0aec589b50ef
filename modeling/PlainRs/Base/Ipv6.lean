import Mathlib
import PlainRs.Base.Separators

/-! The text forms of IPv6 addresses: eight groups, `::` for zeros, and a dotted quad at the end. -/
namespace Ipv6

def hexDigit (c : Char) : Option ℕ :=
  if '0' ≤ c ∧ c ≤ '9' then some (c.toNat - '0'.toNat)
  else if 'a' ≤ c ∧ c ≤ 'f' then some (c.toNat - 'a'.toNat + 10)
  else if 'A' ≤ c ∧ c ≤ 'F' then some (c.toNat - 'A'.toNat + 10)
  else none

/-- The number that the digits are read as behind those of `acc`. -/
def hexValue : ℕ → List Char → Option ℕ
  | acc, [] => some acc
  | acc, c :: cs => (hexDigit c).bind fun d => hexValue (16 * acc + d) cs

/-- One to four hexadecimal digits. -/
def IsGroup (cs : List Char) (h : UInt16) : Prop :=
  cs ≠ [] ∧ cs.length ≤ 4 ∧ hexValue 0 cs = some h.toNat

/-- The decimal value of a byte. -/
def IsOctet (cs : List Char) (n : ℕ) : Prop :=
  cs ≠ [] ∧ (∀ c ∈ cs, c.isDigit = true) ∧ Nat.ofDigitChars 10 cs 0 = n ∧ n < 256

/-- Four bytes between dots, as two groups. -/
def IsQuad (cs : List Char) (hs : List UInt16) : Prop :=
  ∃ a b c d i j k l, IsOctet a i ∧ IsOctet b j ∧ IsOctet c k ∧ IsOctet d l ∧
    cs = ['.'].intercalate [a, b, c, d] ∧
    hs = [(256 * i + j).toUInt16, (256 * k + l).toUInt16]

/-- Groups, the last two of which may be written as a quad. -/
inductive Tail : List (List Char) → List UInt16 → Prop
  | nil : Tail [] []
  | quad {p : List Char} {hs : List UInt16} (hq : IsQuad p hs) : Tail [p] hs
  | cons {p : List Char} {ps : List (List Char)} {h : UInt16} {hs : List UInt16}
      (hp : IsGroup p h) (hps : Tail ps hs) : Tail (p :: ps) (h :: hs)

/-- The groups that a text stands for; `::` stands for one group of zeros or more. -/
inductive Denotes : List Char → List UInt16 → Prop
  | full {ps : List (List Char)} {hs : List UInt16} (hps : Tail ps hs) (hlen : hs.length = 8) :
      Denotes ([':'].intercalate ps) hs
  | compressed {fs bs : List (List Char)} {ls rs : List UInt16} {n : ℕ}
      (hfs : List.Forall₂ IsGroup fs ls) (hbs : Tail bs rs) (hn : 1 ≤ n)
      (hlen : ls.length + n + rs.length = 8) :
      Denotes ([':'].intercalate fs ++ ':' :: ':' :: [':'].intercalate bs)
        (ls ++ (List.replicate n 0 ++ rs))

/-- The bytes of the groups, each with its upper byte first. -/
def bytesOf (hs : List UInt16) : List UInt8 :=
  hs.flatMap fun h : UInt16 => [(h >>> 8).toUInt8, h.toUInt8]

variable {text p : List Char} {fs ps bs : List (List Char)} {h h' : UInt16}
  {hs hs' ls rs : List UInt16} {n acc : ℕ} {c : Char} {cs ds : List Char}

section Pieces

theorem hexDigit_of_mem (hv : hexValue acc cs = some n) (hc : c ∈ cs) : hexDigit c ≠ none := by
  induction cs generalizing acc with
  | nil => cases hc
  | cons d cs ih =>
    obtain ⟨k, hk, hrest⟩ := Option.bind_eq_some_iff.mp hv
    rcases List.mem_cons.mp hc with rfl | hc
    · rw [hk]
      exact Option.some_ne_none k
    · exact ih hrest hc

theorem IsGroup.colon_notMem (hp : IsGroup p h) : ':' ∉ p :=
  fun hmem => hexDigit_of_mem hp.2.2 hmem (by decide)

theorem IsGroup.dot_notMem (hp : IsGroup p h) : '.' ∉ p :=
  fun hmem => hexDigit_of_mem hp.2.2 hmem (by decide)

theorem IsGroup.eq (hp : IsGroup p h) (hp' : IsGroup p h') : h = h' :=
  UInt16.toNat_inj.mp (Option.some.inj (hp.2.2.symm.trans hp'.2.2))

theorem hexValue_append (acc : ℕ) (cs ds : List Char) :
    hexValue acc (cs ++ ds) = (hexValue acc cs).bind (hexValue · ds) := by
  induction cs generalizing acc with
  | nil => rfl
  | cons c cs ih =>
    rw [List.cons_append, hexValue, hexValue]
    cases hexDigit c with
    | none => rfl
    | some d => exact ih _

theorem hexDigit_digitChar : ∀ d < 16, hexDigit (Nat.digitChar d) = some d := by decide

theorem hexValue_toDigits (n : ℕ) : hexValue 0 (Nat.toDigits 16 n) = some n := by
  induction n using Nat.strong_induction_on with
  | _ n ih =>
    by_cases hn : n < 16
    · rw [Nat.toDigits_of_lt_base hn, hexValue, hexDigit_digitChar n hn]
      simp [hexValue]
    · rw [Nat.toDigits_of_base_le (by omega) (by omega), hexValue_append, ih _ (by omega),
        Option.bind_some, hexValue, hexDigit_digitChar _ (by omega), Option.bind_some, hexValue,
        Nat.div_add_mod]

/-- A group as it is written. -/
theorem isGroup_toDigits (h : UInt16) : IsGroup (Nat.toDigits 16 h.toNat) h :=
  ⟨Nat.toDigits_ne_nil, (Nat.length_toDigits_le_iff (by omega) (by omega)).mpr h.toNat_lt,
    hexValue_toDigits _⟩

theorem IsOctet.notMem (ho : IsOctet p n) : '.' ∉ p ∧ ':' ∉ p := by
  constructor
  · intro hmem
    have hdigit := ho.2.1 '.' hmem
    simp at hdigit
  · intro hmem
    have hdigit := ho.2.1 ':' hmem
    simp at hdigit

theorem IsQuad.dot_mem (hq : IsQuad p hs) : '.' ∈ p := by
  obtain ⟨a, b, c, d, i, j, k, l, -, -, -, -, rfl, -⟩ := hq
  simp [List.intercalate]

theorem IsQuad.colon_notMem (hq : IsQuad p hs) : ':' ∉ p := by
  obtain ⟨a, b, c, d, i, j, k, l, ha, hb, hc, hd, rfl, -⟩ := hq
  simp [List.intercalate, ha.notMem.2, hb.notMem.2, hc.notMem.2, hd.notMem.2]

theorem IsQuad.eq (hq : IsQuad p hs) (hq' : IsQuad p hs') : hs = hs' := by
  obtain ⟨a, b, c, d, i, j, k, l, ha, hb, hc, hd, rfl, rfl⟩ := hq
  obtain ⟨a', b', c', d', i', j', k', l', ha', hb', hc', hd', htext, rfl⟩ := hq'
  have hsplit := congrArg (List.splitOn '.') htext
  rw [List.splitOn_intercalate, List.splitOn_intercalate] at hsplit
  · obtain ⟨rfl, rfl, rfl, rfl⟩ : a = a' ∧ b = b' ∧ c = c' ∧ d = d' := by simpa using hsplit
    rw [← ha.2.2.1, ← hb.2.2.1, ← hc.2.2.1, ← hd.2.2.1, ha'.2.2.1, hb'.2.2.1, hc'.2.2.1, hd'.2.2.1]
  · simp [ha'.notMem.1, hb'.notMem.1, hc'.notMem.1, hd'.notMem.1]
  · simp
  · simp [ha.notMem.1, hb.notMem.1, hc.notMem.1, hd.notMem.1]
  · simp

end Pieces

section Unambiguous

/-- A piece that is nothing but a group or a quad. -/
theorem Tail.pieces (hps : Tail ps hs) : ∀ p ∈ ps, ':' ∉ p ∧ p ≠ [] := by
  induction hps with
  | nil => exact nofun
  | quad hq =>
    intro p hp
    rw [List.mem_singleton.mp hp]
    exact ⟨hq.colon_notMem, List.ne_nil_of_mem hq.dot_mem⟩
  | cons hp _ ih =>
    rw [List.forall_mem_cons]
    exact ⟨⟨hp.colon_notMem, hp.1⟩, ih⟩

theorem tail_of_groups (hfs : List.Forall₂ IsGroup fs ls) : Tail fs ls := by
  induction hfs with
  | nil => exact .nil
  | cons hp _ ih => exact .cons hp ih

/-- The pieces are read in one way. -/
theorem Tail.eq (hps : Tail ps hs) (hps' : Tail ps hs') : hs = hs' := by
  induction hps generalizing hs' with
  | nil =>
    cases hps' with
    | nil => rfl
  | quad hq =>
    cases hps' with
    | quad hq' => exact hq.eq hq'
    | cons hp _ => exact absurd hq.dot_mem hp.dot_notMem
  | cons hp _ ih =>
    cases hps' with
    | quad hq' => exact absurd hq'.dot_mem hp.dot_notMem
    | cons hp' hps' => rw [hp.eq hp', ih hps']

/-- The pieces that a joined text is split into; that of no pieces is one empty piece. -/
def shown (ps : List (List Char)) : List (List Char) := if ps = [] then [[]] else ps

theorem splitOn_joined (hps : ∀ p ∈ ps, ':' ∉ p ∧ p ≠ []) :
    ([':'].intercalate ps).splitOn ':' = shown ps := by
  rw [shown]
  split
  · next hnil =>
    subst hnil
    rfl
  · next hne => exact List.splitOn_intercalate _ (fun p hp => (hps p hp).1) hne

/-- The empty piece is where the `::` is. -/
theorem splitOn_compressed (hfs : ∀ p ∈ fs, ':' ∉ p ∧ p ≠ []) (hbs : ∀ p ∈ bs, ':' ∉ p ∧ p ≠ []) :
    ([':'].intercalate fs ++ ':' :: ':' :: [':'].intercalate bs).splitOn ':' =
      shown fs ++ [] :: shown bs := by
  have hback : (':' :: [':'].intercalate bs).splitOn ':' = [] :: shown bs := by
    have hsplit : ([] ++ ':' :: [':'].intercalate bs).splitOn ':' =
        List.splitOn ':' [] ++ ([':'].intercalate bs).splitOn ':' :=
      List.splitOn_append_cons_self ..
    rwa [splitOn_joined hbs] at hsplit
  rw [List.splitOn_append_cons_self, splitOn_joined hfs, hback]

theorem shown_injective (hfs : ∀ p ∈ fs, ':' ∉ p ∧ p ≠ []) (hbs : ∀ p ∈ bs, ':' ∉ p ∧ p ≠ [])
    (h : shown fs = shown bs) : fs = bs := by
  rw [shown, shown] at h
  split_ifs at h with hf hb hb
  · rw [hf, hb]
  · exact absurd rfl (hbs [] (h ▸ List.mem_cons_self)).2
  · exact absurd rfl (hfs [] (h ▸ List.mem_cons_self)).2
  · exact h

/-- What stands in front of the `::` and behind it. -/
theorem compressed_inj {fs' bs' : List (List Char)} (hfs : ∀ p ∈ fs, ':' ∉ p ∧ p ≠ [])
    (hfs' : ∀ p ∈ fs', ':' ∉ p ∧ p ≠ []) (hbs : ∀ p ∈ bs, ':' ∉ p ∧ p ≠ [])
    (hbs' : ∀ p ∈ bs', ':' ∉ p ∧ p ≠ [])
    (h : shown fs ++ [] :: shown bs = shown fs' ++ [] :: shown bs') : fs = fs' ∧ bs = bs' := by
  have hback : shown bs = shown bs' → bs = bs' := shown_injective hbs hbs'
  cases fs with
  | nil =>
    cases fs' with
    | nil => exact ⟨rfl, hback (List.cons_eq_cons.mp (List.cons_eq_cons.mp h).2).2⟩
    | cons p fs' => exact absurd (List.cons_eq_cons.mp h).1.symm (hfs' p List.mem_cons_self).2
  | cons p fs =>
    cases fs' with
    | nil => exact absurd (List.cons_eq_cons.mp h).1 (hfs p List.mem_cons_self).2
    | cons q fs' =>
      have hnil : [] ∉ p :: fs := fun hmem => (hfs [] hmem).2 rfl
      have hnil' : [] ∉ q :: fs' := fun hmem => (hfs' [] hmem).2 rfl
      obtain ⟨hfront, hrest⟩ := (Separators.append_sep_inj hnil hnil').mp h
      exact ⟨hfront, hback hrest⟩

theorem Tail.ne_nil (hps : Tail ps hs) (hlen : hs.length = 8) : ps ≠ [] := by
  rintro rfl
  cases hps
  cases hlen

/-- A text without an empty piece has no `::`. -/
theorem full_ne_compressed (hps : ∀ p ∈ ps, ':' ∉ p ∧ p ≠ []) (hne : ps ≠ []) :
    shown ps ≠ shown fs ++ [] :: shown bs := by
  intro h
  rw [shown, if_neg hne] at h
  have hmem : [] ∈ ps := h ▸ List.mem_append_right _ List.mem_cons_self
  exact (hps [] hmem).2 rfl

/-- A text stands for one address. -/
theorem Denotes.eq (ht : Denotes text hs) (ht' : Denotes text hs') : hs = hs' := by
  cases ht with
  | full hps hlen =>
    generalize htext : [':'].intercalate _ = text at ht'
    cases ht' with
    | full hps' hlen' =>
      have hsplit := congrArg (List.splitOn ':') htext
      rw [splitOn_joined hps.pieces, splitOn_joined hps'.pieces] at hsplit
      obtain rfl := shown_injective hps.pieces hps'.pieces hsplit
      exact hps.eq hps'
    | compressed hfs hbs _ _ =>
      have hsplit := congrArg (List.splitOn ':') htext
      rw [splitOn_joined hps.pieces,
        splitOn_compressed (tail_of_groups hfs).pieces hbs.pieces] at hsplit
      exact absurd hsplit (full_ne_compressed hps.pieces (hps.ne_nil hlen))
  | compressed hfs hbs hn hlen =>
    generalize htext : [':'].intercalate _ ++ _ = text at ht'
    cases ht' with
    | full hps' hlen' =>
      have hsplit := congrArg (List.splitOn ':') htext
      rw [splitOn_joined hps'.pieces,
        splitOn_compressed (tail_of_groups hfs).pieces hbs.pieces] at hsplit
      exact absurd hsplit.symm (full_ne_compressed hps'.pieces (hps'.ne_nil hlen'))
    | compressed hfs' hbs' hn' hlen' =>
      have hsplit := congrArg (List.splitOn ':') htext
      rw [splitOn_compressed (tail_of_groups hfs).pieces hbs.pieces,
        splitOn_compressed (tail_of_groups hfs').pieces hbs'.pieces] at hsplit
      obtain ⟨rfl, rfl⟩ := compressed_inj (tail_of_groups hfs).pieces
        (tail_of_groups hfs').pieces hbs.pieces hbs'.pieces hsplit
      obtain rfl := (tail_of_groups hfs).eq (tail_of_groups hfs')
      obtain rfl := hbs.eq hbs'
      congr 3
      omega

end Unambiguous

end Ipv6
