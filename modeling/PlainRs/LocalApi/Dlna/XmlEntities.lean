import PlainRs.LocalApi.Dlna.SoapHandler

/-! Texts with entities for characters, and what replacing the entities one after another leaves. -/
namespace PlainRs.Dlna

variable {pat by' cs v w rest : List Char} {c d : Char} {n : Nat}

section Replace

theorem replaceAfter_drop : replaceAfter pat by' n cs = replaceAfter pat by' 0 (cs.drop n) := by
  induction n generalizing cs with
  | zero => rfl
  | succ n ih =>
    cases cs with
    | nil => rfl
    | cons c cs => exact ih

/-- Where the text to be replaced stands in front, it is replaced and passed over. -/
theorem replaceAfter_append (hpat : pat ≠ []) :
    replaceAfter pat by' 0 (pat ++ rest) = by' ++ replaceAfter pat by' 0 rest := by
  obtain ⟨c, pat, rfl⟩ := List.exists_cons_of_ne_nil hpat
  rw [List.cons_append, replaceAfter, if_pos ⟨rest, rfl⟩, replaceAfter_drop]
  rw [List.length_cons, Nat.add_sub_cancel, List.drop_left]

theorem replaceAfter_cons (h : ¬ pat <+: c :: cs) :
    replaceAfter pat by' 0 (c :: cs) = c :: replaceAfter pat by' 0 cs := by
  rw [replaceAfter, if_neg h]

/-- What holds of nothing, and of a text when it holds of what follows a first match or else a first
character, holds of every text. -/
theorem replace_induction {motive : List Char → Prop} (hpat : pat ≠ []) (hnil : motive [])
    (hmatch : ∀ rest, motive rest → motive (pat ++ rest))
    (hcons : ∀ c cs, ¬ pat <+: c :: cs → motive cs → motive (c :: cs)) (cs : List Char) :
    motive cs := by
  induction hn : cs.length using Nat.strong_induction_on generalizing cs with
  | _ n ih =>
    cases cs with
    | nil => exact hnil
    | cons c cs =>
      by_cases h : pat <+: c :: cs
      · obtain ⟨rest, hrest⟩ := h
        have hpos := List.length_pos_of_ne_nil hpat
        have hlen := congrArg List.length hrest
        rw [List.length_append] at hlen
        rw [← hrest]
        exact hmatch rest (ih rest.length (by omega) rest rfl)
      · exact hcons c cs h (ih cs.length (by rw [← hn, List.length_cons]; omega) cs rfl)

/-- A longer text that is replaced by a character leaves less, wherever it stands. -/
theorem length_replaceAfter (hpat : 2 ≤ pat.length) (cs : List Char) :
    (replaceAfter pat [d] 0 cs).length ≤ cs.length ∧
      ((replaceAfter pat [d] 0 cs).length = cs.length ↔ ¬ pat <:+: cs) := by
  have hne : pat ≠ [] := List.ne_nil_of_length_pos (by omega)
  induction cs using replace_induction hne with
  | hnil => simpa [replaceAfter] using hne
  | hmatch rest ih =>
    rw [replaceAfter_append hne, List.length_append, List.length_append, List.length_singleton]
    refine ⟨by omega, iff_of_false (by omega) (not_not.mpr ?_)⟩
    exact (List.prefix_append pat rest).isInfix
  | hcons c cs h ih =>
    have hinfix : pat <:+: c :: cs ↔ pat <:+: cs := by
      rw [List.infix_cons_iff]
      exact or_iff_right h
    obtain ⟨hle, hiff⟩ := ih
    rw [replaceAfter_cons h, List.length_cons, List.length_cons, hinfix, ← hiff]
    refine ⟨by omega, ?_⟩
    omega

theorem replaceAfter_eq_self (h : ¬ pat <:+: cs) (hpat : pat ≠ []) :
    replaceAfter pat by' 0 cs = cs := by
  induction cs using replace_induction hpat with
  | hnil => rfl
  | hmatch rest ih => exact absurd (List.prefix_append pat rest).isInfix h
  | hcons c cs hc ih =>
    rw [replaceAfter_cons hc, ih fun hcs => h (List.infix_cons_iff.mpr (.inr hcs))]

end Replace

section Entities

/-- A text with an ampersand and a rest in place of each character that has one. -/
def written (ent : Char → Option (List Char)) (v : List Char) : List Char :=
  v.flatMap fun c => (ent c).elim [c] ('&' :: ·)

/-- Rests that hold no ampersand and no character that has one, none the beginning of another. -/
structure Entities (ent : Char → Option (List Char)) : Prop where
  amp : ent '&' = none
  amp_notMem : ∀ c body, ent c = some body → '&' ∉ body
  plain : ∀ c body, ent c = some body → ∀ x ∈ body, ent x = none
  apart : ∀ c body d body' rest, ent c = some body → ent d = some body' →
    body <+: body' ++ rest → c = d

variable {ent : Char → Option (List Char)} {body : List Char}

theorem written_cons : written ent (c :: cs) = (ent c).elim [c] ('&' :: ·) ++ written ent cs := rfl

/-- A text of characters that stand for themselves begins what is written where it begins the
text. -/
theorem prefix_written_iff (hamp : '&' ∉ w) (hplain : ∀ x ∈ w, ent x = none) :
    w <+: written ent v ↔ w <+: v := by
  induction w generalizing v with
  | nil => simp
  | cons x w ih =>
    cases v with
    | nil => simp [written]
    | cons y v =>
      have hx : x ≠ '&' := fun h => hamp (h ▸ List.mem_cons_self)
      have hw := ih (v := v) (fun h => hamp (List.mem_cons_of_mem _ h))
        fun z hz => hplain z (List.mem_cons_of_mem _ hz)
      rw [written_cons, List.cons_prefix_cons]
      cases hy : ent y with
      | none =>
        rw [Option.elim_none, List.singleton_append, List.cons_prefix_cons, hw]
      | some body =>
        rw [Option.elim_some, List.cons_append, List.cons_prefix_cons]
        refine iff_of_false (fun h => hx h.1) ?_
        rintro ⟨rfl, -⟩
        rw [hplain x List.mem_cons_self] at hy
        cases hy

/-- No entity begins inside a rest. -/
theorem replaceAfter_skip (hpat : pat.head? = some '&') (h : '&' ∉ w) :
    replaceAfter pat by' 0 (w ++ rest) = w ++ replaceAfter pat by' 0 rest := by
  obtain ⟨pat, rfl⟩ := List.head?_eq_some_iff.mp hpat
  induction w with
  | nil => rfl
  | cons x w ih =>
    have hx : x ≠ '&' := fun hx => h (hx ▸ List.mem_cons_self)
    rw [List.cons_append, replaceAfter_cons, ih fun hmem => h (List.mem_cons_of_mem _ hmem)]
    · rfl
    · intro hprefix
      exact hx (List.cons_prefix_cons.mp hprefix).1.symm

/-- Replacing the entities of one character leaves what is written without them, of the text with
its own such texts replaced. -/
theorem replaceAfter_written (he : Entities ent) (hc : ent c = some body) (v : List Char) :
    replaceAfter ('&' :: body) [c] 0 (written ent v) =
      written (Function.update ent c none) (replaceAfter ('&' :: body) [c] 0 v) := by
  have hne : '&' :: body ≠ [] := List.cons_ne_nil _ _
  have hamp : c ≠ '&' := by
    rintro rfl
    rw [he.amp] at hc
    cases hc
  have hself : ∀ x, ent x = none → (Function.update ent c none x) = none := by
    intro x hx
    by_cases h : x = c
    · rw [h, Function.update_self]
    · rw [Function.update_of_ne h, hx]
  induction v using replace_induction hne with
  | hnil => rfl
  | hmatch rest ih =>
    have hfront : written ent ('&' :: body ++ rest) = '&' :: body ++ written ent rest := by
      have hbody : ∀ w : List Char, (∀ x ∈ w, ent x = none) →
          written ent (w ++ rest) = w ++ written ent rest := by
        intro w hw
        induction w with
        | nil => rfl
        | cons x w ihw =>
          rw [List.cons_append, written_cons, hw x List.mem_cons_self,
            ihw fun y hy => hw y (List.mem_cons_of_mem _ hy)]
          rfl
      refine hbody ('&' :: body) ?_
      intro x hx
      rcases List.mem_cons.mp hx with rfl | hx
      · exact he.amp
      · exact he.plain c body hc x hx
    rw [hfront, replaceAfter_append hne, replaceAfter_append hne, ih, List.singleton_append,
      List.singleton_append, written_cons, Function.update_self]
    rfl
  | hcons x cs h ih =>
    rw [replaceAfter_cons h, written_cons, written_cons]
    by_cases hx : x = c
    · subst hx
      rw [hc, Option.elim_some, replaceAfter_append hne, ih, Function.update_self]
      rfl
    · rw [Function.update_of_ne hx]
      cases hent : ent x with
      | none =>
        rw [Option.elim_none, List.singleton_append, List.singleton_append, replaceAfter_cons, ih]
        rwa [List.cons_prefix_cons, prefix_written_iff (he.amp_notMem c body hc)
          (he.plain c body hc), ← List.cons_prefix_cons]
      | some other =>
        rw [Option.elim_some, List.cons_append, replaceAfter_cons, List.cons_append,
          replaceAfter_skip rfl (he.amp_notMem x other hent), ih]
        intro hprefix
        exact hx (he.apart c body x other _ hc hent (List.cons_prefix_cons.mp hprefix).2).symm

/-- A character less is written no worse. -/
theorem Entities.update (he : Entities ent) (c : Char) :
    Entities (Function.update ent c none) := by
  have hold : ∀ d body, Function.update ent c none d = some body → ent d = some body := by
    intro d body h
    by_cases hd : d = c
    · rw [hd, Function.update_self] at h
      cases h
    · rwa [Function.update_of_ne hd] at h
  have hnew : ∀ x, ent x = none → Function.update ent c none x = none := by
    intro x hx
    by_cases h : x = c
    · rw [h, Function.update_self]
    · rw [Function.update_of_ne h, hx]
  constructor
  · exact hnew '&' he.amp
  · intro d body h
    exact he.amp_notMem d body (hold d body h)
  · intro d body h x hx
    exact hnew x (he.plain d body (hold d body h) x hx)
  · intro d body d' body' rest h h'
    exact he.apart d body d' body' rest (hold d body h) (hold d' body' h')

end Entities

section Xml

/-- The entities but that of the ampersand, without it. -/
def xmlEntity (c : Char) : Option (List Char) :=
  if c = '<' then some ['l', 't', ';']
  else if c = '>' then some ['g', 't', ';']
  else if c = '"' then some ['q', 'u', 'o', 't', ';']
  else if c = Char.ofNat 39 then some ['a', 'p', 'o', 's', ';']
  else none

/-- A value as it stands in an element. -/
def escapeXml (v : List Char) : List Char :=
  v.flatMap fun c =>
    if c = '&' then ['&', 'a', 'm', 'p', ';'] else (xmlEntity c).elim [c] ('&' :: ·)

theorem xmlEntity_cases {body : List Char} (h : xmlEntity c = some body) :
    (c = '<' ∧ body = ['l', 't', ';']) ∨ (c = '>' ∧ body = ['g', 't', ';']) ∨
      (c = '"' ∧ body = ['q', 'u', 'o', 't', ';']) ∨
      (c = Char.ofNat 39 ∧ body = ['a', 'p', 'o', 's', ';']) := by
  unfold xmlEntity at h
  split at h
  · next hc => exact .inl ⟨hc, (Option.some.inj h).symm⟩
  split at h
  · next hc => exact .inr (.inl ⟨hc, (Option.some.inj h).symm⟩)
  split at h
  · next hc => exact .inr (.inr (.inl ⟨hc, (Option.some.inj h).symm⟩))
  split at h
  · next hc => exact .inr (.inr (.inr ⟨hc, (Option.some.inj h).symm⟩))
  · cases h

theorem entities_xmlEntity : Entities xmlEntity := by
  constructor
  · rfl
  · intro c body h
    rcases xmlEntity_cases h with ⟨-, rfl⟩ | ⟨-, rfl⟩ | ⟨-, rfl⟩ | ⟨-, rfl⟩ <;> decide
  · intro c body h
    rcases xmlEntity_cases h with ⟨-, rfl⟩ | ⟨-, rfl⟩ | ⟨-, rfl⟩ | ⟨-, rfl⟩ <;> simp [xmlEntity]
  · intro c body d body' rest h h' hprefix
    rcases xmlEntity_cases h with ⟨rfl, rfl⟩ | ⟨rfl, rfl⟩ | ⟨rfl, rfl⟩ | ⟨rfl, rfl⟩ <;>
      rcases xmlEntity_cases h' with ⟨rfl, rfl⟩ | ⟨rfl, rfl⟩ | ⟨rfl, rfl⟩ | ⟨rfl, rfl⟩ <;>
      simp_all

/-- Ampersands are decoded first. -/
theorem replaceAfter_escapeXml (v : List Char) :
    replaceAfter ['&', 'a', 'm', 'p', ';'] ['&'] 0 (escapeXml v) = written xmlEntity v := by
  induction v with
  | nil => rfl
  | cons c v ih =>
    rw [written_cons, ← ih]
    by_cases hc : c = '&'
    · subst hc
      exact replaceAfter_append (List.cons_ne_nil _ _)
    have hfront : escapeXml (c :: v) = (xmlEntity c).elim [c] ('&' :: ·) ++ escapeXml v := by
      rw [escapeXml, List.flatMap_cons, if_neg hc]
      rfl
    rw [hfront]
    cases hent : xmlEntity c with
    | none =>
      rw [Option.elim_none, List.singleton_append, replaceAfter_cons]
      · rfl
      · intro h
        exact hc (List.cons_prefix_cons.mp h).1.symm
    | some body =>
      rw [Option.elim_some, List.cons_append, replaceAfter_cons,
        replaceAfter_skip rfl (entities_xmlEntity.amp_notMem c body hent)]
      · rfl
      · rcases xmlEntity_cases hent with ⟨-, rfl⟩ | ⟨-, rfl⟩ | ⟨-, rfl⟩ | ⟨-, rfl⟩ <;> simp

/-- No text of an entity that is decoded after the ampersand's. -/
def Unambiguous (v : List Char) : Prop :=
  ∀ c body, xmlEntity c = some body → ¬ '&' :: body <:+: v

/-- What decoding leaves of an escaped value: the value with its own such texts decoded. -/
theorem decode_escape (v : List Char) : decodeXmlEntities (escapeXml v) =
    replaceAfter ['&', 'a', 'p', 'o', 's', ';'] [Char.ofNat 39] 0
      (replaceAfter ['&', 'q', 'u', 'o', 't', ';'] ['"'] 0
        (replaceAfter ['&', 'g', 't', ';'] ['>'] 0
          (replaceAfter ['&', 'l', 't', ';'] ['<'] 0 v))) := by
  have hdecode : ∀ text, decodeXmlEntities text =
      replaceAfter ['&', 'a', 'p', 'o', 's', ';'] [Char.ofNat 39] 0
        (replaceAfter ['&', 'q', 'u', 'o', 't', ';'] ['"'] 0
          (replaceAfter ['&', 'g', 't', ';'] ['>'] 0
            (replaceAfter ['&', 'l', 't', ';'] ['<'] 0
              (replaceAfter ['&', 'a', 'm', 'p', ';'] ['&'] 0 text)))) := by
    intro text
    simp [decodeXmlEntities, replace]
  have hlt := entities_xmlEntity
  have hgt := hlt.update '<'
  have hquot := hgt.update '>'
  have hapos := hquot.update '"'
  have hnone : Function.update (Function.update (Function.update
      (Function.update xmlEntity '<' none) '>' none) '"' none) (Char.ofNat 39) none =
        fun _ => none := by
    funext c
    simp only [Function.update_apply, xmlEntity]
    split_ifs <;> rfl
  have hself : ∀ text, written (fun _ => none) text = text := fun text => by simp [written]
  rw [hdecode, replaceAfter_escapeXml, replaceAfter_written hlt rfl, replaceAfter_written hgt rfl,
    replaceAfter_written hquot rfl, replaceAfter_written hapos rfl, hnone, hself]

theorem unambiguous_iff {v : List Char} : Unambiguous v ↔
    ¬ ['&', 'l', 't', ';'] <:+: v ∧ ¬ ['&', 'g', 't', ';'] <:+: v ∧
      ¬ ['&', 'q', 'u', 'o', 't', ';'] <:+: v ∧ ¬ ['&', 'a', 'p', 'o', 's', ';'] <:+: v := by
  constructor
  · intro h
    exact ⟨h '<' _ rfl, h '>' _ rfl, h '"' _ rfl, h (Char.ofNat 39) _ rfl⟩
  · rintro ⟨hlt, hgt, hquot, hapos⟩ c body h
    rcases xmlEntity_cases h with ⟨-, rfl⟩ | ⟨-, rfl⟩ | ⟨-, rfl⟩ | ⟨-, rfl⟩
    · exact hlt
    · exact hgt
    · exact hquot
    · exact hapos

/-- A value is decoded as it was just when it has none of the texts that are decoded twice. -/
theorem decode_escape_iff (v : List Char) :
    decodeXmlEntities (escapeXml v) = v ↔ Unambiguous v := by
  rw [decode_escape, unambiguous_iff]
  constructor
  · intro h
    have hstep : ∀ (pat w : List Char) (d : Char), 2 ≤ pat.length →
        (replaceAfter pat [d] 0 w).length ≤ w.length ∧
          ((replaceAfter pat [d] 0 w).length = w.length →
            ¬ pat <:+: w ∧ replaceAfter pat [d] 0 w = w) := by
      intro pat w d hpat
      obtain ⟨hle, hiff⟩ := length_replaceAfter (d := d) hpat w
      refine ⟨hle, fun heq => ⟨hiff.mp heq, replaceAfter_eq_self (hiff.mp heq) ?_⟩⟩
      exact List.ne_nil_of_length_pos (by omega)
    have hlen := congrArg List.length h
    obtain ⟨hle₁, h₁⟩ := hstep ['&', 'l', 't', ';'] v '<' (by decide)
    generalize replaceAfter ['&', 'l', 't', ';'] ['<'] 0 v = v₁ at hle₁ h₁ hlen
    obtain ⟨hle₂, h₂⟩ := hstep ['&', 'g', 't', ';'] v₁ '>' (by decide)
    generalize replaceAfter ['&', 'g', 't', ';'] ['>'] 0 v₁ = v₂ at hle₂ h₂ hlen
    obtain ⟨hle₃, h₃⟩ := hstep ['&', 'q', 'u', 'o', 't', ';'] v₂ '"' (by decide)
    generalize replaceAfter ['&', 'q', 'u', 'o', 't', ';'] ['"'] 0 v₂ = v₃ at hle₃ h₃ hlen
    obtain ⟨hle₄, h₄⟩ := hstep ['&', 'a', 'p', 'o', 's', ';'] v₃ (Char.ofNat 39) (by decide)
    obtain ⟨hlt, rfl⟩ := h₁ (by omega)
    obtain ⟨hgt, rfl⟩ := h₂ (by omega)
    obtain ⟨hquot, rfl⟩ := h₃ (by omega)
    exact ⟨hlt, hgt, hquot, (h₄ (by omega)).1⟩
  · rintro ⟨hlt, hgt, hquot, hapos⟩
    rw [replaceAfter_eq_self hlt (List.cons_ne_nil _ _),
      replaceAfter_eq_self hgt (List.cons_ne_nil _ _),
      replaceAfter_eq_self hquot (List.cons_ne_nil _ _),
      replaceAfter_eq_self hapos (List.cons_ne_nil _ _)]

end Xml

end PlainRs.Dlna
