import PlainRs.LocalApi.Dlna.SoapHandler

/-! Which casting input panics the server. -/
namespace PlainRs.Dlna

open Checked Text

variable {xml header : String} {action post cs didl raw input out : List Char} {pos i : Nat}
  {params : SoapParams} {toLowercase : String → String} {uri : String}

section Body

theorem positionIn_spec {c : Char} (hc : c.toNat < 128) (h : StandsAt post pos xml.toList) :
    Spec (position (bytes xml) pos c) fun out => ∀ k ∈ out,
      ∃ mid post', post = mid ++ c :: post' ∧ k.val = pos + String.utf8Len mid := by
  have hp := position_spec hc h
  rwa [String.ofList_toList] at hp

/-- A tag that is found ends where the text can be cut. -/
theorem nextTag_spec (h : StandsAt post pos xml.toList) : Spec (nextTag xml pos) fun out =>
    ∀ tag ∈ out, ∃ post', StandsAt post' tag.2.val xml.toList := by
  unfold nextTag
  refine (positionIn_spec (by decide) h).bind fun start hstart => ?_
  cases start with
  | none => exact .pure nofun
  | some start =>
    obtain ⟨tagStart, hs⟩ := start
    obtain ⟨mid, post₁, rfl, rfl⟩ := hstart _ rfl
    refine (positionIn_spec (by decide) h.append).bind fun stop hstop => ?_
    cases stop with
    | none => exact .pure nofun
    | some stop =>
      obtain ⟨tagEnd, he⟩ := stop
      obtain ⟨mid₂, post₂, heq, rfl⟩ := hstop _ rfl
      cases mid₂ with
      | nil => exact absurd (List.cons.inj heq).1 (by decide)
      | cons d content =>
        obtain ⟨rfl, rfl⟩ := List.cons.inj heq
        have hopen : StandsAt (content ++ '>' :: post₂) (pos + String.utf8Len mid + 1) xml.toList :=
          h.append.tail
        have hlen : String.utf8Len ('<' :: content) = String.utf8Len content + 1 :=
          String.utf8Len_cons ..
        refine (cut_spec hopen (by omega)).bind fun _ _ => .pure fun tag htag => ?_
        obtain rfl := Option.some.inj htag
        have hclose : StandsAt post₂ (pos + String.utf8Len mid + 1 + String.utf8Len content + 1)
            xml.toList := hopen.append.tail
        exact ⟨post₂, by
          convert hclose using 1
          dsimp only
          omega⟩

theorem findAction_spec (h : StandsAt post pos xml.toList) :
    Spec (findAction xml action pos) fun out =>
      ∀ next ∈ out, ∃ post', StandsAt post' next xml.toList := by
  induction hn : (bytes xml).length - pos using Nat.strong_induction_on generalizing pos post with
  | h n ih =>
    rw [findAction]
    split
    · next hpos =>
      refine (nextTag_spec h).bind fun tag htag => ?_
      rcases tag with _ | ⟨content, next, hnext⟩
      · exact .pure nofun
      · obtain ⟨post', hpost'⟩ := htag _ rfl
        dsimp only
        split
        · refine .pure fun p hp => ?_
          obtain rfl := Option.some.inj hp
          exact ⟨post', hpost'⟩
        · exact ih _ (by omega) hpost' rfl
    · exact .pure nofun

theorem readParams_ok (h : StandsAt post pos xml.toList) :
    Ok (readParams xml action pos params) := by
  induction hn : (bytes xml).length - pos using Nat.strong_induction_on
    generalizing pos post params with
  | h n ih =>
    rw [readParams]
    split
    · next hpos =>
      refine ok_bind_of_spec (nextTag_spec h) fun tag htag => ?_
      rcases tag with _ | ⟨content, next, hnext⟩
      · exact ok_pure
      · obtain ⟨post', hpost'⟩ := htag _ rfl
        have hgo : ∀ params, Ok (readParams xml action next params) := fun params =>
          ih _ (by omega) hpost' rfl
        dsimp only
        split
        · split
          · exact ok_pure
          · exact hgo params
        · split
          · exact hgo params
          · refine ok_bind_of_spec (positionIn_spec (by decide) hpost') fun text htext => ?_
            rcases text with _ | ⟨textEnd, hend⟩
            · exact ok_pure
            · obtain ⟨mid, post₂, rfl, rfl⟩ := htext _ rfl
              refine ok_bind_of_spec (cut_spec hpost' rfl) fun text _ => ?_
              have hrest : StandsAt post₂ (next + String.utf8Len mid + 1) xml.toList :=
                hpost'.append.tail
              exact ih _ (by omega) hrest rfl
    · exact ok_pure

theorem parseSoapAction_ok (header body : String) : Ok (parseSoapAction header body) := by
  refine (ok_bind_iff fun _ => ok_pure).mpr ?_
  refine ok_bind_of_spec (findAction_spec standsAt_zero) fun out hout => ?_
  cases out with
  | none => exact ok_pure
  | some pos =>
    obtain ⟨post, hpost⟩ := hout pos rfl
    exact readParams_ok hpost

end Body

section Didl

/-- Between an opening text and the closing one that is found after it the text can be cut. -/
theorem cut_between_ok {opening closing : String} {start stop n : Nat}
    (ho : findStr opening.toList didl = some start) (hc : findStr closing.toList didl = some stop)
    (hlt : start < stop) (hn : String.utf8Len opening.toList = n)
    (hopen : '<' ∉ opening.toList.tail) (hclose : closing.toList.head? = some '<') :
    Ok (cut didl (start + n) stop) := by
  obtain ⟨post, hpost⟩ := standsAt_of_findStr ho
  obtain ⟨post', hpost'⟩ := standsAt_of_findStr hc
  obtain ⟨closing', hclosing⟩ : ∃ closing', closing.toList = '<' :: closing' := by
    cases hl : closing.toList with
    | nil => simp [hl] at hclose
    | cons c cs => exact ⟨cs, by simpa [hl] using hclose⟩
  rw [hclosing, List.cons_append] at hpost'
  obtain ⟨mid, hmid, rfl⟩ := hpost.apart hpost' hopen hlt
  subst hn
  have hstop : stop = start + String.utf8Len opening.toList + String.utf8Len mid := by
    rw [hmid, String.utf8Len_append, Nat.add_assoc]
  exact (cut_spec hpost.append hstop).ok

theorem extractTitle_ok (didl : List Char) : Ok (extractTitleFromDidlMeta didl) := by
  unfold extractTitleFromDidlMeta
  split
  · next s e hs he =>
    split
    · next hlt =>
      refine (ok_bind_iff fun _ => ok_pure).mpr ?_
      exact cut_between_ok hs he hlt (by decide) (by decide) (by decide)
    · exact ok_pure
  · exact ok_pure

theorem extractAlbumArtUri_ok (didl : List Char) : Ok (extractAlbumArtUriFromDidlMeta didl) := by
  unfold extractAlbumArtUriFromDidlMeta
  cases hs : findStr "<upnp:albumArtURI".toList didl with
  | none => exact ok_pure
  | some start =>
    obtain ⟨post, hpost⟩ := standsAt_of_findStr hs
    refine ok_bind_of_spec (cutFrom_spec hpost) fun fromTag hfrom => ?_
    cases hg : findByte '>' fromTag with
    | none => exact ok_pure
    | some rel =>
      obtain ⟨mid, post₂, rfl, rfl, -⟩ := standsAt_of_findByte hg
      rw [← hfrom] at hpost
      have hend := hpost.append
      refine ok_bind_of_spec (cutFrom_spec hend) fun fromEnd hfromEnd => ?_
      subst hfromEnd
      cases hc : findStr "</upnp:albumArtURI>".toList ('>' :: post₂) with
      | none => exact ok_pure
      | some closeRel =>
        refine (ok_bind_iff fun _ => ok_pure).mpr ?_
        obtain ⟨post₃, pre, hpre, hlen⟩ := standsAt_of_findStr hc
        cases pre with
        | nil => exact absurd (List.cons.inj hpre).1 (by decide)
        | cons d pre =>
          obtain ⟨rfl, rfl⟩ := List.cons.inj hpre
          rw [String.utf8Len_cons] at hlen
          have huri : StandsAt (pre ++ ("</upnp:albumArtURI>".toList ++ post₃))
              (start + String.utf8Len mid + 1) didl := hend.tail
          have hone : Char.utf8Size '>' = 1 := by decide
          exact (cut_spec huri (by omega)).ok

/-- What follows the first `protocolInfo="` in the first `<res` tag, where there is one. -/
def afterProtocolInfo (didl : List Char) : Option (List Char) := do
  let tagStart ← findStr "<res".toList didl
  let fromTag ← dropBytes tagStart didl
  let tagEndRel ← findByte '>' fromTag
  let tagAttrs ← takeBytes tagEndRel fromTag
  let piStart ← findStr "protocolInfo=\"".toList tagAttrs
  dropBytes (piStart + 14) tagAttrs

/-- Where the tag goes on after `protocolInfo="`, it does with an ASCII character. -/
def ProtocolInfoFits (didl : List Char) : Prop :=
  ∀ post ∈ afterProtocolInfo didl, ∃ c ∈ post.head?, c.utf8Size = 1

theorem dropBytes_one_isSome :
    (dropBytes 1 post).isSome ↔ ∃ c ∈ post.head?, c.utf8Size = 1 := by
  cases post with
  | nil => simp [dropBytes]
  | cons c cs =>
    have hc := c.utf8Size_pos
    have hiff : c.utf8Size ≤ 1 ↔ c.utf8Size = 1 := by omega
    by_cases h : c.utf8Size = 1
    · simp [dropBytes, h]
    · simp [dropBytes, hiff, h]

theorem extractProtocolInfoMime_ok_iff (didl : List Char) :
    Ok (extractProtocolInfoMime didl) ↔ ProtocolInfoFits didl := by
  unfold extractProtocolInfoMime ProtocolInfoFits afterProtocolInfo
  cases hs : findStr "<res".toList didl with
  | none => exact iff_of_true ok_pure nofun
  | some tagStart =>
    obtain ⟨post, hpost⟩ := standsAt_of_findStr hs
    obtain ⟨fromTag, hcut, rfl⟩ := cutFrom_spec hpost
    simp only [hcut, hpost.dropBytes_eq, ok_bind, Option.bind_eq_bind, Option.bind_some]
    cases hg : findByte '>' ("<res".toList ++ post) with
    | none => exact iff_of_true ok_pure nofun
    | some rel =>
      obtain ⟨attrs, post₂, hfrom, rfl, -⟩ := standsAt_of_findByte hg
      have htake : takeBytes (String.utf8Len attrs) ("<res".toList ++ post) = some attrs := by
        rw [hfrom, takeBytes_append]
      obtain ⟨tagAttrs, hslice, rfl⟩ := cut_spec (hfrom ▸ hpost) rfl
      simp only [hslice, htake, ok_bind, Option.bind_some]
      cases hp : findStr "protocolInfo=\"".toList tagAttrs with
      | none => exact iff_of_true ok_pure nofun
      | some piStart =>
        obtain ⟨post₃, hpi⟩ := standsAt_of_findStr hp
        have hafter : StandsAt post₃ (piStart + 14) tagAttrs := hpi.append
        have hdrop : dropBytes (piStart + 15) tagAttrs = dropBytes 1 post₃ := by
          obtain ⟨pre, hpre, hlen⟩ := hafter
          rw [hpre, show piStart + 15 = String.utf8Len pre + 1 by omega, dropBytes_add]
        simp only [hafter.dropBytes_eq, Option.bind_some, Option.mem_def, Option.some.injEq,
          forall_eq']
        rw [show (∃ c, post₃.head? = some c ∧ c.utf8Size = 1) ↔ (dropBytes 1 post₃).isSome from
          dropBytes_one_isSome.symm, ← hdrop]
        cases hd : dropBytes (piStart + 15) tagAttrs with
        | none =>
          refine iff_of_false ?_ (by simp)
          rintro ⟨out, hout⟩
          simp [cutFrom, hd, ofBoundary, bind, Except.bind] at hout
        | some after =>
          refine iff_of_true ?_ rfl
          have hcut : cutFrom tagAttrs (piStart + 15) = .ok after := by simp [cutFrom, hd, ofBoundary]
          simp only [hcut, ok_bind]
          cases hq : findByte '"' after with
          | none => exact ok_pure
          | some piEnd =>
            obtain ⟨pi, post₄, rfl, rfl, -⟩ := standsAt_of_findByte hq
            refine (ok_bind_iff fun _ => ok_pure).mpr ?_
            exact (cut_spec standsAt_zero (by simp)).ok

theorem extractClass_ok (didl : List Char) : Ok (extractClass toLowercase didl uri) := by
  unfold extractClass
  dsimp only
  split
  · next s e hs he =>
    split
    · next hlt =>
      refine (ok_bind_iff fun _ => ok_pure).mpr ?_
      exact cut_between_ok hs he hlt (by decide) (by decide) (by decide)
    · exact ok_pure
  · exact ok_pure

theorem extractMediaType_ok_iff (didl : List Char) :
    Ok (extractMediaTypeFromDidlMeta toLowercase didl uri) ↔ ProtocolInfoFits didl := by
  rw [← extractProtocolInfoMime_ok_iff]
  refine ok_bind_iff fun mime => ?_
  split
  · exact extractClass_ok didl
  · exact extractClass_ok didl
  · exact ok_pure

end Didl

section Percent

/-- Two bytes can be cut off a text, or it does not have them. -/
def TwoFit (post : List Char) : Prop := String.utf8Len post < 2 ∨ (takeBytes 2 post).isSome

/-- The two bytes after every `%` can be cut off. -/
def PercentsFit (raw : List Char) : Prop := ∀ pre post, raw = pre ++ '%' :: post → TwoFit post

theorem percentsFit_cons {c : Char} :
    PercentsFit (c :: cs) ↔ (c = '%' → TwoFit cs) ∧ PercentsFit cs := by
  constructor
  · intro h
    exact ⟨fun hc => h [] cs (by rw [hc]; rfl), fun pre post hp => h (c :: pre) post (by rw [hp]; rfl)⟩
  · rintro ⟨hc, h⟩ pre post hp
    cases pre with
    | nil =>
      obtain ⟨rfl, rfl⟩ := List.cons.inj hp
      exact hc rfl
    | cons d pre =>
      obtain ⟨rfl, rfl⟩ := List.cons.inj hp
      exact h pre post rfl

/-- A hex number takes two ASCII characters, neither of them a `%`. -/
theorem u8OfHex_eq_some {hex : List Char} {code : Nat} (h : u8OfHex hex = some code) :
    ∃ a b, hex = [a, b] ∧ a ≠ '%' ∧ b ≠ '%' := by
  have hdigit : hexDigit '%' = none := by decide
  unfold u8OfHex at h
  split at h
  · next lo =>
    refine ⟨'+', lo, rfl, by decide, ?_⟩
    rintro rfl
    rw [hdigit] at h
    cases h
  · next hi lo _ =>
    refine ⟨hi, lo, rfl, ?_, ?_⟩
    · rintro rfl
      simp [hdigit] at h
    · rintro rfl
      simp [hdigit] at h
  · cases h

/-- From a boundary on, decoding panics unless every `%` from there on fits. -/
theorem percentDecodeFrom_ok_iff {rest : List Char} (h : StandsAt rest i input) :
    Ok (percentDecodeFrom input i out) ↔ PercentsFit rest := by
  induction hn : rest.length using Nat.strong_induction_on generalizing i rest out with
  | h n ih =>
    have hlen := h.length_le
    rw [percentDecodeFrom]
    cases rest with
    | nil =>
      rw [if_neg (by simp [String.utf8Len] at hlen; omega)]
      refine iff_of_true ok_pure fun pre post hp => ?_
      simp at hp
    | cons c cs =>
      have hsize := c.utf8Size_pos
      rw [String.utf8Len_cons] at hlen
      obtain ⟨rest, hcut, rfl⟩ := cutFrom_spec h
      rw [if_pos (by omega), hcut, ok_bind]
      dsimp only [List.headD_cons]
      have hnext : StandsAt cs (i + c.utf8Size) input := h.tail
      have hgo : ∀ {out : List Char}, Ok (percentDecodeFrom input (i + c.utf8Size) out) ↔
          PercentsFit cs := fun {out} => ih cs.length (by simp at hn; omega) hnext rfl
      rw [percentsFit_cons]
      by_cases hplus : c = '+'
      · subst hplus
        rw [if_pos rfl]
        exact hgo.trans (by simp)
      · rw [if_neg hplus]
        by_cases hpercent : c = '%' ∧ i + 2 < String.utf8Len input
        · rw [if_pos hpercent]
          obtain ⟨rfl, hroom⟩ := hpercent
          have hone : Char.utf8Size '%' = 1 := by decide
          rw [hone] at hlen hnext hgo
          simp only [true_imp_iff, TwoFit]
          rw [or_iff_right (by omega)]
          have hdrop := hnext.dropBytes_eq
          cases htake : takeBytes 2 cs with
          | none =>
            refine iff_of_false ?_ (by simp)
            rintro ⟨out, hout⟩
            simp [cut, hdrop, htake, ofBoundary, bind, Except.bind] at hout
          | some hex =>
            have hhex : cut input (i + 1) (i + 3) = .ok hex := by
              simp [cut, hdrop, htake, ofBoundary, show i + 3 - (i + 1) = 2 by omega]
            rw [hhex, ok_bind]
            cases hcode : u8OfHex hex with
            | none => exact hgo.trans (by simp)
            | some code =>
              obtain ⟨a, b, rfl, ha, hb⟩ := u8OfHex_eq_some hcode
              obtain ⟨post, rfl, htwo⟩ := takeBytes_eq_some htake
              have hpost : StandsAt post (i + 3) input := by
                have := hnext.append
                rwa [htwo] at this
              refine (ih post.length (by simp at hn; omega) hpost rfl).trans ?_
              rw [List.cons_append, List.cons_append, List.nil_append, percentsFit_cons,
                percentsFit_cons]
              simp [ha, hb]
        · rw [if_neg hpercent]
          refine hgo.trans ?_
          simp only [iff_and_self]
          rintro - rfl
          left
          have hone : Char.utf8Size '%' = 1 := by decide
          rw [hone] at hlen
          simp at hpercent
          omega

theorem cleanMediaTitle_ok_iff (raw : List Char) :
    Ok (cleanMediaTitle toLowercase raw) ↔ PercentsFit raw := by
  have hok : Ok (percentDecodeFrom raw 0 []) ↔ PercentsFit raw :=
    percentDecodeFrom_ok_iff standsAt_zero
  rw [← hok]
  refine ok_bind_iff fun decoded => ?_
  dsimp only
  split
  · exact ok_pure
  · exact ok_pure

end Percent

/-- The readers of casting input panic on no input but metadata that ends, or goes on with a
character of several bytes, right after `protocolInfo="`, and titles with a `%` before a cut through
a character. -/
theorem casting_input_ok_iff (toLowercase : String → String) (header body uri : String)
    (didl raw : List Char) :
    (Ok (parseSoapAction header body) ∧ Ok (extractTitleFromDidlMeta didl) ∧
        Ok (extractAlbumArtUriFromDidlMeta didl) ∧
        Ok (extractMediaTypeFromDidlMeta toLowercase didl uri) ∧
        Ok (cleanMediaTitle toLowercase raw)) ↔
      ProtocolInfoFits didl ∧ PercentsFit raw := by
  rw [extractMediaType_ok_iff, cleanMediaTitle_ok_iff]
  constructor
  · rintro ⟨-, -, -, hmime, htitle⟩
    exact ⟨hmime, htitle⟩
  · rintro ⟨hmime, htitle⟩
    exact ⟨parseSoapAction_ok header body, extractTitle_ok didl, extractAlbumArtUri_ok didl, hmime,
      htitle⟩

/-- A tag that ends with `protocolInfo="`, and a `%` with half of an `é` in its two bytes. -/
theorem casting_input_panics :
    ¬ Ok (extractMediaTypeFromDidlMeta id "<res protocolInfo=\">".toList "") ∧
      ¬ Ok (cleanMediaTitle id "%aé".toList) := by
  have hmime : (extractMediaTypeFromDidlMeta id "<res protocolInfo=\">".toList "").isOk = false := by
    decide +kernel
  have htitle : (cleanMediaTitle id "%aé".toList).isOk = false := by decide +kernel
  constructor
  · rintro ⟨out, hout⟩
    rw [hout] at hmime
    cases hmime
  · rintro ⟨out, hout⟩
    rw [hout] at htitle
    cases htitle

end PlainRs.Dlna
