import PlainRs.Base.Checked
import PlainRs.Base.Utf8

/-! Reading the DNS wire format: integers, names with compression pointers, IPv6 text. -/
namespace PlainRs.Mdns

open Checked

abbrev Bytes := List UInt8

def dnsClassIn : UInt16 := 0x0001
def typeA : UInt16 := 0x0001
def typeAaaa : UInt16 := 0x001C
def typePtr : UInt16 := 0x000C
def typeTxt : UInt16 := 0x0010
def typeSrv : UInt16 := 0x0021

def readU16 (data : Bytes) (offset : Nat) : Checked UInt16 := do
  let hi ← get data offset
  let lo ← get data (offset + 1)
  pure (hi.toUInt16 <<< 8 ||| lo.toUInt16)

def readU32 (data : Bytes) (offset : Nat) : Checked UInt32 := do
  let b₀ ← get data offset
  let b₁ ← get data (offset + 1)
  let b₂ ← get data (offset + 2)
  let b₃ ← get data (offset + 3)
  pure (b₀.toUInt32 <<< 24 ||| b₁.toUInt32 <<< 16 ||| b₂.toUInt32 <<< 8 ||| b₃.toUInt32)

/-- The nonempty labels of a dotted name. -/
def splitLabels (name : String) : List String :=
  ((name.toList.splitOn '.').filter (· ≠ [])).map String.ofList

/-- The loop of `read_name` over the labels from `offset` on, with what reading the name at a
pointer gives. It runs at most once for each byte left. -/
def readLabels (data : Bytes) (pointed : Nat → Checked (Option String)) :
    Nat → Nat → List String → Checked (Option (String × Nat))
  | 0, _, _ => pure none
  | left + 1, offset, labels =>
    if offset < data.length then do
      let len ← get data offset
      if len = 0 then pure (some (".".intercalate labels, offset + 1))
      else if len &&& 0xC0 = 0xC0 then
        if data.length ≤ offset + 1 then pure none
        else do
          let lo ← get data (offset + 1)
          match ← pointed ((len &&& 0x3F).toNat * 256 + lo.toNat) with
          | none => pure none
          | some name => pure (some (".".intercalate (labels ++ splitLabels name), offset + 2))
      else
        let next := offset + 1 + len.toNat
        if data.length < next then pure none
        else do
          let label ← slice data (offset + 1) (offset + 1 + len.toNat)
          readLabels data pointed left next (labels ++ [Text.fromUtf8Lossy label])
    else pure none

/-- `read_name`, with the number of pointers that may still be followed, and one more, in place of
the depth. -/
def readNameWithin (data : Bytes) : Nat → Nat → Checked (Option (String × Nat))
  | 0, _ => pure none
  | allowed + 1, start =>
    if data.length ≤ start then pure none
    else readLabels data (fun p => (·.map Prod.fst) <$> readNameWithin data allowed p)
      (data.length - start) start []

/-- `read_name` at a depth; it follows no pointer past depth 8. -/
def readName (data : Bytes) (start depth : Nat) : Checked (Option (String × Nat)) :=
  readNameWithin data (9 - depth) start

/-- `{:x}` of a hextet. -/
def hexText (h : UInt16) : String := String.ofList (Nat.toDigits 16 h.toNat)

/-- The longest run of zeros so far, as its start and length; a later run has to be longer. -/
def zeroRun (hextets : List UInt16) : Nat → Nat → Option (Nat × Nat) → Option (Nat × Nat)
  | 0, _, best => best
  | left + 1, i, best =>
    if i < hextets.length then
      let len := ((hextets.drop i).takeWhile (· = 0)).length
      if len = 0 then zeroRun hextets left (i + 1) best
      else zeroRun hextets left (i + len) (if best.all fun b => b.2 < len then some (i, len) else best)
    else best

def hextetsText (r : List UInt16) : String := ":".intercalate (r.map hexText)

def hextetsOf : Bytes → List UInt16
  | hi :: lo :: rest => (hi.toUInt16 <<< 8 ||| lo.toUInt16) :: hextetsOf rest
  | _ => []

def ipv6ToString (bytes : Bytes) : Checked (Option String) :=
  if bytes.length ≠ 16 then pure none
  else
    let hextets := hextetsOf bytes
    match zeroRun hextets hextets.length 0 none with
    | some (s, l) =>
      if 2 ≤ l then do
        let left ← slice hextets 0 s
        let right ← slice hextets (s + l) hextets.length
        pure (some (match left.isEmpty, right.isEmpty with
          | true, true => "::"
          | true, false => "::" ++ hextetsText right
          | false, true => hextetsText left ++ "::"
          | false, false => hextetsText left ++ "::" ++ hextetsText right))
      else pure (some (hextetsText hextets))
    | none => pure (some (hextetsText hextets))

variable {data : Bytes} {offset start depth allowed left i : Nat} {labels : List String}
  {pointed : Nat → Checked (Option String)} {hextets : List UInt16} {best : Option (Nat × Nat)}

theorem readU16_spec (h : offset + 2 ≤ data.length) :
    Spec (readU16 data offset) fun _ => True := by
  refine (get_spec (by omega)).bind fun _ _ => ?_
  refine (get_spec (by omega)).bind fun _ _ => ?_
  exact .pure trivial

theorem readU32_spec (h : offset + 4 ≤ data.length) :
    Spec (readU32 data offset) fun _ => True := by
  refine (get_spec (by omega)).bind fun _ _ => ?_
  refine (get_spec (by omega)).bind fun _ _ => ?_
  refine (get_spec (by omega)).bind fun _ _ => ?_
  refine (get_spec (by omega)).bind fun _ _ => ?_
  exact .pure trivial

/-- A count of the bytes left is count enough: the loop gives the same with any larger one. -/
theorem readLabels_eq {more : Nat} (h : data.length ≤ offset + left)
    (hm : data.length ≤ offset + more) :
    readLabels data pointed left offset labels = readLabels data pointed more offset labels := by
  induction left generalizing more offset labels with
  | zero =>
    cases more with
    | zero => rfl
    | succ more => rw [readLabels, readLabels, if_neg (by omega)]
  | succ left ih =>
    cases more with
    | zero => rw [readLabels, readLabels, if_neg (by omega)]
    | succ more =>
      unfold readLabels
      split
      · refine bind_congr fun len => ?_
        split
        · rfl
        · split
          · rfl
          · dsimp only
            split
            · rfl
            · exact bind_congr fun label => ih (by omega) (by omega)
      · rfl

/-- Reading labels never panics, and ends within the packet. -/
theorem readLabels_spec (hp : ∀ p, Spec (pointed p) fun _ => True) :
    Spec (readLabels data pointed left offset labels) fun r =>
      ∀ name next, r = some (name, next) → next ≤ data.length := by
  induction left generalizing offset labels with
  | zero => exact .pure nofun
  | succ left ih =>
    unfold readLabels
    by_cases hoff : offset < data.length
    · rw [if_pos hoff]
      refine (get_spec hoff).bind fun len _ => ?_
      by_cases hz : len = 0
      · rw [if_pos hz]
        refine .pure ?_
        rintro name next he
        cases he
        omega
      · rw [if_neg hz]
        by_cases hptr : len &&& 0xC0 = 0xC0
        · rw [if_pos hptr]
          by_cases hend : data.length ≤ offset + 1
          · rw [if_pos hend]
            exact .pure nofun
          · rw [if_neg hend]
            refine (get_spec (by omega)).bind fun lo _ => ?_
            refine (hp _).bind fun name _ => ?_
            cases name with
            | none => exact .pure nofun
            | some name =>
              refine .pure ?_
              rintro _ next he
              cases he
              omega
        · rw [if_neg hptr]
          by_cases hlen : data.length < offset + 1 + len.toNat
          · rw [if_pos hlen]
            exact .pure nofun
          · rw [if_neg hlen]
            exact (slice_spec (by omega) (by omega)).bind fun _ _ => ih
    · rw [if_neg hoff]
      exact .pure nofun

theorem readNameWithin_spec : Spec (readNameWithin data allowed start) fun r =>
    ∀ name next, r = some (name, next) → next ≤ data.length := by
  induction allowed generalizing start with
  | zero => exact .pure nofun
  | succ allowed ih =>
    unfold readNameWithin
    split
    · exact .pure nofun
    · refine readLabels_spec fun p => ?_
      obtain ⟨r, hr, -⟩ := ih
      exact ⟨r.map Prod.fst, by rw [hr]; rfl, trivial⟩

theorem readName_spec : Spec (readName data start depth) fun r =>
    ∀ name next, r = some (name, next) → next ≤ data.length := readNameWithin_spec

/-- A run of zeros that is found lies within the hextets. -/
theorem zeroRun_le (hb : ∀ b, best = some b → b.1 + b.2 ≤ hextets.length) :
    ∀ b, zeroRun hextets left i best = some b → b.1 + b.2 ≤ hextets.length := by
  induction left generalizing i best with
  | zero => exact hb
  | succ left ih =>
    unfold zeroRun
    split
    · next hi =>
      have hle : ((hextets.drop i).takeWhile (· = 0)).length ≤ hextets.length - i :=
        (List.takeWhile_sublist _).length_le.trans (by rw [List.length_drop])
      dsimp only
      split
      · exact ih hb
      · refine ih ?_
        split
        · rintro b he
          cases he
          dsimp only
          omega
        · exact hb
    · exact hb

theorem ipv6ToString_spec : Spec (ipv6ToString data) fun _ => True := by
  unfold ipv6ToString
  split
  · exact .pure trivial
  · dsimp only
    split
    · next s l hrun =>
      have hle := zeroRun_le (fun b (hb : none = some b) => nomatch hb) _ hrun
      split
      · refine (slice_spec (by omega) (by omega)).bind fun _ _ => ?_
        refine (slice_spec (by omega) (by omega)).bind fun _ _ => ?_
        exact .pure trivial
      · exact .pure trivial
    · exact .pure trivial

end PlainRs.Mdns
