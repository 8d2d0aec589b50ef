import PlainRs.Base.Lossy
import PlainRs.Utils.Url

/-! Texts and queries, percent-encoded and read back. -/
namespace PlainRs.Utils

/-- The bytes that `url_encode` passes through. -/
def isUnreserved (b : UInt8) : Bool :=
  (65 ≤ b && b ≤ 90) || (97 ≤ b && b ≤ 122) || (48 ≤ b && b ≤ 57) || b ∈ [45, 95, 46, 126]

/-- `{:X}` of a nibble. -/
def upperHexDigit (n : Nat) : Char := (Nat.digitChar n).toUpper

/-- What `url_encode` writes of one byte; the hexadecimal digits are those of `{:02X}`. -/
def encodeByte (b : UInt8) : List Char :=
  if isUnreserved b then [Char.ofNat b.toNat]
  else ['%', upperHexDigit (b.toNat / 16), upperHexDigit (b.toNat % 16)]

def urlEncode (s : String) : List Char := (Text.bytes s).flatMap encodeByte

/-- `key=value` of every pair, joined by `&`. -/
def joinQuery (pairs : List (String × String)) : List Char :=
  ['&'].intercalate (pairs.map fun (k, v) => urlEncode k ++ '=' :: urlEncode v)

variable {b : UInt8} {bs rest : List UInt8} {c : Char} {s k v : String}
  {pairs : List (String × String)}

theorem forall_byte {P : UInt8 → Prop} (h : ∀ n : Fin 256, P n.val.toUInt8) (b : UInt8) : P b := by
  have hb := h ⟨b.toNat, b.toNat_lt⟩
  rwa [Nat.toUInt8_eq, UInt8.ofNat_toNat] at hb

/-- What is written is ASCII, and neither separates nor stands for a space. -/
theorem encodeByte_chars (b : UInt8) :
    ∀ c ∈ encodeByte b, c.toNat < 128 ∧ c ≠ '&' ∧ c ≠ '=' ∧ c ≠ '+' := by
  have hall : ∀ b, (encodeByte b).all (fun c => c.toNat < 128 && c ∉ ['&', '=', '+']) = true :=
    forall_byte (by decide +kernel)
  intro c hc
  simpa using List.all_eq_true.mp (hall b) c hc

/-- A byte passed through is no `%` and no `+`. -/
theorem unreserved_plain (b : UInt8) : isUnreserved b = true → b ≠ 43 ∧ b ≠ 37 := by
  revert b
  exact forall_byte (by decide +kernel)

theorem hexNibble_upper (b : UInt8) :
    hexNibble ((upperHexDigit (b.toNat / 16)).toNat.toUInt8) = some (b >>> 4) ∧
      hexNibble ((upperHexDigit (b.toNat % 16)).toNat.toUInt8) = some (b &&& 15) ∧
      ((b >>> 4) <<< 4 ||| (b &&& 15)) = b := by
  revert b
  exact forall_byte (by decide +kernel)

theorem percentDecodeBytes_plain (h : b ≠ 43 ∧ b ≠ 37) :
    percentDecodeBytes (b :: rest) = b :: percentDecodeBytes rest := by
  rw [percentDecodeBytes]
  · exact h.1
  · exact fun _ _ _ hb _ => h.2 hb

/-- The byte is read back of what was written of it. -/
theorem percentDecodeBytes_encodeByte (b : UInt8) (rest : List UInt8) :
    percentDecodeBytes ((encodeByte b).map (fun c => c.toNat.toUInt8) ++ rest) =
      b :: percentDecodeBytes rest := by
  unfold encodeByte
  split
  · next hplain =>
    have hchar : (Char.ofNat b.toNat).toNat.toUInt8 = b := by
      revert b
      exact forall_byte (by decide +kernel)
    rw [List.map_singleton, List.singleton_append, hchar]
    exact percentDecodeBytes_plain (unreserved_plain b hplain)
  · obtain ⟨hhi, hlo, hsum⟩ := hexNibble_upper b
    have hpercent : '%'.toNat.toUInt8 = 37 := rfl
    rw [List.map_cons, List.map_cons, List.map_singleton, hpercent]
    simp only [List.cons_append, List.nil_append]
    rw [percentDecodeBytes, hhi, hlo]
    dsimp only
    rw [hsum]

theorem percentDecodeBytes_encode (bs : List UInt8) :
    percentDecodeBytes ((bs.flatMap encodeByte).map fun c => c.toNat.toUInt8) = bs := by
  induction bs with
  | nil => rfl
  | cons b bs ih => rw [List.flatMap_cons, List.map_append, percentDecodeBytes_encodeByte, ih]

theorem urlEncode_chars (hc : c ∈ urlEncode s) :
    c.toNat < 128 ∧ c ≠ '&' ∧ c ≠ '=' ∧ c ≠ '+' := by
  obtain ⟨b, -, hb⟩ := List.mem_flatMap.mp hc
  exact encodeByte_chars b c hb

theorem percentDecode_urlEncode (s : String) : percentDecode (urlEncode s) = s := by
  have hascii : ∀ c ∈ urlEncode s, c.toNat < 128 := fun _ hc => (urlEncode_chars hc).1
  rw [percentDecode, Text.bytes_ofList_ascii hascii, urlEncode, percentDecodeBytes_encode,
    Text.fromUtf8Lossy_bytes]

theorem splitOnce_joined (k v : String) :
    splitOnce '=' (urlEncode k ++ '=' :: urlEncode v) = some (urlEncode k, urlEncode v) := by
  have hk : ∀ c ∈ urlEncode k, decide (c ≠ '=') = true :=
    fun _ hc => decide_eq_true (urlEncode_chars hc).2.2.1
  rw [splitOnce, List.dropWhile_append_of_pos hk, List.takeWhile_append_of_pos hk]
  simp

/-- The pieces of the joined query are the pairs. -/
theorem splitOn_joinQuery (hne : pairs ≠ []) : (joinQuery pairs).splitOn '&' =
    pairs.map fun (k, v) => urlEncode k ++ '=' :: urlEncode v := by
  refine List.splitOn_intercalate '&' ?_ (by simpa using hne)
  intro piece hpiece
  obtain ⟨⟨k, v⟩, -, rfl⟩ := List.mem_map.mp hpiece
  intro hmem
  rcases List.mem_append.mp hmem with hmem | hmem
  · exact (urlEncode_chars hmem).2.1 rfl
  · rcases List.mem_cons.mp hmem with hmem | hmem
    · cases hmem
    · exact (urlEncode_chars hmem).2.1 rfl

/-- `HashMap::insert` of a pair. -/
def insertPair (out : String → Option String) (pair : String × String) : String → Option String :=
  Function.update out pair.1 (some pair.2)

theorem parseQuery_eq (pairs : List (String × String)) :
    parseQuery (joinQuery pairs) = pairs.foldl insertPair fun _ => none := by
  cases pairs with
  | nil => rfl
  | cons pair pairs =>
    rw [parseQuery, splitOn_joinQuery (List.cons_ne_nil _ _), List.foldl_map]
    congr 1
    funext out ⟨k, v⟩
    dsimp only
    rw [if_neg (by simp), splitOnce_joined, Option.getD_some]
    dsimp only
    rw [percentDecode_urlEncode, percentDecode_urlEncode]
    rfl

/-- Of pairs with distinct keys each one counts. -/
theorem foldl_insertPair_iff {out : String → Option String} (hkeys : (pairs.map Prod.fst).Nodup)
    (hout : ∀ k ∈ pairs.map Prod.fst, out k = none) :
    pairs.foldl insertPair out k = some v ↔ (k, v) ∈ pairs ∨ out k = some v := by
  induction pairs generalizing out with
  | nil => simp
  | cons pair pairs ih =>
    obtain ⟨l, w⟩ := pair
    obtain ⟨hl, hkeys⟩ := List.nodup_cons.mp hkeys
    have hnone : ∀ k ∈ pairs.map Prod.fst, insertPair out (l, w) k = none := by
      intro k hk
      have hne : k ≠ l := by
        rintro rfl
        exact hl hk
      rw [insertPair, Function.update_of_ne hne]
      exact hout k (List.mem_cons_of_mem _ hk)
    rw [List.foldl_cons, ih hkeys hnone, List.mem_cons, Prod.mk.injEq, insertPair]
    by_cases hkl : k = l
    · subst hkl
      have hk : out k = none := hout k List.mem_cons_self
      have hnot : (k, v) ∉ pairs := fun h => hl (List.mem_map.mpr ⟨(k, v), h, rfl⟩)
      rw [Function.update_self, hk]
      simp [hnot, eq_comm]
    · rw [Function.update_of_ne hkl]
      simp [hkl]

/-- Texts and maps are read back as they were encoded. -/
theorem query_round_trip : (∀ s, percentDecode (urlEncode s) = s) ∧
    ∀ pairs : List (String × String), (pairs.map Prod.fst).Nodup →
      ∀ k v, parseQuery (joinQuery pairs) k = some v ↔ (k, v) ∈ pairs := by
  refine ⟨percentDecode_urlEncode, fun pairs hkeys k v => ?_⟩
  rw [parseQuery_eq, foldl_insertPair_iff hkeys fun _ _ => rfl]
  simp

theorem query_round_trip_demo :
    parseQuery (joinQuery [("id", "a b&c"), ("café", "")]) "id" = some "a b&c" :=
  (query_round_trip.2 [("id", "a b&c"), ("café", "")] (by decide) "id" "a b&c").mpr
    (by decide)

end PlainRs.Utils
