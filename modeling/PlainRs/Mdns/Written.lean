import PlainRs.Base.Lossy
import PlainRs.Base.Segments
import PlainRs.Mdns.PacketWriter

/-! Integers and names in a packet: what is written, or pointed at, is read. -/
namespace PlainRs.Mdns

open Checked

variable {data : Bytes} {i offset k left n p stop allowed : Nat} {label : String}
  {labels tail acc : List String} {pointed : Nat → Checked (Option String)}

/-- Bits below a multiple of a power of two are added to it. -/
theorem or_low {a b : Nat} (k : Nat) (h : b < 2 ^ k) : a * 2 ^ k ||| b = a * 2 ^ k + b := by
  rw [← Nat.shiftLeft_eq, Nat.shiftLeft_add_eq_or_of_lt h]

theorem readU16_written {value : UInt16} (h : At data offset (writeU16 value)) :
    readU16 data offset = .ok value := by
  rw [readU16, h.get, ok_bind, h.tail.get, ok_bind]
  refine congrArg Except.ok (UInt16.toNat_inj.mp ?_)
  have hlt : value.toNat < 65536 := value.toNat_lt
  have hlow : value.toNat &&& 255 = value.toNat % 256 := Nat.and_two_pow_sub_one_eq_mod _ 8
  have hor : value.toNat / 256 * 256 ||| value.toNat % 256 = value.toNat := by
    have hor := or_low (a := value.toNat / 256) 8 (show value.toNat % 256 < 2 ^ 8 by omega)
    norm_num at hor
    omega
  simp only [UInt16.toNat_or, UInt16.toNat_shiftLeft, UInt8.toNat_toUInt16, UInt16.toNat_toUInt8,
    UInt16.toNat_shiftRight, UInt16.toNat_and, Nat.shiftLeft_eq, Nat.shiftRight_eq_div_pow,
    UInt16.reduceToNat, hlow, Nat.reduceMod, Nat.reducePow]
  rwa [Nat.mod_mod, Nat.mod_eq_of_lt (show value.toNat / 256 < 256 by omega),
    Nat.mod_eq_of_lt (show value.toNat / 256 * 256 < 65536 by omega)]

theorem readU32_written {value : UInt32} (h : At data offset (writeU32 value)) :
    readU32 data offset = .ok value := by
  rw [readU32, h.get, ok_bind, h.tail.get, ok_bind, h.tail.tail.get, ok_bind, h.tail.tail.tail.get,
    ok_bind]
  refine congrArg Except.ok (UInt32.toNat_inj.mp ?_)
  have hlt : value.toNat < 4294967296 := value.toNat_lt
  have hlow : value.toNat &&& 255 = value.toNat % 256 := Nat.and_two_pow_sub_one_eq_mod _ 8
  have h8 : ∀ a b : Nat, b < 256 → a * 256 ||| b = a * 256 + b := fun a b h => or_low 8 h
  have h16 : ∀ a b : Nat, b < 65536 → a * 65536 ||| b = a * 65536 + b := fun a b h => or_low 16 h
  have h24 : ∀ a b : Nat, b < 16777216 → a * 16777216 ||| b = a * 16777216 + b :=
    fun a b h => or_low 24 h
  have hor : ∀ a b c d : Nat, b < 256 → c < 256 → d < 256 →
      a * 16777216 ||| b * 65536 ||| c * 256 ||| d = a * 16777216 + b * 65536 + c * 256 + d := by
    intro a b c d hb hc hd
    calc a * 16777216 ||| b * 65536 ||| c * 256 ||| d
      _ = (a * 256 + b) * 65536 ||| c * 256 ||| d := by
        rw [h24 a (b * 65536) (by omega),
          show a * 16777216 + b * 65536 = (a * 256 + b) * 65536 by omega]
      _ = ((a * 256 + b) * 256 + c) * 256 ||| d := by
        rw [h16 (a * 256 + b) (c * 256) (by omega),
          show (a * 256 + b) * 65536 + c * 256 = ((a * 256 + b) * 256 + c) * 256 by omega]
      _ = a * 16777216 + b * 65536 + c * 256 + d := by
        rw [h8 ((a * 256 + b) * 256 + c) d hd]
        omega
  simp only [UInt32.toNat_or, UInt32.toNat_shiftLeft, UInt8.toNat_toUInt32, UInt32.toNat_toUInt8,
    UInt32.toNat_shiftRight, UInt32.toNat_and, Nat.shiftLeft_eq, Nat.shiftRight_eq_div_pow,
    UInt32.reduceToNat, hlow, Nat.reduceMod, Nat.reducePow]
  have hmod : ∀ n m : Nat, n % 256 * m ≤ 255 * m := fun n m => Nat.mul_le_mul_right m (by omega)
  have hm₁ := hmod (value.toNat / 16777216) 16777216
  have hm₂ := hmod (value.toNat / 65536) 65536
  have hm₃ := hmod (value.toNat / 256) 256
  rw [Nat.mod_eq_of_lt (a := value.toNat / 16777216 % 256 * 16777216) (by omega),
    Nat.mod_eq_of_lt (a := value.toNat / 65536 % 256 * 65536) (by omega),
    Nat.mod_eq_of_lt (a := value.toNat / 256 % 256 * 256) (by omega),
    hor _ _ _ _ (by omega) (by omega) (by omega)]
  omega

/-- One to 63 bytes without a dot. -/
def LabelFits (label : String) : Prop :=
  1 ≤ (Text.bytes label).length ∧ (Text.bytes label).length ≤ 63 ∧ '.' ∉ label.toList

instance : Decidable (LabelFits label) := inferInstanceAs (Decidable (_ ∧ _))

/-- A compression pointer to offset `p`. -/
def pointerTo (p : Nat) : Bytes := [0xC0 ||| (p / 256).toUInt8, (p % 256).toUInt8]

/-- A name of these labels stands at `i` and ends before `stop`; a tail of it may be a pointer to an
earlier place where that tail stands, through `k` pointers in all. -/
inductive Occurs (data : Bytes) : Nat → List String → Nat → Nat → Prop
  | root {i : Nat} (h : At data i [0]) : Occurs data i [] 0 (i + 1)
  | label {i k stop : Nat} {label : String} {labels : List String} (hfits : LabelFits label)
      (h : At data i (withLength label))
      (rest : Occurs data (i + (withLength label).length) labels k stop) :
      Occurs data i (label :: labels) k stop
  | pointer {i p k stop : Nat} {labels : List String} (hp : p < 16384) (hearlier : p < i)
      (h : At data i (pointerTo p)) (there : Occurs data p labels k stop) :
      Occurs data i labels (k + 1) (i + 2)

theorem Occurs.fits (h : Occurs data i labels k stop) : ∀ label ∈ labels, LabelFits label := by
  induction h with
  | root => nofun
  | label hfits _ _ ih => exact List.forall_mem_cons.mpr ⟨hfits, ih⟩
  | pointer _ _ _ _ ih => exact ih

theorem Occurs.lt_length (h : Occurs data i labels k stop) : i < data.length := by
  cases h with
  | root h => exact Nat.lt_of_succ_le h.le
  | label _ h _ =>
    have hle := h.le
    rw [withLength, List.length_cons] at hle
    omega
  | pointer _ _ h _ =>
    have hle := h.le
    simp only [pointerTo, List.length_cons, List.length_nil] at hle
    omega

theorem splitLabels_intercalate (h : ∀ label ∈ labels, LabelFits label) :
    splitLabels (".".intercalate labels) = labels := by
  have hlists : ((".".intercalate labels).toList.splitOn '.').filter (· ≠ []) =
      labels.map String.toList := by
    have hdot : ".".toList = ['.'] := by decide
    rw [String.toList_intercalate, hdot]
    by_cases hne : labels = []
    · subst hne
      rfl
    · rw [List.splitOn_intercalate]
      · refine List.filter_eq_self.mpr fun cs hcs => ?_
        obtain ⟨label, hlabel, rfl⟩ := List.mem_map.mp hcs
        refine decide_eq_true fun hnil => ?_
        have hpos := (h label hlabel).1
        rw [String.toList_eq_nil_iff.mp hnil] at hpos
        exact absurd hpos (by decide)
      · intro cs hcs
        obtain ⟨label, hlabel, rfl⟩ := List.mem_map.mp hcs
        exact (h label hlabel).2.2
      · simpa using hne
  rw [splitLabels, hlists, List.map_map]
  simp [Function.comp_def]

/-- A length up to 191 is neither zero nor the first byte of a pointer. -/
theorem length_byte (h : 1 ≤ n) (h' : n ≤ 191) :
    n.toUInt8 ≠ 0 ∧ n.toUInt8 &&& 0xC0 ≠ 0xC0 ∧ n.toUInt8.toNat = n := by
  have hall : ∀ n : Fin 192, n.val ≠ 0 → n.val.toUInt8 ≠ 0 ∧ n.val.toUInt8 &&& 0xC0 ≠ 0xC0 ∧
      n.val.toUInt8.toNat = n.val := by
    decide +kernel
  exact hall ⟨n, by omega⟩ (by simp; omega)

/-- The first byte of a pointer holds the upper six bits. -/
theorem pointer_byte (h : n < 64) : (0xC0 ||| n.toUInt8) ≠ 0 ∧
    (0xC0 ||| n.toUInt8) &&& 0xC0 = 0xC0 ∧ ((0xC0 ||| n.toUInt8) &&& 0x3F).toNat = n := by
  have hall : ∀ n : Fin 64, (0xC0 ||| n.val.toUInt8) ≠ 0 ∧
      (0xC0 ||| n.val.toUInt8) &&& 0xC0 = 0xC0 ∧ ((0xC0 ||| n.val.toUInt8) &&& 0x3F).toNat = n.val := by
    decide
  exact hall ⟨n, h⟩

/-- What the name at a pointer gives. -/
def pointedName (data : Bytes) (allowed p : Nat) : Checked (Option String) :=
  (·.map Prod.fst) <$> readNameWithin data allowed p

/-- The loop takes a label of up to 191 bytes that stands where it is. -/
theorem readLabels_label (hpos : 1 ≤ (Text.bytes label).length)
    (hmax : (Text.bytes label).length ≤ 191) (h : At data i (withLength label)) :
    readLabels data pointed (left + 1) i acc =
      readLabels data pointed left (i + (withLength label).length) (acc ++ [label]) := by
  have hle := h.le
  obtain ⟨hzero, hptr, hlen⟩ := length_byte hpos hmax
  have hnext : i + 1 + (Text.bytes label).length = i + (withLength label).length := by
    rw [withLength, List.length_cons]
    omega
  rw [readLabels, if_pos (by omega), h.get, ok_bind, if_neg hzero, if_neg hptr, hlen]
  simp only
  rw [if_neg (by omega), h.tail.slice, ok_bind, Text.fromUtf8Lossy_bytes, hnext]

/-- At the root the loop ends. -/
theorem readLabels_root (h : At data i [0]) :
    readLabels data pointed (left + 1) i acc = .ok (some (".".intercalate acc, i + 1)) := by
  have hle := h.le
  rw [List.length_singleton] at hle
  rw [readLabels, if_pos (by omega), h.get, ok_bind, if_pos rfl]
  rfl

/-- The loop from a place where labels occur takes them all, as long as the pointers are allowed. -/
theorem readLabels_occurs (h : Occurs data i labels k stop) (hk : k ≤ allowed)
    (hleft : data.length ≤ i + left) :
    readLabels data (pointedName data allowed) left i acc =
      .ok (some (".".intercalate (acc ++ labels), stop)) := by
  induction h generalizing allowed left acc with
  | @root i h =>
    have hle := h.le
    rw [List.length_singleton] at hle
    obtain ⟨left, rfl⟩ : ∃ n, left = n + 1 := ⟨left - 1, by omega⟩
    rw [readLabels_root h, List.append_nil]
  | @label i k stop label labels hfits h rest ih =>
    have hle := h.le
    have hcons : (withLength label).length = (Text.bytes label).length + 1 := rfl
    obtain ⟨left, rfl⟩ : ∃ n, left = n + 1 := ⟨left - 1, by omega⟩
    have hmax : (Text.bytes label).length ≤ 191 := hfits.2.1.trans (by omega)
    rw [readLabels_label hfits.1 hmax h, ih hk (by omega), List.append_assoc, List.singleton_append]
  | @pointer i p k stop labels hp hearlier h there ih =>
    have hle := h.le
    obtain ⟨hzero, hptr, hbits⟩ := pointer_byte (show p / 256 < 64 by omega)
    simp only [pointerTo, List.length_cons, List.length_nil] at hle
    obtain ⟨left, rfl⟩ : ∃ n, left = n + 1 := ⟨left - 1, by omega⟩
    obtain ⟨allowed, rfl⟩ : ∃ n, allowed = n + 1 := ⟨allowed - 1, by omega⟩
    have hlow : ((p % 256).toUInt8).toNat = p % 256 := by
      rw [UInt8.toNat_ofNat']
      omega
    have hat : (p / 256) * 256 + p % 256 = p := by omega
    have hthere : pointedName data (allowed + 1) p = .ok (some (".".intercalate labels)) := by
      have hnone : readLabels data (pointedName data allowed) (data.length - p) p [] =
          .ok (some (".".intercalate ([] ++ labels), stop)) := ih (by omega) (by omega)
      rw [pointedName, readNameWithin, if_neg (not_le.mpr there.lt_length)]
      exact congrArg (fun out => (·.map Prod.fst) <$> out) hnone
    rw [readLabels, if_pos (by omega), h.get, ok_bind, if_neg hzero, if_pos hptr,
      if_neg (by omega), h.tail.get, ok_bind, hbits, hlow, hat, hthere, ok_bind]
    simp only [splitLabels_intercalate there.fits]
    rfl

/-- `read_name` reads a name that occurs, through at most eight pointers. -/
theorem readName_occurs (h : Occurs data i labels k stop) (hk : k ≤ 8) :
    readName data i 0 = .ok (some (".".intercalate labels, stop)) := by
  rw [readName, readNameWithin, if_neg (not_le.mpr h.lt_length)]
  exact readLabels_occurs h hk (by omega)

/-- The loop over a whole name, of labels of up to 191 bytes. -/
theorem readLabels_whole (hpos : ∀ label ∈ labels, 1 ≤ (Text.bytes label).length)
    (hmax : ∀ label ∈ labels, (Text.bytes label).length ≤ 191)
    (h : At data i (labels.flatMap withLength ++ [0])) (hleft : data.length ≤ i + left) :
    readLabels data pointed left i acc = .ok (some (".".intercalate (acc ++ labels),
      i + (labels.flatMap withLength ++ [0]).length)) := by
  induction labels generalizing i left acc with
  | nil =>
    have hle := h.le
    rw [List.flatMap_nil, List.nil_append, List.length_singleton] at hle
    obtain ⟨left, rfl⟩ : ∃ n, left = n + 1 := ⟨left - 1, by omega⟩
    rw [readLabels_root h, List.append_nil]
    rfl
  | cons label labels ih =>
    obtain ⟨hone, hpos⟩ := List.forall_mem_cons.mp hpos
    obtain ⟨hthis, hmax⟩ := List.forall_mem_cons.mp hmax
    rw [List.flatMap_cons, List.append_assoc] at h ⊢
    have hle := h.left.le
    have hcons : (withLength label).length = (Text.bytes label).length + 1 := rfl
    obtain ⟨left, rfl⟩ : ∃ n, left = n + 1 := ⟨left - 1, by omega⟩
    rw [readLabels_label hone hthis h.left, ih hpos hmax h.right (by omega), List.append_assoc,
      List.singleton_append]
    simp only [List.length_append, Nat.add_assoc]

theorem length_pos_of_mem_splitLabels {name : String} (h : label ∈ splitLabels name) :
    1 ≤ (Text.bytes label).length := by
  obtain ⟨cs, hcs, rfl⟩ := List.mem_map.mp h
  have hne : cs ≠ [] := by simpa using (List.mem_filter.mp hcs).2
  exact (List.length_pos_of_ne_nil hne).trans_le (Text.length_le_bytes cs)

/-- A name as `read_name` gives it back: without its empty labels. -/
def readBack (name : String) : String := ".".intercalate (splitLabels name)

/-- Every name whose labels have up to 191 bytes is read where `encode_name` writes it. -/
theorem readName_encodeName {name : String}
    (hmax : ∀ label ∈ splitLabels name, (Text.bytes label).length ≤ 191)
    (h : At data i (encodeName name)) :
    readName data i 0 = .ok (some (readBack name, i + (encodeName name).length)) := by
  have hle := h.le
  have hpos : 0 < (encodeName name).length := by simp [encodeName]
  rw [readName, readNameWithin, if_neg (by omega)]
  exact readLabels_whole (fun _ => length_pos_of_mem_splitLabels) hmax h (by omega)

@[simp] theorem length_writeU16 {value : UInt16} : (writeU16 value).length = 2 := rfl

@[simp] theorem length_writeU32 {value : UInt32} : (writeU32 value).length = 4 := rfl

theorem toNat_lengthU16 (h : n ≤ 65535) : (lengthU16 n).toNat = n := by
  rw [lengthU16, UInt16.toNat_ofNat']
  omega

/-- What `write_record` writes behind the name. -/
def afterName (recordType cls : UInt16) (ttl : UInt32) (rdata : Bytes) : Bytes :=
  writeU16 recordType ++ (writeU16 cls ++ (writeU32 ttl ++
    (writeU16 (lengthU16 rdata.length) ++ rdata)))

variable {recordType cls : UInt16} {ttl : UInt32} {rdata : Bytes}

theorem length_afterName : (afterName recordType cls ttl rdata).length = 10 + rdata.length := by
  simp [afterName]
  omega

/-- The fields of a record, at their distances from the end of its name. -/
theorem read_afterName (h : At data i (afterName recordType cls ttl rdata)) :
    readU16 data i = .ok recordType ∧ readU32 data (i + 4) = .ok ttl ∧
      readU16 data (i + 8) = .ok (lengthU16 rdata.length) ∧ At data (i + 10) rdata := by
  have hcls := h.right
  have httl := hcls.right
  have hlen := httl.right
  have hdata := hlen.right
  simp only [length_writeU16, length_writeU32, Nat.add_assoc, Nat.reduceAdd] at httl hlen hdata
  exact ⟨readU16_written h.left, readU32_written httl.left, readU16_written hlen.left, hdata⟩

/-- A record behind a name that is read up to `offset`. -/
theorem readRecords_cons {name : String} (hname : readName data i 0 = .ok (some (name, offset)))
    (hrdata : rdata.length ≤ 65535) (h : At data offset (afterName recordType cls ttl rdata)) :
    readRecords data (n + 1) i = (readRecords data n (offset + 10 + rdata.length)).map
      (·.map fun p => (⟨name, recordType, ttl, data, offset + 10, rdata.length⟩ :: p.1, p.2)) := by
  obtain ⟨htype, httl, hlen, hdata⟩ := read_afterName h
  have hle := hdata.le
  rw [readRecords, hname, ok_bind]
  simp only
  rw [if_neg (by omega), htype, ok_bind, httl, ok_bind, hlen, ok_bind, toNat_lengthU16 hrdata,
    if_neg (by omega)]
  cases readRecords data n (offset + 10 + rdata.length) with
  | error e => rfl
  | ok out =>
    cases out with
    | none => rfl
    | some p => rfl

end PlainRs.Mdns
