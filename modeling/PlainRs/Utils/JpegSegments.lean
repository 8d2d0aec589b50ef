import PlainRs.Utils.ImageDimensions

/-! JPEG files up to their frame header, and what the walk over their markers finds. -/
namespace PlainRs.Utils

open Checked Endian

/-- SOF0-3, 5-7, 9-11 and 13-15. -/
def IsFrameHeader (m : UInt8) : Prop := 0xC0 ≤ m ∧ m ≤ 0xCF ∧ m ≠ 0xC4 ∧ m ≠ 0xC8 ∧ m ≠ 0xCC

/-- Markers that stand alone, with no length behind them, and the bytes that are none. -/
def StandsAlone (m : UInt8) : Prop := m = 0x00 ∨ m = 0x01 ∨ (0xD0 ≤ m ∧ m ≤ 0xD9) ∨ m = 0xFF

instance (m : UInt8) : Decidable (IsFrameHeader m) := inferInstanceAs (Decidable (_ ∧ _))

instance (m : UInt8) : Decidable (StandsAlone m) := inferInstanceAs (Decidable (_ ∨ _))

def dac : UInt8 := 0xCC
def sos : UInt8 := 0xDA

/-- A segment with a length, after at least one 0xFF. -/
structure JpegSegment where
  fills : ℕ
  marker : UInt8
  content : List UInt8
  not_standsAlone : ¬ StandsAlone marker
  not_isFrameHeader : ¬ IsFrameHeader marker
  length_le : content.length ≤ 65533

/-- A frame header and all that follows it. -/
structure FrameHeader where
  fills : ℕ
  marker : UInt8
  length : Fin (2 ^ 16)
  precision : UInt8
  height : Fin (2 ^ 16)
  width : Fin (2 ^ 16)
  rest : List UInt8
  isFrameHeader : IsFrameHeader marker

def JpegSegment.bytes (s : JpegSegment) : List UInt8 :=
  List.replicate (s.fills + 1) 0xFF ++
    s.marker :: (beBytes 2 (s.content.length + 2) ++ s.content)

def FrameHeader.bytes (f : FrameHeader) : List UInt8 :=
  List.replicate (f.fills + 1) 0xFF ++
    f.marker :: (beBytes 2 f.length ++
      f.precision :: (beBytes 2 f.height ++ (beBytes 2 f.width ++ f.rest)))

/-- The segments from some place on, and the frame header. -/
def jpegTail (segments : List JpegSegment) (f : FrameHeader) : List UInt8 :=
  segments.flatMap JpegSegment.bytes ++ f.bytes

def jpegFile (segments : List JpegSegment) (f : FrameHeader) : List UInt8 :=
  0xFF :: 0xD8 :: jpegTail segments f

/-- The walk comes to the frame header: it meets no scan, and no DAC segment before which happens to
have the size where a frame header has it. -/
def ReachesFrame (f : FrameHeader) : List JpegSegment → Prop
  | [] => True
  | s :: segments =>
    if s.marker = sos then False
    else if s.marker = dac then
      let read := s.content ++ jpegTail segments f
      beNat ((read.drop 1).take 2) = f.height ∧ beNat ((read.drop 3).take 2) = f.width
    else ReachesFrame f segments

variable {b tail : List UInt8} {fills i left n : ℕ} {m : UInt8} {s : JpegSegment}
  {segments : List JpegSegment} {f : FrameHeader}

theorem drop_fills (h : b.drop i = List.replicate (fills + 1) 0xFF ++ m :: tail) :
    b.drop (i + (fills + 1)) = m :: tail := by
  rw [← List.drop_drop, h, List.drop_append_of_le_length (by simp), List.drop_replicate,
    Nat.sub_self]
  rfl

theorem skipFills_eq (h : b.drop i = List.replicate (fills + 1) 0xFF ++ m :: tail) (hm : m ≠ 0xFF) :
    skipFills b i = i + (fills + 1) := by
  rw [skipFills, h, List.takeWhile_append_of_pos (by simp),
    List.takeWhile_cons_of_neg (by simp [hm])]
  simp

theorem length_of_drop (h : b.drop i = List.replicate (fills + 1) 0xFF ++ m :: tail) :
    b.length = i + (fills + 1) + 1 + tail.length := by
  have hlen := congrArg List.length h
  simp only [List.length_drop, List.length_append, List.length_replicate, List.length_cons] at hlen
  omega

theorem jpegFrom_marker (h : b.drop i = List.replicate (fills + 1) 0xFF ++ m :: tail)
    (hm : m ≠ 0xFF) :
    jpegFrom b (left + 1) i = jpegMarker b m (i + (fills + 1) + 1) (jpegFrom b left) := by
  have hlen := length_of_drop h
  have hfirst : Checked.get b i = .ok 0xFF :=
    get_of_drop (k := 0) h (by simp [List.replicate_succ])
  have hmarker : Checked.get b (i + (fills + 1)) = .ok m := get_of_drop (k := 0) (drop_fills h) rfl
  rw [jpegFrom, if_pos (by omega), hfirst]
  simp only [ok_bind, ne_eq, not_true_eq_false, if_false, skipFills_eq h hm,
    if_neg (show ¬ b.length ≤ i + (fills + 1) by omega), hmarker]

/-- A marker of a frame header ends the walk, with a size from the bytes behind it. -/
theorem jpegMarker_frame {l₀ l₁ p y₀ y₁ x₀ x₁ : UInt8} {walk : ℕ → Checked (Option (Int × Int))}
    (h : b.drop i = l₀ :: l₁ :: p :: y₀ :: y₁ :: x₀ :: x₁ :: tail) (hm : isFrameMarker m = true) :
    jpegMarker b m i walk = .ok (some (beNat [x₀, x₁], beNat [y₀, y₁])) := by
  have hlen := congrArg List.length h
  simp only [List.length_drop, List.length_cons] at hlen
  rw [jpegMarker, if_pos hm, if_neg (by omega)]
  simp only [get_of_drop (k := 3) h rfl, get_of_drop (k := 4) h rfl, get_of_drop (k := 5) h rfl,
    get_of_drop (k := 6) h rfl, ok_bind]
  rfl

/-- Any other marker with a length is walked over. -/
theorem jpegMarker_segment {walk : ℕ → Checked (Option (Int × Int))} (hn : n ≤ 65533)
    (h : b.drop i = beBytes 2 (n + 2) ++ tail) (hframe : isFrameMarker m = false)
    (hend : ¬ (m = 0xDA ∨ m = 0xD9)) : jpegMarker b m i walk = walk (i + 2 + n) := by
  obtain ⟨l₀, l₁, hl⟩ := List.length_eq_two.mp (length_beBytes 2 (n + 2))
  have hseg : beNat (beBytes 2 (n + 2)) = n + 2 := beNat_beBytes (by omega)
  rw [hl] at h hseg
  have hlen := congrArg List.length h
  simp only [List.length_drop, List.length_append, List.length_cons] at hlen
  rw [jpegMarker, if_neg (by simp [hframe]), if_neg hend, if_neg (by omega)]
  have h₀ : Checked.get b i = .ok l₀ := get_of_drop (k := 0) h rfl
  simp only [h₀, get_of_drop (k := 1) h rfl, ok_bind, hseg, if_neg (show ¬ n + 2 < 2 by omega)]
  congr 1
  omega

theorem FrameHeader.marker_ne (f : FrameHeader) : f.marker ≠ 0xFF := by
  intro h
  exact absurd (h ▸ f.isFrameHeader) (by decide)

theorem FrameHeader.isFrameMarker (f : FrameHeader) : isFrameMarker f.marker = true := by
  obtain ⟨hlo, hhi, h4, h8, -⟩ := f.isFrameHeader
  simp [Utils.isFrameMarker, hlo, hhi, h4, h8]

namespace JpegSegment

theorem marker_ne (s : JpegSegment) : s.marker ≠ 0xFF := by
  intro h
  exact s.not_standsAlone (.inr (.inr (.inr h)))

/-- Of the segments, those with arithmetic coding conditions are taken for a frame header. -/
theorem isFrameMarker_iff (s : JpegSegment) : isFrameMarker s.marker = true ↔ s.marker = dac := by
  constructor
  · intro h
    obtain ⟨hlo, hhi, h4, h8⟩ : _ ∧ _ ∧ _ ∧ _ := by simpa [isFrameMarker] using h
    by_contra hdac
    exact s.not_isFrameHeader ⟨hlo, hhi, h4, h8, hdac⟩
  · intro h
    rw [h]
    rfl

theorem ends_iff (s : JpegSegment) : (s.marker = 0xDA ∨ s.marker = 0xD9) ↔ s.marker = sos := by
  constructor
  · rintro (h | h)
    · exact h
    · exact absurd (.inr (.inr (.inl (by rw [h]; decide)))) s.not_standsAlone
  · exact .inl

end JpegSegment

theorem jpegTail_cons : jpegTail (s :: segments) f =
    List.replicate (s.fills + 1) 0xFF ++
      s.marker :: (beBytes 2 (s.content.length + 2) ++ (s.content ++ jpegTail segments f)) := by
  simp [jpegTail, JpegSegment.bytes]

theorem five_le_length_jpegTail : 5 ≤ (jpegTail segments f).length := by
  simp [jpegTail, FrameHeader.bytes]
  omega

/-- At the frame header, the size is its own. -/
theorem jpegFrom_frame (h : b.drop i = jpegTail [] f) :
    jpegFrom b (left + 1) i = .ok (some (f.width, f.height)) := by
  have hread := drop_fills h
  obtain ⟨l₀, l₁, hl⟩ := List.length_eq_two.mp (length_beBytes 2 f.length)
  obtain ⟨y₀, y₁, hy⟩ := List.length_eq_two.mp (length_beBytes 2 f.height)
  obtain ⟨x₀, x₁, hx⟩ := List.length_eq_two.mp (length_beBytes 2 f.width)
  have hheight : beNat (beBytes 2 f.height) = f.height := beNat_beBytes f.height.isLt
  have hwidth : beNat (beBytes 2 f.width) = f.width := beNat_beBytes f.width.isLt
  rw [hl, hy, hx] at hread
  rw [hy] at hheight
  rw [hx] at hwidth
  have hbehind := congrArg (List.drop 1) hread
  rw [List.drop_drop] at hbehind
  rw [jpegFrom_marker h f.marker_ne, jpegMarker_frame hbehind f.isFrameMarker, hheight, hwidth]

/-- Taken for a frame header, a segment gives the size that its content and what follows have where
a frame header has it. -/
theorem jpegFrom_dac (h : b.drop i = jpegTail (s :: segments) f) (hs : s.marker = dac) :
    jpegFrom b (left + 1) i =
      .ok (some (beNat (((s.content ++ jpegTail segments f).drop 3).take 2),
        beNat (((s.content ++ jpegTail segments f).drop 1).take 2))) := by
  rw [jpegTail_cons] at h
  have hlen : 5 ≤ (s.content ++ jpegTail segments f).length := by
    rw [List.length_append]
    exact five_le_length_jpegTail.trans (Nat.le_add_left _ _)
  have hbehind := congrArg (List.drop 1) (drop_fills h)
  rw [List.drop_drop] at hbehind
  generalize s.content ++ jpegTail segments f = read at hlen hbehind ⊢
  obtain ⟨l₀, l₁, hl⟩ := List.length_eq_two.mp (length_beBytes 2 (s.content.length + 2))
  rw [hl] at hbehind
  match read, hlen with
  | p :: y₀ :: y₁ :: x₀ :: x₁ :: tail, _ =>
    rw [jpegFrom_marker h s.marker_ne, jpegMarker_frame hbehind (s.isFrameMarker_iff.mpr hs)]
    rfl

/-- A scan ends the walk. -/
theorem jpegFrom_sos (h : b.drop i = jpegTail (s :: segments) f) (hs : s.marker = sos) :
    jpegFrom b (left + 1) i = .ok none := by
  rw [jpegTail_cons] at h
  have hframe : ¬ isFrameMarker s.marker = true := by
    rw [hs]
    decide
  rw [jpegFrom_marker h s.marker_ne, jpegMarker, if_neg hframe, if_pos (s.ends_iff.mpr hs)]
  rfl

/-- Any other segment is walked over, to where the next begins. -/
theorem jpegFrom_segment (h : b.drop i = jpegTail (s :: segments) f) (hsos : s.marker ≠ sos)
    (hdac : s.marker ≠ dac) :
    ∃ j, jpegFrom b (left + 1) i = jpegFrom b left j ∧ b.drop j = jpegTail segments f := by
  rw [jpegTail_cons] at h
  have hframe := Bool.eq_false_of_not_eq_true (mt s.isFrameMarker_iff.mp hdac)
  have hbehind := congrArg (List.drop 1) (drop_fills h)
  rw [List.drop_drop] at hbehind
  refine ⟨i + (s.fills + 1) + 1 + 2 + s.content.length, ?_, ?_⟩
  · rw [jpegFrom_marker h s.marker_ne,
      jpegMarker_segment s.length_le hbehind hframe (mt s.ends_iff.mp hsos)]
  · have hcontent := congrArg (List.drop (2 + s.content.length)) hbehind
    rw [List.drop_drop] at hcontent
    rw [Nat.add_assoc _ 2, hcontent]
    simp [← List.drop_drop]

/-- From a place where segments begin, the size of the frame header is found just when the walk
reaches it. -/
theorem jpegFrom_iff (h : b.drop i = jpegTail segments f) (hleft : segments.length < left) :
    jpegFrom b left i = .ok (some (f.width, f.height)) ↔ ReachesFrame f segments := by
  induction segments generalizing i left with
  | nil =>
    obtain ⟨left, rfl⟩ := Nat.exists_eq_add_of_lt hleft
    have hframe : jpegFrom b (left + 1) i = .ok (some (f.width, f.height)) := jpegFrom_frame h
    exact iff_of_true (by simpa using hframe) trivial
  | cons s segments ih =>
    obtain ⟨left, rfl⟩ : ∃ k, left = k + 1 := ⟨left - 1, by omega⟩
    rw [List.length_cons] at hleft
    by_cases hsos : s.marker = sos
    · rw [jpegFrom_sos h hsos, ReachesFrame, if_pos hsos]
      exact iff_of_false (by simp) id
    · rw [ReachesFrame, if_neg hsos]
      by_cases hdac : s.marker = dac
      · rw [jpegFrom_dac h hdac, if_pos hdac]
        simp only [Except.ok.injEq, Option.some.injEq, Prod.mk.injEq, Nat.cast_inj]
        exact and_comm
      · obtain ⟨j, hwalk, hj⟩ : ∃ j, jpegFrom b (left + 1) i = jpegFrom b left j ∧
            b.drop j = jpegTail segments f := jpegFrom_segment h hsos hdac
        rw [hwalk, if_neg hdac]
        exact ih hj (by omega)

theorem length_segment : 4 ≤ s.bytes.length := by
  simp [JpegSegment.bytes]
  omega

theorem segments_lt_length :
    segments.length < (jpegTail segments f).length := by
  induction segments with
  | nil => exact Nat.lt_of_lt_of_le (by decide) five_le_length_jpegTail
  | cons s segments ih =>
    rw [jpegTail, List.flatMap_cons, List.append_assoc, List.length_append, List.length_cons]
    have hs := length_segment (s := s)
    change _ < s.bytes.length + (jpegTail segments f).length
    omega

/-- The size of a file is that of its frame header just when the walk over the segments reaches
it. -/
theorem jpeg_dimensions_iff (segments : List JpegSegment) (f : FrameHeader) :
    dimensions (jpegFile segments f) = .ok (some (f.width, f.height)) ↔
      ReachesFrame f segments := by
  have hdispatch : dimensions (jpegFile segments f) = jpeg (jpegFile segments f) :=
    if_pos ⟨jpegTail segments f, rfl⟩
  have hlen : segments.length < (jpegFile segments f).length :=
    segments_lt_length.trans (Nat.lt_add_of_pos_right (by decide : 0 < 2))
  rw [hdispatch, jpeg]
  exact jpegFrom_iff rfl hlen

/-- A file that sets its arithmetic coding conditions before a frame of 16 by 16. -/
theorem jpeg_conditions : ¬ ∀ (segments : List JpegSegment) (f : FrameHeader),
    dimensions (jpegFile segments f) = .ok (some (f.width, f.height)) := by
  intro h
  have h := h [⟨0, 0xCC, [0x00, 0x10], by decide, by decide, by decide⟩]
    ⟨0, 0xC9, 17, 8, 16, 16, [3, 1, 0x11, 0, 2, 0x11, 0, 3, 0x11, 0], by decide⟩
  exact absurd h (by decide)

end PlainRs.Utils
