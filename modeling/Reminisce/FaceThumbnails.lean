import Reminisce.OrientationDetection
import Reminisce.MachineInts

namespace Reminisce

/-- What `apply_orientation_to_image` does to an image. -/
inductive ImageTurn
  | none
  | fliph
  | rotate180
  | flipv
  | rotate90Fliph
  | rotate90
  | rotate270Fliph
  | rotate270
  deriving DecidableEq, Repr

/-- The turn for an orientation; unknown values leave the image as it is. -/
def imageTurn : Nat → ImageTurn
  | 2 => .fliph
  | 3 => .rotate180
  | 4 => .flipv
  | 5 => .rotate90Fliph
  | 6 => .rotate90
  | 7 => .rotate270Fliph
  | 8 => .rotate270
  | _ => .none

/-- The operations of the image library on decoded images. -/
structure ImageOps (Img : Type) where
  fliph : Img → Img
  flipv : Img → Img
  rotate90 : Img → Img
  rotate180 : Img → Img
  rotate270 : Img → Img
  width : Img → Nat
  height : Img → Nat
  view : Nat → Nat → Nat → Nat → Img → Img

variable {Img : Type}

def ImageTurn.apply (ops : ImageOps Img) (img : Img) : ImageTurn → Img
  | .none => img
  | .fliph => ops.fliph img
  | .rotate180 => ops.rotate180 img
  | .flipv => ops.flipv img
  | .rotate90Fliph => ops.fliph (ops.rotate90 img)
  | .rotate90 => ops.rotate90 img
  | .rotate270Fliph => ops.fliph (ops.rotate270 img)
  | .rotate270 => ops.rotate270 img

def applyOrientationToImage (ops : ImageOps Img) (img : Img) (orientation : Nat) : Img :=
  (imageTurn orientation).apply ops img

/-- `as u16` of a signed integer. -/
def asU16 (x : Int) : Nat := (x % 2 ^ 16).toNat

/-- The orientation that a face is cropped with: the row's, else the file's, else upright. -/
def cropOrientation (codec : ImageCodec) (data : Bytes) (orientation : Option Int) : Nat :=
  ((orientation.map asU16) <|> codec.exifOrientation data).getD 1

/-- The orientation that faces are looked for in. -/
def detectionOrientation (dbOrientation : Option Int) : Nat := asU16 (dbOrientation.getD 1)

structure FaceBox where
  x : Int
  y : Int
  width : Int
  height : Int
  deriving DecidableEq, Repr

/-- A row of `faces`, with the orientation of the image in which the face was found; the embedding
and the person are left out. -/
structure Face where
  bbox : FaceBox
  frame : Nat
  deriving DecidableEq, Repr

/-- The boxes in the size of the image from those in the size that was sent; `scaleCoord` is the
product with the ratio of the sizes in floating point. -/
def scaleBboxesToOriginal (scaleCoord : Nat → Int → Int) (faces : List FaceBox) (origW origH maxDim : Nat) :
    List FaceBox :=
  let maxOrig := max origW origH
  if maxOrig ≤ maxDim then faces
  else faces.map fun b =>
    { x := scaleCoord maxOrig b.x, y := scaleCoord maxOrig b.y
      width := scaleCoord maxOrig b.width, height := scaleCoord maxOrig b.height }

/-- The part of an oriented image that a box shows, `none` where it has no area. -/
def cropFace (ops : ImageOps Img) (img : Img) (b : FaceBox) : Option Img :=
  let imgW := ops.width img
  let imgH := ops.height img
  let cropX := min (max b.x 0).toNat (imgW - 1)
  let cropY := min (max b.y 0).toNat (imgH - 1)
  let cropW := (max b.width 1).toNat
  let cropH := (max b.height 1).toNat
  let cropW := if cropX + cropW > imgW then imgW - cropX else cropW
  let cropH := if cropY + cropH > imgH then imgH - cropY else cropH
  if cropW = 0 ∨ cropH = 0 then none else some (ops.view cropX cropY cropW cropH img)

/-- The crop of `get_face_thumbnail`, before it is resized and cached. -/
def faceThumbnail (ops : ImageOps Img) (codec : ImageCodec) (data : Bytes) (img : Img)
    (orientation : Option Int) (b : FaceBox) : Option Img :=
  cropFace ops (applyOrientationToImage ops img (cropOrientation codec data orientation)) b

/-- A face whose box lies in the displayed orientation is cropped from the image it was found in. -/
theorem faceThumbnail_of_frame {ops : ImageOps Img} {codec : ImageCodec} {data : Bytes} {img : Img}
    {orientation : Option Int} {face : Face}
    (h : imageTurn face.frame = imageTurn (cropOrientation codec data orientation)) :
    faceThumbnail ops codec data img orientation face.bbox =
      cropFace ops (applyOrientationToImage ops img face.frame) face.bbox := by
  unfold faceThumbnail applyOrientationToImage
  rw [h]

@[simp] theorem cropOrientation_some (codec : ImageCodec) (data : Bytes) (o : Int) :
    cropOrientation codec data (some o) = asU16 o := rfl

/-- The EXIF value that an ingest stores is read back as it was. -/
theorem asU16_bmod {o : Nat} (h : o < 2 ^ 16) : asU16 (Int.bmod o (2 ^ 16)) = o := by
  have hmod : Int.bmod o (2 ^ 16) % (2 ^ 16 : Nat) = (o : Int) % (2 ^ 16 : Nat) := Int.bmod_emod
  have hsmall : (o : Int) % (2 ^ 16 : Nat) = o := by omega
  show (Int.bmod o (2 ^ 16) % (2 ^ 16 : Nat)).toNat = o
  rw [hmod, hsmall, Int.toNat_natCast]

/-- The sides of the thumbnail of an oriented image, `none` where a `u32` overflows. -/
def thumbnailDimensions (width height maxDimension : Nat) : Option (Nat × Nat) :=
  if width > height then
    (checkedUint 32 (height * maxDimension)).map fun product => (maxDimension, product / width)
  else (checkedUint 32 (width * maxDimension)).map fun product => (product / height, maxDimension)

structure CropRectangle where
  x : Nat
  y : Nat
  width : Nat
  height : Nat
  deriving DecidableEq, Repr

/-- The part of an oriented image that `get_face_thumbnail` cuts out. -/
def cropRectangle (imgW imgH : Nat) (b : FaceBox) : Option CropRectangle := do
  let cropX := min (max b.x 0).toNat (imgW - 1)
  let cropY := min (max b.y 0).toNat (imgH - 1)
  let cropW := (max b.width 1).toNat
  let cropH := (max b.height 1).toNat
  let right ← checkedUint 32 (cropX + cropW)
  let bottom ← checkedUint 32 (cropY + cropH)
  let cropW := if right > imgW then imgW - cropX else cropW
  let cropH := if bottom > imgH then imgH - cropY else cropH
  if cropW = 0 ∨ cropH = 0 then none else some ⟨cropX, cropY, cropW, cropH⟩

/-- The columns of a box are `i32`s. -/
def FaceBox.FitsI32 (b : FaceBox) : Prop :=
  ∀ side ∈ [b.x, b.y, b.width, b.height], -2 ^ 31 ≤ side ∧ side < 2 ^ 31

instance (b : FaceBox) : Decidable b.FitsI32 := inferInstanceAs (Decidable (∀ _ ∈ _, _))

/-- A rectangle with pixels, inside an image. -/
def CropRectangle.Inside (r : CropRectangle) (imgW imgH : Nat) : Prop :=
  (0 < r.width ∧ 0 < r.height) ∧ r.x + r.width ≤ imgW ∧ r.y + r.height ≤ imgH

/-- The sides of a thumbnail are computed, and lie between 1 and the bound. -/
def ThumbnailFits (width height maxDimension : Nat) : Prop :=
  ∃ dims, thumbnailDimensions width height maxDimension = some dims ∧
    (1 ≤ dims.1 ∧ dims.1 ≤ maxDimension) ∧ 1 ≤ dims.2 ∧ dims.2 ≤ maxDimension

/-- One direction of a box, cut off at the end of the image. -/
theorem cut_inside {size start length : Nat} (hsize : 0 < size) (hstart : start ≤ size - 1)
    (hlength : 0 < length) :
    0 < (if start + length > size then size - start else length) ∧
      start + (if start + length > size then size - start else length) ≤ size := by
  split <;> omega

theorem FaceBox.FitsI32.crop {b : FaceBox} (h : b.FitsI32) (imgW imgH : Nat) :
    min (max b.x 0).toNat (imgW - 1) + (max b.width 1).toNat < 2 ^ 32 ∧
      min (max b.y 0).toNat (imgH - 1) + (max b.height 1).toNat < 2 ^ 32 := by
  have hx := h b.x (by simp)
  have hy := h b.y (by simp)
  have hw := h b.width (by simp)
  have hh := h b.height (by simp)
  omega

/-- Every box of `i32`s is cut to a rectangle inside the image. -/
theorem cropRectangle_inside {imgW imgH : Nat} {b : FaceBox} (hw : 0 < imgW) (hh : 0 < imgH)
    (hb : b.FitsI32) : ∃ r, cropRectangle imgW imgH b = some r ∧ r.Inside imgW imgH := by
  obtain ⟨hright, hbottom⟩ := hb.crop imgW imgH
  have hx : min (max b.x 0).toNat (imgW - 1) ≤ imgW - 1 := Nat.min_le_right _ _
  have hy : min (max b.y 0).toNat (imgH - 1) ≤ imgH - 1 := Nat.min_le_right _ _
  have hwidth : 0 < (max b.width 1).toNat := by omega
  have hheight : 0 < (max b.height 1).toNat := by omega
  obtain ⟨hcutW, hinW⟩ := cut_inside hw hx hwidth
  obtain ⟨hcutH, hinH⟩ := cut_inside hh hy hheight
  unfold cropRectangle
  simp only [checkedUint_of_lt hright, checkedUint_of_lt hbottom, Option.bind_eq_bind,
    Option.bind_some]
  rw [if_neg (by omega)]
  exact ⟨_, rfl, ⟨hcutW, hcutH⟩, hinW, hinH⟩

/-- The face is cut out at that rectangle. -/
theorem cropFace_eq {Img : Type} (ops : ImageOps Img) (img : Img) {b : FaceBox} (hb : b.FitsI32) :
    cropFace ops img b = (cropRectangle (ops.width img) (ops.height img) b).map fun r =>
      ops.view r.x r.y r.width r.height img := by
  obtain ⟨hright, hbottom⟩ := hb.crop (ops.width img) (ops.height img)
  unfold cropFace cropRectangle
  simp only [checkedUint_of_lt hright, checkedUint_of_lt hbottom, Option.bind_eq_bind,
    Option.bind_some]
  rw [apply_ite (Option.map _)]
  rfl

/-- The shorter side, scaled with the longer one, is a side exactly where it is not 0. -/
theorem scaled_side_iff {short long maxDimension : Nat} (hlong : 0 < long) (hle : short ≤ long) :
    ((1 ≤ maxDimension ∧ maxDimension ≤ maxDimension) ∧
        1 ≤ short * maxDimension / long ∧ short * maxDimension / long ≤ maxDimension) ↔
      long ≤ short * maxDimension := by
  have hscaled : short * maxDimension / long ≤ maxDimension :=
    Nat.div_le_of_le_mul (Nat.mul_le_mul_right maxDimension hle)
  have hpos : 1 ≤ short * maxDimension / long ↔ long ≤ short * maxDimension :=
    Nat.div_pos_iff.trans (and_iff_right hlong)
  rw [hpos]
  constructor
  · exact fun h => h.2.1
  · intro h
    have hmax : 0 < maxDimension := Nat.pos_of_mul_pos_left (hlong.trans_le h)
    exact ⟨⟨hmax, le_rfl⟩, h, hscaled⟩

theorem thumbnailFits_iff (width height maxDimension : Nat) (hw : 0 < width) (hh : 0 < height) :
    ThumbnailFits width height maxDimension ↔
      min width height * maxDimension < 2 ^ 32 ∧
        max width height ≤ min width height * maxDimension := by
  unfold ThumbnailFits thumbnailDimensions
  by_cases hwide : width > height
  · rw [Nat.min_eq_right hwide.le, Nat.max_eq_left hwide.le, if_pos hwide,
      exists_checkedUint_map, scaled_side_iff hw hwide.le]
  · have hle : width ≤ height := by omega
    rw [Nat.min_eq_left hle, Nat.max_eq_right hle, if_neg hwide, exists_checkedUint_map,
      and_comm (b := 1 ≤ maxDimension ∧ _), scaled_side_iff hh hle]

/-- The sizes of both thumbnails are right exactly where the shorter side, scaled, neither
overflows nor vanishes. -/
theorem thumbnail_sizes_iff {width height maxDimension : Nat} {b : FaceBox} (hw : 0 < width)
    (hh : 0 < height) (hb : b.FitsI32) :
    (ThumbnailFits width height maxDimension ∧
        ∃ r, cropRectangle width height b = some r ∧ r.Inside width height) ↔
      min width height * maxDimension < 2 ^ 32 ∧
        max width height ≤ min width height * maxDimension := by
  rw [thumbnailFits_iff width height maxDimension hw hh]
  exact and_iff_left (cropRectangle_inside hw hh hb)

theorem thumbnail_sizes_square :
    (ThumbnailFits 4000 3000 500 ∧
        ∃ r, cropRectangle 4000 3000 ⟨-5, 2990, 100, 100⟩ = some r ∧ r.Inside 4000 3000) ↔
      min 4000 3000 * 500 < 2 ^ 32 ∧ max 4000 3000 ≤ min 4000 3000 * 500 :=
  thumbnail_sizes_iff (by decide) (by decide) (by decide)

/-- A line of pixels has a thumbnail of height 0. -/
theorem line_thumbnail_empty :
    thumbnailDimensions 501 1 500 = some (500, 0) ∧ ¬ThumbnailFits 501 1 500 := by
  refine ⟨by decide, ?_⟩
  rintro ⟨dims, hdims, -, hheight, -⟩
  cases Option.some.inj hdims
  exact absurd hheight (by decide)

end Reminisce
