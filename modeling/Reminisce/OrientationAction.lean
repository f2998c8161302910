import Reminisce.FaceThumbnails
import Reminisce.Library.Rasters

namespace Reminisce

open Rasters

/-- The image library with the pixels of its images, and what its operations do to them. -/
structure PixelOps (Img Pixel : Type) extends ImageOps Img where
  pixels : Img → Raster Pixel
  width_eq : ∀ img, width img = (pixels img).width
  height_eq : ∀ img, height img = (pixels img).height
  pixels_fliph : ∀ img, pixels (fliph img) = (pixels img).fliph
  pixels_flipv : ∀ img, pixels (flipv img) = (pixels img).flipv
  pixels_rotate90 : ∀ img, pixels (rotate90 img) = (pixels img).rotate90
  pixels_rotate180 : ∀ img, pixels (rotate180 img) = (pixels img).rotate180
  pixels_rotate270 : ∀ img, pixels (rotate270 img) = (pixels img).rotate270

/-- The operations on images that are their pixels. -/
def rasterOps (Pixel : Type) : PixelOps (Raster Pixel) Pixel where
  fliph := Raster.fliph
  flipv := Raster.flipv
  rotate90 := Raster.rotate90
  rotate180 := Raster.rotate180
  rotate270 := Raster.rotate270
  width := Raster.width
  height := Raster.height
  view := Raster.view
  pixels img := img
  width_eq _ := rfl
  height_eq _ := rfl
  pixels_fliph _ := rfl
  pixels_flipv _ := rfl
  pixels_rotate90 _ := rfl
  pixels_rotate180 _ := rfl
  pixels_rotate270 _ := rfl

/-- The image as a stored orientation shows it. -/
def displayed {Img : Type} (ops : ImageOps Img) (img : Img) (stored : Option Int) : Img :=
  applyOrientationToImage ops img (detectionOrientation stored)

/-- `effective_dimensions`. -/
def effectiveDimensions (width height : Option Int) (orientation : Option Int) :
    Option (Int × Int) :=
  match width, height with
  | some w, some h =>
    if 0 < w ∧ 0 < h then
      if ∃ o ∈ orientation, 5 ≤ o ∧ o ≤ 8 then some (h, w) else some (w, h)
    else none
  | _, _ => none

/-- An image turned by a request. -/
def Rotation.turn {Img : Type} (ops : ImageOps Img) : Rotation → Img → Img
  | .cw => ops.rotate90
  | .ccw => ops.rotate270
  | .half => ops.rotate180

/-- The orientation after rotations, one stored after the other. -/
def rotatedOrientation (rotations : List Rotation) (stored : Option Int) : Option Int :=
  rotations.foldl (fun current rotation => some (rotation.apply current)) stored

/-- What an orientation does to an image, as a symmetry. -/
def orientationSymmetry (stored : Option Int) : DihedralGroup 4 :=
  match stored.getD 1 with
  | 2 => .sr 0
  | 3 => .r 2
  | 4 => .sr 2
  | 5 => .sr 1
  | 6 => .r 1
  | 7 => .sr 3
  | 8 => .r 3
  | _ => .r 0

def Rotation.symmetry : Rotation → DihedralGroup 4
  | .cw => .r 1
  | .ccw => .r 3
  | .half => .r 2

/-- A stored orientation fits into an `i16`. -/
def FitsI16 (o : Int) : Prop := -2 ^ 15 ≤ o ∧ o < 2 ^ 15

instance (o : Int) : Decidable (FitsI16 o) := inferInstanceAs (Decidable (_ ∧ _))

/-- An orientation outside 1 to 8 counts as upright in every table. -/
theorem orientation_cases (stored : Option Int) :
    (∃ o, stored.getD 1 = o ∧ 2 ≤ o ∧ o ≤ 8) ∨
      (orientationSymmetry stored = .r 0 ∧ rotateOrientationCw stored = 6 ∧
        rotateOrientationCcw stored = 8 ∧ rotateOrientation180 stored = 3) := by
  by_cases h : 2 ≤ stored.getD 1 ∧ stored.getD 1 ≤ 8
  · exact Or.inl ⟨_, rfl, h⟩
  · refine Or.inr ⟨?_, ?_, ?_, ?_⟩
    · unfold orientationSymmetry
      split <;> first | rfl | omega
    · unfold rotateOrientationCw
      split <;> first | rfl | omega
    · unfold rotateOrientationCcw
      split <;> first | rfl | omega
    · unfold rotateOrientation180
      split <;> first | rfl | omega

/-- The three tables multiply by a turn. -/
theorem Rotation.symmetry_apply (rotation : Rotation) (stored : Option Int) :
    orientationSymmetry (some (rotation.apply stored)) =
      rotation.symmetry * orientationSymmetry stored := by
  rcases orientation_cases stored with ⟨o, ho, hlow, hhigh⟩ | ⟨hupright, hcw, hccw, hhalf⟩
  · have hsym : orientationSymmetry stored = orientationSymmetry (some o) := by
      simp [orientationSymmetry, ho]
    have happly : rotation.apply stored = rotation.apply (some o) := by
      cases rotation <;>
        simp [Rotation.apply, rotateOrientationCw, rotateOrientationCcw, rotateOrientation180, ho]
    rw [hsym, happly]
    clear hsym happly ho
    cases rotation <;> interval_cases o <;> decide
  · rw [hupright]
    cases rotation with
    | cw => rw [Rotation.apply, hcw]; decide
    | ccw => rw [Rotation.apply, hccw]; decide
    | half => rw [Rotation.apply, hhalf]; decide

theorem orientationSymmetry_rotated (rotations : List Rotation) (stored : Option Int) :
    orientationSymmetry (rotatedOrientation rotations stored) =
      rotations.foldl (fun symmetry rotation => rotation.symmetry * symmetry)
        (orientationSymmetry stored) := by
  induction rotations generalizing stored with
  | nil => rfl
  | cons rotation rest ih =>
    have hrest : orientationSymmetry (rotatedOrientation (rotation :: rest) stored) =
        orientationSymmetry (rotatedOrientation rest (some (rotation.apply stored))) := rfl
    rw [hrest, ih, rotation.symmetry_apply, List.foldl_cons]

theorem fitsI16_apply (rotation : Rotation) (stored : Option Int) :
    FitsI16 (rotation.apply stored) := by
  have hvalid := rotation.apply_valid stored
  unfold ValidOrientation at hvalid
  unfold FitsI16
  omega

theorem fitsI16_rotated (rotations : List Rotation) {stored : Option Int}
    (h : ∀ o ∈ stored, FitsI16 o) : ∀ o ∈ rotatedOrientation rotations stored, FitsI16 o := by
  induction rotations generalizing stored with
  | nil => exact h
  | cons rotation rest ih =>
    refine ih fun o ho => ?_
    rw [Option.mem_some_iff] at ho
    exact ho ▸ fitsI16_apply rotation stored

section

variable {Img Pixel : Type} (ops : PixelOps Img Pixel)

theorem pixels_turn (rotation : Rotation) (img : Img) :
    ops.pixels (rotation.turn ops.toImageOps img) = rotation.symmetry • ops.pixels img := by
  cases rotation with
  | cw => exact ops.pixels_rotate90 img
  | ccw =>
    rw [Rotation.turn, ops.pixels_rotate270, Raster.rotate270_eq]
    rfl
  | half => exact ops.pixels_rotate180 img

/-- Rotating an image by requests multiplies the symmetry that shows it. -/
theorem pixels_turns (rotations : List Rotation) {img shown : Img} {symmetry : DihedralGroup 4}
    (h : ops.pixels shown = symmetry • ops.pixels img) :
    ops.pixels (rotations.foldl (fun img rotation => rotation.turn ops.toImageOps img) shown) =
      rotations.foldl (fun symmetry rotation => rotation.symmetry * symmetry) symmetry •
        ops.pixels img := by
  induction rotations generalizing shown symmetry with
  | nil => exact h
  | cons rotation rest ih =>
    have hturn : ops.pixels (rotation.turn ops.toImageOps shown) =
        (rotation.symmetry * symmetry) • ops.pixels img := by
      rw [pixels_turn, h, mul_smul]
    exact ih hturn

/-- The turn for an orientation that fits into an `i16` shows its symmetry. -/
theorem imageTurn_asU16 {o : Int} (h : FitsI16 o) (hout : ¬(2 ≤ o ∧ o ≤ 8)) :
    imageTurn (asU16 o) = .none := by
  have hlarge : asU16 o < 2 ∨ 8 < asU16 o := by
    unfold FitsI16 at h
    unfold asU16
    omega
  unfold imageTurn
  split <;> first | rfl | omega

theorem pixels_displayed {stored : Option Int} (h : ∀ o ∈ stored, FitsI16 o) (img : Img) :
    ops.pixels (displayed ops.toImageOps img stored) =
      orientationSymmetry stored • ops.pixels img := by
  have hfits : FitsI16 (stored.getD 1) := by
    cases stored with
    | none => decide
    | some o => exact h o rfl
  unfold displayed applyOrientationToImage detectionOrientation orientationSymmetry
  generalize stored.getD 1 = o at hfits ⊢
  by_cases hin : 2 ≤ o ∧ o ≤ 8
  · obtain ⟨hlow, hhigh⟩ := hin
    interval_cases o
    · exact ops.pixels_fliph img
    · exact ops.pixels_rotate180 img
    · exact (ops.pixels_flipv img).trans (ops.pixels img).flipv_eq
    · exact (ops.pixels_fliph _).trans (congrArg Raster.fliph (ops.pixels_rotate90 img))
    · exact ops.pixels_rotate90 img
    · refine (ops.pixels_fliph _).trans (congrArg Raster.fliph ?_)
      exact (ops.pixels_rotate270 img).trans (ops.pixels img).rotate270_eq
    · exact (ops.pixels_rotate270 img).trans (ops.pixels img).rotate270_eq
  · rw [imageTurn_asU16 hfits hin]
    split <;> first | rfl | omega

/-- The dimensions that are told are those of the image as it is shown. -/
theorem effectiveDimensions_displayed {stored : Option Int} (h : ∀ o ∈ stored, FitsI16 o)
    (img : Img) :
    effectiveDimensions (some (ops.width img)) (some (ops.height img)) stored =
      some ((ops.width (displayed ops.toImageOps img stored) : Int),
        (ops.height (displayed ops.toImageOps img stored) : Int)) := by
  have hw := (ops.pixels img).width_pos
  have hh := (ops.pixels img).height_pos
  have hswap : (∃ o ∈ stored, 5 ≤ o ∧ o ≤ 8) ↔ 5 ≤ stored.getD 1 ∧ stored.getD 1 ≤ 8 := by
    cases stored <;> simp
  simp only [ops.width_eq, ops.height_eq, pixels_displayed ops h img, effectiveDimensions,
    Int.natCast_pos, hw, hh, and_self, ↓reduceIte, hswap]
  unfold orientationSymmetry
  generalize stored.getD 1 = o
  by_cases hin : 2 ≤ o ∧ o ≤ 8
  · obtain ⟨hlow, hhigh⟩ := hin
    interval_cases o <;> rfl
  · rw [if_neg (by omega)]
    split <;> first | rfl | omega

/-- The orientation of a row acts as the rotations that were asked for. -/
theorem displayed_rotated {stored : Option Int} (h : ∀ o ∈ stored, FitsI16 o) (img : Img)
    (rotations : List Rotation) :
    ops.pixels (displayed ops.toImageOps img (rotatedOrientation rotations stored)) =
        ops.pixels (rotations.foldl (fun img rotation => rotation.turn ops.toImageOps img)
          (displayed ops.toImageOps img stored)) ∧
      effectiveDimensions (some (ops.width img)) (some (ops.height img)) stored =
        some ((ops.width (displayed ops.toImageOps img stored) : Int),
          (ops.height (displayed ops.toImageOps img stored) : Int)) := by
  refine ⟨?_, effectiveDimensions_displayed ops h img⟩
  rw [pixels_displayed ops (fitsI16_rotated rotations h), orientationSymmetry_rotated,
    pixels_turns ops rotations (pixels_displayed ops h img)]

end

/-- Two pixels side by side. -/
def pixelPair : Raster Nat := ⟨2, 1, Nat.two_pos, Nat.one_pos, fun x _ => x⟩

/-- A mirrored image, turned twice. -/
theorem displayed_rotated_mirrored :
    displayed (rasterOps Nat).toImageOps pixelPair (rotatedOrientation [.cw, .half] (some 7)) =
        pixelPair.rotate270.fliph.rotate90.rotate180 ∧
      effectiveDimensions (some 2) (some 1) (some 7) = some (1, 2) :=
  @displayed_rotated _ _ (rasterOps Nat) (some 7) (by decide) pixelPair [.cw, .half]

end Reminisce
