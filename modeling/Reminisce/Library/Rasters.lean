import Mathlib.GroupTheory.SpecificGroups.Dihedral
import Mathlib.Dynamics.PeriodicPts.Lemmas

namespace Rasters

/-- Pixels in rows and columns. -/
@[ext] structure Raster (Pixel : Type) where
  width : Nat
  height : Nat
  width_pos : 0 < width
  height_pos : 0 < height
  pixel : Fin width → Fin height → Pixel

namespace Raster

variable {Pixel : Type} (img : Raster Pixel)

/-- A quarter turn clockwise. -/
def rotate90 : Raster Pixel :=
  ⟨img.height, img.width, img.height_pos, img.width_pos, fun x y => img.pixel y x.rev⟩

def rotate180 : Raster Pixel :=
  ⟨img.width, img.height, img.width_pos, img.height_pos, fun x y => img.pixel x.rev y.rev⟩

def rotate270 : Raster Pixel :=
  ⟨img.height, img.width, img.height_pos, img.width_pos, fun x y => img.pixel y.rev x⟩

def fliph : Raster Pixel :=
  ⟨img.width, img.height, img.width_pos, img.height_pos, fun x y => img.pixel x.rev y⟩

def flipv : Raster Pixel :=
  ⟨img.width, img.height, img.width_pos, img.height_pos, fun x y => img.pixel x y.rev⟩

/-- The part of an image in a frame that lies inside it. -/
def view (x y w h : Nat) (img : Raster Pixel) : Raster Pixel :=
  if inside : (0 < w ∧ 0 < h) ∧ x + w ≤ img.width ∧ y + h ≤ img.height then
    ⟨w, h, inside.1.1, inside.1.2, fun i j =>
      img.pixel ⟨x + i, by have hi := i.isLt; omega⟩ ⟨y + j, by have hj := j.isLt; omega⟩⟩
  else img

theorem rotate270_eq : img.rotate270 = img.rotate90.rotate90.rotate90 := by
  simp [rotate270, rotate90]

theorem flipv_eq : img.flipv = img.rotate90.rotate90.fliph := by
  simp [flipv, rotate90, fliph]

theorem fliph_fliph : img.fliph.fliph = img := by
  simp [fliph]

theorem rotate90_four : img.rotate90.rotate90.rotate90.rotate90 = img := by
  simp [rotate90]

/-- A turn behind a mirror is a turn the other way. -/
theorem rotate90_fliph : img.fliph.rotate90 = img.rotate270.fliph := by
  simp [rotate90, rotate270, fliph]

def turn (n : Nat) (img : Raster Pixel) : Raster Pixel := rotate90^[n] img

@[simp] theorem turn_zero : turn 0 img = img := rfl

theorem turn_succ (n : Nat) : turn (n + 1) img = (turn n img).rotate90 :=
  Function.iterate_succ_apply' rotate90 n img

theorem turn_add (m n : Nat) : turn (m + n) img = turn m (turn n img) :=
  Function.iterate_add_apply rotate90 m n img

theorem turn_mod (n : Nat) : turn (n % 4) img = turn n img := by
  have hperiod : Function.IsPeriodicPt rotate90 4 img := img.rotate90_four
  exact hperiod.iterate_mod_apply n

theorem turn_fliph (n : Nat) : turn n img.fliph = (turn (3 * n) img).fliph := by
  induction n with
  | zero => rfl
  | succ n ih =>
    have hthree : 3 * (n + 1) = 3 + 3 * n := by omega
    rw [turn_succ, ih, rotate90_fliph, rotate270_eq, hthree, turn_add]
    rfl

/-- The symmetries of a rectangle's frame: turns, and turns with a mirror behind them. -/
def transform : DihedralGroup 4 → Raster Pixel → Raster Pixel
  | .r i, img => turn i.val img
  | .sr i, img => (turn i.val img).fliph

theorem transform_r (i : ZMod 4) : transform (.r i) img = turn i.val img := rfl

theorem transform_sr (i : ZMod 4) : transform (.sr i) img = (turn i.val img).fliph := rfl

theorem turn_val_add (i j : ZMod 4) : turn (i + j).val img = turn i.val (turn j.val img) := by
  rw [ZMod.val_add, turn_mod, turn_add]

theorem turn_val_sub (i j : ZMod 4) : turn (j - i).val img = turn (3 * i.val) (turn j.val img) := by
  have hval : ∀ i j : ZMod 4, (j - i).val = (3 * i.val + j.val) % 4 := by decide
  rw [hval, turn_mod, turn_add]

instance : MulAction (DihedralGroup 4) (Raster Pixel) where
  smul := transform
  one_smul img := img.turn_zero
  mul_smul g h img := by
    change transform (g * h) img = transform g (transform h img)
    cases g with
    | r i =>
      cases h with
      | r j => rw [DihedralGroup.r_mul_r, transform_r, transform_r, transform_r, turn_val_add]
      | sr j =>
        rw [DihedralGroup.r_mul_sr, transform_sr, transform_sr, transform_r, turn_val_sub,
          turn_fliph]
    | sr i =>
      cases h with
      | r j => rw [DihedralGroup.sr_mul_r, transform_sr, transform_sr, transform_r, turn_val_add]
      | sr j =>
        rw [DihedralGroup.sr_mul_sr, transform_r, transform_sr, transform_sr, turn_val_sub,
          turn_fliph, fliph_fliph]

end Raster

end Rasters
