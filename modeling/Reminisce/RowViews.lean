import Reminisce.Possession

namespace Reminisce

/-- A view of the tables that keeps all rows of some owners. -/
def byOwner (view : UserId → String → Bool) (row : LibraryRow) : Bool := view row.userId row.hash

variable {view : UserId → String → Bool} {userId : UserId} {hash : String}

theorem byOwner_of_isOf {row : LibraryRow} (h : row.isOf userId hash = true) :
    byOwner view row = view userId hash := by
  obtain ⟨huser, hhash⟩ := LibraryRow.isOf_iff.mp h
  rw [byOwner, huser, hhash]

/-- A view commutes with a change that leaves the owners alone. -/
theorem filter_map_byOwner {change : LibraryRow → LibraryRow} (rows : List LibraryRow)
    (h : ∀ row, byOwner view (change row) = byOwner view row) :
    (rows.map change).filter (byOwner view) = (rows.filter (byOwner view)).map change := by
  rw [List.filter_map]
  exact congrArg _ (List.filter_congr fun row _ => h row)

theorem filter_updateRows {where_ : LibraryRow → Bool} {change : LibraryRow → LibraryRow}
    (rows : List LibraryRow) (h : ∀ row, (change row).owner = row.owner) :
    (updateRows userId hash where_ change rows).filter (byOwner view) =
      updateRows userId hash where_ change (rows.filter (byOwner view)) := by
  refine filter_map_byOwner rows fun row => ?_
  split
  next =>
    have howner := h row
    simp only [LibraryRow.owner, Prod.mk.injEq] at howner
    rw [byOwner, howner.1, howner.2, byOwner]
  next => rfl

/-- An update of an owner outside the view is not seen. -/
theorem filter_updateRows_outside {where_ : LibraryRow → Bool} {change : LibraryRow → LibraryRow}
    (rows : List LibraryRow) (h : ∀ row, (change row).owner = row.owner)
    (hout : view userId hash = false) :
    (updateRows userId hash where_ change rows).filter (byOwner view) =
      rows.filter (byOwner view) := by
  rw [filter_updateRows rows h]
  unfold updateRows
  refine (List.map_congr_left fun row hrow => ?_).trans (List.map_id _)
  have hin := (List.mem_filter.mp hrow).2
  have hnot : row.isOf userId hash = false := by
    refine Bool.eq_false_iff.mpr fun hkey => ?_
    rw [byOwner_of_isOf hkey, hout] at hin
    simp at hin
  simp [hnot]

theorem any_filter_byOwner (rows : List LibraryRow) (hin : view userId hash = true) :
    (rows.filter (byOwner view)).any (·.isOf userId hash) = rows.any (·.isOf userId hash) := by
  rw [List.any_filter]
  congr 1
  funext row
  cases hkey : row.isOf userId hash with
  | true => rw [byOwner_of_isOf hkey, hin]; rfl
  | false => exact Bool.and_false _

theorem filter_insertRow {new : LibraryRow} {onConflict : LibraryRow → LibraryRow}
    (rows : List LibraryRow) (h : ∀ row, (onConflict row).owner = row.owner)
    (hin : view new.userId new.hash = true) :
    (insertRow new onConflict rows).filter (byOwner view) =
      insertRow new onConflict (rows.filter (byOwner view)) := by
  unfold insertRow
  rw [any_filter_byOwner rows hin]
  split
  next =>
    refine filter_map_byOwner rows fun row => ?_
    split
    next =>
      have howner := h row
      simp only [LibraryRow.owner, Prod.mk.injEq] at howner
      rw [byOwner, howner.1, howner.2, byOwner]
    next => rfl
  next =>
    have hnew : byOwner view new = true := hin
    rw [List.filter_append, List.filter_cons_of_pos hnew]
    rfl

theorem filter_insertRow_outside {new : LibraryRow} {onConflict : LibraryRow → LibraryRow}
    (rows : List LibraryRow) (h : ∀ row, (onConflict row).owner = row.owner)
    (hout : view new.userId new.hash = false) :
    (insertRow new onConflict rows).filter (byOwner view) = rows.filter (byOwner view) := by
  unfold insertRow
  split
  next =>
    have hupdate := @filter_updateRows_outside view new.userId new.hash (fun _ => true) onConflict
      rows h hout
    simpa [updateRows] using hupdate
  next =>
    have hnew : byOwner view new = false := hout
    rw [List.filter_append, List.filter_cons_of_neg (by simp [hnew])]
    simp

theorem find_filter_byOwner (rows : List LibraryRow) (hin : view userId hash = true)
    (cond : LibraryRow → Bool) :
    ((rows.filter (byOwner view)).find? fun row => row.isOf userId hash && cond row) =
      rows.find? fun row => row.isOf userId hash && cond row := by
  rw [List.find?_filter]
  congr 1
  funext row
  cases hkey : row.isOf userId hash with
  | true => rw [byOwner_of_isOf hkey, hin]; simp
  | false => simp

/-- The owner's live row is the same in every view that keeps it. -/
theorem liveRow_congr {rows rows' : List LibraryRow} (hin : view userId hash = true)
    (h : rows.filter (byOwner view) = rows'.filter (byOwner view)) :
    liveRow rows userId hash = liveRow rows' userId hash := by
  unfold liveRow
  rw [← find_filter_byOwner rows hin, ← find_filter_byOwner rows' hin, h]

theorem filter_resetThumbnailRows (rows : List LibraryRow) :
    (resetThumbnailRows hash rows).filter (byOwner view) =
      resetThumbnailRows hash (rows.filter (byOwner view)) := by
  refine filter_map_byOwner rows fun row => ?_
  split <;> rfl

end Reminisce
