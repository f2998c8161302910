import Mathlib.Data.List.Find
import Reminisce.ExifTrees

namespace Reminisce

open ByteOrder Results

section Windows

variable {bytes bytes' tiff rest : Bytes} {endian endian' : Order} {e4 p w m : Nat} {ms : List Nat}

theorem length_window (h : p + w ≤ bytes.length) : (window bytes p w).length = w := by
  rw [window, List.length_take, List.length_drop]
  omega

/-- Bytes are the same where their numbers are. -/
theorem window_eq_of_number {p' : Nat}
    (h : numberAt bytes' .little w p' = numberAt bytes .little w p)
    (hp' : p' + w ≤ bytes'.length) (hp : p + w ≤ bytes.length) :
    window bytes' p' w = window bytes p w :=
  calc window bytes' p' w
      = Order.little.encode (window bytes' p' w).length (numberAt bytes' .little w p') :=
        (Order.encode_decode .little _).symm
    _ = Order.little.encode (window bytes p w).length (numberAt bytes .little w p) := by
        rw [length_window hp', length_window hp, h]
    _ = window bytes p w := Order.encode_decode .little _

/-- A pointer that is moved keeps the length. -/
theorem length_movedOnce (h : rest.length + e4 = tiff.length) (hmoves : MovesAt tiff endian e4 m) :
    m - e4 + (endian.encode 4 (numberAt tiff endian 4 m + 12)).length ≤ rest.length ∧
      (overwrite rest (m - e4) (endian.encode 4 (numberAt tiff endian 4 m + 12))).length + e4 =
        tiff.length := by
  have hencode := endian.length_encode 4 (numberAt tiff endian 4 m + 12)
  obtain ⟨⟨hm, hm'⟩, -⟩ := hmoves
  have hfits : m - e4 + (endian.encode 4 (numberAt tiff endian 4 m + 12)).length ≤ rest.length := by
    omega
  exact ⟨hfits, (length_overwrite hfits).symm ▸ h⟩

/-- What lies apart from the moved pointers is not changed. -/
theorem numberAt_movedRest (h : rest.length + e4 = tiff.length) (hp : e4 ≤ p)
    (hapart : ∀ m ∈ ms, MovesAt tiff endian e4 m → p + w ≤ m ∨ m + 4 ≤ p) :
    numberAt (movedRest tiff endian e4 ms rest) endian' w (p - e4) =
      numberAt rest endian' w (p - e4) := by
  induction ms generalizing rest with
  | nil => rfl
  | cons m ms ih =>
    have hms := fun k hk => hapart k (List.mem_cons_of_mem m hk)
    rw [movedRest]
    split
    next hmoves =>
      obtain ⟨hfits, hlen⟩ := length_movedOnce h hmoves
      have hencode := endian.length_encode 4 (numberAt tiff endian 4 m + 12)
      have hm := hmoves.1.1
      rw [ih hlen hms]
      refine numberAt_overwrite hfits ?_
      rcases hapart m List.mem_cons_self hmoves with hlt | hle
      · left
        omega
      · right
        omega
    next => exact ih h hms

/-- A moved pointer is moved once, however often it is marked. -/
theorem numberAt_movedRest_mark (h : rest.length + e4 = tiff.length) (hm : m ∈ ms)
    (hmoves : MovesAt tiff endian e4 m) (hshort : tiff.length < 2 ^ 32)
    (hapart : ∀ k ∈ ms, MovesAt tiff endian e4 k → k = m ∨ m + 4 ≤ k ∨ k + 4 ≤ m) :
    numberAt (movedRest tiff endian e4 ms rest) endian 4 (m - e4) =
      numberAt tiff endian 4 m + 12 := by
  induction ms generalizing rest with
  | nil => cases hm
  | cons m' ms ih =>
    have hms := fun k hk => hapart k (List.mem_cons_of_mem m' hk)
    by_cases hin : m ∈ ms
    · rw [movedRest]
      refine ih ?_ hin hms
      split
      next hmoves' => exact (length_movedOnce h hmoves').2
      next => exact h
    · obtain rfl : m = m' := by simpa [hin] using hm
      obtain ⟨hfits, hlen⟩ := length_movedOnce h hmoves
      have hold := hmoves.2.2
      have hencode := endian.length_encode 4 (numberAt tiff endian 4 m + 12)
      rw [movedRest, if_pos hmoves, numberAt_movedRest hlen hmoves.1.1 fun k hk hk' => ?_]
      · exact numberAt_overwritten (by omega) (by omega)
      · rcases hms k hk hk' with rfl | hside
        · exact absurd hk hin
        · exact hside

end Windows

section Patched

variable {tiff : Bytes} {ifd0 : Ifd0 tiff} {marks : List Nat} {order : HashOrder}
  {orientation p w k m e field : Nat} {endian' : Order}

/-- Where the bytes of a position come to stand. -/
def Ifd0.moved (ifd0 : Ifd0 tiff) (p : Nat) : Nat :=
  if p < ifd0.entriesEnd + 4 then p else p + 12

theorem Ifd0.off_lt (ifd0 : Ifd0 tiff) : ifd0.off + 2 ≤ ifd0.entriesEnd := by
  rw [Ifd0.entriesEnd]
  omega

theorem moved_before (h : p < ifd0.entriesEnd + 4) : ifd0.moved p = p := if_pos h

theorem moved_behind (h : ifd0.entriesEnd + 4 ≤ p) : ifd0.moved p = p + 12 :=
  if_neg (Nat.not_lt.mpr h)

theorem moved_add (h : p + k < ifd0.entriesEnd + 4 ∨ ifd0.entriesEnd + 4 ≤ p) :
    ifd0.moved (p + k) = ifd0.moved p + k := by
  unfold Ifd0.moved
  split <;> split <;> omega

theorem moved_le (p : Nat) : ifd0.moved p ≤ p + 12 := by
  unfold Ifd0.moved
  split <;> omega

theorem drop_patchedTiff_behind :
    (patchedTiff order ifd0 marks orientation).drop (ifd0.entriesEnd + 4 + 12) =
      movedRest tiff ifd0.endian (ifd0.entriesEnd + 4) (order.iterate marks)
        (tiff.drop (ifd0.entriesEnd + 4)) := by
  have hend := ifd0.entriesEnd_le
  have hentries : ifd0.entriesEnd = ifd0.off + 2 + ifd0.count * 12 := rfl
  rw [patchedTiff]
  refine List.drop_left' ?_
  simp only [List.length_append, List.length_take, Order.length_encode, length_movedEntries,
    length_orientationEntry]
  omega

theorem numberAt_behind (hp : ifd0.entriesEnd + 4 ≤ p) :
    numberAt (patchedTiff order ifd0 marks orientation) endian' w (p + 12) =
      numberAt (movedRest tiff ifd0.endian (ifd0.entriesEnd + 4) (order.iterate marks)
        (tiff.drop (ifd0.entriesEnd + 4))) endian' w (p - (ifd0.entriesEnd + 4)) := by
  have hpos : ifd0.entriesEnd + 4 + 12 + (p - (ifd0.entriesEnd + 4)) = p + 12 := by omega
  rw [numberAt, numberAt, ← @drop_patchedTiff_behind tiff ifd0 marks order orientation,
    List.drop_drop, hpos]

theorem length_rest (ifd0 : Ifd0 tiff) :
    (tiff.drop (ifd0.entriesEnd + 4)).length + (ifd0.entriesEnd + 4) = tiff.length := by
  have hend := ifd0.entriesEnd_le
  rw [List.length_drop]
  omega

/-- No pointer is moved within these bytes. -/
def Untouched (ifd0 : Ifd0 tiff) (marks : List Nat) (p w : Nat) : Prop :=
  ∀ m ∈ marks, MovesAt tiff ifd0.endian (ifd0.entriesEnd + 4) m → p + w ≤ m ∨ m + 4 ≤ p

theorem numberAt_moved (hfree : Untouched ifd0 marks p w)
    (hside : p + w ≤ ifd0.off ∨ ifd0.entriesEnd + 4 ≤ p) :
    numberAt (patchedTiff order ifd0 marks orientation) endian' w (ifd0.moved p) =
      numberAt tiff endian' w p := by
  rcases hside with hbefore | hbehind
  · have hoff := ifd0.off_lt
    rw [moved_before (by omega)]
    exact numberAt_of_take (take_patchedTiff ifd0 marks) hbefore
  · have hpos : ifd0.entriesEnd + 4 + (p - (ifd0.entriesEnd + 4)) = p := by omega
    rw [moved_behind hbehind, numberAt_behind hbehind,
      numberAt_movedRest (length_rest ifd0) hbehind
        fun m hm => hfree m ((order.perm marks).mem_iff.mp hm),
      numberAt, List.drop_drop, hpos]
    rfl

theorem window_moved (hfree : Untouched ifd0 marks p w)
    (hside : p + w ≤ ifd0.off ∨ ifd0.entriesEnd + 4 ≤ p) (hfits : p + w ≤ tiff.length) :
    window (patchedTiff order ifd0 marks orientation) (ifd0.moved p) w = window tiff p w := by
  refine window_eq_of_number (numberAt_moved hfree hside) ?_ hfits
  have hle := @moved_le tiff ifd0 p
  rw [length_patchedTiff]
  omega

theorem numberAt_mark (hm : m ∈ marks)
    (hmoves : MovesAt tiff ifd0.endian (ifd0.entriesEnd + 4) m) (hshort : tiff.length < 2 ^ 32)
    (hapart : ∀ k ∈ marks, MovesAt tiff ifd0.endian (ifd0.entriesEnd + 4) k →
      k = m ∨ m + 4 ≤ k ∨ k + 4 ≤ m) :
    numberAt (patchedTiff order ifd0 marks orientation) ifd0.endian 4 (m + 12) =
      numberAt tiff ifd0.endian 4 m + 12 := by
  rw [numberAt_behind hmoves.1.1]
  exact numberAt_movedRest_mark (length_rest ifd0) ((order.perm marks).mem_iff.mpr hm) hmoves hshort
    fun k hk => hapart k ((order.perm marks).mem_iff.mp hk)

/-- An entry of IFD0 that is not marked stays as it is. -/
theorem unmarked_entry (he : e ∈ ifd0.positions) (hm : e + 8 ∉ marks) (hfield : field + w ≤ 12) :
    numberAt (patchedTiff order ifd0 marks orientation) endian' w (e + field) =
      numberAt tiff endian' w (e + field) := by
  have hwithin := ifd0.entry_within he
  obtain ⟨i, hi, rfl⟩ := mem_entryPositions.mp he
  obtain ⟨rest, hrest⟩ := @drop_patchedEntry tiff orientation order ifd0 marks i hi
  have hlen := @length_movedEntry tiff ifd0.endian marks _ hwithin
  rw [numberAt_of_drop hrest (by omega), movedEntry, if_neg hm, List.drop_take, List.take_take,
    List.drop_drop, Nat.min_eq_left (by omega)]
  rfl

theorem marked_entry (he : e ∈ ifd0.positions) (hm : e + 8 ∈ marks)
    (hlt : numberAt tiff ifd0.endian 4 (e + 8) + 12 < 2 ^ 32) :
    numberAt (patchedTiff order ifd0 marks orientation) ifd0.endian 4 (e + 8) =
      numberAt tiff ifd0.endian 4 (e + 8) + 12 := by
  have hwithin := ifd0.entry_within he
  obtain ⟨i, hi, rfl⟩ := mem_entryPositions.mp he
  obtain ⟨rest, hrest⟩ := @drop_patchedEntry tiff orientation order ifd0 marks i hi
  have hlen := @length_movedEntry tiff ifd0.endian marks _ hwithin
  have hencode := ifd0.endian.length_encode 4
    (numberAt tiff ifd0.endian 4 (ifd0.off + 2 + i * 12 + 8) + 12)
  have hfront : ((tiff.drop (ifd0.off + 2 + i * 12)).take 8).length = 8 := by
    rw [List.length_take, List.length_drop]
    omega
  rw [numberAt_of_drop hrest (by omega), movedEntry, if_pos hm, List.drop_left' hfront,
    List.take_of_length_le (by omega), Order.decode_encode (by omega)]

theorem next_patchedTiff (hlt : movedNext ifd0 marks < 2 ^ 32) :
    numberAt (patchedTiff order ifd0 marks orientation) ifd0.endian 4 (ifd0.entriesEnd + 12) =
      movedNext ifd0 marks := by
  have hend := ifd0.entriesEnd_le
  have hentries : ifd0.entriesEnd = ifd0.off + 2 + ifd0.count * 12 := rfl
  rw [patchedTiff]
  refine numberAt_append ?_ hlt
  simp only [List.length_append, List.length_take, Order.length_encode, length_movedEntries,
    length_orientationEntry]
  omega

end Patched

/-- The structure can be moved, and the marks are those of its walk. -/
structure Kept {tiff : Bytes} (ifd0 : Ifd0 tiff) (marks : List Nat) : Prop where
  read : ifd0.ReadFrom
  tree : WellFormedTree tiff ifd0.endian ifd0.off
  movable : Relocatable ifd0
  short : tiff.length + 12 < 2 ^ 32
  marks : ∀ m, m ∈ marks ↔ ∃ kind off,
    WalkedTable tiff ifd0.endian (ifd0.entriesEnd + 4) ifd0.off kind off ∧
      MarkedAt tiff ifd0.endian (ifd0.entriesEnd + 4) off m

namespace Kept

variable {tiff : Bytes} {ifd0 : Ifd0 tiff} {marks : List Nat} {order : HashOrder}
  {orientation p w k m e off off' field tag : Nat} {endian' : Order} {kind kind' : IfdKind}

theorem entriesAt_root (h : Kept ifd0 marks) :
    entriesAt tiff ifd0.endian ifd0.off = ifd0.positions := by
  rw [entriesAt, entryCount, h.read.entries]
  rfl

theorem nextField_root (h : Kept ifd0 marks) :
    nextField tiff ifd0.endian ifd0.off = ifd0.entriesEnd := by
  rw [nextField, entryCount, h.read.entries]
  rfl

/-- The other tables lie before IFD0 or behind it. -/
theorem side (h : Kept ifd0 marks) (hkind : kind ≠ .ifd0)
    (hoff : tableAt tiff ifd0.endian ifd0.off kind = some off) :
    tableEnd tiff ifd0.endian off ≤ ifd0.off ∨ ifd0.entriesEnd + 4 ≤ off := by
  have hapart : RangesApart off (tableEnd tiff ifd0.endian off) ifd0.off
      (tableEnd tiff ifd0.endian ifd0.off) :=
    h.tree.apart _ (mem_tablesOf.mpr hoff) _ root_mem hkind
  have hend : tableEnd tiff ifd0.endian ifd0.off = ifd0.entriesEnd + 4 := by
    rw [tableEnd, h.nextField_root]
  rw [hend] at hapart
  exact hapart

theorem entry_side (h : Kept ifd0 marks)
    (hoff : tableAt tiff ifd0.endian ifd0.off kind = some off)
    (he : e ∈ entriesAt tiff ifd0.endian off) :
    e + 12 < ifd0.entriesEnd + 4 ∨ ifd0.entriesEnd + 4 ≤ e := by
  obtain ⟨hlow, hhigh⟩ := entry_bounds he
  by_cases hkind : kind = .ifd0
  · subst hkind
    obtain rfl : ifd0.off = off := Option.some.inj hoff
    rw [h.nextField_root] at hhigh
    omega
  · have hside := h.side hkind hoff
    have hroot := ifd0.off_lt
    rw [tableEnd] at hside
    omega

theorem moved_entry (h : Kept ifd0 marks)
    (hoff : tableAt tiff ifd0.endian ifd0.off kind = some off)
    (he : e ∈ entriesAt tiff ifd0.endian off) (hk : k ≤ 12) :
    ifd0.moved (e + k) = ifd0.moved e + k := by
  have hside := h.entry_side hoff he
  exact moved_add (by omega)

theorem markedAt_bounds {e4 : Nat} (hm : MarkedAt tiff ifd0.endian e4 off m) :
    off + 2 ≤ m ∧ m + 4 ≤ tableEnd tiff ifd0.endian off := by
  rw [tableEnd]
  rcases hm with ⟨e, he, rfl, -⟩ | ⟨rfl, -⟩
  · obtain ⟨hlow, hhigh⟩ := entry_bounds he
    omega
  · rw [nextField]
    omega

/-- Tables that share bytes are the same. -/
theorem same_table (h : Kept ifd0 marks)
    (hoff : tableAt tiff ifd0.endian ifd0.off kind = some off)
    (hoff' : tableAt tiff ifd0.endian ifd0.off kind' = some off') (hlow : off ≤ p)
    (hhigh : p < tableEnd tiff ifd0.endian off) (hlow' : off' ≤ p)
    (hhigh' : p < tableEnd tiff ifd0.endian off') : kind = kind' ∧ off = off' := by
  have hkind : kind = kind' := by
    by_contra hne
    have hapart : RangesApart off (tableEnd tiff ifd0.endian off) off' (tableEnd tiff ifd0.endian off') :=
      h.tree.apart _ (mem_tablesOf.mpr hoff) _ (mem_tablesOf.mpr hoff') hne
    unfold RangesApart at hapart
    omega
  subst hkind
  exact ⟨rfl, Option.some.inj (hoff.symm.trans hoff')⟩

/-- What is known where an entry is marked. -/
theorem marked_pointer (h : Kept ifd0 marks)
    (hoff : tableAt tiff ifd0.endian ifd0.off kind = some off)
    (he : e ∈ entriesAt tiff ifd0.endian off) (hm : e + 8 ∈ marks) :
    ifd0.entriesEnd + 4 ≤ pointerAt tiff ifd0.endian e ∧ (4 < sizeAt tiff ifd0.endian e ∨
      (countAt tiff ifd0.endian e = 1 ∧ typAt tiff ifd0.endian e = 4) ∧
        IsSubIfd (tagAt tiff ifd0.endian e)) := by
  obtain ⟨kind', off', ⟨hoff', -, -⟩, hmarked⟩ := (h.marks _).mp hm
  obtain ⟨hlow, hhigh⟩ := entry_bounds he
  have hbounds := markedAt_bounds hmarked
  have hend : tableEnd tiff ifd0.endian off = nextField tiff ifd0.endian off + 4 := rfl
  obtain ⟨rfl, rfl⟩ := @same_table tiff ifd0 marks (e + 8) off off' kind kind' h hoff hoff'
    (by omega) (by omega) (by omega) (by omega)
  rcases hmarked with ⟨e', -, heq, ⟨hptr, -⟩, hlarge⟩ | ⟨heq, -⟩
  · obtain rfl : e = e' := by omega
    exact ⟨hptr, hlarge⟩
  · omega

/-- A pointer that is moved behind IFD0 is that of a large value or of a next table. -/
theorem moved_mark (h : Kept ifd0 marks) (hm : m ∈ marks)
    (hmoves : MovesAt tiff ifd0.endian (ifd0.entriesEnd + 4) m) :
    ∃ kind off, tableAt tiff ifd0.endian ifd0.off kind = some off ∧
      (off + 2 ≤ m ∧ m + 4 ≤ tableEnd tiff ifd0.endian off) ∧
      (m = nextField tiff ifd0.endian off ∨ ∃ e ∈ entriesAt tiff ifd0.endian off, m = e + 8 ∧
        4 < sizeAt tiff ifd0.endian e) := by
  obtain ⟨kind, off, ⟨hoff, -, -⟩, hmarked⟩ := (h.marks m).mp hm
  have hbounds := markedAt_bounds hmarked
  have hroot : kind ≠ .ifd0 := by
    rintro rfl
    obtain rfl : ifd0.off = off := Option.some.inj hoff
    have hle := hmoves.1.1
    rw [tableEnd, h.nextField_root] at hbounds
    omega
  refine ⟨kind, off, hoff, hbounds, ?_⟩
  rcases hmarked with ⟨e, he, rfl, -, hlarge | ⟨-, hsub⟩⟩ | ⟨rfl, -⟩
  · exact .inr ⟨e, he, rfl, hlarge⟩
  · exact absurd (h.tree.links_placed _ (mem_tablesOf.mpr hoff) e he hsub) hroot
  · exact .inl rfl

theorem moved_marks_apart (h : Kept ifd0 marks) (hm : m ∈ marks)
    (hmoves : MovesAt tiff ifd0.endian (ifd0.entriesEnd + 4) m) (hk : k ∈ marks)
    (hkmoves : MovesAt tiff ifd0.endian (ifd0.entriesEnd + 4) k) :
    k = m ∨ m + 4 ≤ k ∨ k + 4 ≤ m := by
  obtain ⟨kind, off, hoff, hbounds, hcases⟩ := h.moved_mark hm hmoves
  obtain ⟨kind', off', hoff', hbounds', hcases'⟩ := h.moved_mark hk hkmoves
  by_cases hsame : kind = kind'
  · subst hsame
    obtain rfl : off = off' := Option.some.inj (hoff.symm.trans hoff')
    rcases hcases with rfl | ⟨e, he, rfl, -⟩ <;> rcases hcases' with rfl | ⟨e', he', rfl, -⟩
    · exact .inl rfl
    · have hhigh := (entry_bounds he').2
      omega
    · have hhigh := (entry_bounds he).2
      omega
    · by_cases hee : e = e'
      · exact .inl (hee ▸ rfl)
      · have hee := entries_apart he he' hee
        omega
  · have hapart : RangesApart off (tableEnd tiff ifd0.endian off) off' (tableEnd tiff ifd0.endian off') :=
      h.tree.apart _ (mem_tablesOf.mpr hoff) _ (mem_tablesOf.mpr hoff') hsame
    unfold RangesApart at hapart
    omega

/-- Bytes apart from every table. -/
theorem untouched_outside (h : Kept ifd0 marks) (hout : ∀ kind off,
    tableAt tiff ifd0.endian ifd0.off kind = some off →
      RangesApart p (p + w) off (tableEnd tiff ifd0.endian off)) : Untouched ifd0 marks p w := by
  intro m hm hmoves
  obtain ⟨kind, off, hoff, hbounds, -⟩ := h.moved_mark hm hmoves
  have hapart := hout kind off hoff
  unfold RangesApart at hapart
  omega

/-- The bytes of a table but for its moved pointers. -/
theorem untouched_within (h : Kept ifd0 marks)
    (hoff : tableAt tiff ifd0.endian ifd0.off kind = some off) (hlow : off ≤ p)
    (hhigh : p + w ≤ tableEnd tiff ifd0.endian off)
    (hown : ∀ m ∈ marks, MovesAt tiff ifd0.endian (ifd0.entriesEnd + 4) m → off + 2 ≤ m →
      (m = nextField tiff ifd0.endian off ∨ ∃ e ∈ entriesAt tiff ifd0.endian off, m = e + 8 ∧
        4 < sizeAt tiff ifd0.endian e) → p + w ≤ m ∨ m + 4 ≤ p) : Untouched ifd0 marks p w := by
  intro m hm hmoves
  obtain ⟨kind', off', hoff', hbounds, hcases⟩ := h.moved_mark hm hmoves
  by_cases hsame : kind = kind'
  · subst hsame
    obtain rfl : off = off' := Option.some.inj (hoff.symm.trans hoff')
    exact hown m hm hmoves hbounds.1 hcases
  · have hapart : RangesApart off (tableEnd tiff ifd0.endian off) off' (tableEnd tiff ifd0.endian off') :=
      h.tree.apart _ (mem_tablesOf.mpr hoff) _ (mem_tablesOf.mpr hoff') hsame
    unfold RangesApart at hapart
    omega

theorem untouched_count (h : Kept ifd0 marks)
    (hoff : tableAt tiff ifd0.endian ifd0.off kind = some off) : Untouched ifd0 marks off 2 := by
  refine h.untouched_within hoff (Nat.le_refl off) ?_ fun m _ _ hlow _ => .inl hlow
  rw [tableEnd, nextField]
  omega

/-- The bytes of an entry but for its pointer, if that is moved. -/
theorem untouched_entry (h : Kept ifd0 marks)
    (hoff : tableAt tiff ifd0.endian ifd0.off kind = some off)
    (he : e ∈ entriesAt tiff ifd0.endian off) (hfield : field + w ≤ 12)
    (hfree : field + w ≤ 8 ∨ ¬MovesAt tiff ifd0.endian (ifd0.entriesEnd + 4) (e + 8) ∨
      ¬4 < sizeAt tiff ifd0.endian e) : Untouched ifd0 marks (e + field) w := by
  obtain ⟨hlow, hhigh⟩ := entry_bounds he
  refine h.untouched_within hoff (by omega) (by rw [tableEnd]; omega) ?_
  rintro m - hmoves - (rfl | ⟨e', he', rfl, hlarge⟩)
  · left
    omega
  · by_cases hee : e = e'
    · subst hee
      rcases hfree with hfront | hstays | hsmall
      · left
        omega
      · exact absurd hmoves hstays
      · exact absurd hlarge hsmall
    · have hapart := entries_apart he he' hee
      omega

/-- The tag, type and count of an entry. -/
theorem entry_number (h : Kept ifd0 marks)
    (hoff : tableAt tiff ifd0.endian ifd0.off kind = some off)
    (he : e ∈ entriesAt tiff ifd0.endian off) (hfield : field + w ≤ 8) :
    numberAt (patchedTiff order ifd0 marks orientation) ifd0.endian w (ifd0.moved e + field) =
      numberAt tiff ifd0.endian w (e + field) := by
  obtain ⟨hlow, hhigh⟩ := entry_bounds he
  by_cases hkind : kind = .ifd0
  · subst hkind
    obtain rfl : ifd0.off = off := Option.some.inj hoff
    rw [h.nextField_root] at hhigh
    rw [moved_before (by omega)]
    rw [h.entriesAt_root] at he
    obtain ⟨i, hi, rfl⟩ := mem_entryPositions.mp he
    exact entry_patchedTiff ifd0 marks hi hfield
  · have hside := h.side hkind hoff
    rw [tableEnd] at hside
    rw [← h.moved_entry hoff he (by omega)]
    exact numberAt_moved (h.untouched_entry hoff he (by omega) (.inl hfield)) (by omega)

/-- A value that stands in its entry. -/
theorem entry_inline (h : Kept ifd0 marks)
    (hoff : tableAt tiff ifd0.endian ifd0.off kind = some off)
    (he : e ∈ entriesAt tiff ifd0.endian off) (hsmall : ¬4 < sizeAt tiff ifd0.endian e)
    (hsub : ¬IsSubIfd (tagAt tiff ifd0.endian e)) (hfield : field + w ≤ 12) :
    numberAt (patchedTiff order ifd0 marks orientation) endian' w (ifd0.moved e + field) =
      numberAt tiff endian' w (e + field) := by
  obtain ⟨hlow, hhigh⟩ := entry_bounds he
  by_cases hkind : kind = .ifd0
  · subst hkind
    obtain rfl : ifd0.off = off := Option.some.inj hoff
    have hunmarked : e + 8 ∉ marks := fun hm =>
      (h.marked_pointer hoff he hm).2.elim hsmall fun hlong => hsub hlong.2
    rw [h.nextField_root] at hhigh
    rw [moved_before (by omega)]
    rw [h.entriesAt_root] at he
    exact unmarked_entry he hunmarked hfield
  · have hside := h.side hkind hoff
    rw [tableEnd] at hside
    rw [← h.moved_entry hoff he (by omega)]
    exact numberAt_moved (h.untouched_entry hoff he hfield (.inr (.inr hsmall))) (by omega)

/-- A pointer of IFD0. -/
theorem root_pointer (h : Kept ifd0 marks) (he : e ∈ entriesAt tiff ifd0.endian ifd0.off)
    (hpoints : 4 < sizeAt tiff ifd0.endian e ∨
      (countAt tiff ifd0.endian e = 1 ∧ typAt tiff ifd0.endian e = 4) ∧
        IsSubIfd (tagAt tiff ifd0.endian e))
    (hside : pointerAt tiff ifd0.endian e < ifd0.off ∨
      ifd0.entriesEnd + 4 ≤ pointerAt tiff ifd0.endian e)
    (hle : pointerAt tiff ifd0.endian e ≤ tiff.length) :
    pointerAt (patchedTiff order ifd0 marks orientation) ifd0.endian e =
      ifd0.moved (pointerAt tiff ifd0.endian e) := by
  have hroot : tableAt tiff ifd0.endian ifd0.off .ifd0 = some ifd0.off := rfl
  have hshort := h.short
  have hoff := ifd0.off_lt
  have hposition : e ∈ ifd0.positions := h.entriesAt_root ▸ he
  rcases hside with hbefore | hbehind
  · rw [moved_before (by omega)]
    refine unmarked_entry hposition (fun hm => ?_) (by decide)
    have hptr := (h.marked_pointer hroot he hm).1
    omega
  · have hm : e + 8 ∈ marks := (h.marks _).mpr ⟨.ifd0, ifd0.off, ⟨hroot, by decide, .inl rfl⟩,
      .inl ⟨e, he, rfl, ⟨hbehind, hle⟩, hpoints⟩⟩
    rw [moved_behind hbehind]
    refine marked_entry hposition hm ?_
    change pointerAt tiff ifd0.endian e + 12 < 2 ^ 32
    omega

/-- The offset of a value that does not stand in its entry. -/
theorem entry_pointer (h : Kept ifd0 marks)
    (hoff : tableAt tiff ifd0.endian ifd0.off kind = some off)
    (he : e ∈ entriesAt tiff ifd0.endian off) (hlarge : 4 < sizeAt tiff ifd0.endian e) :
    pointerAt (patchedTiff order ifd0 marks orientation) ifd0.endian (ifd0.moved e) =
      ifd0.moved (pointerAt tiff ifd0.endian e) := by
  have hmem := mem_tablesOf.mpr hoff
  have hfits := h.tree.values_fit _ hmem e he hlarge
  have hapart := h.tree.values_apart _ hmem e he hlarge _ root_mem
  rw [RangesApart, tableEnd, h.nextField_root] at hapart
  obtain ⟨hlow, hhigh⟩ := entry_bounds he
  have hroot := ifd0.off_lt
  have hshort := h.short
  by_cases hkind : kind = .ifd0
  · subst hkind
    obtain rfl : ifd0.off = off := Option.some.inj hoff
    rw [h.nextField_root] at hhigh
    rw [moved_before (show e < ifd0.entriesEnd + 4 by omega)]
    exact h.root_pointer he (.inl hlarge) (by omega) (by omega)
  · have hside := h.side hkind hoff
    have hend : tableEnd tiff ifd0.endian off ≤ tiff.length := h.tree.fits _ hmem
    rw [tableEnd] at hside hend
    by_cases hbefore : pointerAt tiff ifd0.endian e < ifd0.off
    · rw [moved_before (show pointerAt tiff ifd0.endian e < ifd0.entriesEnd + 4 by omega), pointerAt,
        ← h.moved_entry hoff he (by decide)]
      refine numberAt_moved (h.untouched_entry hoff he (by decide) (.inr (.inl fun hmoves => ?_)))
        (by omega)
      have hold : ifd0.entriesEnd + 4 ≤ pointerAt tiff ifd0.endian e := hmoves.2.1
      omega
    · obtain ⟨hbehind, hroom⟩ := (h.movable.values _ hmem hkind e he hlarge).resolve_left hbefore
      dsimp only at hbehind
      have hinterop : kind ≠ .interop := by
        rintro rfl
        have hlt := h.movable.interop off hoff
        omega
      have hm : e + 8 ∈ marks := (h.marks _).mpr ⟨kind, off, ⟨hoff, hinterop, .inr (by omega)⟩,
        .inl ⟨e, he, rfl, ⟨by omega, by omega⟩, .inl hlarge⟩⟩
      have hmoves : MovesAt tiff ifd0.endian (ifd0.entriesEnd + 4) (e + 8) :=
        ⟨⟨by omega, by omega⟩, show ifd0.entriesEnd + 4 ≤ pointerAt tiff ifd0.endian e by omega,
          hroom⟩
      have hpos : e + 12 + 8 = e + 8 + 12 := by omega
      rw [moved_behind (show ifd0.entriesEnd + 4 ≤ pointerAt tiff ifd0.endian e by omega),
        moved_behind (show ifd0.entriesEnd + 4 ≤ e by omega), pointerAt, hpos]
      exact numberAt_mark hm hmoves (by omega) fun k hk hk' => h.moved_marks_apart hm hmoves hk hk'

section Entries

variable (h : Kept ifd0 marks) (hoff : tableAt tiff ifd0.endian ifd0.off kind = some off)
  (he : e ∈ entriesAt tiff ifd0.endian off)

include h hoff he

theorem entry_fits : e + 12 ≤ tiff.length := by
  have hend : tableEnd tiff ifd0.endian off ≤ tiff.length := h.tree.fits _ (mem_tablesOf.mpr hoff)
  have hhigh := (entry_bounds he).2
  rw [tableEnd] at hend
  omega

theorem tagAt_moved : tagAt (patchedTiff order ifd0 marks orientation) ifd0.endian (ifd0.moved e) =
    tagAt tiff ifd0.endian e := by
  change numberAt _ _ 2 (ifd0.moved e + 0) = numberAt _ _ 2 (e + 0)
  exact h.entry_number hoff he (by decide)

theorem typAt_moved : typAt (patchedTiff order ifd0 marks orientation) ifd0.endian (ifd0.moved e) =
    typAt tiff ifd0.endian e :=
  h.entry_number hoff he (by decide)

theorem countAt_moved :
    countAt (patchedTiff order ifd0 marks orientation) ifd0.endian (ifd0.moved e) =
      countAt tiff ifd0.endian e :=
  h.entry_number hoff he (by decide)

theorem sizeAt_moved :
    sizeAt (patchedTiff order ifd0 marks orientation) ifd0.endian (ifd0.moved e) =
      sizeAt tiff ifd0.endian e := by
  rw [sizeAt, h.typAt_moved hoff he, h.countAt_moved hoff he]
  rfl

/-- The bytes of a value are moved with it. -/
theorem valueAt_moved (hsub : ¬IsSubIfd (tagAt tiff ifd0.endian e)) :
    valueAt (patchedTiff order ifd0 marks orientation) ifd0.endian (ifd0.moved e) =
      valueAt tiff ifd0.endian e := by
  have hmem := mem_tablesOf.mpr hoff
  have hbytes : window (patchedTiff order ifd0 marks orientation)
      (valueStart (patchedTiff order ifd0 marks orientation) ifd0.endian (ifd0.moved e))
      (sizeAt tiff ifd0.endian e) =
      window tiff (valueStart tiff ifd0.endian e) (sizeAt tiff ifd0.endian e) := by
    rw [valueStart, valueStart, h.sizeAt_moved hoff he]
    by_cases hlarge : 4 < sizeAt tiff ifd0.endian e
    · have hapart := h.tree.values_apart _ hmem e he hlarge
      have hroot := hapart _ root_mem
      rw [RangesApart, tableEnd, h.nextField_root] at hroot
      rw [if_pos hlarge, if_pos hlarge, h.entry_pointer hoff he hlarge]
      exact window_moved (h.untouched_outside fun kind off hoff => hapart _ (mem_tablesOf.mpr hoff))
        hroot (h.tree.values_fit _ hmem e he hlarge)
    · have hfits := h.entry_fits hoff he
      have hle := @moved_le tiff ifd0 e
      rw [if_neg hlarge, if_neg hlarge]
      refine window_eq_of_number (h.entry_inline hoff he hlarge hsub (by omega)) ?_ (by omega)
      rw [length_patchedTiff]
      omega
  rw [valueAt, valueAt, h.tagAt_moved hoff he, h.typAt_moved hoff he, h.countAt_moved hoff he,
    h.sizeAt_moved hoff he, hbytes]

end Entries

/-- The fields of the inserted entry. -/
theorem inserted_value (ifd0 : Ifd0 tiff) (marks : List Nat) (order : HashOrder)
    (ho : orientation < 65536) :
    valueAt (patchedTiff order ifd0 marks orientation) ifd0.endian ifd0.entriesEnd =
      ⟨orientationTag, 3, 1, ifd0.endian.encode 2 orientation⟩ := by
  have hfield : ∀ {field w}, field + w ≤ 12 →
      numberAt (patchedTiff order ifd0 marks orientation) ifd0.endian w (ifd0.entriesEnd + field) =
        ifd0.endian.decode (((orientationEntry ifd0.endian orientation).drop field).take w) :=
    fun hle => inserted_patchedTiff ifd0 marks hle
  have htag : tagAt (patchedTiff order ifd0 marks orientation) ifd0.endian ifd0.entriesEnd =
      orientationTag := by
    refine (@hfield 0 2 (by decide)).trans ?_
    cases ifd0.endian <;> rfl
  have htyp : typAt (patchedTiff order ifd0 marks orientation) ifd0.endian ifd0.entriesEnd = 3 := by
    refine (@hfield 2 2 (by decide)).trans ?_
    cases ifd0.endian <;> rfl
  have hcount : countAt (patchedTiff order ifd0 marks orientation) ifd0.endian ifd0.entriesEnd =
      1 := by
    refine (@hfield 4 4 (by decide)).trans ?_
    cases ifd0.endian <;> rfl
  have hsize : sizeAt (patchedTiff order ifd0 marks orientation) ifd0.endian ifd0.entriesEnd = 2 := by
    rw [sizeAt, htyp, hcount]
    rfl
  have hnumber : numberAt (patchedTiff order ifd0 marks orientation) ifd0.endian 2
      (ifd0.entriesEnd + 8) = orientation := by
    have hhalf : ((orientationEntry ifd0.endian orientation).drop 8).take 2 =
        ifd0.endian.encode 2 orientation := by
      cases ifd0.endian <;> rfl
    rw [hfield (by decide), hhalf]
    exact Order.decode_encode (by omega)
  have hbytes : window (patchedTiff order ifd0 marks orientation) (ifd0.entriesEnd + 8) 2 =
      ifd0.endian.encode 2 orientation := by
    have hend := ifd0.entriesEnd_le
    have hlen : (window (patchedTiff order ifd0 marks orientation) (ifd0.entriesEnd + 8) 2).length =
        2 := length_window (by rw [length_patchedTiff]; omega)
    have hencode := ifd0.endian.encode_decode
      (window (patchedTiff order ifd0 marks orientation) (ifd0.entriesEnd + 8) 2)
    rw [hlen] at hencode
    rw [← hencode]
    exact congrArg (ifd0.endian.encode 2) hnumber
  rw [valueAt, htag, htyp, hcount, hsize, valueStart, hsize, if_neg (by decide), hbytes]

/-- The entries of a table, with the one that is inserted into IFD0. -/
theorem entriesAt_moved (h : Kept ifd0 marks)
    (hoff : tableAt tiff ifd0.endian ifd0.off kind = some off) :
    entriesAt (patchedTiff order ifd0 marks orientation) ifd0.endian (ifd0.moved off) =
      (entriesAt tiff ifd0.endian off).map ifd0.moved ++
        if kind = .ifd0 then [ifd0.entriesEnd] else [] := by
  have hroot := ifd0.off_lt
  by_cases hkind : kind = .ifd0
  · subst hkind
    obtain rfl : ifd0.off = off := Option.some.inj hoff
    have hsame : ifd0.positions.map ifd0.moved = ifd0.positions := by
      conv_rhs => rw [← List.map_id ifd0.positions]
      refine List.map_congr_left fun e he => moved_before ?_
      have hhigh := (ifd0.entry_le he).2
      omega
    rw [if_pos rfl, h.entriesAt_root, hsame, moved_before (by omega), entriesAt, entryCount,
      count_patchedTiff, entryPositions, List.range_succ, List.map_append]
    rfl
  · have hside := h.side hkind hoff
    have hend : tableEnd tiff ifd0.endian off = off + 2 + entryCount tiff ifd0.endian off * 12 + 4 :=
      rfl
    have hcount : entryCount (patchedTiff order ifd0 marks orientation) ifd0.endian
        (ifd0.moved off) = entryCount tiff ifd0.endian off :=
      numberAt_moved (h.untouched_count hoff) (by omega)
    rw [if_neg hkind, List.append_nil, entriesAt, hcount, entriesAt, entryPositions, entryPositions,
      List.map_map]
    refine List.map_congr_left fun i hi => ?_
    have hlt := List.mem_range.mp hi
    have hpos : off + 2 + i * 12 = off + (2 + i * 12) := by omega
    rw [Function.comp_apply, hpos, moved_add (by omega), Nat.add_assoc]

theorem entryWith_moved (h : Kept ifd0 marks) (ho : orientation < 65536)
    (hoff : tableAt tiff ifd0.endian ifd0.off kind = some off) (htag : tag ≠ orientationTag) :
    entryWith (patchedTiff order ifd0 marks orientation) ifd0.endian (ifd0.moved off) tag =
      (entryWith tiff ifd0.endian off tag).map ifd0.moved := by
  have hnew : (if kind = .ifd0 then [ifd0.entriesEnd] else []).find? (fun e =>
      tagAt (patchedTiff order ifd0 marks orientation) ifd0.endian e = tag) = none := by
    refine List.find?_eq_none.mpr fun e he => ?_
    split at he
    next =>
      obtain rfl := List.mem_singleton.mp he
      have hvalue := congrArg TagValue.tag (inserted_value ifd0 marks order ho)
      rw [valueAt] at hvalue
      dsimp only at hvalue
      rw [hvalue]
      simpa using Ne.symm htag
    next => cases he
  rw [entryWith, h.entriesAt_moved hoff, List.find?_append, List.find?_map, hnew, Option.or_none,
    entryWith]
  refine congrArg (Option.map ifd0.moved) (List.find?_congr fun e he => ?_)
  rw [Function.comp_apply, h.tagAt_moved hoff he]

/-- The tables that IFD0 points to. -/
theorem root_link (h : Kept ifd0 marks) (ho : orientation < 65536) (hsub : IsSubIfd tag)
    (htable : ∀ off, linkAt tiff ifd0.endian ifd0.off tag = some off →
      ∃ kind, kind ≠ .ifd0 ∧ tableAt tiff ifd0.endian ifd0.off kind = some off) :
    linkAt (patchedTiff order ifd0 marks orientation) ifd0.endian ifd0.off tag =
      (linkAt tiff ifd0.endian ifd0.off tag).map ifd0.moved := by
  have hroot : tableAt tiff ifd0.endian ifd0.off .ifd0 = some ifd0.off := rfl
  have hlt := ifd0.off_lt
  have hother : tag ≠ orientationTag := by
    rcases hsub with rfl | rfl <;> decide
  have hfound := @entryWith_moved tiff ifd0 marks order orientation ifd0.off tag .ifd0 h ho hroot
    hother
  rw [moved_before (by omega)] at hfound
  rw [linkAt, hfound, linkAt]
  cases hentry : entryWith tiff ifd0.endian ifd0.off tag with
  | none => rfl
  | some e =>
    obtain ⟨he, rfl⟩ := entryWith_some hentry
    have hlink : linkAt tiff ifd0.endian ifd0.off (tagAt tiff ifd0.endian e) =
        some (pointerAt tiff ifd0.endian e) := by
      rw [linkAt, hentry]
      rfl
    obtain ⟨kind, hkind, hoff⟩ := htable _ hlink
    obtain ⟨htyp, hcount⟩ := h.tree.links_long _ root_mem e he (by
      rcases hsub with hsub | hsub <;> simp [hsub, IfdKind.links])
    have hside := h.side hkind hoff
    have hend : tableEnd tiff ifd0.endian (pointerAt tiff ifd0.endian e) ≤ tiff.length :=
      h.tree.fits _ (mem_tablesOf.mpr hoff)
    rw [tableEnd, nextField] at hside hend
    have hhigh := (entry_bounds he).2
    rw [h.nextField_root] at hhigh
    rw [Option.map_some, Option.map_some, Option.map_some,
      moved_before (show e < ifd0.entriesEnd + 4 by omega)]
    exact congrArg some (h.root_pointer he (.inr ⟨⟨hcount, htyp⟩, hsub⟩) (by omega) (by omega))

/-- The links of the other tables are not moved. -/
theorem kept_link (h : Kept ifd0 marks) (ho : orientation < 65536) (hkind : kind ≠ .ifd0)
    (hoff : tableAt tiff ifd0.endian ifd0.off kind = some off) (htag : tag ∈ kind.links) :
    linkAt (patchedTiff order ifd0 marks orientation) ifd0.endian (ifd0.moved off) tag =
      linkAt tiff ifd0.endian off tag := by
  have hother : tag ≠ orientationTag := by
    rintro rfl
    cases kind <;> revert htag <;> decide
  rw [linkAt, h.entryWith_moved ho hoff hother, linkAt]
  cases hentry : entryWith tiff ifd0.endian off tag with
  | none => rfl
  | some e =>
    obtain ⟨he, rfl⟩ := entryWith_some hentry
    obtain ⟨htyp, hcount⟩ := h.tree.links_long _ (mem_tablesOf.mpr hoff) e he htag
    have hsmall : ¬4 < sizeAt tiff ifd0.endian e := by
      rw [sizeAt, htyp, hcount]
      decide
    have hsub : ¬IsSubIfd (tagAt tiff ifd0.endian e) := fun hsub =>
      hkind (h.tree.links_placed _ (mem_tablesOf.mpr hoff) e he hsub)
    exact congrArg some (h.entry_inline hoff he hsmall hsub (by decide))

/-- The table that IFD0 is followed by. -/
theorem next_moved (h : Kept ifd0 marks) :
    nextTable (patchedTiff order ifd0 marks orientation) ifd0.endian ifd0.off =
      (nextTable tiff ifd0.endian ifd0.off).map ifd0.moved := by
  have hshort := h.short
  have hroot := ifd0.off_lt
  have hfield : nextField (patchedTiff order ifd0 marks orientation) ifd0.endian ifd0.off =
      ifd0.entriesEnd + 12 := by
    rw [nextField, entryCount, count_patchedTiff, Ifd0.entriesEnd]
    omega
  have hmarked : ifd0.entriesEnd ∈ marks ↔ numberAt tiff ifd0.endian 4 ifd0.entriesEnd ≠ 0 ∧
      ifd0.entriesEnd + 4 ≤ numberAt tiff ifd0.endian 4 ifd0.entriesEnd ∧
        numberAt tiff ifd0.endian 4 ifd0.entriesEnd ≤ tiff.length := by
    constructor
    · intro hm
      obtain ⟨kind, off, ⟨hoff, -, -⟩, hmarked⟩ := (h.marks _).mp hm
      have hbounds := markedAt_bounds hmarked
      have hend : tableEnd tiff ifd0.endian ifd0.off = ifd0.entriesEnd + 4 := by
        rw [tableEnd, h.nextField_root]
      obtain ⟨rfl, rfl⟩ := @same_table tiff ifd0 marks ifd0.entriesEnd off ifd0.off kind .ifd0 h hoff
        rfl (by omega) (by omega) (by omega) (by omega)
      rcases hmarked with ⟨e, he, heq, -⟩ | ⟨-, hnext⟩
      · have hhigh := (entry_bounds he).2
        rw [h.nextField_root] at hhigh
        omega
      · exact hnext
    · intro hnext
      exact (h.marks _).mpr ⟨.ifd0, ifd0.off, ⟨rfl, by decide, .inl rfl⟩,
        .inr ⟨h.nextField_root.symm, hnext⟩⟩
  have hlt : numberAt tiff ifd0.endian 4 ifd0.entriesEnd < 2 ^ 32 :=
    numberAt_lt tiff ifd0.endian 4 ifd0.entriesEnd
  have hmoved : movedNext ifd0 marks < 2 ^ 32 := by
    rw [movedNext]
    split
    next hm =>
      have hle := (hmarked.mp hm).2.2
      omega
    next => exact hlt
  rw [nextTable, hfield, next_patchedTiff hmoved, nextTable, h.nextField_root, movedNext]
  by_cases hzero : numberAt tiff ifd0.endian 4 ifd0.entriesEnd = 0
  · have hunmarked : ifd0.entriesEnd ∉ marks := fun hm => (hmarked.mp hm).1 hzero
    rw [if_neg hunmarked, if_pos hzero]
    rfl
  · have hoff : tableAt tiff ifd0.endian ifd0.off .ifd1 =
        some (numberAt tiff ifd0.endian 4 ifd0.entriesEnd) := by
      rw [tableAt, nextTable, h.nextField_root, if_neg hzero]
    have hside := h.side (by decide) hoff
    have hend : tableEnd tiff ifd0.endian (numberAt tiff ifd0.endian 4 ifd0.entriesEnd) ≤
      tiff.length := h.tree.fits _ (mem_tablesOf.mpr hoff)
    rw [tableEnd, nextField] at hside hend
    rw [if_neg hzero, Option.map_some]
    rcases hside with hbefore | hbehind
    · have hunmarked : ifd0.entriesEnd ∉ marks := fun hm => by
        have hle := (hmarked.mp hm).2.1
        omega
      rw [if_neg hunmarked, if_neg hzero, moved_before (by omega)]
    · rw [if_pos (hmarked.mpr ⟨hzero, hbehind, by omega⟩), if_neg (by omega), moved_behind hbehind]

/-- Every table is found again. -/
theorem tableAt_moved (h : Kept ifd0 marks) (ho : orientation < 65536) (kind : IfdKind) :
    tableAt (patchedTiff order ifd0 marks orientation) ifd0.endian ifd0.off kind =
      (tableAt tiff ifd0.endian ifd0.off kind).map ifd0.moved := by
  have hroot := ifd0.off_lt
  have hexif := @root_link tiff ifd0 marks order orientation exifSubIfdTag h ho (.inl rfl)
    fun off hoff => ⟨.exif, by decide, hoff⟩
  cases kind with
  | ifd0 => exact congrArg some (moved_before (by omega)).symm
  | exif => exact hexif
  | gps => exact h.root_link ho (.inr rfl) fun off hoff => ⟨.gps, by decide, hoff⟩
  | ifd1 => exact h.next_moved
  | interop =>
    rw [tableAt, hexif, tableAt]
    cases hoff : linkAt tiff ifd0.endian ifd0.off exifSubIfdTag with
    | none => rfl
    | some off =>
      have hlink := @kept_link tiff ifd0 marks order orientation off interopSubIfdTag .exif h ho
        (by decide) hoff (by decide)
      rw [Option.map_some, Option.bind_some, Option.bind_some, hlink]
      cases hoff' : linkAt tiff ifd0.endian off interopSubIfdTag with
      | none => rfl
      | some off' =>
        have hlt := h.movable.interop off' (by rw [tableAt, hoff, Option.bind_some]; exact hoff')
        exact congrArg some (moved_before (by omega)).symm

theorem tagsAt_moved (h : Kept ifd0 marks) (ho : orientation < 65536)
    (hoff : tableAt tiff ifd0.endian ifd0.off kind = some off) :
    tagsAt (patchedTiff order ifd0 marks orientation) ifd0.endian kind (ifd0.moved off) =
      tagsAt tiff ifd0.endian kind off ++ if kind = .ifd0 then
        [⟨orientationTag, 3, 1, ifd0.endian.encode 2 orientation⟩] else [] := by
  have hold : (((entriesAt tiff ifd0.endian off).map ifd0.moved).filter fun e =>
      tagAt (patchedTiff order ifd0 marks orientation) ifd0.endian e ∉ kind.links).map
        (valueAt (patchedTiff order ifd0 marks orientation) ifd0.endian) =
      tagsAt tiff ifd0.endian kind off := by
    rw [List.filter_map, List.map_map, tagsAt]
    have hfilter : (entriesAt tiff ifd0.endian off).filter ((fun e => decide
        (tagAt (patchedTiff order ifd0 marks orientation) ifd0.endian e ∉ kind.links)) ∘
          ifd0.moved) =
        (entriesAt tiff ifd0.endian off).filter fun e => tagAt tiff ifd0.endian e ∉ kind.links :=
      List.filter_congr fun e he => by rw [Function.comp_apply, h.tagAt_moved hoff he]
    rw [hfilter]
    refine List.map_congr_left fun e he => ?_
    obtain ⟨he, hlink⟩ := List.mem_filter.mp he
    refine h.valueAt_moved hoff he fun hsub => of_decide_eq_true hlink ?_
    have hkind : kind = .ifd0 := h.tree.links_placed _ (mem_tablesOf.mpr hoff) e he hsub
    rcases hsub with hsub | hsub <;> simp [hkind, hsub, IfdKind.links]
  rw [tagsAt, h.entriesAt_moved hoff, List.filter_append, List.map_append, hold]
  refine congrArg (tagsAt tiff ifd0.endian kind off ++ ·) ?_
  split
  next hkind =>
    have hvalue := inserted_value ifd0 marks order ho
    have htag : tagAt (patchedTiff order ifd0 marks orientation) ifd0.endian ifd0.entriesEnd =
        orientationTag := congrArg TagValue.tag hvalue
    rw [List.filter_cons_of_pos (by rw [htag, hkind]; decide), List.filter_nil, List.map_cons,
      hvalue, List.map_nil]
  next => rfl

/-- The thumbnail stays where it is. -/
theorem thumbnailAt_moved (h : Kept ifd0 marks) (ho : orientation < 65536) :
    thumbnailAt (patchedTiff order ifd0 marks orientation) ifd0.endian ifd0.off =
      thumbnailAt tiff ifd0.endian ifd0.off := by
  rw [thumbnailAt, h.tableAt_moved ho, thumbnailAt]
  cases hoff : tableAt tiff ifd0.endian ifd0.off .ifd1 with
  | none => rfl
  | some off =>
    rw [Option.map_some, Option.bind_some, Option.bind_some,
      h.kept_link ho (by decide) hoff (by decide), h.entryWith_moved ho hoff (by decide)]
    refine congrArg _ (funext fun start => congrArg _ ?_)
    cases hentry : entryWith tiff ifd0.endian off thumbnailLengthTag with
    | none => rfl
    | some e =>
      obtain ⟨he, htag⟩ := entryWith_some hentry
      have hsub : ¬IsSubIfd (tagAt tiff ifd0.endian e) := by
        rw [htag]
        decide
      have htyp := @typAt_moved tiff ifd0 marks order orientation e off .ifd1 h hoff he
      have hcount := @countAt_moved tiff ifd0 marks order orientation e off .ifd1 h hoff he
      rw [typAt, typAt] at htyp
      rw [countAt, countAt] at hcount
      rw [Option.map_some, Option.bind_some, Option.bind_some, entryNumber, entryNumber, htyp, hcount]
      split
      next hhalf =>
        refine congrArg some (h.entry_inline hoff he ?_ hsub (by decide))
        rw [sizeAt, typAt, countAt, hhalf.1]
        rcases hhalf.2 with hone | htwo
        · rw [hone]
          decide
        · rw [htwo]
          decide
      next =>
        split
        next hlong =>
          refine congrArg some (h.entry_inline hoff he ?_ hsub (by decide))
          rw [sizeAt, typAt, countAt, hlong.1, hlong.2]
          decide
        next => rfl

/-- All else that the structure says stays. -/
theorem exifTree_patched (h : Kept ifd0 marks) (ho : orientation < 65536) :
    exifTree (patchedTiff order ifd0 marks orientation) ifd0.endian ifd0.off =
      (exifTree tiff ifd0.endian ifd0.off).withOrientation ifd0.endian orientation := by
  have htags : ∀ kind, (tableAt (patchedTiff order ifd0 marks orientation) ifd0.endian ifd0.off
      kind).map (tagsAt (patchedTiff order ifd0 marks orientation) ifd0.endian kind) =
      if kind = .ifd0 then ((tableAt tiff ifd0.endian ifd0.off .ifd0).map
        (tagsAt tiff ifd0.endian .ifd0)).map
          (· ++ [⟨orientationTag, 3, 1, ifd0.endian.encode 2 orientation⟩])
      else (tableAt tiff ifd0.endian ifd0.off kind).map (tagsAt tiff ifd0.endian kind) := by
    intro kind
    rw [h.tableAt_moved ho]
    cases hoff : tableAt tiff ifd0.endian ifd0.off kind with
    | none =>
      split
      next hkind =>
        subst hkind
        cases hoff
      next => rfl
    | some off =>
      rw [Option.map_some, Option.map_some, h.tagsAt_moved ho hoff]
      split
      next hkind =>
        subst hkind
        rw [hoff]
        rfl
      next => rw [List.append_nil, Option.map_some]
  have hthumbnail : ∀ range, thumbnailAt tiff ifd0.endian ifd0.off = some range →
      window (patchedTiff order ifd0 marks orientation) range.1 range.2 =
        window tiff range.1 range.2 := by
    intro range hrange
    rcases h.movable.thumbnail range hrange with hempty | hbefore
    · rw [hempty, window, window, List.take_zero, List.take_zero]
    · have hfits := h.tree.thumbnail_fits range hrange
      have hapart := h.tree.thumbnail_apart range hrange _ root_mem
      rw [RangesApart, tableEnd, h.nextField_root] at hapart
      have hroot := ifd0.off_lt
      dsimp only at hapart
      refine window_eq_of_number (numberAt_of_take (take_patchedTiff ifd0 marks) (by omega)) ?_ hfits
      rw [length_patchedTiff]
      omega
  rw [exifTree, ExifTree.withOrientation, exifTree]
  refine congrArg₂ ExifTree.mk (funext htags) ?_
  rw [h.thumbnailAt_moved ho]
  cases hrange : thumbnailAt tiff ifd0.endian ifd0.off with
  | none => rfl
  | some range => exact congrArg some (hthumbnail range hrange)

end Kept

section Insertions

variable {jpeg : Bytes} {orientation calls : Nat} {checks : Bool} {order : HashOrder}
  {readOrientation : Bytes → Option Nat}

/-- The APP1 and the IFD0 in it are those that are found. -/
theorem site_unique (site site' : SpliceSite jpeg) : site = site' := by
  obtain ⟨pos, total, ifd0, found, long, within, parsed⟩ := site
  obtain ⟨pos', total', ifd0', found', long', within', parsed'⟩ := site'
  obtain ⟨rfl, rfl⟩ := Prod.ext_iff.mp (Option.some.inj (Except.ok.inj (found.symm.trans found')))
  obtain rfl := readFrom_unique parsed parsed'
  rfl

/-- Where the structure can be moved, inserting an orientation changes nothing else of what it
says. -/
theorem inserted_preserves (i : Insertion readOrientation jpeg orientation)
    (htree : WellFormedTree i.tiff i.ifd0.endian i.ifd0.off) (hmovable : Relocatable i.ifd0)
    {marks : List Nat} (hwalk : walkIfd checks i.tiff i.ifd0.endian (i.ifd0.entriesEnd + 4) calls
      i.ifd0.off 0 [] = .ok (some marks)) :
    readExifTree (i.out (patchedTiff order i.ifd0 marks orientation)) =
      (readExifTree jpeg).map (·.withOrientation i.ifd0.endian orientation) := by
  have hpasses : (tables i.tiff i.ifd0.endian (i.ifd0.entriesEnd + 4)).Passes (i.ifd0.off, 0) :=
    OrderedWalks.System.passes_of_walk (walkIfd_ok hwalk)
  have hsize : i.tiff.length + 8 < 65536 := i.toSpliceSite.length_lt
  have hkept : Kept i.ifd0 marks := by
    refine ⟨i.parsed, htree, hmovable, show i.tiff.length + 12 < 2 ^ 32 by omega, fun m => ?_⟩
    rw [walkIfd_marks hwalk, ← markedFrom_root htree hpasses]
    simp
  have hlen : (patchedTiff order i.ifd0 marks orientation).length = i.tiff.length + 12 :=
    length_patchedTiff
  have hroom := i.room
  have htotal : i.tiff.length + 10 = i.total := i.length_tiff
  have hrange := i.attempts.inRange
  have hgrown : i.ifd0.count + 1 < 0xffff := by
    have hfits : i.ifd0.off + 2 + i.ifd0.count * 12 + 4 ≤ i.tiff.length := i.ifd0.fits
    omega
  have hparsed := parseIfd0_some.mpr
    (@grown_readFrom i.tiff orientation order i.ifd0 marks i.parsed hgrown)
  have hbefore : readExifTree jpeg = some (exifTree i.tiff i.ifd0.endian i.ifd0.off) := by
    rw [readExifTree, i.found]
    dsimp only
    rw [tiffTree, parseIfd0_some.mpr i.parsed]
  have hafter : readExifTree (i.out (patchedTiff order i.ifd0 marks orientation)) =
      some (exifTree (patchedTiff order i.ifd0 marks orientation) i.ifd0.endian i.ifd0.off) := by
    rw [insertion_out i hlen, readExifTree, i.toSpliceSite.find_withTiff (by omega)]
    dsimp only
    rw [i.toSpliceSite.tiffOf_withTiff, tiffTree, hparsed]
    rfl
  rw [hafter, hbefore]
  exact congrArg some (hkept.exifTree_patched (by omega))

/-- A structure that can be moved and has no Orientation entry says the same with one added, or the
file is left alone. -/
theorem insertion_preserves (order : HashOrder) (checks : Bool)
    (readOrientation : Bytes → Option Nat) (orientation : Nat) (site : SpliceSite jpeg)
    (hnone : site.entries = []) (htree : WellFormedTree site.tiff site.ifd0.endian site.ifd0.off)
    (hmovable : Relocatable site.ifd0) (hcalls : 2 ≤ calls) :
    ∃ out, ensureExifOrientation order checks calls readOrientation jpeg orientation = .ok out ∧
      (out = jpeg ∨ readExifTree out =
        (readExifTree jpeg).map (·.withOrientation site.ifd0.endian orientation)) := by
  rcases branch readOrientation jpeg orientation with hkept | ⟨-, -, hmissing⟩ | r | i
  · exact ⟨jpeg, hkept order checks calls, .inl rfl⟩
  · simp [site.found] at hmissing
  · have hlast := r.last
    rw [site_unique r.toSpliceSite site, hnone] at hlast
    simp at hlast
  · obtain rfl := site_unique site i.toSpliceSite
    have hfree : overflows checks (i.ifd0.off, 0) = false := by simp [overflows]
    obtain ⟨r, hr⟩ := walk_root htree hfree hcalls
    obtain ⟨out, hout⟩ := @ensure_of_walk jpeg calls orientation checks readOrientation order i r hr
    refine ⟨out, hout, ?_⟩
    rcases @ensure_insertion_of_walk jpeg calls orientation checks readOrientation order i with
      ⟨marks, hwalk, hensure⟩ | ⟨-, hensure⟩ | ⟨fault, -, hensure⟩
    · obtain rfl := Except.ok.inj (hout.symm.trans hensure)
      exact .inr (inserted_preserves i htree hmovable hwalk)
    · exact .inl (Except.ok.inj (hout.symm.trans hensure))
    · cases hout.symm.trans hensure

end Insertions

/-- A file whose IFD0 names the camera and its Exif IFD the exposure. -/
def describedExif : Bytes :=
  [0xff, 0xd8, 0xff, 0xe1, 0x00, 0x4e] ++ exifHeader ++
    [0x49, 0x49, 0x2a, 0x00, 0x08, 0x00, 0x00, 0x00,
      0x02, 0x00, 0x10, 0x01, 0x02, 0x00, 0x06, 0x00, 0x00, 0x00, 0x40, 0x00, 0x00, 0x00,
      0x69, 0x87, 0x04, 0x00, 0x01, 0x00, 0x00, 0x00, 0x26, 0x00, 0x00, 0x00,
      0x00, 0x00, 0x00, 0x00,
      0x01, 0x00, 0x9a, 0x82, 0x05, 0x00, 0x01, 0x00, 0x00, 0x00, 0x38, 0x00, 0x00, 0x00,
      0x00, 0x00, 0x00, 0x00,
      0x01, 0x00, 0x00, 0x00, 0x3c, 0x00, 0x00, 0x00, 0x50, 0x69, 0x78, 0x65, 0x6c, 0x00,
      0xff, 0xda]

theorem described_off : 8 ≤ 8 := Nat.le_refl 8

theorem described_fits :
    2 < 0xffff ∧ 8 + 2 + 2 * 12 + 4 ≤ (tiffOf describedExif 2 80).length := by
  constructor <;> decide +kernel

def describedIfd0 : Ifd0 (tiffOf describedExif 2 80) :=
  ⟨.little, 8, 2, described_off, Nat.zero_lt_succ 1, described_fits.1, described_fits.2⟩

def describedSite : SpliceSite describedExif where
  pos := 2
  total := 80
  ifd0 := describedIfd0
  found := by decide +kernel
  long := by decide
  within := by decide +kernel
  parsed := ⟨by decide +kernel, by decide +kernel, by decide +kernel, by decide +kernel⟩

theorem insertion_preserves_described : ∃ out,
    ensureExifOrientation ⟨id, List.Perm.refl⟩ true 2 (fun _ => none) describedExif 6 = .ok out ∧
      out ≠ describedExif ∧
      readExifTree out = (readExifTree describedExif).map (·.withOrientation .little 6) := by
  have htree : WellFormedTree (tiffOf describedExif 2 80) .little 8 :=
    ⟨by decide +kernel, by decide +kernel, by decide +kernel, by decide +kernel,
      by decide +kernel, by decide +kernel, by decide +kernel, by decide +kernel,
      by decide +kernel⟩
  have hmovable : Relocatable describedIfd0 :=
    ⟨by decide +kernel, by decide +kernel, by decide +kernel⟩
  have hnone : describedSite.entries = [] := by decide +kernel
  have hinserted : (ensureExifOrientation ⟨id, List.Perm.refl⟩ true 2 (fun _ => none) describedExif
      6).toOption.any fun out => out ≠ describedExif := by decide +kernel
  obtain ⟨out, hout, htree'⟩ := insertion_preserves ⟨id, List.Perm.refl⟩ true (fun _ => none) 6
    describedSite hnone htree hmovable (Nat.le_refl 2)
  rw [hout] at hinserted
  have hnew : out ≠ describedExif := of_decide_eq_true hinserted
  exact ⟨out, hout, hnew, htree'.resolve_left hnew⟩

end Reminisce
