import Reminisce.ExifBranches

namespace Reminisce

open ByteOrder Results

variable {tiff bytes data rest : Bytes} {endian : Order} {e4 pos width : Nat} {marks ms es : List Nat}

/-- Bytes written over others. -/
def overwrite (bytes : Bytes) (pos : Nat) (data : Bytes) : Bytes :=
  bytes.take pos ++ data ++ bytes.drop (pos + data.length)

theorem length_overwrite (h : pos + data.length ≤ bytes.length) :
    (overwrite bytes pos data).length = bytes.length := by
  simp only [overwrite, List.length_append, List.length_take, List.length_drop]
  omega

/-- What stands before or behind is not overwritten. -/
theorem numberAt_overwrite {field : Nat} (h : pos + data.length ≤ bytes.length)
    (hout : field + width ≤ pos ∨ pos + data.length ≤ field) :
    numberAt (overwrite bytes pos data) endian width field = numberAt bytes endian width field := by
  have htake : (bytes.take pos).length = pos := by
    rw [List.length_take]
    omega
  have hwindow : ((overwrite bytes pos data).drop field).take width =
      (bytes.drop field).take width := by
    rcases hout with hbefore | hbehind
    · rw [overwrite, List.append_assoc, List.drop_append_of_le_length (by omega),
        List.take_append_of_le_length (by rw [List.length_drop]; omega), List.drop_take,
        List.take_take, Nat.min_eq_left (by omega)]
    · have hsplit : field = (bytes.take pos ++ data).length + (field - (pos + data.length)) := by
        rw [List.length_append, htake]
        omega
      rw [overwrite, hsplit, List.drop_length_add_append, List.drop_drop, ← hsplit]
      exact congrArg (fun n => (bytes.drop n).take width) (by omega)
  rw [numberAt, numberAt, hwindow]

theorem numberAt_overwritten {n : Nat} (h : pos + width ≤ bytes.length) (hn : n < 256 ^ width) :
    numberAt (overwrite bytes pos (endian.encode width n)) endian width pos = n :=
  numberAt_append (by rw [List.length_take]; omega) hn

theorem length_blocks {f : Nat → Bytes} {n : Nat} (hf : ∀ k < n, (f k).length = width) :
    ((List.range n).flatMap f).length = width * n := by
  induction n with
  | zero => rfl
  | succ n ih =>
    rw [List.range_succ, List.flatMap_append, List.length_append,
      ih fun k hk => hf k (Nat.lt_succ_of_lt hk), List.flatMap_singleton,
      hf n (Nat.lt_succ_self n), Nat.mul_succ]

theorem drop_blocks {f : Nat → Bytes} {k n : Nat} (hf : ∀ k < n, (f k).length = width)
    (hk : k < n) : ∃ rest, ((List.range n).flatMap f).drop (width * k) = f k ++ rest := by
  induction n with
  | zero => omega
  | succ n ih =>
    have hf' : ∀ k < n, (f k).length = width := fun k hk => hf k (Nat.lt_succ_of_lt hk)
    have hlen := length_blocks hf'
    rw [List.range_succ, List.flatMap_append, List.flatMap_singleton]
    rcases Nat.lt_succ_iff_lt_or_eq.mp hk with hlt | rfl
    · obtain ⟨rest, hrest⟩ := ih hf' hlt
      have hle : width * k ≤ width * n := Nat.mul_le_mul_left width (Nat.le_of_lt hlt)
      refine ⟨rest ++ f n, ?_⟩
      rw [List.drop_append_of_le_length (by omega), hrest, List.append_assoc]
    · exact ⟨[], by rw [List.drop_left' hlen, List.append_nil]⟩

/-- An entry of IFD0 in the new structure. -/
def movedEntry (tiff : Bytes) (endian : Order) (marks : List Nat) (e : Nat) : Bytes :=
  if e + 8 ∈ marks then
    (tiff.drop e).take 8 ++ endian.encode 4 (numberAt tiff endian 4 (e + 8) + 12)
  else (tiff.drop e).take 12

/-- A pointer behind IFD0 that is moved there. -/
def MovesAt (tiff : Bytes) (endian : Order) (e4 m : Nat) : Prop :=
  (e4 ≤ m ∧ m + 4 ≤ tiff.length) ∧ e4 ≤ numberAt tiff endian 4 m ∧
    numberAt tiff endian 4 m + 12 ≤ tiff.length

instance (tiff : Bytes) (endian : Order) (e4 m : Nat) : Decidable (MovesAt tiff endian e4 m) :=
  inferInstanceAs (Decidable (_ ∧ _))

def movedRest (tiff : Bytes) (endian : Order) (e4 : Nat) : List Nat → Bytes → Bytes
  | [], rest => rest
  | m :: ms, rest =>
    movedRest tiff endian e4 ms
      (if MovesAt tiff endian e4 m then
        overwrite rest (m - e4) (endian.encode 4 (numberAt tiff endian 4 m + 12))
      else rest)

theorem length_movedEntry {e : Nat} (h : e + 12 ≤ tiff.length) :
    (movedEntry tiff endian marks e).length = 12 := by
  rw [movedEntry]
  split
  next => simp only [List.length_append, List.length_take, List.length_drop,
    Order.length_encode]; omega
  next => simp only [List.length_take, List.length_drop]; omega

theorem relocateEntries_eq (h : ∀ e ∈ es, e + 12 ≤ tiff.length) :
    relocateEntries tiff endian marks es =
      .ok (some (es.flatMap (movedEntry tiff endian marks))) := by
  induction es with
  | nil => rfl
  | cons e es ih =>
    obtain ⟨he, hes⟩ := List.forall_mem_cons.mp h
    have hentry : getRange tiff e (e + 12) = some ((tiff.drop e).take 12) := by
      rw [getRange_some (Nat.le_add_right _ _) he, Nat.add_sub_cancel_left]
    rw [relocateEntries, indexRange, hentry, ok_bind, ih hes, List.flatMap_cons, movedEntry]
    split
    next =>
      obtain ⟨range, hrange⟩ := exists_range (show e + 8 + 4 ≤ tiff.length by omega)
      have hvalue : getRange ((tiff.drop e).take 12) 8 12 = some range := by
        rw [getRange_getRange hentry (by decide) (by omega), ← hrange]
      have hlen : ((tiff.drop e).take 12).length = 12 := by
        rw [List.length_take, List.length_drop]
        omega
      have hencode := endian.length_encode 4 (numberAt tiff endian 4 (e + 8) + 12)
      rw [hvalue, Option.bind_some, readNumber_range hrange]
      dsimp only
      have hnil : ((tiff.drop e).take 12).drop (8 + 4) = [] := List.drop_eq_nil_of_le (by omega)
      rw [copyInto_ok (by omega), hencode, hnil, List.append_nil, List.take_take]
      rfl
    next => rfl

theorem relocateRest_eq (h : rest.length + e4 = tiff.length) :
    relocateRest tiff endian e4 ms rest = .ok (some (movedRest tiff endian e4 ms rest)) := by
  induction ms generalizing rest with
  | nil => rfl
  | cons m ms ih =>
    rw [relocateRest, movedRest]
    split
    next hin =>
      obtain ⟨range, hrange, hread⟩ := @readNumber_index tiff endian m 4 hin.2
      rw [hrange, ok_bind, hread]
      dsimp only
      split
      next hold =>
        have hencode := endian.length_encode 4 (numberAt tiff endian 4 m + 12)
        have hfits : m - e4 + (endian.encode 4 (numberAt tiff endian 4 m + 12)).length ≤
            rest.length := by omega
        rw [copyInto_ok hfits, ok_bind, if_pos ⟨hin, hold⟩]
        refine ih ?_
        rw [← h, ← length_overwrite hfits]
        rfl
      next hold => rw [if_neg fun h' => hold h'.2, ih h]
    next hout => rw [if_neg fun h' => hout h'.1, ih h]

theorem length_movedRest (h : rest.length + e4 = tiff.length) :
    (movedRest tiff endian e4 ms rest).length = rest.length := by
  induction ms generalizing rest with
  | nil => rfl
  | cons m ms ih =>
    rw [movedRest]
    split
    next hmoves =>
      have hencode := endian.length_encode 4 (numberAt tiff endian 4 m + 12)
      obtain ⟨⟨hm, hm'⟩, -⟩ := hmoves
      have hlen : (overwrite rest (m - e4)
          (endian.encode 4 (numberAt tiff endian 4 m + 12))).length = rest.length :=
        length_overwrite (by omega)
      rw [ih (by omega), hlen]
    next => exact ih h

section Insert

variable (order : HashOrder) (ifd0 : Ifd0 tiff) (marks : List Nat) (orientation : Nat)

/-- The pointer to the next IFD in the new structure. -/
def movedNext : Nat :=
  if ifd0.entriesEnd ∈ marks then numberAt tiff ifd0.endian 4 ifd0.entriesEnd + 12
  else numberAt tiff ifd0.endian 4 ifd0.entriesEnd

/-- The new TIFF structure. -/
def patchedTiff : Bytes :=
  tiff.take ifd0.off ++ ifd0.endian.encode 2 (ifd0.count + 1) ++
    ifd0.positions.flatMap (movedEntry tiff ifd0.endian marks) ++
    orientationEntry ifd0.endian orientation ++ ifd0.endian.encode 4 (movedNext ifd0 marks) ++
    movedRest tiff ifd0.endian (ifd0.entriesEnd + 4) (order.iterate marks)
      (tiff.drop (ifd0.entriesEnd + 4))

variable {order} {ifd0} {marks} {orientation} {checks : Bool} {calls : Nat}

theorem insertOrientation_moved
    (h : walkIfd checks tiff ifd0.endian (ifd0.entriesEnd + 4) calls ifd0.off 0 [] =
      .ok (some marks)) :
    insertOrientation order checks calls tiff ifd0 orientation =
      .ok (some (patchedTiff order ifd0 marks orientation)) := by
  have hend := ifd0.entriesEnd_le
  have hoff : ifd0.off ≤ tiff.length := by
    have hfits := ifd0.fits
    omega
  have hcount : increment checks 16 ifd0.count = .ok (ifd0.count + 1) := by
    have hlt := ifd0.count_lt
    exact if_pos (by omega)
  have hheader : indexRange tiff 0 ifd0.off = .ok (tiff.take ifd0.off) := by
    rw [indexRange_ok (Nat.zero_le _) hoff]
    rfl
  obtain ⟨range, hrange, hread⟩ :=
    @readNumber_index tiff ifd0.endian ifd0.entriesEnd 4 (by omega)
  have hrest : indexRange tiff (ifd0.entriesEnd + 4) tiff.length =
      .ok (tiff.drop (ifd0.entriesEnd + 4)) := by
    rw [indexRange_ok hend (Nat.le_refl _), List.take_of_length_le (by simp)]
  have hlen : (tiff.drop (ifd0.entriesEnd + 4)).length + (ifd0.entriesEnd + 4) = tiff.length := by
    rw [List.length_drop]
    omega
  rw [insertOrientation]
  dsimp only
  rw [h, ok_bind]
  dsimp only
  rw [hheader, hcount, ok_bind, ok_bind, relocateEntries_eq (fun e he => ifd0.entry_within he),
    ok_bind]
  dsimp only
  rw [hrange, ok_bind, hread]
  dsimp only
  rw [hrest, ok_bind, relocateRest_eq hlen]
  rfl

theorem insertOrientation_unmoved
    (h : walkIfd checks tiff ifd0.endian (ifd0.entriesEnd + 4) calls ifd0.off 0 [] = .ok none) :
    insertOrientation order checks calls tiff ifd0 orientation = .ok none := by
  rw [insertOrientation]
  dsimp only
  rw [h]
  rfl

theorem insertOrientation_fault {fault : PatchFault}
    (h : walkIfd checks tiff ifd0.endian (ifd0.entriesEnd + 4) calls ifd0.off 0 [] =
      .error fault) :
    insertOrientation order checks calls tiff ifd0 orientation = .error fault := by
  rw [insertOrientation]
  dsimp only
  rw [h]
  rfl

/-- The entries one after the other. -/
theorem movedEntries_eq (ifd0 : Ifd0 tiff) (marks : List Nat) :
    ifd0.positions.flatMap (movedEntry tiff ifd0.endian marks) =
      (List.range ifd0.count).flatMap fun i =>
        movedEntry tiff ifd0.endian marks (ifd0.off + 2 + i * 12) :=
  List.flatMap_map _ _ _

theorem length_movedEntryAt (ifd0 : Ifd0 tiff) (marks : List Nat) {i : Nat} (hi : i < ifd0.count) :
    (movedEntry tiff ifd0.endian marks (ifd0.off + 2 + i * 12)).length = 12 :=
  length_movedEntry (ifd0.entry_within (mem_entryPositions.mpr ⟨i, hi, rfl⟩))

theorem length_movedEntries (ifd0 : Ifd0 tiff) (marks : List Nat) :
    (ifd0.positions.flatMap (movedEntry tiff ifd0.endian marks)).length = 12 * ifd0.count := by
  rw [movedEntries_eq, length_blocks fun i hi => length_movedEntryAt ifd0 marks hi]

theorem length_orientationEntry (endian : Order) (orientation : Nat) :
    (orientationEntry endian orientation).length = 12 := by
  simp [orientationEntry]

/-- The new structure is 12 bytes longer. -/
theorem length_patchedTiff :
    (patchedTiff order ifd0 marks orientation).length = tiff.length + 12 := by
  have hend := ifd0.entriesEnd_le
  have hentries : ifd0.entriesEnd = ifd0.off + 2 + ifd0.count * 12 := rfl
  have hrest : (tiff.drop (ifd0.entriesEnd + 4)).length + (ifd0.entriesEnd + 4) = tiff.length := by
    rw [List.length_drop]
    omega
  simp only [patchedTiff, List.length_append, List.length_take, Order.length_encode,
    length_movedEntries, length_orientationEntry, length_movedRest hrest]
  omega

end Insert

end Reminisce
