import Mathlib.Data.List.AList

namespace FileSystem

structure Inode (B : Type) where
  bytes : List B
  mtime : Nat

/-- A file system without hard links: names lead to inodes, and an inode outlives its name
while somebody has it open. -/
structure Disk (P B : Type) where
  names : AList fun _ : P => Nat
  inodes : Nat → Inode B
  next : Nat

namespace Disk

variable {P B : Type} [DecidableEq P]

def empty : Disk P B := { names := ∅, inodes := fun _ => ⟨[], 0⟩, next := 0 }

/-- The bytes of the file under a name. -/
def read (d : Disk P B) (p : P) : Option (List B) :=
  (d.names.lookup p).map fun i => (d.inodes i).bytes

def put (d : Disk P B) (i : Nat) (file : Inode B) : Disk P B :=
  { d with inodes := Function.update d.inodes i file }

/-- Opens for appending and creates the file when it is missing. -/
def openAppend (d : Disk P B) (p : P) (now : Nat) : Disk P B × Nat :=
  match d.names.lookup p with
  | some i => (d, i)
  | none =>
    ({ names := d.names.insert p d.next, inodes := Function.update d.inodes d.next ⟨[], now⟩
       next := d.next + 1 }, d.next)

/-- Opens for writing, creates the file when it is missing and empties it when it is not. -/
def create (d : Disk P B) (p : P) (now : Nat) : Disk P B × Nat :=
  ((d.openAppend p now).1.put (d.openAppend p now).2 ⟨[], now⟩, (d.openAppend p now).2)

def append (d : Disk P B) (i : Nat) (data : List B) (now : Nat) : Disk P B :=
  d.put i ⟨(d.inodes i).bytes ++ data, now⟩

/-- Writes at an offset of the file; a gap before it is filled with `zero`. -/
def writeAt (d : Disk P B) (zero : B) (i offset : Nat) (data : List B) (now : Nat) : Disk P B :=
  let old := (d.inodes i).bytes
  d.put i ⟨old.take offset ++ List.replicate (offset - old.length) zero ++ data ++
    old.drop (offset + data.length), now⟩

def remove (d : Disk P B) (p : P) : Disk P B := { d with names := d.names.erase p }

/-- Gives the file another name, in one step and over whatever had that name. -/
def rename (d : Disk P B) (p q : P) : Disk P B :=
  match d.names.lookup p with
  | some i => { d with names := (d.names.erase p).insert q i }
  | none => d

/-- Every name has an inode of its own, and new inodes are new. -/
structure Sound (d : Disk P B) : Prop where
  bounded : ∀ p i, d.names.lookup p = some i → i < d.next
  separate : ∀ p q i, d.names.lookup p = some i → d.names.lookup q = some i → p = q

/-- An inode that no name of the kind `aside` leads to. -/
def Sealed (aside : P → Prop) (d : Disk P B) (i : Nat) : Prop :=
  i < d.next ∧ ∀ p, d.names.lookup p = some i → ¬ aside p

/-- What an operation on the names in `touched` does: the files under other names and the
sealed inodes stay as they are. -/
structure Touches (aside touched : P → Prop) (d e : Disk P B) : Prop where
  sound : e.Sound
  names : ∀ p, ¬ touched p → e.names.lookup p = d.names.lookup p
  bytes : ∀ p i, ¬ touched p → d.names.lookup p = some i →
    (e.inodes i).bytes = (d.inodes i).bytes
  sealed : ∀ i, d.Sealed aside i → e.Sealed aside i ∧ (e.inodes i).bytes = (d.inodes i).bytes

variable {aside touched : P → Prop} {d e f : Disk P B} {p q : P} {i : Nat}

theorem read_of_lookup (h : d.names.lookup p = some i) : d.read p = some (d.inodes i).bytes := by
  simp [read, h]

omit [DecidableEq P] in
/-- Writing at the end of a file appends. -/
theorem bytes_writeAt_end {offset : Nat} (hlen : (d.inodes i).bytes.length = offset) (zero : B)
    (data : List B) (now : Nat) :
    ((d.writeAt zero i offset data now).inodes i).bytes = (d.inodes i).bytes ++ data := by
  subst hlen
  simp [writeAt, put]

theorem sound_empty : (empty : Disk P B).Sound :=
  ⟨fun p i h => by simp [empty] at h, fun p q i h => by simp [empty] at h⟩

theorem Touches.refl (hd : d.Sound) : Touches aside touched d d :=
  ⟨hd, fun _ _ => rfl, fun _ _ _ _ => rfl, fun _ hi => ⟨hi, rfl⟩⟩

theorem Touches.mono {wider : P → Prop} (h : Touches aside touched d e)
    (hsub : ∀ p, touched p → wider p) : Touches aside wider d e :=
  ⟨h.sound, fun p hp => h.names p fun ht => hp (hsub p ht),
    fun p i hp => h.bytes p i fun ht => hp (hsub p ht), h.sealed⟩

theorem Touches.trans (h : Touches aside touched d e) (h' : Touches aside touched e f) :
    Touches aside touched d f := by
  refine ⟨h'.sound, ?_, ?_, ?_⟩
  · intro p hp
    rw [h'.names p hp, h.names p hp]
  · intro p i hp hi
    have he : e.names.lookup p = some i := by rw [h.names p hp, hi]
    rw [h'.bytes p i hp he, h.bytes p i hp hi]
  · intro i hi
    obtain ⟨he, hbytes⟩ := h.sealed i hi
    obtain ⟨hf, hbytes'⟩ := h'.sealed i he
    exact ⟨hf, by rw [hbytes', hbytes]⟩

theorem Touches.read (h : Touches aside touched d e) (hp : ¬ touched p) : e.read p = d.read p := by
  unfold Disk.read
  rw [h.names p hp]
  cases hi : d.names.lookup p with
  | none => rfl
  | some i => simp [h.bytes p i hp hi]

/-- Writing to the file under a name that is aside. -/
theorem touches_put (hd : d.Sound) (hp : aside p) (hi : d.names.lookup p = some i)
    (file : Inode B) : Touches aside (· = p) d (d.put i file) := by
  refine ⟨⟨hd.bounded, hd.separate⟩, fun _ _ => rfl, ?_, ?_⟩
  · intro q j hq hj
    have hji : j ≠ i := fun heq => hq (hd.separate q p i (heq ▸ hj) hi)
    simp [put, hji]
  · intro j hj
    have hji : j ≠ i := fun heq => hj.2 p (heq ▸ hi) hp
    exact ⟨hj, by simp [put, hji]⟩

theorem lookup_openAppend (d : Disk P B) (p : P) (now : Nat) :
    (d.openAppend p now).1.names.lookup p = some (d.openAppend p now).2 := by
  unfold openAppend
  split
  next i hi => exact hi
  next => simp

theorem touches_openAppend (hd : d.Sound) (hp : aside p) (now : Nat) :
    Touches aside (· = p) d (d.openAppend p now).1 := by
  unfold openAppend
  split
  next => exact .refl hd
  next hnone =>
    refine ⟨⟨?_, ?_⟩, ?_, ?_, ?_⟩
    · intro q j hj
      by_cases hq : q = p
      · subst hq
        rw [AList.lookup_insert] at hj
        exact Option.some.inj hj ▸ Nat.lt_succ_self d.next
      · rw [AList.lookup_insert_ne hq] at hj
        exact Nat.lt_succ_of_lt (hd.bounded q j hj)
    · intro q r j hj hk
      by_cases hq : q = p <;> by_cases hr : r = p
      · rw [hq, hr]
      · subst hq
        rw [AList.lookup_insert_ne hr] at hk
        simp only [AList.lookup_insert, Option.some.injEq] at hj
        have := hd.bounded r j hk
        omega
      · subst hr
        rw [AList.lookup_insert_ne hq] at hj
        simp only [AList.lookup_insert, Option.some.injEq] at hk
        have := hd.bounded q j hj
        omega
      · rw [AList.lookup_insert_ne hq] at hj
        rw [AList.lookup_insert_ne hr] at hk
        exact hd.separate q r j hj hk
    · intro q hq
      exact AList.lookup_insert_ne hq
    · intro q j _ hj
      have := hd.bounded q j hj
      have hne : j ≠ d.next := by omega
      simp [hne]
    · intro j hj
      have hne : j ≠ d.next := by have := hj.1; omega
      refine ⟨⟨Nat.lt_succ_of_lt hj.1, ?_⟩, by simp [hne]⟩
      intro q hq
      by_cases hqp : q = p
      · subst hqp
        simp only [AList.lookup_insert, Option.some.injEq] at hq
        exact absurd hq.symm hne
      · rw [AList.lookup_insert_ne hqp] at hq
        exact hj.2 q hq

theorem touches_create (hd : d.Sound) (hp : aside p) (now : Nat) :
    Touches aside (· = p) d (d.create p now).1 :=
  (touches_openAppend hd hp now).trans
    (touches_put (touches_openAppend hd hp now).sound hp (lookup_openAppend d p now) _)

theorem touches_remove (hd : d.Sound) (p : P) : Touches aside (· = p) d (d.remove p) := by
  have hsub : ∀ q j, (d.remove p).names.lookup q = some j → d.names.lookup q = some j := by
    intro q j hj
    by_cases hq : q = p
    · subst hq
      simp [remove] at hj
    · rwa [remove, AList.lookup_erase_ne hq] at hj
  refine ⟨⟨?_, ?_⟩, ?_, fun _ _ _ _ => rfl, ?_⟩
  · intro q j hj
    exact hd.bounded q j (hsub q j hj)
  · intro q r j hj hk
    exact hd.separate q r j (hsub q j hj) (hsub r j hk)
  · intro q hq
    exact AList.lookup_erase_ne hq
  · intro j hj
    exact ⟨⟨hj.1, fun q hq => hj.2 q (hsub q j hq)⟩, rfl⟩

theorem lookup_rename (h : d.names.lookup p = some i) (r : P) :
    (d.rename p q).names.lookup r =
      if r = q then some i else if r = p then none else d.names.lookup r := by
  simp only [rename, h]
  by_cases hq : r = q
  · subst hq
    simp
  · rw [AList.lookup_insert_ne hq, if_neg hq]
    by_cases hp : r = p
    · subst hp
      simp
    · rw [AList.lookup_erase_ne hp, if_neg hp]

/-- A file gets a name that is not aside. -/
theorem touches_rename (hd : d.Sound) (hq : ¬ aside q) (h : d.names.lookup p = some i) :
    Touches aside (fun r => r = p ∨ r = q) d (d.rename p q) := by
  have hinodes : (d.rename p q).inodes = d.inodes := by simp [rename, h]
  have hnext : (d.rename p q).next = d.next := by simp [rename, h]
  have hold : ∀ r j, (d.rename p q).names.lookup r = some j →
      (r = q ∧ j = i) ∨ (r ≠ p ∧ d.names.lookup r = some j) := by
    intro r j hj
    rw [lookup_rename h] at hj
    split at hj
    next hr => exact .inl ⟨hr, (Option.some.inj hj).symm⟩
    next =>
      split at hj
      next => simp at hj
      next hr => exact .inr ⟨hr, hj⟩
  refine ⟨⟨?_, ?_⟩, ?_, ?_, ?_⟩
  · intro r j hj
    rw [hnext]
    rcases hold r j hj with ⟨_, rfl⟩ | ⟨_, hj⟩
    · exact hd.bounded p j h
    · exact hd.bounded r j hj
  · intro r r' j hj hj'
    rcases hold r j hj with ⟨hr, hi⟩ | ⟨hr, hn⟩ <;>
      rcases hold r' j hj' with ⟨hr', hi'⟩ | ⟨hr', hn'⟩
    · rw [hr, hr']
    · exact absurd (hd.separate r' p j hn' (hi ▸ h)) hr'
    · exact absurd (hd.separate r p j hn (hi' ▸ h)) hr
    · exact hd.separate r r' j hn hn'
  · intro r hr
    rw [lookup_rename h, if_neg fun h => hr (.inr h), if_neg fun h => hr (.inl h)]
  · intro r j _ _
    rw [hinodes]
  · intro j hj
    refine ⟨⟨by rw [hnext]; exact hj.1, ?_⟩, by rw [hinodes]⟩
    intro r hr
    rcases hold r j hr with ⟨rfl, _⟩ | ⟨_, hr⟩
    · exact hq
    · exact hj.2 r hr

end Disk

end FileSystem
