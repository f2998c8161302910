import Mathlib.Data.Vector.Basic
import Reminisce.Library.Bincode

namespace Codecs

open Bincode ByteOrder

/-- How values are spelled and read, one the inverse of the other for every value whose bytes can be
addressed. -/
structure Codec (α : Type) where
  encode : α → Octets
  decode : Octets → Option (α × Octets)
  decode_encode : ∀ a rest, (encode a).length < 2 ^ 64 → decode (encode a ++ rest) = some (a, rest)
  encode_decode : ∀ {octets a rest}, decode octets = some (a, rest) → octets = encode a ++ rest

theorem readUint_eq_some {width n : Nat} {octets rest : Octets}
    (h : readUint width octets = some (n, rest)) :
    n < 256 ^ width ∧ octets = toLe width n ++ rest := by
  induction width generalizing octets n with
  | zero =>
    cases h
    exact ⟨Nat.one_pos, rfl⟩
  | succ width ih =>
    cases octets with
    | nil => cases h
    | cons b octets =>
      obtain ⟨⟨m, rest'⟩, hread, heq⟩ := Option.map_eq_some_iff.mp h
      cases heq
      obtain ⟨hlt, rfl⟩ := ih hread
      have hb := b.toNat_lt
      have hdiv : (b.toNat + 256 * m) / 256 = m := by omega
      have hmod : UInt8.ofNat (b.toNat + 256 * m) = b := by
        refine UInt8.toNat_inj.mp ?_
        rw [UInt8.toNat_ofNat']
        omega
      refine ⟨?_, ?_⟩
      · rw [Nat.pow_succ]
        omega
      · rw [toLe, hdiv, hmod, List.cons_append]

theorem readExact_eq_some {n : Nat} {octets data rest : Octets}
    (h : readExact n octets = some (data, rest)) : data.length = n ∧ octets = data ++ rest := by
  unfold readExact at h
  split at h
  next hle =>
    cases h
    exact ⟨List.length_take_of_le hle, (List.take_append_drop n octets).symm⟩
  next => cases h

theorem readVec_eq_some {octets data rest : Octets} (h : readVec octets = some (data, rest)) :
    octets = vec data ++ rest := by
  obtain ⟨⟨n, mid⟩, hread, h⟩ := Option.bind_eq_some_iff.mp h
  obtain ⟨hlen, hmid⟩ := readExact_eq_some h
  obtain ⟨-, hoctets⟩ := readUint_eq_some hread
  dsimp only at hlen hmid
  rw [hoctets, hmid, vec, hlen, List.append_assoc]

namespace Codec

variable {α β : Type}

def unit : Codec Unit where
  encode _ := []
  decode octets := some ((), octets)
  decode_encode _ _ _ := rfl
  encode_decode h := by
    cases h
    rfl

/-- The same bytes for other values. -/
def mapped (codec : Codec α) (into : α → β) (back : β → α) (hinto : ∀ b, into (back b) = b)
    (hback : ∀ a, back (into a) = a) : Codec β where
  encode b := codec.encode (back b)
  decode octets := (codec.decode octets).map fun r => (into r.1, r.2)
  decode_encode b rest h := by rw [codec.decode_encode _ _ h, Option.map_some, hinto]
  encode_decode h := by
    obtain ⟨⟨a, rest⟩, hdecode, heq⟩ := Option.map_eq_some_iff.mp h
    cases heq
    rw [hback]
    exact codec.encode_decode hdecode

/-- One value behind the other. -/
def pair (first : Codec α) (second : Codec β) : Codec (α × β) where
  encode p := first.encode p.1 ++ second.encode p.2
  decode octets := (first.decode octets).bind fun r =>
    (second.decode r.2).map fun q => ((r.1, q.1), q.2)
  decode_encode p rest h := by
    rw [List.length_append] at h
    rw [List.append_assoc, first.decode_encode _ _ (by omega), Option.bind_some,
      second.decode_encode _ _ (by omega), Option.map_some]
  encode_decode h := by
    obtain ⟨⟨a, mid⟩, hfirst, h⟩ := Option.bind_eq_some_iff.mp h
    obtain ⟨⟨b, rest⟩, hsecond, heq⟩ := Option.map_eq_some_iff.mp h
    have hmid : mid = second.encode b ++ rest := second.encode_decode hsecond
    cases heq
    rw [first.encode_decode hfirst, hmid, List.append_assoc]

/-- A number of a fixed width. -/
def uint (width : Nat) (into : Nat → α) (back : α → Nat) (hlt : ∀ a, back a < 256 ^ width)
    (hinto : ∀ a, into (back a) = a) (hback : ∀ n < 256 ^ width, back (into n) = n) : Codec α where
  encode a := toLe width (back a)
  decode octets := (readUint width octets).map fun r => (into r.1, r.2)
  decode_encode a rest _ := by rw [readUint_toLe (hlt a), Option.map_some, hinto]
  encode_decode h := by
    obtain ⟨⟨n, rest⟩, hread, heq⟩ := Option.map_eq_some_iff.mp h
    cases heq
    obtain ⟨hn, rfl⟩ := readUint_eq_some hread
    rw [hback n hn]

def u8 : Codec UInt8 :=
  uint 1 UInt8.ofNat UInt8.toNat (fun a => a.toNat_lt) (fun a => UInt8.ofNat_toNat)
    fun n h => by rw [UInt8.toNat_ofNat', Nat.mod_eq_of_lt (by simpa using h)]

def u16 : Codec UInt16 :=
  uint 2 UInt16.ofNat UInt16.toNat (fun a => a.toNat_lt) (fun a => UInt16.ofNat_toNat)
    fun n h => by rw [UInt16.toNat_ofNat', Nat.mod_eq_of_lt (by simpa using h)]

def u32 : Codec UInt32 :=
  uint 4 UInt32.ofNat UInt32.toNat (fun a => a.toNat_lt) (fun a => UInt32.ofNat_toNat)
    fun n h => by rw [UInt32.toNat_ofNat', Nat.mod_eq_of_lt (by simpa using h)]

def u64 : Codec UInt64 :=
  uint 8 UInt64.ofNat UInt64.toNat (fun a => a.toNat_lt) (fun a => UInt64.ofNat_toNat)
    fun n h => by rw [UInt64.toNat_ofNat', Nat.mod_eq_of_lt (by simpa using h)]

/-- A byte, 0 or 1. -/
def bool : Codec Bool where
  encode b := [if b then 1 else 0]
  decode
    | 0 :: rest => some (false, rest)
    | 1 :: rest => some (true, rest)
    | _ => none
  decode_encode b _ _ := by cases b <;> rfl
  encode_decode h := by
    split at h
    · cases h
      rfl
    · cases h
      rfl
    · cases h

/-- So many bytes. -/
def array (n : Nat) : Codec (List.Vector UInt8 n) where
  encode v := v.toList
  decode octets :=
    if h : n ≤ octets.length then some (⟨octets.take n, List.length_take_of_le h⟩, octets.drop n)
    else none
  decode_encode v rest _ := by
    have hlen : n ≤ (v.toList ++ rest).length := by simp
    rw [dif_pos hlen]
    have htake : (v.toList ++ rest).take n = v.toList := List.take_left' v.toList_length
    have hdrop : (v.toList ++ rest).drop n = rest := List.drop_left' v.toList_length
    exact congrArg some (Prod.ext (Subtype.ext htake) hdrop)
  encode_decode h := by
    split at h
    next hle =>
      cases h
      exact (List.take_append_drop n _).symm
    next => cases h

/-- Bytes behind their number. -/
def bytes : Codec Octets where
  encode := vec
  decode := readVec
  decode_encode data rest h := by
    rw [length_vec] at h
    exact readVec_vec (by omega) rest
  encode_decode h := readVec_eq_some h

/-- A text, which has to be UTF-8. -/
def text : Codec String where
  encode s := vec s.toByteArray.data.toList
  decode octets := (readVec octets).bind fun r =>
    (String.fromUTF8? ⟨r.1.toArray⟩).map fun s => (s, r.2)
  decode_encode s rest h := by
    rw [length_vec] at h
    have hback : String.fromUTF8? ⟨s.toByteArray.data.toList.toArray⟩ = some s :=
      dif_pos s.isValidUTF8
    rw [readVec_vec (by omega), Option.bind_some, hback, Option.map_some]
  encode_decode h := by
    obtain ⟨⟨data, mid⟩, hread, h⟩ := Option.bind_eq_some_iff.mp h
    obtain ⟨s, hs, heq⟩ := Option.map_eq_some_iff.mp h
    have hdata : s.toByteArray.data.toList = data := by
      unfold String.fromUTF8? at hs
      split at hs
      next hvalid =>
        cases hs
        rfl
      next => cases hs
    cases heq
    rw [readVec_eq_some hread, hdata]

/-- A byte that says whether the value is there. -/
def option (codec : Codec α) : Codec (Option α) where
  encode
    | none => [0]
    | some a => 1 :: codec.encode a
  decode
    | 0 :: rest => some (none, rest)
    | 1 :: rest => (codec.decode rest).map fun r => (some r.1, r.2)
    | _ => none
  decode_encode a rest h := by
    cases a with
    | none => rfl
    | some a =>
      rw [List.length_cons] at h
      change (codec.decode (codec.encode a ++ rest)).map _ = _
      rw [codec.decode_encode _ _ (by omega), Option.map_some]
  encode_decode h := by
    split at h
    · cases h
      rfl
    · obtain ⟨⟨a, rest⟩, hdecode, heq⟩ := Option.map_eq_some_iff.mp h
      cases heq
      rw [codec.encode_decode hdecode]
      rfl
    · cases h

/-- So many values in a row. -/
def decodeMany (codec : Codec α) : Nat → Octets → Option (List α × Octets)
  | 0, octets => some ([], octets)
  | n + 1, octets => (codec.decode octets).bind fun r =>
    (decodeMany codec n r.2).map fun q => (r.1 :: q.1, q.2)

theorem decodeMany_encode (codec : Codec α) (as : List α) (rest : Octets)
    (h : (as.flatMap codec.encode).length < 2 ^ 64) :
    codec.decodeMany as.length (as.flatMap codec.encode ++ rest) = some (as, rest) := by
  induction as with
  | nil => rfl
  | cons a as ih =>
    rw [List.flatMap_cons, List.length_append] at h
    rw [List.flatMap_cons, List.append_assoc, List.length_cons, decodeMany,
      codec.decode_encode _ _ (by omega), Option.bind_some, ih (by omega), Option.map_some]

theorem encode_decodeMany (codec : Codec α) {n : Nat} {octets rest : Octets} {as : List α}
    (h : codec.decodeMany n octets = some (as, rest)) :
    as.length = n ∧ octets = as.flatMap codec.encode ++ rest := by
  induction n generalizing octets as rest with
  | zero =>
    cases h
    exact ⟨rfl, rfl⟩
  | succ n ih =>
    obtain ⟨⟨a, mid⟩, hfirst, h⟩ := Option.bind_eq_some_iff.mp h
    obtain ⟨⟨as', rest'⟩, hmany, heq⟩ := Option.map_eq_some_iff.mp h
    obtain ⟨hlen, hmid⟩ := ih hmany
    cases heq
    refine ⟨congrArg (· + 1) hlen, ?_⟩
    dsimp only at hmid
    rw [codec.encode_decode hfirst, hmid, List.flatMap_cons, List.append_assoc]

/-- Values behind their number. -/
def list (codec : Codec α) (hpos : ∀ a, 0 < (codec.encode a).length) : Codec (List α) where
  encode as := toLe 8 as.length ++ as.flatMap codec.encode
  decode octets := (readUint 8 octets).bind fun r => codec.decodeMany r.1 r.2
  decode_encode as rest h := by
    have hle : as.length ≤ (as.flatMap codec.encode).length := by
      clear h
      induction as with
      | nil => exact Nat.le_refl 0
      | cons a as ih =>
        have ha := hpos a
        rw [List.flatMap_cons, List.length_append, List.length_cons]
        omega
    rw [List.length_append, length_toLe] at h
    have hcount : as.length < 256 ^ 8 := by
      have : (256 : Nat) ^ 8 = 2 ^ 64 := rfl
      omega
    rw [List.append_assoc, readUint_toLe hcount, Option.bind_some,
      codec.decodeMany_encode as rest (by omega)]
  encode_decode h := by
    obtain ⟨⟨n, mid⟩, hread, h⟩ := Option.bind_eq_some_iff.mp h
    obtain ⟨-, hoctets⟩ := readUint_eq_some hread
    obtain ⟨hlen, hmid⟩ := codec.encode_decodeMany h
    dsimp only at hlen hmid
    rw [hoctets, hmid, hlen, List.append_assoc]

/-- A value of one of several kinds, behind the number of its kind. -/
def tagged {K : Type} [DecidableEq K] {F : K → Type} (kinds : List K) (hnodup : kinds.Nodup)
    (hall : ∀ k, k ∈ kinds) (hfew : kinds.length < 2 ^ 32) (codec : (k : K) → Codec (F k)) :
    Codec (Σ k, F k) where
  encode a := toLe 4 (kinds.idxOf a.1) ++ (codec a.1).encode a.2
  decode octets := (readUint 4 octets).bind fun r => kinds[r.1]?.bind fun k =>
    ((codec k).decode r.2).map fun q => (⟨k, q.1⟩, q.2)
  decode_encode a rest h := by
    obtain ⟨k, fields⟩ := a
    have hlt : kinds.idxOf k < kinds.length := List.idxOf_lt_length_of_mem (hall k)
    have hindex : kinds.idxOf k < 256 ^ 4 := by
      have : (256 : Nat) ^ 4 = 2 ^ 32 := rfl
      omega
    have hkind : kinds[kinds.idxOf k]? = some k := List.getElem?_idxOf (hall k)
    rw [List.length_append] at h
    have hfields : ((codec k).encode fields).length < 2 ^ 64 := Nat.lt_of_le_of_lt (Nat.le_add_left _ _) h
    rw [List.append_assoc, readUint_toLe hindex, Option.bind_some, hkind, Option.bind_some,
      (codec k).decode_encode fields rest hfields, Option.map_some]
  encode_decode h := by
    obtain ⟨⟨n, mid⟩, hread, h⟩ := Option.bind_eq_some_iff.mp h
    obtain ⟨k, hkind, h⟩ := Option.bind_eq_some_iff.mp h
    obtain ⟨⟨fields, rest⟩, hdecode, heq⟩ := Option.map_eq_some_iff.mp h
    obtain ⟨-, hoctets⟩ := readUint_eq_some hread
    have hmid : mid = (codec k).encode fields ++ rest := (codec k).encode_decode hdecode
    have hindex : kinds.idxOf k = n := by
      obtain ⟨hn, hget⟩ := List.getElem?_eq_some_iff.mp hkind
      rw [← hget]
      exact hnodup.idxOf_getElem n hn
    cases heq
    rw [hoctets, hmid, hindex, List.append_assoc]

end Codec

end Codecs
