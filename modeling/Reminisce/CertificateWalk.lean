import Reminisce.DirectMessages
import Reminisce.Library.Der
import Reminisce.Library.Results

namespace Reminisce

open Results

/-- How a walk over a certificate would not return: by an index out of bounds, or by going on
longer than the certificate. -/
inductive WalkFailure
  | panic
  | unfinished
  deriving DecidableEq, Repr

/-- `(tag, value_offset, value_len)`. -/
abbrev Tlv := UInt8 × Nat × Nat

/-- The length octets of a multi-byte length, `n` of them from `p` on. -/
def readLength (der : Bytes) : (n p l : Nat) → Option (Nat × Nat)
  | 0, p, l => some (l, p)
  | n + 1, p, l => do
    let b ← der[p]?
    readLength der n (p + 1) (l <<< 8 ||| b.toNat)

/-- The length after its first octet, and where the value starts. -/
def readDefiniteLength (der : Bytes) (first : UInt8) (p : Nat) : Option (Nat × Nat) :=
  if first &&& 0x80 = 0 then some (first.toNat, p)
  else
    let n := (first &&& 0x7f).toNat
    if n = 0 ∨ 4 < n then none else readLength der n p 0

def readTlv (der : Bytes) (pos : Nat) : Option Tlv := do
  let tag ← der[pos]?
  let first ← der[pos + 1]?
  let (len, valueStart) ← readDefiniteLength der first (pos + 2)
  if 2 ^ 64 ≤ valueStart + len then none
  else if der.length < valueStart + len then none
  else some (tag, valueStart, len)

def saturatingAdd (a b : Nat) : Nat := min (a + b) (2 ^ 64 - 1)

/-- The loop of `sequence_children`, for so many rounds. -/
def childrenFrom (der : Bytes) (stop : Nat) : (rounds pos : Nat) → Except WalkFailure (List Tlv)
  | 0, pos => if pos < stop then .error .unfinished else .ok []
  | rounds + 1, pos =>
    if pos < stop then
      match readTlv der pos with
      | some (tag, vs, vl) => do
        let out ← childrenFrom der stop rounds (saturatingAdd vs vl)
        pure ((tag, vs, vl) :: out)
      | none => .ok []
    else .ok []

def sequenceChildren (der : Bytes) (valueStart valueLen : Nat) : Except WalkFailure (List Tlv) :=
  childrenFrom der (saturatingAdd valueStart valueLen) (der.length + 1) valueStart

def slice (bytes : Bytes) (start stop : Nat) : Except WalkFailure Bytes :=
  if start ≤ stop ∧ stop ≤ bytes.length then .ok ((bytes.drop start).take (stop - start))
  else .error .panic

/-- The object identifier 1.3.101.112. -/
def ed25519Oid : Bytes := [0x2b, 0x65, 0x70]

/-- `key.copy_from_slice`. -/
def copyKey (bytes : Bytes) : Except WalkFailure Digest :=
  if h : bytes.length = 32 then .ok ⟨bytes, h⟩ else .error .panic

def parseEd25519Spki (der : Bytes) (spki : Tlv) : Except WalkFailure (Option Digest) :=
  if spki.1 ≠ 0x30 then .ok none
  else do
    match ← sequenceChildren der spki.2.1 spki.2.2 with
    | [(algTag, algVal, algLen), (bitTag, bitVal, bitLen)] =>
      if algTag ≠ 0x30 ∨ bitTag ≠ 0x03 then pure none
      else
        match (← sequenceChildren der algVal algLen).head? with
        | none => pure none
        | some (oidTag, oidVal, oidLen) =>
          if oidTag ≠ 0x06 then pure none
          else if (← slice der oidVal (oidVal + oidLen)) ≠ ed25519Oid then pure none
          else
            let bitString ← slice der bitVal (bitVal + bitLen)
            if bitLen < 33 then pure none
            else
              match bitString.head? with
              | none => .error .panic
              | some unused =>
                if unused ≠ 0 then pure none
                else
                  let key ← copyKey (← slice bitString 1 33)
                  pure (some key)
    | _ => pure none

/-- The loop over the indices at which the key is looked for. -/
def firstKey (der : Bytes) (tbs : List Tlv) : List Nat → Except WalkFailure (Option Digest)
  | [] => .ok none
  | idx :: rest =>
    match tbs[idx]? with
    | none => firstKey der tbs rest
    | some field => do
      match ← parseEd25519Spki der field with
      | some key => pure (some key)
      | none => firstKey der tbs rest

def extractPublicKey (certDer : Bytes) : Except WalkFailure (Option Digest) :=
  match readTlv certDer 0 with
  | none => .ok none
  | some (outerTag, certVal, certLen) =>
    if outerTag ≠ 0x30 then .ok none
    else do
      match (← sequenceChildren certDer certVal certLen).head? with
      | none => pure none
      | some (_, tbsVal, tbsLen) =>
        firstKey certDer (← sequenceChildren certDer tbsVal tbsLen) [6, 5]

/-- `rustls_pki_types::ServerName`, with the text of a DNS name. -/
inductive ServerName
  | dnsName (name : List Char)
  | ipAddress

/-- `verify_server_cert`, from the certificate on. -/
def verifyEndEntity (endEntity : Bytes) (serverName : ServerName) : Except String Unit :=
  match extractPublicKey endEntity with
  | .ok (some pubkey) =>
    match serverName with
    | .dnsName name => verifyServerCert pubkey name
    | .ipAddress => .error "Unsupported server name (expected hex Node ID)"
  | _ => .error "Invalid or missing Ed25519 public key in certificate"

open Der

variable {der before after : Bytes} {pos start stop rounds : Nat} {e : Element} {es : List Element}
  {field : Tlv} {fields : List Tlv}

theorem lengthOctet_cases (b : UInt8) :
    (b &&& 0x80 = 0 ↔ b.toNat < 128) ∧
      (128 ≤ b.toNat → b = UInt8.ofNat (128 + (b &&& 0x7f).toNat)) := by
  have all : ∀ n ∈ List.range 256, (UInt8.ofNat n &&& 0x80 = 0 ↔ n < 128) ∧
      (128 ≤ n → UInt8.ofNat n = UInt8.ofNat (128 + (UInt8.ofNat n &&& 0x7f).toNat)) := by
    decide +kernel
  have hb := all b.toNat (List.mem_range.mpr b.toNat_lt)
  rwa [UInt8.ofNat_toNat] at hb

theorem shift_or (l : Nat) (b : UInt8) : l <<< 8 ||| b.toNat = l * 256 + b.toNat := by
  rw [← Nat.shiftLeft_add_eq_or_of_lt b.toNat_lt, Nat.shiftLeft_eq]

/-- The length octets are read as a number in base 256. -/
theorem readLength_eq (digits : Bytes) (l : Nat) :
    readLength (before ++ (digits ++ after)) digits.length before.length l =
      some (digits.foldl (fun n b => n * 256 + b.toNat) l, before.length + digits.length) := by
  induction digits generalizing before l with
  | nil => rfl
  | cons b digits ih =>
    have hget : (before ++ (b :: digits ++ after))[before.length]? = some b := by simp
    have hnext := @ih (before ++ [b]) (l * 256 + b.toNat)
    rw [List.append_assoc, List.singleton_append, List.length_append, List.length_singleton] at hnext
    rw [List.length_cons, readLength, hget]
    simp only [Option.bind_eq_bind, Option.bind_some, shift_or]
    rw [List.cons_append, hnext, List.foldl_cons, Nat.add_assoc, Nat.add_comm 1]

/-- A number is read only where its octets are. -/
theorem readLength_some {n p l len next : Nat} (h : readLength der n p l = some (len, next)) :
    next = p + n ∧ next ≤ max p der.length := by
  induction n generalizing p l with
  | zero =>
    cases Option.some.inj h
    exact ⟨rfl, le_max_left _ _⟩
  | succ n ih =>
    rw [readLength] at h
    obtain ⟨b, hb, h⟩ := Option.bind_eq_some_iff.mp h
    obtain ⟨hlt, -⟩ := List.getElem?_eq_some_iff.mp hb
    obtain ⟨hnext, hle⟩ := ih h
    rw [max_eq_right (by omega)] at hle
    exact ⟨by omega, hle.trans (le_max_right _ _)⟩

/-- An element is read from the position where it stands. -/
theorem readTlv_element (hsmall : before.length + e.octets.length < 2 ^ 64) :
    readTlv (before ++ e.octets ++ after) before.length = some (e.place before.length) := by
  obtain ⟨tag, lengthOctets, content, spells⟩ := e
  simp only [Element.octets, Element.place, List.length_cons, List.length_append] at hsmall ⊢
  have htag : (before ++ tag :: (lengthOctets ++ content) ++ after)[before.length]? = some tag := by
    simp
  have hshape : before ++ tag :: (lengthOctets ++ content) ++ after =
      (before ++ [tag]) ++ (lengthOctets ++ (content ++ after)) := by simp
  have hfits : ¬(before ++ tag :: (lengthOctets ++ content) ++ after).length <
      before.length + 1 + lengthOctets.length + content.length := by
    simp only [List.length_append, List.length_cons]
    omega
  have hnum : ¬2 ^ 64 ≤ before.length + 1 + lengthOctets.length + content.length := by omega
  unfold readTlv
  generalize hn : content.length = n at spells hfits hnum
  rw [htag]
  cases spells with
  | short _ h =>
    have hfirst : (before ++ tag :: ([UInt8.ofNat n] ++ content) ++ after)[before.length + 1]? =
        some (UInt8.ofNat n) := by
      rw [hshape, List.getElem?_append_right (by simp)]
      simp
    have hvalue : (UInt8.ofNat n).toNat = n := by
      rw [UInt8.toNat_ofNat']
      omega
    have hshort : UInt8.ofNat n &&& 0x80 = 0 := (lengthOctet_cases _).1.mpr (by omega)
    simp only [List.length_singleton] at hfits hnum
    simp only [hfirst, Option.bind_eq_bind, Option.bind_some, readDefiniteLength, hshort, if_true,
      hvalue]
    rw [if_neg hnum, if_neg hfits]
    rfl
  | long digits hpos hle =>
    have hfirst : (before ++ tag :: (UInt8.ofNat (128 + digits.length) :: digits ++ content) ++
        after)[before.length + 1]? = some (UInt8.ofNat (128 + digits.length)) := by
      rw [hshape, List.getElem?_append_right (by simp)]
      simp
    have hcount : ∀ k ∈ List.range 5, ¬(UInt8.ofNat (128 + k) &&& 0x80 = 0) ∧
        (UInt8.ofNat (128 + k) &&& 0x7f).toNat = k := by decide
    obtain ⟨hlong, hdigits⟩ := hcount digits.length (List.mem_range.mpr (by omega))
    have hread := @readLength_eq (before ++ [tag, UInt8.ofNat (128 + digits.length)])
      (content ++ after) digits 0
    have hlist : before ++ tag :: (UInt8.ofNat (128 + digits.length) :: digits ++ content) ++ after =
        before ++ [tag, UInt8.ofNat (128 + digits.length)] ++ (digits ++ (content ++ after)) := by
      simp
    have hskip : (before ++ [tag, UInt8.ofNat (128 + digits.length)]).length = before.length + 2 := by
      simp
    rw [← hlist, hskip] at hread
    simp only [List.length_cons] at hfits hnum
    simp only [hfirst, Option.bind_eq_bind, Option.bind_some, readDefiniteLength, hlong, if_false,
      hdigits]
    rw [if_neg (by omega), hread, Option.bind_some]
    simp only [number] at hfits hnum ⊢
    rw [if_neg (by omega), if_neg (by omega), List.length_cons]
    simp only [Option.some.injEq, Prod.mk.injEq, true_and, and_true]
    omega

theorem split_at_two {tag first : UInt8} (htag : der[pos]? = some tag)
    (hfirst : der[pos + 1]? = some first) :
    der = der.take pos ++ tag :: first :: der.drop (pos + 2) := by
  obtain ⟨hlt, rfl⟩ := List.getElem?_eq_some_iff.mp htag
  obtain ⟨hlt', rfl⟩ := List.getElem?_eq_some_iff.mp hfirst
  rw [← List.drop_eq_getElem_cons hlt', ← List.drop_eq_getElem_cons hlt, List.take_append_drop]

/-- What stands behind a position is an element with the octets that are left. -/
theorem element_at {tag : UInt8} {lengthOctets rest : Bytes} {len : Nat}
    (hder : der = before ++ tag :: (lengthOctets ++ rest)) (hspells : SpellsLength len lengthOctets)
    (hlen : len ≤ rest.length) :
    ∃ (e : Element) (after : Bytes), der = before ++ e.octets ++ after ∧
      e.place before.length = (tag, before.length + 1 + lengthOctets.length, len) := by
  have hcontent : (rest.take len).length = len := by
    rw [List.length_take]
    omega
  have hspells' : SpellsLength (rest.take len).length lengthOctets := by rwa [hcontent]
  refine ⟨⟨tag, lengthOctets, rest.take len, hspells'⟩, rest.drop len, ?_, ?_⟩
  · rw [hder]
    simp [Element.octets]
  · simp only [Element.place, hcontent]

/-- What is read is an element that stands there. -/
theorem readTlv_some (h : readTlv der pos = some field) :
    ∃ (before : Bytes) (e : Element) (after : Bytes), der = before ++ e.octets ++ after ∧
      before.length = pos ∧ field = e.place pos := by
  obtain ⟨tag, htag, h⟩ := Option.bind_eq_some_iff.mp h
  obtain ⟨first, hfirst, h⟩ := Option.bind_eq_some_iff.mp h
  obtain ⟨⟨len, valueStart⟩, hlength, h⟩ := Option.bind_eq_some_iff.mp h
  simp only at h
  split at h
  next => simp at h
  next =>
    split at h
    next => simp at h
    next hfits =>
      cases Option.some.inj h
      have hder := split_at_two htag hfirst
      have hpos : (der.take pos).length = pos := by
        obtain ⟨hlt, -⟩ := List.getElem?_eq_some_iff.mp htag
        rw [List.length_take]
        omega
      unfold readDefiniteLength at hlength
      split at hlength
      next hshort =>
        cases Option.some.inj hlength
        have hsmall := (lengthOctet_cases first).1.mp hshort
        have hspells : SpellsLength first.toNat [first] := by
          have hone := SpellsLength.short first.toNat hsmall
          rwa [UInt8.ofNat_toNat] at hone
        obtain ⟨e, after, hshape, hplace⟩ := element_at hder hspells (by
          rw [List.length_drop]
          omega)
        rw [hpos] at hplace
        exact ⟨_, e, after, hshape, hpos, hplace.symm⟩
      next hlong =>
        simp only at hlength
        split at hlength
        next => simp at hlength
        next hcount =>
          have hbig := mt (lengthOctet_cases first).1.mpr hlong
          have hbyte := (lengthOctet_cases first).2 (by omega)
          generalize (first &&& 0x7f).toNat = n at hlength hcount hbyte
          obtain ⟨rfl, hle⟩ := readLength_some hlength
          have hend : pos + 2 + n ≤ der.length :=
            (le_max_iff.mp hle).resolve_left (by omega)
          have hdigits : ((der.drop (pos + 2)).take n).length = n := by
            rw [List.length_take, List.length_drop]
            omega
          have hrest : der.drop (pos + 2) = (der.drop (pos + 2)).take n ++ der.drop (pos + 2 + n) := by
            have hdrop : der.drop (pos + 2 + n) = (der.drop (pos + 2)).drop n := by
              rw [List.drop_drop]
            rw [hdrop, List.take_append_drop]
          generalize (der.drop (pos + 2)).take n = digits at hdigits hrest
          rw [hrest] at hder
          have hread := @readLength_eq (der.take pos ++ [tag, first]) (der.drop (pos + 2 + n)) digits 0
          have hlist : der = der.take pos ++ [tag, first] ++ (digits ++ der.drop (pos + 2 + n)) := by
            conv_lhs => rw [hder]
            simp
          rw [← hlist, List.length_append, hpos, hdigits] at hread
          have hsame := Option.some.inj (hlength.symm.trans hread)
          simp only [Prod.mk.injEq] at hsame
          have hspells : SpellsLength len (first :: digits) := by
            have hmany := SpellsLength.long digits (by omega) (by omega)
            rw [hdigits, ← hbyte] at hmany
            rwa [hsame.1]
          have hshape : der = der.take pos ++ tag :: ((first :: digits) ++ der.drop (pos + 2 + n)) :=
            hder
          obtain ⟨e, after, hshape, hplace⟩ := element_at hshape hspells (by
            rw [List.length_drop]
            omega)
          rw [hpos, List.length_cons, hdigits] at hplace
          refine ⟨_, e, after, hshape, hpos, ?_⟩
          rw [hplace, Prod.mk.injEq, Prod.mk.injEq]
          exact ⟨rfl, by omega, rfl⟩

/-- Where the last of some fields ends. -/
def endOf : Nat → List Tlv → Nat
  | start, [] => start
  | _, t :: ts => endOf (t.2.1 + t.2.2) ts

theorem endOf_places : endOf start (places start es) = start + (octetsOf es).length := by
  induction es generalizing start with
  | nil => rfl
  | cons e es ih =>
    rw [places, endOf, Stands.end_eq, ih, octetsOf_cons, List.length_append, Nat.add_assoc]

theorem readTlv_bounds (h : readTlv der pos = some field) :
    pos < field.2.1 ∧ field.2.1 + field.2.2 ≤ der.length ∧ field.2.1 + field.2.2 < 2 ^ 64 := by
  obtain ⟨before, e, after, hder, hpos, hfield⟩ := readTlv_some h
  have hend := Stands.end_le ⟨before, after, hder, hpos⟩
  rw [← hfield] at hend
  refine ⟨?_, hend, ?_⟩
  · rw [hfield]
    simp only [Element.place]
    omega
  · obtain ⟨tag, -, h⟩ := Option.bind_eq_some_iff.mp h
    obtain ⟨first, -, h⟩ := Option.bind_eq_some_iff.mp h
    obtain ⟨⟨len, valueStart⟩, -, h⟩ := Option.bind_eq_some_iff.mp h
    simp only at h
    split at h
    next => simp at h
    next hsmall =>
      split at h
      next => simp at h
      next =>
        rw [← Option.some.inj h]
        exact Nat.not_le.mp hsmall

theorem saturatingAdd_of_lt {a b : Nat} (h : a + b < 2 ^ 64) : saturatingAdd a b = a + b :=
  min_eq_left (by omega)

/-- The loop ends by itself, and what it finds ends within the certificate. -/
theorem childrenFrom_total (hrounds : der.length - pos < rounds) :
    ∃ ts, childrenFrom der stop rounds pos = .ok ts ∧ ∀ t ∈ ts, t.2.1 + t.2.2 ≤ der.length := by
  induction rounds generalizing pos with
  | zero => omega
  | succ rounds ih =>
    unfold childrenFrom
    split
    next hlt =>
      cases hread : readTlv der pos with
      | none => exact ⟨[], rfl, by simp⟩
      | some field =>
        obtain ⟨hafter, hend, hsmall⟩ := readTlv_bounds hread
        obtain ⟨ts, hts, hbounds⟩ := @ih (field.2.1 + field.2.2) (by omega)
        refine ⟨field :: ts, ?_, ?_⟩
        · simp only [saturatingAdd_of_lt hsmall, hts]
          rfl
        · intro t ht
          rcases List.mem_cons.mp ht with rfl | ht
          · exact hend
          · exact hbounds t ht
    next => exact ⟨[], rfl, by simp⟩

theorem sequenceChildren_total (der : Bytes) (valueStart valueLen : Nat) :
    ∃ ts, sequenceChildren der valueStart valueLen = .ok ts ∧
      ∀ t ∈ ts, t.2.1 + t.2.2 ≤ der.length :=
  childrenFrom_total (by omega)

/-- Elements that fill the range are found one by one. -/
theorem childrenFrom_places (h64 : before.length + (octetsOf es).length < 2 ^ 64)
    (hrounds : es.length < rounds) :
    childrenFrom (before ++ octetsOf es ++ after) (before.length + (octetsOf es).length) rounds
      before.length = .ok (places before.length es) := by
  induction es generalizing before rounds with
  | nil =>
    obtain ⟨rounds, rfl⟩ := Nat.exists_eq_succ_of_ne_zero (Nat.ne_of_gt hrounds)
    simp [childrenFrom, places]
  | cons e es ih =>
    obtain ⟨rounds, rfl⟩ := Nat.exists_eq_succ_of_ne_zero (Nat.ne_of_gt (Nat.zero_lt_of_lt hrounds))
    have hshape : before ++ octetsOf (e :: es) ++ after = before ++ e.octets ++ (octetsOf es ++ after) := by
      simp
    have hshape' : before ++ octetsOf (e :: es) ++ after = (before ++ e.octets) ++ octetsOf es ++ after := by
      simp
    have htotal : (octetsOf (e :: es)).length = e.octets.length + (octetsOf es).length := by simp
    have hread : readTlv (before ++ octetsOf (e :: es) ++ after) before.length =
        some (e.place before.length) := by
      rw [hshape]
      exact readTlv_element (by omega)
    have hlen := e.length_octets
    have hend := Stands.end_eq before.length e
    obtain ⟨-, -, hsmall⟩ := readTlv_bounds hread
    have h64' : (before ++ e.octets).length + (octetsOf es).length < 2 ^ 64 := by
      rw [List.length_append]
      omega
    have hrest := @ih (before ++ e.octets) rounds h64' (Nat.succ_lt_succ_iff.mp hrounds)
    rw [← hshape', List.length_append] at hrest
    rw [childrenFrom, if_pos (by omega), hread]
    simp only [saturatingAdd_of_lt hsmall, hend]
    rw [htotal, ← Nat.add_assoc, hrest]
    rfl

/-- Fields that end where their range does are elements that fill it. -/
theorem places_of_childrenFrom {ts : List Tlv} (h : childrenFrom der stop rounds pos = .ok ts)
    (hpos : pos ≤ der.length) (hend : endOf pos ts = stop) :
    ∃ before es after, der = before ++ octetsOf es ++ after ∧ before.length = pos ∧
      ts = places pos es := by
  have hnone : ts = [] → ∃ before es after, der = before ++ octetsOf es ++ after ∧
      before.length = pos ∧ ts = places pos es := by
    rintro rfl
    exact ⟨der.take pos, [], der.drop pos, by simp, by simp [hpos], rfl⟩
  induction rounds generalizing pos ts with
  | zero =>
    unfold childrenFrom at h
    split at h
    next => simp at h
    next => exact hnone (Except.ok.inj h).symm
  | succ rounds ih =>
    unfold childrenFrom at h
    split at h
    next =>
      split at h
      next field tag vs vl hread =>
        obtain ⟨rest, hrest, h⟩ := bind_ok h
        cases Except.ok.inj h
        obtain ⟨-, hle, hsmall⟩ := readTlv_bounds hread
        obtain ⟨before, e, after, hder, rfl, hfield⟩ := readTlv_some hread
        simp only at hle hsmall
        rw [saturatingAdd_of_lt hsmall] at hrest
        have hnext := Stands.end_eq before.length e
        rw [← hfield] at hnext
        have hempty : rest = [] → ∃ before es after, der = before ++ octetsOf es ++ after ∧
            before.length = vs + vl ∧ rest = places (vs + vl) es := by
          rintro rfl
          exact ⟨der.take (vs + vl), [], der.drop (vs + vl), by simp, by simp [hle], rfl⟩
        obtain ⟨before', es, after', hder', hlen, rfl⟩ := ih hrest hle hend hempty
        have hprefix : before' = before ++ e.octets := by
          rw [hder, List.append_assoc before'] at hder'
          refine (List.append_inj_left hder' ?_).symm
          rw [List.length_append, hlen]
          exact hnext.symm
        refine ⟨before, e :: es, after', ?_, rfl, ?_⟩
        · rw [hder', hprefix]
          simp
        · rw [places, hfield, ← hnext]
      next => exact hnone (Except.ok.inj h).symm
    next => exact hnone (Except.ok.inj h).symm

/-- The fields end where the value of the field ends that they were read from. -/
def Fills (field : Tlv) (ts : List Tlv) : Prop := endOf field.2.1 ts = field.2.1 + field.2.2

instance (field : Tlv) (ts : List Tlv) : Decidable (Fills field ts) :=
  inferInstanceAs (Decidable (_ = _))

/-- The element stands here, at a position that a machine word holds. -/
structure StandsWithin (der : Bytes) (pos : Nat) (e : Element) : Prop where
  stands : Stands der pos e
  small : pos + e.octets.length < 2 ^ 64

theorem StandsWithin.read (h : StandsWithin der pos e) : readTlv der pos = some (e.place pos) := by
  obtain ⟨⟨before, after, rfl, rfl⟩, hsmall⟩ := h
  exact readTlv_element hsmall

theorem standsWithin_of_read (h : readTlv der pos = some field) :
    ∃ e, StandsWithin der pos e ∧ field = e.place pos := by
  obtain ⟨-, -, hsmall⟩ := readTlv_bounds h
  obtain ⟨before, e, after, hder, hpos, rfl⟩ := readTlv_some h
  rw [Stands.end_eq] at hsmall
  exact ⟨e, ⟨⟨before, after, hder, hpos⟩, hsmall⟩, rfl⟩

theorem StandsWithin.child (h : StandsWithin der pos e) (hcontent : e.content = octetsOf es)
    {i : Nat} {inner : Element} (hinner : es[i]? = some inner) : ∃ place,
      StandsWithin der place inner ∧ (places (e.place pos).2.1 es)[i]? = some (inner.place place) := by
  obtain ⟨place, hstands, hle, hplace⟩ := h.stands.child hcontent hinner
  exact ⟨place, ⟨hstands, Nat.lt_of_le_of_lt hle h.small⟩, hplace⟩

/-- The elements that an element consists of are its children, and they fill it. -/
theorem StandsWithin.children (h : StandsWithin der pos e) (hcontent : e.content = octetsOf es) :
    sequenceChildren der (e.place pos).2.1 (e.place pos).2.2 = .ok (places (e.place pos).2.1 es) ∧
      Fills (e.place pos) (places (e.place pos).2.1 es) := by
  have hend := Stands.end_eq pos e
  have hsmall := h.small
  obtain ⟨before, after, hder, hlen⟩ := h.stands.content
  have hcount := length_le_octetsOf es
  have hvalue : (e.place pos).2.2 = (octetsOf es).length := by rw [← hcontent]; rfl
  have hrounds : es.length < der.length + 1 := by
    rw [hder, List.length_append, List.length_append, hcontent]
    omega
  refine ⟨?_, ?_⟩
  · rw [sequenceChildren, saturatingAdd_of_lt (by omega), hvalue, ← hlen, hder, hcontent]
    rw [hder, hcontent] at hrounds
    exact childrenFrom_places (by omega) hrounds
  · rw [Fills, endOf_places, hvalue]

/-- Children that fill an element are the elements that it consists of. -/
theorem StandsWithin.filled (h : StandsWithin der pos e) {ts : List Tlv}
    (hts : sequenceChildren der (e.place pos).2.1 (e.place pos).2.2 = .ok ts)
    (hfills : Fills (e.place pos) ts) :
    ∃ es, e.content = octetsOf es ∧ ts = places (e.place pos).2.1 es := by
  have hend := Stands.end_eq pos e
  have hsmall := h.small
  have hle := h.stands.end_le
  rw [sequenceChildren, saturatingAdd_of_lt (by omega)] at hts
  obtain ⟨before, es, after, hder, hlen, rfl⟩ := places_of_childrenFrom hts (by omega) hfills
  refine ⟨es, ?_, rfl⟩
  rw [Fills, endOf_places, Nat.add_left_cancel_iff] at hfills
  rw [← h.stands.take_content, ← hfills, hder, ← hlen, List.append_assoc, List.drop_left]
  exact List.take_left

end Reminisce
