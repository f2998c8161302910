import Reminisce.PeerAddresses

namespace Reminisce

open Numerals

variable {rest : List Char} {segments : List UInt16}

/-- The text is over, or it goes on with a character that belongs to no segment. -/
structure SegmentEnds (rest : List Char) : Prop where
  ended : Ended 16 rest
  noDot : rest.head? ≠ some '.'

theorem digitValue_ten_of_sixteen {c : Char} (h : digitValue 16 c = none) :
    digitValue 10 c = none := by
  unfold digitValue at *
  cases hvalue : Hex.value c with
  | none => rfl
  | some n =>
    rw [hvalue] at h
    have hlt := Hex.value_lt hvalue
    simp [Option.filter, hlt] at h

theorem SegmentEnds.ended_ten (h : SegmentEnds rest) : Ended 10 rest :=
  fun c hc => digitValue_ten_of_sixteen (h.ended c hc)

theorem segmentEnds_nil : SegmentEnds [] := ⟨ended_nil, by simp⟩

theorem segmentEnds_colon (rest : List Char) : SegmentEnds (':' :: rest) :=
  ⟨ended_cons (by decide), by simp⟩

@[simp] theorem readGivenChar_cons (c : Char) (cs : List Char) :
    readGivenChar c (c :: cs) = some cs := by
  simp [readGivenChar]

theorem readGivenChar_none {target : Char} {cs : List Char} (h : cs.head? ≠ some target) :
    readGivenChar target cs = none := by
  cases cs with
  | nil => rfl
  | cons c cs => simpa [readGivenChar] using h

theorem readOctet_display (b : UInt8) (hrest : Ended 10 rest) :
    Numerals.readNumber 10 (some 3) false 256 (numeral 10 b.toNat ++ rest) = some (b.toNat, rest) := by
  have hb : b.toNat < 256 := b.toNat_lt
  refine readNumber_numeral (by decide) (by decide) hb ?_ hrest
  intro m hm
  cases Option.some.inj hm
  exact length_numeral_le (by decide) (by decide) (by omega)

theorem ended_ten_dot (rest : List Char) : Ended 10 ('.' :: rest) := ended_cons (by decide)

/-- An IPv4 address is read back up to its end. -/
theorem readIpv4Addr_display (a b c d : UInt8) (hrest : Ended 10 rest) :
    readIpv4Addr (displayIpv4 a b c d ++ rest) = some ((a, b, c, d), rest) := by
  unfold readIpv4Addr readOctet readSeparator displayIpv4
  simp [readOctet_display, ended_ten_dot, hrest]

/-- Reading decimal digits does not come to a dot where a hexadecimal segment is written. -/
theorem readDigits_rest_noDot {text : List Char} {digits : List Nat}
    (htext : Spells 16 text digits) (hrest : SegmentEnds rest) :
    (readDigits 10 (text ++ rest)).2.head? ≠ some '.' := by
  induction htext with
  | nil =>
    rw [List.nil_append, readDigits_ended hrest.ended_ten]
    exact hrest.noDot
  | @cons c d text digits hc _ ih =>
    simp only [List.cons_append, readDigits]
    cases hvalue : digitValue 10 c with
    | some _ => exact ih
    | none =>
      simp only [List.head?_cons, ne_eq, Option.some.injEq]
      rintro rfl
      revert hc
      decide +revert

theorem readIpv4Addr_none {cs : List Char}
    (h : ∀ n more, Numerals.readNumber 10 (some 3) false 256 cs = some (n, more) →
      more.head? ≠ some '.') : readIpv4Addr cs = none := by
  unfold readIpv4Addr readOctet readSeparator
  cases hfirst : Numerals.readNumber 10 (some 3) false 256 cs with
  | none => simp
  | some first => simp [readGivenChar_none (h _ _ hfirst)]

theorem readIpv4Addr_segment (segment : UInt16) (hrest : SegmentEnds rest) :
    readIpv4Addr (numeral 16 segment.toNat ++ rest) = none := by
  obtain ⟨digits, hspells, -, -⟩ := numeral_spells (by decide : 1 < 16) (by decide)
    segment.toNat
  refine readIpv4Addr_none fun n more hread => ?_
  rw [readNumber_rest hread]
  exact readDigits_rest_noDot hspells hrest

theorem readIpv4Addr_ended (hrest : Ended 10 rest) : readIpv4Addr rest = none := by
  refine readIpv4Addr_none fun n more hread => ?_
  rw [readNumber_ended hrest] at hread
  cases hread

theorem readGroup_display (segment : UInt16) (hrest : SegmentEnds rest) :
    Numerals.readNumber 16 (some 4) true 65536 (numeral 16 segment.toNat ++ rest) =
      some (segment.toNat, rest) := by
  have hsegment : segment.toNat < 65536 := segment.toNat_lt
  refine readNumber_numeral (by decide) (by decide) hsegment ?_ hrest.ended
  intro m hm
  cases Option.some.inj hm
  exact length_numeral_le (by decide) (by decide) (by omega)

theorem fmtSegments_ends (i : Nat) (hi : 0 < i) (segments : List UInt16)
    (hrest : SegmentEnds rest) : SegmentEnds (fmtSegments i segments ++ rest) := by
  cases segments with
  | nil => exact hrest
  | cons segment segments =>
    simp only [fmtSegments, hi, if_true, List.cons_append, List.nil_append]
    exact segmentEnds_colon _

/-- No further group is read from here. -/
structure GroupsEnd (rest : List Char) : Prop extends SegmentEnds rest where
  afterColon : ∀ more, rest = ':' :: more → Ended 16 more

theorem groupsEnd_nil : GroupsEnd [] := ⟨segmentEnds_nil, by simp⟩

theorem groupsEnd_colons (rest : List Char) : GroupsEnd (':' :: ':' :: rest) := by
  refine ⟨segmentEnds_colon _, ?_⟩
  intro more hmore
  cases List.cons.inj hmore |>.2
  exact (segmentEnds_colon rest).ended

theorem GroupsEnd.readSeparator {α : Type} {inner : List Char → Option (α × List Char)}
    (h : GroupsEnd rest) (hinner : ∀ cs, Ended 16 cs → inner cs = none) (i : Nat) :
    readSeparator ':' i inner rest = none := by
  unfold Reminisce.readSeparator
  split
  next =>
    cases rest with
    | nil => rfl
    | cons c cs =>
      by_cases hc : c = ':'
      · subst hc
        simp [hinner cs (h.afterColon cs rfl)]
      · have hnone : readGivenChar ':' (c :: cs) = none := readGivenChar_none (by simpa using hc)
        rw [hnone]
        rfl
  next => exact hinner rest h.ended

theorem GroupsEnd.readGroups (h : GroupsEnd rest) (slots i : Nat) :
    readGroups slots i rest = ([], false, rest) := by
  cases slots with
  | zero => rfl
  | succ slots =>
    have hipv4 : Reminisce.readSeparator ':' i readIpv4Addr rest = none :=
      h.readSeparator (fun cs hcs => readIpv4Addr_ended
        fun c hc => digitValue_ten_of_sixteen (hcs c hc)) i
    have hgroup : Reminisce.readSeparator ':' i (Numerals.readNumber 16 (some 4) true 65536) rest = none :=
      h.readSeparator (fun cs hcs => readNumber_ended hcs) i
    simp [Reminisce.readGroups, hipv4, hgroup]

/-- What stands before a segment is what `read_separator` reads. -/
theorem readSeparator_segment {α : Type} (inner : List Char → Option (α × List Char)) (i : Nat)
    (cs : List Char) :
    readSeparator ':' i inner ((if 0 < i then [':'] else []) ++ cs) = inner cs := by
  unfold readSeparator
  split <;> simp

/-- Segments are read back as groups, as long as there are slots for them. -/
theorem readGroups_fmtSegments {slots i : Nat} (hslots : segments.length ≤ slots)
    (hrest : GroupsEnd rest) :
    readGroups slots i (fmtSegments i segments ++ rest) = (segments, false, rest) := by
  induction segments generalizing slots i with
  | nil => exact hrest.readGroups slots i
  | cons segment segments ih =>
    obtain ⟨slots, rfl⟩ : ∃ n, slots = n + 1 := by
      simp only [List.length_cons] at hslots
      exact ⟨slots - 1, by omega⟩
    have hmore := fmtSegments_ends (i + 1) (by omega) segments hrest.toSegmentEnds
    have hlength : segments.length ≤ slots := by
      simp only [List.length_cons] at hslots
      omega
    simp only [fmtSegments, List.append_assoc, readGroups, readSeparator_segment,
      readIpv4Addr_segment segment hmore, readGroup_display segment hmore, ite_self,
      ih hlength, UInt16.ofNat_toNat]

/-- The span lies in the address and all its segments are zero. -/
structure ZeroRun (segments : List UInt16) (span : Span) : Prop where
  bounded : span.start + span.len ≤ segments.length
  zero : ∀ i, span.start ≤ i → i < span.start + span.len → segments[i]? = some 0

theorem zeroRun_empty (segments : List UInt16) : ZeroRun segments ⟨0, 0⟩ :=
  ⟨by simp, fun i _ hi => absurd hi (by simp)⟩

theorem ZeroRun.append {span : Span} (h : ZeroRun segments span) (more : List UInt16) :
    ZeroRun (segments ++ more) span := by
  refine ⟨?_, fun i hlow hhigh => ?_⟩
  · have := h.bounded
    rw [List.length_append]
    omega
  · have := h.bounded
    rw [List.getElem?_append_left (by omega)]
    exact h.zero i hlow hhigh

theorem ZeroRun.extend {span : Span} (h : ZeroRun segments span)
    (hend : span.start + span.len = segments.length) :
    ZeroRun (segments ++ [0]) ⟨span.start, span.len + 1⟩ := by
  refine ⟨?_, fun i hlow hhigh => ?_⟩
  · simp only [List.length_append, List.length_cons, List.length_nil]
    omega
  · simp only at hlow hhigh
    by_cases hi : i < segments.length
    · rw [List.getElem?_append_left hi]
      exact h.zero i hlow (by omega)
    · obtain rfl : i = segments.length := by omega
      simp

/-- The search keeps two runs of zeros, the second one up to where it has come. -/
structure SpansFound (segments : List UInt16) (spans : Span × Span) : Prop where
  longest : ZeroRun segments spans.1
  current : ZeroRun segments spans.2
  reached : spans.2.len ≠ 0 → spans.2.start + spans.2.len = segments.length

theorem SpansFound.step {spans : Span × Span} (h : SpansFound segments spans)
    (segment : UInt16) :
    SpansFound (segments ++ [segment]) (zeroStep spans (segment, segments.length)) := by
  unfold zeroStep
  split
  next hzero =>
    simp only at hzero
    subst hzero
    have hcurrent : ZeroRun (segments ++ [0]) (if spans.2.len = 0 then ⟨segments.length, 1⟩
        else ⟨spans.2.start, spans.2.len + 1⟩) := by
      split
      next =>
        have hempty : ZeroRun segments ⟨segments.length, 0⟩ := ⟨by simp, by simp; omega⟩
        exact hempty.extend (by simp)
      next hlen => exact h.current.extend (h.reached hlen)
    have hlonger : ∀ run, ZeroRun (segments ++ [0]) run →
        ZeroRun (segments ++ [0]) (if spans.1.len < run.len then run else spans.1) := by
      intro run hrun
      split
      next => exact hrun
      next => exact h.longest.append [0]
    refine ⟨hlonger _ hcurrent, hcurrent, fun _ => ?_⟩
    · simp only [List.length_append, List.length_cons, List.length_nil]
      split
      next => rfl
      next hlen =>
        have := h.reached hlen
        simp only
        omega
  next =>
    exact ⟨h.longest.append [segment], zeroRun_empty _, fun hlen => absurd rfl hlen⟩

theorem spansFound_zeroSpans (segments : List UInt16) :
    SpansFound segments (zeroSpans segments) := by
  induction segments using List.reverseRecOn with
  | nil => exact ⟨zeroRun_empty [], zeroRun_empty [], fun hlen => absurd rfl hlen⟩
  | append_singleton segments segment ih =>
    have hstep := ih.step segment
    unfold zeroSpans at *
    rw [List.zipIdx_append, List.foldl_append]
    simpa using hstep

/-- An address is what stands around a run of zeros. -/
theorem ZeroRun.filled {span : Span} (h : ZeroRun segments span) :
    segments.take span.start ++ List.replicate span.len 0 ++
      segments.drop (span.start + span.len) = segments := by
  have hmiddle : (segments.drop span.start).take span.len = List.replicate span.len 0 := by
    have hbounded := h.bounded
    refine List.ext_getElem? fun i => ?_
    by_cases hi : i < span.len
    · rw [List.getElem?_take_of_lt hi, List.getElem?_drop, h.zero _ (by omega) (by omega)]
      simp [hi]
    · rw [List.getElem?_eq_none (by simp; omega), List.getElem?_eq_none (by simp; omega)]
  rw [← hmiddle, ← List.drop_drop, List.append_assoc, List.take_append_drop,
    List.take_append_drop]

theorem u16FromBeBytes_bytes (segment : UInt16) :
    u16FromBeBytes (highByte segment) (lowByte segment) = segment := by
  have hsegment : segment.toNat < 65536 := segment.toNat_lt
  have hhigh : (highByte segment).toNat = segment.toNat / 256 := by
    unfold highByte
    rw [UInt8.toNat_ofNat', Nat.mod_eq_of_lt (by omega)]
  have hlow : (lowByte segment).toNat = segment.toNat % 256 := by
    unfold lowByte
    rw [UInt8.toNat_ofNat']
  unfold u16FromBeBytes
  rw [hhigh, hlow, Nat.mul_comm, Nat.div_add_mod, UInt16.ofNat_toNat]

theorem toIpv4Mapped_some {ab cd : UInt16} (h : toIpv4Mapped segments = some (ab, cd)) :
    segments = [0, 0, 0, 0, 0, 65535, ab, cd] := by
  unfold toIpv4Mapped at h
  split at h
  next =>
    cases Option.some.inj h
    rfl
  next => cases h

/-- The text after `::` of an IPv4-mapped address. -/
theorem readGroups_mapped (ab cd : UInt16) (hrest : GroupsEnd rest) :
    readGroups 7 0 (numeral 16 65535 ++ ':' :: (displayIpv4 (highByte ab) (lowByte ab)
      (highByte cd) (lowByte cd) ++ rest)) = ([65535, ab, cd], true, rest) := by
  have hsegment : (65535 : UInt16).toNat = 65535 := rfl
  have hfirst := readIpv4Addr_segment 65535 (segmentEnds_colon (displayIpv4 (highByte ab)
    (lowByte ab) (highByte cd) (lowByte cd) ++ rest))
  have hgroup := readGroup_display 65535 (segmentEnds_colon (displayIpv4 (highByte ab)
    (lowByte ab) (highByte cd) (lowByte cd) ++ rest))
  have hipv4 := readIpv4Addr_display (highByte ab) (lowByte ab) (highByte cd) (lowByte cd)
    hrest.toSegmentEnds.ended_ten
  rw [hsegment] at hfirst hgroup
  simp [readGroups, readSeparator, hfirst, hgroup, hipv4, u16FromBeBytes_bytes]

theorem readIpv6Addr_mapped (ab cd : UInt16) (hrest : GroupsEnd rest) :
    readIpv6Addr (displayIpv6 [0, 0, 0, 0, 0, 65535, ab, cd] ++ rest) =
      some ([0, 0, 0, 0, 0, 65535, ab, cd], rest) := by
  unfold readIpv6Addr displayIpv6 toIpv4Mapped
  simp [(groupsEnd_colons _).readGroups, readGroups_mapped ab cd hrest, List.replicate]

/-- Every IPv6 address is read back from its text. -/
theorem readIpv6Addr_display (hlength : segments.length = 8) (hrest : GroupsEnd rest) :
    readIpv6Addr (displayIpv6 segments ++ rest) = some (segments, rest) := by
  cases hmapped : toIpv4Mapped segments with
  | some mapped =>
    obtain ⟨ab, cd⟩ := mapped
    rw [toIpv4Mapped_some hmapped]
    exact readIpv6Addr_mapped ab cd hrest
  | none =>
    unfold readIpv6Addr displayIpv6
    simp only [hmapped]
    split
    next hlong =>
      have hrun := (spansFound_zeroSpans segments).longest
      have hbounded := hrun.bounded
      have hhead : (segments.take (zeroSpans segments).1.start).length =
          (zeroSpans segments).1.start := by
        rw [List.length_take]
        omega
      have htail : (segments.drop ((zeroSpans segments).1.start +
          (zeroSpans segments).1.len)).length =
          8 - ((zeroSpans segments).1.start + (zeroSpans segments).1.len) := by
        rw [List.length_drop, hlength]
      simp only [fmtSubslice, List.append_assoc, List.cons_append]
      rw [readGroups_fmtSegments (by omega) (groupsEnd_colons _)]
      simp only [hhead, readGivenChar_cons, Option.bind_eq_bind, Option.bind_some]
      rw [readGroups_fmtSegments (by omega) hrest]
      simp only [htail]
      rw [if_neg (by omega), if_neg (by decide),
        show 8 - (8 - ((zeroSpans segments).1.start + (zeroSpans segments).1.len)) -
          (zeroSpans segments).1.start = (zeroSpans segments).1.len by omega,
        ← List.append_assoc, hrun.filled]
    next =>
      unfold fmtSubslice
      rw [readGroups_fmtSegments (by omega) hrest]
      simp [hlength]

/-- An IPv6 text does not start as an IPv4 address does. -/
theorem readIpv4Addr_displayIpv6 (segments : List UInt16) (hrest : SegmentEnds rest) :
    readIpv4Addr (displayIpv6 segments ++ rest) = none := by
  have hslice : ∀ chunk more, SegmentEnds more →
      readIpv4Addr (fmtSubslice chunk ++ more) = none := by
    intro chunk more hmore
    cases chunk with
    | nil => exact readIpv4Addr_ended hmore.ended_ten
    | cons segment chunk =>
      have hends := fmtSegments_ends 1 (by omega) chunk hmore
      simpa [fmtSubslice, fmtSegments] using readIpv4Addr_segment segment hends
  unfold displayIpv6
  split
  next => exact readIpv4Addr_ended (segmentEnds_colon _).ended_ten
  next =>
    simp only
    split
    next =>
      rw [List.append_assoc]
      exact hslice _ _ (segmentEnds_colon _)
    next => exact hslice _ _ hrest

/-- The text of every address is parsed back. -/
theorem parseIpAddr_display {ip : IpAddr} (h : ip.WellFormed) :
    parseIpAddr ip.display = some ip := by
  unfold parseIpAddr parseWith readIpAddr IpAddr.display
  cases ip with
  | v4 a b c d =>
    have hread := readIpv4Addr_display a b c d ended_nil
    rw [List.append_nil] at hread
    simp [hread]
  | v6 segments =>
    have hipv4 := readIpv4Addr_displayIpv6 segments segmentEnds_nil
    have hread : readIpv6Addr (displayIpv6 segments ++ []) = some (segments, []) :=
      readIpv6Addr_display h groupsEnd_nil
    rw [List.append_nil] at hipv4 hread
    simp [hipv4, hread]

theorem readPort_display (port : UInt16) :
    readPort (':' :: numeral 10 port.toNat) = some (port.toNat, []) := by
  have hport : port.toNat < 65536 := port.toNat_lt
  have hread : Numerals.readNumber 10 none true 65536 (numeral 10 port.toNat ++ []) =
      some (port.toNat, []) :=
    readNumber_numeral (by decide) (by decide) hport (by simp) ended_nil
  rw [List.append_nil] at hread
  simp [readPort, hread]

/-- `ip:port` is a socket address for IPv4. -/
theorem parseSocketAddr_displayV4 (a b c d : UInt8) (port : UInt16) :
    parseSocketAddr (displayEndpoint (.v4 a b c d) port) = some ⟨.v4 a b c d, port⟩ := by
  have hread := readIpv4Addr_display a b c d
    (segmentEnds_colon (numeral 10 port.toNat)).ended_ten
  simp [parseSocketAddr, parseWith, displayEndpoint, IpAddr.display, readSocketAddrV4, hread,
    readPort_display]

theorem displayIpv6_noBracket (segments : List UInt16) (rest : List Char) :
    (displayIpv6 segments ++ ':' :: rest).head? ≠ some '[' := by
  have hslice : ∀ chunk more, (fmtSubslice chunk ++ ':' :: more).head? ≠ some '[' := by
    intro chunk more
    cases chunk with
    | nil => simp [fmtSubslice, fmtSegments]
    | cons segment chunk =>
      obtain ⟨digits, hspells, -, -⟩ := numeral_spells (by decide : 1 < 16) (by decide)
        segment.toNat
      have hne : numeral 16 segment.toNat ≠ [] := Nat.toDigits_ne_nil
      obtain ⟨c, text, htext⟩ := List.exists_cons_of_ne_nil hne
      rw [htext] at hspells
      cases hspells with
      | cons hc _ =>
        simp only [fmtSubslice, fmtSegments, htext, Nat.lt_irrefl, if_false, List.nil_append,
          List.cons_append, List.head?_cons, ne_eq, Option.some.injEq]
        rintro rfl
        revert hc
        decide +revert
  unfold displayIpv6
  split
  next => simp
  next =>
    simp only
    split
    next =>
      rw [List.append_assoc]
      exact hslice _ _
    next => exact hslice _ _

/-- `ip:port` is no socket address for IPv6. -/
theorem parseSocketAddr_displayV6 (segments : List UInt16) (port : UInt16) :
    parseSocketAddr (displayEndpoint (.v6 segments) port) = none := by
  have hipv4 := readIpv4Addr_displayIpv6 segments
    (segmentEnds_colon (numeral 10 port.toNat))
  have hbracket := readGivenChar_none (displayIpv6_noBracket segments (numeral 10 port.toNat))
  simp [parseSocketAddr, parseWith, displayEndpoint, IpAddr.display, readSocketAddrV4,
    readSocketAddrV6, hipv4, hbracket]

end Reminisce
