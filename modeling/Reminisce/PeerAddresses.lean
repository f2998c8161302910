import Reminisce.CoordinatorPeers
import Reminisce.Library.Numerals

namespace Reminisce

open Numerals

/-- `Ipv4Addr` as `Display` writes it. -/
def displayIpv4 (a b c d : UInt8) : List Char :=
  numeral 10 a.toNat ++ '.' :: (numeral 10 b.toNat ++ '.' :: (numeral 10 c.toNat ++
    '.' :: numeral 10 d.toNat))

/-- A run of zero segments. -/
structure Span where
  start : Nat
  len : Nat
  deriving DecidableEq, Repr

/-- One segment of the search: the longest run so far and the run that ends here. -/
def zeroStep (spans : Span × Span) (segment : UInt16 × Nat) : Span × Span :=
  if segment.1 = 0 then
    let current : Span :=
      if spans.2.len = 0 then ⟨segment.2, 1⟩ else ⟨spans.2.start, spans.2.len + 1⟩
    (if spans.1.len < current.len then current else spans.1, current)
  else (spans.1, ⟨0, 0⟩)

def zeroSpans (segments : List UInt16) : Span × Span :=
  segments.zipIdx.foldl zeroStep (⟨0, 0⟩, ⟨0, 0⟩)

/-- Segments from position `i` on, each after the first of the address behind a colon. -/
def fmtSegments : Nat → List UInt16 → List Char
  | _, [] => []
  | i, segment :: segments => (if 0 < i then [':'] else []) ++ numeral 16 segment.toNat ++
      fmtSegments (i + 1) segments

/-- `fmt_subslice`. -/
def fmtSubslice (chunk : List UInt16) : List Char := fmtSegments 0 chunk

def highByte (segment : UInt16) : UInt8 := UInt8.ofNat (segment.toNat / 256)

def lowByte (segment : UInt16) : UInt8 := UInt8.ofNat segment.toNat

/-- `u16::from_be_bytes`. -/
def u16FromBeBytes (high low : UInt8) : UInt16 := UInt16.ofNat (high.toNat * 256 + low.toNat)

/-- `Ipv6Addr::to_ipv4_mapped`: the two last segments of `::ffff:0:0/96`. -/
def toIpv4Mapped : List UInt16 → Option (UInt16 × UInt16)
  | [0, 0, 0, 0, 0, 65535, ab, cd] => some (ab, cd)
  | _ => none

/-- `Ipv6Addr` as `Display` writes it. -/
def displayIpv6 (segments : List UInt16) : List Char :=
  match toIpv4Mapped segments with
  | some (ab, cd) => ':' :: ':' :: (numeral 16 65535 ++
      ':' :: displayIpv4 (highByte ab) (lowByte ab) (highByte cd) (lowByte cd))
  | none =>
    let zeroes := (zeroSpans segments).1
    if 1 < zeroes.len then
      fmtSubslice (segments.take zeroes.start) ++
        ':' :: ':' :: fmtSubslice (segments.drop (zeroes.start + zeroes.len))
    else fmtSubslice segments

def IpAddr.display : IpAddr → List Char
  | .v4 a b c d => displayIpv4 a b c d
  | .v6 segments => displayIpv6 segments

/-- `read_given_char`. -/
def readGivenChar (target : Char) : List Char → Option (List Char)
  | [] => none
  | c :: cs => if c = target then some cs else none

/-- `read_separator`: the separator stands before every element but the first. -/
def readSeparator {α : Type} (sep : Char) (index : Nat)
    (inner : List Char → Option (α × List Char)) (cs : List Char) : Option (α × List Char) :=
  if 0 < index then (readGivenChar sep cs).bind inner else inner cs

def readOctet (index : Nat) : List Char → Option (Nat × List Char) :=
  readSeparator '.' index (Numerals.readNumber 10 (some 3) false 256)

/-- `read_ipv4_addr`. -/
def readIpv4Addr (cs : List Char) : Option ((UInt8 × UInt8 × UInt8 × UInt8) × List Char) := do
  let (a, cs) ← readOctet 0 cs
  let (b, cs) ← readOctet 1 cs
  let (c, cs) ← readOctet 2 cs
  let (d, cs) ← readOctet 3 cs
  some ((UInt8.ofNat a, UInt8.ofNat b, UInt8.ofNat c, UInt8.ofNat d), cs)

/-- `read_groups` with its remaining slots, from the group `i` on: the groups, whether an
embedded IPv4 address ended them, and the rest. -/
def readGroups : Nat → Nat → List Char → List UInt16 × Bool × List Char
  | 0, _, cs => ([], false, cs)
  | slots + 1, i, cs =>
    match if 0 < slots then readSeparator ':' i readIpv4Addr cs else none with
    | some ((a, b, c, d), rest) => ([u16FromBeBytes a b, u16FromBeBytes c d], true, rest)
    | none =>
      match readSeparator ':' i (Numerals.readNumber 16 (some 4) true 65536) cs with
      | none => ([], false, cs)
      | some (group, rest) =>
        let (groups, ipv4, rest) := readGroups slots (i + 1) rest
        (UInt16.ofNat group :: groups, ipv4, rest)

/-- `read_ipv6_addr`: all eight groups, or the groups around `::`. -/
def readIpv6Addr (cs : List Char) : Option (List UInt16 × List Char) :=
  let (head, headIpv4, cs) := readGroups 8 0 cs
  if head.length = 8 then some (head, cs)
  else if headIpv4 then none
  else do
    let cs ← readGivenChar ':' cs
    let cs ← readGivenChar ':' cs
    let (tail, _, cs) := readGroups (8 - (head.length + 1)) 0 cs
    some (head ++ List.replicate (8 - tail.length - head.length) 0 ++ tail, cs)

/-- `parse_with`: nothing may be left over. -/
def parseWith {α : Type} (inner : List Char → Option (α × List Char)) (cs : List Char) :
    Option α := do
  let (result, rest) ← inner cs
  if rest.isEmpty then some result else none

/-- `read_ip_addr`. -/
def readIpAddr (cs : List Char) : Option (IpAddr × List Char) :=
  match readIpv4Addr cs with
  | some ((a, b, c, d), rest) => some (.v4 a b c d, rest)
  | none => (readIpv6Addr cs).map fun (segments, rest) => (.v6 segments, rest)

/-- `str::parse::<IpAddr>`. -/
def parseIpAddr (cs : List Char) : Option IpAddr := parseWith readIpAddr cs

/-- `read_port`. -/
def readPort (cs : List Char) : Option (Nat × List Char) :=
  (readGivenChar ':' cs).bind (Numerals.readNumber 10 none true 65536)

/-- `read_scope_id`, without one the text is left as it is. -/
def skipScopeId (cs : List Char) : List Char :=
  match (readGivenChar '%' cs).bind (Numerals.readNumber 10 none true (2 ^ 32)) with
  | some (_, rest) => rest
  | none => cs

def readSocketAddrV4 (cs : List Char) : Option (SocketAddr × List Char) := do
  let ((a, b, c, d), cs) ← readIpv4Addr cs
  let (port, cs) ← readPort cs
  some (⟨.v4 a b c d, UInt16.ofNat port⟩, cs)

def readSocketAddrV6 (cs : List Char) : Option (SocketAddr × List Char) := do
  let cs ← readGivenChar '[' cs
  let (segments, cs) ← readIpv6Addr cs
  let cs ← readGivenChar ']' (skipScopeId cs)
  let (port, cs) ← readPort cs
  some (⟨.v6 segments, UInt16.ofNat port⟩, cs)

/-- `str::parse::<SocketAddr>`. -/
def parseSocketAddr (cs : List Char) : Option SocketAddr :=
  parseWith (fun cs => (readSocketAddrV4 cs).orElse fun _ => readSocketAddrV6 cs) cs

/-- `format!("{}:{}", ip, port)`. -/
def displayEndpoint (ip : IpAddr) (port : UInt16) : List Char :=
  ip.display ++ ':' :: numeral 10 port.toNat

example : displayEndpoint (.v6 [8193, 3512, 0, 0, 0, 0, 0, 1]) 5050 =
    ['2', '0', '0', '1', ':', 'd', 'b', '8', ':', ':', '1', ':', '5', '0', '5', '0'] := by
  decide

/-- An address as the standard library holds it. -/
def IpAddr.WellFormed : IpAddr → Prop
  | .v4 .. => True
  | .v6 segments => segments.length = 8

end Reminisce
