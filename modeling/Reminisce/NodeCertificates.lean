import Reminisce.CertificateGrammar

namespace Reminisce

open Der

/-- An X.509 certificate for an Ed25519 key, in any definite-length encoding. Before the serial
number the version may be absent; behind the key come unique identifiers and extensions, if any. -/
structure NodeCertificate (key : Digest) where
  cert : Element
  tbs : Element
  signatureAlgorithm : Element
  signatureValue : Element
  version : Option Element
  serialNumber : Element
  signature : Element
  issuer : Element
  validity : Element
  subject : Element
  keyInfo : Element
  optional : List Element
  parts : cert.IsSequence [tbs, signatureAlgorithm, signatureValue]
  fields : tbs.IsSequence
    (version.toList ++ [serialNumber, signature, issuer, validity, subject, keyInfo] ++ optional)
  versionTag : ∀ v ∈ version, v.tag = 0xa0
  serialTag : serialNumber.tag = 0x02
  optionalTags : ∀ e ∈ optional, e.tag &&& 0xc0 = 0x80
  holds : IsKeyInfo keyInfo key

def NodeCertificate.der {key : Digest} (c : NodeCertificate key) : Bytes := c.cert.octets

variable {key : Digest} {nodeId : NodeId}

theorem getElem?_tag_places (start i : Nat) (es : List Element) :
    ((places start es)[i]?).map (·.1) = (es[i]?).map Element.tag := by
  induction es generalizing start i with
  | nil => rfl
  | cons e es ih =>
    cases i with
    | zero => rfl
    | succ i => exact ih _ i

/-- The key of a certificate is extracted from it. -/
theorem extractPublicKey_der (c : NodeCertificate key) :
    extractPublicKey c.der = .ok (some key) := by
  have hstands : Stands c.der 0 c.cert := ⟨[], [], by simp [NodeCertificate.der], rfl⟩
  obtain ⟨o, place, -, hplace, hfields⟩ := opened_of_elements hstands c.parts rfl c.fields
  obtain ⟨r, hr, hkeys⟩ := extractPublicKey_iff c.der
  rw [hr, (hkeys key).mpr]
  have hat : ∀ i : Nat, (c.version.toList ++ [c.serialNumber, c.signature, c.issuer, c.validity,
      c.subject, c.keyInfo] ++ c.optional)[i]? = some c.keyInfo → ∃ spki, o.fields[i]? = some spki ∧
        ∃ f : KeyField c.der spki, f.key = key := by
    intro i hi
    obtain ⟨pi, hpi, hget⟩ := hplace.child c.fields.content hi
    obtain ⟨f, -, hf⟩ := keyField_of_element hpi c.holds
    rw [← hfields] at hget
    exact ⟨_, hget, f, hf⟩
  cases hversion : c.version with
  | some version =>
    obtain ⟨spki, hget, f, hf⟩ := hat 6 (by simp [hversion])
    exact ⟨o, spki, Or.inl hget, f, hf⟩
  | none =>
    obtain ⟨spki, hget, f, hf⟩ := hat 5 (by simp [hversion])
    refine ⟨o, spki, Or.inr ⟨hget, fun seventh hseventh => ⟨fun g => ?_⟩⟩, f, hf⟩
    have htag : o.fields[6]?.map (·.1) = (c.optional[0]?).map Element.tag := by
      rw [hfields, getElem?_tag_places, hversion]
      rfl
    rw [hseventh, Option.map_some, g.tag] at htag
    obtain ⟨e, he, hetag⟩ := Option.map_eq_some_iff.mp htag.symm
    have hclass := c.optionalTags e (List.mem_of_getElem? he)
    rw [hetag] at hclass
    exact absurd hclass (by decide)

theorem verifyEndEntity_key {der : Bytes} (h : extractPublicKey der = .ok (some key))
    {id : NodeId} (hid : IsNodeId id.toList) : ∃ sni, sniForNodeId id = .ok sni ∧
      (verifyEndEntity der (.dnsName sni) = .ok () ↔ Hex.decode id.toList = some key.toList) := by
  obtain ⟨expected, hexpected⟩ := isNodeId_decode hid
  refine ⟨_, by rw [sniForNodeId, if_pos hid], ?_⟩
  simp only [verifyEndEntity, h, verifyServerCert, filter_dot_sni hid, hid, if_true, hexpected,
    Option.some.injEq]
  split
  next hne => exact iff_of_false (by simp) (fun heq => hne heq.symm)
  next heq => exact iff_of_true rfl (not_not.mp heq).symm

/-- The walk ends on every certificate without an index out of bounds. From a well-formed one it
takes the key, and a dialed id in any letter case is verified against this key. -/
theorem certificate_key_verified :
    (∀ der, ∃ r, extractPublicKey der = .ok r) ∧
      ∀ (key : Digest) (c : NodeCertificate key), extractPublicKey c.der = .ok (some key) ∧
        ∀ id : NodeId, IsNodeId id.toList → ∃ sni, sniForNodeId id = .ok sni ∧
          (verifyEndEntity c.der (.dnsName sni) = .ok () ↔
            Hex.decode id.toList = some key.toList) := by
  refine ⟨fun der => ?_, fun key c => ⟨extractPublicKey_der c, fun id hid => ?_⟩⟩
  · obtain ⟨r, hr, -⟩ := extractPublicKey_iff der
    exact ⟨r, hr⟩
  · exact verifyEndEntity_key (extractPublicKey_der c) hid

/-- A version 3 certificate with empty names. -/
def plainCertificate (key : Digest) : NodeCertificate key :=
  let oid := Element.short 0x06 ed25519Oid (by decide)
  let algorithm := Element.short 0x30 (octetsOf [oid]) (by decide)
  let bits := Element.short 0x03 (0 :: key.toList) (by simp)
  let keyInfo := Element.short 0x30 (octetsOf [algorithm, bits])
    (by simp [oid, algorithm, bits, ed25519Oid])
  let version := Element.short 0xa0 [0x02, 1, 2] (by decide)
  let serialNumber := Element.short 0x02 [1] (by decide)
  let empty := Element.short 0x30 [] (by decide)
  let fields := [version, serialNumber, algorithm, empty, empty, empty, keyInfo]
  let tbs := Element.short 0x30 (octetsOf fields)
    (by simp [fields, version, serialNumber, oid, algorithm, empty, keyInfo, bits,
      ed25519Oid])
  let signatureValue := Element.short 0x03 [0] (by decide)
  { cert := Element.short 0x30 (octetsOf [tbs, algorithm, signatureValue]) (by
      simp [tbs, fields, version, serialNumber, oid, algorithm, empty, keyInfo, bits,
        signatureValue, ed25519Oid])
    tbs := tbs
    signatureAlgorithm := algorithm
    signatureValue := signatureValue
    version := some version
    serialNumber := serialNumber
    signature := algorithm
    issuer := empty
    validity := empty
    subject := empty
    keyInfo := keyInfo
    optional := []
    parts := ⟨rfl, rfl⟩
    fields := ⟨rfl, rfl⟩
    versionTag := by simp [version, Element.short]
    serialTag := rfl
    optionalTags := by simp
    holds := ⟨algorithm, bits, [oid], oid, ⟨rfl, rfl⟩, ⟨rfl, rfl⟩, rfl, rfl, rfl, rfl, rfl⟩ }

/-- An id in mixed case. -/
theorem certificate_key_verified_mixed_case :
    let key : Digest := List.Vector.replicate 32 0xab
    let id : NodeId := String.ofList (List.replicate 32 ['a', 'B']).flatten
    ∃ sni, sniForNodeId id = .ok sni ∧
      verifyEndEntity (plainCertificate key).der (.dnsName sni) = .ok () := by
  intro key id
  have hid : IsNodeId id.toList := by
    simp only [id, String.toList_ofList]
    decide +kernel
  have hdecode : Hex.decode id.toList = some key.toList := by
    simp only [id, String.toList_ofList]
    decide +kernel
  obtain ⟨-, hverified⟩ := certificate_key_verified.2 key (plainCertificate key)
  obtain ⟨sni, hsni, hiff⟩ := hverified id hid
  exact ⟨sni, hsni, hiff.mpr hdecode⟩

end Reminisce
