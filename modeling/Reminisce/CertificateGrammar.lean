import Reminisce.CertificateWalk

namespace Reminisce

open Der Results

/-- The element is the `SubjectPublicKeyInfo` of this Ed25519 key. -/
def IsKeyInfo (e : Element) (key : Digest) : Prop :=
  ∃ algorithm bits parts oid, e.IsSequence [algorithm, bits] ∧ algorithm.IsSequence parts ∧
    parts.head? = some oid ∧ oid.tag = 0x06 ∧ oid.content = ed25519Oid ∧ bits.tag = 0x03 ∧
    bits.content = 0 :: key.toList

/-- The seventh field if the first is the version, else the sixth. -/
def keyInfoIndex (firstTag : Option UInt8) : Nat := if firstTag = some 0xa0 then 6 else 5

/-- The certificate holds the key where its grammar has it, every element within its parent. -/
def HoldsKey (der : Bytes) (key : Digest) : Prop :=
  ∃ cert parts tbs fields info, Stands der 0 cert ∧ cert.IsSequence parts ∧
    parts.head? = some tbs ∧ tbs.IsSequence fields ∧
    fields[keyInfoIndex (fields.head?.map Element.tag)]? = some info ∧ IsKeyInfo info key

/-- A field in which the walk reads a key. -/
structure KeyField (der : Bytes) (spki : Tlv) where
  algorithm : Tlv
  bits : Tlv
  parts : List Tlv
  oid : Tlv
  key : Digest
  tag : spki.1 = 0x30
  children : sequenceChildren der spki.2.1 spki.2.2 = .ok [algorithm, bits]
  algorithmTag : algorithm.1 = 0x30
  bitsTag : bits.1 = 0x03
  algorithmChildren : sequenceChildren der algorithm.2.1 algorithm.2.2 = .ok parts
  first : parts.head? = some oid
  oidTag : oid.1 = 0x06
  oidBytes : (der.drop oid.2.1).take oid.2.2 = ed25519Oid
  size : 33 ≤ bits.2.2
  held : (der.drop bits.2.1).take 33 = 0 :: key.toList

/-- Its elements stay within it, and nothing comes after the key. -/
structure KeyField.Exact {der : Bytes} {spki : Tlv} (f : KeyField der spki) : Prop where
  fills : Fills spki [f.algorithm, f.bits]
  algorithmFills : Fills f.algorithm f.parts
  size : f.bits.2.2 = 33

/-- The SEQUENCEs that the walk opens on its way to the fields of the certificate. -/
structure OpenedCertificate (der : Bytes) where
  cert : Tlv
  parts : List Tlv
  tbs : Tlv
  fields : List Tlv
  read : readTlv der 0 = some cert
  tag : cert.1 = 0x30
  children : sequenceChildren der cert.2.1 cert.2.2 = .ok parts
  first : parts.head? = some tbs
  tbsChildren : sequenceChildren der tbs.2.1 tbs.2.2 = .ok fields

structure OpenedCertificate.Exact {der : Bytes} (c : OpenedCertificate der) : Prop where
  fills : Fills c.cert c.parts
  tbsTag : c.tbs.1 = 0x30
  tbsFills : Fills c.tbs c.fields

/-- The field at the index is the one whose key is returned. -/
def OpenedCertificate.Returns {der : Bytes} (c : OpenedCertificate der) (spki : Tlv) : Prop :=
  c.fields[6]? = some spki ∨
    (c.fields[5]? = some spki ∧ ∀ seventh, c.fields[6]? = some seventh → IsEmpty (KeyField der seventh))

/-- If the walk meets a field with a key, then every SEQUENCE it opened is filled by its elements,
the second one is a SEQUENCE at all, and the field that the version points to holds this key,
with nothing after it. -/
def KeyWhereItBelongs (der : Bytes) : Prop :=
  ∀ (c : OpenedCertificate der) (spki : Tlv) (f : KeyField der spki), c.Returns spki →
    c.Exact ∧ ∃ (info : Tlv) (g : KeyField der info),
      c.fields[keyInfoIndex (c.fields.head?.map (·.1))]? = some info ∧ g.Exact ∧ g.key = f.key

variable {der : Bytes} {spki : Tlv} {key : Digest} {c c' : OpenedCertificate der}

theorem slice_total {bytes : Bytes} {start len : Nat} (h : start + len ≤ bytes.length) :
    slice bytes start (start + len) = .ok ((bytes.drop start).take len) := by
  rw [slice, if_pos ⟨Nat.le_add_right _ _, h⟩, Nat.add_sub_cancel_left]

/-- The first bytes of a bit string, when they begin with no unused bits. -/
theorem copyKey_total {bits : Bytes} (hlen : 33 ≤ bits.length) (hfirst : bits.head? = some 0) :
    ∃ key : Digest, bits.take 33 = 0 :: key.toList ∧
      (slice bits 1 33 >>= copyKey) = .ok key := by
  obtain ⟨rest, rfl⟩ := List.head?_eq_some_iff.mp hfirst
  rw [List.length_cons] at hlen
  have hrest : (rest.take 32).length = 32 := by
    rw [List.length_take]
    omega
  refine ⟨⟨rest.take 32, hrest⟩, rfl, ?_⟩
  have hfits : 1 + 32 ≤ ((0 : UInt8) :: rest).length := by
    rw [List.length_cons]
    omega
  have hslice : slice (0 :: rest) 1 33 = .ok (rest.take 32) := slice_total hfits
  rw [hslice, ok_bind, copyKey, dif_pos hrest]

/-- `parse_ed25519_spki` returns, with the key of the field if it has one. -/
theorem parseEd25519Spki_iff (der : Bytes) (spki : Tlv) :
    ∃ r, parseEd25519Spki der spki = .ok r ∧
      ∀ key, r = some key ↔ ∃ f : KeyField der spki, f.key = key := by
  have hno : (∀ _ : KeyField der spki, False) →
      ∀ key, (none : Option Digest) = some key ↔ ∃ f : KeyField der spki, f.key = key := by
    intro hall key
    refine iff_of_false (by simp) ?_
    rintro ⟨f, -⟩
    exact hall f
  unfold parseEd25519Spki
  split
  next htag => exact ⟨none, rfl, hno fun f => htag f.tag⟩
  next htag =>
    obtain ⟨ts, hts, hbounds⟩ := sequenceChildren_total der spki.2.1 spki.2.2
    have hchildren : ∀ f : KeyField der spki, ts = [f.algorithm, f.bits] :=
      fun f => Except.ok.inj (hts.symm.trans f.children)
    rw [hts, ok_bind]
    split
    next algTag algVal algLen bitTag bitVal bitLen =>
      have halgorithm : ∀ f : KeyField der spki, (algTag, algVal, algLen) = f.algorithm :=
        fun f => (List.cons.inj (hchildren f)).1
      have hbits : ∀ f : KeyField der spki, (bitTag, bitVal, bitLen) = f.bits :=
        fun f => (List.cons.inj (List.cons.inj (hchildren f)).2).1
      have hbitEnd : bitVal + bitLen ≤ der.length := hbounds (bitTag, bitVal, bitLen) (by simp)
      split
      next htags =>
        refine ⟨none, rfl, hno fun f => ?_⟩
        rcases htags with h | h
        · exact h ((congrArg Prod.fst (halgorithm f)).trans f.algorithmTag)
        · exact h ((congrArg Prod.fst (hbits f)).trans f.bitsTag)
      next htags =>
        obtain ⟨halgTag, hbitTag⟩ := not_or.mp htags
        obtain ⟨parts, hparts, hpartBounds⟩ := sequenceChildren_total der algVal algLen
        have hfirst : ∀ f : KeyField der spki, parts.head? = some f.oid := by
          intro f
          have hsame := f.algorithmChildren
          rw [← halgorithm f] at hsame
          rw [Except.ok.inj (hparts.symm.trans hsame)]
          exact f.first
        rw [hparts, ok_bind]
        split
        next hnone =>
          refine ⟨none, rfl, hno fun f => ?_⟩
          have hsome := hfirst f
          rw [hnone] at hsome
          simp at hsome
        next oidTag oidVal oidLen hhead =>
          have hoid : ∀ f : KeyField der spki, (oidTag, oidVal, oidLen) = f.oid :=
            fun f => Option.some.inj (hhead.symm.trans (hfirst f))
          have hoidEnd : oidVal + oidLen ≤ der.length :=
            hpartBounds (oidTag, oidVal, oidLen) (List.mem_of_mem_head? hhead)
          split
          next hoidTag =>
            exact ⟨none, rfl, hno fun f => hoidTag ((congrArg Prod.fst (hoid f)).trans f.oidTag)⟩
          next hoidTag =>
            rw [slice_total hoidEnd, ok_bind]
            split
            next hbytes =>
              refine ⟨none, rfl, hno fun f => hbytes ?_⟩
              have hsame := f.oidBytes
              rwa [← hoid f] at hsame
            next hbytes =>
              rw [slice_total hbitEnd, ok_bind]
              split
              next hsize =>
                refine ⟨none, rfl, hno fun f => ?_⟩
                have hlong := f.size
                rw [← hbits f] at hlong
                exact absurd hlong (Nat.not_le.mpr hsize)
              next hsize =>
                have hlen : 33 ≤ ((der.drop bitVal).take bitLen).length := by
                  rw [List.length_take, List.length_drop]
                  omega
                have htake : ((der.drop bitVal).take bitLen).take 33 = (der.drop bitVal).take 33 := by
                  rw [List.take_take, min_eq_left (by omega)]
                split
                next hnone =>
                  rw [List.head?_eq_none_iff] at hnone
                  rw [hnone] at hlen
                  simp at hlen
                next unused hunused =>
                  split
                  next hzero =>
                    refine ⟨none, rfl, hno fun f => hzero ?_⟩
                    have hheld := f.held
                    rw [← hbits f, ← htake] at hheld
                    obtain ⟨rest, hrest⟩ := List.head?_eq_some_iff.mp hunused
                    rw [hrest, List.take_succ_cons] at hheld
                    exact (List.cons.inj hheld).1
                  next hzero =>
                    obtain rfl : unused = 0 := not_not.mp hzero
                    obtain ⟨key, hkey, hcopy⟩ := copyKey_total hlen hunused
                    refine ⟨some key, ?_, fun other => ?_⟩
                    · rw [← bind_assoc, hcopy]
                      rfl
                    · rw [htake] at hkey
                      constructor
                      · intro hother
                        cases Option.some.inj hother
                        exact ⟨⟨_, _, parts, _, key, not_not.mp htag, hts, not_not.mp halgTag,
                          not_not.mp hbitTag, hparts, hhead, not_not.mp hoidTag, not_not.mp hbytes,
                          Nat.not_lt.mp hsize, hkey⟩, rfl⟩
                      · rintro ⟨f, rfl⟩
                        have hheld := f.held
                        rw [← hbits f, hkey] at hheld
                        exact congrArg some (List.Vector.toList_injective (List.cons.inj hheld).2)
    next hshape =>
      refine ⟨none, rfl, hno fun f => ?_⟩
      exact hshape _ _ _ _ _ _ (hchildren f)

theorem keyField_key (f g : KeyField der spki) : f.key = g.key := by
  obtain ⟨r, -, hr⟩ := parseEd25519Spki_iff der spki
  have hf := (hr f.key).mpr ⟨f, rfl⟩
  exact Option.some.inj (hf.symm.trans ((hr g.key).mpr ⟨g, rfl⟩))

/-- The loop over the two indices returns the key of the first field that has one. -/
theorem firstKey_iff (c : OpenedCertificate der) :
    ∃ r, firstKey der c.fields [6, 5] = .ok r ∧
      ∀ key, r = some key ↔ ∃ spki, c.Returns spki ∧ ∃ f : KeyField der spki, f.key = key := by
  have hsixth : (∀ seventh, c.fields[6]? = some seventh → IsEmpty (KeyField der seventh)) →
      ∃ r, firstKey der c.fields [5] = .ok r ∧
        ∀ key, r = some key ↔ ∃ spki, c.Returns spki ∧ ∃ f : KeyField der spki, f.key = key := by
    intro hempty
    have hfifth : ∀ spki, c.Returns spki → ∀ f : KeyField der spki, c.fields[5]? = some spki := by
      intro spki hreturns f
      rcases hreturns with hseventh | ⟨hsixth, -⟩
      · exact ((hempty spki hseventh).false f).elim
      · exact hsixth
    cases hget : c.fields[5]? with
    | none =>
      refine ⟨none, by simp [firstKey, hget], fun key => iff_of_false (by simp) ?_⟩
      rintro ⟨spki, hreturns, f, -⟩
      have hsome := hfifth spki hreturns f
      rw [hget] at hsome
      simp at hsome
    | some sixth =>
      obtain ⟨r, hparse, hr⟩ := parseEd25519Spki_iff der sixth
      refine ⟨r, ?_, fun key => (hr key).trans ?_⟩
      · simp only [firstKey, hget, hparse, ok_bind]
        cases r <;> rfl
      · constructor
        · exact fun hf => ⟨sixth, Or.inr ⟨hget, hempty⟩, hf⟩
        · rintro ⟨spki, hreturns, f, hf⟩
          have hsome := hfifth spki hreturns f
          rw [hget] at hsome
          cases Option.some.inj hsome
          exact ⟨f, hf⟩
  cases hget : c.fields[6]? with
  | none =>
    have hskip : firstKey der c.fields [6, 5] = firstKey der c.fields [5] := by
      rw [firstKey, hget]
    rw [hskip]
    exact hsixth (by simp [hget])
  | some seventh =>
    obtain ⟨r, hparse, hr⟩ := parseEd25519Spki_iff der seventh
    cases r with
    | none =>
      have hskip : firstKey der c.fields [6, 5] = firstKey der c.fields [5] := by
        rw [firstKey, hget]
        simp only [hparse, ok_bind]
      rw [hskip]
      refine hsixth fun other hother => ⟨fun f => ?_⟩
      cases Option.some.inj (hget.symm.trans hother)
      have hkey := (hr f.key).mpr ⟨f, rfl⟩
      simp at hkey
    | some key =>
      refine ⟨some key, ?_, fun other => ?_⟩
      · rw [firstKey, hget]
        simp only [hparse, ok_bind]
        rfl
      · rw [hr other]
        constructor
        · exact fun hf => ⟨seventh, Or.inl hget, hf⟩
        · rintro ⟨spki, hreturns, f, hf⟩
          rcases hreturns with hsame | ⟨-, hempty⟩
          · cases Option.some.inj (hget.symm.trans hsame)
            exact ⟨f, hf⟩
          · obtain ⟨g, -⟩ := (hr key).mp rfl
            exact ((hempty seventh hget).false g).elim

theorem openedCertificate_eq (c c' : OpenedCertificate der) : c = c' := by
  obtain ⟨cert, parts, tbs, fields, hread, htag, hchildren, hfirst, htbs⟩ := c
  obtain ⟨cert', parts', tbs', fields', hread', htag', hchildren', hfirst', htbs'⟩ := c'
  cases Option.some.inj (hread.symm.trans hread')
  cases Except.ok.inj (hchildren.symm.trans hchildren')
  cases Option.some.inj (hfirst.symm.trans hfirst')
  cases Except.ok.inj (htbs.symm.trans htbs')
  rfl

/-- `extract_public_key` returns, with the key that the walk meets first if it meets one. -/
theorem extractPublicKey_iff (der : Bytes) :
    ∃ r, extractPublicKey der = .ok r ∧ ∀ key, r = some key ↔
      ∃ (c : OpenedCertificate der) (spki : Tlv), c.Returns spki ∧
        ∃ f : KeyField der spki, f.key = key := by
  have hno : (∀ _ : OpenedCertificate der, False) → ∀ key, (none : Option Digest) = some key ↔
      ∃ (c : OpenedCertificate der) (spki : Tlv), c.Returns spki ∧
        ∃ f : KeyField der spki, f.key = key := by
    intro hall key
    refine iff_of_false (by simp) ?_
    rintro ⟨c, -⟩
    exact hall c
  unfold extractPublicKey
  split
  next hnone =>
    refine ⟨none, rfl, hno fun c => ?_⟩
    have hread := c.read
    rw [hnone] at hread
    simp at hread
  next outerTag certVal certLen hread =>
    have hcert : ∀ c : OpenedCertificate der, (outerTag, certVal, certLen) = c.cert :=
      fun c => Option.some.inj (hread.symm.trans c.read)
    split
    next htag => exact ⟨none, rfl, hno fun c => htag ((congrArg Prod.fst (hcert c)).trans c.tag)⟩
    next htag =>
      obtain ⟨parts, hparts, -⟩ := sequenceChildren_total der certVal certLen
      have hfirst : ∀ c : OpenedCertificate der, parts.head? = some c.tbs := by
        intro c
        have hchildren := c.children
        rw [← hcert c] at hchildren
        rw [Except.ok.inj (hparts.symm.trans hchildren)]
        exact c.first
      rw [hparts, ok_bind]
      split
      next hnone =>
        refine ⟨none, rfl, hno fun c => ?_⟩
        have hsome := hfirst c
        rw [hnone] at hsome
        simp at hsome
      next tbsTag tbsVal tbsLen hhead =>
        obtain ⟨fields, hfields, -⟩ := sequenceChildren_total der tbsVal tbsLen
        let c : OpenedCertificate der := ⟨_, parts, _, fields, hread, not_not.mp htag, hparts, hhead,
          hfields⟩
        obtain ⟨r, hr, hkeys⟩ := firstKey_iff c
        rw [hfields, ok_bind]
        refine ⟨r, hr, fun key => (hkeys key).trans ?_⟩
        constructor
        · exact fun h => ⟨c, h⟩
        · rintro ⟨c', h⟩
          rw [openedCertificate_eq c c']
          exact h

variable {e : Element} {pos : Nat}

theorem head_places {es : List Element} {inner : Element} {start place : Nat}
    (h : (places start es)[0]? = some (inner.place place)) :
    (places start es).head? = some (inner.place place) := by
  rwa [List.head?_eq_getElem?]

/-- The elements of a key's SEQUENCE are read as the field's parts. -/
theorem keyField_of_element (h : StandsWithin der pos e) (hinfo : IsKeyInfo e key) :
    ∃ g : KeyField der (e.place pos), g.Exact ∧ g.key = key := by
  obtain ⟨algorithm, bits, parts, oid, hseq, halgorithm, hhead, hoidTag, hoid, hbitsTag, hbits⟩ := hinfo
  obtain ⟨hchildren, hfills⟩ := h.children hseq.content
  obtain ⟨pa, hpa, ha⟩ := h.child hseq.content (i := 0) rfl
  obtain ⟨pb, hpb, hb⟩ := h.child hseq.content (i := 1) rfl
  have hplaces : places (e.place pos).2.1 [algorithm, bits] = [algorithm.place pa, bits.place pb] := by
    simp only [places, List.getElem?_cons_zero, List.getElem?_cons_succ, Option.some.injEq] at ha hb ⊢
    rw [ha, hb]
  rw [hplaces] at hchildren hfills
  obtain ⟨hparts, hpartsFill⟩ := hpa.children halgorithm.content
  rw [List.head?_eq_getElem?] at hhead
  obtain ⟨po, hpo, ho⟩ := hpa.child halgorithm.content hhead
  have hsize : (bits.place pb).2.2 = 33 := by
    have hlen : bits.content.length = 33 := by simp [hbits]
    exact hlen
  have hheld := hpb.stands.take_content
  rw [hsize, hbits] at hheld
  exact ⟨{
    algorithm := algorithm.place pa, bits := bits.place pb, parts := _, oid := oid.place po, key := key
    tag := hseq.tag, children := hchildren, algorithmTag := halgorithm.tag, bitsTag := hbitsTag
    algorithmChildren := hparts, first := head_places ho, oidTag := hoidTag
    oidBytes := hpo.stands.take_content.trans hoid, size := hsize.ge, held := hheld },
    ⟨hfills, hpartsFill, hsize⟩, rfl⟩

/-- Parts that stay within the field are the elements of a key's SEQUENCE. -/
theorem isKeyInfo_of_field (h : StandsWithin der pos e) {g : KeyField der (e.place pos)}
    (hg : g.Exact) : IsKeyInfo e g.key := by
  obtain ⟨es, hcontent, hes⟩ := h.filled g.children hg.fills
  have hlen := congrArg List.length hes
  rw [length_places] at hlen
  obtain ⟨algorithm, bits, rfl⟩ := List.length_eq_two.mp hlen.symm
  obtain ⟨pa, hpa, ha⟩ := h.child hcontent (i := 0) rfl
  obtain ⟨pb, hpb, hb⟩ := h.child hcontent (i := 1) rfl
  rw [← hes] at ha hb
  have hga : g.algorithm = algorithm.place pa := Option.some.inj ha
  have hgb : g.bits = bits.place pb := Option.some.inj hb
  have hchildren := g.algorithmChildren
  have hpartsFill := hg.algorithmFills
  rw [hga] at hchildren hpartsFill
  obtain ⟨parts, hparts, hplaces⟩ := hpa.filled hchildren hpartsFill
  have hfirst := g.first
  rw [hplaces, List.head?_eq_getElem?] at hfirst
  have hpos : 0 < parts.length := by
    obtain ⟨hlt, -⟩ := List.getElem?_eq_some_iff.mp hfirst
    rwa [length_places] at hlt
  obtain ⟨po, hpo, ho⟩ := hpa.child hparts (List.getElem?_eq_getElem hpos)
  have hgo : g.oid = parts[0].place po := Option.some.inj (hfirst.symm.trans ho)
  refine ⟨algorithm, bits, parts, parts[0], ⟨g.tag, hcontent⟩, ⟨?_, hparts⟩, ?_, ?_, ?_, ?_, ?_⟩
  · exact (congrArg Prod.fst hga).symm.trans g.algorithmTag
  · rw [List.head?_eq_getElem?, List.getElem?_eq_getElem hpos]
  · exact (congrArg Prod.fst hgo).symm.trans g.oidTag
  · rw [← hpo.stands.take_content, ← hgo]
    exact g.oidBytes
  · exact (congrArg Prod.fst hgb).symm.trans g.bitsTag
  · have hheld := g.held
    have hsize := hg.size
    rw [hgb] at hheld hsize
    rw [← hpb.stands.take_content, hsize]
    exact hheld

theorem head_tag_places (start : Nat) (es : List Element) :
    (places start es).head?.map (·.1) = es.head?.map Element.tag := by
  cases es <;> rfl

/-- The SEQUENCEs of a certificate are opened as they stand. -/
theorem opened_of_elements {cert tbs : Element} {parts fields : List Element}
    (hstands : Stands der 0 cert) (hcert : cert.IsSequence parts) (hhead : parts.head? = some tbs)
    (htbs : tbs.IsSequence fields) : ∃ (c : OpenedCertificate der) (place : Nat), c.Exact ∧
      StandsWithin der place tbs ∧ c.fields = places (tbs.place place).2.1 fields := by
  have hsmall := cert.length_octets_lt
  have hwithin : StandsWithin der 0 cert := ⟨hstands, by omega⟩
  obtain ⟨hchildren, hfills⟩ := hwithin.children hcert.content
  rw [List.head?_eq_getElem?] at hhead
  obtain ⟨place, hplace, ht⟩ := hwithin.child hcert.content hhead
  obtain ⟨htbsChildren, htbsFills⟩ := hplace.children htbs.content
  exact ⟨⟨_, _, tbs.place place, _, hwithin.read, hcert.tag, hchildren, head_places ht,
    htbsChildren⟩, place, ⟨hfills, htbs.tag, htbsFills⟩, hplace, rfl⟩

/-- The grammar in terms of what the walk reads. -/
theorem holdsKey_iff : HoldsKey der key ↔ ∃ c : OpenedCertificate der, c.Exact ∧
    ∃ (info : Tlv) (g : KeyField der info),
      c.fields[keyInfoIndex (c.fields.head?.map (·.1))]? = some info ∧ g.Exact ∧ g.key = key := by
  constructor
  · rintro ⟨cert, parts, tbs, fields, info, hstands, hcert, hhead, htbs, hget, hinfo⟩
    obtain ⟨c, place, hc, hplace, hfields⟩ := opened_of_elements hstands hcert hhead htbs
    obtain ⟨pi, hpi, hi⟩ := hplace.child htbs.content hget
    obtain ⟨g, hg, hkey⟩ := keyField_of_element hpi hinfo
    refine ⟨c, hc, info.place pi, g, ?_, hg, hkey⟩
    rw [hfields, head_tag_places]
    exact hi
  · rintro ⟨c, hc, info, g, hget, hg, hkey⟩
    obtain ⟨cert, hwithin, hcert⟩ := standsWithin_of_read c.read
    have hchildren := c.children
    have hfills := hc.fills
    rw [hcert] at hchildren hfills
    obtain ⟨parts, hparts, hplaces⟩ := hwithin.filled hchildren hfills
    have hfirst := c.first
    rw [hplaces, List.head?_eq_getElem?] at hfirst
    have hpos : 0 < parts.length := by
      obtain ⟨hlt, -⟩ := List.getElem?_eq_some_iff.mp hfirst
      rwa [length_places] at hlt
    obtain ⟨pt, hpt, ht⟩ := hwithin.child hparts (List.getElem?_eq_getElem hpos)
    have htbs : c.tbs = parts[0].place pt := Option.some.inj (hfirst.symm.trans ht)
    have htbsChildren := c.tbsChildren
    have htbsFills := hc.tbsFills
    rw [htbs] at htbsChildren htbsFills
    obtain ⟨fields, hfields, hfieldPlaces⟩ := hpt.filled htbsChildren htbsFills
    rw [hfieldPlaces, head_tag_places] at hget
    have hlt : keyInfoIndex (fields.head?.map Element.tag) < fields.length := by
      obtain ⟨hlt, -⟩ := List.getElem?_eq_some_iff.mp hget
      rwa [length_places] at hlt
    obtain ⟨pi, hpi, hi⟩ := hpt.child hfields (List.getElem?_eq_getElem hlt)
    obtain rfl : info = _ := Option.some.inj (hget.symm.trans hi)
    refine ⟨cert, parts, parts[0], fields, _, hwithin.stands, ⟨?_, hparts⟩, ?_, ⟨?_, hfields⟩,
      List.getElem?_eq_getElem hlt, hkey ▸ isKeyInfo_of_field hpi hg⟩
    · exact (congrArg Prod.fst hcert).symm.trans c.tag
    · rw [List.head?_eq_getElem?, List.getElem?_eq_getElem hpos]
    · exact (congrArg Prod.fst htbs).symm.trans hc.tbsTag

/-- Exactly the keys of the grammar are extracted from a certificate if and only if a key that the
walk meets is where it belongs. -/
theorem extracts_grammar_iff (der : Bytes) :
    (∀ key, extractPublicKey der = .ok (some key) ↔ HoldsKey der key) ↔ KeyWhereItBelongs der := by
  obtain ⟨r, hr, hkeys⟩ := extractPublicKey_iff der
  have hsome : ∀ key, extractPublicKey der = .ok (some key) ↔ r = some key := by
    intro key
    rw [hr, Except.ok.injEq]
  simp only [hsome]
  constructor
  · intro h c spki f hreturns
    have hkey : r = some f.key := (hkeys f.key).mpr ⟨c, spki, hreturns, f, rfl⟩
    obtain ⟨c', hc', hinfo⟩ := holdsKey_iff.mp ((h f.key).mp hkey)
    rw [openedCertificate_eq c c']
    exact ⟨hc', hinfo⟩
  · intro h key
    constructor
    · intro hkey
      obtain ⟨c, spki, hreturns, f, rfl⟩ := (hkeys key).mp hkey
      obtain ⟨hc, hinfo⟩ := h c spki f hreturns
      exact holdsKey_iff.mpr ⟨c, hc, hinfo⟩
    · intro hholds
      obtain ⟨c, hc, info, g, hget, hg, rfl⟩ := holdsKey_iff.mp hholds
      have hreturned : ∃ spki, c.Returns spki ∧ Nonempty (KeyField der spki) := by
        unfold keyInfoIndex at hget
        split at hget
        · exact ⟨info, Or.inl hget, ⟨g⟩⟩
        · by_cases hempty : ∀ seventh, c.fields[6]? = some seventh → IsEmpty (KeyField der seventh)
          · exact ⟨info, Or.inr ⟨hget, hempty⟩, ⟨g⟩⟩
          · simp only [not_forall, not_isEmpty_iff] at hempty
            obtain ⟨seventh, hseventh, hfield⟩ := hempty
            exact ⟨seventh, Or.inl hseventh, hfield⟩
      obtain ⟨spki, hreturns, ⟨f⟩⟩ := hreturned
      obtain ⟨-, info', g', hget', -, hkey⟩ := h c spki f hreturns
      cases Option.some.inj (hget.symm.trans hget')
      rw [keyField_key g g', hkey]
      exact (hkeys f.key).mpr ⟨c, spki, hreturns, f, rfl⟩

def victimKey : Digest := List.Vector.replicate 32 0x11

/-- The contents of an Ed25519 `SubjectPublicKeyInfo`, as the subject of a certificate. -/
def craftedSubject : Bytes :=
  [0x30, 42, 0x30, 5, 0x06, 3, 0x2b, 0x65, 0x70, 0x03, 33, 0] ++ victimKey.toList

/-- A key of another type, with its own object identifier. -/
def otherKeyInfo : Bytes :=
  [0x30, 14, 0x30, 9, 0x06, 7, 0x2a, 0x86, 0x48, 0xce, 0x3d, 2, 1, 0x03, 1, 0]

/-- A version 3 certificate with this subject and a key of another type. -/
def smuggledCertificate : Bytes :=
  let fields := [0xa0, 3, 0x02, 1, 2, 0x02, 1, 1, 0x30, 0, 0x30, 0, 0x30, 0] ++ craftedSubject ++
    otherKeyInfo
  let tbs := 0x30 :: UInt8.ofNat fields.length :: fields
  let parts := tbs ++ [0x30, 0, 0x03, 1, 0]
  0x30 :: UInt8.ofNat parts.length :: parts

/-- The subject is returned as the identity of the certificate. -/
theorem subject_taken_for_key :
    extractPublicKey smuggledCertificate = .ok (some victimKey) ∧
      ∀ key, ¬HoldsKey smuggledCertificate key := by
  refine ⟨by decide +kernel, fun key hholds => ?_⟩
  obtain ⟨c, -, info, g, hget, -⟩ := holdsKey_iff.mp hholds
  have hread : readTlv smuggledCertificate 0 = some (0x30, 2, 81) := by decide +kernel
  have hcert : c.cert = (0x30, 2, 81) := Option.some.inj (c.read.symm.trans hread)
  have hparts : sequenceChildren smuggledCertificate 2 81 =
      .ok [(0x30, 4, 74), (0x30, 80, 0), (0x03, 82, 1)] := by decide +kernel
  have hchildren := c.children
  rw [hcert, hparts] at hchildren
  have hfirst := c.first
  rw [← Except.ok.inj hchildren] at hfirst
  have hfields : sequenceChildren smuggledCertificate 4 74 =
      .ok [(0xa0, 6, 3), (0x02, 11, 1), (0x30, 14, 0), (0x30, 16, 0), (0x30, 18, 0), (0x30, 20, 42),
        (0x30, 64, 14)] := by decide +kernel
  have htbs := c.tbsChildren
  rw [← Option.some.inj hfirst, hfields] at htbs
  rw [← Except.ok.inj htbs] at hget
  obtain rfl : (0x30, 64, 14) = info := Option.some.inj hget
  have hparse : parseEd25519Spki smuggledCertificate (0x30, 64, 14) = .ok none := by decide +kernel
  obtain ⟨r, hr, hkeys⟩ := parseEd25519Spki_iff smuggledCertificate (0x30, 64, 14)
  have hsome := (hkeys g.key).mpr ⟨g, rfl⟩
  rw [← Except.ok.inj (hparse.symm.trans hr)] at hsome
  simp at hsome

end Reminisce
