import AsyncNetLob.NetProtocol

/-! # The codec round trips

    Whatever the byte orders of the two hosts, a header is eight bytes, most
    significant byte first (`serializeHeader_eq`), and decoding gives it back
    (`deserializeHeader_wire`); a buffer that decodes starts with the encoding of
    its header (`deserializeHeader_true`).  `header_codec` puts the laws of the
    codec together. -/

namespace AsyncNet

namespace ByteOrder

theorem arrange_arrange (host : ByteOrder) (bs : Bytes) : host.arrange (host.arrange bs) = bs := by
  cases host with
  | big => rfl
  | little => exact List.reverse_reverse bs

theorem arrange_length (host : ByteOrder) (bs : Bytes) : (host.arrange bs).length = bs.length := by
  cases host with
  | big => rfl
  | little => exact List.length_reverse

/-- Two bytes in network order and the word they stand for. -/
theorem big_bytes16_word16 (a b : UInt8) :
    ByteOrder.big.bytes16 (ByteOrder.big.word16 [a, b]) = [a, b] := by
  have ha := a.toNat_lt
  have hb := b.toNat_lt
  have hword : (ByteOrder.big.word16 [a, b]).toNat = a.toNat * 2 ^ 8 + b.toNat := by
    show (UInt16.ofNat ((0 * 2 ^ 8 + a.toNat) * 2 ^ 8 + b.toNat)).toNat = _
    rw [UInt16.toNat_ofNat_of_lt' (by rw [UInt16.size]; omega)]
    omega
  show [UInt8.ofNat ((ByteOrder.big.word16 [a, b]).toNat / 2 ^ 8),
    UInt8.ofNat (ByteOrder.big.word16 [a, b]).toNat] = _
  rw [hword, show (a.toNat * 2 ^ 8 + b.toNat) / 2 ^ 8 = a.toNat by omega, UInt8.ofNat_toNat]
  refine congrArg (fun c => [a, c]) (UInt8.toNat_inj.mp ?_)
  rw [UInt8.toNat_ofNat']
  omega

theorem big_word16_bytes16 (x : UInt16) : ByteOrder.big.word16 (ByteOrder.big.bytes16 x) = x := by
  have hx := x.toNat_lt
  refine UInt16.toNat_inj.mp ?_
  show (UInt16.ofNat ((0 * 2 ^ 8 + (UInt8.ofNat (x.toNat / 2 ^ 8)).toNat) * 2 ^ 8
    + (UInt8.ofNat x.toNat).toNat)).toNat = x.toNat
  rw [UInt16.toNat_ofNat', UInt8.toNat_ofNat', UInt8.toNat_ofNat']
  omega

theorem big_bytes32_word32 (a b c d : UInt8) :
    ByteOrder.big.bytes32 (ByteOrder.big.word32 [a, b, c, d]) = [a, b, c, d] := by
  have ha := a.toNat_lt
  have hb := b.toNat_lt
  have hc := c.toNat_lt
  have hd := d.toNat_lt
  have hword : (ByteOrder.big.word32 [a, b, c, d]).toNat
      = ((a.toNat * 2 ^ 8 + b.toNat) * 2 ^ 8 + c.toNat) * 2 ^ 8 + d.toNat := by
    show (UInt32.ofNat ((((0 * 2 ^ 8 + a.toNat) * 2 ^ 8 + b.toNat) * 2 ^ 8 + c.toNat) * 2 ^ 8
      + d.toNat)).toNat = _
    rw [UInt32.toNat_ofNat_of_lt' (by rw [UInt32.size]; omega)]
    omega
  have hbyte : ∀ (n : Nat) (x : UInt8), n % 2 ^ 8 = x.toNat → UInt8.ofNat n = x := by
    intro n x h
    refine UInt8.toNat_inj.mp ?_
    rw [UInt8.toNat_ofNat', h]
  show [UInt8.ofNat ((ByteOrder.big.word32 [a, b, c, d]).toNat / 2 ^ 24),
    UInt8.ofNat ((ByteOrder.big.word32 [a, b, c, d]).toNat / 2 ^ 16),
    UInt8.ofNat ((ByteOrder.big.word32 [a, b, c, d]).toNat / 2 ^ 8),
    UInt8.ofNat (ByteOrder.big.word32 [a, b, c, d]).toNat] = _
  rw [hword, hbyte _ a (by omega), hbyte _ b (by omega), hbyte _ c (by omega),
    hbyte _ d (by omega)]

theorem big_word32_bytes32 (x : UInt32) : ByteOrder.big.word32 (ByteOrder.big.bytes32 x) = x := by
  have hx := x.toNat_lt
  refine UInt32.toNat_inj.mp ?_
  show (UInt32.ofNat ((((0 * 2 ^ 8 + (UInt8.ofNat (x.toNat / 2 ^ 24)).toNat) * 2 ^ 8
    + (UInt8.ofNat (x.toNat / 2 ^ 16)).toNat) * 2 ^ 8
    + (UInt8.ofNat (x.toNat / 2 ^ 8)).toNat) * 2 ^ 8
    + (UInt8.ofNat x.toNat).toNat)).toNat = x.toNat
  rw [UInt32.toNat_ofNat', UInt8.toNat_ofNat', UInt8.toNat_ofNat', UInt8.toNat_ofNat',
    UInt8.toNat_ofNat']
  omega

/-! ## Either host -/

variable (host : ByteOrder)

theorem word16_bytes16 (x : UInt16) : host.word16 (host.bytes16 x) = x := by
  show ByteOrder.big.word16 (host.arrange (host.arrange (ByteOrder.big.bytes16 x))) = x
  rw [arrange_arrange, big_word16_bytes16]

theorem bytes16_word16 {bs : Bytes} (h : bs.length = 2) : host.bytes16 (host.word16 bs) = bs := by
  show host.arrange (ByteOrder.big.bytes16 (ByteOrder.big.word16 (host.arrange bs))) = bs
  rw [← arrange_length host] at h
  obtain ⟨a, b, hab⟩ := List.length_eq_two.mp h
  rw [hab, big_bytes16_word16, ← hab, arrange_arrange]

theorem bytes32_word32 {bs : Bytes} (h : bs.length = 4) : host.bytes32 (host.word32 bs) = bs := by
  show host.arrange (ByteOrder.big.bytes32 (ByteOrder.big.word32 (host.arrange bs))) = bs
  rw [← arrange_length host] at h
  match hbs : host.arrange bs, h with
  | [a, b, c, d], _ => rw [big_bytes32_word32, ← hbs, arrange_arrange]

end ByteOrder

section Network

variable (host : ByteOrder)

/-- `htons` puts the bytes in network order in memory. -/
theorem bytes16_htons (x : UInt16) : host.bytes16 (htons host x) = ByteOrder.big.bytes16 x :=
  host.bytes16_word16 rfl

theorem bytes32_htonl (x : UInt32) : host.bytes32 (htonl host x) = ByteOrder.big.bytes32 x :=
  host.bytes32_word32 rfl

/-- `ntohs` reads bytes in network order from memory. -/
theorem ntohs_word16 {bs : Bytes} (h : bs.length = 2) :
    ntohs host (host.word16 bs) = ByteOrder.big.word16 bs := by
  rw [ntohs, host.bytes16_word16 h]

theorem ntohl_word32 {bs : Bytes} (h : bs.length = 4) :
    ntohl host (host.word32 bs) = ByteOrder.big.word32 bs := by
  rw [ntohl, host.bytes32_word32 h]

/-- `htons` undoes `ntohs`. -/
theorem htons_ntohs (x : UInt16) : htons host (ntohs host x) = x := by
  have hbytes : ByteOrder.big.bytes16 (ByteOrder.big.word16 (host.bytes16 x)) = host.bytes16 x :=
    ByteOrder.big.bytes16_word16 (host.arrange_length _)
  rw [htons, ntohs, hbytes, host.word16_bytes16]

theorem ntohs_inj {x y : UInt16} : ntohs host x = ntohs host y ↔ x = y := by
  constructor
  · intro h
    rw [← htons_ntohs host x, h, htons_ntohs]
  · intro h
    rw [h]

/-- A word read from one byte. -/
theorem word16_singleton (a : UInt8) : (host.word16 [a]).toNat = a.toNat := by
  have ha := a.toNat_lt
  have harrange : host.arrange [a] = [a] := by
    cases host with
    | little => rfl
    | big => rfl
  rw [ByteOrder.word16, ByteOrder.value, harrange]
  show (UInt16.ofNat (0 * 2 ^ 8 + a.toNat)).toNat = a.toNat
  rw [UInt16.toNat_ofNat']
  omega

end Network

namespace Protocol

variable (host : ByteOrder)

/-- The wire format of a header. -/
def wireHeader (h : Header) : Bytes :=
  ByteOrder.big.bytes16 h.magic ++ ByteOrder.big.bytes16 h.type.code ++ ByteOrder.big.bytes32 h.length

@[simp] theorem wireHeader_length (h : Header) : (wireHeader h).length = headerSize := rfl

/-- **ENCODING** does not depend on the host. -/
theorem serializeHeader_eq (h : Header) : serializeHeader host h = wireHeader h := by
  rw [serializeHeader, bytes16_htons, bytes16_htons, bytes32_htonl]
  rfl

/-- **DECODING** reads the three fields from the first eight bytes. -/
theorem deserializeHeader_eq {data : Bytes} (hsize : headerSize ≤ data.length) (old : Header) :
    deserializeHeader host data data.length old
      = (decide (ByteOrder.big.word16 (data.take 2) = magicHeader),
        ⟨ByteOrder.big.word16 (data.take 2), ⟨ByteOrder.big.word16 ((data.drop 2).take 2)⟩,
          ByteOrder.big.word32 ((data.drop 4).take 4)⟩) := by
  have hlong : 8 ≤ data.length := hsize
  have h2 : (data.take 2).length = 2 := by
    rw [List.length_take]
    omega
  have h4 : ((data.drop 2).take 2).length = 2 := by
    rw [List.length_take, List.length_drop]
    omega
  have h8 : ((data.drop 4).take 4).length = 4 := by
    rw [List.length_take, List.length_drop]
    omega
  rw [deserializeHeader, if_neg (Nat.not_lt.mpr hsize)]
  dsimp only
  rw [ntohs_word16 host h2, ntohs_word16 host h4, ntohl_word32 host h8]
  by_cases hmagic : ByteOrder.big.word16 (data.take 2) = magicHeader
  · rw [if_neg (not_not.mpr hmagic), decide_eq_true hmagic]
  · rw [if_pos hmagic, decide_eq_false hmagic]

theorem deserializeHeader_short {data : Bytes} (hsize : data.length < headerSize) (old : Header) :
    deserializeHeader host data data.length old = (false, old) := by
  rw [deserializeHeader, if_pos hsize]

/-- **ROUND TRIP**: decoding the encoding of a header, on any host. -/
theorem deserializeHeader_wire (h : Header) (rest : Bytes) (old : Header) :
    deserializeHeader host (wireHeader h ++ rest) (wireHeader h ++ rest).length old
      = (decide (h.magic = magicHeader), h) := by
  have hsize : headerSize ≤ (wireHeader h ++ rest).length := by
    rw [List.length_append, wireHeader_length]
    exact Nat.le_add_right _ _
  have hmagic : (wireHeader h ++ rest).take 2 = ByteOrder.big.bytes16 h.magic := rfl
  have htype : ((wireHeader h ++ rest).drop 2).take 2 = ByteOrder.big.bytes16 h.type.code := rfl
  have hlength : ((wireHeader h ++ rest).drop 4).take 4 = ByteOrder.big.bytes32 h.length := rfl
  rw [deserializeHeader_eq host hsize, hmagic, htype, hlength, ByteOrder.big_word16_bytes16,
    ByteOrder.big_word16_bytes16, ByteOrder.big_word32_bytes32]

/-- A buffer that decodes starts with the encoding of its header. -/
theorem deserializeHeader_true {data : Bytes} {old h : Header}
    (hdec : deserializeHeader host data data.length old = (true, h)) :
    h.magic = magicHeader ∧ data.take headerSize = wireHeader h := by
  by_cases hsize : data.length < headerSize
  · rw [deserializeHeader_short host hsize] at hdec
    cases (Prod.mk.inj hdec).1
  · have hlong := Nat.le_of_not_lt hsize
    rw [deserializeHeader_eq host hlong] at hdec
    obtain ⟨hmagic, rfl⟩ := Prod.mk.inj hdec
    refine ⟨of_decide_eq_true hmagic, ?_⟩
    rw [headerSize] at hlong ⊢
    match data, hlong with
    | b0 :: b1 :: b2 :: b3 :: b4 :: b5 :: b6 :: b7 :: rest, _ =>
        show [b0, b1, b2, b3, b4, b5, b6, b7]
          = ByteOrder.big.bytes16 (ByteOrder.big.word16 [b0, b1])
            ++ ByteOrder.big.bytes16 (ByteOrder.big.word16 [b2, b3])
            ++ ByteOrder.big.bytes32 (ByteOrder.big.word32 [b4, b5, b6, b7])
        rw [ByteOrder.big_bytes16_word16, ByteOrder.big_bytes16_word16,
          ByteOrder.big_bytes32_word32]
        rfl

/-! ## The codec as a whole -/

/-- The size argument is looked at by the guard alone. -/
theorem deserializeHeader_size {data : Bytes} {size size' : Nat} (hsize : headerSize ≤ size)
    (hsize' : headerSize ≤ size') (old : Header) :
    deserializeHeader host data size old = deserializeHeader host data size' old := by
  rw [deserializeHeader, deserializeHeader, if_neg (Nat.not_lt.mpr hsize),
    if_neg (Nat.not_lt.mpr hsize')]

/-- Only the two bytes of the magic word decode to it. -/
theorem ntohs_word16_magic {bs : Bytes} (hlen : bs.length ≤ 2) :
    ntohs host (host.word16 bs) = magicHeader ↔ bs = [0x41, 0x4E] := by
  have hmagic : ntohs host (host.word16 [0x41, 0x4E]) = magicHeader := by
    rw [ntohs_word16 host rfl]
    rfl
  rw [← hmagic, ntohs_inj]
  constructor
  · intro hword
    match bs, hlen with
    | [], _ =>
        cases host with
        | little => exact absurd hword (by decide)
        | big => exact absurd hword (by decide)
    | [a], _ =>
        -- a single byte is a smaller number than the magic word
        have hvalue := congrArg UInt16.toNat hword
        rw [word16_singleton] at hvalue
        have hlarge : 2 ^ 8 ≤ (host.word16 [0x41, 0x4E]).toNat := by
          cases host with
          | little => decide
          | big => decide
        exact absurd hvalue (Nat.ne_of_lt (Nat.lt_of_lt_of_le a.toNat_lt hlarge))
    | [a, b], _ =>
        have hbytes := congrArg host.bytes16 hword
        rw [host.bytes16_word16 rfl, host.bytes16_word16 rfl] at hbytes
        exact hbytes
  · intro hbytes
    rw [hbytes]

theorem deserializeHeader_accepts (data : Bytes) (size : Nat) (old : Header) :
    (deserializeHeader host data size old).1 = true
      ↔ headerSize ≤ size ∧ data.take 2 = [0x41, 0x4E] := by
  by_cases hsize : size < headerSize
  · rw [deserializeHeader, if_pos hsize]
    constructor
    · intro h
      cases h
    · intro h
      exact absurd h.1 (Nat.not_le.mpr hsize)
  · rw [deserializeHeader, if_neg hsize, ← ntohs_word16_magic host (List.length_take_le 2 data)]
    dsimp only
    by_cases hmagic : ntohs host (host.word16 (data.take 2)) = magicHeader
    · rw [if_neg (not_not.mpr hmagic)]
      exact ⟨fun _ => ⟨Nat.le_of_not_lt hsize, hmagic⟩, fun _ => rfl⟩
    · rw [if_pos hmagic]
      exact ⟨fun h => (nomatch h), fun h => absurd h.2 hmagic⟩

/-- The wire bytes as shifts of the fields. -/
theorem wireHeader_bytes (h : Header) :
    wireHeader h
      = [(h.magic >>> 8).toUInt8, h.magic.toUInt8,
        (h.type.code >>> 8).toUInt8, h.type.code.toUInt8,
        (h.length >>> 24).toUInt8, (h.length >>> 16).toUInt8,
        (h.length >>> 8).toUInt8, h.length.toUInt8] := by
  have hword : ∀ x : UInt16, UInt8.ofNat (x.toNat / 2 ^ 8) = (x >>> 8).toUInt8 := by
    intro x
    refine UInt8.toNat_inj.mp ?_
    rw [UInt8.toNat_ofNat', UInt16.toNat_toUInt8, UInt16.toNat_shiftRight, Nat.shiftRight_eq_div_pow]
    rfl
  have hlong : ∀ (x k : UInt32), UInt8.ofNat (x.toNat / 2 ^ (k.toNat % 32)) = (x >>> k).toUInt8 := by
    intro x k
    refine UInt8.toNat_inj.mp ?_
    rw [UInt8.toNat_ofNat', UInt32.toNat_toUInt8, UInt32.toNat_shiftRight, Nat.shiftRight_eq_div_pow]
  rw [← hword, ← hword, ← hlong _ 24, ← hlong _ 16, ← hlong _ 8]
  rfl

/-- The laws of the header codec, for hosts of either byte order. -/
structure HeaderCodec : Prop where
  /-- The same bytes on every host: each field most significant byte first. -/
  encodes : ∀ (host : ByteOrder) (h : Header),
    serializeHeader host h
      = [(h.magic >>> 8).toUInt8, h.magic.toUInt8,
        (h.type.code >>> 8).toUInt8, h.type.code.toUInt8,
        (h.length >>> 24).toUInt8, (h.length >>> 16).toUInt8,
        (h.length >>> 8).toUInt8, h.length.toUInt8]
  /-- What is accepted. -/
  accepts : ∀ (host : ByteOrder) (data : Bytes) (size : Nat) (old : Header),
    (deserializeHeader host data size old).1 = true
      ↔ headerSize ≤ size ∧ data.take 2 = [0x41, 0x4E]
  /-- An accepted buffer, which holds the `size` bytes it is said to hold, starts with
      the encoding of its header. -/
  reproduces : ∀ (host host' : ByteOrder) (data : Bytes) (size : Nat) (old h : Header),
    size ≤ data.length → deserializeHeader host data size old = (true, h) →
      serializeHeader host' h = data.take headerSize
  /-- Decoding an encoding, whatever follows it. -/
  roundTrip : ∀ (host host' : ByteOrder) (h : Header) (rest : Bytes) (size : Nat) (old : Header),
    h.magic = magicHeader → headerSize ≤ size →
      deserializeHeader host' (serializeHeader host h ++ rest) size old = (true, h)

/-- **THE HEADER CODEC** is exact in both directions and the same on every host. -/
theorem header_codec : HeaderCodec where
  encodes host h := by
    rw [serializeHeader_eq, wireHeader_bytes]
  accepts host data size old := deserializeHeader_accepts host data size old
  reproduces := by
    intro host host' data size old h hdata hdec
    have haccepted := (deserializeHeader_accepts host data size old).mp (by rw [hdec])
    rw [deserializeHeader_size host haccepted.1 (Nat.le_trans haccepted.1 hdata)] at hdec
    rw [serializeHeader_eq, (deserializeHeader_true host hdec).2]
  roundTrip := by
    intro host host' h rest size old hmagic hsize
    have hlong : headerSize ≤ (wireHeader h ++ rest).length := by
      rw [List.length_append, wireHeader_length]
      exact Nat.le_add_right _ _
    rw [serializeHeader_eq, deserializeHeader_size host' hsize hlong,
      deserializeHeader_wire, decide_eq_true hmagic]

end Protocol

end AsyncNet
