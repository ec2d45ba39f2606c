import AsyncNetLob.NetProtocolProofs
import AsyncNetLob.PrefixCodeProofs

/-! # Frames on the wire

    The frames that a reader accepts are a code (`packetCode`): a header says how
    long its frame is, so no frame begins another one.  A rest of a stream begins
    with no frame if it is too short for a header, if its header is refused, or if
    it is too short for the payload that its header announces. -/

namespace AsyncNet

open Protocol PrefixCode

/-- A packet with the magic of the protocol and a payload within the limit. -/
structure Packet.Sendable (p : Packet) : Prop where
  magic : p.header.magic = magicHeader
  limit : p.payload.length ≤ maxPayloadSize

/-- What a frame carries. -/
def Packet.frame (p : Packet) : MessageType × Bytes := (p.header.type, p.payload)

/-- The header that `serializePacket` sends. -/
def Packet.sentHeader (p : Packet) : Header :=
  { p.header with length := UInt32.ofNat p.payload.length }

section Framing

variable (host : ByteOrder) {p q : Packet} {h : Header} {rest : Bytes}

theorem serializePacket_eq (p : Packet) :
    serializePacket host p = wireHeader p.sentHeader ++ p.payload := by
  rw [serializePacket, serializeHeader_eq]
  rfl

theorem Packet.Sendable.length (h : p.Sendable) : p.sentHeader.length.toNat = p.payload.length := by
  have hlimit := h.limit
  rw [maxPayloadSize] at hlimit
  exact UInt32.toNat_ofNat_of_lt' (by rw [UInt32.size]; omega)

theorem wireHeader_inj {h h' : Header} (heq : wireHeader h = wireHeader h') : h = h' := by
  have hdec := deserializeHeader_wire .big h [] {}
  rw [heq, deserializeHeader_wire] at hdec
  exact (Prod.mk.inj hdec).2.symm

/-- A frame at the start of a stream: its header, and its payload after it. -/
theorem frame_begins (hp : p.Sendable) (hbegins : serializePacket host p <+: wireHeader h ++ rest) :
    p.sentHeader = h ∧ p.payload = rest.take h.length.toNat ∧ h.length.toNat ≤ rest.length := by
  rw [serializePacket_eq] at hbegins
  obtain ⟨tail, htail⟩ := hbegins
  rw [List.append_assoc] at htail
  obtain ⟨hheader, hpayload⟩ := List.append_inj htail rfl
  obtain rfl := wireHeader_inj hheader
  refine ⟨rfl, ?_, ?_⟩
  · rw [hp.length, ← hpayload, List.take_left]
  · rw [hp.length, ← hpayload, List.length_append]
    exact Nat.le_add_right _ _

/-- A payload of the announced length makes a frame. -/
theorem serializePacket_of_length {payload : Bytes} (hlen : payload.length = h.length.toNat) :
    serializePacket host ⟨h, payload⟩ = wireHeader h ++ payload := by
  rw [serializePacket_eq]
  refine congrArg (fun x => wireHeader x ++ payload) ?_
  rw [Packet.sentHeader, hlen, UInt32.ofNat_toNat]

/-- **FRAMES ARE A CODE**. -/
theorem packetCode : Code Packet.Sendable (serializePacket host) where
  nonempty := fun {x} _ hnil => by
    rw [serializePacket_eq] at hnil
    exact List.cons_ne_nil _ _ (List.append_eq_nil_iff.mp hnil).1
  unique := fun {x y s} hx hy hpx hpy => by
    obtain ⟨tail, rfl⟩ := hpy
    rw [serializePacket_eq host y, List.append_assoc] at hpx
    obtain ⟨hheader, hpayload, -⟩ := frame_begins host hx hpx
    rw [serializePacket_eq, serializePacket_eq, hheader, hpayload, hy.length, List.take_left]

/-- Equal frames carry the same. -/
theorem frame_of_serializePacket (heq : serializePacket host p = serializePacket host q) :
    p.frame = q.frame := by
  rw [serializePacket_eq, serializePacket_eq] at heq
  obtain ⟨hheader, hpayload⟩ := List.append_inj heq rfl
  have htype : p.sentHeader.type = q.sentHeader.type :=
    congrArg Header.type (wireHeader_inj hheader)
  have htype : p.header.type = q.header.type := htype
  rw [Packet.frame, Packet.frame, htype, hpayload]

theorem frames_of_serializePacket {ps qs : List Packet}
    (heq : ps.map (serializePacket host) <+: qs.map (serializePacket host)) :
    ps.map Packet.frame <+: qs.map Packet.frame := by
  induction ps generalizing qs with
  | nil => exact List.nil_prefix
  | cons p ps ih =>
      cases qs with
      | nil => exact absurd (List.prefix_nil.mp heq) (List.cons_ne_nil _ _)
      | cons q qs =>
          rw [List.map_cons, List.map_cons, List.cons_prefix_cons] at heq
          rw [List.map_cons, List.map_cons, List.cons_prefix_cons]
          exact ⟨frame_of_serializePacket host heq.1, ih heq.2⟩

theorem frames_eq {ps qs : List Packet}
    (heq : ps.map (serializePacket host) = qs.map (serializePacket host)) :
    ps.map Packet.frame = qs.map Packet.frame := by
  have hlen : ps.length = qs.length := by
    rw [← ps.length_map (serializePacket host), heq, List.length_map]
  refine (frames_of_serializePacket host (heq ▸ List.prefix_rfl)).eq_of_length ?_
  rw [List.length_map, List.length_map, hlen]

end Framing

/-! ## Where a stream stops -/

/-- No frame begins the stream. -/
def Unframed (host : ByteOrder) (rest : Bytes) : Prop :=
  ∀ p : Packet, p.Sendable → ¬ serializePacket host p <+: rest

section Unframed

variable {host : ByteOrder} {rest buffer : Bytes} {h : Header}

/-- Too short for a header. -/
theorem Unframed.of_short (hshort : rest.length < headerSize) : Unframed host rest := by
  intro p _ hbegins
  have hlen := hbegins.length_le
  rw [serializePacket_eq, List.length_append, wireHeader_length] at hlen
  omega

/-- A header that does not decode. -/
theorem Unframed.of_malformed (hsize : buffer.length = headerSize)
    (hdec : (deserializeHeader host buffer headerSize {}).1 = false) :
    Unframed host (buffer ++ rest) := by
  intro p hp hbegins
  rw [serializePacket_eq] at hbegins
  obtain ⟨tail, htail⟩ := hbegins
  rw [List.append_assoc] at htail
  obtain ⟨hheader, -⟩ := List.append_inj htail hsize.symm
  have hwire := deserializeHeader_wire host p.sentHeader [] {}
  rw [List.append_nil, hheader, hsize] at hwire
  rw [hwire] at hdec
  exact absurd hp.magic (of_decide_eq_false hdec)

/-- A header with too large a length. -/
theorem Unframed.of_oversize (hlen : maxPayloadSize < h.length.toNat) :
    Unframed host (wireHeader h ++ rest) := by
  intro p hp hbegins
  obtain ⟨rfl, -⟩ := frame_begins host hp hbegins
  rw [hp.length] at hlen
  exact absurd hp.limit (Nat.not_le_of_lt hlen)

/-- Too short for the payload. -/
theorem Unframed.of_truncated (hlen : rest.length < h.length.toNat) :
    Unframed host (wireHeader h ++ rest) := by
  intro p hp hbegins
  obtain ⟨-, -, hle⟩ := frame_begins host hp hbegins
  omega

end Unframed

/-! ## Up to the first DISCONNECT -/

/-- The frames up to and including the first DISCONNECT. -/
def upToDisconnect : List (MessageType × Bytes) → List (MessageType × Bytes)
  | [] => []
  | f :: fs => if f.1 = .disconnect then [f] else f :: upToDisconnect fs

theorem upToDisconnect_head (fs : List (MessageType × Bytes)) :
    (upToDisconnect fs).head? = fs.head? := by
  cases fs with
  | nil => rfl
  | cons f fs =>
      rw [upToDisconnect]
      split
      · rfl
      · rfl

/-- A DISCONNECT hides what follows. -/
theorem upToDisconnect_append {fs : List (MessageType × Bytes)}
    (h : ∃ f ∈ fs, f.1 = .disconnect) (gs : List (MessageType × Bytes)) :
    upToDisconnect (fs ++ gs) = upToDisconnect fs := by
  induction fs with
  | nil => exact absurd h.choose_spec.1 List.not_mem_nil
  | cons f fs ih =>
      rw [List.cons_append, upToDisconnect, upToDisconnect]
      by_cases hf : f.1 = .disconnect
      · rw [if_pos hf, if_pos hf]
      · rw [if_neg hf, if_neg hf]
        obtain ⟨g, hg, hgd⟩ := h
        rcases List.mem_cons.mp hg with rfl | hg
        · exact absurd hgd hf
        · rw [ih ⟨g, hg, hgd⟩]

theorem upToDisconnect_prefix {fs gs : List (MessageType × Bytes)} (h : fs <+: gs) :
    upToDisconnect fs <+: upToDisconnect gs := by
  induction fs generalizing gs with
  | nil => exact List.nil_prefix
  | cons f fs ih =>
      obtain ⟨rest, rfl⟩ := h
      rw [List.cons_append, upToDisconnect, upToDisconnect]
      by_cases hf : f.1 = .disconnect
      · simp [if_pos hf]
      · rw [if_neg hf, if_neg hf, List.cons_prefix_cons]
        exact ⟨rfl, ih (List.prefix_append _ _)⟩

end AsyncNet
