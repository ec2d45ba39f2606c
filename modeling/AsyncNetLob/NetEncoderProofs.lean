import AsyncNetLob.NetDeliveryProofs
import AsyncNetLob.NetRepliesProofs

/-! # What the encoder sends and the reader refuses

    `send` and `serializePacket` build a frame for every packet: they never look at
    the size of the payload, and narrow it to the 32 bits of the length field.  The
    reader refuses a length above `MAX_PAYLOAD_SIZE` and otherwise takes as many bytes
    as the field says.

    So a reader is handed exactly what was sent if and only if every payload is within
    the limit (`send_exact_iff`).  Of the other frames, one that announces more than the
    limit ends the session (`oversize_refused`); one whose length field has lost the high
    bits of the size is cut there, and the reader goes on in the middle of the payload
    (`oversize_cut`). -/

namespace AsyncNet

open Protocol PrefixCode Transition

/-- One `send` for each packet. -/
def Session.sendAll (host : ByteOrder) (s : Session) (ps : List Packet) : Session :=
  ps.foldl (Session.send host) s

/-- The bytes of the frames that a new session was asked to send. -/
def Session.sentBytes (host : ByteOrder) (ps : List Packet) : Bytes :=
  (((Session.new []).sendAll host ps).posted.flatMap Handler.data).flatten

/-- `send` accepts every packet and posts its frame. -/
theorem sendAll_posted (host : ByteOrder) (s : Session) (ps : List Packet) :
    (s.sendAll host ps).posted = s.posted ++ ps.map fun p => .send (serializePacket host p) := by
  induction ps generalizing s with
  | nil => exact (List.append_nil _).symm
  | cons p ps ih =>
      show ((s.send host p).sendAll host ps).posted = _
      rw [ih]
      exact List.append_assoc _ _ _

theorem sentBytes_eq (host : ByteOrder) (ps : List Packet) :
    Session.sentBytes host ps = ps.flatMap (serializePacket host) := by
  have hframes : ((Session.new []).sendAll host ps).posted.flatMap Handler.data
      = ps.map (serializePacket host) := by
    rw [sendAll_posted, List.flatMap_append, List.flatMap_map]
    exact List.map_eq_flatMap.symm
  rw [Session.sentBytes, hframes, List.flatMap_def]

/-- The bytes of a frame do not depend on the host. -/
theorem serializePacket_host (host host' : ByteOrder) :
    serializePacket host = serializePacket host' := by
  funext p
  rw [serializePacket_eq, serializePacket_eq]

/-- A reader is handed exactly the packets `ps`: in every order of events nothing else,
    and all of them once the read loop has come to its end, which it can. -/
structure ReadExactly (host : ByteOrder) (stream : Bytes) (ps : List Packet) : Prop where
  ordered : ∀ es s, CalmRun host (Session.opened stream) es s →
    s.processed.map Packet.frame <+: ps.map Packet.frame
  complete : ∀ es s, CalmRun host (Session.opened stream) es s → s.Idle →
    s.processed.map Packet.frame = ps.map Packet.frame
  ends : ∀ es s, CalmRun host (Session.opened stream) es s →
    ∃ es' t, CalmRun host s es' t ∧ t.Idle

section Reader

variable {host : ByteOrder} {stream rest : Bytes} {ps : List Packet} {p : Packet}

/-- **THE LIMIT**: what a reader is handed is within it. -/
theorem ReadExactly.limit (h : ReadExactly host stream ps) :
    ∀ p ∈ ps, p.payload.length ≤ maxPayloadSize := by
  intro p hp
  obtain ⟨es, t, hrun, hidle⟩ := (Loop.opened True host stream).ends
  have hloop := (Loop.opened True host stream).run hrun
  have hframe : p.frame ∈ t.processed.map Packet.frame := by
    rw [h.complete es t hrun hidle]
    exact List.mem_map_of_mem hp
  obtain ⟨q, hq, hsame⟩ := List.mem_map.mp hframe
  have hpayload : q.payload = p.payload := congrArg Prod.snd hsame
  rw [← hpayload]
  exact (hloop.reads.frames q hq).limit

/-- Frames that are within the limit are handed over exactly. -/
theorem ReadExactly.of_frames (hps : ∀ p ∈ ps, p.Sendable ∧ p.header.type ≠ .disconnect) :
    ReadExactly host (ps.flatMap (serializePacket host)) ps where
  ordered es s hrun := by
    have hloop := (Loop.opened True host _).run hrun
    exact hloop.delivered.framed ps (longest_of_frames fun p hp => (hps p hp).1)
  complete es s hrun hidle := by
    have hloop := (Loop.opened True host _).run hrun
    exact hloop.delivered.whole hidle ps hps rfl
  ends es s hrun := ((Loop.opened True host _).run hrun).ends

/-- **REFUSED**: a frame that announces more than the limit, and all that follows it. -/
theorem oversize_refused (hover : maxPayloadSize < p.sentHeader.length.toNat) {es : List Event}
    {s : Session} (hrun : CalmRun host (Session.opened (serializePacket host p ++ rest)) es s) :
    s.processed = [] := by
  have hloop := (Loop.opened True host _).run hrun
  have hnone : LongestFrames host (serializePacket host p ++ rest) [] := by
    have hunframed : Unframed host (serializePacket host p ++ rest) := by
      rw [serializePacket_eq, List.append_assoc]
      exact Unframed.of_oversize hover
    show LongestFrames host ([].flatMap (serializePacket host) ++ _) []
    exact (packetCode host).longest_of_stuck (fun _ hq => absurd hq List.not_mem_nil) hunframed
  have hprocessed := hloop.delivered.framed [] hnone
  exact List.map_eq_nil_iff.mp (List.prefix_nil.mp hprocessed)

/-- **CUT**: the first packet that the reader is handed has the announced length. -/
theorem oversize_cut (hmagic : p.header.magic = magicHeader)
    (hfield : p.sentHeader.length.toNat ≤ maxPayloadSize) {es : List Event} {s : Session}
    (hrun : CalmRun host (Session.opened (serializePacket host p ++ rest)) es s) (hidle : s.Idle) :
    (s.processed.map Packet.frame).head?
      = some (p.header.type, p.payload.take p.sentHeader.length.toNat) := by
  have hloop := (Loop.opened True host _).run hrun
  have hle : p.sentHeader.length.toNat ≤ p.payload.length := by
    show (UInt32.ofNat p.payload.length).toNat ≤ _
    rw [UInt32.toNat_ofNat']
    exact Nat.mod_le _ _
  have hlen := List.length_take_of_le hle
  let q : Packet := ⟨p.sentHeader, p.payload.take p.sentHeader.length.toNat⟩
  have hq : q.Sendable := ⟨hmagic, Nat.le_trans (Nat.le_of_eq hlen) hfield⟩
  have hbegins : Reads Packet.Sendable (serializePacket host) (serializePacket host p ++ rest)
      [q] := by
    refine ⟨fun x hx => List.mem_singleton.mp hx ▸ hq, ?_⟩
    rw [List.flatMap_singleton, serializePacket_of_length host hlen, serializePacket_eq,
      List.append_assoc]
    exact (List.prefix_append_right_inj _).mpr
      ((List.take_prefix _ _).trans (List.prefix_append _ _))
  obtain ⟨ps, hps⟩ := (packetCode host).exists_longest (serializePacket host p ++ rest)
  obtain ⟨more, hmore⟩ := frames_of_serializePacket host (hps.reads (packetCode host) hbegins)
  have hcomplete := hloop.delivered.complete hidle ps hps
  rw [← upToDisconnect_head, hcomplete, upToDisconnect_head, ← hmore]
  rfl

end Reader

/-- **THE ENCODER**: packets other than DISCONNECT, sent by a host of any byte order, are
    handed over exactly if and only if every payload is within the limit. -/
theorem send_exact_iff (sender reader : ByteOrder) (ps : List Packet)
    (hps : ∀ p ∈ ps, p.header.magic = magicHeader ∧ p.header.type ≠ .disconnect) :
    ReadExactly reader (Session.sentBytes sender ps) ps
      ↔ ∀ p ∈ ps, p.payload.length ≤ maxPayloadSize := by
  constructor
  · exact ReadExactly.limit
  · intro hlimit
    rw [sentBytes_eq, serializePacket_host sender reader]
    refine ReadExactly.of_frames ?_
    intro p hp
    exact ⟨⟨(hps p hp).1, hlimit p hp⟩, (hps p hp).2⟩

theorem send_exact_iff_hi :
    ReadExactly .big (Session.sentBytes .little [⟨⟨magicHeader, .echoRequest, 0⟩, [104, 105]⟩])
      [⟨⟨magicHeader, .echoRequest, 0⟩, [104, 105]⟩] :=
  (send_exact_iff .little .big _ (by decide)).mpr (by decide)

/-- An ECHO_REQUEST with `n` zero bytes. -/
def zeros (n : Nat) : Packet := ⟨⟨magicHeader, .echoRequest, 0⟩, List.replicate n 0⟩

theorem zeros_length (n : Nat) : (zeros n).sentHeader.length.toNat = n % 2 ^ 32 := by
  show (UInt32.ofNat (List.replicate n (0 : UInt8)).length).toNat = _
  rw [UInt32.toNat_ofNat', List.length_replicate]

/-- **NOT EXACT**: a payload of one byte more than the limit is sent, and nothing is
    handed over; of a payload of 2^32 bytes the reader is handed an empty one. -/
theorem send_not_exact :
    ¬ ReadExactly .little (Session.sentBytes .little [zeros 65537]) [zeros 65537]
      ∧ (∀ es s, CalmRun .little (Session.opened (Session.sentBytes .little [zeros 65537])) es s →
        s.processed = [])
      ∧ ∀ es s, CalmRun .little (Session.opened (Session.sentBytes .little [zeros (2 ^ 32)])) es s →
        s.Idle → (s.processed.map Packet.frame).head? = some (.echoRequest, []) := by
  have hbytes : ∀ n, Session.sentBytes .little [zeros n]
      = serializePacket .little (zeros n) ++ [] := by
    intro n
    rw [sentBytes_eq, List.flatMap_singleton, List.append_nil]
  refine ⟨?_, ?_, ?_⟩
  · intro hexact
    have hlimit := hexact.limit _ (List.mem_singleton_self _)
    rw [zeros, List.length_replicate] at hlimit
    exact absurd hlimit (by decide)
  · intro es s hrun
    rw [hbytes] at hrun
    refine oversize_refused ?_ hrun
    rw [zeros_length]
    decide
  · intro es s hrun hidle
    rw [hbytes] at hrun
    have hfield : (zeros (2 ^ 32)).sentHeader.length.toNat = 0 := zeros_length _
    have hhead := oversize_cut rfl (by rw [hfield]; decide) hrun hidle
    rw [hfield] at hhead
    exact hhead

end AsyncNet
