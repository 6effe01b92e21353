import Dragonchain.Framing
import Dragonchain.BlockCheck
import Dragonchain.Outcome
import Dragonchain.TransactionCodec

/-!
Receiving of network messages: CNetMessage and CNode::ReceiveMsgBytes of net.cpp.
Whatever the chunks in which the bytes arrive, the messages are the frames of the stream.
-/

namespace Dragonchain

open Serialization ByteCodec Outcome List Option
open Framing (settle feed feed_append feed_chunk size_append)

variable {raw pch buffer data : Bytes} {stream stream' : Framing.Stream UInt8} {count fuel : Nat}

def MAX_PROTOCOL_MESSAGE_LENGTH : Nat := 32 * 1000 * 1000

abbrev MessageStartChars := { chars : Bytes // chars.length = 4 }

structure CMessageHeader where
  pchMessageStart : Bytes
  pchCommand : Bytes
  nMessageSize : UInt32
  pchChecksum : Bytes
  deriving DecidableEq

namespace CMessageHeader

def MESSAGE_START_SIZE : Nat := 4
def COMMAND_SIZE : Nat := 12
def CHECKSUM_SIZE : Nat := 4
def HEADER_SIZE : Nat := 24

def ofStart (pchMessageStartIn : MessageStartChars) : CMessageHeader :=
  ⟨pchMessageStartIn.val, replicate COMMAND_SIZE 0, 0xffffffff, replicate CHECKSUM_SIZE 0⟩

def unserialize : Reader CMessageHeader := do
  let pchMessageStart ← readBytes MESSAGE_START_SIZE
  let pchCommand ← readBytes COMMAND_SIZE
  let nMessageSize ← readUInt32
  let pchChecksum ← readBytes CHECKSUM_SIZE
  pure { pchMessageStart, pchCommand, nMessageSize, pchChecksum }

/-- The C string that begins at pchCommand. -/
def command (hdr : CMessageHeader) : Bytes :=
  (hdr.pchCommand ++ serializeUInt32 hdr.nMessageSize ++ hdr.pchChecksum).takeWhile (· != 0)

end CMessageHeader

open CMessageHeader

def overwrite (buffer : Bytes) (position : Nat) (data : Bytes) : Bytes :=
  buffer.take position ++ data ++ buffer.drop (position + data.length)

def resize (buffer : Bytes) (count : Nat) : Bytes := buffer.take count ++ replicate (count - buffer.length) 0

structure CNetMessage where
  hasher : Bytes := []
  in_data : Bool := false
  hdrbuf : Bytes := replicate HEADER_SIZE 0
  hdr : CMessageHeader
  nHdrPos : Nat := 0
  vRecv : Bytes := []
  nDataPos : Nat := 0
  deriving DecidableEq

namespace CNetMessage

variable (msg : CNetMessage)

def complete : Bool := msg.in_data && msg.hdr.nMessageSize.toNat == msg.nDataPos

/-- The bytes handled; `none` is the result -1. -/
def readHeader (pch : Bytes) : Option (Nat × CNetMessage) :=
  let nRemaining := HEADER_SIZE - msg.nHdrPos
  let nCopy := min nRemaining pch.length
  let hdrbuf := overwrite msg.hdrbuf msg.nHdrPos (pch.take nCopy)
  let nHdrPos := msg.nHdrPos + nCopy
  if nHdrPos < HEADER_SIZE then some (nCopy, { msg with hdrbuf, nHdrPos })
  else
    match unserialize hdrbuf with
    | none => none
    | some (hdr, hdrbuf) =>
      if hdr.nMessageSize.toNat > MAX_SIZE then none
      else some (nCopy, { msg with hdrbuf, nHdrPos, hdr, in_data := true })

def readData (pch : Bytes) : Nat × CNetMessage :=
  let nMessageSize := msg.hdr.nMessageSize.toNat
  let nRemaining := nMessageSize - msg.nDataPos
  let nCopy := min nRemaining pch.length
  let vRecv :=
    if msg.vRecv.length < msg.nDataPos + nCopy then
      -- up to 256 KiB ahead, but never more than the message
      resize msg.vRecv (min nMessageSize (msg.nDataPos + nCopy + 256 * 1024))
    else msg.vRecv
  (nCopy,
    { msg with
      hasher := msg.hasher ++ pch.take nCopy
      vRecv := overwrite vRecv msg.nDataPos (pch.take nCopy)
      nDataPos := msg.nDataPos + nCopy })

end CNetMessage

def NET_MESSAGE_COMMAND_OTHER : Bytes := [42, 111, 116, 104, 101, 114, 42]

/-- The part of a peer that receives; the statistics count by known command. -/
structure CNode where
  vRecvMsg : List CNetMessage
  mapRecvBytesPerMsgCmd : Bytes → Option UInt64

inductive ReceiveFault where
  | assertion
  /-- The turns given to the loop were not enough. -/
  | stillReceiving
  deriving DecidableEq

/-- An error is the result false, which disconnects the peer. -/
abbrev ReceiveM := Outcome Unit ReceiveFault

namespace CNode

variable (pchMessageStart : MessageStartChars)

/-- The messages before the current one, and that one. -/
def currentMessage (vRecvMsg : List CNetMessage) : List CNetMessage × CNetMessage :=
  match vRecvMsg.getLast? with
  | none => ([], { hdr := ofStart pchMessageStart })
  | some msg =>
    if msg.complete then (vRecvMsg, { hdr := ofStart pchMessageStart })
    else (vRecvMsg.dropLast, msg)

def recordBytes (mapRecvBytesPerMsgCmd : Bytes → Option UInt64) (hdr : CMessageHeader) :
    ReceiveM (Bytes → Option UInt64) :=
  let added := UInt64.ofNat (hdr.nMessageSize.toNat + HEADER_SIZE)
  match mapRecvBytesPerMsgCmd hdr.command, mapRecvBytesPerMsgCmd NET_MESSAGE_COMMAND_OTHER with
  | some total, _ => .ok (Function.update mapRecvBytesPerMsgCmd hdr.command (some (total + added)))
  | none, some total => .ok (Function.update mapRecvBytesPerMsgCmd NET_MESSAGE_COMMAND_OTHER (some (total + added)))
  | none, none => crash .assertion

/-- Absorbs network data: the bytes handled and the message. -/
def absorb (msg : CNetMessage) (pch : Bytes) : ReceiveM (Nat × CNetMessage) :=
  match if !msg.in_data then msg.readHeader pch else some (msg.readData pch) with
  | none => fail ()
  | some (handled, msg) =>
    if msg.in_data ∧ msg.hdr.nMessageSize.toNat > MAX_PROTOCOL_MESSAGE_LENGTH then fail ()
    else .ok (handled, msg)

/-- One turn of the loop: the node, the bytes handled and whether a message was completed. -/
def receiveTurn (node : CNode) (pch : Bytes) : ReceiveM (CNode × Nat × Bool) := do
  let (before, msg) := currentMessage pchMessageStart node.vRecvMsg
  let (handled, msg) ← absorb msg pch
  let vRecvMsg := before ++ [msg]
  if msg.complete then do
    let mapRecvBytesPerMsgCmd ← recordBytes node.mapRecvBytesPerMsgCmd msg.hdr
    pure (⟨vRecvMsg, mapRecvBytesPerMsgCmd⟩, handled, true)
  else pure ({ node with vRecvMsg }, handled, false)

def receiveLoop (pchMessageStart : MessageStartChars) : Nat → CNode → Bytes → Bool → ReceiveM (CNode × Bool)
  | _, node, [], complete => .ok (node, complete)
  | 0, _, _ :: _, _ => crash .stillReceiving
  | fuel + 1, node, byte :: rest, complete => do
    let (node, handled, completed) ← receiveTurn pchMessageStart node (byte :: rest)
    receiveLoop pchMessageStart fuel node ((byte :: rest).drop handled) (complete || completed)

/-- ReceiveMsgBytes: the node and `complete`. Every turn handles a byte at least. -/
def receiveMsgBytes (node : CNode) (pch : Bytes) : ReceiveM (CNode × Bool) :=
  receiveLoop pchMessageStart pch.length node pch false

/-- The chunks of a connection, one after the other. -/
def receiveChunks (pchMessageStart : MessageStartChars) : CNode → List Bytes → ReceiveM CNode
  | node, [] => .ok node
  | node, pch :: rest => do
    let (node, _) ← receiveMsgBytes pchMessageStart node pch
    receiveChunks pchMessageStart node rest

end CNode

open CNode

/-! The stream of messages. -/

def messageFormat : Framing.Format UInt8 where
  headerSize := HEADER_SIZE
  bodySize header := leValue ((header.drop 16).take 4)
  limit := MAX_PROTOCOL_MESSAGE_LENGTH

/-- A message that has got these bytes, header and data. -/
inductive Holds (msg : CNetMessage) (raw : Bytes) : Prop where
  | header (fresh : msg.in_data = false) (position : msg.nHdrPos = raw.length)
      (short : raw.length < HEADER_SIZE)
      (buffer : msg.hdrbuf.length = HEADER_SIZE)
      (bytes : msg.hdrbuf.take raw.length = raw) (idle : msg.nDataPos = 0) (nothing : msg.hasher = [])
      (unused : msg.vRecv = [])
  | data (reading : msg.in_data = true) (position : HEADER_SIZE + msg.nDataPos = raw.length)
      (headed : unserialize (raw.take HEADER_SIZE) = some (msg.hdr, []))
      (within : msg.nDataPos ≤ msg.hdr.nMessageSize.toNat)
      (small : msg.hdr.nMessageSize.toNat ≤ MAX_PROTOCOL_MESSAGE_LENGTH)
      (buffer : msg.nDataPos ≤ msg.vRecv.length)
      (ahead : msg.vRecv.length ≤ msg.nDataPos + 256 * 1024)
      (bytes : msg.vRecv.take msg.nDataPos = raw.drop HEADER_SIZE)
      (hashed : msg.hasher = raw.drop HEADER_SIZE)
      (fits : msg.vRecv.length ≤ msg.hdr.nMessageSize.toNat)

lemma reads_bytes_of_length {bytes : Bytes} (length : bytes.length = count) :
    Reads (readBytes count) bytes bytes := by
  subst length
  exact reads_bytes bytes

lemma unserialize_header (length : raw.length = HEADER_SIZE) :
    ∃ hdr, unserialize raw = some (hdr, []) ∧ hdr.nMessageSize.toNat = messageFormat.bodySize raw := by
  rw [HEADER_SIZE] at length
  have third : (raw.drop 16).take 4 ++ raw.drop 20 = raw.drop 16 := by
    have tail : raw.drop 20 = (raw.drop 16).drop 4 := by rw [drop_drop]
    rw [tail, take_append_drop]
  have second : (raw.drop 4).take 12 ++ raw.drop 16 = raw.drop 4 := by
    have tail : raw.drop 16 = (raw.drop 4).drop 12 := by rw [drop_drop]
    rw [tail, take_append_drop]
  have size : Reads readUInt32 ((raw.drop 16).take 4) (UInt32.ofNat (leValue ((raw.drop 16).take 4))) :=
    ((reads_bytes_of_length (by simp [length])).map leValue).map UInt32.ofNat
  have whole : Reads unserialize
      (raw.take 4 ++ ((raw.drop 4).take 12 ++ ((raw.drop 16).take 4 ++ raw.drop 20)))
      ⟨raw.take 4, (raw.drop 4).take 12, UInt32.ofNat (leValue ((raw.drop 16).take 4)), raw.drop 20⟩ := by
    refine (reads_bytes_of_length (by simp [length]; rfl)).bind ?_
    refine (reads_bytes_of_length (by simp [length]; rfl)).bind ?_
    refine size.bind ?_
    exact (reads_bytes_of_length (by simp [length]; rfl)).last
  have read := whole []
  rw [third, second, take_append_drop, append_nil] at read
  refine ⟨_, read, ?_⟩
  have below := leValue_lt ((raw.drop 16).take 4)
  have four : ((raw.drop 16).take 4).length = 4 := by simp [length]
  rw [four] at below
  exact UInt32.toNat_ofNat_of_lt' below

section Turn
variable {pchMessageStart : MessageStartChars} {msg : CNetMessage}

lemma size_of_header {hdr : CMessageHeader} (long : HEADER_SIZE ≤ raw.length)
    (headed : unserialize (raw.take HEADER_SIZE) = some (hdr, [])) :
    Framing.size messageFormat raw = hdr.nMessageSize.toNat := by
  obtain ⟨hdr', headed', size⟩ := unserialize_header (length_take_of_le long)
  rw [headed, Option.some.injEq, Prod.mk.injEq] at headed'
  rw [headed'.1, size]
  rfl

lemma Holds.complete_iff (holds : Holds msg raw) : msg.complete = true ↔
    messageFormat.headerSize ≤ raw.length ∧
      raw.length = messageFormat.headerSize + Framing.size messageFormat raw := by
  have header : messageFormat.headerSize = HEADER_SIZE := rfl
  cases holds with
  | header fresh _ short =>
    simp only [CNetMessage.complete, fresh, Bool.false_and, Bool.false_eq_true, false_iff, not_and]
    omega
  | data reading position headed =>
    rw [size_of_header (by omega) headed, CNetMessage.complete, reading, Bool.true_and, beq_iff_eq]
    omega

variable {position : Nat}

lemma overwrite_take (data : Bytes) (within : position ≤ buffer.length) :
    (overwrite buffer position data).take (position + data.length) = buffer.take position ++ data := by
  rw [overwrite]
  apply take_left'
  rw [length_append, length_take_of_le within]

lemma overwrite_length (within : position + data.length ≤ buffer.length) :
    (overwrite buffer position data).length = buffer.length := by
  rw [overwrite, length_append, length_append, length_take_of_le (by omega), length_drop]
  omega

lemma resize_length : (resize buffer count).length = count := by
  rw [resize, length_append, length_take, length_replicate]
  omega

lemma resize_take {position : Nat} (within : position ≤ buffer.length)
    (kept : position ≤ count) : (resize buffer count).take position = buffer.take position := by
  rw [resize, take_append_of_le_length (by rw [length_take]; omega), take_take, Nat.min_eq_left kept]

/-- What one turn does to a message: it handles some bytes that stay within the header
or within the data, and fails if they complete a header that says too much. -/
def Absorbs (msg : CNetMessage) (raw pch : Bytes) : Prop :=
  ∃ handled, 0 < handled ∧ handled ≤ pch.length ∧
    (raw.length + handled ≤ messageFormat.headerSize ∨
      messageFormat.headerSize ≤ raw.length ∧ Framing.size messageFormat raw ≤ messageFormat.limit ∧
        raw.length + handled ≤ messageFormat.headerSize + Framing.size messageFormat raw) ∧
    if messageFormat.headerSize ≤ raw.length + handled ∧
        Framing.size messageFormat (raw ++ pch.take handled) > messageFormat.limit then
      absorb msg pch = fail ()
    else ∃ msg', absorb msg pch = .ok (handled, msg') ∧ Holds msg' (raw ++ pch.take handled)

lemma Holds.absorbs_data (holds : Holds msg raw) (reading : msg.in_data = true)
    (unfinished : msg.complete = false) (arrived : pch ≠ []) : Absorbs msg raw pch := by
  rcases holds with fresh | ⟨-, position, headed, within, small, buffer, ahead, bytes, hashed, fits⟩
  · cases fresh.symm.trans reading
  have less : msg.nDataPos ≠ msg.hdr.nMessageSize.toNat := by
    intro same
    simp [CNetMessage.complete, reading, same] at unfinished
  have bytesLeft : 0 < pch.length := length_pos_iff.mpr arrived
  have size : Framing.size messageFormat raw = msg.hdr.nMessageSize.toNat := size_of_header (by omega) headed
  have header : messageFormat.headerSize = HEADER_SIZE := rfl
  have limit : messageFormat.limit = MAX_PROTOCOL_MESSAGE_LENGTH := rfl
  obtain ⟨handled, copy⟩ : ∃ handled, handled = min (msg.hdr.nMessageSize.toNat - msg.nDataPos) pch.length :=
    ⟨_, rfl⟩
  have taken : (pch.take handled).length = handled := length_take_of_le (by omega)
  refine ⟨handled, by omega, by omega, .inr ⟨by omega, by omega, by omega⟩, ?_⟩
  rw [size_append (by omega), if_neg (by omega)]
  have skipped : ∀ more, (raw ++ more).drop HEADER_SIZE = raw.drop HEADER_SIZE ++ more :=
    fun more => drop_append_of_le_length (by omega)
  -- the buffer is long enough for the copy
  have grown : ∃ vRecv, vRecv = (if msg.vRecv.length < msg.nDataPos + handled then
      resize msg.vRecv (min msg.hdr.nMessageSize.toNat (msg.nDataPos + handled + 256 * 1024))
      else msg.vRecv) ∧ msg.nDataPos + handled ≤ vRecv.length ∧
      vRecv.length ≤ msg.nDataPos + handled + 256 * 1024 ∧
      vRecv.take msg.nDataPos = raw.drop HEADER_SIZE ∧
      vRecv.length ≤ msg.hdr.nMessageSize.toNat := by
    refine ⟨_, rfl, ?_⟩
    split
    · rw [resize_length, resize_take buffer (by omega)]
      exact ⟨by omega, by omega, bytes, by omega⟩
    · exact ⟨by omega, by omega, bytes, fits⟩
  obtain ⟨vRecv, same, room, bounded, front, whole⟩ := grown
  have run : absorb msg pch = .ok (handled, { msg with
      hasher := msg.hasher ++ pch.take handled
      vRecv := overwrite vRecv msg.nDataPos (pch.take handled)
      nDataPos := msg.nDataPos + handled }) := by
    rw [absorb, reading]
    simp only [Bool.not_true, Bool.false_eq_true, if_false, CNetMessage.readData, ← copy, ← same]
    rw [if_neg (fun large => Nat.not_lt.mpr small large.2), reading]
  have kept : (overwrite vRecv msg.nDataPos (pch.take handled)).length = vRecv.length :=
    overwrite_length (by rw [taken]; exact room)
  refine ⟨_, run, .data reading ?_ ?_ ?_ small ?_ ?_ ?_ ?_ (kept ▸ whole)⟩
  · rw [length_append, taken]
    dsimp only
    omega
  · rw [take_append_of_le_length (by omega)]
    exact headed
  · dsimp only
    omega
  · exact kept ▸ room
  · exact kept ▸ bounded
  · have written := overwrite_take (pch.take handled) (show msg.nDataPos ≤ vRecv.length by omega)
    rw [taken] at written
    rw [skipped]
    exact written.trans (by rw [front])
  · rw [skipped]
    rw [hashed]

lemma Holds.absorbs_header (holds : Holds msg raw) (fresh : msg.in_data = false) (arrived : pch ≠ []) :
    Absorbs msg raw pch := by
  rcases holds with ⟨-, position, short, buffer, bytes, idle, nothing, unused⟩ | reading
  swap
  · cases fresh.symm.trans reading
  have bytesLeft : 0 < pch.length := length_pos_iff.mpr arrived
  have header : messageFormat.headerSize = HEADER_SIZE := rfl
  have limit : messageFormat.limit = MAX_PROTOCOL_MESSAGE_LENGTH := rfl
  obtain ⟨handled, copy⟩ : ∃ handled, handled = min (HEADER_SIZE - raw.length) pch.length := ⟨_, rfl⟩
  have taken : (pch.take handled).length = handled := length_take_of_le (by omega)
  have length : (raw ++ pch.take handled).length = raw.length + handled := by rw [length_append, taken]
  have room : (overwrite msg.hdrbuf raw.length (pch.take handled)).length = HEADER_SIZE := by
    rw [overwrite_length (by rw [taken]; omega), buffer]
  have written := overwrite_take (pch.take handled) (show raw.length ≤ msg.hdrbuf.length by omega)
  rw [taken, bytes] at written
  refine ⟨handled, by omega, by omega, .inl (by omega), ?_⟩
  by_cases part : raw.length + handled < HEADER_SIZE
  · rw [if_neg (by omega)]
    refine ⟨{ msg with
      hdrbuf := overwrite msg.hdrbuf raw.length (pch.take handled), nHdrPos := raw.length + handled },
      ?_, .header fresh length.symm (by omega) room ?_ idle nothing unused⟩
    · rw [absorb, fresh]
      simp only [Bool.not_false, if_true, CNetMessage.readHeader, position, ← copy, if_pos part]
      rw [if_neg (fun large => absurd large.1 (by rw [fresh]; exact Bool.false_ne_true)), fresh]
    · rw [length]
      exact written
  · -- the header is complete
    have full : raw.length + handled = HEADER_SIZE := by omega
    rw [full, ← room, take_length] at written
    obtain ⟨hdr, headed, size⟩ := unserialize_header (length.trans full)
    have whole : (raw ++ pch.take handled).take HEADER_SIZE = raw ++ pch.take handled := by
      rw [← full, ← length, take_length]
    have sized : Framing.size messageFormat (raw ++ pch.take handled) = hdr.nMessageSize.toNat := by
      rw [size, Framing.size, header, whole]
    have read : msg.readHeader pch = if hdr.nMessageSize.toNat > MAX_SIZE then none
        else some (handled, { msg with
          hdrbuf := [], nHdrPos := raw.length + handled, hdr, in_data := true }) := by
      rw [CNetMessage.readHeader, position, ← copy, if_neg part, written, headed]
    have narrower : MAX_PROTOCOL_MESSAGE_LENGTH ≤ MAX_SIZE := by decide
    rw [absorb, fresh, Bool.not_false, if_pos rfl, read, sized, limit]
    by_cases large : hdr.nMessageSize.toNat > MAX_PROTOCOL_MESSAGE_LENGTH
    · rw [if_pos ⟨by omega, large⟩]
      by_cases larger : hdr.nMessageSize.toNat > MAX_SIZE
      · rw [if_pos larger]
      · rw [if_neg larger]
        exact if_pos ⟨rfl, large⟩
    · rw [if_neg (by omega), if_neg (show ¬ hdr.nMessageSize.toNat > MAX_SIZE by omega)]
      have none_yet : (raw ++ pch.take handled).drop HEADER_SIZE = [] := drop_of_length_le (by omega)
      refine ⟨_, if_neg fun refused => large refused.2, .data rfl ?_ ?_ (by simp [idle]) (not_lt.mp large)
        (by simp [idle]) (by simp [unused]) ?_ ?_ (by simp [unused])⟩
      · rw [length, full, idle, Nat.add_zero]
      · rw [whole, headed]
      · rw [none_yet, idle, take_zero]
      · rw [none_yet, nothing]

lemma Holds.absorbs (holds : Holds msg raw) (unfinished : msg.complete = false) (arrived : pch ≠ []) :
    Absorbs msg raw pch := by
  cases phase : msg.in_data with
  | false => exact holds.absorbs_header phase arrived
  | true => exact holds.absorbs_data phase unfinished arrived

end Turn

/-! Whole chunks, and the chunks of a connection. -/

/-- The messages after the first ones, and the one being received, are those of the stream. -/
structure Received (pchMessageStart : MessageStartChars) (old : List CNetMessage) (node : CNode)
    (stream : Framing.Stream UInt8) : Prop where
  counted : node.mapRecvBytesPerMsgCmd NET_MESSAGE_COMMAND_OTHER ≠ none
  messages : ∃ recent msg, currentMessage pchMessageStart node.vRecvMsg = (old ++ recent, msg) ∧
    List.Forall₂ (fun msg raw => Holds msg raw ∧ msg.complete = true) recent stream.done ∧
    Holds msg stream.pending ∧ msg.complete = false

variable {node whole : CNode} {old messages others : List CNetMessage}

section Run
variable {pchMessageStart : MessageStartChars}

lemma holds_new : Holds { hdr := ofStart pchMessageStart } [] := .header rfl rfl (by decide) rfl rfl rfl rfl rfl

lemma recordBytes_ok {mapRecvBytesPerMsgCmd : Bytes → Option UInt64}
    (counted : mapRecvBytesPerMsgCmd NET_MESSAGE_COMMAND_OTHER ≠ none) (hdr : CMessageHeader) :
    ∃ after, recordBytes mapRecvBytesPerMsgCmd hdr = .ok after ∧ after NET_MESSAGE_COMMAND_OTHER ≠ none := by
  obtain ⟨total, present⟩ := ne_none_iff_exists'.mp counted
  rw [recordBytes, present]
  cases known : mapRecvBytesPerMsgCmd hdr.command with
  | none =>
    refine ⟨_, rfl, ?_⟩
    rw [Function.update_self]
    exact some_ne_none _
  | some count =>
    refine ⟨_, rfl, ?_⟩
    rw [Function.update_apply]
    split
    · exact some_ne_none _
    · exact counted

lemma receiveTurn_feeds (received : Received pchMessageStart old node stream) (arrived : pch ≠ []) :
    ∃ handled, 0 < handled ∧ handled ≤ pch.length ∧
      match feed messageFormat stream (pch.take handled) with
      | none => receiveTurn pchMessageStart node pch = fail ()
      | some stream => ∃ node' complete,
          receiveTurn pchMessageStart node pch = .ok (node', handled, complete) ∧
          Received pchMessageStart old node' stream := by
  obtain ⟨counted, recent, msg, current, done, holds, unfinished⟩ := received
  obtain ⟨handled, positive, within, fits, absorbed⟩ := holds.absorbs unfinished arrived
  refine ⟨handled, positive, within, ?_⟩
  have taken : (pch.take handled).length = handled := length_take_of_le within
  have chunk : pch.take handled ≠ [] := by
    rw [← length_pos_iff]
    omega
  have fed : feed messageFormat ⟨stream.done, stream.pending⟩ (pch.take handled) = _ :=
    feed_chunk chunk (by rw [taken]; exact fits)
  have length : (stream.pending ++ pch.take handled).length = stream.pending.length + handled := by
    rw [length_append, taken]
  have header : messageFormat.headerSize = HEADER_SIZE := rfl
  rw [show stream = ⟨stream.done, stream.pending⟩ from rfl, fed, receiveTurn, current]
  dsimp only
  split_ifs at absorbed with large
  · have failed : settle messageFormat stream.done (stream.pending ++ pch.take handled) = none := by
      rw [settle, length, if_neg (by omega), if_pos large.2]
    rw [failed, absorbed]
    rfl
  · obtain ⟨msg', run, holds'⟩ := absorbed
    rw [run, ok_bind]
    by_cases whole : msg'.complete = true
    · have frame := holds'.complete_iff.mp whole
      have settled : settle messageFormat stream.done (stream.pending ++ pch.take handled) =
          some ⟨stream.done ++ [stream.pending ++ pch.take handled], []⟩ := by
        rw [settle, if_neg (by omega), if_neg (by omega), if_pos frame.2]
      obtain ⟨after, recorded, counted'⟩ := recordBytes_ok counted msg'.hdr
      rw [settled, if_pos whole, recorded, ok_bind]
      refine ⟨_, _, rfl, counted', recent ++ [msg'], { hdr := ofStart pchMessageStart }, ?_,
        rel_append done (.cons ⟨holds', whole⟩ .nil), holds_new, rfl⟩
      rw [currentMessage, getLast?_concat]
      dsimp only
      rw [if_pos whole, append_assoc]
    · have settled : settle messageFormat stream.done (stream.pending ++ pch.take handled) =
          some ⟨stream.done, stream.pending ++ pch.take handled⟩ := by
        rw [settle]
        split
        · rfl
        · rename_i long
          rw [if_neg (by omega), if_neg fun frame => whole (holds'.complete_iff.mpr ⟨by omega, frame⟩)]
      rw [settled, if_neg whole]
      refine ⟨_, _, rfl, counted, recent, msg', ?_, done, holds', by simpa using whole⟩
      rw [currentMessage, getLast?_concat]
      dsimp only
      rw [if_neg whole, dropLast_concat]

lemma receiveLoop_feeds (turns : pch.length ≤ fuel)
    (received : Received pchMessageStart old node stream) (complete : Bool) :
    match feed messageFormat stream pch with
    | none => receiveLoop pchMessageStart fuel node pch complete = fail ()
    | some stream => ∃ node' complete',
        receiveLoop pchMessageStart fuel node pch complete = .ok (node', complete') ∧
        Received pchMessageStart old node' stream := by
  induction fuel generalizing node pch stream complete with
  | zero =>
    obtain rfl : pch = [] := length_eq_zero_iff.mp (by omega)
    exact ⟨node, complete, rfl, received⟩
  | succ fuel ih =>
    cases pch with
    | nil => exact ⟨node, complete, rfl, received⟩
    | cons byte rest =>
      obtain ⟨handled, positive, within, turn⟩ := receiveTurn_feeds received (cons_ne_nil byte rest)
      have feeds : feed messageFormat stream _ = _ := feed_append stream
        ((byte :: rest).take handled) ((byte :: rest).drop handled)
      rw [take_append_drop] at feeds
      rw [feeds, receiveLoop]
      cases fed : feed messageFormat stream ((byte :: rest).take handled) with
      | none =>
        rw [fed] at turn
        rw [turn]
        rfl
      | some middle =>
        rw [fed] at turn
        obtain ⟨node', completed, run, received'⟩ := turn
        rw [bind_some, run, ok_bind]
        exact ih (by rw [length_drop]; omega) received' _

/-- However its bytes are cut into chunks, a connection receives the frames of the stream. -/
lemma receiveChunks_feeds (chunks : List Bytes) (received : Received pchMessageStart old node stream) :
    match feed messageFormat stream chunks.flatten with
    | none => receiveChunks pchMessageStart node chunks = fail ()
    | some stream => ∃ node', receiveChunks pchMessageStart node chunks = .ok node' ∧
        Received pchMessageStart old node' stream := by
  induction chunks generalizing node stream with
  | nil => exact ⟨node, rfl, received⟩
  | cons pch rest ih =>
    have run := receiveLoop_feeds (Nat.le_refl pch.length) received false
    rw [flatten_cons, feed_append, receiveChunks, receiveMsgBytes]
    cases fed : feed messageFormat stream pch with
    | none =>
      rw [fed] at run
      rw [run]
      rfl
    | some middle =>
      rw [fed] at run
      obtain ⟨node', complete, run, received'⟩ := run
      rw [bind_some, run, ok_bind]
      exact ih received'

end Run

/-! The messages of a new peer, whatever the chunks. -/

/-- What ProcessMessages gets: the header, the payload and the result of GetMessageHash. -/
def CNetMessage.content (crypto : Crypto) (msg : CNetMessage) : CMessageHeader × Bytes × Uint256 :=
  (msg.hdr, msg.vRecv, crypto.hash256 msg.hasher)

namespace CNode

def connected (allNetMessageTypes : List Bytes) : CNode :=
  ⟨[], fun command => if command ∈ NET_MESSAGE_COMMAND_OTHER :: allNetMessageTypes then some 0 else none⟩

def completed (crypto : Crypto) (node : CNode) : List (CMessageHeader × Bytes × Uint256) :=
  (node.vRecvMsg.filter CNetMessage.complete).map (CNetMessage.content crypto)

/-- The chunks up to a byte of the stream. -/
def upTo : Nat → List Bytes → List Bytes
  | _, [] => []
  | count, pch :: rest => pch.take count :: upTo (count - pch.length) rest

lemma flatten_upTo (count : Nat) (chunks : List Bytes) :
    (upTo count chunks).flatten = chunks.flatten.take count := by
  induction chunks generalizing count with
  | nil => rw [upTo, flatten_nil, take_nil]
  | cons pch rest ih => rw [upTo, flatten_cons, ih, flatten_cons, take_append]

/-- The turns of the receive loops, between which a peer is observed. -/
def Turns (pchMessageStart : MessageStartChars) (node node' : CNode) : Prop :=
  ∃ pch ≠ [], ∃ handled complete, receiveTurn pchMessageStart node pch = .ok (node', handled, complete)

end CNode

section Content
variable {crypto : Crypto} {pchMessageStart : MessageStartChars} {msg : CNetMessage}
  {done : List Bytes}

lemma Holds.ahead_of_data (holds : Holds msg raw) : msg.vRecv.length ≤ msg.nDataPos + 256 * 1024 := by
  cases holds with
  | header _ _ _ _ _ _ _ unused =>
    rw [unused]
    exact Nat.zero_le _
  | data _ _ _ _ _ _ ahead => exact ahead

lemma Holds.parts (holds : Holds msg raw) (full : msg.complete = true) :
    unserialize (raw.take HEADER_SIZE) = some (msg.hdr, []) ∧
      msg.vRecv = raw.drop HEADER_SIZE ∧ msg.hasher = raw.drop HEADER_SIZE := by
  cases holds with
  | header fresh => simp [CNetMessage.complete, fresh] at full
  | data reading _ headed _ _ _ _ bytes hashed fits =>
    have size : msg.hdr.nMessageSize.toNat = msg.nDataPos := by simpa [CNetMessage.complete, reading] using full
    rw [take_of_length_le (size ▸ fits)] at bytes
    exact ⟨headed, bytes, hashed⟩

/-- Complete messages that hold these frames. -/
abbrev Frames (messages : List CNetMessage) (done : List Bytes) : Prop :=
  List.Forall₂ (fun msg raw => Holds msg raw ∧ msg.complete = true) messages done

lemma Frames.content_eq (frames : Frames messages done) (same : Frames others done) :
    messages.map (CNetMessage.content crypto) = others.map (CNetMessage.content crypto) := by
  induction frames generalizing others with
  | nil =>
    cases same
    rfl
  | cons holds _ ih =>
    cases same with
    | cons holds' rest =>
      obtain ⟨headed, bytes, hashed⟩ := holds.1.parts holds.2
      obtain ⟨headed', bytes', hashed'⟩ := holds'.1.parts holds'.2
      rw [headed, Option.some.injEq, Prod.mk.injEq] at headed'
      simp only [map_cons, CNetMessage.content, ih rest, headed'.1, bytes, hashed, bytes', hashed']

lemma Frames.member (frames : Frames messages done) :
    ∀ msg ∈ messages, msg.complete = true ∧ ∃ raw, Holds msg raw := by
  induction frames with
  | nil => exact fun _ member => absurd member not_mem_nil
  | cons holds _ ih => exact forall_mem_cons.mpr ⟨⟨holds.2, _, holds.1⟩, ih⟩

lemma Received.held (received : Received pchMessageStart [] node stream) :
    Frames (node.vRecvMsg.filter CNetMessage.complete) stream.done ∧
      ∀ msg ∈ node.vRecvMsg, ∃ raw, Holds msg raw := by
  obtain ⟨_, recent, msg, current, done, holds, unfinished⟩ := received
  have kept : recent.filter CNetMessage.complete = recent :=
    filter_eq_self.mpr fun msg member => (Frames.member done msg member).1
  have known : node.vRecvMsg = recent ∨ node.vRecvMsg = recent ++ [msg] := by
    rw [currentMessage, nil_append] at current
    cases last : node.vRecvMsg.getLast? with
    | none =>
      rw [last] at current
      exact .inl ((getLast?_eq_none_iff.mp last).trans (Prod.mk.inj current).1)
    | some msg' =>
      rw [last] at current
      dsimp only at current
      split at current
      · exact .inl (Prod.mk.inj current).1
      · obtain ⟨rfl, rfl⟩ := Prod.mk.inj current
        exact .inr (dropLast_append_getLast? msg' last).symm
  rcases known with same | same
  · rw [same, kept]
    exact ⟨done, fun msg member => (Frames.member done msg member).2⟩
  · rw [same, filter_append, kept, filter_cons_of_neg (by simp [unfinished]), filter_nil, append_nil]
    refine ⟨done, forall_mem_append.mpr ⟨fun msg member => (Frames.member done msg member).2, ?_⟩⟩
    exact forall_mem_singleton.mpr ⟨_, holds⟩

end Content

lemma received_connected (pchMessageStart : MessageStartChars) (allNetMessageTypes : List Bytes) :
    Received pchMessageStart [] (connected allNetMessageTypes) ⟨[], []⟩ :=
  ⟨by simp [connected], [], _, rfl, .nil, holds_new, rfl⟩

theorem received_as_at_once (crypto : Crypto) (pchMessageStart : MessageStartChars)
    (allNetMessageTypes : List Bytes) : (∀ chunks count, (∃ node whole complete,
        receiveChunks pchMessageStart (connected allNetMessageTypes) (upTo count chunks) = .ok node ∧
        receiveMsgBytes pchMessageStart (connected allNetMessageTypes) (chunks.flatten.take count) =
          .ok (whole, complete) ∧ node.completed crypto = whole.completed crypto) ∨
      receiveChunks pchMessageStart (connected allNetMessageTypes) (upTo count chunks) = fail () ∧
        receiveMsgBytes pchMessageStart (connected allNetMessageTypes) (chunks.flatten.take count) = fail ()) ∧
    ∀ node, Relation.ReflTransGen (Turns pchMessageStart) (connected allNetMessageTypes) node →
      ∀ msg ∈ node.vRecvMsg, msg.vRecv.length ≤ msg.nDataPos + 256 * 1024 := by
  have start := received_connected pchMessageStart allNetMessageTypes
  constructor
  · intro chunks count
    have pieces := receiveChunks_feeds (upTo count chunks) start
    have once := receiveLoop_feeds (Nat.le_refl (chunks.flatten.take count).length) start false
    rw [flatten_upTo] at pieces
    cases fed : feed messageFormat ⟨[], []⟩ (chunks.flatten.take count) with
    | none =>
      rw [fed] at pieces once
      exact .inr ⟨pieces, once⟩
    | some stream =>
      rw [fed] at pieces once
      obtain ⟨node, ran, received⟩ := pieces
      obtain ⟨whole, complete, ran', received'⟩ := once
      exact .inl ⟨node, whole, complete, ran, ran', received.held.1.content_eq received'.held.1⟩
  · intro node reached
    suffices received : ∃ stream, Received pchMessageStart [] node stream by
      obtain ⟨stream, received⟩ := received
      intro msg member
      obtain ⟨raw, holds⟩ := received.held.2 msg member
      exact holds.ahead_of_data
    induction reached with
    | refl => exact ⟨_, start⟩
    | tail _ turn ih =>
      obtain ⟨stream, received⟩ := ih
      obtain ⟨pch, arrived, _, _, ran⟩ := turn
      obtain ⟨handled, _, _, next⟩ := receiveTurn_feeds received arrived
      split at next
      · cases next.symm.trans ran
      · obtain ⟨_, _, ran', received'⟩ := next
        cases ran'.symm.trans ran
        exact ⟨_, received'⟩

end Dragonchain
