import Nachos.Network.Packet

/-! What was put into a packet is read back from the wire. -/

namespace Nachos

/-- A word that starts a record is read back. -/
@[simp] theorem wordAt_wordBytes (word : Word) (rest : List Byte) :
    wordAt (wordBytes word ++ rest) 0 = word := by
  have first : (wordBytes word ++ rest).take 4 = wordBytes word := by
    rw [List.take_append_of_le_length (by simp [wordBytes]), List.take_of_length_le]
    simp [wordBytes]
  -- Four bytes hold the whole word, so that nothing is lost modulo `256 ^ 4`.
  rw [wordAt, List.drop_zero, first, wordBytes, leNat_leBytes]
  have small : word.toNat % 256 ^ 4 = word.toNat := Nat.mod_eq_of_lt word.isLt
  rw [small, BitVec.ofNat_toNat, BitVec.setWidth_eq]

/-- Words further on in a record are read past the ones before them. -/
@[simp] theorem wordAt_skip (word : Word) (rest : List Byte) (offset : Nat) :
    wordAt (wordBytes word ++ rest) (offset + 4) = wordAt rest offset := by
  have skipped : (wordBytes word ++ rest).drop (offset + 4) = rest.drop offset := by
    have past : offset + 4 = (wordBytes word).length + offset := by simp [wordBytes, Nat.add_comm]
    rw [past, List.drop_length_add_append]
  rw [wordAt, skipped, wordAt]

/-- The three words of a header are read back, each behind the ones before it. -/
theorem wordAt_three (first second third : Word) (rest : List Byte) :
    wordAt (wordBytes first ++ wordBytes second ++ wordBytes third ++ rest) 0 = first ∧
    wordAt (wordBytes first ++ wordBytes second ++ wordBytes third ++ rest) 4 = second ∧
    wordAt (wordBytes first ++ wordBytes second ++ wordBytes third ++ rest) 8 = third := by
  simp only [List.append_assoc]
  refine ⟨wordAt_wordBytes _ _, ?_, ?_⟩
  · rw [wordAt_skip _ _ 0, wordAt_wordBytes]
  · -- One step past the first word, and one past the second.
    rw [wordAt_skip _ _ 4, wordAt_skip _ _ 0, wordAt_wordBytes]

/-- Three words take up as many bytes as a header does. -/
theorem length_three (first second third : Word) :
    (wordBytes first ++ wordBytes second ++ wordBytes third).length = sizeofHeader := by
  simp [wordBytes]

/-- A packet header is read back. -/
@[simp] theorem PacketHeader.ofBytes_toBytes (header : PacketHeader) (rest : List Byte) :
    ofBytes (header.toBytes ++ rest) = header := by
  obtain ⟨toHost, fromHost, length⟩ := wordAt_three header.toHost header.fromHost header.length rest
  rw [ofBytes, toBytes, toHost, fromHost, length]

/-- A mail header is read back. -/
@[simp] theorem MailHeader.ofBytes_toBytes (header : MailHeader) (rest : List Byte) :
    ofBytes (header.toBytes ++ rest) = header := by
  obtain ⟨toBox, fromBox, length⟩ := wordAt_three header.toBox header.fromBox header.length rest
  rw [ofBytes, toBytes, toBox, fromBox, length]

@[simp] theorem PacketHeader.length_toBytes (header : PacketHeader) :
    header.toBytes.length = sizeofHeader :=
  length_three _ _ _

@[simp] theorem MailHeader.length_toBytes (header : MailHeader) :
    header.toBytes.length = sizeofHeader :=
  length_three _ _ _

/-- A datagram is read back as the packet that was put into it. -/
theorem packetOf_wire {pktHdr : PacketHeader} {mailHdr : MailHeader} {data : List Byte}
    (counted : pktHdr.length.toNat = sizeofHeader + data.length) (padding : List Byte) :
    packetOf (wire pktHdr mailHdr data padding) = (pktHdr, mailHdr.toBytes ++ data) := by
  -- The header counts the mail header and the data, and leaves the padding out.
  have whole : (mailHdr.toBytes ++ data).length = pktHdr.length.toNat := by
    rw [List.length_append, MailHeader.length_toBytes, counted]
  -- Behind the packet header come the mail header, the data and the padding.
  have skipped : (wire pktHdr mailHdr data padding).drop sizeofHeader =
      mailHdr.toBytes ++ data ++ padding := by
    rw [wire, List.append_assoc, ← PacketHeader.length_toBytes pktHdr, List.drop_left]
  have header : PacketHeader.ofBytes (wire pktHdr mailHdr data padding) = pktHdr := by
    rw [wire, List.append_assoc, PacketHeader.ofBytes_toBytes]
  rw [packetOf, header, skipped, ← whole, List.take_left]

/-- A packet is read back as the message that was put into it, whatever comes behind it. -/
theorem Mail.ofPacket_toBytes (pktHdr : PacketHeader) {mailHdr : MailHeader} {data : List Byte}
    (counted : mailHdr.length.toNat = data.length) (rest : List Byte) :
    Mail.ofPacket pktHdr (mailHdr.toBytes ++ data ++ rest) = ⟨pktHdr, mailHdr, data⟩ := by
  have header : MailHeader.ofBytes (mailHdr.toBytes ++ data ++ rest) = mailHdr := by
    rw [List.append_assoc, MailHeader.ofBytes_toBytes]
  have skipped : (mailHdr.toBytes ++ data ++ rest).drop sizeofHeader = data ++ rest := by
    rw [List.append_assoc, ← MailHeader.length_toBytes mailHdr, List.drop_left]
  rw [Mail.ofPacket, header, skipped, counted, List.take_left]

end Nachos
