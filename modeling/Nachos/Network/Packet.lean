import Nachos.Theory.Bytes

/-! What travels between machines: mail inside packets inside datagrams. -/

namespace Nachos

/-- Number of bytes that go out on the wire at a time. -/
abbrev maxWireSize : Nat := 64

/-- Number of bytes in a packet header, and in a mail header. -/
abbrev sizeofHeader : Nat := 12

/-- Most bytes of data in a packet. -/
abbrev maxPacketSize : Nat := maxWireSize - sizeofHeader

/-- Most bytes of data in a message. -/
abbrev maxMailSize : Nat := maxPacketSize - sizeofHeader

/-- The bytes of a word. -/
def wordBytes (word : Word) : List Byte := leBytes 4 word.toNat

/-- The header of a packet: the machines it goes between, and how much data it has. -/
structure PacketHeader where
  toHost : Word
  fromHost : Word
  length : Word
  deriving DecidableEq

/-- The bytes of a packet header. -/
def PacketHeader.toBytes (header : PacketHeader) : List Byte :=
  wordBytes header.toHost ++ wordBytes header.fromHost ++ wordBytes header.length

/-- Read a packet header. -/
def PacketHeader.ofBytes (bytes : List Byte) : PacketHeader :=
  ⟨wordAt bytes 0, wordAt bytes 4, wordAt bytes 8⟩

/-- The header of a message: the mail boxes it goes between, and how much data it has. -/
structure MailHeader where
  toBox : Word
  fromBox : Word
  length : Word
  deriving DecidableEq

/-- The bytes of a mail header. -/
def MailHeader.toBytes (header : MailHeader) : List Byte :=
  wordBytes header.toBox ++ wordBytes header.fromBox ++ wordBytes header.length

/-- Read a mail header. -/
def MailHeader.ofBytes (bytes : List Byte) : MailHeader :=
  ⟨wordAt bytes 0, wordAt bytes 4, wordAt bytes 8⟩

/-- A message as it lies in a mail box, up to the end of its data. -/
structure Mail where
  pktHdr : PacketHeader
  mailHdr : MailHeader
  data : List Byte
  deriving DecidableEq

/-- The message in a packet: `Mail::Mail` copies as much data as the mail header says. -/
def Mail.ofPacket (pktHdr : PacketHeader) (buffer : List Byte) : Mail :=
  let mailHdr := MailHeader.ofBytes buffer
  ⟨pktHdr, mailHdr, (buffer.drop sizeofHeader).take mailHdr.length.toNat⟩

/-- What is read of a datagram: its header, and as much data as that says. -/
def packetOf (datagram : List Byte) : PacketHeader × List Byte :=
  let header := PacketHeader.ofBytes datagram
  (header, (datagram.drop sizeofHeader).take header.length.toNat)

/-- The bytes on the wire. What the padding has was never set. -/
def wire (pktHdr : PacketHeader) (mailHdr : MailHeader) (data padding : List Byte) : List Byte :=
  pktHdr.toBytes ++ (mailHdr.toBytes ++ data) ++ padding

end Nachos
