import OrionBios.Receiver.W5100

/-!
# The DHCP client

One call of `w5100_dhcp_request`. The network is the datagrams that arrive while the client waits
for an OFFER and while it waits for an ACK, in their order, whoever sends them; a wait that hears
too little times out.
-/

namespace OrionBios.Dhcp

open Receiver (Chip CR_OPEN)

abbrev Byte := BitVec 8

abbrev Word := BitVec 32

/-! ## Messages -/

def CR_CLOSE : Byte := 0x10

def DHCP_DISCOVER : Byte := 1

def DHCP_OFFER : Byte := 2

def DHCP_REQUEST : Byte := 3

def DHCP_ACK : Byte := 5

def DHCP_NAK : Byte := 6

def OFF_OP : Nat := 0

def OFF_XID : Nat := 4

def OFF_YIADDR : Nat := 16

def OFF_SIADDR : Nat := 20

def OFF_CHADDR : Nat := 28

def OFF_OPTIONS : Nat := 240

def DHCP_PKT_MIN_SIZE : Nat := 300

def DHCP_PKT_BUF_SIZE : Nat := 320

abbrev Buffer := Nat → Byte

def wordAt (raw : Buffer) (place : Nat) : Word :=
  raw place ++ raw (place + 1) ++ raw (place + 2) ++ raw (place + 3)

def wordBytes (word : Word) : List Byte :=
  [word.extractLsb' 24 8, word.extractLsb' 16 8, word.extractLsb' 8 8, word.extractLsb' 0 8]

/-- `enviar_pacote_dhcp`: the packet, with the address and the server that a REQUEST names. -/
def pacoteDhcp (msgType : Byte) (xid : Word) (mac hostname : List Byte)
    (request : Option (Word × Word)) : List Byte :=
  let fixed := [1, 1, 6, 0] ++ wordBytes xid ++ [0, 0, 0x80, 0] ++ List.replicate 16 0 ++ mac ++
    List.replicate 202 0 ++ wordBytes 0x63825363
  let asked : List Byte :=
    match request with
    | none => []
    | some (reqIp, serverIp) =>
      if msgType = DHCP_REQUEST then [50, 4] ++ wordBytes reqIp ++ [54, 4] ++ wordBytes serverIp else []
  let len : Byte := BitVec.ofNat 8 hostname.length
  let packet := fixed ++ [53, 1, msgType] ++ asked ++ [12, len] ++ hostname.take len.toNat ++
    [55, 3, 1, 3, 6, 0xFF]
  packet ++ List.replicate (DHCP_PKT_MIN_SIZE - packet.length) 0

/-- What `parse_dhcp_options` returns, and what it leaves in `out_server_ip`. -/
structure Options where
  msgType : Byte
  serverIp : Word

/-- The loop of `parse_dhcp_options`; `i` grows in every round. -/
def parseLoop (raw : Buffer) (rawLen : Nat) : Nat → Nat → Options → Options
  | 0, _, found => found
  | rounds + 1, i, found =>
    if i < rawLen ∧ raw i ≠ 0xFF then
      if raw i = 0 then parseLoop raw rawLen rounds (i + 1) found
      else
        let optLen := (raw (i + 1)).toNat
        let found :=
          if raw i = 53 ∧ optLen = 1 then { found with msgType := raw (i + 2) }
          else if raw i = 54 ∧ optLen = 4 then { found with serverIp := wordAt raw (i + 2) }
          else found
        parseLoop raw rawLen rounds (i + 2 + optLen) found
    else found

def parseDhcpOptions (raw : Buffer) (rawLen : Nat) : Options :=
  parseLoop raw rawLen rawLen OFF_OPTIONS ⟨0, 0⟩

/-- The server that a message names: its identifier, or else `siaddr`. -/
def serverOf (raw : Buffer) (rawLen : Nat) : Word :=
  let serverIp := (parseDhcpOptions raw rawLen).serverIp
  if serverIp = 0 then wordAt raw OFF_SIADDR else serverIp

/-! ## Datagrams -/

structure Datagram where
  sourceIp : Word
  sourcePort : BitVec 16
  data : List Byte
  short : data.length < 2 ^ 16
  deriving DecidableEq

namespace Datagram

/-- As the chip stores it. -/
def bytes (datagram : Datagram) : List Byte :=
  wordBytes datagram.sourceIp ++
    [datagram.sourcePort.extractLsb' 8 8, datagram.sourcePort.extractLsb' 0 8] ++
    [(BitVec.ofNat 16 datagram.data.length).extractLsb' 8 8,
      (BitVec.ofNat 16 datagram.data.length).extractLsb' 0 8] ++ datagram.data

def raw (datagram : Datagram) : Buffer := fun i => datagram.data.getD i 0

end Datagram

/-- `wait_rx_at_least`, with the datagrams that arrive in time; the chip drops what it has no room
for. -/
def waitRxAtLeast (minBytes : Nat) : List Datagram → Chip → Option Chip
  | [], chip => if chip.getRxSize.toNat < minBytes then none else some chip
  | datagram :: rest, chip =>
    if chip.getRxSize.toNat < minBytes then
      waitRxAtLeast minBytes rest ((chip.deliver datagram.bytes).getD chip)
    else some chip

/-- The rest of a packet that is too long, in pieces of 32 bytes. -/
def discard : Nat → BitVec 16 → Chip → Chip
  | 0, _, chip => chip
  | rounds + 1, remaining, chip =>
    if remaining = 0 then chip
    else
      let chunk := if remaining < 32 then remaining else 32
      discard rounds (remaining - chunk) (chip.recvBytes chunk).2

/-- `w5100_recv_udp_packet` into the buffer, which keeps what the packet does not reach. -/
def recvUdpPacket (buffer : Buffer) (chip : Chip) : Buffer × Chip :=
  let (udpHeader, chip) := chip.recvBytes 8
  let dataLen : BitVec 16 := udpHeader.getD 6 0 ++ udpHeader.getD 7 0
  let toCopy : BitVec 16 := if dataLen < 320 then dataLen else 320
  let (bytes, chip) := if toCopy > 0 then chip.recvBytes toCopy else ([], chip)
  (fun i => if i < bytes.length then bytes.getD i 0 else buffer i,
    discard dataLen.toNat (dataLen - toCopy) chip)

/-! ## The handshake -/

def mac : List Byte := [0x00, 0x23, 0x69, 0x44, 0x52, 0x5C]

/-- 192.168.1.48 -/
def ip : Word := 0xC0A80130

structure Client where
  chip : Chip
  /-- The registers `SHAR` and `SIPR`. -/
  shar : List Byte
  sipr : Word
  /-- The counter of `next_xid`. -/
  counter : Word

def nextXid (counter : Word) : Word := 0x39000000 ||| (counter &&& 0x00FFFFFF)

/-- What both phases begin with, and the packet that they send. -/
def Client.ask (c : Client) (packet : List Byte) : Client :=
  { c with chip := (c.chip.command CR_OPEN).sendBytes packet, shar := mac, sipr := ip }

def Client.close (c : Client) : Client := { c with chip := c.chip.command CR_CLOSE }

/-- `w5100_dhcp_request`: `rxBuf` is what the stack holds, and then the datagrams of the two
waits. -/
def w5100DhcpRequest (hostname : List Byte) (rxBuf : Buffer) (first second : List Datagram)
    (c : Client) : Nat × Client :=
  let c := { c with counter := c.counter + 1 }
  let xid := nextXid c.counter
  let c := c.ask (pacoteDhcp DHCP_DISCOVER xid mac hostname none)
  match waitRxAtLeast OFF_OPTIONS first c.chip with
  | none => (0, c.close)
  | some chip =>
    let (rxBuf, chip) := recvUdpPacket rxBuf chip
    let c := { c with chip := chip }
    let offeredIp := wordAt rxBuf OFF_YIADDR
    if (parseDhcpOptions rxBuf DHCP_PKT_BUF_SIZE).msgType ≠ DHCP_OFFER then (0, c.close)
    else
      let serverIp := serverOf rxBuf DHCP_PKT_BUF_SIZE
      let c := c.ask (pacoteDhcp DHCP_REQUEST xid mac hostname (some (offeredIp, serverIp)))
      match waitRxAtLeast OFF_OPTIONS second c.chip with
      | none => (0, c.close)
      | some chip =>
        let (rxBuf, chip) := recvUdpPacket rxBuf chip
        let c := { c with chip := chip }
        -- `server_ip2` is filled and not looked at
        let msgType := (parseDhcpOptions rxBuf DHCP_PKT_BUF_SIZE).msgType
        if msgType = DHCP_NAK then (0, c.close)
        else if msgType ≠ DHCP_ACK then (0, c.close)
        else (1, { c with sipr := wordAt rxBuf OFF_YIADDR }.close)

end OrionBios.Dhcp
