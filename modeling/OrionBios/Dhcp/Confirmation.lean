import OrionBios.Dhcp.Exchange

/-!
# Confirmed addresses

An address is confirmed by an OFFER and an ACK that answer this client in this transaction, from
one server and about one address. The client looks at their message type only.
-/

namespace OrionBios.Dhcp

def BOOTREPLY : Byte := 2

/-- A message of the type, as its own bytes say, to this client in the transaction `xid`. -/
structure Answers (xid : Word) (msgType : Byte) (datagram : Datagram) : Prop where
  op : datagram.raw OFF_OP = BOOTREPLY
  transaction : wordAt datagram.raw OFF_XID = xid
  chaddr : (List.range 6).map (fun i => datagram.raw (OFF_CHADDR + i)) = mac
  type : (parseDhcpOptions datagram.raw datagram.data.length).msgType = msgType

/-- An OFFER and the ACK of its server for the address that it offered. -/
structure Agreed (xid : Word) (offer ack : Datagram) : Prop where
  offered : Answers xid DHCP_OFFER offer
  acknowledged : Answers xid DHCP_ACK ack
  server : serverOf ack.raw ack.data.length = serverOf offer.raw offer.data.length
  address : wordAt ack.raw OFF_YIADDR = wordAt offer.raw OFF_YIADDR

/-- What a call must leave; `leases` are the addresses that earlier calls confirmed. -/
structure Safe (leases : List Word) (xid : Word) (first second : List Datagram)
    (outcome : Nat × Client) : Prop where
  success : outcome.1 = 1 → ∃ offer ack, heard first = some offer ∧ heard second = some ack ∧
    Agreed xid offer ack ∧ outcome.2.sipr = wordAt offer.raw OFF_YIADDR
  failure : outcome.1 ≠ 1 → outcome.1 = 0 ∧ (outcome.2.sipr = 0 ∨ outcome.2.sipr ∈ leases)

theorem parseDhcpOptions_short {raw : Buffer} {rawLen : Nat} (short : rawLen ≤ OFF_OPTIONS) :
    (parseDhcpOptions raw rawLen).msgType = 0 := by
  cases rawLen with
  | zero => rfl
  | succ rounds =>
    have stopped : ¬(OFF_OPTIONS < rounds + 1 ∧ raw OFF_OPTIONS ≠ 0xFF) := by omega
    rw [parseDhcpOptions, parseLoop, if_neg stopped]

theorem Answers.long {xid : Word} {msgType : Byte} {datagram : Datagram} (nonzero : msgType ≠ 0)
    (answers : Answers xid msgType datagram) : OFF_OPTIONS < datagram.data.length := by
  by_contra short
  apply nonzero
  rw [← answers.type]
  exact parseDhcpOptions_short (Nat.not_lt.mp short)

theorem wordAt_received {buffer : Buffer} {datagram : Datagram}
    (long : OFF_OPTIONS < datagram.data.length) :
    wordAt (received buffer datagram) OFF_YIADDR = wordAt datagram.raw OFF_YIADDR := by
  have copied : ∀ i, i < OFF_OPTIONS → received buffer datagram i = datagram.raw i := by
    intro i inside
    have bounds : i < datagram.data.length ∧ i < DHCP_PKT_BUF_SIZE :=
      ⟨by omega, Nat.lt_trans inside (by decide)⟩
    rw [received, if_pos bounds]
  rw [wordAt, wordAt, copied _ (by decide), copied _ (by decide), copied _ (by decide),
    copied _ (by decide)]

/-- A call keeps its promise exactly when it acts on two messages that agree with each other and
with the transaction, or when it fails and 192.168.1.48 is a leased address. -/
theorem request_safe_iff (leases : List Word) (hostname : List Byte) (rxBuf : Buffer)
    (first second : List Datagram) (c : Client) :
    Safe leases (nextXid (c.counter + 1)) first second
        (w5100DhcpRequest hostname rxBuf first second c) ↔
      (∃ offer ack, heard first = some offer ∧ heard second = some ack ∧
        Accepted rxBuf offer ack ∧ Agreed (nextXid (c.counter + 1)) offer ack) ∨
      ((∀ offer ack, heard first = some offer → heard second = some ack →
        ¬Accepted rxBuf offer ack) ∧ ip ∈ leases) := by
  rcases w5100DhcpRequest_cases hostname rxBuf first second c with
    ⟨offer, ack, firstHeard, secondHeard, accepted, returned, address⟩ |
    ⟨refused, returned, address⟩
  · constructor
    · intro safe
      obtain ⟨offer', ack', firstHeard', secondHeard', agreed, -⟩ := safe.success returned
      rw [firstHeard, Option.some.injEq] at firstHeard'
      rw [secondHeard, Option.some.injEq] at secondHeard'
      subst firstHeard' secondHeard'
      exact .inl ⟨offer, ack, firstHeard, secondHeard, accepted, agreed⟩
    · rintro (⟨offer', ack', firstHeard', secondHeard', -, agreed⟩ | ⟨refused, -⟩)
      · rw [firstHeard, Option.some.injEq] at firstHeard'
        rw [secondHeard, Option.some.injEq] at secondHeard'
        subst firstHeard' secondHeard'
        refine ⟨?_, fun failed => absurd returned failed⟩
        intro _
        refine ⟨offer, ack, firstHeard, secondHeard, agreed, ?_⟩
        rw [address, wordAt_received (agreed.acknowledged.long (by decide)), agreed.address]
      · exact absurd accepted (refused offer ack firstHeard secondHeard)
  · constructor
    · intro safe
      have failed : (w5100DhcpRequest hostname rxBuf first second c).1 ≠ 1 := by
        rw [returned]
        decide
      refine .inr ⟨refused, ?_⟩
      have left := (safe.failure failed).2
      rw [address] at left
      exact left.resolve_left (by decide)
    · rintro (⟨offer, ack, firstHeard, secondHeard, accepted, -⟩ | ⟨-, leased⟩)
      · exact absurd accepted (refused offer ack firstHeard secondHeard)
      · refine ⟨fun succeeded => ?_, fun _ => ⟨returned, ?_⟩⟩
        · rw [returned] at succeeded
          cases succeeded
        · exact .inr (by rwa [address])

/-! ## Another host's answers -/

/-- A server's answer to the host 02:00:00:00:00:01 in its transaction. -/
def answerToAnother (msgType : Byte) : Datagram where
  sourceIp := 0xC0A80101
  sourcePort := 67
  data := [2, 1, 6, 0] ++ wordBytes 0x12345678 ++ List.replicate 8 0 ++ wordBytes 0xC0A80163 ++
    List.replicate 8 0 ++ [2, 0, 0, 0, 0, 1] ++ List.replicate 202 0 ++ wordBytes 0x63825363 ++
    [53, 1, msgType, 54, 4] ++ wordBytes 0xC0A80101 ++ [0xFF]
  short := by
    rw [List.length_append, List.length_append, List.length_append, List.length_append,
      List.length_append, List.length_append, List.length_append, List.length_append,
      List.length_append, List.length_append, List.length_replicate, List.length_replicate]
    exact (by decide : 250 < 2 ^ 16)

def client : Client where
  chip := Receiver.emptyChip
  shar := mac
  sipr := 0
  counter := 0

/-- The client takes the address of the other host. -/
theorem takes_anothers_address :
    ¬∀ (leases : List Word) (hostname : List Byte) (rxBuf : Buffer)
      (first second : List Datagram) (c : Client),
      Safe leases (nextXid (c.counter + 1)) first second
        (w5100DhcpRequest hostname rxBuf first second c) := by
  intro promised
  have safe := promised [] [] (fun _ => 0) [answerToAnother DHCP_OFFER]
    [answerToAnother DHCP_ACK] client
  have succeeded : (w5100DhcpRequest [] (fun _ => 0) [answerToAnother DHCP_OFFER]
      [answerToAnother DHCP_ACK] client).1 = 1 := by
    decide +kernel
  obtain ⟨offer, ack, firstHeard, -, agreed, -⟩ := safe.success succeeded
  have only : heard [answerToAnother DHCP_OFFER] = some (answerToAnother DHCP_OFFER) := by
    decide +kernel
  rw [only, Option.some.injEq] at firstHeard
  have transaction := agreed.offered.transaction
  rw [← firstHeard] at transaction
  exact absurd transaction (by decide +kernel)

end OrionBios.Dhcp
