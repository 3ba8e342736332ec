import OrionBios.Dhcp.Client

/-!
# The handshake on whole datagrams

The wait and the reading are stated on the datagrams that the chip holds, and the client's answer
is compared with what the two messages that it acted on confirm.
-/

namespace OrionBios.Dhcp

open Receiver (Chip CR_OPEN)

/-! ## What a wait hears -/

def queueBytes (queue : List Datagram) : List Byte := queue.flatMap Datagram.bytes

/-- The datagrams that the chip holds when it has `minBytes`, from those it holds already. -/
def arrivals (minBytes : Nat) : List Datagram → List Datagram → Option (List Datagram)
  | queue, [] => if (queueBytes queue).length < minBytes then none else some queue
  | queue, datagram :: rest =>
    if (queueBytes queue).length < minBytes then
      arrivals minBytes
        (if (queueBytes queue).length + datagram.bytes.length ≤ 2048 then queue ++ [datagram]
          else queue) rest
    else some queue

/-- The datagram that the client reads after a wait. -/
def heard (datagrams : List Datagram) : Option Datagram :=
  (arrivals OFF_OPTIONS [] datagrams).bind List.head?

theorem deliver_getD_queue {queue : List Datagram} {chip : Chip}
    (same : chip.queue = queueBytes queue) (datagram : Datagram) :
    ((chip.deliver datagram.bytes).getD chip).queue =
      queueBytes (if (queueBytes queue).length + datagram.bytes.length ≤ 2048
        then queue ++ [datagram] else queue) := by
  have size : chip.getRxSize.toNat = (queueBytes queue).length := by
    rw [← same, Chip.queue_length]
  cases delivered : chip.deliver datagram.bytes with
  | none =>
    have full : ¬(queueBytes queue).length + datagram.bytes.length ≤ 2048 := by
      intro fits
      simp [Chip.deliver, size, fits] at delivered
    rw [if_neg full, Option.getD_none, same]
  | some next =>
    have fits : (queueBytes queue).length + datagram.bytes.length ≤ 2048 := by
      by_contra full
      simp [Chip.deliver, size, full] at delivered
    rw [if_pos fits, Option.getD_some, (Chip.deliver_eq_some delivered).1, same]
    simp [queueBytes]

/-- The wait ends in time exactly when the datagrams are enough, and the chip then holds them. -/
theorem waitRxAtLeast_arrivals (minBytes : Nat) (datagrams : List Datagram) :
    ∀ (queue : List Datagram) {chip : Chip}, chip.queue = queueBytes queue →
      (waitRxAtLeast minBytes datagrams chip).map Chip.queue =
        (arrivals minBytes queue datagrams).map queueBytes := by
  induction datagrams with
  | nil =>
    intro queue chip same
    have size : chip.getRxSize.toNat = (queueBytes queue).length := by
      rw [← same, Chip.queue_length]
    simp only [waitRxAtLeast, arrivals, size]
    split
    · rfl
    · simp [same]
  | cons datagram rest inductionHypothesis =>
    intro queue chip same
    have size : chip.getRxSize.toNat = (queueBytes queue).length := by
      rw [← same, Chip.queue_length]
    simp only [waitRxAtLeast, arrivals, size]
    split
    · exact inductionHypothesis _ (deliver_getD_queue same datagram)
    · simp [same]

theorem arrivals_length {minBytes : Nat} (datagrams : List Datagram) :
    ∀ {queue held : List Datagram}, arrivals minBytes queue datagrams = some held →
      minBytes ≤ (queueBytes held).length := by
  induction datagrams with
  | nil =>
    intro queue held arrived
    simp only [arrivals] at arrived
    split at arrived
    · cases arrived
    · cases arrived
      omega
  | cons datagram rest inductionHypothesis =>
    intro queue held arrived
    simp only [arrivals] at arrived
    split at arrived
    · exact inductionHypothesis arrived
    · cases arrived
      omega

theorem waitRxAtLeast_none {datagrams : List Datagram} {chip : Chip} (empty : chip.queue = [])
    (late : waitRxAtLeast OFF_OPTIONS datagrams chip = none) : heard datagrams = none := by
  have same := waitRxAtLeast_arrivals OFF_OPTIONS datagrams [] empty
  rw [late, Option.map_none, eq_comm, Option.map_eq_none_iff] at same
  rw [heard, same, Option.bind_none]

theorem waitRxAtLeast_some {datagrams : List Datagram} {chip next : Chip} (empty : chip.queue = [])
    (inTime : waitRxAtLeast OFF_OPTIONS datagrams chip = some next) :
    ∃ datagram rest, heard datagrams = some datagram ∧ next.queue = datagram.bytes ++ rest := by
  have same := waitRxAtLeast_arrivals OFF_OPTIONS datagrams [] empty
  rw [inTime, Option.map_some, eq_comm, Option.map_eq_some_iff] at same
  obtain ⟨held, arrived, bytes⟩ := same
  have long := arrivals_length datagrams arrived
  cases held with
  | nil => simp [queueBytes, OFF_OPTIONS] at long
  | cons datagram others =>
    refine ⟨datagram, queueBytes others, ?_, ?_⟩
    · rw [heard, arrived]
      rfl
    · rw [← bytes]
      rfl

/-! ## What a reading leaves in the buffer -/

/-- The buffer after a datagram: its first bytes, and behind them what was there before. -/
def received (buffer : Buffer) (datagram : Datagram) : Buffer := fun i =>
  if i < datagram.data.length ∧ i < DHCP_PKT_BUF_SIZE then datagram.raw i else buffer i

theorem append_extractLsb' (word : BitVec 16) :
    word.extractLsb' 8 8 ++ word.extractLsb' 0 8 = word := by
  apply BitVec.eq_of_getLsbD_eq
  intro place below
  rw [BitVec.getLsbD_append]
  split
  next low => simp [low]
  next high =>
    simp only [BitVec.getLsbD_extractLsb']
    have upper : place - 8 < 8 := by omega
    simp [upper, show 8 + (place - 8) = place by omega]

theorem recvBytes_front {chip : Chip} {datagram : Datagram} {rest : List Byte}
    (front : chip.queue = datagram.bytes ++ rest) :
    ((chip.recvBytes 8).1.getD 6 0 ++ (chip.recvBytes 8).1.getD 7 0 : BitVec 16) =
        BitVec.ofNat 16 datagram.data.length ∧
      ∀ count : BitVec 16, count.toNat ≤ datagram.data.length →
        ((chip.recvBytes 8).2.recvBytes count).1 = datagram.data.take count.toNat := by
  have header : (8 : BitVec 16).toNat ≤ chip.queue.length := by
    simp [front, Datagram.bytes, wordBytes]
  obtain ⟨head, tail⟩ := Chip.recvBytes_queue header
  have stored : (chip.recvBytes 8).2.queue = datagram.data ++ rest := by
    rw [tail, front]
    rfl
  constructor
  · rw [head, front]
    exact append_extractLsb' (BitVec.ofNat 16 datagram.data.length)
  · intro count le
    have inside : count.toNat ≤ (chip.recvBytes 8).2.queue.length := by
      rw [stored, List.length_append]
      omega
    rw [(Chip.recvBytes_queue inside).1, stored, List.take_append_of_le_length le]

theorem recvUdpPacket_fst {chip : Chip} {datagram : Datagram} {rest : List Byte}
    (front : chip.queue = datagram.bytes ++ rest) (buffer : Buffer) :
    (recvUdpPacket buffer chip).1 = received buffer datagram := by
  obtain ⟨size, copied⟩ := recvBytes_front front
  have length : (BitVec.ofNat 16 datagram.data.length).toNat = datagram.data.length := by
    rw [BitVec.toNat_ofNat, Nat.mod_eq_of_lt datagram.short]
  simp only [recvUdpPacket, size]
  generalize toCopyIs : (if BitVec.ofNat 16 datagram.data.length < 320
    then BitVec.ofNat 16 datagram.data.length else 320 : BitVec 16) = toCopy
  have bound : toCopy.toNat = min datagram.data.length 320 := by
    subst toCopyIs
    split
    next small =>
      rw [BitVec.lt_def, length, show (320 : BitVec 16).toNat = 320 by rfl] at small
      rw [length, Nat.min_eq_left (Nat.le_of_lt small)]
    next large =>
      rw [BitVec.lt_def, length, Nat.not_lt] at large
      exact (Nat.min_eq_right large).symm
  have bytes : (if toCopy > 0 then (chip.recvBytes 8).2.recvBytes toCopy
      else ([], (chip.recvBytes 8).2)).1 = datagram.data.take toCopy.toNat := by
    split
    · exact copied toCopy (by omega)
    next zero =>
      have none : toCopy.toNat = 0 := by
        rw [gt_iff_lt, BitVec.lt_def, Nat.not_lt] at zero
        exact Nat.le_zero.mp zero
      rw [none, List.take_zero]
  funext i
  have capacity : DHCP_PKT_BUF_SIZE = 320 := rfl
  simp only [bytes, received, List.length_take, bound]
  by_cases inside : i < datagram.data.length ∧ i < DHCP_PKT_BUF_SIZE
  · have near : i < min (min datagram.data.length 320) datagram.data.length := by omega
    rw [if_pos near, if_pos inside, Datagram.raw, List.getD_eq_getElem?_getD,
      List.getD_eq_getElem?_getD, List.getElem?_take_of_lt (by omega)]
  · have far : ¬i < min (min datagram.data.length 320) datagram.data.length := by omega
    rw [if_neg far, if_neg inside]

/-! ## The outcome -/

/-- The parser takes the two datagrams for an OFFER and an ACK. -/
def Accepted (rxBuf : Buffer) (offer ack : Datagram) : Prop :=
  (parseDhcpOptions (received rxBuf offer) DHCP_PKT_BUF_SIZE).msgType = DHCP_OFFER ∧
    (parseDhcpOptions (received (received rxBuf offer) ack) DHCP_PKT_BUF_SIZE).msgType = DHCP_ACK

instance (rxBuf : Buffer) (offer ack : Datagram) : Decidable (Accepted rxBuf offer ack) :=
  inferInstanceAs (Decidable (_ ∧ _))

@[simp] theorem Client.ask_queue (c : Client) (packet : List Byte) :
    (c.ask packet).chip.queue = [] := by
  rw [Client.ask, Chip.queue_sendBytes, Chip.queue_open]

/-- The call succeeds exactly when both waits hear a message of the expected type. -/
theorem w5100DhcpRequest_cases (hostname : List Byte) (rxBuf : Buffer)
    (first second : List Datagram) (c : Client) :
    (∃ offer ack, heard first = some offer ∧ heard second = some ack ∧ Accepted rxBuf offer ack ∧
      (w5100DhcpRequest hostname rxBuf first second c).1 = 1 ∧
      (w5100DhcpRequest hostname rxBuf first second c).2.sipr =
        wordAt (received (received rxBuf offer) ack) OFF_YIADDR) ∨
    ((∀ offer ack, heard first = some offer → heard second = some ack →
        ¬Accepted rxBuf offer ack) ∧
      (w5100DhcpRequest hostname rxBuf first second c).1 = 0 ∧
      (w5100DhcpRequest hostname rxBuf first second c).2.sipr = ip) := by
  generalize called : w5100DhcpRequest hostname rxBuf first second c = outcome
  simp only [w5100DhcpRequest] at called
  split at called
  next late =>
    have silent := waitRxAtLeast_none (Client.ask_queue _ _) late
    subst called
    refine .inr ⟨?_, rfl, rfl⟩
    intro offer ack firstHeard
    rw [silent] at firstHeard
    cases firstHeard
  next chip inTime =>
  obtain ⟨offer, others, firstHeard, front⟩ := waitRxAtLeast_some (Client.ask_queue _ _) inTime
  rw [recvUdpPacket_fst front] at called
  split at called
  next other =>
    subst called
    refine .inr ⟨?_, rfl, rfl⟩
    rintro offer' ack firstHeard' - ⟨isOffer, -⟩
    rw [firstHeard, Option.some.injEq] at firstHeard'
    subst firstHeard'
    exact other isOffer
  next isOffer =>
  rw [ne_eq, Decidable.not_not] at isOffer
  split at called
  next late =>
    have silent := waitRxAtLeast_none (Client.ask_queue _ _) late
    subst called
    refine .inr ⟨?_, rfl, rfl⟩
    intro offer ack _ secondHeard
    rw [silent] at secondHeard
    cases secondHeard
  next chip' inTime' =>
  obtain ⟨ack, others', secondHeard, front'⟩ :=
    waitRxAtLeast_some (Client.ask_queue _ _) inTime'
  rw [recvUdpPacket_fst front'] at called
  have refused : (parseDhcpOptions (received (received rxBuf offer) ack)
      DHCP_PKT_BUF_SIZE).msgType ≠ DHCP_ACK →
      ∀ offer' ack', heard first = some offer' → heard second = some ack' →
        ¬Accepted rxBuf offer' ack' := by
    rintro other offer' ack' firstHeard' secondHeard' ⟨-, isAck⟩
    rw [firstHeard, Option.some.injEq] at firstHeard'
    rw [secondHeard, Option.some.injEq] at secondHeard'
    subst firstHeard' secondHeard'
    exact other isAck
  split at called
  next isNak =>
    subst called
    refine .inr ⟨refused ?_, rfl, rfl⟩
    rw [isNak]
    decide
  next =>
  split at called
  next other =>
    subst called
    exact .inr ⟨refused other, rfl, rfl⟩
  next isAck =>
    rw [ne_eq, Decidable.not_not] at isAck
    subst called
    exact .inl ⟨offer, ack, firstHeard, secondHeard, ⟨isOffer, isAck⟩, rfl, rfl⟩

end OrionBios.Dhcp
