import OrionBios.Dhcp.Exchange

/-!
# The reception of a datagram

`w5100_recv_udp_packet` for a buffer of any capacity, with every array that it stores to. All reads
go through `w5100_recv_bytes`, which takes the pointer from the chip and gives it back.
-/

namespace OrionBios.Dhcp

open Buffers
open Receiver (Chip)

/-- The arrays that are stored to. -/
inductive Destination where
  | buf | udpHeader | scratch
  deriving DecidableEq

abbrev Arrays := Destination → Buffer

/-- `w5100_recv_bytes` -/
def w5100RecvBytes (array : Destination) (len : BitVec 16) (s : Arrays × Chip) : Arrays × Chip :=
  (Function.update s.1 array (bufferWrite (s.1 array) 0 (s.2.recvBytes len).1),
    (s.2.recvBytes len).2)

/-- The rest of a packet that is too long; a round takes at least one byte. -/
def discardInto : Nat → BitVec 16 → Arrays × Chip → Arrays × Chip
  | 0, _, s => s
  | rounds + 1, remaining, s =>
    if remaining = 0 then s
    else
      let chunk := if remaining < 32 then remaining else 32
      discardInto rounds (remaining - chunk) (w5100RecvBytes .scratch chunk s)

def w5100RecvUdpPacket (bufCap : BitVec 16) (s : Arrays × Chip) :
    BitVec 16 × Arrays × Chip :=
  let s := w5100RecvBytes .udpHeader 8 s
  let dataLen : BitVec 16 := s.1 .udpHeader 6 ++ s.1 .udpHeader 7
  let toCopy := if dataLen < bufCap then dataLen else bufCap
  let s := if toCopy > 0 then w5100RecvBytes .buf toCopy s else s
  (dataLen, discardInto dataLen.toNat (dataLen - toCopy) s)

/-! ## One reading -/

/-- The chip with its read pointer moved on, and nothing else changed. -/
def advanced (chip : Chip) (len : BitVec 16) : Chip := { chip with rxRd := chip.rxRd + len }

@[simp] theorem advanced_zero (chip : Chip) : advanced chip 0 = chip := by
  unfold advanced
  rw [add_zero]

theorem advanced_advanced (chip : Chip) (first second : BitVec 16) :
    advanced (advanced chip first) second = advanced chip (first + second) := by
  unfold advanced
  dsimp only
  rw [BitVec.add_assoc]

variable {s : Arrays × Chip} {array : Destination} {len : BitVec 16}

theorem w5100RecvBytes_chip :
    (w5100RecvBytes array len s).2 = advanced s.2 len := rfl

theorem w5100RecvBytes_other {other : Destination} (different : other ≠ array) :
    (w5100RecvBytes array len s).1 other = s.1 other :=
  Function.update_of_ne different _ _

theorem w5100RecvBytes_same :
    (w5100RecvBytes array len s).1 array = bufferWrite (s.1 array) 0 (s.2.recvBytes len).1 :=
  Function.update_self _ _ _

theorem w5100RecvBytes_behind {index : Nat} (behind : len.toNat ≤ index) :
    (w5100RecvBytes array len s).1 array index = s.1 array index := by
  rw [w5100RecvBytes_same]
  apply bufferWrite_behind
  rw [Chip.recvBytes_length, Nat.zero_add]
  exact behind

@[simp] theorem w5100RecvBytes_zero : w5100RecvBytes array 0 s = s := by
  have same : (w5100RecvBytes array 0 s).1 = s.1 := by
    refine (Function.update_eq_self_iff).mpr ?_
    exact bufferWrite_nil
  exact Prod.ext same (advanced_zero s.2)

/-! ## The discarded rest -/

/-- The discarding ends with nothing remaining, having stored to `scratch` only. -/
theorem discardInto_spec : ∀ (rounds : Nat) {remaining : BitVec 16} {s : Arrays × Chip},
    remaining.toNat ≤ rounds →
      (discardInto rounds remaining s).2 = advanced s.2 remaining ∧
        (∀ other, other ≠ .scratch → (discardInto rounds remaining s).1 other = s.1 other) ∧
          ∀ index, 32 ≤ index →
            (discardInto rounds remaining s).1 .scratch index = s.1 .scratch index := by
  intro rounds
  induction rounds with
  | zero =>
      intro remaining s enough
      obtain rfl : remaining = 0 := BitVec.eq_of_toNat_eq (Nat.le_zero.mp enough)
      refine ⟨?_, fun _ _ => rfl, fun _ _ => rfl⟩
      rw [discardInto, advanced_zero]
  | succ rounds inductionHypothesis =>
      intro remaining s enough
      rw [discardInto]
      by_cases none : remaining = 0
      · rw [if_pos none, none]
        refine ⟨?_, fun _ _ => rfl, fun _ _ => rfl⟩
        rw [advanced_zero]
      · rw [if_neg none]
        dsimp only
        generalize isChunk : (if remaining < 32 then remaining else 32 : BitVec 16) = chunk
        have some : 0 < remaining.toNat := Nat.pos_of_ne_zero fun zero =>
          none (BitVec.eq_of_toNat_eq zero)
        have bounds : chunk.toNat ≤ 32 ∧ chunk.toNat ≤ remaining.toNat ∧ 0 < chunk.toNat := by
          have is32 : (32 : BitVec 16).toNat = 32 := rfl
          rw [← isChunk]
          split
          · next less =>
              rw [BitVec.lt_def, is32] at less
              omega
          · next notLess =>
              rw [BitVec.lt_def, is32] at notLess
              omega
        have less : (remaining - chunk).toNat = remaining.toNat - chunk.toNat :=
          BitVec.toNat_sub_of_le bounds.2.1
        obtain ⟨chip, others, scratch⟩ := @inductionHypothesis
          (remaining - chunk) (w5100RecvBytes .scratch chunk s) (by omega)
        refine ⟨?_, fun other different => ?_, fun index behind => ?_⟩
        · rw [chip, w5100RecvBytes_chip, advanced_advanced, BitVec.add_comm chunk,
            BitVec.sub_add_cancel]
        · rw [others other different, w5100RecvBytes_other different]
        · rw [scratch index behind, w5100RecvBytes_behind (by omega)]

/-! ## A whole datagram -/

theorem toCopy_toNat (dataLen bufCap : BitVec 16) :
    (if dataLen < bufCap then dataLen else bufCap).toNat = min dataLen.toNat bufCap.toNat := by
  split
  · next less => exact (Nat.min_eq_left (Nat.le_of_lt less)).symm
  · next notLess => exact (Nat.min_eq_right (Nat.le_of_not_lt notLess)).symm

theorem remaining_le (dataLen bufCap : BitVec 16) :
    (dataLen - if dataLen < bufCap then dataLen else bufCap).toNat ≤ dataLen.toNat := by
  have least : (if dataLen < bufCap then dataLen else bufCap) ≤ dataLen := by
    rw [BitVec.le_def, toCopy_toNat]
    exact Nat.min_le_left _ _
  rw [BitVec.toNat_sub_of_le least]
  exact Nat.sub_le _ _

theorem header_eq (chip : Chip) (arrays : Arrays) {index : Nat} (inside : index < 8) :
    (w5100RecvBytes .udpHeader 8 (arrays, chip)).1 .udpHeader index =
      (chip.recvBytes 8).1.getD index 0 := by
  rw [w5100RecvBytes_same]
  exact bufferWrite_zero (by rw [Chip.recvBytes_length]; exact inside) 0

theorem Datagram.bytes_length (datagram : Datagram) :
    datagram.bytes.length = 8 + datagram.data.length := by
  simp [Datagram.bytes, wordBytes]
  omega

/-- A datagram that the chip holds is read whole: the buffer takes its first bytes, and nothing
else is stored; the read pointer stands behind it, at the header of the next one. -/
theorem recvUdpPacket_whole (bufCap : BitVec 16) (arrays : Arrays) (chip : Chip)
    (datagram : Datagram) (rest : List Byte) (front : chip.queue = datagram.bytes ++ rest) :
    let (returned, after, chip') := w5100RecvUdpPacket bufCap (arrays, chip)
    returned.toNat = datagram.data.length ∧
      after .buf = bufferWrite (arrays .buf) 0 (datagram.data.take bufCap.toNat) ∧
      (∀ index, 8 ≤ index → after .udpHeader index = arrays .udpHeader index) ∧
      (∀ index, 32 ≤ index → after .scratch index = arrays .scratch index) ∧
      chip' = { chip with rxRd := chip.rxRd + (8 + BitVec.ofNat 16 datagram.data.length) } ∧
      chip'.queue = rest := by
  obtain ⟨size, copied⟩ := recvBytes_front front
  have length : (BitVec.ofNat 16 datagram.data.length).toNat = datagram.data.length := by
    rw [BitVec.toNat_ofNat, Nat.mod_eq_of_lt datagram.short]
  have isLen : ((w5100RecvBytes .udpHeader 8 (arrays, chip)).1 .udpHeader 6 ++
      (w5100RecvBytes .udpHeader 8 (arrays, chip)).1 .udpHeader 7 : BitVec 16) =
        BitVec.ofNat 16 datagram.data.length := by
    rw [header_eq chip arrays (by decide), header_eq chip arrays (by decide)]
    exact size
  unfold w5100RecvUdpPacket
  dsimp only
  rw [isLen]
  generalize BitVec.ofNat 16 datagram.data.length = dataLen at size length
  have count := toCopy_toNat dataLen bufCap
  have remaining := remaining_le dataLen bufCap
  generalize (if dataLen < bufCap then dataLen else bufCap : BitVec 16) = toCopy at count remaining
  have some : toCopy > 0 ↔ toCopy ≠ 0 := by
    rw [gt_iff_lt, BitVec.lt_def, ne_eq, ← BitVec.toNat_inj]
    exact Nat.pos_iff_ne_zero
  have isCopied : (if toCopy > 0 then w5100RecvBytes .buf toCopy
      (w5100RecvBytes .udpHeader 8 (arrays, chip)) else
        w5100RecvBytes .udpHeader 8 (arrays, chip)) =
      w5100RecvBytes .buf toCopy (w5100RecvBytes .udpHeader 8 (arrays, chip)) := by
    split
    · rfl
    · next none =>
        rw [some, not_not] at none
        rw [none, w5100RecvBytes_zero]
  rw [isCopied]
  obtain ⟨isChip, others, scratch⟩ := discardInto_spec dataLen.toNat
    (s := w5100RecvBytes .buf toCopy (w5100RecvBytes .udpHeader 8 (arrays, chip))) remaining
  have moved : (discardInto dataLen.toNat (dataLen - toCopy)
      (w5100RecvBytes .buf toCopy (w5100RecvBytes .udpHeader 8 (arrays, chip)))).2 =
        advanced chip (8 + dataLen) := by
    rw [isChip, w5100RecvBytes_chip, w5100RecvBytes_chip, advanced_advanced, advanced_advanced]
    congr 2
    rw [BitVec.add_comm, BitVec.sub_add_cancel]
  have total : (8 + dataLen).toNat = 8 + datagram.data.length := by
    have held := chip.queue_length
    have short := chip.getRxSize.isLt
    rw [front, List.length_append, Datagram.bytes_length] at held
    rw [BitVec.toNat_add, length, Nat.mod_eq_of_lt]
    · rfl
    · have is8 : (8 : BitVec 16).toNat = 8 := rfl
      omega
  refine ⟨length, ?_, fun index behind => ?_, fun index behind => ?_, moved, ?_⟩
  · rw [others .buf (by decide), w5100RecvBytes_same, w5100RecvBytes_other (by decide),
      w5100RecvBytes_chip]
    have bytes : ((advanced chip 8).recvBytes toCopy).1 = datagram.data.take toCopy.toNat :=
      copied toCopy (by omega)
    rw [bytes, count, length, Nat.min_comm, ← List.take_eq_take_min]
  · rw [others .udpHeader (by decide), w5100RecvBytes_other (by decide),
      w5100RecvBytes_behind behind]
  · rw [scratch index behind, w5100RecvBytes_other (by decide), w5100RecvBytes_other (by decide)]
  · have enough : (8 + dataLen).toNat ≤ chip.queue.length := by
      rw [total, front, List.length_append, Datagram.bytes_length]
      exact Nat.le_add_right _ _
    have behind : (advanced chip (8 + dataLen)).queue = chip.queue.drop (8 + dataLen).toNat :=
      (Chip.recvBytes_queue enough).2
    rw [moved, behind, total, front]
    exact List.drop_left' datagram.bytes_length

/-- A datagram of three bytes, behind the chip's pointer as it comes round. -/
def roundChip : Chip :=
  { rxMemory := ringWrite 2048 (fun _ => 0) 0xFFFC
      ((⟨0xC0A80101, 67, [0x11, 0x22, 0x33], by decide⟩ : Datagram).bytes ++ [0x7F])
    rxRd := 0xFFFC
    rxWr := 0x0008
    sent := [] }

theorem recvUdpPacket_whole_round :
    (w5100RecvUdpPacket 2 (fun _ _ => 0, roundChip)).2.2.queue = [0x7F] :=
  (recvUdpPacket_whole 2 (fun _ _ => 0) roundChip
    ⟨0xC0A80101, 67, [0x11, 0x22, 0x33], by decide⟩ [0x7F] (by decide)).2.2.2.2.2

/-! ## The client's reading -/

theorem discard_eq (rounds : Nat) : ∀ {remaining : BitVec 16} {s : Arrays × Chip},
    discard rounds remaining s.2 = (discardInto rounds remaining s).2 := by
  induction rounds with
  | zero => exact rfl
  | succ rounds inductionHypothesis =>
      intro remaining s
      rw [discard, discardInto]
      split
      · rfl
      · exact inductionHypothesis (s := w5100RecvBytes .scratch _ s)

theorem recvUdpPacket_eq (arrays : Arrays) (chip : Chip) :
    recvUdpPacket (arrays .buf) chip =
      ((w5100RecvUdpPacket 320 (arrays, chip)).2.1 .buf,
        (w5100RecvUdpPacket 320 (arrays, chip)).2.2) := by
  unfold recvUdpPacket w5100RecvUdpPacket
  dsimp only
  rw [header_eq chip arrays (by decide), header_eq chip arrays (by decide)]
  generalize ((chip.recvBytes 8).1.getD 6 0 ++ (chip.recvBytes 8).1.getD 7 0 : BitVec 16) = dataLen
  have remaining := remaining_le dataLen 320
  generalize (if dataLen < 320 then dataLen else 320 : BitVec 16) = toCopy at remaining
  obtain ⟨-, others, -⟩ := discardInto_spec dataLen.toNat
    (s := if toCopy > 0 then
      w5100RecvBytes .buf toCopy (w5100RecvBytes .udpHeader 8 (arrays, chip))
      else w5100RecvBytes .udpHeader 8 (arrays, chip)) remaining
  rw [others .buf (by decide), ← discard_eq]
  split
  · refine Prod.ext ?_ rfl
    rw [w5100RecvBytes_same, w5100RecvBytes_other (by decide), w5100RecvBytes_chip]
    funext index
    dsimp only
    split
    · next inside => exact (bufferWrite_zero inside 0).symm
    · next behind =>
        refine (bufferWrite_behind ?_).symm
        rw [Nat.zero_add]
        exact Nat.le_of_not_lt behind
  · refine Prod.ext ?_ rfl
    rw [w5100RecvBytes_other (by decide)]
    rfl

end OrionBios.Dhcp
