import OrionBios.Dhcp.Options

/-!
# The packet that is sent

`enviar_pacote_dhcp` with its stores into `pkt`, which has room for 320 bytes; a name that is too
long is stored behind it. The length of the name is cut to one byte.
-/

namespace OrionBios.Dhcp

open Buffers

/-! ## The stores -/

/-- The memory from `pkt` on, the stores so far and the pointer `opt`. -/
structure Packet where
  cells : Buffer
  stores : List (Nat × List Byte)
  opt : Nat

namespace Packet

def put (offset : Nat) (bytes : List Byte) (p : Packet) : Packet :=
  { p with cells := bufferWrite p.cells offset bytes, stores := p.stores ++ [(offset, bytes)] }

/-- Stores at `opt`, which moves behind them. -/
def append (bytes : List Byte) (p : Packet) : Packet :=
  { p.put p.opt bytes with opt := p.opt + bytes.length }

def fixed (xid : Word) (mac : Fin 6 → Byte) (memory : Buffer) : Packet :=
  let p : Packet := ⟨memory, [], OFF_OPTIONS⟩
  let p := p.put 0 (List.replicate DHCP_PKT_BUF_SIZE 0)
  let p := p.put OFF_OP [1]
  let p := p.put 1 [1]
  let p := p.put 2 [6]
  let p := p.put 3 [0]
  let p := p.put OFF_XID (wordBytes xid)
  let p := p.put 8 [0, 0]
  let p := p.put 10 [0x80, 0]
  let p := p.put OFF_CHADDR (List.ofFn mac)
  p.put 236 (wordBytes 0x63825363)

/-- `enviar_pacote_dhcp`: `request` is there where both pointers are. -/
def enviarPacoteDhcp (memory : Buffer) (msgType : Byte) (xid : Word) (mac : Fin 6 → Byte)
    (hostname : List Byte) (request : Option (Word × Word)) : Packet × List Byte :=
  let p := (fixed xid mac memory).append [53, 1, msgType]
  let p :=
    match request with
    | none => p
    | some (reqIp, serverIp) =>
      if msgType = DHCP_REQUEST then
        (((p.append [50, 4]).append (wordBytes reqIp)).append [54, 4]).append (wordBytes serverIp)
      else p
  let len : Byte := BitVec.ofNat 8 hostname.length
  let p := (p.append [12, len]).append (hostname.take len.toNat)
  let p := (p.append [55, 3, 1, 3, 6]).append [0xFF]
  let totalLen : BitVec 16 :=
    if BitVec.ofNat 16 p.opt < 300 then 300 else BitVec.ofNat 16 p.opt
  (p, bufferRead p.cells 0 totalLen.toNat)

end Packet

/-! ## What is stored -/

/-- The options that the packet should have. -/
def asked (msgType : Byte) (hostname : List Byte) (request : Option (Word × Word)) :
    List (Byte × List Byte) :=
  let addresses : List (Byte × List Byte) :=
    match request with
    | none => []
    | some (reqIp, serverIp) =>
      if msgType = DHCP_REQUEST then [(50, wordBytes reqIp), (54, wordBytes serverIp)] else []
  [(53, [msgType])] ++ addresses ++ [(12, hostname), (55, [1, 3, 6])]

def optionBytes (option : Byte × List Byte) : List Byte :=
  option.1 :: BitVec.ofNat 8 option.2.length :: option.2

namespace Packet

variable {p : Packet} {text : List Byte}

/-- The packet begins with a text of this size, and the rest is still clear. -/
structure Laid (cells : Buffer) (size : Nat) (text : List Byte) : Prop where
  length : text.length = size
  begins : bufferRead cells 0 size = text
  clear : ∀ index, size ≤ index → index < DHCP_PKT_BUF_SIZE → cells index = 0

theorem Laid.write {cells : Buffer} {size : Nat} (laid : Laid cells size text) (bytes : List Byte)
    {count : Nat} (counted : bytes.length = count) :
    Laid (bufferWrite cells size bytes) (size + count) (text ++ bytes) := by
  obtain ⟨rfl, begins, clear⟩ := laid
  subst counted
  refine ⟨List.length_append, ?_, fun index behind inside => ?_⟩
  · rw [← List.length_append]
    exact bufferRead_extend begins bytes
  · rw [bufferWrite_behind behind]
    exact clear index (by omega) inside

theorem Laid.skip {cells : Buffer} {size : Nat} (laid : Laid cells size text) (gap : Nat)
    (inside : size + gap ≤ DHCP_PKT_BUF_SIZE) :
    Laid cells (size + gap) (text ++ List.replicate gap 0) := by
  refine ⟨?_, ?_, fun index behind => laid.clear index (by omega)⟩
  · rw [List.length_append, List.length_replicate, laid.length]
  · rw [bufferRead_append, laid.begins]
    congr 1
    refine List.eq_replicate_iff.mpr ⟨bufferRead_length, fun byte member => ?_⟩
    obtain ⟨index, less, rfl⟩ := List.mem_map.mp member
    have near := List.mem_range.mp less
    exact laid.clear _ (by omega) (by omega)

/-- The packet up to `opt`. -/
def Built (p : Packet) (text : List Byte) : Prop := Laid p.cells p.opt text

theorem Built.append (built : Built p text) (bytes : List Byte) :
    Built (p.append bytes) (text ++ bytes) := Laid.write built bytes rfl

theorem append_inside (bytes : List Byte) {room : Nat} :
    (∀ store ∈ (p.append bytes).stores, store.1 + store.2.length ≤ room) ↔
      (∀ store ∈ p.stores, store.1 + store.2.length ≤ room) ∧ p.opt + bytes.length ≤ room := by
  rw [Packet.append, put]
  constructor
  · intro all
    exact ⟨fun store member => all store (List.mem_append_left _ member),
      all _ (List.mem_append_right _ List.mem_cons_self)⟩
  · rintro ⟨before, last⟩ store member
    rcases List.mem_append.mp member with earlier | now
    · exact before store earlier
    · rw [List.mem_singleton.mp now]
      exact last

theorem append_opt (bytes : List Byte) : (p.append bytes).opt = p.opt + bytes.length := rfl

/-- The first 240 bytes. -/
def fixedBytes (xid : Word) (mac : Fin 6 → Byte) : List Byte :=
  [1, 1, 6, 0] ++ wordBytes xid ++ [0, 0, 0x80, 0] ++ List.replicate 16 0 ++ List.ofFn mac ++
    List.replicate 202 0 ++ wordBytes 0x63825363

theorem fixed_built (xid : Word) (mac : Fin 6 → Byte) (memory : Buffer) :
    Built (fixed xid mac memory) (fixedBytes xid mac) := by
  have cleared : Laid (bufferWrite memory 0 (List.replicate DHCP_PKT_BUF_SIZE 0)) 0 [] := by
    refine ⟨rfl, rfl, fun index _ inside => ?_⟩
    rw [bufferWrite_zero (by rw [List.length_replicate]; exact inside) 0, List.getD_replicate]
    exact inside
  have words : Laid _ 12 ([1, 1, 6, 0] ++ wordBytes xid ++ [0, 0, 0x80, 0]) :=
    ((((((cleared.write [1] rfl).write [1] rfl).write [6] rfl).write [0] rfl).write
      (wordBytes xid) rfl).write [0, 0] rfl).write [0x80, 0] rfl
  have macs : Laid _ 34 ([1, 1, 6, 0] ++ wordBytes xid ++ [0, 0, 0x80, 0] ++ List.replicate 16 0 ++
      List.ofFn mac) :=
    (words.skip 16 (by decide)).write _ (@List.length_ofFn 6 _ mac)
  have all : Laid _ 240 (fixedBytes xid mac) :=
    (macs.skip 202 (by decide)).write (wordBytes 0x63825363) rfl
  exact all

/-! ## The whole packet -/

section Enviar

variable {memory : Buffer} {msgType : Byte} {xid : Word} {mac : Fin 6 → Byte}
  {hostname : List Byte} {request : Option (Word × Word)}

def storedName (hostname : List Byte) : List Byte :=
  hostname.take (BitVec.ofNat 8 hostname.length).toNat

theorem storedName_length : (storedName hostname).length = hostname.length % 256 := by
  rw [storedName, List.length_take, BitVec.toNat_ofNat]
  exact Nat.min_eq_left (Nat.mod_le _ _)

/-- The packet up to the end mark. -/
def packetText (msgType : Byte) (xid : Word) (mac : Fin 6 → Byte) (hostname : List Byte)
    (request : Option (Word × Word)) : List Byte :=
  fixedBytes xid mac ++ (asked msgType (storedName hostname) request).flatMap optionBytes ++ [0xFF]

theorem optionBytes_name : optionBytes (12, storedName hostname) =
    [12, BitVec.ofNat 8 hostname.length] ++ storedName hostname := by
  have length : BitVec.ofNat 8 (storedName hostname).length = BitVec.ofNat 8 hostname.length := by
    rw [storedName_length]
    exact BitVec.eq_of_toNat_eq (Nat.mod_mod _ _)
  rw [optionBytes, length]
  rfl

theorem flatMap_asked (addresses : List (Byte × List Byte)) (name : Byte × List Byte) :
    ([(53, [msgType])] ++ addresses ++ [name, (55, [1, 3, 6])]).flatMap optionBytes =
      [53, 1, msgType] ++ addresses.flatMap optionBytes ++
        (optionBytes name ++ [55, 3, 1, 3, 6]) := by
  rw [List.flatMap_append, List.flatMap_append, List.flatMap_singleton, List.flatMap_cons,
    List.flatMap_singleton]
  rfl

theorem enviar_built : Built (enviarPacoteDhcp memory msgType xid mac hostname request).1
    (packetText msgType xid mac hostname request) := by
  have first := (fixed_built xid mac memory).append [53, 1, msgType]
  have last : ∀ {p : Packet} {text : List Byte}, Built p text →
      Built ((((p.append [12, BitVec.ofNat 8 hostname.length]).append
          (storedName hostname)).append [55, 3, 1, 3, 6]).append [0xFF])
        (text ++ (optionBytes (12, storedName hostname) ++ [55, 3, 1, 3, 6]) ++ [0xFF]) := by
    intro p text built
    rw [optionBytes_name, ← List.append_assoc, ← List.append_assoc]
    exact (((built.append _).append _).append _).append _
  unfold enviarPacoteDhcp packetText asked
  rw [flatMap_asked, ← List.append_assoc (fixedBytes xid mac), ← List.append_assoc
    (fixedBytes xid mac)]
  cases request with
  | none =>
      rw [List.flatMap_nil, List.append_nil]
      exact last first
  | some addresses =>
      obtain ⟨reqIp, serverIp⟩ := addresses
      dsimp only
      by_cases isRequest : msgType = DHCP_REQUEST
      · have more := (((first.append [50, 4]).append (wordBytes reqIp)).append [54, 4]).append
          (wordBytes serverIp)
        have joined : [(50, wordBytes reqIp), (54, wordBytes serverIp)].flatMap optionBytes =
            [50, 4] ++ wordBytes reqIp ++ [54, 4] ++ wordBytes serverIp := rfl
        have whole := last more
        rw [if_pos isRequest, if_pos isRequest, joined]
        simp only [List.append_assoc] at whole ⊢
        exact whole
      · rw [if_neg isRequest, if_neg isRequest, List.flatMap_nil, List.append_nil]
        exact last first

theorem enviar_inside :
    (∀ store ∈ (enviarPacoteDhcp memory msgType xid mac hostname request).1.stores,
      store.1 + store.2.length ≤ DHCP_PKT_BUF_SIZE) ↔
        (packetText msgType xid mac hostname request).length ≤ DHCP_PKT_BUF_SIZE := by
  have inside : ∀ store ∈ (fixed xid mac memory).stores,
      store.1 + store.2.length ≤ DHCP_PKT_BUF_SIZE := by
    intro store member
    simp only [fixed, put, List.nil_append, List.cons_append, List.mem_cons, List.not_mem_nil,
      or_false] at member
    rcases member with rfl | rfl | rfl | rfl | rfl | rfl | rfl | rfl | rfl | rfl
    · rw [List.length_replicate, Nat.zero_add]
    all_goals simp [OFF_OP, OFF_XID, OFF_CHADDR, DHCP_PKT_BUF_SIZE, wordBytes]
  rw [(@enviar_built memory msgType xid mac hostname request).length]
  unfold enviarPacoteDhcp
  cases request with
  | none =>
      simp only [append_inside, append_opt]
      exact ⟨fun all => all.2, fun last => ⟨⟨⟨⟨⟨inside, by omega⟩, by omega⟩, by omega⟩, by omega⟩,
        last⟩⟩
  | some addresses =>
      obtain ⟨reqIp, serverIp⟩ := addresses
      dsimp only
      split
      · simp only [append_inside, append_opt]
        exact ⟨fun all => all.2, fun last => ⟨⟨⟨⟨⟨⟨⟨⟨⟨inside, by omega⟩, by omega⟩, by omega⟩,
          by omega⟩, by omega⟩, by omega⟩, by omega⟩, by omega⟩, last⟩⟩
      · simp only [append_inside, append_opt]
        exact ⟨fun all => all.2, fun last => ⟨⟨⟨⟨⟨inside, by omega⟩, by omega⟩, by omega⟩,
          by omega⟩, last⟩⟩

def longestName (msgType : Byte) (request : Option (Word × Word)) : Nat :=
  if msgType = DHCP_REQUEST ∧ request.isSome then 57 else 69

theorem fixedBytes_length : (fixedBytes xid mac).length = 240 := by
  unfold fixedBytes wordBytes
  simp only [List.length_append, List.length_ofFn, List.length_replicate, List.length_cons,
    List.length_nil]

theorem packetText_length : (packetText msgType xid mac hostname request).length +
    longestName msgType request = DHCP_PKT_BUF_SIZE + hostname.length % 256 := by
  unfold packetText asked longestName
  rw [List.length_append, List.length_append, fixedBytes_length, flatMap_asked, optionBytes_name]
  have name := @storedName_length hostname
  simp only [List.length_append, List.length_cons, List.length_nil, name]
  unfold DHCP_PKT_BUF_SIZE
  cases request with
  | none =>
      rw [if_neg (by simp)]
      simp only [List.flatMap_nil, List.length_nil]
      omega
  | some addresses =>
      obtain ⟨reqIp, serverIp⟩ := addresses
      dsimp only
      by_cases isRequest : msgType = DHCP_REQUEST
      · rw [if_pos isRequest, if_pos ⟨isRequest, rfl⟩]
        have addresses : ([(50, wordBytes reqIp), (54, wordBytes serverIp)].flatMap
            optionBytes).length = 12 := rfl
        rw [addresses]
        omega
      · rw [if_neg isRequest, if_neg fun both => isRequest both.1]
        simp only [List.flatMap_nil, List.length_nil]
        omega

theorem totalLen_toNat {opt : Nat} (short : opt < 2 ^ 16) :
    (if BitVec.ofNat 16 opt < 300 then 300 else BitVec.ofNat 16 opt : BitVec 16).toNat =
      max 300 opt := by
  have size : (BitVec.ofNat 16 opt).toNat = opt := by
    rw [BitVec.toNat_ofNat, Nat.mod_eq_of_lt short]
  have least : (300 : BitVec 16).toNat = 300 := rfl
  by_cases less : BitVec.ofNat 16 opt < 300
  · rw [if_pos less, least]
    rw [BitVec.lt_def, size, least] at less
    omega
  · rw [if_neg less, size]
    rw [BitVec.lt_def, size, least] at less
    omega

theorem enviar_sent : (enviarPacoteDhcp memory msgType xid mac hostname request).2 =
    packetText msgType xid mac hostname request ++ List.replicate
      (DHCP_PKT_MIN_SIZE - (packetText msgType xid mac hostname request).length) 0 := by
  have built := @enviar_built memory msgType xid mac hostname request
  have size := @packetText_length msgType xid mac hostname request
  have short := Nat.mod_lt hostname.length (by decide : 256 > 0)
  have total : (enviarPacoteDhcp memory msgType xid mac hostname request).2 =
      bufferRead (enviarPacoteDhcp memory msgType xid mac hostname request).1.cells 0
        (if BitVec.ofNat 16 (enviarPacoteDhcp memory msgType xid mac hostname request).1.opt < 300
          then 300 else BitVec.ofNat 16
            (enviarPacoteDhcp memory msgType xid mac hostname request).1.opt : BitVec 16).toNat :=
    rfl
  generalize (enviarPacoteDhcp memory msgType xid mac hostname request).1 = p at built total
  generalize packetText msgType xid mac hostname request = text at built size
  have opt : text.length = p.opt := built.length
  unfold DHCP_PKT_BUF_SIZE at size
  rw [total, totalLen_toNat (by omega), opt, DHCP_PKT_MIN_SIZE]
  by_cases enough : 300 ≤ p.opt
  · rw [Nat.max_eq_right enough, Nat.sub_eq_zero_of_le enough, List.replicate_zero,
      List.append_nil]
    exact built.begins
  · have filled := (Laid.skip built (300 - p.opt) (by unfold DHCP_PKT_BUF_SIZE; omega)).begins
    rw [Nat.add_sub_cancel' (by omega)] at filled
    rw [Nat.max_eq_left (by omega)]
    exact filled

theorem enviar_eq : (enviarPacoteDhcp memory msgType xid mac hostname request).2 =
    pacoteDhcp msgType xid (List.ofFn mac) hostname request := by
  have text : packetText msgType xid mac hostname request =
      fixedBytes xid mac ++ [53, 1, msgType] ++ (match request with
        | none => ([] : List Byte)
        | some (reqIp, serverIp) =>
          if msgType = DHCP_REQUEST then [50, 4] ++ wordBytes reqIp ++ [54, 4] ++ wordBytes serverIp
          else []) ++ [12, BitVec.ofNat 8 hostname.length] ++ storedName hostname ++
        [55, 3, 1, 3, 6, 0xFF] := by
    unfold packetText asked
    rw [flatMap_asked, optionBytes_name]
    cases request with
    | none => simp only [List.flatMap_nil, List.append_assoc, List.append_nil]; rfl
    | some addresses =>
        obtain ⟨reqIp, serverIp⟩ := addresses
        dsimp only
        split
        · have joined : [(50, wordBytes reqIp), (54, wordBytes serverIp)].flatMap optionBytes =
              [50, 4] ++ wordBytes reqIp ++ [54, 4] ++ wordBytes serverIp := rfl
          rw [joined]
          simp only [List.append_assoc]
          rfl
        · simp only [List.flatMap_nil, List.append_assoc, List.append_nil]
          rfl
  rw [enviar_sent, text]
  rfl

end Enviar

end Packet

/-! ## The walk through what is sent -/

def Placed.pair (option : Placed) : Byte × List Byte := (option.code, option.value)

theorem rfcWalk_encoded {options : List (Byte × List Byte)} (more : List Byte) {place : Nat}
    (proper : ∀ option ∈ options, option.1 ≠ 0xFF ∧ option.1 ≠ 0 ∧ option.2.length < 256) :
    ∃ placed, rfcWalk place (options.flatMap optionBytes ++ 0xFF :: more) = some placed ∧
      placed.map Placed.pair = options := by
  induction options generalizing place with
  | nil => exact ⟨[], rfcWalk_end place more, rfl⟩
  | cons option rest inductionHypothesis =>
      obtain ⟨code, value⟩ := option
      obtain ⟨notEnd, notPadding, short⟩ := proper _ List.mem_cons_self
      obtain ⟨placed, walk, pairs⟩ := @inductionHypothesis (place + 2 + value.length)
        fun other member => proper other (List.mem_cons_of_mem _ member)
      refine ⟨⟨place, code, value⟩ :: placed, ?_, ?_⟩
      · have first : (((code, value) :: rest).flatMap optionBytes ++ 0xFF :: more) =
            code :: BitVec.ofNat 8 value.length ::
              (value ++ (rest.flatMap optionBytes ++ 0xFF :: more)) := by
          rw [List.flatMap_cons, optionBytes, List.append_assoc]
          rfl
        rw [first, rfcWalk_option notEnd notPadding short, walk]
        rfl
      · rw [List.map_cons, pairs]
        rfl

theorem contained_of_rfcWalk {data : List Byte} (short : data.length ≤ DHCP_PKT_BUF_SIZE) :
    ∀ {length : Nat} {bytes : List Byte} {place : Nat} {options : List Placed},
      bytes.length ≤ length → rfcWalk place bytes = some options → data.drop place = bytes →
        Contained data place := by
  have whole : reach data = data.length := Nat.min_eq_left short
  intro length
  induction length with
  | zero =>
      intro bytes place options none walk
      rw [List.length_eq_zero_iff.mp (Nat.le_zero.mp none), rfcWalk_nil] at walk
      cases walk
  | succ length inductionHypothesis =>
      intro bytes place options bound walk stands
      have total : data.length - place = bytes.length := by
        rw [← stands, List.length_drop]
      have code := @getD_of_drop data place 0 bytes stands
      have second := @getD_of_drop data place 1 bytes stands
      cases rfcWalk_begins walk with
      | ends rest =>
          rw [List.length_cons] at total
          exact .ends (by omega) code
      | padding others =>
          rw [List.length_cons] at total bound
          have stands' : data.drop (place + 1) = _ := @drop_behind data place 1 [0] _ stands rfl
          exact .padding (by omega) code (inductionHypothesis (by omega) others stands')
      | @option code' optLen value rest options notEnd notPadding lengths others =>
          rw [List.length_cons, List.length_cons, List.length_append] at total bound
          have isCode : data.getD place 0 = code' := code
          have isLen : data.getD (place + 1) 0 = optLen := second
          have stands' : data.drop (place + 2) = value ++ rest :=
            @drop_behind data place 2 [code', optLen] _ stands rfl
          have size : ∀ count : Byte, data.getD (place + 1) 0 = count →
              value.length = count.toNat := fun count isCount => by
            rw [lengths, ← isLen, isCount]
          refine .option (by omega) (isCode ▸ notEnd) (isCode ▸ notPadding) ?_ ?_ ?_
          · intro _ isOne
            have one : value.length = 1 := size 1 isOne
            omega
          · intro _ isFour
            have four : value.length = 4 := size 4 isFour
            omega
          · rw [isLen]
            exact inductionHypothesis (by omega) others (drop_behind stands' lengths)

theorem valuesOf_pairs (code : Byte) (placed : List Placed) :
    valuesOf code placed = ((placed.map Placed.pair).filter (·.1 = code)).map Prod.snd := by
  rw [List.filter_map, List.map_map]
  rfl

theorem wordAt_wordBytes (word : Word) : wordAt (fun i => (wordBytes word).getD i 0) 0 = word := by
  change word.extractLsb' 24 8 ++ word.extractLsb' 16 8 ++ word.extractLsb' 8 8 ++
    word.extractLsb' 0 8 = word
  apply BitVec.eq_of_getElem_eq
  intro index inside
  simp only [BitVec.getElem_append, BitVec.getElem_extractLsb']
  grind

/-! ## Every packet -/

/-- The server that a REQUEST names. -/
def namedServer (msgType : Byte) (request : Option (Word × Word)) : Word :=
  match request with
  | none => 0
  | some (_, serverIp) => if msgType = DHCP_REQUEST then serverIp else 0

theorem namedServer_none {msgType : Byte} {request : Option (Word × Word)}
    (names : ¬(msgType = DHCP_REQUEST ∧ request.isSome)) : namedServer msgType request = 0 := by
  cases request with
  | none => rfl
  | some addresses =>
      exact if_neg fun isRequest => names ⟨isRequest, rfl⟩

/-- The packet stays in its buffer and says what it should. -/
structure Encoded (memory : Buffer) (msgType : Byte) (xid : Word) (mac : Fin 6 → Byte)
    (hostname : List Byte) (request : Option (Word × Word)) : Prop where
  inside : ∀ store ∈ (Packet.enviarPacoteDhcp memory msgType xid mac hostname request).1.stores,
    store.1 + store.2.length ≤ DHCP_PKT_BUF_SIZE
  atLeast : DHCP_PKT_MIN_SIZE ≤
    (Packet.enviarPacoteDhcp memory msgType xid mac hostname request).2.length
  atMost : (Packet.enviarPacoteDhcp memory msgType xid mac hostname request).2.length ≤
    DHCP_PKT_BUF_SIZE
  options : ∃ placed, rfcWalk OFF_OPTIONS
      ((Packet.enviarPacoteDhcp memory msgType xid mac hostname request).2.drop OFF_OPTIONS) =
        some placed ∧ placed.map Placed.pair = asked msgType hostname request
  parsed : ∀ raw : Buffer,
    (∀ i < (Packet.enviarPacoteDhcp memory msgType xid mac hostname request).2.length,
      raw i = (Packet.enviarPacoteDhcp memory msgType xid mac hostname request).2.getD i 0) →
      parseDhcpOptions raw DHCP_PKT_BUF_SIZE = ⟨msgType, namedServer msgType request⟩

section Encoded

variable {memory : Buffer} {msgType : Byte} {xid : Word} {mac : Fin 6 → Byte}
  {hostname : List Byte} {request : Option (Word × Word)}

theorem asked_proper (name : List Byte) (short : name.length < 256) :
    ∀ option ∈ asked msgType name request,
      option.1 ≠ 0xFF ∧ option.1 ≠ 0 ∧ option.2.length < 256 := by
  intro option member
  rcases List.mem_append.mp member with first | last
  · rcases List.mem_append.mp first with type | address
    · rw [List.mem_singleton.mp type]
      exact ⟨(by decide : (53 : Byte) ≠ 0xFF), (by decide : (53 : Byte) ≠ 0), Nat.one_lt_succ_succ _⟩
    · cases request with
      | none => exact absurd address List.not_mem_nil
      | some addresses =>
          obtain ⟨reqIp, serverIp⟩ := addresses
          dsimp only at address
          split at address
          · rcases List.mem_cons.mp address with rfl | server
            · exact ⟨(by decide : (50 : Byte) ≠ 0xFF), (by decide : (50 : Byte) ≠ 0),
                Nat.le_of_ble_eq_true rfl⟩
            · rw [List.mem_singleton.mp server]
              exact ⟨(by decide : (54 : Byte) ≠ 0xFF), (by decide : (54 : Byte) ≠ 0),
                Nat.le_of_ble_eq_true rfl⟩
          · exact absurd address List.not_mem_nil
  · rcases List.mem_cons.mp last with rfl | parameters
    · exact ⟨(by decide : (12 : Byte) ≠ 0xFF), (by decide : (12 : Byte) ≠ 0), short⟩
    · rw [List.mem_singleton.mp parameters]
      exact ⟨by decide, by decide, by decide⟩

theorem enviar_options : ∃ placed, rfcWalk OFF_OPTIONS
    ((Packet.enviarPacoteDhcp memory msgType xid mac hostname request).2.drop OFF_OPTIONS) =
      some placed ∧ placed.map Placed.pair = asked msgType (Packet.storedName hostname) request := by
  have short : (Packet.storedName hostname).length < 256 := by
    rw [Packet.storedName_length]
    exact Nat.mod_lt _ (by decide)
  rw [Packet.enviar_sent, Packet.packetText, List.append_assoc, List.append_assoc,
    List.drop_left' (show (Packet.fixedBytes xid mac).length = OFF_OPTIONS from
      Packet.fixedBytes_length)]
  exact rfcWalk_encoded _ (asked_proper _ short)

theorem asked_injective {first second : List Byte}
    (same : asked msgType first request = asked msgType second request) : first = second := by
  have last := (List.append_inj' same rfl).2
  exact congrArg Prod.snd (List.cons.inj last).1

theorem asked_values : ((asked msgType hostname request).filter (·.1 = 53)).map Prod.snd =
      [[msgType]] ∧
    ((asked msgType hostname request).filter (·.1 = 54)).map Prod.snd =
      if msgType = DHCP_REQUEST ∧ request.isSome then
        [wordBytes (namedServer msgType request)] else [] := by
  unfold asked namedServer
  cases request with
  | none => exact ⟨rfl, (if_neg fun both => Bool.noConfusion both.2).symm⟩
  | some addresses =>
      obtain ⟨reqIp, serverIp⟩ := addresses
      dsimp only
      by_cases isRequest : msgType = DHCP_REQUEST
      · rw [if_pos isRequest, if_pos isRequest, if_pos ⟨isRequest, rfl⟩]
        exact ⟨rfl, rfl⟩
      · rw [if_neg isRequest, if_neg isRequest, if_neg fun both => isRequest both.1]
        exact ⟨rfl, rfl⟩

/-- The packet is right exactly if the name is not too long. -/
theorem packet_iff (memory : Buffer) (msgType : Byte) (xid : Word) (mac : Fin 6 → Byte)
    (hostname : List Byte) (request : Option (Word × Word)) :
    Encoded memory msgType xid mac hostname request ↔
      hostname.length ≤ Packet.longestName msgType request := by
  have size := @Packet.packetText_length msgType xid mac hostname request
  have stored := @Packet.storedName_length hostname
  constructor
  · rintro ⟨inside, -, -, ⟨placed, walk, pairs⟩, -⟩
    have fits := Packet.enviar_inside.mp inside
    obtain ⟨placed', walk', pairs'⟩ :=
      @enviar_options memory msgType xid mac hostname request
    obtain rfl := Option.some.inj (walk.symm.trans walk')
    have name := congrArg List.length (asked_injective (pairs.symm.trans pairs'))
    omega
  · intro short
    have small : hostname.length < 256 := by
      unfold Packet.longestName at short
      split at short <;> omega
    have name : Packet.storedName hostname = hostname := by
      rw [Packet.storedName, BitVec.toNat_ofNat, Nat.mod_eq_of_lt small, List.take_length]
    have sent := @Packet.enviar_sent memory msgType xid mac hostname request
    have length := congrArg List.length sent
    rw [List.length_append, List.length_replicate] at length
    rw [Nat.mod_eq_of_lt small] at size
    obtain ⟨placed, walk, pairs⟩ := @enviar_options memory msgType xid mac hostname request
    rw [name] at pairs
    have fits : (Packet.enviarPacoteDhcp memory msgType xid mac hostname request).2.length ≤
        DHCP_PKT_BUF_SIZE := by
      unfold DHCP_PKT_MIN_SIZE at length
      unfold DHCP_PKT_BUF_SIZE at size ⊢
      omega
    refine ⟨Packet.enviar_inside.mpr (by omega), ?_, fits, ⟨placed, walk, pairs⟩, ?_⟩
    · unfold DHCP_PKT_MIN_SIZE at length ⊢
      omega
    · intro raw same
      have contained : Contained _ OFF_OPTIONS :=
        contained_of_rfcWalk fits (Nat.le_refl _) walk rfl
      have kept : inBuffer placed = placed := by
        refine List.filter_eq_self.mpr fun option member => decide_eq_true ?_
        have place := (rfcWalk_places (Nat.le_refl _) walk option member).2
        rw [List.length_drop] at place
        unfold DHCP_PKT_MIN_SIZE at length
        unfold OFF_OPTIONS at place
        omega
      obtain ⟨types, servers⟩ := @asked_values msgType hostname request
      rw [← pairs, ← valuesOf_pairs] at types servers
      rw [parseDhcpOptions, parseLoop_rfcWalk (fun place inside => same place
        (Nat.lt_of_lt_of_le inside (Nat.min_le_left _ _))) (Nat.le_refl _) walk rfl contained
          (by decide), kept]
      have noted := @foldl_note placed ⟨0, 0⟩
        (fun value member => by
          rw [types, List.mem_singleton] at member
          rw [member]
          rfl)
        (fun value member => by
          rw [servers] at member
          split at member
          · rw [List.mem_singleton.mp member]
            rfl
          · exact absurd member List.not_mem_nil)
      rw [noted, types, servers]
      by_cases names : msgType = DHCP_REQUEST ∧ request.isSome
      · rw [if_pos names]
        exact congrArg (Options.mk msgType) (wordAt_wordBytes _)
      · rw [if_neg names, namedServer_none names]
        rfl

/-- A DISCOVER with a name of seventy letters is stored behind the buffer. -/
theorem long_name_outside : ¬Encoded (fun _ => 0) DHCP_DISCOVER 0 (fun _ => 0)
    (List.replicate 70 97) none := by
  intro encoded
  have fits := Packet.enviar_inside.mp encoded.inside
  have size := @Packet.packetText_length DHCP_DISCOVER 0 (fun _ => 0) (List.replicate 70 97) none
  rw [List.length_replicate, Packet.longestName, if_neg (by decide)] at size
  omega

end Encoded

end OrionBios.Dhcp
