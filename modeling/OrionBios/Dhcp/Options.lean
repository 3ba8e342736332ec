import OrionBios.Dhcp.Exchange

/-!
# The options of a received message

`parse_dhcp_options` walks through the buffer of the client, whatever part of it the datagram has
filled. The places that it reads are listed beside it, and compared with a walk through the
datagram's own bytes.
-/

namespace OrionBios.Dhcp

/-- The places that the loop of `parse_dhcp_options` reads. -/
def parseReads (raw : Buffer) (rawLen : Nat) : Nat → Nat → List Nat
  | 0, _ => []
  | rounds + 1, i =>
    if i < rawLen then
      i :: if raw i = 0xFF then []
        else if raw i = 0 then parseReads raw rawLen rounds (i + 1)
        else
          let optLen := (raw (i + 1)).toNat
          let value :=
            if raw i = 53 ∧ optLen = 1 then [i + 2]
            else if raw i = 54 ∧ optLen = 4 then [i + 2, i + 3, i + 4, i + 5]
            else []
          (i + 1) :: (value ++ parseReads raw rawLen rounds (i + 2 + optLen))
    else []

/-- The places read for the message type and for the server, in `siaddr` where no option names
it. -/
def extractionReads (raw : Buffer) : List Nat :=
  parseReads raw DHCP_PKT_BUF_SIZE DHCP_PKT_BUF_SIZE OFF_OPTIONS ++
    if (parseDhcpOptions raw DHCP_PKT_BUF_SIZE).serverIp = 0 then
      [OFF_SIADDR, OFF_SIADDR + 1, OFF_SIADDR + 2, OFF_SIADDR + 3]
    else []

/-! ## The standard's options -/

/-- An option and the place of its code. -/
structure Placed where
  place : Nat
  code : Byte
  value : List Byte
  deriving DecidableEq

/-- The options up to the end mark, if each of them is whole. -/
def rfcWalk (place : Nat) : List Byte → Option (List Placed)
  | [] => none
  | code :: rest =>
    if code = 0xFF then some []
    else if code = 0 then rfcWalk (place + 1) rest
    else
      match rest with
      | [] => none
      | optLen :: rest =>
        if optLen.toNat ≤ rest.length then
          (rfcWalk (place + 2 + optLen.toNat) (rest.drop optLen.toNat)).map
            (⟨place, code, rest.take optLen.toNat⟩ :: ·)
        else none
termination_by bytes => bytes.length
decreasing_by
  · exact Nat.lt_succ_self _
  · rw [List.length_drop, List.length_cons, List.length_cons]
    omega

theorem rfcWalk_nil (place : Nat) : rfcWalk place [] = none := by
  rw [rfcWalk]

theorem rfcWalk_end (place : Nat) (rest : List Byte) : rfcWalk place (0xFF :: rest) = some [] := by
  rw [rfcWalk.eq_def]
  exact if_pos rfl

theorem rfcWalk_option {place : Nat} {code : Byte} {value rest : List Byte} (notEnd : code ≠ 0xFF)
    (notPadding : code ≠ 0) (short : value.length < 256) :
    rfcWalk place (code :: BitVec.ofNat 8 value.length :: (value ++ rest)) =
      (rfcWalk (place + 2 + value.length) rest).map (⟨place, code, value⟩ :: ·) := by
  have length : (BitVec.ofNat 8 value.length).toNat = value.length := by
    rw [BitVec.toNat_ofNat, Nat.mod_eq_of_lt short]
  conv_lhs => rw [rfcWalk.eq_def]
  dsimp only
  rw [if_neg notEnd, if_neg notPadding, length, if_pos, List.drop_left, List.take_left]
  rw [List.length_append]
  exact Nat.le_add_right _ _

inductive Begins (place : Nat) : List Byte → List Placed → Prop where
  | ends (rest : List Byte) : Begins place (0xFF :: rest) []
  | padding {rest : List Byte} {options : List Placed}
      (walk : rfcWalk (place + 1) rest = some options) : Begins place (0 :: rest) options
  | option {code optLen : Byte} {value rest : List Byte} {options : List Placed}
      (notEnd : code ≠ 0xFF) (notPadding : code ≠ 0) (length : value.length = optLen.toNat)
      (walk : rfcWalk (place + 2 + optLen.toNat) rest = some options) :
      Begins place (code :: optLen :: (value ++ rest)) (⟨place, code, value⟩ :: options)

theorem rfcWalk_begins {place : Nat} {bytes : List Byte} {options : List Placed}
    (walk : rfcWalk place bytes = some options) : Begins place bytes options := by
  rw [rfcWalk.eq_def] at walk
  cases bytes with
  | nil => cases walk
  | cons code rest =>
      dsimp only at walk
      by_cases isEnd : code = 0xFF
      · rw [if_pos isEnd] at walk
        cases walk
        rw [isEnd]
        exact .ends rest
      · rw [if_neg isEnd] at walk
        by_cases isPadding : code = 0
        · rw [if_pos isPadding] at walk
          rw [isPadding]
          exact .padding walk
        · rw [if_neg isPadding] at walk
          cases rest with
          | nil => cases walk
          | cons optLen rest =>
              dsimp only at walk
              by_cases enough : optLen.toNat ≤ rest.length
              · rw [if_pos enough] at walk
                obtain ⟨others, walk', rfl⟩ := Option.map_eq_some_iff.mp walk
                have option := @Begins.option place code optLen (rest.take optLen.toNat)
                  (rest.drop optLen.toNat) others isEnd isPadding
                  (List.length_take_of_le enough) walk'
                rw [List.take_append_drop] at option
                exact option
              · rw [if_neg enough] at walk
                cases walk

def valuesOf (code : Byte) (options : List Placed) : List (List Byte) :=
  (options.filter (·.code = code)).map Placed.value

/-- The options 53 and 54 have the standard's lengths and occur once at most. -/
structure WellFormed (options : List Placed) : Prop where
  typeLength : ∀ value ∈ valuesOf 53 options, value.length = 1
  serverLength : ∀ value ∈ valuesOf 54 options, value.length = 4
  oneType : (valuesOf 53 options).length ≤ 1
  oneServer : (valuesOf 54 options).length ≤ 1

def messageType (options : List Placed) : Byte :=
  ((valuesOf 53 options).map (·.getD 0 0)).getLastD 0

/-- The value of option 54, or 0.0.0.0. -/
def serverIdentifier (options : List Placed) : Word :=
  ((valuesOf 54 options).map fun value => wordAt (fun i => value.getD i 0) 0).getLastD 0

/-! ## Walks inside the datagram -/

/-- The bytes of the datagram that the buffer holds. -/
def reach (data : List Byte) : Nat := min data.length DHCP_PKT_BUF_SIZE

/-- From a place on the walk through the datagram's own bytes needs no byte behind them or behind
the buffer. -/
inductive Contained (data : List Byte) : Nat → Prop where
  | behind {i : Nat} (behind : DHCP_PKT_BUF_SIZE ≤ i) : Contained data i
  | ends {i : Nat} (inside : i < reach data) (isEnd : data.getD i 0 = 0xFF) : Contained data i
  | padding {i : Nat} (inside : i < reach data) (isPadding : data.getD i 0 = 0)
      (rest : Contained data (i + 1)) : Contained data i
  | option {i : Nat} (inside : i + 1 < reach data) (notEnd : data.getD i 0 ≠ 0xFF)
      (notPadding : data.getD i 0 ≠ 0)
      (messageType : data.getD i 0 = 53 → data.getD (i + 1) 0 = 1 → i + 2 < reach data)
      (server : data.getD i 0 = 54 → data.getD (i + 1) 0 = 4 → i + 5 < reach data)
      (rest : Contained data (i + 2 + (data.getD (i + 1) 0).toNat)) : Contained data i

/-! ## One option -/

section Loop

variable {raw raw' : Buffer} {rawLen rounds i : Nat} {found : Options}

/-- What the option at a place makes of what was found before it. -/
def noted (raw : Buffer) (i : Nat) (found : Options) : Options :=
  if raw i = 53 ∧ (raw (i + 1)).toNat = 1 then { found with msgType := raw (i + 2) }
  else if raw i = 54 ∧ (raw (i + 1)).toNat = 4 then { found with serverIp := wordAt raw (i + 2) }
  else found

/-- The places of its value that are read. -/
def valueReads (raw : Buffer) (i : Nat) : List Nat :=
  if raw i = 53 ∧ (raw (i + 1)).toNat = 1 then [i + 2]
  else if raw i = 54 ∧ (raw (i + 1)).toNat = 4 then [i + 2, i + 3, i + 4, i + 5]
  else []

theorem parseLoop_behind (behind : rawLen ≤ i) : parseLoop raw rawLen rounds i found = found := by
  cases rounds with
  | zero => rfl
  | succ rounds => exact if_neg fun both => Nat.not_lt_of_le behind both.1

theorem parseReads_behind (behind : rawLen ≤ i) : parseReads raw rawLen rounds i = [] := by
  cases rounds with
  | zero => rfl
  | succ rounds => exact if_neg (Nat.not_lt_of_le behind)

theorem parseLoop_end (isEnd : raw i = 0xFF) : parseLoop raw rawLen rounds i found = found := by
  cases rounds with
  | zero => rfl
  | succ rounds => exact if_neg fun both => both.2 isEnd

theorem parseReads_end (inside : i < rawLen) (isEnd : raw i = 0xFF) :
    parseReads raw rawLen (rounds + 1) i = [i] := by
  rw [parseReads, if_pos inside, if_pos isEnd]

theorem parseLoop_padding (inside : i < rawLen) (isPadding : raw i = 0) :
    parseLoop raw rawLen (rounds + 1) i found = parseLoop raw rawLen rounds (i + 1) found := by
  rw [parseLoop, if_pos, if_pos isPadding]
  refine ⟨inside, ?_⟩
  rw [isPadding]
  decide

theorem parseReads_padding (inside : i < rawLen) (isPadding : raw i = 0) :
    parseReads raw rawLen (rounds + 1) i = i :: parseReads raw rawLen rounds (i + 1) := by
  rw [parseReads, if_pos inside, if_neg, if_pos isPadding]
  rw [isPadding]
  decide

theorem parseLoop_option (inside : i < rawLen) (notEnd : raw i ≠ 0xFF) (notPadding : raw i ≠ 0) :
    parseLoop raw rawLen (rounds + 1) i found =
      parseLoop raw rawLen rounds (i + 2 + (raw (i + 1)).toNat) (noted raw i found) := by
  rw [parseLoop, if_pos ⟨inside, notEnd⟩, if_neg notPadding]
  rfl

theorem parseReads_option (inside : i < rawLen) (notEnd : raw i ≠ 0xFF) (notPadding : raw i ≠ 0) :
    parseReads raw rawLen (rounds + 1) i = i :: (i + 1) :: (valueReads raw i ++
      parseReads raw rawLen rounds (i + 2 + (raw (i + 1)).toNat)) := by
  rw [parseReads, if_pos inside, if_neg notEnd, if_neg notPadding]
  rfl

theorem noted_congr (code : raw i = raw' i) (optLen : raw (i + 1) = raw' (i + 1))
    (value : ∀ place ∈ valueReads raw i, raw place = raw' place) :
    noted raw i found = noted raw' i found := by
  unfold valueReads at value
  unfold noted
  rw [← code, ← optLen]
  by_cases isType : raw i = 53 ∧ (raw (i + 1)).toNat = 1
  · rw [if_pos isType] at value
    rw [if_pos isType, if_pos isType, value _ List.mem_cons_self]
  · rw [if_neg isType] at value
    rw [if_neg isType, if_neg isType]
    by_cases isServer : raw i = 54 ∧ (raw (i + 1)).toNat = 4
    · rw [if_pos isServer] at value
      have word : wordAt raw (i + 2) = wordAt raw' (i + 2) := by
        unfold wordAt
        rw [value (i + 2) (by simp), value (i + 2 + 1) (by simp), value (i + 2 + 2) (by simp),
          value (i + 2 + 3) (by simp)]
      rw [if_pos isServer, if_pos isServer, word]
    · rw [if_neg isServer, if_neg isServer]

end Loop

/-! ## The whole walk -/

section Walk

variable {raw raw' : Buffer} {rawLen : Nat}

/-- What the loop finds depends on the places it reads only. -/
theorem parseLoop_congr (rounds : Nat) : ∀ {i : Nat} {found : Options},
    (∀ place ∈ parseReads raw rawLen rounds i, raw place = raw' place) →
      parseLoop raw rawLen rounds i found = parseLoop raw' rawLen rounds i found := by
  induction rounds with
  | zero => exact fun _ => rfl
  | succ rounds inductionHypothesis =>
      intro i found same
      by_cases inside : i < rawLen
      · by_cases isEnd : raw i = 0xFF
        · rw [parseReads_end inside isEnd] at same
          have first := same i List.mem_cons_self
          rw [parseLoop_end isEnd, parseLoop_end (first.symm.trans isEnd)]
        · by_cases isPadding : raw i = 0
          · rw [parseReads_padding inside isPadding] at same
            have first := same i List.mem_cons_self
            rw [parseLoop_padding inside isPadding,
              parseLoop_padding inside (first.symm.trans isPadding)]
            exact inductionHypothesis fun place member =>
              same place (List.mem_cons_of_mem _ member)
          · rw [parseReads_option inside isEnd isPadding] at same
            have first := same i List.mem_cons_self
            have second := same (i + 1) (by simp)
            rw [parseLoop_option inside isEnd isPadding,
              parseLoop_option inside (first ▸ isEnd) (first ▸ isPadding), ← second,
              noted_congr first second fun place member => same place (by simp [member])]
            exact inductionHypothesis fun place member => same place (by simp [member])
      · rw [parseLoop_behind (Nat.le_of_not_lt inside), parseLoop_behind (Nat.le_of_not_lt inside)]

theorem parseLoop_rounds : ∀ {rounds more i : Nat} {found : Options}, rawLen ≤ i + rounds →
    parseLoop raw rawLen (rounds + more) i found = parseLoop raw rawLen rounds i found := by
  intro rounds
  induction rounds with
  | zero =>
      intro more i found enough
      rw [parseLoop_behind (i := i) enough, parseLoop_behind (i := i) enough]
  | succ rounds inductionHypothesis =>
      intro more i found enough
      rw [Nat.add_right_comm]
      by_cases inside : i < rawLen
      · by_cases isEnd : raw i = 0xFF
        · rw [parseLoop_end isEnd, parseLoop_end isEnd]
        · by_cases isPadding : raw i = 0
          · rw [parseLoop_padding inside isPadding, parseLoop_padding inside isPadding]
            exact inductionHypothesis (by omega)
          · rw [parseLoop_option inside isEnd isPadding, parseLoop_option inside isEnd isPadding]
            exact inductionHypothesis (by omega)
      · rw [parseLoop_behind (Nat.le_of_not_lt inside), parseLoop_behind (Nat.le_of_not_lt inside)]

end Walk

/-! ## Walks inside the datagram -/

section Contained

variable {data : List Byte} {raw : Buffer}

theorem Contained.code_inside {i : Nat} (contained : Contained data i)
    (inside : i < DHCP_PKT_BUF_SIZE) : i < reach data := by
  cases contained with
  | behind behind => exact absurd inside (Nat.not_lt_of_le behind)
  | ends inside _ => exact inside
  | padding inside _ _ => exact inside
  | option inside _ _ _ _ _ => exact Nat.lt_of_succ_lt inside

theorem Contained.after_padding {i : Nat} (contained : Contained data i)
    (inside : i < DHCP_PKT_BUF_SIZE) (isPadding : data.getD i 0 = 0) : Contained data (i + 1) := by
  cases contained with
  | behind behind => exact absurd inside (Nat.not_lt_of_le behind)
  | ends _ isEnd => exact absurd (isPadding.symm.trans isEnd) (by decide)
  | padding _ _ rest => exact rest
  | option _ _ notPadding _ _ _ => exact absurd isPadding notPadding

theorem Contained.after_option {i : Nat} (contained : Contained data i)
    (inside : i < DHCP_PKT_BUF_SIZE) (notEnd : data.getD i 0 ≠ 0xFF)
    (notPadding : data.getD i 0 ≠ 0) :
    i + 1 < reach data ∧
      (data.getD i 0 = 53 → data.getD (i + 1) 0 = 1 → i + 2 < reach data) ∧
        (data.getD i 0 = 54 → data.getD (i + 1) 0 = 4 → i + 5 < reach data) ∧
          Contained data (i + 2 + (data.getD (i + 1) 0).toNat) := by
  cases contained with
  | behind behind => exact absurd inside (Nat.not_lt_of_le behind)
  | ends _ isEnd => exact absurd isEnd notEnd
  | padding _ isPadding _ => exact absurd isPadding notPadding
  | option second _ _ type server rest => exact ⟨second, type, server, rest⟩

theorem reach_le : reach data ≤ DHCP_PKT_BUF_SIZE := Nat.min_le_right _ _

theorem Contained.reads_inside {i : Nat} (contained : Contained data i)
    (same : ∀ place < reach data, raw place = data.getD place 0) : ∀ {rounds : Nat},
    ∀ place ∈ parseReads raw DHCP_PKT_BUF_SIZE rounds i, place < reach data := by
  have le := @reach_le data
  induction contained with
  | behind behind =>
      intro rounds place member
      rw [parseReads_behind behind] at member
      exact absurd member List.not_mem_nil
  | ends inside isEnd =>
      intro rounds place member
      cases rounds with
      | zero => exact absurd member List.not_mem_nil
      | succ rounds =>
          rw [parseReads_end (by omega) ((same _ inside).trans isEnd)] at member
          rw [List.mem_singleton.mp member]
          exact inside
  | padding inside isPadding _ inductionHypothesis =>
      intro rounds place member
      cases rounds with
      | zero => exact absurd member List.not_mem_nil
      | succ rounds =>
          rw [parseReads_padding (by omega) ((same _ inside).trans isPadding)] at member
          rcases List.mem_cons.mp member with rfl | later
          · exact inside
          · exact inductionHypothesis place later
  | @option i inside notEnd notPadding type server rest inductionHypothesis =>
      intro rounds place member
      cases rounds with
      | zero => exact absurd member List.not_mem_nil
      | succ rounds =>
          have code := same i (by omega)
          have optLen := same (i + 1) inside
          rw [parseReads_option (by omega) (code ▸ notEnd) (code ▸ notPadding), optLen] at member
          rcases List.mem_cons.mp member with rfl | member
          · omega
          · rcases List.mem_cons.mp member with rfl | member
            · exact inside
            · rcases List.mem_append.mp member with value | later
              · unfold valueReads at value
                rw [code, optLen] at value
                split at value
                · next isType =>
                    have last := type isType.1 (BitVec.eq_of_toNat_eq isType.2)
                    rw [List.mem_singleton.mp value]
                    exact last
                · split at value
                  · next isServer =>
                      have last := server isServer.1 (BitVec.eq_of_toNat_eq isServer.2)
                      simp only [List.mem_cons, List.not_mem_nil, or_false] at value
                      omega
                  · exact absurd value List.not_mem_nil
              · exact inductionHypothesis place later

theorem contained_of_reads (same : ∀ place < reach data, raw place = data.getD place 0) :
    ∀ {rounds i : Nat}, DHCP_PKT_BUF_SIZE ≤ i + rounds →
      (∀ place ∈ parseReads raw DHCP_PKT_BUF_SIZE rounds i, place < reach data) →
        Contained data i := by
  intro rounds
  induction rounds with
  | zero => exact fun enough _ => .behind enough
  | succ rounds inductionHypothesis =>
      intro i enough inside
      by_cases less : i < DHCP_PKT_BUF_SIZE
      · by_cases isEnd : raw i = 0xFF
        · rw [parseReads_end less isEnd] at inside
          have first := inside i List.mem_cons_self
          exact .ends first ((same i first).symm.trans isEnd)
        · by_cases isPadding : raw i = 0
          · rw [parseReads_padding less isPadding] at inside
            have first := inside i List.mem_cons_self
            exact .padding first ((same i first).symm.trans isPadding)
              (inductionHypothesis (by omega) fun place member =>
                inside place (List.mem_cons_of_mem _ member))
          · rw [parseReads_option less isEnd isPadding] at inside
            have code := same i (inside i List.mem_cons_self)
            have second := inside (i + 1) (by simp)
            have optLen := same (i + 1) second
            refine .option second (code ▸ isEnd) (code ▸ isPadding) ?_ ?_ ?_
            · intro isType isOne
              refine inside (i + 2) ?_
              have read : valueReads raw i = [i + 2] := by
                rw [valueReads, code, optLen, if_pos ⟨isType, by rw [isOne]; rfl⟩]
              simp [read]
            · intro isServer isFour
              refine inside (i + 5) ?_
              have read : valueReads raw i = [i + 2, i + 3, i + 4, i + 5] := by
                rw [valueReads, code, optLen, if_neg, if_pos ⟨isServer, by rw [isFour]; rfl⟩]
                rw [isServer]
                exact fun both => absurd both.1 (by decide)
              simp [read]
            · rw [← optLen]
              exact inductionHypothesis (by omega) fun place member =>
                inside place (by simp [member])
      · exact .behind (Nat.le_of_not_lt less)

theorem received_inside {stale : Buffer} {datagram : Datagram} :
    ∀ place < reach datagram.data, received stale datagram place = datagram.data.getD place 0 := by
  intro place inside
  exact if_pos (Nat.lt_min.mp inside)

end Contained

/-! ## The values of a well-formed list -/

/-- What a whole option makes of what was found before it. -/
def Placed.note (found : Options) (option : Placed) : Options :=
  if option.code = 53 ∧ option.value.length = 1 then
    { found with msgType := option.value.getD 0 0 }
  else if option.code = 54 ∧ option.value.length = 4 then
    { found with serverIp := wordAt (fun i => option.value.getD i 0) 0 }
  else found

/-- The options that begin in the buffer. -/
def inBuffer (options : List Placed) : List Placed :=
  options.filter (·.place < DHCP_PKT_BUF_SIZE)

theorem rfcWalk_places : ∀ {length : Nat} {bytes : List Byte} {place : Nat}
    {options : List Placed}, bytes.length ≤ length → rfcWalk place bytes = some options →
      ∀ option ∈ options, place ≤ option.place ∧ option.place < place + bytes.length := by
  intro length
  induction length with
  | zero =>
      intro bytes place options short walk
      rw [List.length_eq_zero_iff.mp (Nat.le_zero.mp short), rfcWalk_nil] at walk
      cases walk
  | succ length inductionHypothesis =>
      intro bytes place options short walk option member
      cases rfcWalk_begins walk with
      | ends rest => exact absurd member List.not_mem_nil
      | padding others =>
          have between :=
            inductionHypothesis (Nat.le_of_succ_le_succ short) others option member
          rw [List.length_cons]
          omega
      | option notEnd notPadding lengths others =>
          rw [List.length_cons, List.length_cons, List.length_append] at short ⊢
          rcases List.mem_cons.mp member with rfl | later
          · dsimp only
            omega
          · have between := inductionHypothesis (by omega) others option later
            omega

theorem inBuffer_behind {options : List Placed}
    (behind : ∀ option ∈ options, DHCP_PKT_BUF_SIZE ≤ option.place) : inBuffer options = [] :=
  List.filter_eq_nil_iff.mpr fun option member => by
    rw [decide_eq_true_eq]
    exact Nat.not_lt_of_le (behind option member)

section Values

variable {data : List Byte} {raw : Buffer}

theorem getD_of_drop {place offset : Nat} {bytes : List Byte} (stands : data.drop place = bytes) :
    data.getD (place + offset) 0 = bytes.getD offset 0 := by
  rw [← stands, List.getD_eq_getElem?_getD, List.getD_eq_getElem?_getD, List.getElem?_drop]

theorem drop_behind {place offset : Nat} {before bytes : List Byte}
    (stands : data.drop place = before ++ bytes) (length : before.length = offset) :
    data.drop (place + offset) = bytes := by
  rw [← List.drop_drop, stands, List.drop_left' length]

theorem noted_eq (same : ∀ place < reach data, raw place = data.getD place 0) {place : Nat}
    {code optLen : Byte} {value rest : List Byte} {found : Options} (isCode : raw place = code)
    (isLen : raw (place + 1) = optLen) (stands : data.drop (place + 2) = value ++ rest)
    (length : value.length = optLen.toNat)
    (type : code = 53 → optLen = 1 → place + 2 < reach data)
    (server : code = 54 → optLen = 4 → place + 5 < reach data) :
    noted raw place found = Placed.note found ⟨place, code, value⟩ := by
  have read : ∀ offset, offset < value.length → place + 2 + offset < reach data →
      raw (place + 2 + offset) = value.getD offset 0 := by
    intro offset inside reached
    rw [same _ reached, getD_of_drop stands, List.getD_append _ _ _ _ inside]
  unfold noted Placed.note
  dsimp only
  rw [isCode, isLen, length]
  by_cases isType : code = 53 ∧ optLen.toNat = 1
  · have reached := type isType.1 (BitVec.eq_of_toNat_eq isType.2)
    rw [if_pos isType, if_pos isType, ← read 0 (by omega) reached]
  · rw [if_neg isType, if_neg isType]
    by_cases isServer : code = 54 ∧ optLen.toNat = 4
    · have reached := server isServer.1 (BitVec.eq_of_toNat_eq isServer.2)
      have word : wordAt raw (place + 2) = wordAt (fun i => value.getD i 0) 0 := by
        have first : raw (place + 2) = value.getD 0 0 := read 0 (by omega) (by omega)
        unfold wordAt
        rw [first, read 1 (by omega) (by omega), read 2 (by omega) (by omega),
          read 3 (by omega) (by omega)]
      rw [if_pos isServer, if_pos isServer, word]
    · rw [if_neg isServer, if_neg isServer]

theorem parseLoop_rfcWalk (same : ∀ place < reach data, raw place = data.getD place 0) :
    ∀ {length : Nat} {bytes : List Byte} {place : Nat} {options : List Placed} {rounds : Nat}
      {found : Options}, bytes.length ≤ length → rfcWalk place bytes = some options →
        data.drop place = bytes → Contained data place → DHCP_PKT_BUF_SIZE ≤ place + rounds →
          parseLoop raw DHCP_PKT_BUF_SIZE rounds place found =
            (inBuffer options).foldl Placed.note found := by
  have le := @reach_le data
  intro length
  induction length with
  | zero =>
      intro bytes place options rounds found short walk
      rw [List.length_eq_zero_iff.mp (Nat.le_zero.mp short), rfcWalk_nil] at walk
      cases walk
  | succ length inductionHypothesis =>
      intro bytes place options rounds found short walk stands contained enough
      by_cases inside : place < DHCP_PKT_BUF_SIZE
      · have code := same place (contained.code_inside inside)
        rw [← Nat.add_zero place, getD_of_drop stands, Nat.add_zero] at code
        obtain ⟨rounds, rfl⟩ : ∃ others, rounds = others + 1 :=
          Nat.exists_eq_succ_of_ne_zero (by omega)
        cases rfcWalk_begins walk with
        | ends rest =>
            rw [parseLoop_end code]
            rfl
        | padding others =>
            rw [parseLoop_padding inside code]
            have stands' : data.drop (place + 1) = _ := @drop_behind data place 1 [0] _ stands rfl
            exact inductionHypothesis (Nat.le_of_succ_le_succ short) others stands'
              (contained.after_padding inside (@getD_of_drop data place 0 _ stands)) (by omega)
        | @option code' optLen value rest options notEnd notPadding lengths others =>
            have isCode : data.getD place 0 = code' := @getD_of_drop data place 0 _ stands
            have isLen : data.getD (place + 1) 0 = optLen := getD_of_drop stands
            obtain ⟨second, type, server, contained'⟩ :=
              contained.after_option inside (isCode ▸ notEnd) (isCode ▸ notPadding)
            have optLen' := (same (place + 1) second).trans isLen
            have stands' : data.drop (place + 2) = value ++ rest :=
              @drop_behind data place 2 [code', optLen] _ stands rfl
            rw [isLen] at contained'
            rw [isCode, isLen] at type server
            rw [List.length_cons, List.length_cons, List.length_append] at short
            rw [parseLoop_option inside (code ▸ notEnd) (code ▸ notPadding), optLen',
              inductionHypothesis (by omega) others (drop_behind stands' lengths) contained'
                (by omega), noted_eq same code optLen' stands' lengths type server]
            have kept : inBuffer (⟨place, code', value⟩ :: options) =
                ⟨place, code', value⟩ :: inBuffer options :=
              List.filter_cons_of_pos (decide_eq_true inside)
            rw [kept]
            rfl
      · rw [parseLoop_behind (Nat.le_of_not_lt inside), inBuffer_behind]
        · rfl
        · exact fun option member => Nat.le_trans (Nat.le_of_not_lt inside)
            (rfcWalk_places (Nat.le_refl _) walk option member).1

end Values

theorem valuesOf_cons (code : Byte) (option : Placed) (options : List Placed) :
    valuesOf code (option :: options) =
      if option.code = code then option.value :: valuesOf code options
      else valuesOf code options := by
  unfold valuesOf
  rw [List.filter_cons]
  by_cases same : option.code = code
  · rw [if_pos (decide_eq_true same), if_pos same, List.map_cons]
  · rw [if_neg (by rw [decide_eq_true_eq]; exact same), if_neg same]

theorem foldl_note {options : List Placed} {found : Options}
    (type : ∀ value ∈ valuesOf 53 options, value.length = 1)
    (server : ∀ value ∈ valuesOf 54 options, value.length = 4) :
    options.foldl Placed.note found =
      ⟨((valuesOf 53 options).map (·.getD 0 0)).getLastD found.msgType,
        ((valuesOf 54 options).map fun value =>
          wordAt (fun i => value.getD i 0) 0).getLastD found.serverIp⟩ := by
  induction options generalizing found with
  | nil => rfl
  | cons option rest inductionHypothesis =>
      rw [valuesOf_cons] at type server
      rw [List.foldl_cons, valuesOf_cons, valuesOf_cons]
      by_cases isType : option.code = 53
      · have notServer : option.code ≠ 54 := by
          rw [isType]
          decide
        rw [if_pos isType] at type
        rw [if_neg notServer] at server
        have length := type option.value List.mem_cons_self
        rw [inductionHypothesis (fun value member => type value (List.mem_cons_of_mem _ member))
          server, if_pos isType, if_neg notServer, Placed.note, if_pos ⟨isType, length⟩,
          List.map_cons, List.getLastD_cons]
      · rw [if_neg isType] at type
        rw [if_neg isType]
        by_cases isServer : option.code = 54
        · rw [if_pos isServer] at server
          have length := server option.value List.mem_cons_self
          rw [inductionHypothesis type
            (fun value member => server value (List.mem_cons_of_mem _ member)), if_pos isServer,
            Placed.note, if_neg fun both => isType both.1, if_pos ⟨isServer, length⟩,
            List.map_cons, List.getLastD_cons]
        · rw [if_neg isServer] at server
          rw [inductionHypothesis type server, if_neg isServer, Placed.note,
            if_neg fun both => isType both.1, if_neg fun both => isServer both.1]

theorem valuesOf_inBuffer {code : Byte} {options : List Placed} :
    ∀ value ∈ valuesOf code (inBuffer options), value ∈ valuesOf code options := by
  intro value member
  obtain ⟨option, isOption, rfl⟩ := List.mem_map.mp member
  obtain ⟨kept, isCode⟩ := List.mem_filter.mp isOption
  exact List.mem_map.mpr ⟨option, List.mem_filter.mpr ⟨List.mem_of_mem_filter kept, isCode⟩, rfl⟩

/-! ## Every datagram -/

/-- The message type and the server are taken from the datagram alone, and are the values of
options 53 and 54 of a well-formed list. -/
structure Parsed (datagram : Datagram) : Prop where
  inside : ∀ stale, ∀ place ∈ extractionReads (received stale datagram),
    place < datagram.data.length ∧ place < DHCP_PKT_BUF_SIZE
  own : ∀ stale stale',
    parseDhcpOptions (received stale datagram) DHCP_PKT_BUF_SIZE =
        parseDhcpOptions (received stale' datagram) DHCP_PKT_BUF_SIZE ∧
      serverOf (received stale datagram) DHCP_PKT_BUF_SIZE =
        serverOf (received stale' datagram) DHCP_PKT_BUF_SIZE
  ends : ∀ stale more,
    parseLoop (received stale datagram) DHCP_PKT_BUF_SIZE (DHCP_PKT_BUF_SIZE + more)
        OFF_OPTIONS ⟨0, 0⟩ = parseDhcpOptions (received stale datagram) DHCP_PKT_BUF_SIZE
  values : ∀ stale options,
    rfcWalk OFF_OPTIONS (datagram.data.drop OFF_OPTIONS) = some options → WellFormed options →
      parseDhcpOptions (received stale datagram) DHCP_PKT_BUF_SIZE =
        ⟨messageType options, serverIdentifier options⟩

section Parsed

variable {datagram : Datagram}

theorem parse_inBuffer (contained : Contained datagram.data OFF_OPTIONS) (stale : Buffer)
    {options : List Placed}
    (walk : rfcWalk OFF_OPTIONS (datagram.data.drop OFF_OPTIONS) = some options)
    (wellFormed : WellFormed options) :
    parseDhcpOptions (received stale datagram) DHCP_PKT_BUF_SIZE =
      ⟨messageType (inBuffer options), serverIdentifier (inBuffer options)⟩ := by
  rw [parseDhcpOptions, parseLoop_rfcWalk received_inside (Nat.le_refl _) walk rfl contained
    (by decide)]
  exact foldl_note
    (fun value member => wellFormed.typeLength value (valuesOf_inBuffer value member))
    (fun value member => wellFormed.serverLength value (valuesOf_inBuffer value member))

theorem Contained.parse_inside (contained : Contained datagram.data OFF_OPTIONS) (stale : Buffer) :
    ∀ place ∈ extractionReads (received stale datagram), place < reach datagram.data := by
  intro place member
  have first := contained.code_inside (by decide)
  rcases List.mem_append.mp member with walk | server
  · exact contained.reads_inside received_inside place walk
  · split at server
    · have near : place ≤ OFF_SIADDR + 3 := by
        simp only [List.mem_cons, List.not_mem_nil, or_false] at server
        omega
      unfold OFF_SIADDR at near
      unfold OFF_OPTIONS at first
      omega
    · exact absurd server List.not_mem_nil

theorem Contained.parse_own (contained : Contained datagram.data OFF_OPTIONS)
    (stale stale' : Buffer) :
    parseDhcpOptions (received stale datagram) DHCP_PKT_BUF_SIZE =
      parseDhcpOptions (received stale' datagram) DHCP_PKT_BUF_SIZE := by
  refine parseLoop_congr DHCP_PKT_BUF_SIZE fun place member => ?_
  have inside := contained.reads_inside received_inside place member
  rw [received_inside place inside, received_inside place inside]

/-- The message is parsed from its own bytes, and rightly, exactly if the walk through them stays
inside them and the buffer and no option 53 or 54 of a well-formed list gets lost behind the
buffer. -/
theorem options_iff (datagram : Datagram) :
    Parsed datagram ↔
      Contained datagram.data OFF_OPTIONS ∧
        ∀ options, rfcWalk OFF_OPTIONS (datagram.data.drop OFF_OPTIONS) = some options →
          WellFormed options →
            messageType (inBuffer options) = messageType options ∧
              serverIdentifier (inBuffer options) = serverIdentifier options := by
  constructor
  · rintro ⟨inside, -, -, values⟩
    have contained : Contained datagram.data OFF_OPTIONS :=
      @contained_of_reads _ (received (fun _ => 0) datagram) received_inside _ _ (by decide)
        fun place member => Nat.lt_min.mpr (inside (fun _ => 0) place
          (List.mem_append_left _ member))
    refine ⟨contained, fun options walk wellFormed => ?_⟩
    have found := parse_inBuffer contained (fun _ => 0) walk wellFormed
    rw [values (fun _ => 0) options walk wellFormed] at found
    exact ⟨(congrArg Options.msgType found).symm, (congrArg Options.serverIp found).symm⟩
  · rintro ⟨contained, kept⟩
    refine ⟨fun stale place member => Nat.lt_min.mp (contained.parse_inside stale place member),
      fun stale stale' => ⟨contained.parse_own stale stale', ?_⟩,
      fun stale more => parseLoop_rounds (by decide), fun stale options walk wellFormed => ?_⟩
    · have first := contained.code_inside (by decide)
      have siaddr : wordAt (received stale datagram) OFF_SIADDR =
          wordAt (received stale' datagram) OFF_SIADDR := by
        have same : ∀ place < OFF_OPTIONS,
            received stale datagram place = received stale' datagram place := fun place before => by
          rw [received_inside place (Nat.lt_trans before first),
            received_inside place (Nat.lt_trans before first)]
        unfold wordAt
        rw [same _ (by decide), same _ (by decide), same _ (by decide), same _ (by decide)]
      unfold serverOf
      rw [contained.parse_own stale stale', siaddr]
    · obtain ⟨type, server⟩ := kept options walk wellFormed
      rw [parse_inBuffer contained stale walk wellFormed, type, server]

/-- After a datagram without options the client takes what the buffer held. -/
theorem stale_options : ¬∀ datagram, Parsed datagram := by
  intro all
  have parsed := all ⟨0, 67, List.replicate 240 0, by rw [List.length_replicate]; decide⟩
  have own := (parsed.own (fun _ => 0xFF) (fun place =>
    if place = 240 then 53 else if place = 241 then 1 else if place = 242 then 2 else 0xFF)).1
  exact absurd (congrArg Options.msgType own) (by decide +kernel)

end Parsed

end OrionBios.Dhcp
