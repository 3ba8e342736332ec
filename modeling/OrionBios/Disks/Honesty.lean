import OrionBios.Disks.MultiSector
import OrionBios.Disks.Selection

/-!
# Reported writes

A write that is reported as done was accepted sector by sector, except on the MIDE and with the
driver for the picoIDE alone, where some statuses are not looked at.
-/

namespace OrionBios.Disks

open Machine Device

variable {d e : Device} {dev : Dev} {sector : BitVec 32} {buffer : Sector} {pdrv : Byte}

/-! ## One sector -/

/-- A sector reported as written is one that the device accepted. -/
def Honest (dev : Dev) (sector : BitVec 32) (buffer : Sector) (d : Device) : Prop :=
  ∀ result e, writeOf dev sector buffer d = (some result, e) → result ≠ 0 →
    e.phase = .accepted ∧ e.saved = (lbaOf sector, buffer) :: d.saved

/-- Every sector that the script lets the MIDE's driver send is shown good statuses. -/
def GoodSector (script : List Byte) : Prop :=
  ∀ (t : MideShown) (left : List Byte), script = t.script ++ left → t.Sends → t.Good

theorem writeOf_result {result : Nat} (returns : writeOf dev sector buffer d = (some result, e))
    (works : result ≠ 0) : result = 512 := by
  cases dev with
  | ATA_DEV_MIDE => exact (mideWriteSector_result returns).resolve_left works
  | ATA_DEV_PICOIDE => exact (picoideWriteSector_result returns).resolve_left works

theorem honest_iff :
    Honest dev sector buffer d ↔ (dev = .ATA_DEV_MIDE → GoodSector d.script) := by
  cases dev with
  | ATA_DEV_PICOIDE =>
    refine ⟨fun _ impossible => absurd impossible nofun, fun _ result e returns works => ?_⟩
    cases writeOf_result returns works
    exact picoideWriteSector_accepted returns
  | ATA_DEV_MIDE =>
    constructor
    · intro honest _ t left script sends
      by_contra bad
      have outcome : Outcome _ (t.leaves buffer (d.eightBits.asked .write sector)) buffer t.Good :=
        mideWriteSector_outcome t sends d
      have refused := outcome.refused bad
      have returns : writeOf .ATA_DEV_MIDE sector buffer d = (some 512, _) :=
        mideWriteSector_sent.mpr ⟨t, left, script, sends, rfl⟩
      exact refused.1 (honest 512 _ returns nofun).1
    · intro good result e returns works
      cases writeOf_result returns works
      obtain ⟨t, left, script, sends, rfl⟩ := mideWriteSector_sent.mp returns
      exact (mideWriteSector_outcome t sends d).accepted (good rfl t left script sends)

/-! ## The sectors of a request -/

/-- The sectors of a request with their addresses on the device. -/
def entries (physicalSector i : BitVec 32) : List Sector → List (Lba × Sector)
  | [] => []
  | buffer :: rest => (lbaOf (physicalSector + i), buffer) :: entries physicalSector (i + 1) rest

theorem sectorsWritten_cons_ok {write : BitVec 32 → Sector → Program Device Nat}
    {physicalSector i : BitVec 32} {rest : List Sector} :
    sectorsWritten write physicalSector i (buffer :: rest) d = (some RES_OK, e) ↔
      ∃ result t, write (physicalSector + i) buffer d = (some result, t) ∧ result ≠ 0 ∧
        sectorsWritten write physicalSector (i + 1) rest t = (some RES_OK, e) := by
  have body : sectorsWritten write physicalSector i (buffer :: rest) =
      (write (physicalSector + i) buffer >>= fun result =>
        if result = 0 then pure RES_ERROR
        else sectorsWritten write physicalSector (i + 1) rest) := rfl
  rw [body, Program.bind_returns]
  constructor
  · rintro ⟨result, t, first, others⟩
    by_cases failed : result = 0
    · rw [if_pos failed] at others
      cases others
    · rw [if_neg failed] at others
      exact ⟨result, t, first, failed, others⟩
  · rintro ⟨result, t, first, works, others⟩
    refine ⟨result, t, first, ?_⟩
    rw [if_neg works]
    exact others

theorem sectorsWritten_picoide {physicalSector i : BitVec 32} {buff : List Sector}
    (returns : sectorsWritten (writeOf .ATA_DEV_PICOIDE) physicalSector i buff d = (some RES_OK, e)) :
    e.saved = (entries physicalSector i buff).reverse ++ d.saved := by
  induction buff generalizing i d with
  | nil =>
    cases returns
    rfl
  | cons buffer rest inductionHypothesis =>
    obtain ⟨result, t, first, works, others⟩ := sectorsWritten_cons_ok.mp returns
    have honest : Honest .ATA_DEV_PICOIDE (physicalSector + i) buffer d :=
      honest_iff.mpr fun impossible => absurd impossible nofun
    rw [inductionHypothesis others, (honest result t first works).2]
    show _ = ((lbaOf (physicalSector + i), buffer) :: entries physicalSector (i + 1) rest).reverse ++ _
    rw [List.reverse_cons, List.append_assoc]
    rfl

/-- The statuses of the sectors of a request to the MIDE, one after the other. -/
def scriptOf (shown : List MideShown) : List Byte := shown.flatMap MideShown.script

/-- The sectors that the script lets the MIDE's driver send are all shown good statuses. -/
def GoodRequest (sectors : Nat) (script : List Byte) : Prop :=
  ∀ (shown : List MideShown) (left : List Byte), script = scriptOf shown ++ left →
    shown.length = sectors → (∀ t ∈ shown, t.Sends) → ∀ t ∈ shown, t.Good

/-- The run over the sectors of a request: what it saves depends on the statuses. -/
structure RequestOutcome (d e : Device) (shown : List MideShown) (sent : List (Lba × Sector)) :
    Prop where
  good : (∀ t ∈ shown, t.Good) → e.saved = sent.reverse ++ d.saved
  atMost : e.saved.length ≤ d.saved.length + sent.length
  bad : ¬ (∀ t ∈ shown, t.Good) → e.saved.length < d.saved.length + sent.length

theorem mide_one (t : MideShown) (sends : t.Sends) (left : List Byte) :
    RequestOutcome d ((t.leaves buffer (d.eightBits.asked .write sector)).withScript left) [t]
      [(lbaOf sector, buffer)] := by
  have outcome : Outcome _ (t.leaves buffer (d.eightBits.asked .write sector)) buffer t.Good :=
    mideWriteSector_outcome t sends d
  refine ⟨fun good => (outcome.accepted (good t (List.mem_singleton_self t))).2, ?_, fun bad => ?_⟩
  · by_cases good : t.Good
    · have saved := congrArg List.length (outcome.accepted good).2
      exact Nat.le_of_eq saved
    · have saved := congrArg List.length (outcome.refused good).2
      exact Nat.le_of_lt (Nat.lt_succ_of_le (Nat.le_of_eq saved))
  · have ungood : ¬ t.Good := fun good => bad fun other among => by
      rw [List.mem_singleton.mp among]
      exact good
    have saved := congrArg List.length (outcome.refused ungood).2
    exact Nat.lt_succ_of_le (Nat.le_of_eq saved)

theorem RequestOutcome.cons {f : Device} {t : MideShown} {shown : List MideShown}
    {entry : Lba × Sector} {sent : List (Lba × Sector)} (first : RequestOutcome d f [t] [entry])
    (others : RequestOutcome f e shown sent) : RequestOutcome d e (t :: shown) (entry :: sent) := by
  have one : [entry].length = 1 := rfl
  have more : (entry :: sent).length = sent.length + 1 := rfl
  have firstAtMost := first.atMost
  have othersAtMost := others.atMost
  refine ⟨fun good => ?_, by omega, fun bad => ?_⟩
  · rw [others.good fun other among => good other (List.mem_cons_of_mem _ among),
      first.good fun other among => good other (by
        rw [List.mem_singleton.mp among]
        exact List.mem_cons_self), List.reverse_singleton, List.reverse_cons, List.append_assoc]
  · by_cases now : t.Good
    · have later : ¬ ∀ other ∈ shown, other.Good := fun all => bad fun other among => by
        rcases List.mem_cons.mp among with rfl | among
        · exact now
        · exact all other among
      have short := others.bad later
      omega
    · have short := first.bad fun all => now (all t (List.mem_singleton_self t))
      omega

theorem sectorsWritten_mide {physicalSector i : BitVec 32} {buff : List Sector} :
    sectorsWritten (writeOf .ATA_DEV_MIDE) physicalSector i buff d = (some RES_OK, e) →
      ∃ (shown : List MideShown) (left : List Byte), d.script = scriptOf shown ++ left ∧
        shown.length = buff.length ∧ (∀ t ∈ shown, t.Sends) ∧
        RequestOutcome d e shown (entries physicalSector i buff) := by
  induction buff generalizing i d with
  | nil =>
    intro returns
    cases returns
    exact ⟨[], _, rfl, rfl, nofun, fun _ => rfl, Nat.le_refl _, fun bad => absurd nofun bad⟩
  | cons buffer rest inductionHypothesis =>
    intro returns
    obtain ⟨result, f, first, works, others⟩ := sectorsWritten_cons_ok.mp returns
    cases writeOf_result first works
    obtain ⟨t, left, script, sends, rfl⟩ := mideWriteSector_sent.mp first
    obtain ⟨shown, left', script', length, all, outcome⟩ := inductionHypothesis others
    have own : left = scriptOf shown ++ left' := script'
    refine ⟨t :: shown, left', ?_, congrArg Nat.succ length, ?_, (mide_one t sends left).cons outcome⟩
    · rw [script, own, ← List.append_assoc]
      rfl
    · intro other among
      rcases List.mem_cons.mp among with rfl | among
      · exact sends
      · exact all other among

theorem sectorsWritten_of_shown (physicalSector i : BitVec 32) {buff : List Sector}
    {shown : List MideShown} {left : List Byte} (script : d.script = scriptOf shown ++ left)
    (length : shown.length = buff.length) (sends : ∀ t ∈ shown, t.Sends) :
    ∃ e, sectorsWritten (writeOf .ATA_DEV_MIDE) physicalSector i buff d = (some RES_OK, e) ∧
      RequestOutcome d e shown (entries physicalSector i buff) := by
  induction buff generalizing i d shown with
  | nil =>
    cases List.length_eq_zero_iff.mp length
    exact ⟨d, rfl, fun _ => rfl, Nat.le_refl _, fun bad => absurd nofun bad⟩
  | cons buffer rest inductionHypothesis =>
    cases shown with
    | nil => exact absurd length nofun
    | cons t shown =>
      have script' : d.script = t.script ++ (scriptOf shown ++ left) := by
        rw [script, ← List.append_assoc]
        rfl
      have first : writeOf .ATA_DEV_MIDE (physicalSector + i) buffer d = (some 512, _) :=
        mideWriteSector_sent.mpr ⟨t, _, script', sends t List.mem_cons_self, rfl⟩
      obtain ⟨e, others, outcome⟩ := inductionHypothesis (i + 1)
        (d := (t.leaves buffer (d.eightBits.asked .write (physicalSector + i))).withScript
          (scriptOf shown ++ left)) rfl (Nat.succ.inj length)
        (fun other among => sends other (List.mem_cons_of_mem _ among))
      refine ⟨e, sectorsWritten_cons_ok.mpr ⟨512, _, first, nofun, others⟩, ?_⟩
      exact (mide_one t (sends t List.mem_cons_self) _).cons outcome

/-! ## Requests of the file system -/

/-- A request reported as done is one whose sectors the device of the drive accepted. -/
def HonestRequest (pdrv : Byte) (sector : BitVec 32) (buff : List Sector) (s : System) : Prop :=
  ∀ dev t, pdrvAtaDev pdrv = some dev → diskWrite pdrv sector buff s = (some RES_OK, t) →
    (t.on dev).saved = (entries ((s.drives dev 0).base + sector) 0 buff).reverse ++ (s.on dev).saved

theorem diskWrite_ok {s t : System} {buff : List Sector} (drive : pdrvAtaDev pdrv = some dev)
    (returns : diskWrite pdrv sector buff s = (some RES_OK, t)) :
    sectorsWritten (writeOf dev) ((s.drives dev 0).base + sector) 0 buff (s.on dev) =
      (some RES_OK, t.on dev) := by
  rw [diskWrite_eq drive] at returns
  unfold selected at returns
  have result := congrArg Prod.fst returns
  have device := congrArg (fun run : Option Nat × System => run.2.on dev) returns
  simp only [System.on_select, System.on_set] at device
  exact Prod.ext result device

theorem diskWrite_of_ok {s : System} {buff : List Sector} (drive : pdrvAtaDev pdrv = some dev)
    (returns : sectorsWritten (writeOf dev) ((s.drives dev 0).base + sector) 0 buff (s.on dev) =
      (some RES_OK, e)) :
    diskWrite pdrv sector buff s = (some RES_OK, (s.set dev e).select dev) := by
  rw [diskWrite_eq drive]
  unfold selected
  rw [returns]

theorem honestRequest_iff {s : System} {buff : List Sector} :
    HonestRequest pdrv sector buff s ↔ (pdrv = 0 → GoodRequest buff.length s.mide.script) := by
  constructor
  · rintro honest rfl shown left script length sends
    by_contra bad
    obtain ⟨e, returns, outcome⟩ := sectorsWritten_of_shown
      ((s.drives .ATA_DEV_MIDE 0).base + sector) 0 script length sends
    have run : diskWrite 0 sector buff s = _ := diskWrite_of_ok rfl returns
    have saved := congrArg List.length (honest .ATA_DEV_MIDE _ rfl run)
    have short := outcome.bad bad
    rw [System.on_select, System.on_set, List.length_append, List.length_reverse] at saved
    have own : (s.on .ATA_DEV_MIDE).saved.length = s.mide.saved.length := rfl
    omega
  · intro good dev t drive returns
    have run := diskWrite_ok drive returns
    cases dev with
    | ATA_DEV_PICOIDE => exact sectorsWritten_picoide run
    | ATA_DEV_MIDE =>
      have first : pdrv = 0 := by
        unfold pdrvAtaDev at drive
        by_contra other
        rw [if_neg other] at drive
        split at drive
        · cases drive
        · cases drive
      obtain ⟨shown, left, script, length, sends, outcome⟩ := sectorsWritten_mide run
      exact outcome.good (good first shown left script length sends)

/-- What the driver for the picoIDE alone reports as written is what the device accepted. -/
def HonestSectors (drive : Byte) (lba : BitVec 32) (buffer : List Sector) (d : Device) : Prop :=
  ∀ e, ataWriteSectors drive lba buffer d = (some .ATA_OK, e) → Holds (lbaOf lba) buffer e

/-- The sectors that the script lets that driver send are all shown good statuses. -/
def GoodSectors (lba : BitVec 32) (buffer : List Sector) (script : List Byte) : Prop :=
  buffer ≠ [] → lba.toNat ≤ 0x0FFFFFFF → ∀ (t : WriteShown) (left : List Byte),
    script = t.script ++ left → t.Sends buffer.length → t.Good

def zeros : Sector := ⟨List.replicate 512 0, List.length_replicate⟩

def showing (script : List Byte) : Device where
  present := true
  taskFile := ⟨0, 0, 0, 0, 0, 0⟩
  phase := .idle
  order := ⟨.other, 0, 0⟩
  orders := []
  saved := []
  medium := fun _ => zeros
  identity := zeros
  script := script

def mounted (mide picoide : Device) : System where
  ataDev := .ATA_DEV_MIDE
  ataBase := ATA_BASE_MIDE
  drives := fun _ _ => ⟨0, 0, 0, 0⟩
  scratch := zeros
  mide := mide
  picoide := picoide

/-- A write is reported as done only if the device accepted every sector and ended it without an
error: always on the picoIDE, and elsewhere exactly when the statuses that the driver does not
look at show nothing else. -/
theorem reported_writes (pdrv drive : Byte) (dev : Dev) (sector lba : BitVec 32) (one : Sector)
    (buff : List Sector) (d : Device) (s : System) :
    (HonestRequest pdrv sector buff s ↔ (pdrv = 0 → GoodRequest buff.length s.mide.script)) ∧
    (Honest dev sector one d ↔ (dev = .ATA_DEV_MIDE → GoodSector d.script)) ∧
    (buff.length < 256 →
      (HonestSectors drive lba buff d ↔ GoodSectors lba buff d.script)) :=
  ⟨honestRequest_iff, honest_iff, ataWriteSectors_holds⟩

/-- The picoIDE asks for the sector, takes it and ends it with an error. -/
def broken : WriteShown where
  before := [0x50, 0x50, 0x50, 0x50, 0x50]
  requests := [[0x58, 0x58]]
  ends := [0x51]

/-- The driver for the picoIDE alone reports that sector as written. -/
theorem reported_writes_broken : ¬ HonestSectors 0 7 [zeros] (showing broken.script) := by
  intro honest
  have clear : Polled clearOf false ATA_TIMEOUT_LOOPS [0x50] true :=
    .inr ⟨[], 0x50, rfl, by decide, nofun, by decide⟩
  have ready : Polled clearOf false ATA_TIMEOUT_LOOPS [0x58] true :=
    .inr ⟨[], 0x58, rfl, by decide, nofun, by decide⟩
  have request : Polled requestOf .ATA_ERR_TIMEOUT_DRQ ATA_TIMEOUT_LOOPS [0x58] .ATA_OK :=
    .inr ⟨[], 0x58, rfl, by decide, nofun, by decide⟩
  have sends : broken.Sends [zeros].length :=
    { before := ⟨[0x50, 0x50, 0x50, 0x50], [0x50], rfl, rfl, clear⟩
      count := rfl
      requests := fun _ among => List.mem_singleton.mp among ▸ ⟨[0x58], [0x58], rfl, ready, request⟩
      ends := .inr ⟨[], 0x51, rfl, by decide, nofun, by decide⟩ }
  have whole := (reported_writes 0 0 .ATA_DEV_MIDE 0 7 zeros [zeros] (showing broken.script)
    (mounted (showing []) (showing broken.script))).2.2 (by decide)
  have good := whole.mp honest nofun (by decide) broken [] (List.append_nil _).symm sends
  exact absurd (good.ends 0x51 rfl).2 (by decide)

/-- The card asks for the sector, takes it and ends it with an error. -/
def refused : MideShown where
  feature := [0x58]
  start := [0x58]
  checked := 0x58
  ready := [0x58]
  request := [0x58]
  waits := List.replicate 512 [0x58]
  ends := []
  ended := 0x51
  last := 0x51

theorem refused_sends : refused.Sends where
  feature := ⟨[], 0x58, rfl, nofun, rfl⟩
  start := ⟨[], 0x58, rfl, nofun, rfl⟩
  checked := rfl
  ready := ⟨[], 0x58, rfl, nofun, rfl⟩
  request := ⟨[], 0x58, rfl, nofun, rfl⟩
  waits := fun _ among => List.eq_of_mem_replicate among ▸ ⟨[], 0x58, rfl, nofun, rfl⟩
  bytes := List.length_replicate
  ends := nofun
  ended := rfl

/-- A write of one sector that the card ended with an error is reported as done. -/
theorem refused_write_reported :
    ¬ HonestRequest 0 7 [zeros] (mounted (showing refused.script) (showing [])) := by
  intro honest
  have script : refused.script = scriptOf [refused] ++ [] := by
    unfold scriptOf
    rw [List.flatMap_cons, List.flatMap_nil, List.append_nil, List.append_nil]
  have good := honestRequest_iff.mp honest rfl [refused] [] script rfl
    (fun t among => List.mem_singleton.mp among ▸ refused_sends) refused (List.mem_singleton_self _)
  have ends := good.ends
  unfold EndsWell at ends
  exact absurd ends (by decide)

end OrionBios.Disks
