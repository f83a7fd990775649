import PulseCounter.SetUp
import PulseCounter.Verify.BoardRevision
import PulseCounter.Verify.MainProgram

/-!
# What the program comes to on a host

The set-up goes through on a host for root whose file of the board is understood and whose memory can be
mapped (`setUp_cases`). On a model 2 the line of the revision needs a colon then, and a memory that cannot be
mapped is no obstacle when the library is asked for results. From there on it depends on the pins what becomes
of an accepted command line (`main_outcome`); one that asks for the default pins runs unless the board is of
the first revision (`default_pins_run_iff`).
-/

namespace PulseCounter

open ProcessCommandLine PulseCounterMain

namespace WiringPi

variable {w : WiringPi} {host : Host} {board : Board} {text line : List Char}

/-! ## The registers -/

/-- The registers of the pins are mapped. -/
def Host.GpioMapped (host : Host) : Prop := host.devMem = true ∧ host.mmap .GPIO_BASE = true

def Host.AllMapped (host : Host) : Prop := host.devMem = true ∧ ∀ block, host.mmap block = true

theorem Host.mmapFailed_eq_none_iff : host.mmapFailed = none ↔ ∀ block, host.mmap block = true := by
  unfold mmapFailed
  rw [List.find?_eq_none]
  constructor
  · intro h block
    have hblock : block ∈ [Block.GPIO_BASE, .GPIO_PWM, .CLOCK_BASE, .GPIO_PADS] := by
      cases block <;> decide
    simpa using h block hblock
  · intro h block _
    simp [h block]

/-- The block of the pins comes first. -/
theorem Host.mmapFailed_eq_base_iff :
    host.mmapFailed = some .GPIO_BASE ↔ ¬host.mmap .GPIO_BASE = true := by
  unfold mmapFailed
  rw [List.find?_cons]
  cases hbase : host.mmap .GPIO_BASE with
  | false => simp
  | true =>
    simp only [Bool.not_true, not_true_eq_false, iff_false]
    intro h
    have hmem := List.mem_of_find?_eq_some h
    exact absurd hmem (by decide)

/-! ## The model of the board -/

/-- A board that `piBoardRev` has found has a model, but for a model 2 whose line has no colon. -/
theorem piBoardId_eq_ok_iff (hfound : (Fgets.pieces 118 text).find? (startsWith "Revision") = some line)
    {code : List Char} (hcode : HasCode line code) (board : Board) (buffer : List Char) :
    (∃ model, piBoardId board buffer (some text) = .ok model) ↔
      (board.piModel2 = true → ':' ∈ chomp line) := by
  have hscan := Fgets.scan_eq 118 (startsWith "Revision") buffer text
  rw [hfound, Option.getD_some] at hscan
  unfold piBoardId
  simp only [hscan, if_pos (List.find?_some hfound)]
  cases board.piModel2 with
  | true =>
    simp only [if_true, forall_const]
    split
    · next hcolon => exact ⟨fun _ => hcolon, fun _ => ⟨_, rfl⟩⟩
    · next hcolon => exact ⟨by rintro ⟨_, ⟨⟩⟩, fun h => absurd h hcolon⟩
  | false =>
    obtain ⟨before, digits, hline, hbefore, hdigit, hsuffix, hlength⟩ := hcode
    have hlong : ¬digits.length < 4 := by
      have := hsuffix.length_le
      omega
    rw [hline, dropWhile_before hbefore hdigit]
    simp [hlong]

/-! ## The set-up -/

/-- The memory is mapped, and then the line of the revision has its colon on a model 2, or its failure is
only a result. -/
def Host.Maps (host : Host) (model2 : Bool) (line : List Char) : Prop :=
  host.AllMapped ∧ (model2 = true → ':' ∈ chomp line) ∨ ¬host.AllMapped ∧ host.returnCodes = true

theorem Host.maps_of_allMapped {model2 : Bool} (h : host.AllMapped) :
    host.Maps model2 line ↔ (model2 = true → ':' ∈ chomp line) := by
  unfold Maps
  rw [and_iff_right h, or_iff_left]
  intro hnot
  exact hnot.1 h

theorem Host.maps_of_not_allMapped {model2 : Bool} (h : ¬host.AllMapped) :
    host.Maps model2 line ↔ host.returnCodes = true := by
  unfold Maps
  rw [and_iff_right h, or_iff_right]
  intro hall
  exact h hall.1

theorem not_allMapped_of_devMem (h : host.devMem = false) : ¬host.AllMapped := by
  rintro ⟨hmem, -⟩
  rw [h] at hmem
  cases hmem

theorem not_allMapped_of_mmapFailed {block : Block} (h : host.mmapFailed = some block) :
    ¬host.AllMapped := by
  rintro ⟨-, hall⟩
  rw [Host.mmapFailed_eq_none_iff.mpr hall] at h
  cases h

/-- What `passes` is about decides the set-up: it returns with the tables of the revision, or it ends the
process. -/
def Settled (host : Host) (boardRev : Int32) (passes : Prop) : Except SetUpFailure SetUp → Prop
  | .ok setUp => passes ∧ setUp.library.boardRev = boardRev ∧ (setUp.mapped = true ↔ host.GpioMapped)
  | .error _ => ¬passes

/-- A failure that is not fatal is a result when results are asked for. -/
theorem settled_of_failure {model2 mapped : Bool} {failure : SetUpFailure} (w : WiringPi)
    (hnot : ¬host.AllMapped) (hmapped : mapped = true ↔ host.GpioMapped) :
    Settled host w.boardRev (host.Maps model2 line) (do
      let result ← wiringPiFailure host.returnCodes WPI_ALMOST failure
      return ⟨result, w, mapped⟩) := by
  have hmaps : host.Maps model2 line ↔ host.returnCodes = true := Host.maps_of_not_allMapped hnot
  unfold wiringPiFailure
  cases hcodes : host.returnCodes with
  | false =>
    intro h
    rw [hmaps, hcodes] at h
    cases h
  | true => exact ⟨hmaps.mpr hcodes, rfl, hmapped⟩

section Found

variable (htext : host.cpuinfo = some text)
  (hboard : piBoardRev host.revBuffer (some text) = .ok board)
  (hfound : (Fgets.pieces 118 text).find? (startsWith "Revision") = some line)

include htext hboard hfound

theorem exists_model_iff : (∃ model, piBoardId board host.idBuffer host.cpuinfo = .ok model) ↔
    (board.piModel2 = true → ':' ∈ chomp line) := by
  obtain ⟨-, line', code, -, -, hfound', hcode, -⟩ := (piBoardRev_eq_ok_iff _ text board).mp hboard
  rw [hfound] at hfound'
  injection hfound' with hfound'
  subst hfound'
  rw [htext]
  exact piBoardId_eq_ok_iff hfound hcode board host.idBuffer

theorem settled_mapRegisters (w : WiringPi) :
    Settled host w.boardRev (host.Maps board.piModel2 line) (w.mapRegisters host board) := by
  have hmodel := exists_model_iff htext hboard hfound
  unfold mapRegisters
  cases hmem : host.devMem with
  | false =>
    refine settled_of_failure w (not_allMapped_of_devMem hmem) (iff_of_false Bool.false_ne_true ?_)
    rintro ⟨hopened, -⟩
    rw [hmem] at hopened
    cases hopened
  | true =>
    simp only [if_true]
    cases hmap : host.mmapFailed with
    | some block =>
      refine settled_of_failure w (not_allMapped_of_mmapFailed hmap) ?_
      have hbase := host.mmapFailed_eq_base_iff
      rw [hmap, Option.some.injEq] at hbase
      rw [decide_eq_true_iff, ne_eq, hbase, not_not]
      exact (and_iff_right hmem).symm
    | none =>
      have hall : host.AllMapped := ⟨hmem, Host.mmapFailed_eq_none_iff.mp hmap⟩
      rw [Host.maps_of_allMapped hall, ← hmodel]
      cases hid : piBoardId board host.idBuffer host.cpuinfo with
      | error failure =>
        rintro ⟨model, hmodel⟩
        cases hmodel
      | ok model => exact ⟨⟨model, rfl⟩, rfl, iff_of_true rfl ⟨hmem, hall.2 _⟩⟩

/-- A file that is understood leaves it to the user and the memory whether the set-up goes through. -/
theorem settled_setUp (w : WiringPi) : Settled host board.boardRev
    (host.root = true ∧ host.Maps board.piModel2 line) (w.wiringPiSetupPhysOn host) := by
  unfold wiringPiSetupPhysOn wiringPiSetup wiringPiFailure
  cases hroot : host.root with
  | false =>
    rintro ⟨hroot', -⟩
    cases hroot'
  | true =>
    have hsettled := settled_mapRegisters htext hboard hfound (w.onBoard board)
    rw [htext, hboard]
    change Settled host board.boardRev _ (((w.onBoard board).mapRegisters host board).bind fun setUp =>
      .ok ⟨0, { setUp.library with wiringPiMode := .WPI_MODE_PHYS }, setUp.mapped⟩)
    cases hmap : (w.onBoard board).mapRegisters host board with
    | error failure =>
      rw [hmap] at hsettled
      rintro ⟨-, hmaps⟩
      exact hsettled hmaps
    | ok setUp =>
      rw [hmap] at hsettled
      exact ⟨⟨rfl, hsettled.1⟩, hsettled.2⟩

end Found

/-- No other file is understood. -/
theorem board_of_setUp {setUp : SetUp} (h : w.wiringPiSetupPhysOn host = .ok setUp) :
    ∃ text board, host.cpuinfo = some text ∧ piBoardRev host.revBuffer (some text) = .ok board := by
  unfold wiringPiSetupPhysOn wiringPiSetup at h
  cases hboard : piBoardRev host.revBuffer host.cpuinfo with
  | error failure =>
    rw [hboard] at h
    cases hroot : host.root with
    | false | true =>
      rw [hroot] at h
      cases h
  | ok board =>
    cases htext : host.cpuinfo with
    | none =>
      rw [htext] at hboard
      cases hboard
    | some text => exact ⟨text, board, rfl, htext ▸ hboard⟩

/-- The set-up goes through on a host that has such a board. -/
def Host.SetsUp (host : Host) (board : Board) : Prop :=
  ∃ text line, host.cpuinfo = some text ∧ piBoardRev host.revBuffer (some text) = .ok board ∧
    (Fgets.pieces 118 text).find? (startsWith "Revision") = some line ∧
    host.root = true ∧ host.Maps board.piModel2 line

/-- **The set-up** returns, with the tables of the board, or it ends the process. -/
theorem setUp_cases (w : WiringPi) (host : Host) :
    (∃ setUp board, w.wiringPiSetupPhysOn host = .ok setUp ∧ host.SetsUp board ∧
      setUp.library.boardRev = board.boardRev ∧ (setUp.mapped = true ↔ host.GpioMapped)) ∨
    (∃ failure, w.wiringPiSetupPhysOn host = .error failure) ∧ ∀ board, ¬host.SetsUp board := by
  cases hsetUp : w.wiringPiSetupPhysOn host with
  | ok setUp =>
    obtain ⟨text, board, htext, hboard⟩ := board_of_setUp hsetUp
    obtain ⟨-, line, -, -, -, hfound, -⟩ := (piBoardRev_eq_ok_iff _ text board).mp hboard
    have hsettled := settled_setUp htext hboard hfound w
    rw [hsetUp] at hsettled
    obtain ⟨⟨hroot, hmaps⟩, hrev, hmapped⟩ := hsettled
    exact .inl ⟨setUp, board, rfl, ⟨text, line, htext, hboard, hfound, hroot, hmaps⟩, hrev, hmapped⟩
  | error failure =>
    refine .inr ⟨⟨failure, rfl⟩, ?_⟩
    rintro board ⟨text, line, htext, hboard, hfound, hpasses⟩
    have hsettled := settled_setUp htext hboard hfound w
    rw [hsetUp] at hsettled
    exact hsettled hpasses

/-- There is one board. -/
theorem Host.SetsUp.unique {board' : Board} (h : host.SetsUp board) (h' : host.SetsUp board') :
    board = board' := by
  obtain ⟨text, -, htext, hboard, -⟩ := h
  obtain ⟨text', -, htext', hboard', -⟩ := h'
  rw [htext] at htext'
  injection htext' with htext'
  subst htext'
  rw [hboard] at hboard'
  injection hboard'

/-! ## An accepted command line -/

section Accepted

variable {parse_command_line : List String → Except String VariablesMap} {argv : List String}
  {config : PulseCounterConfiguration} (w) (reading : UInt32)
  (haccepted : parse parse_command_line argv {} = (true, config))

include haccepted

theorem mainOn_of_exits (h : ∀ board, ¬host.SetsUp board) :
    ∃ failure, w.mainOn host reading parse_command_line argv = .exited failure := by
  unfold mainOn
  rw [haccepted]
  rcases setUp_cases w host with ⟨setUp, board, -, hboard, -⟩ | ⟨⟨failure, hsetUp⟩, -⟩
  · exact absurd hboard (h board)
  · rw [hsetUp]
    exact ⟨failure, rfl⟩

theorem mainOn_of_setsUp (h : host.SetsUp board) :
    (¬host.GpioMapped → w.mainOn host reading parse_command_line argv = .unmapped) ∧
    (host.GpioMapped → ∃ library : WiringPi, library.boardRev = board.boardRev ∧
      w.mainOn host reading parse_command_line argv =
        .program (library.main reading parse_command_line argv)) := by
  unfold mainOn
  rw [haccepted]
  rcases setUp_cases w host with ⟨setUp, board', hsetUp, hboard, hrev, hmapped⟩ | ⟨-, hnone⟩
  · rw [← hboard.unique h, hsetUp]
    simp only [if_true]
    refine ⟨fun hunmapped => if_neg fun h => hunmapped (hmapped.mp h), fun hgpio => ?_⟩
    exact ⟨setUp.library, hrev, if_pos (hmapped.mpr hgpio)⟩
  · exact absurd h (hnone board)

end Accepted

end WiringPi

open WiringPi

variable {w : WiringPi} {host : Host} {config : PulseCounterConfiguration} {reading : UInt32}
  {parse_command_line : List String → Except String VariablesMap} {argv : List String}

/-! ## What becomes of a command line -/

section Accepted

variable (w) (reading) (haccepted : parse parse_command_line argv {} = (true, config))

include haccepted

end Accepted

section Lines

variable {lines : List (List Char)} {line : List Char} {board : Board}

/-- The line of the revision of a board of the first revision. -/
def FirstRevision (line : List Char) : Prop :=
  "0002".toList <:+ chomp line ∨ "0003".toList <:+ chomp line

/-- The file is understood and the set-up goes through with the registers of the pins; `line` is that of the
revision. -/
structure WiringPi.Host.Ready (host : Host) (lines : List (List Char)) (line : List Char) : Prop where
  hardware : ∃ hardware model2, lines.find? (startsWith "Hardware") = some hardware ∧
    piModel2 hardware = .ok model2 ∧ host.Maps model2 line
  revision : lines.find? (startsWith "Revision") = some line
  code : ∃ code, HasCode line code
  root : host.root = true
  registers : host.GpioMapped

/-- A line ends like itself with a newline, as far as the set-up looks at it. -/
theorem maps_newline {model2 : Bool} : host.Maps model2 (line ++ ['\n']) ↔ host.Maps model2 line := by
  unfold WiringPi.Host.Maps
  rw [chomp_newline]

variable (hlines : ∀ l ∈ lines, '\n' ∉ l ∧ l.length ≤ 118)
  (hcpuinfo : host.cpuinfo = some (lines.flatMap (· ++ ['\n'])))

include hlines hcpuinfo

theorem setsUp_of_ready (h : host.Ready lines line) :
    ∃ board, host.SetsUp board ∧ (board.boardRev = 1 ↔ FirstRevision line) := by
  obtain ⟨⟨hardware, model2, hhardware, hmodel, hmaps⟩, hrevision, ⟨code, hcode⟩, hroot, -⟩ := h
  have hfind := fun key (hkey : '\n' ∉ String.toList key) => find?_newline hkey lines
  rw [← Fgets.pieces_lines hlines] at hfind
  have hline := hfind "Revision" (by decide)
  rw [hrevision] at hline
  have hboard := (piBoardRev_eq_ok_iff host.revBuffer (lines.flatMap (· ++ ['\n']))
    ⟨revisionOf code, model2⟩).mpr ⟨hardware ++ ['\n'], line ++ ['\n'], code, ?_, ?_, hline, ?_, rfl⟩
  · refine ⟨⟨revisionOf code, model2⟩, ⟨_, _, hcpuinfo, hboard, hline, hroot, ?_⟩, ?_⟩
    · exact maps_newline.mpr hmaps
    · exact revisionOf_eq_one_iff hcode
  · have hline := hfind "Hardware" (by decide)
    rwa [hhardware] at hline
  · exact piModel2_newline.mpr hmodel
  · exact hasCode_newline.mpr hcode

theorem ready_of_setsUp (h : host.SetsUp board) (hgpio : host.GpioMapped) :
    ∃ line, host.Ready lines line ∧ (board.boardRev = 1 ↔ FirstRevision line) := by
  obtain ⟨text, line', htext, hboard, hfound, hroot, hmaps⟩ := h
  rw [hcpuinfo] at htext
  injection htext with htext
  subst htext
  obtain ⟨hardware', line'', code, hhardware, hmodel, hline, hcode, hrev⟩ :=
    (piBoardRev_eq_ok_iff _ _ board).mp hboard
  rw [hfound] at hline
  injection hline with hline
  subst hline
  rw [Fgets.pieces_lines hlines, find?_newline (by decide), Option.map_eq_some_iff] at hfound hhardware
  obtain ⟨line, hrevision, rfl⟩ := hfound
  obtain ⟨hardware, hhardware, rfl⟩ := hhardware
  rw [hasCode_newline] at hcode
  refine ⟨line, ⟨⟨hardware, _, hhardware, piModel2_newline.mp hmodel, maps_newline.mp hmaps⟩, hrevision,
    ⟨code, hcode⟩, hroot, hgpio⟩, ?_⟩
  rw [hrev]
  exact revisionOf_eq_one_iff hcode

end Lines

/-- **The default pins on a host.** A command line that is accepted and asks for the default pins runs
exactly on the hosts where the set-up goes through with the registers of the pins and the line of the revision
ends with neither `0002` nor `0003`. Where it ends with one of these, the start looks for the clock register of
no GPIO, outside of the table. -/
theorem default_pins_run_iff (lines : List (List Char)) (hlines : ∀ l ∈ lines, '\n' ∉ l ∧ l.length ≤ 118)
    (host : Host) (hcpuinfo : host.cpuinfo = some (lines.flatMap (· ++ ['\n'])))
    (parse_command_line : List String → Except String VariablesMap) (argv : List String)
    (vm : VariablesMap) (pins : List Int32) (state : PullUpState) (text : String)
    (hvm : parse_command_line argv = .ok vm) (hreadable : Readable vm {} pins state)
    (htext : vm.activepins = some text) (hdefault : "default".toList ∈ text.toList.splitOn ',')
    (w : WiringPi) (reading : UInt32) :
    ((∃ s, w.mainOn host reading parse_command_line argv =
        .program (.running (fillIn vm defaultPins state {}) s)) ↔
      ∃ line, host.Ready lines line ∧ ¬FirstRevision line) ∧
    ∀ line, host.Ready lines line → FirstRevision line →
      w.mainOn host reading parse_command_line argv = .program (.failed (.subscript 4294967295)) := by
  have haccepted := (parse_accepts_iff parse_command_line argv {} _).mpr
    ⟨vm, pins, state, hvm, hreadable, rfl⟩
  have hstart := fun library => default_pins_start_iff parse_command_line argv vm pins state text hvm
    hreadable htext hdefault library reading
  refine ⟨⟨?_, ?_⟩, fun line hready hfirst => ?_⟩
  · rintro ⟨s, hs⟩
    by_cases hexits : ∀ board, ¬host.SetsUp board
    · obtain ⟨failure, hmain⟩ := mainOn_of_exits w reading haccepted hexits
      rw [hmain] at hs
      cases hs
    · obtain ⟨board, hboard⟩ := not_forall_not.mp hexits
      obtain ⟨hunmapped, hmapped⟩ := mainOn_of_setsUp w reading haccepted hboard
      by_cases hgpio : host.GpioMapped
      · obtain ⟨line, hready, hrev⟩ := ready_of_setsUp hlines hcpuinfo hboard hgpio
        obtain ⟨library, hlibrary, hmain⟩ := hmapped hgpio
        refine ⟨line, hready, fun hfirst => ?_⟩
        rw [hmain, (hstart library).1 (hlibrary.trans (hrev.mpr hfirst))] at hs
        cases hs
      · rw [hunmapped hgpio] at hs
        cases hs
  · rintro ⟨line, hready, hsecond⟩
    obtain ⟨board, hboard, hrev⟩ := setsUp_of_ready hlines hcpuinfo hready
    obtain ⟨library, hlibrary, hmain⟩ := (mainOn_of_setsUp w reading haccepted
      hboard).2 hready.registers
    obtain ⟨s, hs⟩ := (hstart library).2 fun hone => hsecond (hrev.mp (hlibrary.symm.trans hone))
    exact ⟨s, hmain.trans (congrArg Process.program hs)⟩
  · obtain ⟨board, hboard, hrev⟩ := setsUp_of_ready hlines hcpuinfo hready
    obtain ⟨library, hlibrary, hmain⟩ := (mainOn_of_setsUp w reading haccepted
      hboard).2 hready.registers
    rw [hmain, (hstart library).1 (hlibrary.trans (hrev.mpr hfirst))]

/-- A host for root on which all memory can be mapped. -/
def hostOf (lines : List (List Char)) : Host where
  root := true
  returnCodes := false
  cpuinfo := some (lines.flatMap (· ++ ['\n']))
  revBuffer := []
  idBuffer := []
  devMem := true
  mmap _ := true

/-- An overvolted board of the first revision. -/
def overvolted : List (List Char) :=
  ["processor\t: 0".toList, [], "Hardware\t: BCM2708".toList, "Revision\t: 1000002".toList]

/-- A model 2. -/
def modelTwo : List (List Char) := ["Hardware\t: BCM2709".toList, "Revision\t: a01041".toList]

/-- A model 2 without a colon in the line of its revision. -/
def noColon : List (List Char) := ["Hardware\t: BCM2709".toList, "Revision 0010".toList]

theorem ready_overvolted : (hostOf overvolted).Ready overvolted "Revision\t: 1000002".toList where
  hardware := ⟨"Hardware\t: BCM2708".toList, false, by decide +kernel, by decide +kernel,
    .inl ⟨⟨rfl, fun _ => rfl⟩, nofun⟩⟩
  revision := by decide +kernel
  code := ⟨"0002".toList, "Revision\t: ".toList, "1000002".toList, by decide +kernel,
    List.forall_iff_forall_mem.mp (by decide), ⟨'1', by decide +kernel⟩, by decide +kernel, by decide⟩
  root := rfl
  registers := ⟨rfl, rfl⟩

theorem ready_modelTwo : (hostOf modelTwo).Ready modelTwo "Revision\t: a01041".toList where
  hardware := ⟨"Hardware\t: BCM2709".toList, true, by decide +kernel, by decide +kernel,
    .inl ⟨⟨rfl, fun _ => rfl⟩, fun _ => by decide +kernel⟩⟩
  revision := by decide +kernel
  code := ⟨"1041".toList, "Revision\t: a".toList, "01041".toList, by decide +kernel,
    List.forall_iff_forall_mem.mp (by decide), ⟨'0', by decide +kernel⟩, by decide +kernel, by decide⟩
  root := rfl
  registers := ⟨rfl, rfl⟩

theorem not_ready_noColon (line : List Char) : ¬(hostOf noColon).Ready noColon line := by
  rintro ⟨⟨hardware, model2, hhardware, hmodel, hmaps⟩, hrevision, -, -, -⟩
  have hfirst : noColon.find? (startsWith "Hardware") = some "Hardware\t: BCM2709".toList := by
    decide +kernel
  have hsecond : noColon.find? (startsWith "Revision") = some "Revision 0010".toList := by
    decide +kernel
  rw [hfirst] at hhardware
  injection hhardware with hhardware
  rw [hsecond] at hrevision
  injection hrevision with hrevision
  subst hhardware hrevision
  have htrue : piModel2 "Hardware\t: BCM2709".toList = .ok true := by decide +kernel
  rw [htrue] at hmodel
  injection hmodel with hmodel
  subst hmodel
  rcases hmaps with ⟨-, hcolon⟩ | ⟨hnot, -⟩
  · exact absurd (hcolon rfl) (by decide +kernel)
  · exact hnot ⟨rfl, fun _ => rfl⟩

/-- Three boards: the flag before the code is passed over, and a model 2 needs its colon. -/
theorem default_pins_run_iff_boards :
    let default := ["PulseCounter", "--activepins", "default"]
    let config := fillIn { activepins := some "default" } defaultPins .PullUpState_Off {}
    secondRevision.mainOn (hostOf overvolted) 7 bindActivePins default =
        .program (.failed (.subscript 4294967295)) ∧
      (∃ s, secondRevision.mainOn (hostOf modelTwo) 7 bindActivePins default =
        .program (.running config s)) ∧
      ¬∃ s, secondRevision.mainOn (hostOf noColon) 7 bindActivePins default =
        .program (.running config s) := by
  intro default config
  have hpins := fun lines hlines => default_pins_run_iff lines hlines (hostOf lines) rfl bindActivePins
    default { activepins := some "default" } defaultPins .PullUpState_Off "default" rfl readable_default rfl
    (by decide) secondRevision 7
  refine ⟨?_, ?_, ?_⟩
  · exact (hpins overvolted (List.forall_iff_forall_mem.mp (by decide))).2 _ ready_overvolted
      (.inl (by decide +kernel))
  · refine (hpins modelTwo (List.forall_iff_forall_mem.mp (by decide))).1.mpr ⟨_, ready_modelTwo, ?_⟩
    rintro (hends | hends)
    · exact absurd hends (by decide +kernel)
    · exact absurd hends (by decide +kernel)
  · intro hruns
    obtain ⟨line, hready, -⟩ := (hpins noColon (List.forall_iff_forall_mem.mp (by decide))).1.mp hruns
    exact not_ready_noColon line hready

end PulseCounter
