import PulseCounter.Verify.System

/-!
# Columns and pins

The header shows the configured pins in order and a line of counts shows the counts of the channels in
order. Channel `k` is the `k`-th configured pin, so column `k` of both is about the same pin
(`columns_line_up`). What a column shows is read back from the text: the numbers of a line stay apart
however wide they get. Counts are written as signed words, so a status file gives them back as long as
their top bits are clear (`status_file_reads_back_iff`).
-/

namespace PulseCounter

/-- `%d` shows a word modulo `2 ^ 32`. -/
theorem asInt_emod (x : UInt32) : asInt x % 2 ^ 32 = x.toNat := by
  have hmod : asInt x = Int.bmod x.toNat (2 ^ 32) := BitVec.toInt_eq_toNat_bmod x.toBitVec
  have hlt := x.toNat_lt
  have hemod : (Int.bmod x.toNat (2 ^ 32)) % ((2 ^ 32 : Nat) : Int) = x.toNat % ((2 ^ 32 : Nat) : Int) :=
    Int.bmod_emod
  rw [hmod]
  omega

namespace DisplayData

variable {d : DisplayData} {stream : Stream}

theorem header_append (h : d.hidden stream = false) (text : List Char) :
    d.header stream ++ text = "Signal Counts for Each Pin".toList ++
      '\n' :: ((d.m_config.activePins.map Int32.toInt).flatMap (Decimal.field 6) ++ '\n' :: text) := by
  unfold header
  rw [h, List.flatMap_map]
  simp

theorem channels_eq (h : d.hidden stream = false) (counts : List UInt32) :
    d.channels counts stream = (counts.map asInt).flatMap (Decimal.field 6) ++ ['\r'] := by
  unfold channels
  rw [h, List.flatMap_map]
  rfl

/-- A text that starts with a header shows the pins in its second line. -/
theorem columns_header (h : d.hidden stream = false) (text : List Char) :
    Decimal.columns (d.header stream ++ text) 1 =
      some ((d.m_config.activePins.map Int32.toInt).map some) := by
  have hread : Decimal.readFields
      ((d.m_config.activePins.map Int32.toInt).flatMap (Decimal.field 6) ++ []) = _ :=
    Decimal.readFields_fields_append 6 _ rfl
  rw [List.append_nil] at hread
  unfold Decimal.columns
  rw [header_append h, Decimal.lines_append_newline (by decide),
    Decimal.lines_append_newline (Decimal.newline_not_mem_fields 6 _)]
  exact congrArg some hread

theorem newline_not_mem_channels (h : d.hidden stream = false) (counts : List UInt32) :
    '\n' ∉ d.channels counts stream := by
  rw [channels_eq h, List.mem_append]
  rintro (hfield | hreturn)
  · exact Decimal.newline_not_mem_fields 6 _ hfield
  · exact absurd hreturn (by decide)

theorem readFields_channels (h : d.hidden stream = false) (counts : List UInt32) :
    Decimal.readFields (d.channels counts stream) = (counts.map asInt).map some := by
  rw [channels_eq h]
  exact Decimal.readFields_fields_append 6 _ rfl

/-- A line of counts shows the counts. -/
theorem columns_channels (h : d.hidden stream = false) (counts : List UInt32) :
    Decimal.columns (d.channels counts stream) 0 = some ((counts.map asInt).map some) := by
  unfold Decimal.columns
  rw [Decimal.lines_of_not_mem (newline_not_mem_channels h counts)]
  exact congrArg some (readFields_channels h counts)

theorem hidden_file (d : DisplayData) : d.hidden .file = false := by
  unfold hidden
  simp

/-- A summary starts on a new line. -/
theorem printStatics_eq_cons (p : Platform) (st : Statics) :
    ∃ rest, printStatics p st = '\n' :: rest := by
  have htitle : "\nStatics -\n".toList = '\n' :: "Statics -\n".toList := by decide
  unfold printStatics
  simp only [List.append_assoc, htitle, List.cons_append]
  exact ⟨_, rfl⟩

/-- The status file shows the pins in its second line and the counts in its third. -/
theorem columns_dumpDataToFile {p : Platform} {counts : List UInt32} {duration : UInt32}
    {text : List Char} (h : dumpDataToFile d p counts duration = .ok text) :
    Decimal.columns text 1 = some ((d.m_config.activePins.map Int32.toInt).map some) ∧
      Decimal.columns text 2 = some ((counts.map asInt).map some) := by
  have hfile := d.hidden_file
  unfold dumpDataToFile summary at h
  rw [hfile] at h
  cases hst : statics p counts duration with
  | error e =>
    rw [hst] at h
    cases h
  | ok st =>
    rw [hst] at h
    injection h with h
    obtain ⟨rest, hrest⟩ := printStatics_eq_cons p st
    rw [hrest, List.append_assoc] at h
    subst h
    refine ⟨columns_header hfile _, ?_⟩
    unfold Decimal.columns
    rw [header_append hfile, Decimal.lines_append_newline (by decide),
      Decimal.lines_append_newline (Decimal.newline_not_mem_fields 6 _),
      Decimal.lines_append_newline (newline_not_mem_channels hfile counts)]
    exact congrArg some (readFields_channels hfile counts)

/-! ## The status file read back -/

/-- `%d` shows a word as it is if its top bit is clear. -/
theorem asInt_eq_iff (x : UInt32) : asInt x = x.toNat ↔ x < 0x80000000 := by
  have hcond : asInt x = if 2 * x.toNat < 2 ^ 32 then (x.toNat : Int) else x.toNat - (2 ^ 32 : Nat) :=
    BitVec.toInt_eq_toNat_cond x.toBitVec
  have hlimit : (0x80000000 : UInt32).toNat = 2 ^ 31 := rfl
  rw [hcond, UInt32.lt_iff_toNat_lt, hlimit]
  split
  · omega
  · omega

theorem map_asInt_eq_iff (counts : List UInt32) :
    ((counts.map asInt).map some = counts.map fun c => some (c.toNat : Int)) ↔
      ∀ c ∈ counts, c < 0x80000000 := by
  induction counts with
  | nil => simp
  | cons c counts ih =>
    rw [List.map_cons, List.map_cons, List.map_cons, List.cons.injEq, ih, Option.some.injEq,
      asInt_eq_iff, List.forall_mem_cons]

/-- **The status file can be read back** when no count has its top bit set, and only then: the second
line always holds the pins, and the third the counts, each as a signed word. -/
theorem status_file_reads_back_iff (d : DisplayData) (p : Platform) (counts : List UInt32)
    (duration : UInt32) (hpins : d.m_config.activePins ≠ [])
    (hlen : counts.length = d.m_config.activePins.length) :
    ∃ text, dumpDataToFile d p counts duration = .ok text ∧
      (Decimal.columns text 1 = some (d.m_config.activePins.map fun pin => some pin.toInt) ∧
          Decimal.columns text 2 = some (counts.map fun c => some (c.toNat : Int)) ↔
        ∀ c ∈ counts, c < 0x80000000) := by
  have hcounts : counts ≠ [] := by
    rintro rfl
    exact hpins (List.length_eq_zero_iff.mp hlen.symm)
  obtain ⟨text, htext⟩ := dumpDataToFile_eq_ok d p hcounts duration
  obtain ⟨hheader, hchannels⟩ := columns_dumpDataToFile htext
  rw [List.map_map] at hheader
  refine ⟨text, htext, ?_⟩
  rw [hheader, hchannels, Option.some.injEq, Option.some.injEq, map_asInt_eq_iff]
  exact and_iff_right rfl

/-- Two pins, and a count wider than its field. -/
theorem status_file_reads_back_iff_wide :
    ∃ text, dumpDataToFile ⟨{ activePins := [11, 12] }, false⟩ .saturating [7, 2147483647] 1000 =
        .ok text ∧
      Decimal.columns text 1 = some [some 11, some 12] ∧
      Decimal.columns text 2 = some [some 7, some 2147483647] := by
  obtain ⟨text, htext, hread⟩ := status_file_reads_back_iff ⟨{ activePins := [11, 12] }, false⟩
    .saturating [7, 2147483647] 1000 (List.cons_ne_nil _ _) rfl
  exact ⟨text, htext, hread.mpr (List.forall_iff_forall_mem.mp (by decide))⟩

/-- A count with its top bit set is written with a minus sign. -/
theorem status_file_misreads :
    ¬∀ (d : DisplayData) (p : Platform) (counts : List UInt32) (duration : UInt32)
      (text : List Char), d.m_config.activePins ≠ [] →
      counts.length = d.m_config.activePins.length → dumpDataToFile d p counts duration = .ok text →
      Decimal.columns text 1 = some (d.m_config.activePins.map fun pin => some pin.toInt) ∧
        Decimal.columns text 2 = some (counts.map fun c => some (c.toNat : Int)) := by
  intro h
  obtain ⟨text, htext⟩ := dumpDataToFile_eq_ok ⟨{ activePins := [11] }, false⟩ .saturating
    (List.cons_ne_nil 0x80000000 []) 1000
  obtain ⟨-, hread⟩ := h ⟨{ activePins := [11] }, false⟩ .saturating [0x80000000] 1000 text
    (List.cons_ne_nil _ _) rfl htext
  rw [(columns_dumpDataToFile htext).2, Option.some.injEq, map_asInt_eq_iff] at hread
  exact absurd (hread 0x80000000 List.mem_cons_self) (by decide)

end DisplayData

namespace PulseCounterMain

/-- The columns that a call for a report shows: the counts, and in the status file the pins too. -/
def Emission.Shows (config : PulseCounterConfiguration) (cols : List Int) (e : Emission) : Prop :=
  match e.report with
  | .channels _ => config.statusonly = false → Decimal.columns e.text 0 = some (cols.map some)
  | .dumpDataToFile _ _ => e.opened = true →
    Decimal.columns e.text 1 = some ((config.activePins.map Int32.toInt).map some) ∧
      Decimal.columns e.text 2 = some (cols.map some)
  | .summary _ _ => True

theorem display_hidden {config : PulseCounterConfiguration} (h : config.statusonly = false)
    (stream : Stream) : (display config).hidden stream = false := by
  unfold DisplayData.hidden
  change (config.statusonly && _) = false
  rw [h, Bool.false_and]

/-- A call for a report that wrote its text shows its counts. -/
theorem Emission.shows {p : Platform} {config : PulseCounterConfiguration} {e : Emission}
    (htext : e.report.text (display config) p e.opened = .ok e.text) :
    e.Shows config (e.report.result.map asInt) := by
  obtain ⟨report, text, opened, point, elapsed, seen⟩ := e
  cases report with
  | channels result =>
    intro hvisible
    injection htext with htext
    simp only at htext
    rw [← htext]
    exact DisplayData.columns_channels (display_hidden hvisible .stdout) result
  | dumpDataToFile result duration =>
    intro hopened
    change opened = true at hopened
    subst hopened
    exact DisplayData.columns_dumpDataToFile htext
  | summary result duration => trivial

/-- **Report columns line up with pins.** A run on pins that are bits of the register word, with a
channel table that is empty at its start, starts, and in every state it reaches: the header shows the
pins in order, and every report shows, column by column, the number of rises of the pin's bit in the
words shown to the decoder so far, modulo `2 ^ 32`. A pin that is configured twice has equal columns. -/
theorem columns_line_up (p : Platform) (rpi : RPiInterface) (config : PulseCounterConfiguration)
    (cc : ConfiguredChannels) (hempty : cc.totalChannels = 0) (hrpi : cc.m_rpi = rpi)
    (hsetup : ¬rpi.wiringPiSetupPhys < 0) (hne : config.activePins ≠ [])
    (hrange : ∀ pin ∈ config.activePins, GpioBit (rpi.physPinToGpio pin)) :
    ∃ s₀, start rpi config cc = .ok (some s₀) ∧ ∀ s, (machine p rpi config).Reachable s₀ s →
      (config.statusonly = false → Decimal.columns s.header 1 =
        some ((config.activePins.map Int32.toInt).map some)) ∧
      ∀ e ∈ s.emitted, ∃ cols : List Int, e.Shows config cols ∧
        cols.length = config.activePins.length ∧
        (∀ (k : Nat) (pin : Int32), config.activePins[k]? = some pin → ∃ c, cols[k]? = some c ∧
          c % 2 ^ 32 = (Signal.rises (bit (rpi.physPinToGpio pin)) 0 (s.shown.take e.seen) : Int) %
            2 ^ 32) ∧
        ∀ j k : Nat, config.activePins[j]? = config.activePins[k]? → cols[j]? = cols[k]? := by
  have hgpios := ConfiguredChannels.gpios_addChannels_of_empty hempty config.activePins
  rw [← hrpi] at hrange
  obtain ⟨hn, hrange'⟩ := ConfiguredChannels.inRange_addChannels hempty hne hrange
  rw [hrpi] at hgpios
  obtain ⟨s₀, hstart, hinv, -⟩ := start_eq_ok p hsetup hn hrange'
  refine ⟨s₀, hstart, fun s hs => ?_⟩
  obtain ⟨hinv, -⟩ := hinv.reachable hn hrange' hs
  refine ⟨fun hvisible => ?_, fun e he => ?_⟩
  · have hheader := DisplayData.columns_header (display_hidden hvisible .stdout) []
    rw [List.append_nil] at hheader
    rw [hinv.header]
    exact hheader
  · obtain ⟨-, hresult, -, -, htext⟩ := hinv.emitted e he
    -- the columns are a function of the pin
    have hcols : e.report.result.map asInt = config.activePins.map fun pin =>
        asInt (UInt32.ofNat
          (Signal.rises (bit (rpi.physPinToGpio pin)) 0 (s.shown.take e.seen))) := by
      rw [hresult, countsAfter, hgpios, List.map_map, List.map_map]
      rfl
    refine ⟨_, Emission.shows htext, ?_, fun k pin hpin => ?_, fun j k hjk => ?_⟩
    · rw [hcols, List.length_map]
    · rw [hcols, List.getElem?_map, hpin]
      refine ⟨_, rfl, ?_⟩
      rw [asInt_emod, UInt32.toNat_ofNat', Int.natCast_emod]
      rfl
    · rw [hcols, List.getElem?_map, List.getElem?_map, hjk]

/-- One pin configured twice and another between, and the status file after a pulse of the first. -/
theorem columns_line_up_repeated :
    ∃ (s₀ s : System) (e : Emission) (cols : List Int),
      start (RPiInterfaceReal 7) { activePins := [11, 12, 11] } (.new (RPiInterfaceReal 7)) =
        .ok (some s₀) ∧
      (machine .saturating (RPiInterfaceReal 7) { activePins := [11, 12, 11] }).Reachable s₀ s ∧
      e ∈ s.emitted ∧ e.report = .dumpDataToFile [1, 0, 1] 1000 ∧ s.shown.take e.seen = [0x20000] ∧
      Decimal.columns e.text 1 = some [some 11, some 12, some 11] ∧
      Decimal.columns e.text 2 = some (cols.map some) ∧ cols.length = 3 ∧
      (∀ (k : Nat) (pin : Int32), [11, 12, 11][k]? = some pin → ∃ c, cols[k]? = some c ∧
        c % 2 ^ 32 = (Signal.rises (bit ((RPiInterfaceReal 7).physPinToGpio pin)) 0 [0x20000] : Int) %
          2 ^ 32) ∧
      cols[0]? = cols[2]? := by
  obtain ⟨s₀, s, hstart, hreach, hobserved⟩ := reachable_of_schedule .saturating (RPiInterfaceReal 7)
    { activePins := [11, 12, 11] } (.new (RPiInterfaceReal 7))
    [.readFirst 0, .testRunning, .readNext 0x20000, .wake 1000, .channels, .dumpDataToFile true]
    (fun s => s.emitted.map fun e => (e.report, e.opened, s.shown.take e.seen))
    [(.channels [1, 0, 1], false, [0x20000]), (.dumpDataToFile [1, 0, 1] 1000, true, [0x20000])]
    (by decide +kernel)
  obtain ⟨e, he, heq⟩ := List.mem_map.mp (hobserved ▸ List.mem_cons_of_mem _ List.mem_cons_self :
    (Report.dumpDataToFile [1, 0, 1] 1000, true, [0x20000]) ∈
      s.emitted.map fun e => (e.report, e.opened, s.shown.take e.seen))
  injection heq with hreport heq
  injection heq with hopened hseen
  obtain ⟨s₁, hstart₁, hcolumns⟩ := columns_line_up .saturating (RPiInterfaceReal 7)
    { activePins := [11, 12, 11] } (.new (RPiInterfaceReal 7)) (by decide) rfl (by decide)
    (by decide) (List.forall_iff_forall_mem.mp (by decide))
  rw [hstart] at hstart₁
  injection hstart₁ with hstart₁
  injection hstart₁ with hstart₁
  subst hstart₁
  obtain ⟨cols, hshows, hlength, hrises, hrepeated⟩ := (hcolumns s hreach).2 e he
  unfold Emission.Shows at hshows
  rw [hreport] at hshows
  rw [hseen] at hrises
  obtain ⟨hpins, hcounts⟩ := hshows hopened
  exact ⟨s₀, s, e, cols, hstart, hreach, he, hreport, hseen, hpins, hcounts, hlength, hrises,
    hrepeated 0 2 rfl⟩

end PulseCounterMain

end PulseCounter
