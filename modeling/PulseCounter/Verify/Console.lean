import PulseCounter.Verify.StatusFile
import PulseCounter.Lib.Terminal

/-!
# What the console shows

Without `--debug` standard output has no log records in it, and the terminal is one that shows standard
output alone and that is wide enough for its lines. The lines of counts end in a carriage return and not in a
newline, so each is written over the one before it. Since no count goes down, no line is shorter than the one
it hides: below the pins the terminal shows the last line of counts and nothing else, and at the end this line
stays where it is, above the summary (`console_shows`). With the status-only option nothing follows the
announcement.
-/

namespace PulseCounter.PulseCounterMain

open Terminal

variable {p : Platform} {rpi : RPiInterface} {config : PulseCounterConfiguration}
  {cc : ConfiguredChannels} {s s₀ t : System}

/-! ## Lines -/

def countsLine (counts : List UInt32) : List Char := counts.flatMap fun c => Decimal.field 6 c.toNat

/-- The lines above the counts. -/
def titleLines (config : PulseCounterConfiguration) : List (List Char) :=
  ["Configured with multi thread display".toList,
    if config.duration = 0 then "sample forever".toList
    else "sample for ".toList ++ Decimal.showInt (asInt config.duration) ++ " seconds".toList,
    "Signal Counts for Each Pin".toList,
    config.activePins.flatMap fun pin => Decimal.field 6 pin.toInt]

/-- The screen of a terminal that shows standard output and nothing else. -/
def System.screen (config : PulseCounterConfiguration) (s : System) : Option Screen :=
  (s.console config).map (write .blank)

theorem System.console_eq (hdebug : config.showDebug = false) (s : System) : s.console config =
    some (announcement config ++ s.header ++ s.emitted.flatMap Emission.console) := by
  unfold System.console
  rw [hdebug, if_neg Bool.false_ne_true]

theorem System.screen_eq (hdebug : config.showDebug = false) (s : System) : s.screen config =
    some (write .blank (announcement config ++ s.header ++ s.emitted.flatMap Emission.console)) := by
  unfold System.screen
  rw [s.console_eq hdebug, Option.map_some]

theorem plain_fields {α : Type*} (f : α → Int) (l : List α) :
    Plain (l.flatMap fun a => Decimal.field 6 (f a)) := by
  intro c hc
  rw [← List.flatMap_map] at hc
  rcases Decimal.mem_fields hc with rfl | rfl | hdigit
  · decide
  · decide
  · constructor
    · rintro rfl
      exact absurd hdigit (by decide)
    · rintro rfl
      exact absurd hdigit (by decide)

theorem length_countsLine_le {counts counts' : List UInt32} (h : List.Forall₂ (· ≤ ·) counts counts') :
    (countsLine counts).length ≤ (countsLine counts').length := by
  induction h with
  | nil => exact Nat.le_refl _
  | cons hle _ ih =>
    unfold countsLine at ih ⊢
    rw [List.flatMap_cons, List.flatMap_cons, List.length_append, List.length_append]
    exact Nat.add_le_add (Decimal.length_field_le 6 (UInt32.le_iff_toNat_le.mp hle)) ih

theorem plain_titleLines (config : PulseCounterConfiguration) :
    ∀ l ∈ titleLines config, Plain l := by
  have hnumber : Plain (Decimal.showInt (asInt config.duration)) := by
    intro c hc
    rcases Decimal.mem_showInt hc with rfl | hdigit
    · decide
    · constructor
      · rintro rfl
        exact absurd hdigit (by decide)
      · rintro rfl
        exact absurd hdigit (by decide)
  have happend : ∀ {l m : List Char}, Plain l → Plain m → Plain (l ++ m) := by
    intro l m hl hm c hc
    rcases List.mem_append.mp hc with hc | hc
    · exact hl c hc
    · exact hm c hc
  unfold titleLines
  simp only [List.forall_mem_cons]
  refine ⟨by decide, ?_, by decide, plain_fields Int32.toInt _, by simp⟩
  split
  · decide
  · exact happend (happend (by decide) hnumber) (by decide)

/-- Announcement and header. -/
theorem write_titleLines (h : config.statusonly = false) (text : List Char) :
    write .blank (announcement config ++ (display config).header .stdout ++ text) =
      write ⟨titleLines config, [], []⟩ text := by
  have hconfigured : "Configured with multi thread display\n".toList =
      "Configured with multi thread display".toList ++ ['\n'] := by decide
  have hforever : "sample forever\n".toList = "sample forever".toList ++ ['\n'] := by decide
  have hseconds : " seconds\n".toList = " seconds".toList ++ ['\n'] := by decide
  have htitle : announcement config ++ (display config).header .stdout =
      (titleLines config).flatMap fun l => l ++ ['\n'] := by
    rw [← List.append_nil (DisplayData.header _ _), DisplayData.header_append (display_hidden h .stdout)]
    unfold announcement titleLines
    rw [List.flatMap_map, hconfigured, hforever, hseconds]
    split
    · simp only [display, List.flatMap_cons, List.flatMap_nil, List.append_assoc, List.append_nil]
      rfl
    · simp only [display, List.flatMap_cons, List.flatMap_nil, List.append_assoc, List.append_nil]
      rfl
  rw [htitle, write_append]
  exact congrArg (write · text) (write_lines [] _ (plain_titleLines config))

/-! ## Reports -/

def Report.channels? : Report → Option (List UInt32)
  | .channels result => some result
  | .dumpDataToFile _ _ | .summary _ _ => none

def Report.isSummary : Report → Bool
  | .summary _ _ => true
  | .channels _ | .dumpDataToFile _ _ => false

theorem Report.result_of_channels? {report : Report} {counts : List UInt32}
    (h : report.channels? = some counts) : report.result = counts := by
  cases report with
  | channels result =>
    injection h
  | dumpDataToFile result duration | summary result duration => cases h

/-- The counts of the lines of counts. -/
def channelLines (emitted : List Emission) : List (List UInt32) :=
  emitted.filterMap fun e => e.report.channels?

/-- The last line of counts. -/
def lastLine (emitted : List Emission) : List Char :=
  ((channelLines emitted).map countsLine).getLastD []

theorem console_of_clear (hvisible : config.statusonly = false) {e : Emission}
    (htext : e.report.text (display config) p e.opened = .ok e.text)
    (hclear : ∀ c ∈ e.report.result, c < 0x80000000) (hsummary : e.report.isSummary = false) :
    e.console = (e.report.channels?.toList.map countsLine).flatMap fun l => l ++ ['\r'] := by
  obtain ⟨report, text, opened, point, elapsed, seen⟩ := e
  cases report with
  | dumpDataToFile result duration => rfl
  | summary result duration => cases hsummary
  | channels result =>
    injection htext with htext
    have hasInt : result.map asInt = result.map fun c => (c.toNat : Int) :=
      List.map_congr_left fun c hc => (DisplayData.asInt_eq_iff c).mpr (hclear c hc)
    simp only [Emission.console, Report.channels?, Option.toList_some, List.map_cons, List.map_nil,
      List.flatMap_cons, List.flatMap_nil, List.append_nil]
    simp only at htext
    rw [← htext, DisplayData.channels_eq (display_hidden hvisible .stdout), hasInt, List.flatMap_map]
    rfl

theorem console_of_summary (hvisible : config.statusonly = false) {e : Emission}
    (htext : e.report.text (display config) p e.opened = .ok e.text)
    (hsummary : e.report.isSummary = true) :
    e.report.channels? = none ∧ ∃ rest, e.console = '\n' :: rest := by
  obtain ⟨report, text, opened, point, elapsed, seen⟩ := e
  cases report with
  | channels result | dumpDataToFile result duration => cases hsummary
  | summary result duration =>
    refine ⟨rfl, ?_⟩
    change (display config).summary p result duration .stdout = .ok text at htext
    unfold DisplayData.summary at htext
    rw [display_hidden hvisible, if_neg Bool.false_ne_true] at htext
    cases hst : DisplayData.statics p result duration with
    | error f =>
      rw [hst] at htext
      cases htext
    | ok st =>
      rw [hst] at htext
      injection htext with htext
      obtain ⟨rest, hrest⟩ := DisplayData.printStatics_eq_cons p st
      exact ⟨rest, htext.symm.trans hrest⟩

theorem console_of_hidden (hhidden : (display config).hidden .stdout = true) {e : Emission}
    (htext : e.report.text (display config) p e.opened = .ok e.text) : e.console = [] := by
  obtain ⟨report, text, opened, point, elapsed, seen⟩ := e
  cases report with
  | dumpDataToFile result duration => rfl
  | channels result =>
    change Except.ok ((display config).channels result .stdout) = Except.ok text at htext
    unfold DisplayData.channels at htext
    rw [if_pos hhidden] at htext
    injection htext with htext
    exact htext.symm
  | summary result duration =>
    change (display config).summary p result duration .stdout = .ok text at htext
    unfold DisplayData.summary at htext
    rw [if_pos hhidden] at htext
    injection htext with htext
    exact htext.symm

/-- **Lines of counts over one another.** -/
theorem write_reports (hvisible : config.statusonly = false) {emitted : List Emission}
    (hwritten : ∀ e ∈ emitted, e.report.text (display config) p e.opened = .ok e.text)
    (hclear : ∀ e ∈ emitted, ∀ c ∈ e.report.result, c < 0x80000000)
    (hsummary : ∀ e ∈ emitted, e.report.isSummary = false)
    (hgrow : emitted.Pairwise fun e e' => List.Forall₂ (· ≤ ·) e.report.result e'.report.result)
    (above : List (List Char)) :
    write ⟨above, [], []⟩ (emitted.flatMap Emission.console) = ⟨above, [], lastLine emitted⟩ := by
  have hconsole : emitted.flatMap Emission.console =
      ((channelLines emitted).map countsLine).flatMap fun l => l ++ ['\r'] := by
    clear hgrow
    induction emitted with
    | nil => rfl
    | cons e emitted ih =>
      rw [List.forall_mem_cons] at hwritten hclear hsummary
      rw [List.flatMap_cons, ih hwritten.2 hclear.2 hsummary.2,
        console_of_clear hvisible hwritten.1 hclear.1 hsummary.1, ← List.flatMap_append,
        ← List.map_append]
      unfold channelLines
      rw [List.filterMap_cons]
      cases e.report.channels? <;> rfl
  have hchain : ([] :: (channelLines emitted).map countsLine).IsChain
      fun l l' => l.length ≤ l'.length := by
    refine List.isChain_cons.mpr ⟨fun l _ => Nat.zero_le _, ?_⟩
    refine List.Pairwise.isChain (List.pairwise_map.mpr ?_)
    refine List.pairwise_filterMap.mpr (hgrow.imp fun {e e'} hle counts hcounts counts' hcounts' => ?_)
    rw [← Report.result_of_channels? hcounts, ← Report.result_of_channels? hcounts']
    exact length_countsLine_le hle
  rw [hconsole, write_over above [] _ ?_ hchain]
  · rfl
  · intro l hl
    obtain ⟨counts, -, rfl⟩ := List.mem_map.mp hl
    exact plain_fields (fun c : UInt32 => (c.toNat : Int)) counts

/-- By where the main thread stands: the summary comes last, and after a line of counts. -/
structure SummaryLast (s : System) : Prop where
  none : s.main ≠ .stopping → s.main ≠ .joining → s.main ≠ .finished →
    ∀ e ∈ s.emitted, e.report.isSummary = false
  line : s.main = .summing → channelLines s.emitted ≠ []
  last : s.main = .stopping ∨ s.main = .joining ∨ s.main = .finished →
    ∃ l e, s.emitted = l ++ [e] ∧ channelLines l ≠ [] ∧ ∀ e ∈ l, e.report.isSummary = false

namespace SummaryLast

/-- A report that is not the summary. -/
theorem reported (h : SummaryLast s) (hmain : s.main ≠ .stopping ∧ s.main ≠ .joining ∧ s.main ≠ .finished)
    (opened : Bool) (report : Report) (text : List Char) (hreport : report.isSummary = false) :
    ∀ e ∈ (s.reported opened report text).emitted, e.report.isSummary = false := by
  intro e he
  rcases List.mem_append.mp he with he | he
  · exact h.none hmain.1 hmain.2.1 hmain.2.2 e he
  · obtain rfl := List.mem_singleton.mp he
    exact hreport

theorem steps (h : SummaryLast s) {a : Action} (hs : Steps p rpi config s a t) : SummaryLast t := by
  cases hs with
  | readFirst word hpc | testRunning last hpc | skip word last hpc hsame
  | process word last d changesDetected hpc hne hrun => exact ⟨h.none, h.line, h.last⟩
  | wake elapsed hpc hprocess hgap =>
    have hnone := h.none (by simp [hpc]) (by simp [hpc]) (by simp [hpc])
    unfold System.woken
    refine ⟨fun _ _ _ => hnone, fun hmain => ?_, fun hmain => ?_⟩
    · simp only at hmain
      split at hmain <;> cases hmain
    · simp only at hmain
      split at hmain <;> simp at hmain
  | channels text hpc htext =>
    have hnone := h.reported (by simp [hpc]) true (.channels s.counts) text rfl
    exact ⟨fun _ _ _ => hnone, by simp, by simp⟩
  | dumpDataToFile opened text hpc htext =>
    have hnone := h.reported (by simp [hpc]) opened (.dumpDataToFile s.counts s.loop.duration) text rfl
    exact ⟨fun _ _ _ => hnone, by simp, by simp⟩
  | lastChannels text hpc hprocess htext =>
    have hnone := h.reported (by simp [hpc]) true (.channels s.counts) text rfl
    refine ⟨fun _ _ _ => hnone, fun _ => ?_, by simp⟩
    change channelLines (s.emitted ++ [_]) ≠ []
    unfold channelLines
    rw [List.filterMap_append]
    exact List.append_ne_nil_of_right_ne_nil _ (List.cons_ne_nil _ _)
  | summary text hpc htext =>
    have hnone := h.none (by simp [hpc]) (by simp [hpc]) (by simp [hpc])
    exact ⟨by simp, by simp, fun _ => ⟨s.emitted, _, rfl, h.line hpc, hnone⟩⟩
  | stop hpc => exact ⟨by simp, by simp, fun _ => h.last (.inl hpc)⟩
  | join hpc hexited => exact ⟨by simp, by simp, fun _ => h.last (.inr (.inl hpc))⟩

end SummaryLast

/-- Reports displayed without a summary, or all the reports there will be. -/
theorem emitted_of_reachable (hstart : start rpi config cc = .ok (some s₀)) {x : Threads}
    (hx : (Threads.machine p rpi config).Reachable (.start s₀) x) :
    (∀ e ∈ x.system.emitted, e.report.isSummary = false) ∨
      ∃ l e, x.system.emitted = l ++ [e] ∧ channelLines l ≠ [] ∧
        ∀ e ∈ l, e.report.isSummary = false := by
  obtain ⟨-, hn, hrange⟩ := channels_of_start hstart
  obtain ⟨⟨t, ht, h⟩, -⟩ := follows_of_reachable hstart hx
  obtain ⟨hinv, hmain, hemitted⟩ := inv_of_start p hstart
  have hlast : Inv p rpi config (cc.addChannels config.activePins) t ∧ SummaryLast t := by
    refine ht.invariant (fun t => Inv p rpi config _ t ∧ SummaryLast t) ⟨hinv, ?_⟩ ?_
    · exact ⟨by simp [hemitted], by simp [hmain], by simp [hmain]⟩
    · rintro a u v ⟨hu, hlast⟩ hs
      obtain ⟨w, hw, hsteps⟩ := step_spec hn hrange hu.saw hs
      injection hw with hw
      subst hw
      exact ⟨hu.steps hrange hsteps, hlast.steps hsteps⟩
  have hmade : x.system.emitted <+: t.emitted := by
    rw [h.system]
    exact x.emitted_prefix
  by_cases hended : t.main = .stopping ∨ t.main = .joining ∨ t.main = .finished
  · obtain ⟨l, e, hl, hlines, hnone⟩ := hlast.2.last hended
    rw [hl] at hmade
    rcases List.prefix_concat_iff.mp hmade with hall | hless
    · exact .inr ⟨l, e, hall, hlines, hnone⟩
    · exact .inl fun e he => hnone e (List.IsPrefix.subset hless he)
  · rw [not_or, not_or] at hended
    exact .inl fun e he => hlast.2.none hended.1 hended.2.1 hended.2.2 e (List.IsPrefix.subset hmade he)

/-- **What the console shows** without `--debug`. In every interleaving, as long as the register has been
read less than `2 ^ 31` times: before the summary the screen shows the announcement, the pins and the last
line of counts, which hides the lines it was written over completely; once there is a summary, that line
stays below the pins. With the status-only option the announcement is all that is written. -/
theorem console_shows (p : Platform) (rpi : RPiInterface) (config : PulseCounterConfiguration)
    (cc : ConfiguredChannels) (s₀ : System) (hstart : start rpi config cc = .ok (some s₀))
    (hdebug : config.showDebug = false) (x : Threads)
    (hx : (Threads.machine p rpi config).Reachable (.start s₀) x)
    (hreads : x.system.reads.length < 2 ^ 31) :
    (config.statusonly = true → x.system.console config = some (announcement config)) ∧
    (config.statusonly = false →
      (∀ e ∈ x.system.emitted, e.report.isSummary = false) →
        x.system.screen config = some ⟨titleLines config, [], lastLine x.system.emitted⟩) ∧
    (config.statusonly = false →
      (∃ e ∈ x.system.emitted, e.report.isSummary = true) →
        channelLines x.system.emitted ≠ [] ∧ ∃ screen, x.system.screen config = some screen ∧
          titleLines config ++ [lastLine x.system.emitted] <+: screen.above) := by
  obtain ⟨-, -, ks, hks, -⟩ := history_of_reachable hstart (.refl _ _) hx
  have hwritten := fun e he => written_of_reachable (e := e) hstart hx he
  have hheader := header_of_reachable hstart hx
  have hgrow := hks.pairwise_le (Nat.lt_trans hreads (by decide))
  have hclear := fun e he => hks.clear (e := e) hreads he
  refine ⟨fun hhidden => ?_, fun hvisible hnone => ?_, fun hvisible hsummary => ?_⟩
  · have hstdout : (display config).hidden .stdout = true := by
      unfold DisplayData.hidden display
      rw [hhidden]
      rfl
    have hreports : x.system.emitted.flatMap Emission.console = [] :=
      List.flatMap_eq_nil_iff.mpr fun e he => console_of_hidden hstdout (hwritten e he)
    rw [System.console_eq hdebug, hheader, hreports, DisplayData.header, if_pos hstdout, List.append_nil,
      List.append_nil]
  · rw [System.screen_eq hdebug, hheader, write_titleLines hvisible]
    exact congrArg some (write_reports hvisible hwritten hclear hnone hgrow _)
  · rcases emitted_of_reachable hstart hx with hnone | ⟨l, e, hl, hlines, hnone⟩
    · obtain ⟨e, he, hsummary⟩ := hsummary
      rw [hnone e he] at hsummary
      cases hsummary
    · rw [hl] at hsummary hwritten hclear hgrow ⊢
      have hlast : e.report.isSummary = true := by
        obtain ⟨e', he', hsummary⟩ := hsummary
        rcases List.mem_append.mp he' with he' | he'
        · rw [hnone e' he'] at hsummary
          cases hsummary
        · exact List.mem_singleton.mp he' ▸ hsummary
      obtain ⟨hlines', rest, hrest⟩ := console_of_summary hvisible (hwritten e (by simp)) hlast
      have hsame : channelLines (l ++ [e]) = channelLines l := by
        unfold channelLines
        rw [List.filterMap_append, List.filterMap_cons, hlines', List.filterMap_nil, List.append_nil]
      refine ⟨hsame ▸ hlines, _, System.screen_eq hdebug _, ?_⟩
      rw [hheader, hl, write_titleLines hvisible, List.flatMap_append, write_append,
        write_reports hvisible (fun e' he' => hwritten e' (List.mem_append_left _ he'))
          (fun e' he' => hclear e' (List.mem_append_left _ he')) hnone (List.pairwise_append.mp hgrow).1,
        List.flatMap_singleton, hrest, write_cons, put_newline, lastLine, hsame]
      exact above_write ⟨titleLines config ++ [lastLine l], [], []⟩ rest

/-- A run of one second with a pulse in it; the count is still on the screen at the end. -/
theorem console_shows_second :
    ∃ (s₀ : System) (x : Threads),
      start (RPiInterfaceReal 7) { activePins := [11], duration := 1 } (.new (RPiInterfaceReal 7)) =
        .ok (some s₀) ∧
      x.system.main = .stopping ∧
      ∃ screen, x.system.screen { activePins := [11], duration := 1 } = some screen ∧
        ["Signal Counts for Each Pin".toList, "    11 ".toList, "     1 ".toList] <:+:
          screen.above := by
  obtain ⟨s₀, x, hstart, hexec, hobserved⟩ := threads_of_schedule .saturating (RPiInterfaceReal 7)
    { activePins := [11], duration := 1 } (.new (RPiInterfaceReal 7))
    ([.readFirst 0, .testRunning, .readNext 0x20000, .lockProcess, .processChannel, .unlockProcess] ++
      SmallAction.secondReport 1000 ++ SmallAction.report ++ SmallAction.report)
    (fun x => (x.system.main, x.system.reads.length, lastLine x.system.emitted,
      x.system.emitted.any fun e => e.report.isSummary))
    (.stopping, 2, "     1 ".toList, true) (by decide +kernel)
  injection hobserved with hmain hobserved
  injection hobserved with hreads hobserved
  injection hobserved with hline hsummary
  obtain ⟨-, screen, hscreen, hshown⟩ := (console_shows .saturating (RPiInterfaceReal 7)
    { activePins := [11], duration := 1 } _ s₀ hstart rfl x (.of_exec hexec)
    (by rw [hreads]; decide)).2.2 rfl (List.any_eq_true.mp hsummary)
  rw [hline] at hshown
  refine ⟨s₀, x, hstart, hmain, screen, hscreen, List.IsInfix.trans ?_ hshown.isInfix⟩
  exact ⟨["Configured with multi thread display".toList, "sample for 1 seconds".toList], [], by decide⟩

end PulseCounter.PulseCounterMain
