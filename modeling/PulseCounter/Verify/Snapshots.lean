import PulseCounter.Lib.Refinement
import PulseCounter.AccumulateMutex
import PulseCounter.Verify.Decoder

/-!
# Snapshots

Whatever the interleaving of the polling thread in `process` with the main thread in `getResult`, the
vectors that `getResult` returns are the counts after whole prefixes of the words, each prefix at
least as long as the one before (`snapshots_never_torn`).

The invariant reads the shared vectors by where the two threads stand (`PollerAt`, `MainAt`). The
thread inside its critical section owns the mutex, so at most one of the two is inside; while the main
thread copies, the polling thread is between two calls and the counts are those of a whole prefix.
The local vector belongs to the main thread alone, which is why it may be cleared before the lock is
taken.
-/

namespace PulseCounter.DecoderThreads

open DecodeGpioRegsAndAccumulate

/-- The counts and levels while the polling thread stands at `pc`. -/
def PollerAt (cc : ConfiguredChannels) (words : List UInt32) (s : DecoderThreads) :
    ProcessPc → Prop
  | .returned =>
    s.m_accumulate_mutex ≠ some .poller ∧ Saw cc (words.take s.processed) s.decoder
  | .inLoop word i _ =>
    s.m_accumulate_mutex = some .poller ∧ words[s.processed]? = some word ∧
      s.decoder.m_configured_channels = cc ∧
      Partway s.decoder (fun g => Signal.rises (bit g) 0 (words.take s.processed))
        (fun g => bit g ((words.take s.processed).getLastD 0)) word i

/-- The local vector while the main thread stands at `pc`. -/
def MainAt (s : DecoderThreads) : GetResultPc → Prop
  | .returned => s.m_accumulate_mutex ≠ some .main
  | .cleared =>
    s.m_accumulate_mutex ≠ some .main ∧ s.decoder.m_gpioPinAccumulationLocal = []
  | .copying i =>
    s.m_accumulate_mutex = some .main ∧
      s.decoder.m_gpioPinAccumulationLocal = s.decoder.m_gpioPinAccumulation.take i

/-- The vectors are the counts after prefixes of at most `n` words, in order. -/
def PrefixCounts (cc : ConfiguredChannels) (words : List UInt32) (n : Nat)
    (results : List (List UInt32)) : Prop :=
  ∃ ks : List Nat, ks.Pairwise (· ≤ ·) ∧ (∀ k ∈ ks, k ≤ n) ∧
    results = ks.map fun k => countsAfter cc (words.take k)

structure Inv (cc : ConfiguredChannels) (words : List UInt32) (s : DecoderThreads) : Prop where
  poller : PollerAt cc words s s.poller
  main : MainAt s s.main
  results : PrefixCounts cc words s.processed s.results

section PrefixCounts

variable {cc : ConfiguredChannels} {words : List UInt32} {n : Nat} {results : List (List UInt32)}

theorem PrefixCounts.succ (h : PrefixCounts cc words n results) :
    PrefixCounts cc words (n + 1) results := by
  obtain ⟨ks, hsorted, hle, heq⟩ := h
  exact ⟨ks, hsorted, fun k hk => Nat.le_succ_of_le (hle k hk), heq⟩

theorem PrefixCounts.concat (h : PrefixCounts cc words n results) :
    PrefixCounts cc words n (results ++ [countsAfter cc (words.take n)]) := by
  obtain ⟨ks, hsorted, hle, rfl⟩ := h
  refine ⟨ks ++ [n], ?_, ?_, ?_⟩
  · rw [List.pairwise_append]
    refine ⟨hsorted, List.pairwise_singleton _ _, fun k hk m hm => ?_⟩
    rw [List.mem_singleton.mp hm]
    exact hle k hk
  · intro k hk
    rcases List.mem_append.mp hk with hk | hk
    · exact hle k hk
    · exact Nat.le_of_eq (List.mem_singleton.mp hk)
  · rw [List.map_append, List.map_singleton]

end PrefixCounts

section Interleaving

variable {cc : ConfiguredChannels} {words : List UInt32} {s : DecoderThreads}

/-- The polling thread is between two calls while it does not own the mutex. -/
theorem PollerAt.saw {pc : ProcessPc} (h : PollerAt cc words s pc)
    (howner : s.m_accumulate_mutex ≠ some .poller) :
    pc = .returned ∧ Saw cc (words.take s.processed) s.decoder := by
  cases pc with
  | returned => exact ⟨rfl, h.2⟩
  | inLoop word i changesDetected => exact absurd h.1 howner

/-- A main thread that does not own the mutex is where it is whatever becomes of the counts, as long
as it is not given the mutex and the local vector is left alone. -/
theorem MainAt.frame {pc : GetResultPc} (h : MainAt s pc)
    (howner : s.m_accumulate_mutex ≠ some .main) {t : DecoderThreads}
    (howner' : t.m_accumulate_mutex ≠ some .main)
    (hlocal : t.decoder.m_gpioPinAccumulationLocal = s.decoder.m_gpioPinAccumulationLocal) :
    MainAt t pc := by
  cases pc with
  | returned => exact howner'
  | cleared => exact ⟨howner', hlocal.trans h.2⟩
  | copying i => exact absurd h.1 howner

/-- The polling thread does not notice what the main thread does to the local vector. -/
theorem PollerAt.of_local {pc : ProcessPc} (h : PollerAt cc words s pc) (v : List UInt32)
    (main : GetResultPc) :
    PollerAt cc words { s with
      decoder := { s.decoder with m_gpioPinAccumulationLocal := v }
      main := main } pc := by
  cases pc with
  | returned => exact ⟨h.1, h.2.of_local v⟩
  | inLoop word i changesDetected =>
    obtain ⟨howner, hword, hcc, hpart⟩ := h
    exact ⟨howner, hword, hcc, hpart.accumulation, hpart.last⟩

/-- **One small step** of either thread does not fail and keeps the invariant. -/
theorem inv_step (hrange : cc.InRange) (h : Inv cc words s) {a : Action}
    {r : Except Fault DecoderThreads} (hs : step words a s = some r) :
    ∃ t, r = .ok t ∧ Inv cc words t := by
  obtain ⟨hpoller, hmain, hresults⟩ := h
  cases a with
  | lockProcess =>
    simp only [step] at hs
    split at hs
    · next word hpc hfree hword =>
      injection hs with hs
      rw [hpc] at hpoller
      obtain ⟨-, hsaw⟩ := hpoller
      refine ⟨_, hs.symm, ⟨rfl, hword, hsaw.channels, hsaw.tallies.partway word⟩, ?_, hresults⟩
      exact hmain.frame (by rw [hfree]; simp) (by simp) rfl
    · cases hs
  | processChannel =>
    simp only [step] at hs
    split at hs
    · next word i changesDetected hpc =>
      split at hs
      · next hi =>
        injection hs with hs
        rw [hpc] at hpoller
        obtain ⟨howner, hword, hcc, hpart⟩ := hpoller
        have hlen : i < s.decoder.m_configured_channels.gpios.length := by
          rw [ConfiguredChannels.length_gpios]
          exact hi
        obtain ⟨d, hrun, hcc', hlocal, hpart'⟩ :=
          processChannel_partway (by rw [hcc]; exact hrange) (List.getElem?_eq_getElem hlen) hpart
            changesDetected
        rw [hrun] at hs
        refine ⟨_, hs.symm, ⟨howner, hword, hcc'.trans hcc, hpart'⟩, ?_, hresults⟩
        exact hmain.frame (by rw [howner]; simp) (by rw [howner]; simp) hlocal
      · cases hs
    · cases hs
  | unlockProcess =>
    simp only [step] at hs
    split at hs
    · next word i changesDetected hpc =>
      split at hs
      · cases hs
      · next hi =>
        injection hs with hs
        rw [hpc] at hpoller
        obtain ⟨howner, hword, hcc, hpart⟩ := hpoller
        have htake : words.take (s.processed + 1) = words.take s.processed ++ [word] := by
          rw [List.take_add_one, hword]
          rfl
        have hsaw : Saw cc (words.take (s.processed + 1)) s.decoder := by
          rw [htake]
          exact .concat hcc (hpart.tallies (Nat.le_of_not_lt hi))
        refine ⟨_, hs.symm, ⟨by simp, hsaw⟩, ?_, hresults.succ⟩
        exact hmain.frame (by rw [howner]; simp) (by simp) rfl
    · cases hs
  | clearLocal =>
    simp only [step] at hs
    split at hs
    · next hpc =>
      injection hs with hs
      rw [hpc] at hmain
      exact ⟨_, hs.symm, hpoller.of_local [] .cleared, ⟨hmain, rfl⟩, hresults⟩
    · cases hs
  | lockGetResult =>
    simp only [step] at hs
    split at hs
    · next hpc hfree =>
      injection hs with hs
      rw [hpc] at hmain
      obtain ⟨hpc', hsaw⟩ := hpoller.saw (by rw [hfree]; simp)
      refine ⟨_, hs.symm, ?_, ⟨rfl, hmain.2⟩, hresults⟩
      change PollerAt cc words _ s.poller
      rw [hpc']
      exact ⟨by simp, hsaw⟩
    · cases hs
  | copyChannel =>
    simp only [step] at hs
    split at hs
    · next i hpc =>
      split at hs
      · next hi =>
        injection hs with hs
        rw [hpc] at hmain
        obtain ⟨howner, hlocal⟩ := hmain
        rw [copyChannel_eq (List.getElem?_eq_getElem hi)] at hs
        refine ⟨_, hs.symm, hpoller.of_local _ _, ⟨howner, ?_⟩, hresults⟩
        change s.decoder.m_gpioPinAccumulationLocal ++ _ = s.decoder.m_gpioPinAccumulation.take _
        rw [hlocal, List.take_add_one, List.getElem?_eq_getElem hi]
        rfl
      · cases hs
    · cases hs
  | unlockGetResult =>
    simp only [step] at hs
    split at hs
    · next i hpc =>
      split at hs
      · cases hs
      · next hi =>
        injection hs with hs
        rw [hpc] at hmain
        obtain ⟨howner, hlocal⟩ := hmain
        obtain ⟨hpc', hsaw⟩ := hpoller.saw (by rw [howner]; simp)
        rw [List.take_of_length_le (Nat.le_of_not_lt hi), hsaw.accumulation] at hlocal
        refine ⟨_, hs.symm, ?_, by simp [MainAt], ?_⟩
        · change PollerAt cc words _ s.poller
          rw [hpc']
          exact ⟨by simp, hsaw⟩
        · change PrefixCounts cc words s.processed (s.results ++ _)
          rw [hlocal]
          exact hresults.concat
    · cases hs

/-- Two threads that are just starting. -/
theorem inv_start {d : DecodeGpioRegsAndAccumulate} (hnew : new cc = .ok d) :
    Inv cc words (start d) := by
  refine ⟨⟨by simp [start], ?_⟩, by simp [start, MainAt], [], List.Pairwise.nil, ?_, rfl⟩
  · exact Saw.of_new hnew
  · intro k hk
    cases hk

/-- **Snapshots are never torn and never go back.** In every interleaving no step fails, and the
vectors returned by `getResult` so far are, in order, the counts that the calls of `process` on whole
prefixes of the words leave behind, for prefixes of nondecreasing length; each has an entry for every
channel. -/
theorem snapshots_never_torn (cc : ConfiguredChannels) (hn : cc.totalChannels ≠ 0)
    (hrange : cc.InRange) (words : List UInt32) :
    ∃ d, new cc = .ok d ∧ ∀ s, (machine words).Reachable (start d) s → (machine words).Sound s ∧
      ∃ ks : List Nat, ks.Pairwise (· ≤ ·) ∧ (∀ k ∈ ks, k ≤ s.processed) ∧
        List.Forall₂ (fun k result => result.length = cc.totalChannels ∧
          ∃ e flags, d.processAll (words.take k) = .ok (e, flags) ∧
            e.m_gpioPinAccumulation = result) ks s.results := by
  obtain ⟨d, hnew⟩ := new_eq_ok hn
  refine ⟨d, hnew, fun s hs => ?_⟩
  obtain ⟨⟨-, -, ks, hsorted, hle, hresults⟩, hsound⟩ :=
    hs.safe (Inv cc words) (inv_start hnew) fun a u r hu hr => inv_step hrange hu hr
  refine ⟨hsound, ks, hsorted, hle, ?_⟩
  rw [hresults, List.forall₂_map_right_iff, List.forall₂_same]
  intro k _
  obtain ⟨e, hrun, hsaw⟩ := (Saw.of_new hnew).processAll hrange (words.take k)
  exact ⟨length_countsAfter cc _, e, _, hrun, hsaw.accumulation⟩

/-- A call of `process` on two channels, during which a call of `getResult` starts and waits for the
lock. -/
def Action.overlapping : List Action :=
  [.lockProcess, .processChannel, .clearLocal, .processChannel, .unlockProcess, .lockGetResult,
    .copyChannel, .copyChannel, .unlockGetResult]

/-- A call of `getResult` on two channels with nothing in between. -/
def Action.snapshot : List Action :=
  [.clearLocal, .lockGetResult, .copyChannel, .copyChannel, .unlockGetResult]

/-- Two channels and two words, with three snapshots. -/
theorem snapshots_never_torn_two :
    let cc := (ConfiguredChannels.new (RPiInterfaceEmulated 0)).addChannels [11, 12]
    let words := [0x20000, 0x60000]
    ∃ d s, new cc = .ok d ∧
      (machine words).exec (Action.overlapping ++ Action.snapshot ++ Action.overlapping) (start d) =
        some (.ok s) ∧
      s.results = [[1, 0], [1, 0], [1, 1]] ∧
      ∃ ks : List Nat, ks.Pairwise (· ≤ ·) ∧ (∀ k ∈ ks, k ≤ s.processed) ∧
        List.Forall₂ (fun k result => result.length = cc.totalChannels ∧
          ∃ e flags, d.processAll (words.take k) = .ok (e, flags) ∧
            e.m_gpioPinAccumulation = result) ks s.results := by
  intro cc words
  obtain ⟨d, hnew, hsnapshots⟩ := snapshots_never_torn cc (by decide) (by decide) words
  have hrun : ((new cc).toOption.bind fun d => (machine words).exec
      (Action.overlapping ++ Action.snapshot ++ Action.overlapping) (start d)).map
        (Except.map results) = some (.ok [[1, 0], [1, 0], [1, 1]]) := by decide +kernel
  rw [hnew] at hrun
  obtain ⟨s, hexec, hresults⟩ := Machine.exec_of_observed hrun
  obtain ⟨-, hprefixes⟩ := hsnapshots s (.of_exec hexec)
  exact ⟨d, s, hnew, hexec, hresults, hprefixes⟩

end Interleaving

end PulseCounter.DecoderThreads
