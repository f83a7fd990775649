import PulseCounter.Lib.Edges
import PulseCounter.Lib.Loops
import PulseCounter.Lib.Machine
import PulseCounter.Lib.Refinement
import PulseCounter.Lib.Decimal
import PulseCounter.Lib.Deadline
import PulseCounter.Lib.StringStream
import PulseCounter.Lib.Sampling
import PulseCounter.Lib.Terminal
import PulseCounter.Lib.Strobe
import PulseCounter.Lib.Fgets
import PulseCounter.RPiInterface
import PulseCounter.GpioWord
import PulseCounter.ConfiguredChannels
import PulseCounter.DecodeGpioRegsAndAccumulate
import PulseCounter.AccumulateMutex
import PulseCounter.PollAndAccumulateRunner
import PulseCounter.PulseCounterConfiguration
import PulseCounter.ProcessCommandLine
import PulseCounter.DisplayData
import PulseCounter.PulseCounterMain
import PulseCounter.PulseCounterThreads
import PulseCounter.MainProgram
import PulseCounter.WiringPi
import PulseCounter.BoardRevision
import PulseCounter.SetUp
import PulseCounter.Verify.Decoder
import PulseCounter.Verify.PollLoop
import PulseCounter.Verify.Snapshots
import PulseCounter.Verify.StartUp
import PulseCounter.Verify.Timing
import PulseCounter.Verify.System
import PulseCounter.Verify.Reports
import PulseCounter.Verify.PendingReport
import PulseCounter.Verify.Threads
import PulseCounter.Verify.Interleavings
import PulseCounter.Verify.Progress
import PulseCounter.Verify.ReportHistory
import PulseCounter.Verify.ReportTimes
import PulseCounter.Verify.Independence
import PulseCounter.Verify.Columns
import PulseCounter.Verify.StatusFile
import PulseCounter.Verify.Console
import PulseCounter.Verify.Pulses
import PulseCounter.Verify.CommandLine
import PulseCounter.Verify.OptionValues
import PulseCounter.Verify.Acceptance
import PulseCounter.Verify.Summary
import PulseCounter.Verify.Channels
import PulseCounter.Verify.EmulatedClock
import PulseCounter.Verify.EmulatedBoard
import PulseCounter.Verify.Resistors
import PulseCounter.Verify.MainProgram
import PulseCounter.Verify.BoardRevision
import PulseCounter.Verify.SetUp
