import KernelModules.Circular
import KernelModules.Fifo
import KernelModules.GoldDevice
import KernelModules.GoldRing
import KernelModules.GoldFifo
import KernelModules.GoldStress
import KernelModules.FixedDevice
import KernelModules.GoldWaits
import KernelModules.FixedMessages
import KernelModules.FixedWakeups
import KernelModules.KbdmonChrdev
import KernelModules.KbdmonEvents
import KernelModules.LeakyDevice
import KernelModules.LcdDriver
import KernelModules.KmallocVsVmalloc
import KernelModules.CharDeviceRegions
import KernelModules.CharDeviceErrors
import KernelModules.MutexDevice
import KernelModules.MutexOwner
import KernelModules.MutexSessions
import KernelModules.Publication
import KernelModules.InitOrder
import KernelModules.ForkJoin
import KernelModules.CryptoChallenge
import KernelModules.CryptoFreeze
import KernelModules.CryptoLifetime
import KernelModules.CryptoProgram
import KernelModules.CryptoLedger
import KernelModules.CryptoRelease
import KernelModules.Serial
import KernelModules.LcdWrites
import KernelModules.KbdmonSequence
import KernelModules.Keylogger
import KernelModules.KeyloggerBounds
import KernelModules.KeyloggerFlush
import KernelModules.SleepyDevice
import KernelModules.InputHandles
import KernelModules.KbdmonHandles
import KernelModules.KeyloggerLifetime
import KernelModules.KbdmonQueue
import KernelModules.CryptoSamples
import KernelModules.Checked
import KernelModules.CryptoScore
import KernelModules.Compared
import KernelModules.CryptoHeat
import KernelModules.CryptoFaults
import KernelModules.CryptoCipher
import KernelModules.FixedFailures
import KernelModules.FixedDrain
import KernelModules.LeakyMemory
import KernelModules.ReadLoop
import KernelModules.LeakyReads
import KernelModules.LeakyChunks
import KernelModules.ReadWrite
import KernelModules.PocketMonster
import KernelModules.MonsterShow
import KernelModules.KeyloggerText
import KernelModules.StackData
import KernelModules.LcdDisplay
import KernelModules.Gpio
import KernelModules.LcdPins
import KernelModules.GpioIrq
import KernelModules.SmallSteps
import KernelModules.GoldBytes
import KernelModules.BuggyDevice
import KernelModules.BuggyLock
import KernelModules.BuggyReads
import KernelModules.BuggyWakeups
import KernelModules.Lines
import KernelModules.CryptoStats
import KernelModules.KbdmonLog
import KernelModules.KbdmonTiming
import KernelModules.MonsterText
import KernelModules.GpioLed
import KernelModules.Buddy
import KernelModules.KmallocFragments
import KernelModules.ExerciseSetup
import KernelModules.FixedBytes
import KernelModules.Jiffies
import KernelModules.CryptoClock
import KernelModules.SmallWakeups
import KernelModules.KbdmonSteps
import KernelModules.MonitorFrames
import KernelModules.Poll
import KernelModules.GoldPoll
import KernelModules.DelayedWork
import KernelModules.MonsterClock
import KernelModules.KbdmonLifetime
