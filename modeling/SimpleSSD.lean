import SimpleSSD.CPU.Core
import SimpleSSD.FTL.Addressing
import SimpleSSD.FTL.BlockAgreement
import SimpleSSD.FTL.FreeAccount
import SimpleSSD.FTL.TrimSafety
import SimpleSSD.FTL.VictimSelection
import SimpleSSD.FTL.WarmUp
import SimpleSSD.HIL.BusyTime
import SimpleSSD.HIL.Completion
import SimpleSSD.HIL.NVMe.CompletionRing
import SimpleSSD.HIL.NVMe.FailedCreate
import SimpleSSD.HIL.NVMe.OpenChannel.ChunkCommands
import SimpleSSD.HIL.NVMe.Recording
import SimpleSSD.HIL.NVMe.ScatterGather
import SimpleSSD.HIL.NVMe.UserSelection
import SimpleSSD.HIL.Scheduler.Consumption
import SimpleSSD.HIL.Scheduler.Fairness
import SimpleSSD.HIL.Scheduler.Grace
import SimpleSSD.HIL.Scheduler.Reset
import SimpleSSD.HIL.Scheduler.UntilDone
import SimpleSSD.HIL.Scheduler.Window
import SimpleSSD.HIL.SwitchScheduler
import SimpleSSD.HIL.UFS.Doorbell
import SimpleSSD.HIL.UFS.QueryAnswers
import SimpleSSD.ICL.FlushExact
import SimpleSSD.ICL.FormatRange
import SimpleSSD.ICL.Placement
import SimpleSSD.ISC.Charge
import SimpleSSD.ISC.Ext4.ExtentWalks
import SimpleSSD.ISC.Ext4.InodeReads
import SimpleSSD.ISC.Ext4.Lookup
import SimpleSSD.ISC.Ext4.Namei
import SimpleSSD.ISC.MD5
import SimpleSSD.ISC.Slet.Encodings
import SimpleSSD.ISC.Slet.Files
import SimpleSSD.ISC.Slet.Grep
import SimpleSSD.ISC.Slet.Statdir
import SimpleSSD.PAL.BusyTime
import SimpleSSD.PAL.OpBusyTime
import SimpleSSD.PAL.PPN
import SimpleSSD.PAL.Termination
import SimpleSSD.Util.B64
import SimpleSSD.Util.BitVectors
import SimpleSSD.Util.FIFO.Occupancy
