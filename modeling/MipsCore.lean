import MipsCore.Exec.Dispatch
import MipsCore.Core.Precise
import MipsCore.Core.DelaySlot
import MipsCore.Pipeline.Modes
import MipsCore.Chip.ZeroReg
import MipsCore.L1d.Flush
import MipsCore.L1d.Coherence
import MipsCore.L1i.Fetch
import MipsCore.Arbiter
import MipsCore.Iss.Hilo
import MipsCore.Iss.Link
import MipsCore.Iss.Doubleword
import MipsCore.Iss.Address
import MipsCore.Chip.Drain
import MipsCore.Exec.Writeback
import MipsCore.Exec.Division
import MipsCore.Exec.UnsignedDivision
import MipsCore.Core.RetirePair
import MipsCore.Core.RobPointers
import MipsCore.Exec.Wakeup
import MipsCore.Core.Restart
import MipsCore.L1i.Restart
import MipsCore.L1i.Jump
import MipsCore.Chip.FrontEnd
import MipsCore.Chip.Handoff
import MipsCore.FairSched
import MipsCore.Chip.ReturnStack
import MipsCore.Core.ArchA0
import MipsCore.Exec.QueueOrder
import MipsCore.Iss.Memory
import MipsCore.L1d.Lanes
import MipsCore.Iss.Interpreter
import MipsCore.Iss.ZeroRegister
import MipsCore.BitCount
import MipsCore.Lib.NearestEven
import MipsCore.Lib.BinaryFormat
import MipsCore.Lib.Rounding
import MipsCore.Lib.DelayLine
import MipsCore.Lib.FloatOrder
import MipsCore.Fp.Compare
import MipsCore.Fp.Trunc
import MipsCore.Fp.Convert
import MipsCore.Fp.Cvt
import MipsCore.Fp.Mul
import MipsCore.Fp.Div
import MipsCore.Wrap
import MipsCore.Fp.Add
import MipsCore.L1i.Utlb
import MipsCore.Lib.OutOfOrder
import MipsCore.Lib.RenameClasses
import MipsCore.Core.Dataflow
import MipsCore.Core.RetirePorts
import MipsCore.Core.RetireLedger
import MipsCore.Chip.Retirement
import MipsCore.L1d.Responses
import MipsCore.Lib.StraightLine
import MipsCore.Top.Bootstrap
import MipsCore.L1i.Branch
import MipsCore.L1d.Graduation
