import Prisma.Passes.Theorems.Algebraic
import Prisma.Passes.Theorems.BranchFold
import Prisma.Passes.Theorems.ConstProp
import Prisma.Passes.Theorems.CopyProp
import Prisma.Passes.Theorems.Dce
import Prisma.Passes.Theorems.DeadStore
import Prisma.Passes.Theorems.PeepholeRounds
import Prisma.Passes.Theorems.RedundantLoad
import Prisma.Passes.Theorems.StrengthReduce
import Prisma.Decoder.Theorems.Cmpxchg
import Prisma.Decoder.Theorems.FlagsImage
import Prisma.Decoder.Theorems.Immediate
import Prisma.Decoder.Theorems.IncDec
import Prisma.Decoder.Theorems.MulDivRegister
import Prisma.Decoder.Theorems.RipRelative
import Prisma.Decoder.Theorems.RotateCarry
import Prisma.Decoder.Theorems.Shift
import Prisma.Decoder.Theorems.Ssa
import Prisma.Translator.Theorems.Footprint
import Prisma.Cache.Theorems.Limits
import Prisma.Cache.Theorems.Save
import Prisma.Runtime.Theorems.SmcGuard
import Prisma.Runtime.Theorems.Signals
import Prisma.Core.Theorems.Dispatcher
import Prisma.Core.Theorems.Protection
import Prisma.Orchestrator.Theorems.GuestLayout
import Prisma.Orchestrator.Theorems.InitStack
import Prisma.Orchestrator.Theorems.LoadPe
import Prisma.Orchestrator.Theorems.Relocations
import Prisma.Session.Theorems.IoSyscalls
import Prisma.Session.Theorems.MemSyscalls
import Prisma.Session.Theorems.SigSyscalls
import Prisma.Futex.Theorems.LateWait
import Prisma.Futex.Theorems.Progress
import Prisma.Futex.Theorems.Shutdown
import Prisma.Decoder.Theorems.BitOps
import Prisma.Passes.Theorems.Cse
import Prisma.Interp.Theorems.Carry
import Prisma.Backend.Theorems.PcmpStr
import Prisma.IR.Theorems.Refs
