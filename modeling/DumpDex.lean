import DumpDex.L3Runs.KeptDexes
import DumpDex.L3Runs.FailedDumps
import DumpDex.L3Runs.Descriptors
import DumpDex.L3Runs.Forwarding
import DumpDex.L3Runs.Capture
import DumpDex.L3Runs.MovedExact
import DumpDex.L3Runs.TableRefines
import DumpDex.L3Runs.Cycles
import DumpDex.L3Runs.HookedArm
import DumpDex.L4App.Process
import DumpDex.L5Concurrency.Tear
import DumpDex.L2Machine.And64InlineHook
import DumpDex.L2Machine.InlineHook
import DumpDex.L4App.BundledDump
