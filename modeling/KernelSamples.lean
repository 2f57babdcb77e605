import KernelSamples.Lib.Machine
import KernelSamples.Lib.Tally
import KernelSamples.Lib.Word
import KernelSamples.Lib.Clock
import KernelSamples.Lib.Founded
import KernelSamples.Lib.Ring
import KernelSamples.Lib.Replace
import KernelSamples.Lib.Buffer
import KernelSamples.Lib.Decimal
import KernelSamples.Lib.Files
import KernelSamples.Lib.Arguments
import KernelSamples.Lib.Places
import KernelSamples.Lib.Fnmatch
import KernelSamples.Lib.FileTree
import KernelSamples.Lib.Json
import KernelSamples.Lib.Layout
import KernelSamples.Lib.Make
import KernelSamples.Competition.Pickup
import KernelSamples.Competition.Conservation
import KernelSamples.SimIrq.Teardown
import KernelSamples.SimIrq.Mapping
import KernelSamples.SimIrq.DisableIrq
import KernelSamples.SimIrq.DangerGate
import KernelSamples.SimIrq.Unload
import KernelSamples.SimIrq.Once
import KernelSamples.SimIrq.Triggers
import KernelSamples.DataStructure.Refinement
import KernelSamples.DataStructure.Ownership
import KernelSamples.DataStructure.Cart
import KernelSamples.DataStructure.Usernames
import KernelSamples.DataStructure.ContainerOf
import KernelSamples.NetRx.Unload
import KernelSamples.Timer.Shutdown
import KernelSamples.Smp.Unload
import KernelSamples.Scripts.SignModule
import KernelSamples.Scripts.Signing
import KernelSamples.Compdb.Unescape
import KernelSamples.Compdb.Rewrite
import KernelSamples.Compdb.OptionValues
import KernelSamples.Compdb.Directory
import KernelSamples.Compdb.Eligibility
import KernelSamples.Compdb.Publication
import KernelSamples.Compdb.Main
import KernelSamples.Scripts.Database
