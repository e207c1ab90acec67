import DistroSeed.Library.Arrivals
import DistroSeed.Library.Base64
import DistroSeed.Library.Chains
import DistroSeed.Library.Channels
import DistroSeed.Library.Cuts
import DistroSeed.Library.DiGraph
import DistroSeed.Library.Escapes
import DistroSeed.Library.Generations
import DistroSeed.Library.Infix
import DistroSeed.Library.KeySort
import DistroSeed.Library.PackageStore
import DistroSeed.Library.Paths
import DistroSeed.Library.QueueSearch
import DistroSeed.Library.Readers
import DistroSeed.Library.Scripts
import DistroSeed.Library.SearchOrder
import DistroSeed.Library.Words
import DistroSeed.Model.BuildLoop
import DistroSeed.Model.ControlPort
import DistroSeed.Model.CrossRoot
import DistroSeed.Model.CrossSetup
import DistroSeed.Model.Discovery
import DistroSeed.Model.KconfigExpr
import DistroSeed.Model.SerialLoop
import DistroSeed.Model.Staging
import DistroSeed.Model.TargetRoot
import DistroSeed.Model.TaskManager
import DistroSeed.Model.Vm
import DistroSeed.Model.VmImages
import DistroSeed.Model.VmSessions
import DistroSeed.Verification.Build.Gantt
import DistroSeed.Verification.Build.TargetRoot
import DistroSeed.Verification.Components.FwEnvConfig
import DistroSeed.Verification.Downloads.Interrupted
import DistroSeed.Verification.Kconfig.Expressions
import DistroSeed.Verification.Kconfig.SaveLoad
import DistroSeed.Verification.Manifests.Linter
import DistroSeed.Verification.Packages.Metadata
import DistroSeed.Verification.Packages.PackageList
import DistroSeed.Verification.Scheduler.BarrierSearch
import DistroSeed.Verification.Scheduler.CleanWork
import DistroSeed.Verification.Scheduler.Published
import DistroSeed.Verification.Scheduler.Reproducible
import DistroSeed.Verification.Scheduler.VmOrder
import DistroSeed.Verification.Serial.Calls
import DistroSeed.Verification.Serial.Console
import DistroSeed.Verification.Serial.Interactive
import DistroSeed.Verification.Serial.Transport
import DistroSeed.Verification.Staging.Freshness
import DistroSeed.Verification.Staging.Names
import DistroSeed.Verification.Vm.Checkout
import DistroSeed.Verification.Vm.CrossRoot
import DistroSeed.Verification.Vm.CrossSetup
import DistroSeed.Verification.Vm.Exports
import DistroSeed.Verification.Vm.Images
import DistroSeed.Verification.Vm.Ownership
import DistroSeed.Verification.Vm.Recorded
import DistroSeed.Verification.Wrapper.Log
