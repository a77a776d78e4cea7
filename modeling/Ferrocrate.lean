import Ferrocrate.Agent.DelegationLedger
import Ferrocrate.Agent.Ipam
import Ferrocrate.Agent.Reconcile
import Ferrocrate.Authorization.Attenuation
import Ferrocrate.Authorization.Bypass
import Ferrocrate.Authorization.DelegationUse
import Ferrocrate.Authorization.DelegationWire
import Ferrocrate.Authorization.Executors
import Ferrocrate.Authorization.PolicyStore
import Ferrocrate.Compose.FanoutRun
import Ferrocrate.Compose.Interpolation
import Ferrocrate.Compose.Merge
import Ferrocrate.Compose.ServiceGraph
import Ferrocrate.Container.Reopening
import Ferrocrate.Container.Reservations
import Ferrocrate.Container.Snapshots
import Ferrocrate.Dockerfile.ContextBinding
import Ferrocrate.Dockerfile.IdentityBuilds
import Ferrocrate.Dockerfile.LineDefects
import Ferrocrate.Dockerfile.Resolve
import Ferrocrate.Ebpf.Apply
import Ferrocrate.Ebpf.InPlace
import Ferrocrate.Ebpf.NatRun
import Ferrocrate.Ebpf.PolicyCover
import Ferrocrate.Ebpf.ReservedPorts
import Ferrocrate.Ebpf.SecondPass
import Ferrocrate.Image.Challenge
import Ferrocrate.Image.Rvf
import Ferrocrate.Image.Tagging
import Ferrocrate.Log.Rotation
import Ferrocrate.Manager.Scheduler
import Ferrocrate.Manager.Subnets
import Ferrocrate.Netd.GrantsRun
import Ferrocrate.Netd.ParentsRun
import Ferrocrate.Network.Rollback
import Ferrocrate.Node.Floor
import Ferrocrate.Node.Report
import Ferrocrate.Node.Restarts
import Ferrocrate.Node.Rollback
import Ferrocrate.Node.Rollout
import Ferrocrate.Rootfs.Conflicts
import Ferrocrate.Rootfs.Containment
import Ferrocrate.Rootfs.Diff
import Ferrocrate.Volume.Threads
import Ferrocrate.Witness.Canonical
import Ferrocrate.Witness.CheckpointRoundTrip
import Ferrocrate.Witness.CoordinatorCrash
import Ferrocrate.Witness.JournalVerifier
import Ferrocrate.Witness.MerkleProve
import Ferrocrate.Witness.MerkleRefinement
import Ferrocrate.Witness.ReaderSoundness
import Ferrocrate.Witness.Journal.EpochRace
import Ferrocrate.Witness.Journal.MirrorRun
import Ferrocrate.Witness.Journal.Pending
import Ferrocrate.Witness.Journal.Republish
import Ferrocrate.Witness.Journal.Reserve
import Ferrocrate.Witness.Journal.Snapshot
