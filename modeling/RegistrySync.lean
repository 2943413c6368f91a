import RegistrySync.Main
import RegistrySync.SharedSynchronizer
import RegistrySync.Proofs.Policy.Rejection
import RegistrySync.Proofs.Registry.Index
import RegistrySync.Proofs.Configuration.History
import RegistrySync.Proofs.Configuration.LastWriter
import RegistrySync.Proofs.Configuration.Agreement
import RegistrySync.Proofs.Configuration.Mirrors
import RegistrySync.Proofs.ChangeSignal.Queue
import RegistrySync.Proofs.ChangeSignal.Ledger
import RegistrySync.Proofs.ChangeSignal.Progress
import RegistrySync.Proofs.Synchronizer.Service
import RegistrySync.Proofs.Synchronizer.Execution
import RegistrySync.Proofs.Synchronizer.NoLostUpdate
import RegistrySync.Proofs.Synchronizer.Outcome
import RegistrySync.Proofs.Path.Names
import RegistrySync.Proofs.FileTree.Entries
import RegistrySync.Proofs.FileTree.PlainWalk
import RegistrySync.Proofs.FileTree.Effects
import RegistrySync.Proofs.Action.Completion
import RegistrySync.Proofs.TrustStore.Contents
import RegistrySync.Proofs.Pass.Completion
import RegistrySync.Proofs.Caller
import RegistrySync.Proofs.Cluster.Tracking
import RegistrySync.Proofs.Cluster.Session
import RegistrySync.Proofs.Cluster.Mirroring
import RegistrySync.Proofs.Cluster.Relist
import RegistrySync.Proofs.Cluster.Streams
import RegistrySync.Proofs.Configuration.Alike
import RegistrySync.Proofs.Cluster.Interleaving
import RegistrySync.Proofs.Json.RoundTrip
import RegistrySync.Proofs.Policy.RoundTrip
import RegistrySync.Proofs.Toml.Grammar
import RegistrySync.Proofs.Toml.Quoted
import RegistrySync.Proofs.Toml.RoundTrip
import RegistrySync.Proofs.Registry.Operations
import RegistrySync.Proofs.Registry.RoundTrip
import RegistrySync.Proofs.FileTree.Descent
import RegistrySync.Proofs.FileTree.Removal
import RegistrySync.Proofs.Action.Failure
import RegistrySync.Proofs.TrustStore.Layout
import RegistrySync.Proofs.Pass.Course
import RegistrySync.Proofs.Pass.Frame
import RegistrySync.Proofs.Pass.Failure
import RegistrySync.Proofs.FileTree.Linkless
import RegistrySync.Proofs.TrustStore.Placement
import RegistrySync.Proofs.Pass.Dropped
import RegistrySync.Proofs.Cluster.Tracked
import RegistrySync.Proofs.Cluster.RelistChanges
import RegistrySync.Proofs.Cluster.Dropping
import RegistrySync.Proofs.Rendering.Feeding
import RegistrySync.Proofs.Rendering.Session
import RegistrySync.Proofs.Rendering.Progress
import RegistrySync.Proofs.Rendering.Outcome
import RegistrySync.Proofs.Policy.Queries
import RegistrySync.Proofs.CommandLine.Spelling
import RegistrySync.Proofs.FileTree.Entering
import RegistrySync.Proofs.FileTree.Making
import RegistrySync.Proofs.TrustStore.Folders
import RegistrySync.Proofs.TrustStore.Filling
import RegistrySync.Proofs.Pass.Separation
import RegistrySync.Proofs.FileTree.Access
import RegistrySync.Proofs.Action.Obstacles
import RegistrySync.Proofs.TrustStore.Acceptance
import RegistrySync.Proofs.Pass.Obstacles
import RegistrySync.Proofs.Text.Timestamp
import RegistrySync.Proofs.Document.Record
import RegistrySync.Proofs.Document.Shape
import RegistrySync.Proofs.Document.Reader
import RegistrySync.Proofs.Cluster.Shapes
import RegistrySync.Proofs.Cluster.Decoding
