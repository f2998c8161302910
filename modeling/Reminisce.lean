import Reminisce.AccountLockout
import Reminisce.AccountRuns
import Reminisce.AddressRoundTrips
import Reminisce.AiCycle
import Reminisce.AiDescriptions
import Reminisce.AuditRepair
import Reminisce.AuditRuns
import Reminisce.AuditSoundness
import Reminisce.BackupWorkers
import Reminisce.BucketCleanup
import Reminisce.CertificateGrammar
import Reminisce.CertificateWalk
import Reminisce.CheckedRuns
import Reminisce.CleanupRuns
import Reminisce.ClusterRuns
import Reminisce.ClusterSteps
import Reminisce.ClusterWrites
import Reminisce.CommittedUpload
import Reminisce.CoordinatorLinks
import Reminisce.CoordinatorPeers
import Reminisce.Database
import Reminisce.DatedNames
import Reminisce.DbSnapshot
import Reminisce.DetectionCalls
import Reminisce.DirectMessages
import Reminisce.DiskStorage
import Reminisce.DuplicateGroups
import Reminisce.DuplicatePages
import Reminisce.DuplicatePairs
import Reminisce.DuplicateRuns
import Reminisce.DuplicateWorker
import Reminisce.EarnedVerification
import Reminisce.Encryption
import Reminisce.Erasure
import Reminisce.ExifBranches
import Reminisce.ExifFields
import Reminisce.ExifPatch
import Reminisce.ExifPreserved
import Reminisce.ExifScan
import Reminisce.ExifSegments
import Reminisce.ExifSplices
import Reminisce.ExifTrees
import Reminisce.FaceCycles
import Reminisce.FaceFrames
import Reminisce.FaceRetries
import Reminisce.FaceThumbnails
import Reminisce.Fleet
import Reminisce.GenerationRuns
import Reminisce.Generations
import Reminisce.Geometry
import Reminisce.GeometryMismatch
import Reminisce.Handshake
import Reminisce.Identity
import Reminisce.IdentityRecovery
import Reminisce.ImageOrientation
import Reminisce.ImportScans
import Reminisce.Ingest
import Reminisce.Interference
import Reminisce.KeyEnvelopes
import Reminisce.LabelOwners
import Reminisce.LabelViews
import Reminisce.LastAdmin
import Reminisce.LastChecked
import Reminisce.Library.Binary64
import Reminisce.Library.Bincode
import Reminisce.Library.ByteOrder
import Reminisce.Library.ByteVecs
import Reminisce.Library.Codecs
import Reminisce.Library.Der
import Reminisce.Library.DisjointSets
import Reminisce.Library.EvaluationCode
import Reminisce.Library.FileSystem
import Reminisce.Library.Hex
import Reminisce.Library.Keyed
import Reminisce.Library.Numerals
import Reminisce.Library.OrderedWalks
import Reminisce.Library.Overwrites
import Reminisce.Library.Ranking
import Reminisce.Library.Rasters
import Reminisce.Library.RateBound
import Reminisce.Library.Results
import Reminisce.Library.Runs
import Reminisce.Library.Slices
import Reminisce.Library.SortedPages
import Reminisce.Library.Splits
import Reminisce.Library.Unwinding
import Reminisce.Library.Utf8
import Reminisce.Library.Versioned
import Reminisce.Library.Worklists
import Reminisce.LibraryReads
import Reminisce.LibraryRequests
import Reminisce.LibraryRuns
import Reminisce.LinkSteps
import Reminisce.ListingPages
import Reminisce.LiveWork
import Reminisce.LoginFailures
import Reminisce.LoginRate
import Reminisce.MachineInts
import Reminisce.ManifestOrder
import Reminisce.MediaLibrary
import Reminisce.MediaQueries
import Reminisce.MediaUploads
import Reminisce.MeshRecovery
import Reminisce.MeshRuns
import Reminisce.MigratedSegments
import Reminisce.Migrations
import Reminisce.Multipart
import Reminisce.NameFormats
import Reminisce.NodeCertificates
import Reminisce.NodeEffects
import Reminisce.NodeRuns
import Reminisce.NodeTaskSteps
import Reminisce.NodeTasks
import Reminisce.Nonces
import Reminisce.OrientationAction
import Reminisce.OrientationDetection
import Reminisce.OrientationReads
import Reminisce.OrientationWriters
import Reminisce.OrphanSweep
import Reminisce.OwnerIsolation
import Reminisce.PatchFrames
import Reminisce.PatchTermination
import Reminisce.PeerAddresses
import Reminisce.PeerLists
import Reminisce.PeerPersistence
import Reminisce.PeerRegistry
import Reminisce.PeerSync
import Reminisce.PersonClusters
import Reminisce.PhotoDates
import Reminisce.PinnedCrash
import Reminisce.PinnedOverwrites
import Reminisce.PinnedWrites
import Reminisce.Placement
import Reminisce.PoisonCap
import Reminisce.Possession
import Reminisce.PostgresUrls
import Reminisce.Primitives
import Reminisce.RateLimit
import Reminisce.Rebalance
import Reminisce.RebalanceInvariant
import Reminisce.RebalanceRuns
import Reminisce.Reconnects
import Reminisce.ReferencePrimitives
import Reminisce.RegistryAuthenticity
import Reminisce.RelayFrames
import Reminisce.RelayedTokens
import Reminisce.RepairGeneration
import Reminisce.RepairSources
import Reminisce.RepairTargets
import Reminisce.RepairedBytes
import Reminisce.Replication
import Reminisce.RequeueLimit
import Reminisce.Restore
import Reminisce.RestoreRecorded
import Reminisce.RestoreUploaded
import Reminisce.RestoredGeometry
import Reminisce.RestoredSegments
import Reminisce.RestoredServer
import Reminisce.RetrievableShards
import Reminisce.Revocation
import Reminisce.RotationSafety
import Reminisce.RowViews
import Reminisce.RowsAndFiles
import Reminisce.SearchPages
import Reminisce.SearchQueries
import Reminisce.SegmentLoops
import Reminisce.Segments
import Reminisce.ServedMessages
import Reminisce.ServedSteps
import Reminisce.ShardMap
import Reminisce.ShardMigration
import Reminisce.ShardRetrieval
import Reminisce.ShardStore
import Reminisce.SharedHashes
import Reminisce.SharedSteps
import Reminisce.SilentNodes
import Reminisce.SnapshotMesh
import Reminisce.SqlScripts
import Reminisce.SqlStatements
import Reminisce.StatusCache
import Reminisce.StorageNode
import Reminisce.StoredSizes
import Reminisce.StreamWrites
import Reminisce.SweepProgress
import Reminisce.SweepSafety
import Reminisce.SweepTermination
import Reminisce.TokenBinding
import Reminisce.Undersharded
import Reminisce.UnownedRecovery
import Reminisce.Upload
import Reminisce.UploadOrder
import Reminisce.UserIsolation
import Reminisce.Verification
import Reminisce.WaitingInserts
import Reminisce.WireMessages
