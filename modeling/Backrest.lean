import Backrest.LexOrder
import Backrest.ForwardClosure
import Backrest.Effects
import Backrest.FileTree
import Backrest.Text
import Backrest.BackupCommon
import Backrest.Variants
import Backrest.BackupManifest
import Backrest.BackupInfo
import Backrest.Repository
import Backrest.Expire
import Backrest.BackupRun
import Backrest.ExpireArchive
import Backrest.ExpireCommand
import Backrest.RepoIsolation
import Backrest.RangeScan
import Backrest.WalScan
import Backrest.DryRun
import Backrest.DryRunExpire
import Backrest.DryRunRemove
import Backrest.DryRunHistory
import Backrest.DryRunParted
import Backrest.DryRunExact
import Backrest.Verify
import Backrest.VerifyRun
import Backrest.AntiMerge
import Backrest.ArchiveAsync
import Backrest.SpoolFrame
import Backrest.PushList
import Backrest.Parallel
import Backrest.ParallelRun
import Backrest.BackupQueue
import Backrest.ArchivePushFile
import Backrest.BackupResume
import Backrest.BackupFile
import Backrest.BackupProcess
import Backrest.RestoreClean
import Backrest.RestoreCleanRefuse
import Backrest.RestoreCleanLinks
import Backrest.RestoreCleanBuild
import Backrest.RestoreCleanResult
import Backrest.StorageList
import Backrest.RemoteInfo
import Backrest.Lock
import Backrest.LockRun
import Backrest.Stanza
import Backrest.StanzaRun
import Backrest.FuelLoop
import Backrest.StreamFilter
import Backrest.FilterGroup
import Backrest.FilterChain
import Backrest.GroupProcess
import Backrest.WriteStream
import Backrest.ReadStream
import Backrest.ReadRun
import Backrest.ReadCalls
import Backrest.ReadSequence
import Backrest.FilterStream
import Backrest.IniLoad
import Backrest.ArchivePrune
import Backrest.ArchiveHistory
import Backrest.Newest
import Backrest.ExpireRetention
import Backrest.BuildIncr
import Backrest.RegExp
import Backrest.CachedFilter
import Backrest.PathName
import Backrest.UnloggedRelations
import Backrest.ManifestTarget
import Backrest.PrefixNeighbours
import Backrest.KeyedList
import Backrest.LinkCheck
import Backrest.LinkCheckExact
import Backrest.RestoreQueue
import Backrest.RestoreMap
import Backrest.RestoreAborted
import Backrest.ExpireHistory
import Backrest.BackupLabel
import Backrest.ArchiveGetFind
import Backrest.WalRange
import Backrest.QueueNeed
import Backrest.RestoreSet
import Backrest.AdjacentRuns
import Backrest.VerifyRange
import Backrest.Reconstruct
import Backrest.ShellWords
import Backrest.ConfFile
import Backrest.ConfLines
import Backrest.ExecParam
import Backrest.RecoveryAutoConf
import Backrest.RecoveryConf
import Backrest.ArchivePushCheck
import Backrest.CheckedInt
import Backrest.Convert
import Backrest.Gregorian
import Backrest.Time
import Backrest.HttpDate
import Backrest.GetEpoch
import Backrest.SizeOption
import Backrest.Blocks
import Backrest.PageFilter
import Backrest.ConfigParse
import Backrest.ConfigGroup
import Backrest.S3Write
import Backrest.S3Remove
import Backrest.ExtendedRegExp
import Backrest.RegExpPrefix
import Backrest.MergeAnti
import Backrest.RestoreFile
import Backrest.Encode
import Backrest.HttpQuery
import Backrest.VerifyArchive
import Backrest.SortSearch
import Backrest.MemoryBlocks
import Backrest.TypeList
import Backrest.StreamCipher
import Backrest.CipherBlock
import Backrest.RangeData
import Backrest.StringId
import Backrest.LexicalPath
import Backrest.PathAbsolute
import Backrest.JsonRender
import Backrest.JsonParse
import Backrest.JsonRoundTrip
import Backrest.JsonScan
import Backrest.InfoFile
import Backrest.InfoRoundTrip
import Backrest.InfoBackupFile
import Backrest.InfoBackupLoad
import Backrest.Base128
import Backrest.Pack
import Backrest.PackRead
import Backrest.PackTag
import Backrest.PackField
import Backrest.PackRequest
import Backrest.PackAnswer
import Backrest.PackCall
import Backrest.PackRoundTrip
import Backrest.Duplex
import Backrest.ProtocolMessage
import Backrest.ProtocolTalk
import Backrest.RemoteRead
import Backrest.RemoteWrite
