import VideoPlayerCore.Machine
import VideoPlayerCore.Words
import VideoPlayerCore.RingBuffer
import VideoPlayerCore.RingSteps
import VideoPlayerCore.RingInvariant
import VideoPlayerCore.RingSafety
import VideoPlayerCore.ChannelSteps
import VideoPlayerCore.ChannelReset
import VideoPlayerCore.ClockSync
import VideoPlayerCore.ClockOrigin
import VideoPlayerCore.AudioDevice
import VideoPlayerCore.Pipe
import VideoPlayerCore.SessionSteps
import VideoPlayerCore.SessionDrain
import VideoPlayerCore.SessionEof
import VideoPlayerCore.SessionClock
import VideoPlayerCore.CloseSteps
import VideoPlayerCore.CloseReturns
import VideoPlayerCore.DelegateHeap
import VideoPlayerCore.DelegateVersions
import VideoPlayerCore.DelegateAdd
import VideoPlayerCore.DelegateRemove
import VideoPlayerCore.DelegateSteps
import VideoPlayerCore.DelegateInvariant
import VideoPlayerCore.DelegateMoves
import VideoPlayerCore.DelegateRefines
import VideoPlayerCore.PlaybackSteps
import VideoPlayerCore.PlaybackInvariant
import VideoPlayerCore.PlaybackRuns
import VideoPlayerCore.PlaybackStuck
import VideoPlayerCore.PlaybackDeadlock
import VideoPlayerCore.Reentry
import VideoPlayerCore.DelegatePolicy
import VideoPlayerCore.LockedSteps
import VideoPlayerCore.LockedInvariant
import VideoPlayerCore.DelegateOperands
import VideoPlayerCore.TrimExcess
import VideoPlayerCore.WaitGroupInvariant
import VideoPlayerCore.WaitGroupTasks
import VideoPlayerCore.WaitGroupDestroy
import VideoPlayerCore.ByteStore
import VideoPlayerCore.LogSteps
import VideoPlayerCore.LogBuffer
import VideoPlayerCore.LogRecords
import VideoPlayerCore.LogWrites
import VideoPlayerCore.LogWriter
import VideoPlayerCore.DecoderSteps
import VideoPlayerCore.DecoderDelivers
import VideoPlayerCore.Ledgers
import VideoPlayerCore.ReadSteps
import VideoPlayerCore.ReadLedger
import VideoPlayerCore.DecoderPipe
import VideoPlayerCore.ClockHandshake
import VideoPlayerCore.VideoWait
import VideoPlayerCore.AudioOpen
import VideoPlayerCore.EofWrites
import VideoPlayerCore.Windows
import VideoPlayerCore.AudioFrames
import VideoPlayerCore.AudioBlocks
import VideoPlayerCore.AudioThread
import VideoPlayerCore.AudioLedger
import VideoPlayerCore.Histories
import VideoPlayerCore.AudioConvert
import VideoPlayerCore.AudioTimes
import VideoPlayerCore.AudioStages
import VideoPlayerCore.AudioSilence
import VideoPlayerCore.AudioChunks
import VideoPlayerCore.AudioProgress
import VideoPlayerCore.Formats
import VideoPlayerCore.Calendar
import VideoPlayerCore.LogNames
import VideoPlayerCore.LogClean
import VideoPlayerCore.LogFolder
import VideoPlayerCore.LogRetention
import VideoPlayerCore.LogRotation
import VideoPlayerCore.LogTruncation
import VideoPlayerCore.LogBounds
import VideoPlayerCore.LogCounts
import VideoPlayerCore.CInts
import VideoPlayerCore.Smear
import VideoPlayerCore.BlockGeometry
import VideoPlayerCore.DelegateSubtract
import VideoPlayerCore.DelegatePlay
import VideoPlayerCore.Attempts
import VideoPlayerCore.DelegateThrows
import VideoPlayerCore.DelegateThrowPoints
import VideoPlayerCore.DelegateAtomicity
import VideoPlayerCore.LockedOwners
import VideoPlayerCore.NextPow2
import VideoPlayerCore.Deadlines
import VideoPlayerCore.Rosters
import VideoPlayerCore.DeviceChannels
import VideoPlayerCore.DeviceMix
import VideoPlayerCore.VideoPresent
import VideoPlayerCore.Books
import VideoPlayerCore.VideoFrames
import VideoPlayerCore.VideoLedger
import VideoPlayerCore.PlayObjects
import VideoPlayerCore.PlayLifetimes
import VideoPlayerCore.CursorTimes
import VideoPlayerCore.StreamRouting
import VideoPlayerCore.ChannelVolume
import VideoPlayerCore.SlotQueues
import VideoPlayerCore.AudioPath
import VideoPlayerCore.AudioCarried
import VideoPlayerCore.LogInit
import VideoPlayerCore.LogConsole
import VideoPlayerCore.LogDirs
import VideoPlayerCore.FrameTimes
import VideoPlayerCore.FileToScreen
import VideoPlayerCore.FixedWidth
import VideoPlayerCore.LogStamps
import VideoPlayerCore.LogOrder
import VideoPlayerCore.LogTrail
import VideoPlayerCore.DelegateLeaks
import VideoPlayerCore.VideoMemory
import VideoPlayerCore.AudioOut
import VideoPlayerCore.ClockWaits
import VideoPlayerCore.PlaybackWaits
