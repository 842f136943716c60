import LuatAir200.Machine
import LuatAir200.Fifo
import LuatAir200.CycleQueue
import LuatAir200.UartModel
import LuatAir200.UartLossless
import LuatAir200.RtosTimer
import LuatAir200.Conversion
import LuatAir200.IconvModel
import LuatAir200.IconvResume
import LuatAir200.History
import LuatAir200.LuaString
import LuatAir200.LuaPattern
import LuatAir200.LuaTable
import LuatAir200.LuaData
import LuatAir200.LuaText
import LuatAir200.Decimals
import LuatAir200.LuaNumber
import LuatAir200.LuaHeap
import LuatAir200.NvmModel
import LuatAir200.NvmText
import LuatAir200.NvmReset
import LuatAir200.NvmRecovery
import LuatAir200.NvmStored
import LuatAir200.NvmSets
import LuatAir200.SparseTable
import LuatAir200.LongSms
import LuatAir200.SmsPdu
import LuatAir200.SmsSend
import LuatAir200.SmsSendRuns
import LuatAir200.SmsHex
import LuatAir200.SmsSegments
import LuatAir200.SmsReceive
import LuatAir200.Stream
import LuatAir200.Keyed
import LuatAir200.TimerTable
import LuatAir200.TimerInvariant
import LuatAir200.TimerRuns
import LuatAir200.TimerPieces
import LuatAir200.SysModel
import LuatAir200.SysDelivery
import LuatAir200.RilModel
import LuatAir200.RilDiscipline
import LuatAir200.ReceiveModel
import LuatAir200.ReceiveHeader
import LuatAir200.ReceiveBlock
import LuatAir200.LinkModel
import LuatAir200.LinkLife
import LuatAir200.LinkQueue
import LuatAir200.LinkPending
import LuatAir200.LinkClose
import LuatAir200.LinkReuse
import LuatAir200.LinkNotice
import LuatAir200.LinkRefusal
import LuatAir200.LinkConnecting
import LuatAir200.Replica
import LuatAir200.LinkSignal
import LuatAir200.Tracing
import LuatAir200.LinkTable
import LuatAir200.LinkInputs
import LuatAir200.LinksslModel
import LuatAir200.LinksslKeeps
import LuatAir200.LinksslMirror
import LuatAir200.LinksslTable
import LuatAir200.LinksslDue
import LuatAir200.Outbox
import LuatAir200.SocketModel
import LuatAir200.SocketLedger
import LuatAir200.SocketOrder
import LuatAir200.SocketWiring
import LuatAir200.SocketAccount
import LuatAir200.SocketConnecting
import LuatAir200.SocketHeld
import LuatAir200.MqttPacket
import LuatAir200.MqttFrame
import LuatAir200.MqttDup
import LuatAir200.MqttDupRuns
import LuatAir200.MqttOwed
import LuatAir200.MqttModel
import LuatAir200.MqttCalm
import LuatAir200.MqttKept
import LuatAir200.MqttIdentity
import LuatAir200.MqttConning
import LuatAir200.MqttLeave
import LuatAir200.UpdateModel
import LuatAir200.UpdateImage
import LuatAir200.UpdateSessions
import LuatAir200.AgpsModel
import LuatAir200.AgpsImage
import LuatAir200.AgpsEnds
import LuatAir200.AgpsFrames
import LuatAir200.LbslocModel
import LuatAir200.LbslocAnswers
import LuatAir200.LbslocCodecs
import LuatAir200.LbslocCells
import LuatAir200.AudioModel
import LuatAir200.AudioPlays
import LuatAir200.GpsTimers
import LuatAir200.GpsRuns
import LuatAir200.LinkOwner
import LuatAir200.SocketTables
import LuatAir200.CallbackSlots
import LuatAir200.PhoneBook
import LuatAir200.MiscModel
import LuatAir200.MiscReports
import LuatAir200.RecordSessions
import LuatAir200.DueTimers
import LuatAir200.WdtModel
import LuatAir200.WdtFeeding
import LuatAir200.SocketsslCerts
import LuatAir200.NtpSync
import LuatAir200.NtpModel
import LuatAir200.DbgLinks
import LuatAir200.DbgReports
import LuatAir200.LinkClient
import LuatAir200.DbgModel
import LuatAir200.LinkAttempt
import LuatAir200.SocketAnswers
import LuatAir200.RilAnswers
import LuatAir200.ScriptReads
import LuatAir200.StdioFiles
import LuatAir200.ScriptStreams
import LuatAir200.StandardFiles
import LuatAir200.StdioStreams
import LuatAir200.EncryptedReads
import LuatAir200.AudioStops
import LuatAir200.BoundedFifo
import LuatAir200.CycleQueueRuns
import LuatAir200.MqttPublish
import LuatAir200.MqttStuck
import LuatAir200.SysArguments
import LuatAir200.Calendar
import LuatAir200.ClockZone
import LuatAir200.TimeZone
import LuatAir200.ClockReply
import LuatAir200.UpdateStore
import LuatAir200.UpdateRetries
import LuatAir200.OwnedList
import LuatAir200.MqttShared
import LuatAir200.MqttSharing
import LuatAir200.MqttCalls
import LuatAir200.CcModel
import LuatAir200.CcBooks
import LuatAir200.SocketTold
import LuatAir200.MqttClaims
import LuatAir200.MqttWithin
import LuatAir200.MqttLive
import LuatAir200.IconvStrict
import LuatAir200.Utf8Strings
import LuatAir200.GsmSeptets
import LuatAir200.SmsSevenBit
import LuatAir200.GpsCoordinates
import LuatAir200.GpsPositions
import LuatAir200.NvmSets
import LuatAir200.DispBmp
import LuatAir200.DispBounds
import LuatAir200.PbSearch
import LuatAir200.NetQueries
import LuatAir200.NetLed
import LuatAir200.AuthResponse
import LuatAir200.NetMulticell
import LuatAir200.CrcTables
import LuatAir200.MathsSqrt
import LuatAir200.PinsModel
import LuatAir200.AudioDriver
import LuatAir200.LibcMktime
import LuatAir200.LuadbImages
import LuatAir200.CrcErrors
import LuatAir200.DispClear
