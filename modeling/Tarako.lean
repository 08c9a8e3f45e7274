import Tarako.Lib.Splice
import Tarako.Lib.Run
import Tarako.Lib.Stuffing
import Tarako.Lib.Words
import Tarako.ModemControl.Crc16
import Tarako.ModemControl.Packet
import Tarako.ModemControl.Framing
import Tarako.ModemControl.Send
import Tarako.Engcs.Vdiag
import Tarako.NvmDaemon.Checksum
import Tarako.NvmDaemon.NvItem
import Tarako.NvmDaemon.Backup
import Tarako.NvmDaemon.Bounds
import Tarako.NvmDaemon.Stream
import Tarako.NvmDaemon.Mirror
import Tarako.Engcs.Answers
import Tarako.Engcs.Batch
import Tarako.Engcs.Register
import Tarako.Engcs.Service
import Tarako.Engcs.Ownership
import Tarako.Engcs.Routing
import Tarako.Engcs.AtCommand
import Tarako.Engcs.AudioDiag
import Tarako.Engcs.Forward
import Tarako.Engcs.Parcel
import Tarako.Lib.Blocks
import Tarako.Lib.Fields
import Tarako.Lib.Lines
import Tarako.Lib.Ring
import Tarako.ModemControl.Monitor
import Tarako.Slog.ModemRing
import Tarako.Slog.ParseConf
import Tarako.Vhub.SaveData
import Tarako.Camera.IspVideo
import Tarako.Lib.Memory
import Tarako.Camera.IspParam
import Tarako.Camera.CmrMsg
import Tarako.NvmDaemon.Bless
import Tarako.Lib.Tokens
import Tarako.Camera.JpegCodec
import Tarako.Camera.JpegSync
import Tarako.Camera.JpegLive
import Tarako.Lib.Prog
import Tarako.Camera.JpegParse
import Tarako.Camera.JpegBounds
import Tarako.Camera.JpegTables
import Tarako.Camera.JpegHead
import Tarako.Lib.Stores
import Tarako.Camera.ExifInfo
import Tarako.Camera.ExifWriter
import Tarako.Camera.ExifLayout
import Tarako.Camera.ExifTrack
import Tarako.Camera.ExifRun
import Tarako.Camera.ExifRanges
import Tarako.Alarm.SecList
import Tarako.Fm.RingBuffer
import Tarako.Camera.ScaleSem
import Tarako.Hwc.Prepare
import Tarako.Hwc.Plan
import Tarako.Hwc.Overlay
import Tarako.Audio.VbcCall
import Tarako.Audio.VbcSession
import Tarako.Audio.Routing
import Tarako.Audio.InputStream
import Tarako.Lib.Carve
import Tarako.Camera.CaptureMem
import Tarako.Camera.CapturePlan
import Tarako.Lib.Crc
import Tarako.Lib.OnesSum
import Tarako.NvmDaemon.Crc32b
import Tarako.NvmDaemon.Alignment
import Tarako.ModemControl.UartPacket
import Tarako.ModemControl.WordSum
import Tarako.ModemControl.SpiPacket
import Tarako.NvmDaemon.FixnvImage
import Tarako.Lib.Cursor
import Tarako.Engmoded.HttpRequest
import Tarako.Engmoded.HttpServer
import Tarako.Lib.Hex
import Tarako.Lib.Reader
import Tarako.Bluetooth.Pskey
import Tarako.Fm.FmSource
import Tarako.Lib.Tiff
import Tarako.Camera.ExifRead
import Tarako.Camera.ExifFields
import Tarako.Camera.ExifDirectories
import Tarako.Camera.ExifRoundTrip
import Tarako.Lib.Pieces
import Tarako.ModemControl.DownloadImage
import Tarako.ModemControl.DownloadFdl
import Tarako.ModemControl.ImagesInfo
import Tarako.ModemControl.Connect
import Tarako.Engcs.NoHandle
import Tarako.Lib.Segments
import Tarako.Engcs.Readlines
import Tarako.Engcs.RawInput
import Tarako.Engcs.DiagState
import Tarako.Engcs.SpResponse
import Tarako.Engcs.EutCommand
import Tarako.Engcs.RfNv
import Tarako.Engcs.RfNvCheck
import Tarako.Slog.Snapshot
import Tarako.Slog.Kmsg
import Tarako.Lib.Renames
import Tarako.Slog.Rotate
import Tarako.Slog.ConfigReport
import Tarako.Slog.LogSize
import Tarako.Slog.Command
import Tarako.Vhub.WriteLoop
import Tarako.Vhub.SizeFormat
import Tarako.Vhub.PollTable
import Tarako.Camera.JpegBits
import Tarako.Lib.Canonical
import Tarako.Camera.JpegHuffCode
import Tarako.Lib.Lanes
import Tarako.Camera.JpegHuffTab
import Tarako.Camera.JpegSegments
import Tarako.Camera.ExifChecks
import Tarako.Camera.ExifInsert
import Tarako.Camera.JpegGeometry
import Tarako.Lib.WriteBehind
import Tarako.Camera.JpegStream
import Tarako.Camera.CmrMsgTokens
import Tarako.Camera.ScaleSlices
import Tarako.Camera.CaptureSize
import Tarako.Camera.FrameDecode
import Tarako.Camera.IspDown
import Tarako.Camera.IspRequest
import Tarako.Camera.IspUpload
import Tarako.Hwc.VideoRect
import Tarako.Engcs.DiagEscape
import Tarako.Audio.PgaTable
import Tarako.Audio.PgaApply
import Tarako.Hwc.ScaleRotate
import Tarako.Hwc.RotateOnly
import Tarako.Alarm.NextAlarm
import Tarako.Fm.FmRead
import Tarako.Engmoded.UrlParameter
import Tarako.Engmoded.HttpReturns
import Tarako.Alarm.DbList
import Tarako.Camera.JpegEncHeader
import Tarako.Lib.Consume
import Tarako.Camera.JpegHeadRead
import Tarako.Camera.JpegRoundTrip
import Tarako.Camera.JpegChunks
import Tarako.Camera.ExifParse
import Tarako.NvmDaemon.Store
import Tarako.Engcs.AtResponse
