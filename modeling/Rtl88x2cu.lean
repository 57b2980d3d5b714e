import Rtl88x2cu.RxReorder.Model
import Rtl88x2cu.Lib.Run
import Rtl88x2cu.Lib.CyclicIndex
import Rtl88x2cu.RxReorder.Conservation
import Rtl88x2cu.RxReorder.Window
import Rtl88x2cu.RxReorder.Session
import Rtl88x2cu.RxReorder.Ownership
import Rtl88x2cu.Dispatcher.Msg
import Rtl88x2cu.PhlQueue
import Rtl88x2cu.Dispatcher.Phases
import Rtl88x2cu.Dispatcher.Model
import Rtl88x2cu.Dispatcher.Thread
import Rtl88x2cu.Dispatcher.ReqPool
import Rtl88x2cu.Dispatcher.Steps
import Rtl88x2cu.Dispatcher.Walk
import Rtl88x2cu.Dispatcher.Token
import Rtl88x2cu.Dispatcher.TokenOps
import Rtl88x2cu.Dispatcher.MsgPlaces
import Rtl88x2cu.Dispatcher.Completion
import Rtl88x2cu.Dispatcher.Handles
import Rtl88x2cu.Dispatcher.WaitQueue
import Rtl88x2cu.Dispatcher.Fence
import Rtl88x2cu.Lib.Ring
import Rtl88x2cu.Trx.RingIndex
import Rtl88x2cu.Trx.RxRing
import Rtl88x2cu.Trx.TxRing
import Rtl88x2cu.Trx.TxBuffers
import Rtl88x2cu.Station.Model
import Rtl88x2cu.Station.Tables
import Rtl88x2cu.Station.Pool
import Rtl88x2cu.Station.Macid
import Rtl88x2cu.Station.Rollback
import Rtl88x2cu.Dispatcher.Registry
import Rtl88x2cu.Trx.RxBuf
import Rtl88x2cu.RxReorder.RxDesc
import Rtl88x2cu.Core.RecvFrame
import Rtl88x2cu.Ap.Aid
import Rtl88x2cu.Core.RecvPn
import Rtl88x2cu.Core.SecCam
import Rtl88x2cu.Dispatcher.CmdGeneral
import Rtl88x2cu.Trx.DrvInfo
import Rtl88x2cu.Ap.SleepQ
import Rtl88x2cu.Core.Bip
import Rtl88x2cu.Core.Tkip
import Rtl88x2cu.Scan.SelectChnl
import Rtl88x2cu.Core.Wds
import Rtl88x2cu.Efuse.DumpLog
import Rtl88x2cu.Core.StaMgt
import Rtl88x2cu.Scan.ScannedQueue
import Rtl88x2cu.Lib.HashChain
import Rtl88x2cu.Nat25.Frame
import Rtl88x2cu.Nat25.Db
import Rtl88x2cu.Nat25.Handle
import Rtl88x2cu.Nat25.Ageing
import Rtl88x2cu.Nat25.Shortcut
import Rtl88x2cu.Core.CmdQueue
import Rtl88x2cu.Core.CmdThread
import Rtl88x2cu.Core.CmdRun
import Rtl88x2cu.Dispatcher.TokenSlot
import Rtl88x2cu.Scan.CmdScan
import Rtl88x2cu.Scan.CmdScanInv
import Rtl88x2cu.Scan.CmdScanRun
import Rtl88x2cu.Core.RunCmd
import Rtl88x2cu.Nat25.Vlan
import Rtl88x2cu.Ieee80211.Ie
import Rtl88x2cu.Ieee80211.P2pMerge
import Rtl88x2cu.Ieee80211.ParseElems
import Rtl88x2cu.Ieee80211.VendorIe
import Rtl88x2cu.Ieee80211.VendorSearch
import Rtl88x2cu.Ieee80211.Rsne
import Rtl88x2cu.Ieee80211.DelIe
import Rtl88x2cu.Ieee80211.IeScan
import Rtl88x2cu.Ieee80211.GetIe
import Rtl88x2cu.Ieee80211.RemoveIe
import Rtl88x2cu.Nat25.DhcpFlag
import Rtl88x2cu.Nat25.NdLinkLayer
import Rtl88x2cu.Nat25.Checksum
import Rtl88x2cu.Nat25.PppoeRelay
import Rtl88x2cu.Nat25.Access
import Rtl88x2cu.Nat25.AccessIff
import Rtl88x2cu.Nat25.AccessSound
import Rtl88x2cu.Lib.ListMerge
import Rtl88x2cu.Scan.ChannelPlan
import Rtl88x2cu.Scan.ChannelPlanRun
import Rtl88x2cu.Scan.MergedPlan
import Rtl88x2cu.Efuse.Parsers
import Rtl88x2cu.Efuse.PgEfuse
import Rtl88x2cu.Trx.Stats
import Rtl88x2cu.Trx.XmitRing
import Rtl88x2cu.Trx.DryRun
import Rtl88x2cu.Lib.Grouped
import Rtl88x2cu.Trx.FlowCtrl
import Rtl88x2cu.Trx.FlowCtrlCollect
import Rtl88x2cu.Trx.FlowCtrlRound
import Rtl88x2cu.Core.Amsdu
import Rtl88x2cu.Lib.Footprint
import Rtl88x2cu.Trx.SingleRx
import Rtl88x2cu.Core.Defrag
import Rtl88x2cu.Lib.Turns
import Rtl88x2cu.Core.RxLength
import Rtl88x2cu.Efuse.Package
import Rtl88x2cu.Core.Crc32
import Rtl88x2cu.Core.TkipMixing
import Rtl88x2cu.RxReorder.Termination
import Rtl88x2cu.Core.UpdateAttrib
import Rtl88x2cu.Core.FillTxreq
import Rtl88x2cu.Lib.Michael
import Rtl88x2cu.Core.SecMic
import Rtl88x2cu.Core.TkipMic
import Rtl88x2cu.Crypto.Aes
import Rtl88x2cu.Crypto.AesCcm
import Rtl88x2cu.Crypto.FrameAad
import Rtl88x2cu.Crypto.Ccmp
import Rtl88x2cu.Lib.BinaryField
import Rtl88x2cu.Crypto.AesGcm
import Rtl88x2cu.Crypto.Gcmp
import Rtl88x2cu.Lib.Cursor
import Rtl88x2cu.Crypto.Omac1
import Rtl88x2cu.Crypto.AesSiv
import Rtl88x2cu.Ap.Tim
import Rtl88x2cu.Ap.Beacon
import Rtl88x2cu.Core.TxPn
import Rtl88x2cu.Ap.UpdateRate
