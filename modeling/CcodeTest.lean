import CcodeTest.Lib.Store
import CcodeTest.Lib.Transition
import CcodeTest.Lib.Coloring
import CcodeTest.Lib.Slots
import CcodeTest.Lib.BitString
import CcodeTest.Dcs.Types
import CcodeTest.Dcs.Sort
import CcodeTest.Dcs.Options
import CcodeTest.Dcs.Assign
import CcodeTest.Dcs.Interference
import CcodeTest.Dcs.Symmetric
import CcodeTest.Dcs.Matrix
import CcodeTest.Dcs.Threshold
import CcodeTest.Dcs.Peers
import CcodeTest.Dcs.SpInfo
import CcodeTest.Dcs.Scan
import CcodeTest.Dcs.System
import CcodeTest.Dcs.Lock
import CcodeTest.Dcs.Capacity
import CcodeTest.Dcs.Credit
import CcodeTest.Dcs.ForcedScan
import CcodeTest.Dcs.Requests
import CcodeTest.Dcs.Legal
import CcodeTest.Dcs.Separation
import CcodeTest.Dcs.Compaction
import CcodeTest.Dcs.Allocation
import CcodeTest.Dcs.Search
import CcodeTest.Dcs.Provision
import CcodeTest.Dcs.Secondary
import CcodeTest.Dcs.Classify
import CcodeTest.Dcs.Rounds
import CcodeTest.Base64.Codec
import CcodeTest.Base64.RoundTrip
import CcodeTest.Base64.InPlace
import CcodeTest.Base64.Bounds
import CcodeTest.Base64.Conformance
import CcodeTest.Bitmap.FiniteSet
import CcodeTest.Bitmap.Ranges
import CcodeTest.BoardFile.Update
import CcodeTest.Dcs.Messages
import CcodeTest.Dcs.Pipes
import CcodeTest.Lib.CString
import CcodeTest.Lib.Hex
import CcodeTest.Lib.Tokens
import CcodeTest.Lib.Lines
import CcodeTest.Lib.Dyadic
import CcodeTest.Lib.Selection
import CcodeTest.Range2cidr.Cidr
import CcodeTest.Range2cidr.Greedy
import CcodeTest.Range2cidr.SortMerge
import CcodeTest.Range2cidr.Runs
import CcodeTest.Range2cidr.Overlap
import CcodeTest.Schema.ErrorText
import CcodeTest.Schema.Escaping
import CcodeTest.ParamList.Lookup
import CcodeTest.ParamList.Truncation
import CcodeTest.Query.Loop
import CcodeTest.Query.Keys
import CcodeTest.Query.Bounds
import CcodeTest.Lib.Chain
import CcodeTest.SysQueue.Registry
import CcodeTest.SysQueue.Storage
import CcodeTest.SysQueue.Stall
import CcodeTest.Lib.Ring
import CcodeTest.Lib.Queues
import CcodeTest.SysQueue.Tailq
import CcodeTest.SysQueue.Circleq
import CcodeTest.SysQueue.Stailq
import CcodeTest.SysQueue.Lists
import CcodeTest.VpnConfig.Load
import CcodeTest.VpnConfig.Fields
import CcodeTest.StringTest.ParseCmd
import CcodeTest.MacAddress.OwnVap
import CcodeTest.HashFunc.Nonce
import CcodeTest.SortAlgorithm.Bsearch
import CcodeTest.Certificate.Decode
import CcodeTest.Certificate.Load
import CcodeTest.Lib.Mealy
import CcodeTest.Certificate.Encode
import CcodeTest.Certificate.Stream
import CcodeTest.Fifo.Protocol
import CcodeTest.Fifo.Progress
import CcodeTest.Lib.NamedSem
import CcodeTest.Semaphore.Reboot
import CcodeTest.Semaphore.Daemon
import CcodeTest.Certificate.Agree
import CcodeTest.Lib.Mutex
import CcodeTest.Lib.Rank
import CcodeTest.Pthread.CondWait
import CcodeTest.Pthread.Wakeup
import CcodeTest.Pthread.Rwlock
import CcodeTest.Pthread.Signals
import CcodeTest.YamlTest.EventLine
