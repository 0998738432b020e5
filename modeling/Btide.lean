import Btide.Chk.BpkgLoad
import Btide.Chk.Canonical
import Btide.Chk.CompletedChunks
import Btide.Chk.HashesOf
import Btide.Chk.LoadError
import Btide.Chk.LoadTokens
import Btide.Chk.ManagedPackage
import Btide.Chk.ShowTree
import Btide.Chk.StoredStrings
import Btide.Crypt.Sha256
import Btide.Crypt.Sha256Bounds
import Btide.Crypt.Sha256Stream
import Btide.Lib.Bytes
import Btide.Lib.CString
import Btide.Lib.Cover
import Btide.Lib.Fips180
import Btide.Lib.Handles
import Btide.Lib.History
import Btide.Lib.Ledger
import Btide.Lib.Slots
import Btide.Lib.StringMemory
import Btide.Lib.Transition
import Btide.Lib.Trim
import Btide.Net.ClientMemory
import Btide.Net.Clients
import Btide.Net.CommandLines
import Btide.Net.CommandReplies
import Btide.Net.CommandWords
import Btide.Net.Commands
import Btide.Net.CompletionHistory
import Btide.Net.CompletionRuns
import Btide.Net.Config
import Btide.Net.ConnectionCases
import Btide.Net.ConnectionCommands
import Btide.Net.ConnectionKeys
import Btide.Net.ConnectionLocks
import Btide.Net.ConnectionRuns
import Btide.Net.Descriptors
import Btide.Net.Dispatch
import Btide.Net.Download
import Btide.Net.DownloadEnds
import Btide.Net.DownloadRuns
import Btide.Net.DownloadSteps
import Btide.Net.Exchange
import Btide.Net.Fetch
import Btide.Net.FetchLine
import Btide.Net.FileCheck
import Btide.Net.FileWrites
import Btide.Net.FullFile
import Btide.Net.IdentMatch
import Btide.Net.Listener
import Btide.Net.Numbers
import Btide.Net.OffsetLookup
import Btide.Net.PackageLifetime
import Btide.Net.PackageMemory
import Btide.Net.PackageTable
import Btide.Net.PackageTableRuns
import Btide.Net.PackageUse
import Btide.Net.PackageUseAlone
import Btide.Net.PackageUseRuns
import Btide.Net.PkgMain
import Btide.Net.QueryAgreement
import Btide.Net.Receipt
import Btide.Net.Receive
import Btide.Net.RequestHash
import Btide.Net.Serve
import Btide.Net.Sha256Chk
import Btide.Net.StatusReport
import Btide.Net.StripWhitespace
import Btide.Net.Swarm
import Btide.Net.SwarmRuns
import Btide.Net.TreeArray
import Btide.Tree.MinHashFind
