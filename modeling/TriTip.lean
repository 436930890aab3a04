import TriTip.AddrMan.AddrDB
import TriTip.AddrMan.Book
import TriTip.AddrMan.Check
import TriTip.AddrMan.DiskCodec
import TriTip.AddrMan.Invariant
import TriTip.AddrMan.KnownAddresses
import TriTip.AddrMan.Load
import TriTip.AddrMan.Loaded
import TriTip.AddrMan.NewBuckets
import TriTip.AddrMan.Operations
import TriTip.AddrMan.Reachable
import TriTip.AddrMan.RoundTrip
import TriTip.AddrMan.Serialize
import TriTip.AddrMan.Shuffles
import TriTip.AddrMan.Sound
import TriTip.AddrMan.State
import TriTip.AddrMan.TriedBuckets
import TriTip.AddrMan.Written
import TriTip.Alert.CAlert
import TriTip.Alert.FinalAlert
import TriTip.Alert.ProcessAlert
import TriTip.Alert.Refused
import TriTip.Base58.CBase58Data
import TriTip.Base58.EncodeBase58
import TriTip.Block.AcceptBlock
import TriTip.Block.BigNumBuffer
import TriTip.Block.ChainStorage
import TriTip.Block.CheckBlock
import TriTip.Block.CheckTransaction
import TriTip.Block.Compact
import TriTip.Block.ComputeMinWork
import TriTip.Block.IsNewerThan
import TriTip.Block.MerkleTree
import TriTip.Block.ProcessBlock
import TriTip.Block.ProofOfWork
import TriTip.Block.Transaction
import TriTip.Bloom.CBloomFilter
import TriTip.Bloom.FilterLoad
import TriTip.Bloom.IsRelevantAndUpdate
import TriTip.Coins.CCoins
import TriTip.Coins.Serialize
import TriTip.Coins.Spend
import TriTip.DustCoin.EnterPoint
import TriTip.DustCoin.NetworkGate
import TriTip.DustCoin.ProofOfWork
import TriTip.Json.Actions
import TriTip.Json.Reader
import TriTip.Json.RoundTrip
import TriTip.Json.Strings
import TriTip.Json.Value
import TriTip.Json.Writer
import TriTip.Key.CPubKey
import TriTip.Key.SignCompact
import TriTip.LevelDB.Coding
import TriTip.LevelDB.Crc32c
import TriTip.LevelDB.Log
import TriTip.LevelDB.LogRecords
import TriTip.Lib.Alphabet
import TriTip.Lib.Base128
import TriTip.Lib.BitString
import TriTip.Lib.Blank
import TriTip.Lib.Bloom
import TriTip.Lib.ByteSet
import TriTip.Lib.Chunks
import TriTip.Lib.Codec
import TriTip.Lib.Counter
import TriTip.Lib.Crc
import TriTip.Lib.Cursor
import TriTip.Lib.Earliest
import TriTip.Lib.ExactInt64
import TriTip.Lib.Growth
import TriTip.Lib.KeyValue
import TriTip.Lib.LendingPool
import TriTip.Lib.LittleEndian
import TriTip.Lib.Lowest
import TriTip.Lib.Median
import TriTip.Lib.Merging
import TriTip.Lib.Merkle
import TriTip.Lib.OrdMap
import TriTip.Lib.Phrase
import TriTip.Lib.Positions
import TriTip.Lib.Radix
import TriTip.Lib.RefCount
import TriTip.Lib.References
import TriTip.Lib.Renumber
import TriTip.Lib.Requests
import TriTip.Lib.Run
import TriTip.Lib.Scan
import TriTip.Lib.Significand
import TriTip.Lib.Spelling
import TriTip.Memory.LockedPages
import TriTip.Net.Address
import TriTip.Net.GetData
import TriTip.Net.Handshake
import TriTip.Net.MapRelay
import TriTip.Net.MessageHeader
import TriTip.Net.NodeLifetime
import TriTip.Net.NodePool
import TriTip.Net.NodeReferences
import TriTip.Net.Onion
import TriTip.Net.OutboundGrants
import TriTip.Net.ProcessMessage
import TriTip.Net.ProcessMessages
import TriTip.Net.Receive
import TriTip.Net.Send
import TriTip.Net.Socks5
import TriTip.Net.SplitHostPort
import TriTip.Net.StartSync
import TriTip.Rpc.Connection
import TriTip.Rpc.Conversation
import TriTip.Rpc.HttpMessage
import TriTip.Rpc.HttpReply
import TriTip.Rpc.JsonRpc
import TriTip.Store.CCoinsViewDB
import TriTip.Store.CDBEnv
import TriTip.Store.Salvage
import TriTip.Sync.CheckQueue
import TriTip.Sync.LockOrder
import TriTip.Time.OffsetFollows
import TriTip.Time.TimeData
import TriTip.Util.Base32
import TriTip.Util.Base64
import TriTip.Util.Decimal
import TriTip.Util.Money
import TriTip.Util.ParseHex
import TriTip.Util.WildcardMatch
import TriTip.Wallet.AddSupportingTransactions
import TriTip.Wallet.AddressGroupings
import TriTip.Wallet.ApproximateBestSubset
import TriTip.Wallet.ChangePassphrase
import TriTip.Wallet.CreateTransaction
import TriTip.Wallet.FeeLoop
import TriTip.Wallet.KeyPool
import TriTip.Wallet.LoadWallet
import TriTip.Wallet.LoadedRecords
import TriTip.Wallet.Reaccept
import TriTip.Wallet.ReadKeyValue
import TriTip.Wallet.ReorderTransactions
import TriTip.Wallet.Rewrite
import TriTip.Wallet.SelectCoins
import TriTip.Wallet.SubsetVectors
