import Emrals.Lib.Machine
import Emrals.Lib.Fallible
import Emrals.Lib.AListFold
import Emrals.Lib.Codec
import Emrals.Lib.RefCount
import Emrals.Primitives
import Emrals.Net.Address
import Emrals.Special.ProviderTx
import Emrals.Transaction
import Emrals.Special.State
import Emrals.Special.MNList
import Emrals.Special.ListDiff
import Emrals.Special.BuildList
import Emrals.Special.Manager
import Emrals.Special.BuildSpec
import Emrals.Special.CheckSpecialTx
import Emrals.Special.Replay
import Emrals.Special.BlockAborts
import Emrals.DB.Transaction
import Emrals.DB.Iterator
import Emrals.Coins.View
import Emrals.Validation.BlockValue
import Emrals.Special.MNListSpec
import Emrals.Special.BuildInvariant
import Emrals.Special.Configured
import Emrals.Serialize.Basic
import Emrals.Lib.FieldCopy
import Emrals.Special.StateSpec
import Emrals.Serialize.State
import Emrals.Special.ListWellFormed
import Emrals.Special.WellFormedRun
import Emrals.Special.ListRebuild
import Emrals.Serialize.MNList
import Emrals.Llmq.ChainLocks
import Emrals.Mempool.ProTxIndex
import Emrals.Coins.Cache
import Emrals.Special.Payee
import Emrals.Llmq.BlockProcessor
import Emrals.Llmq.MiningRule
import Emrals.Llmq.DkgSession
import Emrals.Mempool.RemoveForBlock
import Emrals.Script.Standard
import Emrals.Pos.Sign
import Emrals.Lib.Words
import Emrals.Arith.Uint256
import Emrals.Arith.Compact
import Emrals.Pos.Chain
import Emrals.Pos.Retarget
import Emrals.Pos.Kernel
import Emrals.Pos.Modifier
import Emrals.Governance.Superblock
import Emrals.Serialize.Compressor
import Emrals.Script.ScriptNum
import Emrals.Script.Interpreter
import Emrals.Consensus.Merkle
import Emrals.Encoding.Bech32
import Emrals.Lib.BitList
import Emrals.Serialize.BitSet
import Emrals.Lib.Radix
import Emrals.Encoding.Base58
import Emrals.Lib.Loop
import Emrals.Spork.Manager
import Emrals.Lib.OrdMap
import Emrals.Spork.Process
import Emrals.Llmq.InstantSend
import Emrals.Governance.Object
import Emrals.Llmq.Utils
import Emrals.Chain.BlockIndex
import Emrals.Lib.Median
import Emrals.Chain.VersionBits
import Emrals.Lib.LowerBound
import Emrals.Chain.ActiveChain
import Emrals.Chain.Deployments
import Emrals.Arith.BaseUint
