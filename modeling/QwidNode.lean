import QwidNode.Guarantees.Routing
import QwidNode.Guarantees.Threshold
import QwidNode.Guarantees.Supply
import QwidNode.Guarantees.Rejection
import QwidNode.Guarantees.Maturity
import QwidNode.Guarantees.ChainStateOnly
import QwidNode.Guarantees.Restore
import QwidNode.Guarantees.Entitled
import QwidNode.Guarantees.HashLinked
import QwidNode.Guarantees.LiveKeys
import QwidNode.Guarantees.Reveals
import QwidNode.Guarantees.Attachment
import QwidNode.Guarantees.EvmRetention
import QwidNode.Guarantees.History
import QwidNode.Guarantees.Reverts
import QwidNode.Guarantees.RootDetermines
import QwidNode.Guarantees.SnapshotRetention
import QwidNode.Guarantees.DexLedger
import QwidNode.Guarantees.SnapshotRoundTrip
import QwidNode.Guarantees.Emission
import QwidNode.Guarantees.TopNodes
import QwidNode.Guarantees.Locks
import QwidNode.Guarantees.BlockRewards
import QwidNode.Guarantees.HeaderAnswers
import QwidNode.Guarantees.MerkleRoot
import QwidNode.Guarantees.PendingSpend
import QwidNode.Guarantees.HeightSearch
import QwidNode.Guarantees.SchemeConfig
import QwidNode.Guarantees.StakingDetails
import QwidNode.Guarantees.Startup
