import Bleep.Zkp.PublicInputCodec
import Bleep.Merkle.Binding
import Bleep.Core.PoolInterleavings
import Bleep.Core.ForkReplay
import Bleep.Core.Seeding
import Bleep.State.RootBinding
import Bleep.State.ChainStore
import Bleep.Producer.Replay
import Bleep.Pbft.CommitteeEdits
import Bleep.Consensus.ProposerAgreement
import Bleep.Consensus.RegistryCoherence
import Bleep.Consensus.AccountableFinality
import Bleep.Consensus.SlashingOrder
import Bleep.Consensus.SignedMessages
import Bleep.CrossShard.Exclusivity
import Bleep.CrossShard.Atomicity
import Bleep.Pat.Atomicity
import Bleep.Economics.Inflation
import Bleep.Economics.RewardRuns
import Bleep.Availability.ArrivalOrder
import Bleep.Connect.InstantEscrows
import Bleep.Connect.NullifierStore
import Bleep.Connect.Layer3Bridge
import Bleep.Governance.EpochAdvance
import Bleep.Governance.ZkVoting
import Bleep.LiveGovernance.VotingPeriod
import Bleep.Vm.IntentSignatures
