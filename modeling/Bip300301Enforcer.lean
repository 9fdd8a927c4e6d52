import Bip300301Enforcer.Agreement
import Bip300301Enforcer.BestAncestor
import Bip300301Enforcer.BlindedM6Storage
import Bip300301Enforcer.BlockFileParser
import Bip300301Enforcer.BmmAuction
import Bip300301Enforcer.ConnectMissing
import Bip300301Enforcer.Declarations
import Bip300301Enforcer.DepositOrdering
import Bip300301Enforcer.DiskBlockIndex
import Bip300301Enforcer.EventReplay
import Bip300301Enforcer.ExpiredBundles
import Bip300301Enforcer.ExplicitAcks
import Bip300301Enforcer.Grind
import Bip300301Enforcer.MempoolSoundness
import Bip300301Enforcer.MiningSchedule
import Bip300301Enforcer.P2pFrames
import Bip300301Enforcer.ProposalPruning
import Bip300301Enforcer.QueueRuns
import Bip300301Enforcer.RepeatedVotes
import Bip300301Enforcer.RpcBlocks
import Bip300301Enforcer.SeedSafety
import Bip300301Enforcer.SentEvents
import Bip300301Enforcer.SlotOrder
import Bip300301Enforcer.SyncedTip
import Bip300301Enforcer.Theft
import Bip300301Enforcer.UnconsolidatedRuns
import Bip300301Enforcer.Upvotes
import Bip300301Enforcer.VotesNeeded
import Bip300301Enforcer.WalletCheckpoint
import Bip300301Enforcer.WalletDeposits
import Bip300301Enforcer.WalletHistory
import Bip300301Enforcer.MempoolPayouts
