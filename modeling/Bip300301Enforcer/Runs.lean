import Bip300301Enforcer.Reach
import Bip300301Enforcer.Script

/-! Running a list of calls, and that it leads to states that can be reached. -/
namespace Bip300301Enforcer
open Lib Chain

section Decidable

variable [Bitcoin]

instance (dbs : BlockHashDbs) (hd : Header) (n : ℕ) : Decidable (dbs.HeaderFits hd n) :=
  decidable_of_iff
    ((hd.prevBlockhash = allZeros → n = 0) ∧ (hd.prevBlockhash ≠ allZeros → 0 < n) ∧
      dbs.height.get? hd.blockHash ∈ [none,some n] ∧
      (hd.prevBlockhash ≠ allZeros → dbs.height.get? hd.prevBlockhash ∈ [none,some (n-1)]) ∧
      dbs.header.get? hd.blockHash ∈ [none,some hd] ∧ hd.prevBlockhash ≠ hd.blockHash)
    ⟨fun ⟨a,b,c,d,e,f⟩ => ⟨a,b,c,d,e,f⟩,fun ⟨a,b,c,d,e,f⟩ => ⟨a,b,c,d,e,f⟩⟩

instance (c : Chain) (b : Block) : Decidable (FreshTxids c b) :=
  inferInstanceAs (Decidable ((b.txdata.tail.map Transaction.computeTxid).Nodup ∧
    ∀ tx ∈ b.txdata.tail, ¬ tx.computeTxid ∈ txids c))

instance decidableLinked (dbs : BlockHashDbs) : (c : Chain) → Decidable (dbs.Linked c)
  | [] => .isTrue trivial
  | b::c =>
    have := decidableLinked dbs c
    inferInstanceAs (Decidable (dbs.header.get? b.blockHash = some b.header ∧
      b.header.prevBlockhash = parentHash c ∧ dbs.Linked c))

instance decidableValid (V : Chain → Block → Prop) [∀ c b, Decidable (V c b)] :
    (c : Chain) → Decidable (c.Valid V)
  | [] => .isTrue trivial
  | b::c =>
    have := decidableValid V c
    inferInstanceAs (Decidable (V c b ∧ Valid V c))

end Decidable

inductive Call
  | header (hd : Header) (height : ℕ)
  | connect (b : Block)
  | disconnect (hash : BlockHash)
  /-- A disconnect without a tip, that leads to the given chain. -/
  | staleDisconnect (hash : BlockHash) (c : Chain)

namespace Call

variable [Bitcoin] (h : BlockHandler) (V : Chain → Block → Prop) [∀ c b, Decidable (V c b)]

/-- Make one call in a state with an active chain. Nothing happens when the call
fails or may not be made. -/
def run (s : Dbs × Chain) : Call → Dbs × Chain
  | .header hd n =>
    if s.1.blockHashes.HeaderFits hd n then
      ({ s.1 with blockHashes := s.1.blockHashes.putHeader hd n },s.2)
    else s
  | .connect b =>
    if V s.2 b ∧ s.1.blockHashes.header.get? b.blockHash = some b.header then
      match h.connectBlock s.1 b with
      | .ok (_,dbs) => (dbs,b::s.2)
      | .error _ => s
    else s
  | .disconnect hash =>
    if s.1.currentChainTip = none → s.1.blockHashes.diff.get? hash = none then
      match BlockHandler.disconnectBlock s.1 hash with
      | .ok (_,dbs) => (dbs,if s.1.blockHashes.diff.contains hash then s.2.tail else s.2)
      | .error _ => s
    else s
  | .staleDisconnect hash c =>
    match BlockHandler.disconnectBlock s.1 hash with
    | .ok (_,dbs) =>
      if s.2 = [] ∧ s.1.currentChainTip = none ∧ c.Valid V ∧ s.1.blockHashes.Linked c ∧
        dbs.currentChainTip = c.tipHash then (dbs,c) else s
    | .error _ => s

def isStale : Call → Bool
  | .staleDisconnect _ _ => true
  | _ => false

def runAll (calls : List Call) : Dbs × Chain := calls.foldl (run h V) (.empty,[])

variable {h V}

theorem reach_run {stale : Prop} {s : Dbs × Chain} (call : Call) (hs : Reach h V stale s.1 s.2)
    (hstale : call.isStale = true → stale) :
    Reach h V stale (call.run h V s).1 (call.run h V s).2 := by
  cases call with
  | header hd n =>
    simp only [run]
    split
    · rename_i hf; exact hs.header hf
    · exact hs
  | connect b =>
    simp only [run]
    split
    · rename_i hv
      split
      · rename_i dbs hc; exact hs.connect hv.1 hv.2 hc
      · exact hs
    · exact hs
  | disconnect hash =>
    simp only [run]
    split
    · rename_i hg
      split
      · rename_i dbs hd; exact hs.disconnect hg hd
      · exact hs
    · exact hs
  | staleDisconnect hash c =>
    simp only [run]
    split
    · rename_i dbs hd
      split
      · rename_i hc
        obtain ⟨hnil,htip,hv,hl,ht⟩ := hc
        rw [hnil] at hs
        exact .staleDisconnect (hstale rfl) hs htip hd hv hl ht
      · exact hs
    · exact hs

theorem reach_runAll {stale : Prop} (calls : List Call)
    (hstale : ∀ call ∈ calls, call.isStale = true → stale) :
    Reach h V stale (runAll h V calls).1 (runAll h V calls).2 := by
  have main : ∀ (l : List Call) (s : Dbs × Chain), Reach h V stale s.1 s.2 →
      (∀ call ∈ l, call.isStale = true → stale) →
      Reach h V stale (l.foldl (run h V) s).1 (l.foldl (run h V) s).2 := by
    intro l
    induction l with
    | nil => intro s hs _; exact hs
    | cons call l ih =>
      intro s hs hl
      exact ih _ (reach_run call hs (hl call (List.mem_cons_self ..)))
        (fun call' hc => hl call' (List.mem_cons_of_mem _ hc))
  exact main calls (.empty,[]) .empty hstale

theorem reach_connects (blocks blocks' : List Block) :
    let calls := blocks.zipIdx.map (fun e => .header e.1.header e.2)++blocks'.map .connect
    Reach h V False (runAll h V calls).1 (runAll h V calls).2 := by
  refine reach_runAll _ (fun call hc hs => ?_)
  rcases List.mem_append.mp hc with hc | hc
  · obtain ⟨e,-,rfl⟩ := List.mem_map.mp hc
    cases hs
  · obtain ⟨b,-,rfl⟩ := List.mem_map.mp hc
    cases hs

end Call

def coinbaseWith (n : UInt32) (scripts : List Script) : Transaction :=
  ⟨2,n,[],scripts.map (fun s => ⟨0,s⟩)⟩

def blockOn (parent : BlockHash) (n : UInt32) (scripts : List Script) (txs : List Transaction) :
    Block := ⟨⟨4,parent,0,0,0,n⟩,coinbaseWith n scripts::txs⟩

/-- The blocks with the given contents, each on top of the one before. -/
def blocksOn [Bitcoin] : BlockHash → UInt32 → List (List Script × List Transaction) → List Block
  | _, _, [] => []
  | parent, n, e::rest =>
    let b := blockOn parent n e.1 e.2
    b::blocksOn b.blockHash (n+1) rest

def Call.connectAll (blocks : List Block) : List Call :=
  blocks.zipIdx.map (fun e => .header e.1.header e.2)++blocks.map .connect

def m1Script (s : SidechainNumber) (description : List UInt8) : Script :=
  Script.newOpReturn (CoinbaseMessage.m1Tag++s::description)

def m2Script (s : SidechainNumber) (descriptionHash : DescriptionHash) : Script :=
  Script.newOpReturn (CoinbaseMessage.m2Tag++s::hashBytes descriptionHash)

def m3Script (s : SidechainNumber) (m6id : M6id) : Script :=
  Script.newOpReturn (CoinbaseMessage.m3Tag++s::hashBytes m6id)

def m4Script (upvotes : List UInt8) : Script :=
  Script.newOpReturn (CoinbaseMessage.m4Tag++0x01::upvotes)

end Bip300301Enforcer
