import Bip300301Enforcer.Lib.Iterate
import Bip300301Enforcer.Runs

/-! Connecting the blocks that the wallet's chain lacks: a stack of heights, whose blocks are
fetched from the node one by one. -/
namespace Bip300301Enforcer
open Lib

/-- A block does not connect to the wallet's chain. -/
structure CannotConnectError where
  tryIncludeHeight : ℕ
deriving DecidableEq

/-- The errors of connecting missing blocks. Those of the node and of the wallet are passed on. -/
inductive ConnectMissingBlock (ε : Type)
  | getBlockHash (err : ε)
  | getBlock (err : ε)
  | handleConnectBlock (err : ε)
  | bdkConnect (blockHeight : ℕ) (source : CannotConnectError)

/-- A height to connect, with its block if it was fetched already. -/
structure TryInclude where
  blockHeight : ℕ
  block : Option Block

abbrev WalletChain := ℕ → Option BlockHash

def WalletChain.place (chain : WalletChain) (height : ℕ) (blockHash : BlockHash) : WalletChain :=
  fun n => if n < height then chain n else if n = height then some blockHash else none

/-- The node and the wallet, as they answer at any time. -/
structure Backend (ε : Type) where
  getblockhash : (time height : ℕ) → Except ε BlockHash
  getBlock : (time : ℕ) → BlockHash → Except ε Block
  handleConnectBlock : (time : ℕ) → WalletChain → Block → (height : ℕ) →
    Except ε (Except CannotConnectError WalletChain)

/-- The wallet's chain and the stack of heights, its top first. -/
structure ConnectState where
  chain : WalletChain
  tryIncludes : List TryInclude
  time : ℕ
  /-- What the node served, the latest first. -/
  fetched : List (ℕ × Block)

/-- The stack holds the height to try, and no block is fetched yet. -/
def ConnectState.init (chain : WalletChain) (tryIncludeHeight : ℕ) : ConnectState :=
  ⟨chain,[⟨tryIncludeHeight,none⟩],0,[]⟩

section ConnectMissing

variable {ε : Type} (backend : Backend ε)

namespace Backend

def fetch (time height : ℕ) : Except (ConnectMissingBlock ε) Block := do
  let blockHash ← (backend.getblockhash time height).mapError .getBlockHash
  (backend.getBlock time blockHash).mapError .getBlock

def topBlock (s : ConnectState) (top : TryInclude) :
    Except (ConnectMissingBlock ε) (Block × List (ℕ × Block)) :=
  match top.block with
  | some block => .ok (block,s.fetched)
  | none => do
    let block ← backend.fetch s.time top.blockHeight
    pure (block,(top.blockHeight,block)::s.fetched)

/-- One iteration of the loop. -/
def connectStep (s : ConnectState) : Progress ConnectState (Except (ConnectMissingBlock ε) Unit) :=
  match s.tryIncludes with
  | [] => .ended s (.ok ())
  | top::rest =>
    match backend.topBlock s top with
    | .error err => .ended s (.error err)
    | .ok (block,fetched) =>
      match backend.handleConnectBlock s.time s.chain block top.blockHeight with
      | .error err => .ended s (.error (.handleConnectBlock err))
      | .ok (.ok chain) => .running ⟨chain,rest,s.time+1,fetched⟩
      | .ok (.error err) =>
        -- Make sure that the recommended height is below what was just tried, then step down
        -- one height.
        if err.tryIncludeHeight < top.blockHeight then
          .running ⟨s.chain,⟨top.blockHeight-1,none⟩::⟨top.blockHeight,some block⟩::rest,
            s.time+1,fetched⟩
        else .ended s (.error (.bdkConnect top.blockHeight err))

/-- At most `n` iterations of the loop. -/
def connectMissingBlock (chain : WalletChain) (tryIncludeHeight n : ℕ) :
    Progress ConnectState (Except (ConnectMissingBlock ε) Unit) :=
  iterate backend.connectStep n (.init chain tryIncludeHeight)

end Backend

end ConnectMissing

theorem Backend.fetch_ok {ε : Type} {backend : Backend ε} {time height : ℕ} {blockHash : BlockHash}
    {block : Block} (hhash : backend.getblockhash time height = .ok blockHash)
    (hblock : backend.getBlock time blockHash = .ok block) :
    backend.fetch time height = .ok block := by
  rw [fetch,hhash]
  simp only [Except.mapError,Fallible.ok_bind,hblock]

section Connects

variable [Bitcoin] {ε : Type}

def WalletChain.Takes (chain : WalletChain) (block : Block) (height : ℕ) : Prop :=
  chain height = some block.blockHash ∨
    ∃ n, height = n+1 ∧ chain n = some block.header.prevBlockhash

/-- What is known of the wallet: a block connects on top of its parent or where it is already, and
replaces what is at its height and above. -/
structure Backend.Connects (backend : Backend ε) : Prop where
  takes : ∀ time chain block height err, WalletChain.Takes chain block height →
    backend.handleConnectBlock time chain block height ≠ .ok (.error err)
  noop : ∀ time chain block height chain', chain height = some block.blockHash →
    backend.handleConnectBlock time chain block height = .ok (.ok chain') → chain' = chain
  places : ∀ time chain block height chain', chain height ≠ some block.blockHash →
    backend.handleConnectBlock time chain block height = .ok (.ok chain') →
    chain' = WalletChain.place chain height block.blockHash

/-- A block is the parent of the one above it on the stack, as far as both are known. -/
def TryInclude.ParentOf (below above : TryInclude) : Prop :=
  ∀ block ∈ below.block, ∀ child ∈ above.block, child.header.prevBlockhash = block.blockHash

/-- A block that is fetched now is the parent of the one that waits above it. -/
def ConnectState.FetchesParent (backend : Backend ε) (s : ConnectState) : Prop :=
  match s.tryIncludes with
  | ⟨height,none⟩::above::_ => ∀ block, backend.fetch s.time height = .ok block →
      TryInclude.ParentOf ⟨height,some block⟩ above
  | _ => True

/-- The block that was fetched last at each height from the lowest one up to the first is on the
wallet's chain. -/
def ConnectState.AllConnected (tryIncludeHeight : ℕ) (s : ConnectState) : Prop :=
  ∀ n, (∃ e ∈ s.fetched, e.1 ≤ n) → n ≤ tryIncludeHeight →
    ∃ block, s.fetched.lookup n = some block ∧ s.chain n = some block.blockHash

variable {backend : Backend ε} {s s' : ConnectState} {top above : TryInclude}
  {rest : List TryInclude} {block : Block} {fetched : List (ℕ × Block)} {chain : WalletChain}
  {start k time : ℕ}

omit [Bitcoin] in
/-- What an iteration does that is not the last one. -/
theorem connectStep_running (hs : backend.connectStep s = .running s') :
    ∃ top rest block fetched, s.tryIncludes = top::rest ∧
      backend.topBlock s top = .ok (block,fetched) ∧
      ((∃ chain, backend.handleConnectBlock s.time s.chain block top.blockHeight = .ok (.ok chain) ∧
          s' = ⟨chain,rest,s.time+1,fetched⟩) ∨
        ∃ err, backend.handleConnectBlock s.time s.chain block top.blockHeight = .ok (.error err) ∧
          err.tryIncludeHeight < top.blockHeight ∧
          s' = ⟨s.chain,⟨top.blockHeight-1,none⟩::⟨top.blockHeight,some block⟩::rest,
            s.time+1,fetched⟩) := by
  unfold Backend.connectStep at hs
  split at hs
  · cases hs
  · rename_i top rest hstack
    split at hs
    · cases hs
    · rename_i block fetched htop
      refine ⟨top,rest,block,fetched,hstack,htop,?_⟩
      split at hs
      · cases hs
      · rename_i chain hc
        exact .inl ⟨chain,hc,(Progress.running.inj hs).symm⟩
      · rename_i err hc
        split at hs
        · rename_i hlt
          exact .inr ⟨err,hc,hlt,(Progress.running.inj hs).symm⟩
        · cases hs

omit [Bitcoin] in
theorem connectStep_ok {u : Unit} (hs : backend.connectStep s = .ended s' (.ok u)) :
    s.tryIncludes = [] ∧ s' = s := by
  unfold Backend.connectStep at hs
  split at hs
  · rename_i hnil
    exact ⟨hnil,(Progress.ended.inj hs).1.symm⟩
  · split at hs
    · cases hs
    · split at hs
      · cases hs
      · cases hs
      · split at hs <;> cases hs

theorem Backend.Connects.connected (hb : backend.Connects) {height : ℕ} {chain' : WalletChain}
    (hc : backend.handleConnectBlock time chain block height = .ok (.ok chain')) :
    chain' height = some block.blockHash ∧ ∀ n < height, chain' n = chain n := by
  by_cases hown : chain height = some block.blockHash
  · rw [hb.noop _ _ _ _ _ hown hc]
    exact ⟨hown,fun _ _ => rfl⟩
  · rw [hb.places _ _ _ _ _ hown hc]
    refine ⟨?_,fun n hn => if_pos hn⟩
    simp [WalletChain.place]

def Stacked (start : ℕ) (fetched : List (ℕ × Block)) : List TryInclude → Prop
  | [] => True
  | top::rest => top.blockHeight+rest.length = start ∧
      (∀ block ∈ top.block, fetched.lookup top.blockHeight = some block) ∧
      Stacked start fetched rest

omit [Bitcoin] in
theorem Stacked.fetch (hs : Stacked start fetched rest) (hk : k+rest.length ≤ start) :
    Stacked start ((k,block)::fetched) rest := by
  induction rest with
  | nil => trivial
  | cons top rest ih =>
    obtain ⟨hheight,hcached,hrest⟩ := hs
    rw [List.length_cons] at hk
    refine ⟨hheight,fun b hb => ?_,ih hrest (by omega)⟩
    have hne : (top.blockHeight == k) = false := by
      rw [beq_eq_false_iff_ne]
      omega
    rw [List.lookup_cons,hne]
    exact hcached b hb

/-- What holds in each iteration. -/
structure ConnectState.Inv (start : ℕ) (s : ConnectState) : Prop where
  stacked : Stacked start s.fetched s.tryIncludes
  cached : ∀ e ∈ s.tryIncludes.tail, e.block ≠ none
  /-- Below the stack, what was fetched is connected. -/
  connected : ∀ n, (∃ e ∈ s.fetched, e.1 ≤ n) → n+s.tryIncludes.length ≤ start →
    ∃ block, s.fetched.lookup n = some block ∧ s.chain n = some block.blockHash

namespace ConnectState.Inv

theorem init (chain : WalletChain) (start : ℕ) : (ConnectState.init chain start).Inv start := by
  refine ⟨⟨rfl,by simp,trivial⟩,by simp [ConnectState.init],?_⟩
  rintro n ⟨e,he,-⟩
  cases he

/-- Fetching the top's block. -/
theorem topBlock (hi : s.Inv start) (time : ℕ) (hstack : s.tryIncludes = top::rest)
    (htop : backend.topBlock s top = .ok (block,fetched)) :
    (⟨s.chain,⟨top.blockHeight,some block⟩::rest,time,fetched⟩ : ConnectState).Inv start := by
  obtain ⟨hstacked,hcached,hconnected⟩ := hi
  rw [hstack] at hstacked hcached hconnected
  obtain ⟨hheight,hblock,hrest⟩ := hstacked
  unfold Backend.topBlock at htop
  cases hb : top.block with
  | some b =>
    rw [hb] at htop
    obtain ⟨rfl,rfl⟩ := Prod.mk.inj (Except.ok.inj htop)
    refine ⟨⟨hheight,?_,hrest⟩,hcached,hconnected⟩
    rintro b' ⟨⟩
    exact hblock b hb
  | none =>
    rw [hb] at htop
    obtain ⟨b,-,hpure⟩ := Fallible.bind_ok.mp htop
    obtain ⟨rfl,rfl⟩ := Prod.mk.inj (Except.ok.inj hpure)
    refine ⟨⟨hheight,?_,hrest.fetch hheight.le⟩,hcached,?_⟩
    · rintro b' ⟨⟩
      simp
    · rintro n ⟨e,he,hle⟩ hn
      rw [List.length_cons] at hn
      have hne : (n == top.blockHeight) = false := by
        rw [beq_eq_false_iff_ne]
        omega
      rw [List.lookup_cons,hne]
      rcases List.mem_cons.mp he with rfl | he
      · simp only at hle
        omega
      · exact hconnected n ⟨e,he,hle⟩ hn

theorem pop {chain' : WalletChain}
    (hi : (⟨chain,⟨k,some block⟩::rest,time,fetched⟩ : ConnectState).Inv start)
    (hk : chain' k = some block.blockHash) (hbelow : ∀ n < k, chain' n = chain n) :
    (⟨chain',rest,time,fetched⟩ : ConnectState).Inv start := by
  obtain ⟨⟨hheight,hblock,hrest⟩,hcached,hconnected⟩ := hi
  refine ⟨hrest,fun e he => hcached e (List.mem_of_mem_tail he),fun n hfetched hn => ?_⟩
  simp only at hheight hn
  rcases Nat.lt_or_ge n k with hlt | hge
  · obtain ⟨b,hlast,hc⟩ := hconnected n hfetched (by simp only [List.length_cons]; omega)
    exact ⟨b,hlast,(hbelow n hlt).trans hc⟩
  · obtain rfl : n = k := by omega
    exact ⟨block,hblock block rfl,hk⟩

theorem push (hi : (⟨chain,⟨k,some block⟩::rest,time,fetched⟩ : ConnectState).Inv start)
    (hk : 0 < k) :
    (⟨chain,⟨k-1,none⟩::⟨k,some block⟩::rest,time,fetched⟩ : ConnectState).Inv start := by
  obtain ⟨hstacked,hcached,hconnected⟩ := hi
  have hheight := hstacked.1
  simp only at hheight
  refine ⟨⟨?_,by simp,hstacked⟩,?_,fun n hfetched hn => ?_⟩
  · simp only [List.length_cons]
    omega
  · exact List.forall_mem_cons.mpr ⟨by simp,hcached⟩
  · simp only [List.length_cons] at hn
    exact hconnected n hfetched (by simp only [List.length_cons]; omega)

theorem step (hb : backend.Connects) (hi : s.Inv start) (hs : backend.connectStep s = .running s') :
    s'.Inv start := by
  obtain ⟨top,rest,block,fetched,hstack,htop,hor⟩ := connectStep_running hs
  have hcached := hi.topBlock (s.time+1) hstack htop
  rcases hor with ⟨chain,hc,rfl⟩ | ⟨err,-,hlt,rfl⟩
  · obtain ⟨hown,hbelow⟩ := hb.connected hc
    exact hcached.pop hown hbelow
  · exact hcached.push (by omega)

end ConnectState.Inv

section Measure

open Classical

/-- The number of blocks on a stack that are not the parents of those above them. -/
noncomputable def unlinked : List TryInclude → ℕ
  | below::above::rest =>
    (if TryInclude.ParentOf below above then 0 else 1)+unlinked (above::rest)
  | _ => 0

def ConnectState.Ascending (s : ConnectState) : Prop :=
  match s.tryIncludes with
  | ⟨height,some block⟩::_ => WalletChain.Takes s.chain block height
  | _ => False

/-- The heights that are left to go up; while the loop may still go down, that is more than any. -/
noncomputable def phase (start : ℕ) (s : ConnectState) : ℕ :=
  match s.tryIncludes with
  | [] => 0
  | top::rest => if s.Ascending then rest.length+1 else start+2+top.blockHeight

/-- It decreases in an iteration that does not fetch a block of another branch. -/
noncomputable def measure (start : ℕ) (s : ConnectState) : ℕ :=
  unlinked s.tryIncludes*(2*start+4)+phase start s

theorem phase_le (hi : s.Inv start) : phase start s ≤ 2*start+2 := by
  have hstacked := hi.stacked
  unfold phase
  cases hstack : s.tryIncludes with
  | nil => exact Nat.zero_le _
  | cons top rest =>
    rw [hstack] at hstacked
    have hheight := hstacked.1
    simp only
    split <;> omega

theorem phase_ascending (start : ℕ) (hs : s.Ascending) : phase start s = s.tryIncludes.length := by
  have hs' := hs
  unfold ConnectState.Ascending at hs'
  unfold phase
  split at hs'
  · rename_i hstack
    rw [hstack]
    exact if_pos hs
  · exact hs'.elim

theorem phase_not_ascending (start : ℕ) (hs : ¬ s.Ascending) (hstack : s.tryIncludes = top::rest) :
    phase start s = start+2+top.blockHeight := by
  unfold phase
  rw [hstack]
  exact if_neg hs

theorem ascending_pop {chain' : WalletChain}
    (hi : (⟨chain,⟨k,some block⟩::above::rest,time,fetched⟩ : ConnectState).Inv start)
    (hparent : TryInclude.ParentOf ⟨k,some block⟩ above) (hk : chain' k = some block.blockHash) :
    (⟨chain',above::rest,time,fetched⟩ : ConnectState).Ascending := by
  obtain ⟨hheight,-,habove,-⟩ := hi.stacked
  obtain ⟨height,child⟩ := above
  simp only [List.length_cons] at hheight habove
  obtain rfl : height = k+1 := by omega
  cases child with
  | none => exact absurd rfl (hi.cached _ List.mem_cons_self)
  | some child =>
    refine .inr ⟨k,rfl,?_⟩
    rw [hparent block rfl child rfl]
    exact hk

theorem measure_pop {chain' : WalletChain} {n m : ℕ}
    (hi : (⟨chain,⟨k,some block⟩::rest,time,fetched⟩ : ConnectState).Inv start)
    (hi' : (⟨chain',rest,time,fetched⟩ : ConnectState).Inv start)
    (hk : chain' k = some block.blockHash)
    (hn : n = unlinked (⟨k,some block⟩::rest)) (hm : rest.length < m) :
    measure start ⟨chain',rest,time,fetched⟩ < n*(2*start+4)+m := by
  subst hn
  cases rest with
  | nil =>
    simp only [measure,unlinked,phase]
    omega
  | cons above rest =>
    simp only [measure,unlinked]
    by_cases hparent : TryInclude.ParentOf ⟨k,some block⟩ above
    · have hphase := phase_ascending start (ascending_pop hi hparent hk)
      rw [hphase,if_pos hparent,Nat.zero_add]
      exact Nat.add_lt_add_left hm _
    · have hle := phase_le hi'
      rw [if_neg hparent,Nat.add_mul]
      omega

theorem unlinked_topBlock (hg : s.FetchesParent backend) (hstack : s.tryIncludes = top::rest)
    (htop : backend.topBlock s top = .ok (block,fetched)) :
    unlinked (⟨top.blockHeight,some block⟩::rest) = unlinked (top::rest) := by
  obtain ⟨height,known⟩ := top
  cases known with
  | some b =>
    obtain ⟨rfl,-⟩ := Prod.mk.inj (Except.ok.inj htop)
    rfl
  | none =>
    obtain ⟨b,hfetch,hpure⟩ := Fallible.bind_ok.mp htop
    obtain ⟨rfl,-⟩ := Prod.mk.inj (Except.ok.inj hpure)
    cases rest with
    | nil => rfl
    | cons above rest =>
      unfold ConnectState.FetchesParent at hg
      rw [hstack] at hg
      have hnone : TryInclude.ParentOf ⟨height,none⟩ above := by
        rintro block ⟨⟩
      rw [unlinked,unlinked,if_pos (hg b hfetch),if_pos hnone]

theorem not_ascending (hb : backend.Connects) (hstack : s.tryIncludes = top::rest)
    (htop : backend.topBlock s top = .ok (block,fetched)) {err : CannotConnectError}
    (hc : backend.handleConnectBlock s.time s.chain block top.blockHeight = .ok (.error err)) :
    ¬ s.Ascending := by
  intro ha
  unfold ConnectState.Ascending at ha
  rw [hstack] at ha
  obtain ⟨height,known⟩ := top
  cases known with
  | none => exact ha
  | some b =>
    obtain ⟨rfl,-⟩ := Prod.mk.inj (Except.ok.inj htop)
    exact hb.takes _ _ _ _ _ ha hc

theorem measure_step (hb : backend.Connects) (hi : s.Inv start) (hg : s.FetchesParent backend)
    (hs : backend.connectStep s = .running s') : measure start s' < measure start s := by
  obtain ⟨top,rest,block,fetched,hstack,htop,hor⟩ := connectStep_running hs
  have hi' := hi.step hb hs
  have hcached := hi.topBlock (s.time+1) hstack htop
  have hlinked := unlinked_topBlock hg hstack htop
  have hheight := hcached.stacked.1
  rw [measure.eq_def start s,hstack]
  rcases hor with ⟨chain,hc,rfl⟩ | ⟨err,hc,hlt,rfl⟩
  · have hphase : rest.length < phase start s := by
      by_cases ha : s.Ascending
      · rw [phase_ascending start ha,hstack]
        exact Nat.lt_succ_self _
      · rw [phase_not_ascending start ha hstack]
        simp only at hheight
        omega
    exact measure_pop hcached hi' (hb.connected hc).1 hlinked.symm hphase
  · have hnone : TryInclude.ParentOf ⟨top.blockHeight-1,none⟩ ⟨top.blockHeight,some block⟩ := by
      rintro block ⟨⟩
    have hnext : ¬ ConnectState.Ascending ⟨s.chain,⟨top.blockHeight-1,none⟩::
        ⟨top.blockHeight,some block⟩::rest,s.time+1,fetched⟩ := id
    have hphase := phase_not_ascending start hnext rfl
    rw [phase_not_ascending start (not_ascending hb hstack htop hc) hstack,← hlinked,measure,hphase]
    simp only [unlinked,if_pos hnone,Nat.zero_add]
    omega

end Measure

theorem connectMissingBlock_ok (hb : backend.Connects) {n : ℕ} {u : Unit}
    (hn : backend.connectMissingBlock chain start n = .ended s (.ok u)) : s.AllConnected start := by
  obtain ⟨m,s₁,hm,hlast⟩ := iterate_last hn
  obtain ⟨hnil,rfl⟩ := connectStep_ok hlast
  have hi := iterate_inv (fun _ _ hi hs => hi.step hb hs) (ConnectState.Inv.init chain start) hm
  intro n hfetched hle
  exact hi.connected n hfetched (by rw [hnil]; simpa using hle)

/-- The blocks on the stack were served by the node at their heights. -/
def ConnectState.Served (backend : Backend ε) (s : ConnectState) : Prop :=
  ∀ e ∈ s.tryIncludes, ∀ block ∈ e.block, ∃ time, backend.fetch time e.blockHeight = .ok block

omit [Bitcoin] in
theorem ConnectState.Served.step (hserved : s.Served backend)
    (hs : backend.connectStep s = .running s') : s'.Served backend := by
  obtain ⟨top,rest,block,fetched,hstack,htop,hor⟩ := connectStep_running hs
  unfold ConnectState.Served at hserved
  rw [hstack] at hserved
  have hrest : ∀ e ∈ rest, ∀ block ∈ e.block, ∃ time, backend.fetch time e.blockHeight = .ok block :=
    fun e he => hserved e (List.mem_cons_of_mem _ he)
  rcases hor with ⟨chain,-,rfl⟩ | ⟨err,-,-,rfl⟩
  · exact hrest
  · refine List.forall_mem_cons.mpr ⟨by simp,List.forall_mem_cons.mpr ⟨?_,hrest⟩⟩
    rintro b ⟨⟩
    unfold Backend.topBlock at htop
    cases hknown : top.block with
    | some b =>
      rw [hknown] at htop
      obtain ⟨rfl,-⟩ := Prod.mk.inj (Except.ok.inj htop)
      exact hserved top List.mem_cons_self b hknown
    | none =>
      rw [hknown] at htop
      obtain ⟨b,hfetch,hpure⟩ := Fallible.bind_ok.mp htop
      obtain ⟨rfl,-⟩ := Prod.mk.inj (Except.ok.inj hpure)
      exact ⟨s.time,hfetch⟩

/-- A node that stays on one branch always serves the parent. -/
theorem badSteps_eq_empty (hb : backend.Connects) (chain : WalletChain) (start : ℕ)
    (hnode : ∀ time time' height block child, backend.fetch time height = .ok block →
      backend.fetch time' (height+1) = .ok child → child.header.prevBlockhash = block.blockHash) :
    badSteps backend.connectStep (ConnectState.FetchesParent backend) (.init chain start) = ∅ := by
  refine Set.eq_empty_of_forall_notMem ?_
  rintro n ⟨s,hn,hbad⟩
  have hinv : s.Inv start ∧ s.Served backend :=
    iterate_inv (I := fun s => s.Inv start ∧ s.Served backend)
      (fun _ _ hi hs => ⟨hi.1.step hb hs,hi.2.step hs⟩)
      ⟨ConnectState.Inv.init chain start,by simp [ConnectState.Served,ConnectState.init]⟩ hn
  apply hbad
  unfold ConnectState.FetchesParent
  split
  · rename_i height above rest hstack
    obtain ⟨hi,hserved⟩ := hinv
    have hstacked := hi.stacked
    rw [hstack] at hstacked
    obtain ⟨hheight,-,habove,-⟩ := hstacked
    simp only [List.length_cons] at hheight
    rintro block hfetch _ ⟨⟩ child hchild
    obtain ⟨time,htime⟩ := hserved above (by simp [hstack]) child hchild
    obtain hsucc : above.blockHeight = height+1 := by omega
    rw [hsucc] at htime
    exact hnode _ _ _ _ _ hfetch htime
  · trivial

/-- Connecting missing blocks ends, with all of them connected if it succeeds, exactly if finitely
often a block is fetched that is not the parent of the one that waits above it. -/
theorem connectMissingBlock_ends_iff (hb : backend.Connects) (chain : WalletChain) (start : ℕ) :
    (∃ n s result, backend.connectMissingBlock chain start n = .ended s result ∧
        (result = .ok () → s.AllConnected start)) ↔
      (badSteps backend.connectStep (ConnectState.FetchesParent backend)
        (.init chain start)).Finite := by
  rw [← ends_iff_badSteps_finite (measure start) (fun _ _ hi hs => ConnectState.Inv.step hb hi hs)
    (fun _ _ hi hg hs => measure_step hb hi hg hs) (ConnectState.Inv.init chain start)]
  constructor
  · rintro ⟨n,s,result,hn,-⟩
    exact ⟨n,s,result,hn⟩
  · rintro ⟨n,s,result,hn⟩
    exact ⟨n,s,result,hn,fun hok => connectMissingBlock_ok hb (hok ▸ hn)⟩

end Connects

section Sample

open Sample

namespace ConnectSample

def genesis : Block := blockOn allZeros 0 [] []

def parent : Block := blockOn genesis.blockHash 1 [] []

def child : Block := blockOn parent.blockHash 2 [] []

def replacement : Block := blockOn genesis.blockHash 3 [] []

theorem replacement_ne : replacement.blockHash ≠ parent.blockHash := by decide +kernel

def connect (chain : WalletChain) (block : Block) (height : ℕ) :
    Except CannotConnectError WalletChain :=
  if chain height = some block.blockHash then .ok chain
  else if 0 < height ∧ chain (height-1) = some block.header.prevBlockhash then
    .ok (chain.place height block.blockHash)
  else .error ⟨0⟩

def node (below : Block) : Backend Unit where
  getblockhash
    | _, 0 => .ok genesis.blockHash
    | _, 1 => .ok below.blockHash
    | _, 2 => .ok child.blockHash
    | _, _ => .error ()
  getBlock _ blockHash :=
    if blockHash = child.blockHash then .ok child
    else if blockHash = below.blockHash then .ok below
    else if blockHash = genesis.blockHash then .ok genesis
    else .error ()
  handleConnectBlock _ chain block height := .ok (connect chain block height)

theorem connects_node (below : Block) : (node below).Connects := by
  constructor
  · intro time chain block height err htakes heq
    have hc : connect chain block height = .error err := Except.ok.inj heq
    unfold connect at hc
    split at hc
    · cases hc
    · rename_i hown
      rcases htakes with htakes | ⟨n,rfl,hparent⟩
      · exact hown htakes
      · rw [if_pos ⟨Nat.succ_pos n,hparent⟩] at hc
        cases hc
  · intro time chain block height chain' hown heq
    have hc : connect chain block height = .ok chain' := Except.ok.inj heq
    rw [connect,if_pos hown] at hc
    exact (Except.ok.inj hc).symm
  · intro time chain block height chain' hown heq
    have hc : connect chain block height = .ok chain' := Except.ok.inj heq
    rw [connect,if_neg hown] at hc
    split at hc
    · exact (Except.ok.inj hc).symm
    · cases hc

theorem handle_node (below : Block) (time : ℕ) (chain : WalletChain) (block : Block) (height : ℕ) :
    (node below).handleConnectBlock time chain block height = .ok (connect chain block height) := rfl

theorem fetch_child (below : Block) (time : ℕ) : (node below).fetch time 2 = .ok child :=
  Backend.fetch_ok rfl (by simp [node])

theorem fetch_below (below : Block) (hne : below.blockHash ≠ child.blockHash) (time : ℕ) :
    (node below).fetch time 1 = .ok below :=
  Backend.fetch_ok rfl (by simp [node,hne])

theorem fetch_genesis (time : ℕ) : (node parent).fetch time 0 = .ok genesis := by
  have h₁ : genesis.blockHash ≠ child.blockHash := by decide +kernel
  have h₂ : genesis.blockHash ≠ parent.blockHash := by decide +kernel
  exact Backend.fetch_ok rfl (by simp [node,h₁,h₂])

theorem fetch_above (below : Block) (time n : ℕ) :
    (node below).fetch time (n+3) = .error (.getBlockHash ()) := rfl

def chain : WalletChain := fun n => if n = 0 then some genesis.blockHash else none

structure Waits (s : ConnectState) : Prop where
  first : s.chain 0 = some genesis.blockHash
  second : s.chain 1 ≠ some parent.blockHash
  third : s.chain 2 ≠ some child.blockHash
  stack : s.tryIncludes ∈ [[⟨2,none⟩],[⟨2,some child⟩],[⟨1,none⟩,⟨2,some child⟩]]

theorem waits_step (s : ConnectState) (hs : Waits s) :
    ∃ s', (node replacement).connectStep s = .running s' ∧ Waits s' := by
  obtain ⟨chain,stack,time,fetched⟩ := s
  obtain ⟨h₀,h₁,h₂,hstack⟩ := hs
  have hchild : connect chain child 2 = .error ⟨0⟩ := by
    rw [connect,if_neg h₂,if_neg (fun hp => h₁ hp.2)]
  simp only [List.mem_cons,List.not_mem_nil,or_false] at h₀ h₁ h₂ hstack
  rcases hstack with rfl | rfl | rfl
  · refine ⟨⟨chain,[⟨1,none⟩,⟨2,some child⟩],time+1,(2,child)::fetched⟩,?_,h₀,h₁,h₂,by simp⟩
    simp [Backend.connectStep,Backend.topBlock,fetch_child,handle_node,hchild]
  · refine ⟨⟨chain,[⟨1,none⟩,⟨2,some child⟩],time+1,fetched⟩,?_,h₀,h₁,h₂,by simp⟩
    simp [Backend.connectStep,Backend.topBlock,handle_node,hchild]
  · have hfetch := fetch_below replacement (by decide +kernel) time
    by_cases hown : chain 1 = some replacement.blockHash
    · refine ⟨⟨chain,[⟨2,some child⟩],time+1,(1,replacement)::fetched⟩,?_,h₀,h₁,h₂,by simp⟩
      simp [Backend.connectStep,Backend.topBlock,handle_node,hfetch,connect,hown]
    · refine ⟨⟨chain.place 1 replacement.blockHash,[⟨2,some child⟩],time+1,(1,replacement)::fetched⟩,
        ?_,h₀,?_,by simp [WalletChain.place],by simp⟩
      · have hprev : chain 0 = some replacement.header.prevBlockhash := h₀
        simp [Backend.connectStep,Backend.topBlock,handle_node,hfetch,connect,hown,hprev]
      · simpa [WalletChain.place] using replacement_ne

end ConnectSample

open ConnectSample

theorem connectMissingBlock_ends_iff_sample :
    ∃ n s result, (node parent).connectMissingBlock chain 2 n = .ended s result ∧
      (result = .ok () → s.AllConnected 2) := by
  refine (connectMissingBlock_ends_iff (connects_node parent) chain 2).mpr ?_
  rw [badSteps_eq_empty (connects_node parent) chain 2 ?_]
  · exact Set.finite_empty
  · intro time time' height block block' hblock hblock'
    rcases height with _ | _ | n
    · rw [fetch_genesis] at hblock
      rw [fetch_below parent (by decide +kernel)] at hblock'
      rw [← Except.ok.inj hblock,← Except.ok.inj hblock']
      rfl
    · rw [fetch_below parent (by decide +kernel)] at hblock
      rw [fetch_child] at hblock'
      rw [← Except.ok.inj hblock,← Except.ok.inj hblock']
      rfl
    · rw [fetch_above] at hblock'
      cases hblock'

/-- After a reorg has replaced the block below a fetched one, the loop does not end. -/
theorem connectMissingBlock_loops :
    (node replacement).Connects ∧
      ¬ ∃ n s result, (node replacement).connectMissingBlock chain 2 n = .ended s result :=
  ⟨connects_node replacement,not_ends waits_step ⟨rfl,by simp [ConnectState.init,chain],
    by simp [ConnectState.init,chain],by simp [ConnectState.init]⟩⟩

end Sample

end Bip300301Enforcer
