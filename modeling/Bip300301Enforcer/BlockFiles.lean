import Bip300301Enforcer.ReorgStep

/-! Syncing blocks from the block files of the node. Blocks move from the missing ones
into a batch, directly or through a cache, and from there into the database. -/
namespace Bip300301Enforcer
open Lib Chain BlockHandler Walk

/-- A block as the parser of the block files yields it. Its transactions are parsed on
demand. -/
structure FileBlock where
  header : Header
  txdata : Except BlockFilesError (List Transaction)

/-- Blocks that were read before they are needed, the oldest first. -/
structure BlockCache where
  blocks : OrderMap BlockHash Block
  maxSize : ℕ

namespace BlockCache

def new (maxSize : ℕ) : BlockCache := ⟨.empty,maxSize⟩

/-- Evict the oldest blocks until there is room for one more. -/
def evict (cache : BlockCache) : BlockCache :=
  { cache with blocks :=
      ⟨cache.blocks.entries.drop (cache.blocks.len+1-cache.maxSize),
        cache.blocks.nodup.sublist ((List.drop_sublist _ _).map _)⟩ }

def insert (cache : BlockCache) (blockHash : BlockHash) (block : Block) : BlockCache :=
  if cache.blocks.contains blockHash then cache
  else { cache.evict with blocks := cache.evict.blocks.insert blockHash block }

def remove (cache : BlockCache) (blockHash : BlockHash) : Option (Block × BlockCache) :=
  (cache.blocks.get? blockHash).map
    (fun block => (block,{ cache with blocks := cache.blocks.remove blockHash }))

end BlockCache

def maxBlockCacheSize : ℕ := 5000

def maxIterationsWithoutMatch : ℕ := 5000

def blocksDirConnectBatchSize : ℕ := 2000

/-- State of the sync from the block files. The missing blocks are listed with the next
one first, that is, read from the end of the vector. -/
structure FileSync where
  dbs : Dbs
  events : List Event
  missing : List BlockHash
  pending : List Block
  cache : BlockCache
  hasFoundStart : Bool
  iterationsWithoutMatch : ℕ
  iterationCount : ℕ
  totalHandledBlocks : ℕ
  /-- How many transactions were opened. -/
  transactions : ℕ
  /-- The invalid blocks that were logged. -/
  rejected : List InvalidBlock

namespace FileSync

def start (dbs : Dbs) (missing : List BlockHash) : FileSync :=
  ⟨dbs,[],missing,[],.new maxBlockCacheSize,false,0,0,0,0,[]⟩

def stage (s : FileSync) (block : Block) : FileSync :=
  { s with pending := s.pending++[block], missing := s.missing.tail }

def cacheBlock [Bitcoin] (s : FileSync) (block : Block) : FileSync :=
  { s with cache := s.cache.insert block.blockHash block }

end FileSync

namespace BlockHandler
open FileSync

variable [Bitcoin] (h : BlockHandler)

/-- Hand back blocks that were staged and not committed, the latest one first. -/
def restorePendingBlocks (missing : List BlockHash) (pending : List Block) : List BlockHash :=
  pending.reverse.foldl (fun missing block => block.blockHash::missing) missing

section Faults

-- which transactions of the database fail, and whether the sync is cancelled when an
-- iteration begins
variable (fault cancelled : ℕ → Bool)

/-- Connect the batch. The result says whether the sync may go on. -/
def connectPendingBlocks (s : FileSync) : Except SyncError Bool × FileSync :=
  let s := { s with transactions := s.transactions+1 }
  if fault s.transactions then (.error .transaction,s)
  else
    let p := h.handleBlockBatchAndCommit s.dbs s.pending
    match p.result with
    | .error err => (.error (.block err),s)
    | .ok none =>
      (.ok true,{ s with
        dbs := p.dbs, events := s.events++p.events, pending := []
        totalHandledBlocks := s.totalHandledBlocks+s.pending.length })
    | .ok (some invalid) =>
      let s := { s with
        dbs := p.dbs, events := s.events++p.events, rejected := s.rejected++[invalid] }
      match s.pending.findIdx? (fun block => block.blockHash = invalid.blockHash) with
      | none => (.error (.block (.panic .rejectedBlockIndex)),s)
      | some rejectedIdx =>
        (.ok false,{ s with
          missing := restorePendingBlocks s.missing (s.pending.drop rejectedIdx), pending := []
          totalHandledBlocks := s.totalHandledBlocks+rejectedIdx })

def connectFullBatch (s : FileSync) : Except SyncError Bool × FileSync :=
  if blocksDirConnectBatchSize ≤ s.pending.length || s.missing.isEmpty then
    h.connectPendingBlocks fault s
  else (.ok true,s)

/-- Connect what is left in the batch, whether or not a block is rejected. -/
def connectRemaining (s : FileSync) : Except SyncError Unit × FileSync :=
  if s.pending.isEmpty then (.ok (),s)
  else
    match h.connectPendingBlocks fault s with
    | (.error err,s) => (.error err,s)
    | (.ok _,s) => (.ok (),s)

/-- Take the next missing blocks from the cache. Every round takes one, so that there
are no more rounds than missing blocks. -/
def processCachedBlocks : ℕ → FileSync → Except SyncError Bool × FileSync
  | 0, s => (.ok true,s)
  | n+1, s =>
    match s.missing with
    | [] => (.ok true,s)
    | expected::_ =>
      match s.cache.remove expected with
      | none => (.ok true,s)
      | some (block,cache) =>
        match h.connectFullBatch fault ({ s with cache }.stage block) with
        | (.ok true,s) => processCachedBlocks n s
        | r => r

/-- Handle one block of the files. The result says whether the loop goes on. -/
def handleFileBlock (firstMissingBlock : BlockHash) (block : FileBlock) (s : FileSync) :
    Except SyncError Bool × FileSync :=
  if !s.hasFoundStart && block.header.blockHash ≠ firstMissingBlock then
    match block.txdata with
    | .error err => (.error (.blockFiles err),s)
    | .ok txdata => (.ok true,s.cacheBlock ⟨block.header,txdata⟩)
  else
    let s := { s with hasFoundStart := true }
    match s.missing with
    | [] => (.ok false,s)
    | expected::_ =>
      if block.header.blockHash = expected then
        let s := { s with iterationsWithoutMatch := 0 }
        match block.txdata with
        | .error err => (.error (.blockFiles err),s)
        | .ok txdata =>
          match h.connectFullBatch fault (s.stage ⟨block.header,txdata⟩) with
          | (.ok true,s) => h.processCachedBlocks fault s.missing.length s
          | r => r
      else
        match block.txdata with
        | .error err => (.error (.blockFiles err),s)
        | .ok txdata =>
          let s := { s.cacheBlock ⟨block.header,txdata⟩ with
            iterationsWithoutMatch := s.iterationsWithoutMatch+1 }
          if maxIterationsWithoutMatch ≤ s.iterationsWithoutMatch then
            match h.connectRemaining fault s with
            | (.error err,s) => (.error err,s)
            | (.ok (),s) => (.ok false,s)
          else (.ok true,s)

/-- Whether the sync is cancelled is read every 100 iterations. The batch is still
connected. -/
def checkShutdown (s : FileSync) : Option (Except SyncError Unit × FileSync) :=
  if s.iterationCount%100 = 0 && cancelled s.iterationCount then
    match h.connectRemaining fault s with
    | (.error err,s) => some (.error err,s)
    | (.ok (),s) => some (.error .shutdown,s)
  else none

/-- The loop over what the parser yields. -/
def fileLoop (firstMissingBlock : BlockHash) :
    List (Except BlockFilesError FileBlock) → FileSync → Except SyncError Unit × FileSync
  | [], s =>
    match h.checkShutdown fault cancelled s with
    | some r => r
    | none => (.ok (),{ s with iterationCount := s.iterationCount+1 })
  | entry::entries, s =>
    match h.checkShutdown fault cancelled s with
    | some r => r
    | none =>
      let s := { s with iterationCount := s.iterationCount+1 }
      match entry with
      | .error err => (.error (.blockFiles err),s)
      | .ok block =>
        match h.handleFileBlock fault firstMissingBlock block s with
        | (.error err,s) => (.error err,s)
        | (.ok false,s) => (.ok (),s)
        | (.ok true,s) => fileLoop firstMissingBlock entries s

/-- Read the block files from the first missing block on. Opening them is looking up
that block, except for the genesis block, and yields the entries that follow it. -/
def syncFromDirectoryInner
    (directory : BlockHash → Except BlockFilesError (List (Except BlockFilesError FileBlock)))
    (s : FileSync) : Except SyncError ℕ × FileSync :=
  match s.missing with
  | [] => (.error (.block (.panic .missingBlocksEmpty)),s)
  | firstMissingBlock::rest =>
    match directory firstMissingBlock with
    | .error err => (.error (.blockFiles err),s)
    | .ok entries =>
      if fault 0 then (.error .transaction,s)
      else
        match Database.get s.dbs.blockHashes.height .height (rest.getLastD firstMissingBlock) with
        | .error err => (.error (.block err),s)
        | .ok _ =>
          match h.fileLoop fault cancelled firstMissingBlock entries s with
          | (.error err,s) => (.error err,s)
          | (.ok (),s) =>
            match h.connectRemaining fault s with
            | (.error err,s) => (.error err,s)
            | (.ok (),s) => (.ok s.totalHandledBlocks,s)

/-- Sync blocks from the block files. Unless the process stops, blocks that are staged and
not committed are handed back. -/
def syncFromDirectory
    (directory : BlockHash → Except BlockFilesError (List (Except BlockFilesError FileBlock)))
    (dbs : Dbs) (missing : List BlockHash) : Except SyncError ℕ × FileSync :=
  match h.syncFromDirectoryInner fault cancelled directory (.start dbs missing) with
  | (.error err,s) =>
    (.error err,if err.panics then s
      else { s with missing := restorePendingBlocks s.missing s.pending })
  | (.ok n,s) => (.ok n,{ s with missing := restorePendingBlocks s.missing s.pending })

end Faults

def missingBlocksConnectToTip (dbs : Dbs) (missing : List BlockHash) (mainTip : BlockHash) :
    Res Bool :=
  match missing with
  | nextBlock::_ => do
    let headerInfo ← dbs.blockHashes.getHeaderInfo nextBlock
    return headerInfo.prevBlockHash = dbs.currentChainTip.getD allZeros
  | [] => .ok (dbs.currentChainTip.getD allZeros = mainTip)

end BlockHandler

section Tracking

variable [Bitcoin] {h : BlockHandler} {dbs dbs₀ : Dbs} {missing₀ : List BlockHash} {s : FileSync}
  {committed blocks : List Block}

/-- The blocks of a batch are connected up to the first one that is rejected. -/
theorem handleBlockBatch_ok {r : Option InvalidBlock} {events : List Event} {dbs' : Dbs}
    (hb : h.handleBlockBatch dbs blocks = .ok (r,events,dbs')) :
    ∃ accepted rest, blocks = accepted++rest ∧ h.connectEach dbs accepted = ⟨.ok none,dbs',events⟩ ∧
      ((rest = [] ∧ r = none) ∨
        ∃ b bs e, rest = b::bs ∧ h.connectBlock dbs' b = .error e ∧ r = some ⟨b.blockHash,e⟩) := by
  induction blocks generalizing dbs r events with
  | nil =>
    obtain ⟨rfl,rfl,rfl⟩ := Prod.mk.inj (Except.ok.inj hb) |>.imp id Prod.mk.inj
    exact ⟨[],[],rfl,rfl,.inl ⟨rfl,rfl⟩⟩
  | cons b bs ih =>
    unfold handleBlockBatch at hb
    cases hc : h.connectBlock dbs b with
    | ok e =>
      obtain ⟨event,dbs₁⟩ := e
      simp only [hc] at hb
      obtain ⟨⟨r',events',dbs₂⟩,hb',hb⟩ := Fallible.bind_ok.mp hb
      simp only [Fallible.pure_ok,Prod.mk.injEq] at hb
      obtain ⟨rfl,rfl,rfl⟩ := hb
      obtain ⟨accepted,rest,rfl,hacc,hres⟩ := ih hb'
      refine ⟨b::accepted,rest,rfl,?_,hres⟩
      rw [connectEach,connectAndCommit_ok hc,Processed.andThen_none rfl,hacc]
      rfl
    | error e =>
      simp only [hc] at hb
      split at hb
      · obtain ⟨rfl,rfl,rfl⟩ := Prod.mk.inj (Except.ok.inj hb) |>.imp id Prod.mk.inj
        exact ⟨[],b::bs,rfl,rfl,.inr ⟨b,bs,e,rfl,hc,rfl⟩⟩
      · cases hb
      · cases hb

theorem restorePendingBlocks_eq (missing : List BlockHash) (pending : List Block) :
    restorePendingBlocks missing pending = pending.map Block.blockHash++missing := by
  induction pending generalizing missing with
  | nil => rfl
  | cons b pending ih =>
    unfold restorePendingBlocks at ih ⊢
    rw [List.reverse_cons,List.foldl_append,ih]
    rfl

def BlockCache.Keyed (cache : BlockCache) : Prop :=
  ∀ e ∈ cache.blocks.entries, e.2.blockHash = e.1

theorem BlockCache.keyed_insert {cache : BlockCache} (hc : cache.Keyed) (block : Block) :
    (cache.insert block.blockHash block).Keyed := by
  unfold insert
  split
  · exact hc
  · have hevict : cache.evict.Keyed := fun e he => hc e (List.mem_of_mem_drop he)
    rintro ⟨k,b⟩ he
    have hget := OrderMap.mem_entries.mp he
    rw [OrderMap.get?_insert] at hget
    split at hget
    · rename_i hk
      rw [← Option.some.inj hget,hk]
    · exact hevict _ (OrderMap.mem_entries.mpr hget)

theorem BlockCache.remove_some {cache cache' : BlockCache} {k : BlockHash} {block : Block}
    (hc : cache.Keyed) (hr : cache.remove k = some (block,cache')) :
    block.blockHash = k ∧ cache'.Keyed := by
  obtain ⟨b,hb,he⟩ := Option.map_eq_some_iff.mp hr
  obtain ⟨rfl,rfl⟩ := Prod.mk.inj he
  exact ⟨hc _ (OrderMap.mem_entries.mpr hb),fun e he => hc e (List.mem_of_mem_filter he)⟩

/-- Where the blocks are that were missing at first: the committed ones are connected one
after another, then come the batch and the ones that are still missing. After a rejection
the batch is empty and the rejected block is the next one. -/
structure FileSync.Tracks (h : BlockHandler) (dbs₀ : Dbs) (missing₀ : List BlockHash)
    (committed : List Block) (s : FileSync) : Prop where
  order : (committed++s.pending).map Block.blockHash++s.missing = missing₀
  connected : h.connectEach dbs₀ committed = ⟨.ok none,s.dbs,s.events⟩
  handled : s.totalHandledBlocks = committed.length
  keyed : s.cache.Keyed
  rejected : s.rejected = [] ∨ (s.pending = [] ∧ ∃ invalid,
    s.rejected = [invalid] ∧ s.missing.head? = some invalid.blockHash)

/-- What is known after a part of the loop that may be followed by more. -/
def Tracked (h : BlockHandler) (dbs₀ : Dbs) (missing₀ : List BlockHash)
    (r : Except SyncError Bool × FileSync) : Prop :=
  (∃ committed, r.2.Tracks h dbs₀ missing₀ committed) ∧ (r.1 = .ok true → r.2.rejected = [])

/-- Connecting the batch moves its blocks to the committed ones, or back to the missing
ones. -/
theorem connectPendingBlocks_tracked (fault : ℕ → Bool) (hn : missing₀.Nodup)
    (hs : s.Tracks h dbs₀ missing₀ committed) (hr : s.rejected = []) :
    Tracked h dbs₀ missing₀ (h.connectPendingBlocks fault s) := by
  unfold connectPendingBlocks
  simp only
  split
  · exact ⟨⟨committed,hs.order,hs.connected,hs.handled,hs.keyed,hs.rejected⟩,fun he => by cases he⟩
  unfold handleBlockBatchAndCommit
  cases hb : h.handleBlockBatch s.dbs s.pending with
  | error err =>
    exact ⟨⟨committed,hs.order,hs.connected,hs.handled,hs.keyed,hs.rejected⟩,fun he => by cases he⟩
  | ok p =>
    obtain ⟨r,events,dbs'⟩ := p
    obtain ⟨accepted,rest,hsplit,hacc,hres⟩ := handleBlockBatch_ok hb
    have hconnected : h.connectEach dbs₀ (committed++accepted) =
        ⟨.ok none,dbs',s.events++events⟩ := by
      rw [connectEach_append,hs.connected,Processed.andThen_none rfl,hacc]
    rcases hres with ⟨rfl,rfl⟩ | ⟨b,bs,e,rfl,-,rfl⟩
    · rw [List.append_nil] at hsplit
      refine ⟨⟨committed++accepted,?_,hconnected,?_,hs.keyed,.inl hr⟩,fun _ => hr⟩
      · rw [← hs.order,hsplit]
        simp
      · rw [List.length_append,hs.handled,hsplit]
    · -- the position of the rejected block is found by its hash
      have hidx : s.pending.findIdx? (fun block => block.blockHash = b.blockHash) =
          some accepted.length := by
        have hnodup : (s.pending.map Block.blockHash).Nodup := by
          rw [← hs.order,List.map_append,List.append_assoc] at hn
          exact (List.nodup_append.mp (List.nodup_append.mp hn).2.1).1
        rw [hsplit,List.map_append,List.map_cons] at hnodup
        rw [hsplit,List.findIdx?_append]
        have hnone : accepted.findIdx? (fun block => block.blockHash = b.blockHash) = none := by
          rw [List.findIdx?_eq_none_iff]
          intro x hx
          simp only [decide_eq_false_iff_not]
          intro he
          exact (List.nodup_append.mp hnodup).2.2 _ (List.mem_map_of_mem hx) _
            (List.mem_cons_self ..) he
        rw [hnone,List.findIdx?_cons]
        simp
      simp only [hidx]
      refine ⟨⟨committed++accepted,?_,hconnected,?_,hs.keyed,.inr ⟨rfl,⟨b.blockHash,e⟩,?_,?_⟩⟩,
        fun he => by cases he⟩
      · rw [← hs.order,hsplit,restorePendingBlocks_eq,List.drop_left]
        simp
      · rw [List.length_append,hs.handled]
      · rw [hr]
        rfl
      · rw [restorePendingBlocks_eq,hsplit,List.drop_left]
        rfl

theorem FileSync.Tracks.stage {k : BlockHash} {rest : List BlockHash} (block : Block)
    (hs : s.Tracks h dbs₀ missing₀ committed) (hr : s.rejected = []) (hm : s.missing = k::rest)
    (hb : block.blockHash = k) : (s.stage block).Tracks h dbs₀ missing₀ committed := by
  refine ⟨?_,hs.connected,hs.handled,hs.keyed,.inl hr⟩
  rw [← hs.order,hm]
  simp [FileSync.stage,hm,hb]

theorem connectFullBatch_tracked (fault : ℕ → Bool) (hn : missing₀.Nodup)
    (hs : s.Tracks h dbs₀ missing₀ committed) (hr : s.rejected = []) :
    Tracked h dbs₀ missing₀ (h.connectFullBatch fault s) := by
  unfold connectFullBatch
  split
  · exact connectPendingBlocks_tracked fault hn hs hr
  · exact ⟨⟨committed,hs⟩,fun _ => hr⟩

theorem connectRemaining_tracked (fault : ℕ → Bool) (hn : missing₀.Nodup)
    (hs : s.Tracks h dbs₀ missing₀ committed) :
    ∃ committed, (h.connectRemaining fault s).2.Tracks h dbs₀ missing₀ committed := by
  unfold connectRemaining
  split
  · exact ⟨committed,hs⟩
  · rename_i hne
    have hr : s.rejected = [] := by
      rcases hs.rejected with hr | ⟨hp,-⟩
      · exact hr
      · rw [hp] at hne
        exact absurd rfl hne
    have ht := (connectPendingBlocks_tracked fault hn hs hr).1
    split
    · rename_i hc
      rwa [hc] at ht
    · rename_i hc
      rwa [hc] at ht

theorem processCachedBlocks_tracked (fault : ℕ → Bool) (hn : missing₀.Nodup) (n : ℕ)
    (hs : s.Tracks h dbs₀ missing₀ committed) (hr : s.rejected = []) :
    Tracked h dbs₀ missing₀ (h.processCachedBlocks fault n s) := by
  induction n generalizing s committed with
  | zero => exact ⟨⟨committed,hs⟩,fun _ => hr⟩
  | succ n ih =>
    unfold processCachedBlocks
    split
    · exact ⟨⟨committed,hs⟩,fun _ => hr⟩
    · rename_i k rest hm
      split
      · exact ⟨⟨committed,hs⟩,fun _ => hr⟩
      · rename_i block cache hremove
        obtain ⟨hb,hkeyed⟩ := BlockCache.remove_some hs.keyed hremove
        have hs' : ({ s with cache }).Tracks h dbs₀ missing₀ committed :=
          ⟨hs.order,hs.connected,hs.handled,hkeyed,hs.rejected⟩
        have ht := connectFullBatch_tracked fault hn (hs'.stage block hr hm hb) hr
        split
        · rename_i s' hc
          rw [hc] at ht
          obtain ⟨⟨committed',hs'⟩,hr'⟩ := ht
          exact ih hs' (hr' rfl)
        · exact ht

theorem FileSync.Tracks.cacheBlock (hs : s.Tracks h dbs₀ missing₀ committed) (block : Block) :
    (s.cacheBlock block).Tracks h dbs₀ missing₀ committed :=
  ⟨hs.order,hs.connected,hs.handled,BlockCache.keyed_insert hs.keyed block,hs.rejected⟩

/-- One block of the files loses no block. -/
theorem handleFileBlock_tracked (fault : ℕ → Bool) (hn : missing₀.Nodup) (first : BlockHash)
    (block : FileBlock) (hs : s.Tracks h dbs₀ missing₀ committed) (hr : s.rejected = []) :
    Tracked h dbs₀ missing₀ (h.handleFileBlock fault first block s) := by
  unfold handleFileBlock
  split
  · split
    · exact ⟨⟨committed,hs⟩,fun he => by cases he⟩
    · exact ⟨⟨committed,hs.cacheBlock _⟩,fun _ => hr⟩
  · simp only
    split
    · exact ⟨⟨committed,hs.order,hs.connected,hs.handled,hs.keyed,hs.rejected⟩,fun he => by cases he⟩
    · rename_i k rest hm
      split
      · rename_i hk
        split
        · exact ⟨⟨committed,hs.order,hs.connected,hs.handled,hs.keyed,hs.rejected⟩,
            fun he => by cases he⟩
        · rename_i txdata htx
          have hs' : ({ s with hasFoundStart := true, iterationsWithoutMatch := 0 }).Tracks h dbs₀
              missing₀ committed := ⟨hs.order,hs.connected,hs.handled,hs.keyed,hs.rejected⟩
          have ht := connectFullBatch_tracked fault hn
            (hs'.stage ⟨block.header,txdata⟩ hr hm hk) hr
          split
          · rename_i s' hc
            rw [hc] at ht
            obtain ⟨⟨committed',hs'⟩,hr'⟩ := ht
            exact processCachedBlocks_tracked fault hn _ hs' (hr' rfl)
          · exact ht
      · split
        · exact ⟨⟨committed,hs.order,hs.connected,hs.handled,hs.keyed,hs.rejected⟩,
            fun he => by cases he⟩
        · rename_i txdata htx
          have hs' : ({ ({ s with hasFoundStart := true } : FileSync).cacheBlock ⟨block.header,txdata⟩ with
              iterationsWithoutMatch := s.iterationsWithoutMatch+1 }).Tracks h dbs₀ missing₀
              committed := by
            have hc := hs.cacheBlock ⟨block.header,txdata⟩
            exact ⟨hc.order,hc.connected,hc.handled,hc.keyed,hc.rejected⟩
          split
          · have ht := connectRemaining_tracked fault hn hs'
            split
            · rename_i hc
              rw [hc] at ht
              exact ⟨ht,fun he => by cases he⟩
            · rename_i hc
              rw [hc] at ht
              exact ⟨ht,fun he => by cases he⟩
          · exact ⟨⟨committed,hs'⟩,fun _ => hr⟩

theorem checkShutdown_tracked (fault cancelled : ℕ → Bool) (hn : missing₀.Nodup)
    (hs : s.Tracks h dbs₀ missing₀ committed) {r : Except SyncError Unit × FileSync}
    (hc : h.checkShutdown fault cancelled s = some r) :
    ∃ committed, r.2.Tracks h dbs₀ missing₀ committed := by
  have ht := connectRemaining_tracked fault hn hs
  unfold checkShutdown at hc
  split at hc
  · split at hc
    · rename_i hcon
      rw [hcon] at ht
      obtain rfl := Option.some.inj hc
      exact ht
    · rename_i hcon
      rw [hcon] at ht
      obtain rfl := Option.some.inj hc
      exact ht
  · cases hc

/-- The whole loop loses no block. -/
theorem fileLoop_tracked (fault cancelled : ℕ → Bool) (hn : missing₀.Nodup) (first : BlockHash)
    (entries : List (Except BlockFilesError FileBlock)) (hs : s.Tracks h dbs₀ missing₀ committed)
    (hr : s.rejected = []) :
    ∃ committed,
      (h.fileLoop fault cancelled first entries s).2.Tracks h dbs₀ missing₀ committed := by
  induction entries generalizing s committed with
  | nil =>
    unfold fileLoop
    split
    · rename_i hc
      exact checkShutdown_tracked fault cancelled hn hs hc
    · exact ⟨committed,hs.order,hs.connected,hs.handled,hs.keyed,hs.rejected⟩
  | cons entry entries ih =>
    unfold fileLoop
    split
    · rename_i hc
      exact checkShutdown_tracked fault cancelled hn hs hc
    · have hs' : ({ s with iterationCount := s.iterationCount+1 }).Tracks h dbs₀ missing₀
          committed := ⟨hs.order,hs.connected,hs.handled,hs.keyed,hs.rejected⟩
      simp only
      split
      · exact ⟨committed,hs'⟩
      · rename_i block
        have ht := handleFileBlock_tracked fault hn first block hs' hr
        split
        · rename_i hc
          rw [hc] at ht
          exact ht.1
        · rename_i hc
          rw [hc] at ht
          exact ht.1
        · rename_i hc
          rw [hc] at ht
          obtain ⟨⟨committed',hs''⟩,hr'⟩ := ht
          exact ih hs'' (hr' rfl)

theorem syncFromDirectoryInner_tracked (fault cancelled : ℕ → Bool)
    (directory : BlockHash → Except BlockFilesError (List (Except BlockFilesError FileBlock)))
    (hn : missing₀.Nodup) (hs : s.Tracks h dbs₀ missing₀ committed) (hr : s.rejected = []) :
    ∃ committed,
      (h.syncFromDirectoryInner fault cancelled directory s).2.Tracks h dbs₀ missing₀ committed ∧
      ∀ n, (h.syncFromDirectoryInner fault cancelled directory s).1 = .ok n →
        n = committed.length := by
  have hfails : ∀ (s : FileSync) (err : SyncError) committed, s.Tracks h dbs₀ missing₀ committed →
      ∃ committed, ((Except.error err : Except SyncError ℕ),s).2.Tracks h dbs₀ missing₀ committed ∧
        ∀ n, ((Except.error err : Except SyncError ℕ),s).1 = .ok n → n = committed.length :=
    fun s err committed hs => ⟨committed,hs,fun n he => by cases he⟩
  unfold syncFromDirectoryInner
  split
  · exact hfails _ _ _ hs
  split
  · exact hfails _ _ _ hs
  rename_i first rest hm _ entries hopen
  split
  · exact hfails _ _ _ hs
  split
  · exact hfails _ _ _ hs
  obtain ⟨committed₁,hloop⟩ := fileLoop_tracked fault cancelled hn first entries hs hr
  split
  · rename_i hl
    rw [hl] at hloop
    exact hfails _ _ _ hloop
  rename_i s₁ hl
  rw [hl] at hloop
  obtain ⟨committed₂,hrem⟩ := connectRemaining_tracked fault hn hloop
  split
  · rename_i hc
    rw [hc] at hrem
    exact hfails _ _ _ hrem
  rename_i s₂ hc
  rw [hc] at hrem
  refine ⟨committed₂,hrem,fun n he => ?_⟩
  rw [← Except.ok.inj he]
  exact hrem.handled

/-- Every block that was missing is committed or still missing, in the same order: the
committed ones are connected one after another, and a rejected block is the next one. -/
structure FileSync.NothingLost (h : BlockHandler) (dbs : Dbs) (missing : List BlockHash)
    (committed : List Block) (r : Except SyncError ℕ × FileSync) : Prop where
  order : committed.map Block.blockHash++r.2.missing = missing
  connected : h.connectEach dbs committed = ⟨.ok none,r.2.dbs,r.2.events⟩
  count : ∀ n, r.1 = .ok n → n = committed.length
  rejected : r.2.rejected = [] ∨ ∃ invalid,
    r.2.rejected = [invalid] ∧ r.2.missing.head? = some invalid.blockHash

theorem FileSync.Tracks.nothingLost {r : Except SyncError ℕ}
    (hs : s.Tracks h dbs₀ missing₀ committed) (hcount : ∀ n, r = .ok n → n = committed.length) :
    FileSync.NothingLost h dbs₀ missing₀ committed
      (r,{ s with missing := restorePendingBlocks s.missing s.pending }) := by
  refine ⟨?_,hs.connected,hcount,?_⟩
  · rw [← hs.order,restorePendingBlocks_eq]
    simp
  · rcases hs.rejected with hr | ⟨hp,invalid,hr,hm⟩
    · exact .inl hr
    · refine .inr ⟨invalid,hr,?_⟩
      rw [hp]
      exact hm

theorem syncFromDirectory_nothingLost (fault cancelled : ℕ → Bool)
    (directory : BlockHash → Except BlockFilesError (List (Except BlockFilesError FileBlock)))
    (dbs : Dbs) {missing : List BlockHash} (hn : missing.Nodup)
    (hret : ∀ err, (h.syncFromDirectory fault cancelled directory dbs missing).1 = .error err →
      err.panics = false) :
    ∃ committed, FileSync.NothingLost h dbs missing committed
      (h.syncFromDirectory fault cancelled directory dbs missing) := by
  have hstart : (FileSync.start dbs missing).Tracks h dbs missing [] :=
    ⟨rfl,rfl,rfl,by simp [BlockCache.Keyed,FileSync.start,BlockCache.new,OrderMap.empty],.inl rfl⟩
  obtain ⟨committed,hs,hcount⟩ :=
    syncFromDirectoryInner_tracked fault cancelled directory hn hstart rfl
  unfold syncFromDirectory at hret ⊢
  split
  · rename_i err s hi
    rw [hi] at hs hcount hret
    simp only [hret err rfl]
    exact ⟨committed,hs.nothingLost hcount⟩
  · rename_i n s hi
    rw [hi] at hs hcount
    exact ⟨committed,hs.nothingLost hcount⟩

end Tracking

section Tip

variable [Bitcoin] {h : BlockHandler} {dbs dbs' : Dbs} {b : Block} {event : Event}

/-- Recording a block on top of the tip moves the tip there. -/
theorem recordBlock_tip {info : HeaderInfo} {blockInfo : BlockInfo} {d : Diff.Block}
    (hh : dbs.blockHashes.Headers) (htip : dbs.currentChainTip ≠ some allZeros)
    (hp : dbs.blockHashes.parent? info.blockHash = some (dbs.currentChainTip.getD allZeros))
    (hr : recordBlock dbs info blockInfo d = .ok (event,dbs')) :
    dbs'.currentChainTip = some info.blockHash ∧
      dbs'.blockHashes.header = dbs.blockHashes.header ∧
      dbs'.blockHashes.height = dbs.blockHashes.height ∧
      ∃ w, dbs'.blockHashes.cumulativeWork.get? info.blockHash = some w := by
  obtain ⟨hd,w,hhd,-,-,tip,rfl,hadv⟩ := recordBlock_ok hr
  obtain ⟨hd',hhd',hprev⟩ := Option.map_eq_some_iff.mp hp
  obtain rfl := Option.some.inj (hhd.symm.trans hhd')
  refine ⟨hadv ?_ ?_ ?_,rfl,rfl,w,FinMap.get?_insert_self _ _ _⟩
  · cases ht : dbs.currentChainTip with
    | none =>
      rw [ht] at hprev
      exact .inl ⟨rfl,hprev⟩
    | some t =>
      rw [ht] at hprev
      exact .inr (congrArg some hprev.symm)
  · intro he
    obtain ⟨m,hm,-,hpos⟩ := hh.height _ _ hhd
    have hhash : hd.prevBlockhash ≠ allZeros := by
      rw [he,← hh.hash _ _ hhd]
      exact hd.blockHash_ne
    obtain ⟨hlt,hm'⟩ := hpos hhash
    rw [he] at hm'
    have := Option.some.inj (hm.symm.trans hm')
    omega
  · intro hsome hz
    cases ht : dbs.currentChainTip with
    | none => exact hsome ht
    | some t =>
      rw [ht] at hprev
      exact htip (ht.trans (congrArg some (hprev.symm.trans hz)))

theorem connectBlock_tip (hh : dbs.blockHashes.Headers) (htip : dbs.currentChainTip ≠ some allZeros)
    (hp : dbs.blockHashes.parent? b.blockHash = some (dbs.currentChainTip.getD allZeros))
    (hc : h.connectBlock dbs b = .ok (event,dbs')) :
    dbs'.currentChainTip = some b.blockHash ∧
      dbs'.blockHashes.header = dbs.blockHashes.header ∧
      dbs'.blockHashes.height = dbs.blockHashes.height := by
  obtain ⟨n,coinbase,txs,res,-,-,hr⟩ := connectBlock_ok.mp hc
  have hrec := @recordBlock_tip _ { dbs with toConsensusDbs := res.dbs } dbs' event (headerInfoOf b n)
    res.blockInfo res.diff hh htip hp hr
  exact ⟨hrec.1,hrec.2.1,hrec.2.2.1⟩

theorem BlockHashDbs.Headers.congr {dbs dbs' : BlockHashDbs} (hh : dbs.Headers)
    (h₁ : dbs'.header = dbs.header) (h₂ : dbs'.height = dbs.height) : dbs'.Headers := by
  refine ⟨fun k hd hk => ?_,fun k hd hk => ?_⟩
  · rw [h₁] at hk
    exact hh.hash k hd hk
  · rw [h₁] at hk
    rw [h₂]
    exact hh.height k hd hk

/-- Connecting the first blocks on the way up moves the tip there. -/
theorem connectEach_climb {mainTip : BlockHash} {missing : List BlockHash} {events : List Event}
    {committed : List Block} (hh : dbs.blockHashes.Headers)
    (htip : dbs.currentChainTip ≠ some allZeros)
    (hp : Climb dbs.blockHashes.parent? (dbs.currentChainTip.getD allZeros)
      (committed.map Block.blockHash++missing) mainTip)
    (hc : h.connectEach dbs committed = ⟨.ok none,dbs',events⟩) :
    dbs'.blockHashes.Headers ∧
      Climb dbs'.blockHashes.parent? (dbs'.currentChainTip.getD allZeros) missing mainTip := by
  induction committed generalizing dbs events with
  | nil =>
    obtain ⟨-,rfl,-⟩ := Processed.mk.inj hc
    exact ⟨hh,hp⟩
  | cons b committed ih =>
    obtain ⟨hb,hp⟩ := hp
    rw [connectEach] at hc
    cases hcon : h.connectBlock dbs b with
    | error e =>
      rw [connectAndCommit,hcon] at hc
      simp only at hc
      split at hc
      · rw [Processed.andThen_stop (by simp)] at hc
        cases congrArg Processed.result hc
      · rw [Processed.andThen_stop (by simp)] at hc
        cases congrArg Processed.result hc
      · rw [Processed.andThen_stop (by simp)] at hc
        cases congrArg Processed.result hc
    | ok r =>
      obtain ⟨event,dbs₁⟩ := r
      rw [connectAndCommit_ok hcon,Processed.andThen_none rfl] at hc
      obtain ⟨ht,h₁,h₂⟩ := connectBlock_tip hh htip hb hcon
      have hparent : dbs₁.blockHashes.parent? = dbs.blockHashes.parent? := by
        funext k
        simp only [BlockHashDbs.parent?,h₁]
      obtain ⟨hres,hdbs,-⟩ := Processed.mk.inj hc
      have hrest : h.connectEach dbs₁ committed =
          ⟨.ok none,dbs',(h.connectEach dbs₁ committed).events⟩ := by
        rw [← hres,← hdbs]
      refine ih (hh.congr h₁ h₂) ?_ ?_ hrest
      · rw [ht]
        intro he
        exact b.header.blockHash_ne (Option.some.inj he)
      · rw [hparent,ht]
        exact hp

theorem missingBlocksConnectToTip_climb {mainTip : BlockHash} {missing : List BlockHash}
    (hh : dbs.blockHashes.Headers)
    (hp : Climb dbs.blockHashes.parent? (dbs.currentChainTip.getD allZeros) missing mainTip) :
    missingBlocksConnectToTip dbs missing mainTip = .ok true := by
  cases missing with
  | nil =>
    have he : dbs.currentChainTip.getD allZeros = mainTip := hp
    simp [missingBlocksConnectToTip,he]
  | cons k missing =>
    obtain ⟨hd,hhd,hprev⟩ := Option.map_eq_some_iff.mp hp.1
    obtain ⟨n,hn,-⟩ := hh.height _ _ hhd
    have hhash := hh.hash _ _ hhd
    simp [missingBlocksConnectToTip,BlockHashDbs.getHeaderInfo,hhd,hhash,Fallible.ensure,
      Database.get,hn,hprev]

theorem nodup_of_climb {mainTip tip : BlockHash} {missing : List BlockHash}
    (hh : dbs.blockHashes.Headers) (hclosed : dbs.blockHashes.AncestorClosed)
    (hp : Climb dbs.blockHashes.parent? tip missing mainTip) : missing.Nodup := by
  cases missing with
  | nil => exact List.nodup_nil
  | cons k missing =>
    obtain ⟨hd,hhd,hprev⟩ := Option.map_eq_some_iff.mp hp.1
    obtain ⟨l,hl⟩ : ∃ l, Path dbs.blockHashes.parent? tip l allZeros := by
      by_cases hz : hd.prevBlockhash = allZeros
      · exact ⟨[],by rw [← hprev,hz]; rfl⟩
      · obtain ⟨hd',hhd'⟩ := hclosed _ _ hhd hz
        rw [hprev] at hhd'
        exact hh.exists_path hclosed hhd'
    have hall := path_append.mpr ⟨tip,climb_iff_path.mp hp,hl⟩
    have hnodup := nodup_of_ranked hh.ranked hh.parent?_zeros hall
    exact List.nodup_reverse.mp (List.nodup_append.mp hnodup).1

/-- For every way up from the tip to a target over stored headers, every sequence of
entries of the block files, every cancellation and every failing transaction: when the
sync from the block files returns, the committed blocks followed by the missing ones are
those that were missing at first, and the next missing block is a child of the tip, or
the tip is the target. -/
theorem syncFromDirectory_spec (h : BlockHandler) (dbs : Dbs) (fault cancelled : ℕ → Bool)
    (directory : BlockHash → Except BlockFilesError (List (Except BlockFilesError FileBlock)))
    (missing : List BlockHash) (mainTip : BlockHash) (hh : dbs.blockHashes.Headers)
    (hclosed : dbs.blockHashes.AncestorClosed) (htip : dbs.currentChainTip ≠ some allZeros)
    (hpath : Path dbs.blockHashes.parent? mainTip missing.reverse (currentEnforcerTip dbs))
    (hret : ∀ err, (h.syncFromDirectory fault cancelled directory dbs missing).1 = .error err →
      err.panics = false) :
    ∃ committed, FileSync.NothingLost h dbs missing committed
        (h.syncFromDirectory fault cancelled directory dbs missing) ∧
      missingBlocksConnectToTip (h.syncFromDirectory fault cancelled directory dbs missing).2.dbs
        (h.syncFromDirectory fault cancelled directory dbs missing).2.missing mainTip = .ok true := by
  have hclimb := climb_iff_path.mpr hpath
  obtain ⟨committed,hlost⟩ :=
    syncFromDirectory_nothingLost fault cancelled directory dbs (nodup_of_climb hh hclosed hclimb) hret
  refine ⟨committed,hlost,?_⟩
  rw [← hlost.order] at hclimb
  obtain ⟨hh',hclimb'⟩ := connectEach_climb hh htip hclimb hlost.connected
  exact missingBlocksConnectToTip_climb hh' hclimb'

end Tip

section Sample

open Sample

namespace FileSample

def handler : BlockHandler := .new (.new .bitcoin .regtest)

def blocks : List Block := blocksOn allZeros 0 [([],[]),([m1Script 0 [1]],[]),([],[]),([m3Script 5 7],[])]

def run : Dbs × Chain :=
  Call.runAll handler UtxoValid
    (blocks.zipIdx.map (fun e => .header e.1.header e.2)++(blocks.take 1).map .connect)

def missing : List BlockHash := (blocks.drop 1).map Block.blockHash

def directory (_ : BlockHash) : Except BlockFilesError (List (Except BlockFilesError FileBlock)) :=
  .ok ([2,1,0,3].filterMap (fun i => blocks[i]?.map (fun b => .ok ⟨b.header,.ok b.txdata⟩)))

def result : Except SyncError ℕ × FileSync :=
  handler.syncFromDirectory (fun _ => false) (fun _ => false) directory run.1 missing

theorem reach_run : Reach handler UtxoValid False run.1 run.2 := Call.reach_runAll _ (by decide)

theorem ancestorClosed : run.1.blockHashes.AncestorClosed := by decide +kernel

end FileSample

open FileSample

theorem syncFromDirectory_spec_sample :
    ∃ committed, FileSync.NothingLost handler run.1 missing committed result ∧
      committed.length = 2 ∧ result.2.rejected.length = 1 := by
  have hok : result.1 = .ok 2 := by decide +kernel
  have hret : ∀ err, result.1 = .error err → err.panics = false := by
    intro err he
    rw [hok] at he
    cases he
  obtain ⟨committed,hlost,-⟩ := syncFromDirectory_spec handler run.1 (fun _ => false)
    (fun _ => false) directory missing (missing.getLastD allZeros) reach_run.synced.headers
    ancestorClosed (by decide +kernel) (climb_iff_path.mp (by decide +kernel)) hret
  exact ⟨committed,hlost,(hlost.count 2 hok).symm,by decide +kernel⟩

end Sample

end Bip300301Enforcer
