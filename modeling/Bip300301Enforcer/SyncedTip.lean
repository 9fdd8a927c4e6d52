import Bip300301Enforcer.SyncSystem

/-! Where a sync of blocks ends: on the way to its target, and at the target itself or below an
invalid block if it says so. -/
namespace Bip300301Enforcer
open Lib Chain BlockHandler BlockHashDbs Walk

section Start

variable [Bitcoin] {h : BlockHandler} {w : BlockWorld} {dbs : Dbs} {c : Chain}
  {mainTip : BlockHash}

theorem disconnectTo_setTxids (m : Database BlockHash Txid) (lastCommonAncestor : BlockHash)
    (fuel : ℕ) (dbs : Dbs) : disconnectTo lastCommonAncestor fuel (dbs.setTxids m) =
      (disconnectTo lastCommonAncestor fuel dbs).map
        (fun r => r.map (fun r => (r.1,r.2.setTxids m))) := by
  induction fuel generalizing dbs with
  | zero => rfl
  | succ fuel ih =>
    unfold disconnectTo
    have htip : currentEnforcerTip (dbs.setTxids m) = currentEnforcerTip dbs := rfl
    rw [htip,disconnectBlock_setTxids]
    split_ifs
    · rfl
    · cases disconnectBlock dbs (currentEnforcerTip dbs) with
      | error err => rfl
      | ok r =>
        have hrest := ih r.2
        simp only [Except.map] at hrest ⊢
        rw [hrest]
        cases disconnectTo lastCommonAncestor fuel r.2 with
        | none => rfl
        | some rest => cases rest <;> rfl

theorem startSync_setTxids (m : Database BlockHash Txid) (fuel : ℕ) (dbs : Dbs)
    (mainTip : BlockHash) : startSync fuel (dbs.setTxids m) mainTip =
      (startSync fuel dbs mainTip).map (fun s => { s with dbs := s.dbs.setTxids m }) := by
  have htip : currentEnforcerTip (dbs.setTxids m) = currentEnforcerTip dbs := rfl
  have hancestor : (dbs.setTxids m).blockHashes.lastCommonAncestor (currentEnforcerTip dbs) mainTip =
      dbs.blockHashes.lastCommonAncestor (currentEnforcerTip dbs) mainTip := rfl
  unfold startSync
  rw [htip,hancestor]
  cases dbs.blockHashes.lastCommonAncestor (currentEnforcerTip dbs) mainTip with
  | error err => rfl
  | ok k =>
    simp only [disconnectTo_setTxids]
    cases disconnectTo k fuel dbs with
    | none => rfl
    | some r =>
      cases r with
      | error err => rfl
      | ok r =>
        obtain ⟨events,dbs'⟩ := r
        have hget : Database.get (dbs'.setTxids m).blockHashes.height .height mainTip =
            Database.get dbs'.blockHashes.height .height mainTip := rfl
        have hmissing : missingBlocks (dbs'.setTxids m) mainTip = missingBlocks dbs' mainTip := rfl
        simp only [Option.map_some,Except.map,hget,hmissing]
        cases Database.get dbs'.blockHashes.height .height mainTip <;> rfl

def OnWay (dbs : Dbs) (missing : List BlockHash) (mainTip : BlockHash) : Prop :=
  Climb dbs.blockHashes.parent? (dbs.currentChainTip.getD allZeros) missing mainTip

theorem Mirrors.tipped (hm : Mirrors h w dbs c) : dbs.Tipped := by
  obtain ⟨dbs₀,S,hr,⟨m,rfl,-⟩,-⟩ := hm.plain
  have ht := hr.synced.tipped
  exact ⟨hm.store.headers,ht.tip,ht.work⟩

theorem Mirrors.startSync (hm : Mirrors h w dbs c) {hd : Header} {n fuel : ℕ}
    (hmain : dbs.blockHashes.header.get? mainTip = some hd)
    (hn : dbs.blockHashes.height.get? mainTip = some n) (hfuel : c.length < fuel) :
    ∃ dbs' missing m events, startSync fuel dbs mainTip =
        some ⟨.ok (missing.reverse,m),dbs',events⟩ ∧ OnWay dbs' missing mainTip := by
  obtain ⟨dbs₀,S,hr,⟨m,rfl,-⟩,-⟩ := hm.plain
  obtain ⟨dbs',missing,hmissing,hstart⟩ := hr.missing hm.store.closed hmain hn
  obtain ⟨height,events,hstart⟩ := hstart fuel hfuel
  refine ⟨dbs'.setTxids m,missing,height,events,?_,hmissing.climb⟩
  rw [startSync_setTxids,hstart]
  rfl

end Start

section Stages

variable [Bitcoin] {h : BlockHandler} {w : BlockWorld} {dbs : Dbs} {c : Chain}
  {mainTip : BlockHash} {missing : List BlockHash} {e : SyncSurroundings}

theorem OnWay.preActivationLoop (cancelled : ℕ → Bool) (fuel k : ℕ) (ht : dbs.Tipped)
    (hp : OnWay dbs missing mainTip) :
    OnWay (h.preActivationLoop cancelled fuel k dbs missing).dbs
      (h.preActivationLoop cancelled fuel k dbs missing).missing mainTip := by
  induction fuel generalizing dbs missing k with
  | zero => exact hp
  | succ fuel ih =>
    unfold BlockHandler.preActivationLoop
    split_ifs
    · exact hp
    · obtain ⟨events,connected,rest,dbs',rfl,-,hbatch,hlen,ht',-,hp',-⟩ :=
        ht.preActivationBatch (h := h) preActivationBatchSize hp
      simp only [hbatch]
      cases events with
      | nil =>
        obtain rfl := List.eq_nil_of_length_eq_zero hlen.symm
        exact hp
      | cons event events => exact ih (k+1) ht' hp'

theorem OnWay.connectPreActivationBlocks (cancelled : ℕ → Bool) (ht : dbs.Tipped)
    (hp : OnWay dbs missing mainTip) :
    OnWay (h.connectPreActivationBlocks cancelled dbs missing).dbs
      (h.connectPreActivationBlocks cancelled dbs missing).missing mainTip := by
  unfold BlockHandler.connectPreActivationBlocks
  split_ifs
  · exact hp
  · exact hp.preActivationLoop cancelled _ 0 ht

theorem OnWay.connectEach {dbs' : Dbs} {committed : List Block} {events : List Event}
    (ht : dbs.Tipped) (hp : OnWay dbs (committed.map Block.blockHash++missing) mainTip)
    (hc : h.connectEach dbs committed = ⟨.ok none,dbs',events⟩) : OnWay dbs' missing mainTip :=
  (connectEach_climb ht.headers ht.tip hp hc).2

/-- The block files lead up the way, even if the process stops. -/
theorem OnWay.syncFromDirectory (hm : Mirrors h w dbs c) (hp : OnWay dbs missing mainTip)
    (fault cancelled : ℕ → Bool)
    (directory : BlockHash → Except BlockFilesError (List (Except BlockFilesError FileBlock))) :
    ∃ rest, OnWay (h.syncFromDirectory fault cancelled directory dbs missing).2.dbs rest mainTip ∧
      ((∀ err, (h.syncFromDirectory fault cancelled directory dbs missing).1 = .error err →
        err.panics = false) →
          rest = (h.syncFromDirectory fault cancelled directory dbs missing).2.missing) := by
  have hnodup := nodup_of_climb hm.store.headers hm.store.closed hp
  have hstart : (FileSync.start dbs missing).Tracks h dbs missing [] :=
    ⟨rfl,rfl,rfl,by simp [BlockCache.Keyed,FileSync.start,BlockCache.new,OrderMap.empty],.inl rfl⟩
  obtain ⟨committed,htracks,-⟩ :=
    syncFromDirectoryInner_tracked fault cancelled directory hnodup hstart rfl
  unfold BlockHandler.syncFromDirectory
  cases hi : h.syncFromDirectoryInner fault cancelled directory (.start dbs missing) with
  | mk res s =>
    rw [hi] at htracks
    have horder := htracks.order
    rw [List.map_append,List.append_assoc] at horder
    rw [← horder] at hp
    have hway := OnWay.connectEach hm.tipped hp htracks.connected
    rw [← restorePendingBlocks_eq] at hway
    refine ⟨restorePendingBlocks s.missing s.pending,?_⟩
    cases res with
    | ok n => exact ⟨hway,fun _ => rfl⟩
    | error err =>
      simp only
      refine ⟨?_,fun hret => by simp [hret err rfl]⟩
      split_ifs <;> exact hway

theorem OnWay.syncFromFiles (hm : Mirrors h w dbs c) (hp : OnWay dbs missing mainTip) :
    ∃ rest, OnWay (h.syncFromFiles e dbs missing mainTip).2.dbs rest mainTip ∧
      ((h.syncFromFiles e dbs missing mainTip).1 = .ok () →
        rest = (h.syncFromFiles e dbs missing mainTip).2.missing) := by
  unfold BlockHandler.syncFromFiles
  cases e.mainBlocksDir with
  | none => exact ⟨missing,hp,fun _ => rfl⟩
  | some directory =>
    obtain ⟨rest,hway,hrest⟩ := hp.syncFromDirectory hm e.fault e.fileCancelled directory
    refine ⟨rest,?_⟩
    cases hd : h.syncFromDirectory e.fault e.fileCancelled directory dbs missing with
    | mk res s =>
      rw [hd] at hway hrest
      simp only [hd]
      cases res with
      | ok n => exact ⟨hway,fun _ => hrest (by simp)⟩
      | error err =>
        simp only
        split_ifs with hpanics
        · exact ⟨hway,by simp⟩
        · have hret : ∀ err', (Except.error err : Except SyncError ℕ) = .error err' →
              err'.panics = false := by
            intro err' he
            obtain rfl := Except.error.inj he
            simpa using hpanics
          split
          · exact ⟨hway,by simp⟩
          · exact ⟨hway,fun _ => hrest hret⟩
          · exact ⟨hway,by simp⟩

end Stages

section Rpc

variable [Bitcoin] {h : BlockHandler} {w : BlockWorld} {mainTip : BlockHash}
  {missing : List BlockHash} {s : RpcSync} {first : ℕ} {input : RpcInput}

/-- An invalid block is next on the way, and is rejected by the database. -/
def StoppedAt (h : BlockHandler) (w : BlockWorld) (dbs : Dbs) (mainTip : BlockHash)
    (invalid : InvalidBlock) : Prop :=
  ∃ b rest, w.known b ∧ b.blockHash = invalid.blockHash ∧
    h.connectBlock dbs b = .error invalid.reason ∧
    OnWay dbs (invalid.blockHash::rest) mainTip

/-- What holds after any number of rounds. -/
structure RpcSync.Climbs (h : BlockHandler) (w : BlockWorld) (missing : List BlockHash)
    (mainTip : BlockHash) (s : RpcSync) : Prop where
  mirrors : ∃ c, Mirrors h w s.dbs c
  way : ∃ rest, OnWay s.dbs rest mainTip
  running : s.result = none → OnWay s.dbs (missing.drop s.nextIdx) mainTip
  finished : s.result = some (.ok none) → OnWay s.dbs [] mainTip
  stopped : ∀ invalid, s.result = some (.ok (some invalid)) → StoppedAt h w s.dbs mainTip invalid

theorem RpcSync.Climbs.fail (hs : s.Climbs h w missing mainTip) (err : RpcSyncError) :
    (s.stop (.error err)).Climbs h w missing mainTip :=
  ⟨hs.mirrors,hs.way,by simp [RpcSync.stop],by simp [RpcSync.stop],by simp [RpcSync.stop]⟩

theorem RpcSync.Climbs.log (hs : s.Climbs h w missing mainTip) (log : List RpcEvent) :
    ({ s with log } : RpcSync).Climbs h w missing mainTip :=
  ⟨hs.mirrors,hs.way,hs.running,hs.finished,hs.stopped⟩

/-- The node has known blocks only, and answers with those that it is asked for. -/
structure RpcInput.Serves (known : Block → Prop) (input : RpcInput) : Prop where
  known : ∀ hashes blocks, input.blocks hashes = some blocks → ∀ b ∈ blocks, known b
  asked : ∀ hashes blocks, input.blocks hashes = some blocks → blocks.map Block.blockHash = hashes

theorem RpcSync.Climbs.fetchBatch {batchEnd : ℕ} (hs : s.Climbs h w missing mainTip)
    (hrun : s.result = none) (hi : input.Serves w.known) (hle : s.nextIdx ≤ batchEnd) :
    (s.fetchBatch h missing input batchEnd).Climbs h w missing mainTip := by
  obtain ⟨c,hm⟩ := hs.mirrors
  have hway := hs.running hrun
  unfold RpcSync.fetchBatch
  dsimp only
  split
  · exact (hs.log _).fail _
  · rename_i blocks hblocks
    have hknown := hi.known _ blocks hblocks
    have hasked := hi.asked _ blocks hblocks
    have hsplit : missing.drop s.nextIdx =
        blocks.map Block.blockHash++missing.drop batchEnd := by
      rw [hasked]
      conv_lhs => rw [← List.take_append_drop (batchEnd-s.nextIdx) (missing.drop s.nextIdx)]
      rw [List.drop_drop,Nat.add_sub_cancel' hle]
    unfold handleBlockBatchAndCommit
    cases hb : h.handleBlockBatch s.dbs blocks with
    | error err => exact (hs.log _).fail _
    | ok r =>
      obtain ⟨invalid,events,dbs'⟩ := r
      obtain ⟨accepted,rest,rfl,hacc,hres⟩ := handleBlockBatch_ok hb
      have hstart : Broadcasts h w (Chain.headerInfos c) s.dbs [] := ⟨c,hm,rfl⟩
      obtain ⟨c',hm',-⟩ := (broadcasts_keeps _).handleBlockBatch hknown hstart hb
      rw [hsplit,List.map_append,List.append_assoc] at hway
      have hway' := OnWay.connectEach hm.tipped hway hacc
      simp only
      split_ifs
      · rcases hres with ⟨rfl,rfl⟩ | ⟨b,bs,err,rfl,hrej,rfl⟩
        · exact ⟨⟨c',hm'⟩,⟨_,hway'⟩,fun _ => hway',by simp [hrun],by simp [hrun]⟩
        · refine ⟨⟨c',hm'⟩,⟨_,hway'⟩,by simp [RpcSync.stop],by simp [RpcSync.stop],?_⟩
          intro invalid hinvalid
          obtain rfl : (⟨b.blockHash,err⟩ : InvalidBlock) = invalid := by
            simpa [RpcSync.stop] using hinvalid
          exact ⟨b,_,hknown b (by simp),rfl,hrej,hway'⟩
      · exact (hs.log _).fail _

theorem RpcSync.Climbs.wait (hs : s.Climbs h w missing mainTip) :
    (s.wait input).Climbs h w missing mainTip := by
  unfold RpcSync.wait
  split_ifs
  · exact hs.fail _
  · split
    · exact hs.fail _
    · exact ⟨hs.mirrors,hs.way,hs.running,hs.finished,hs.stopped⟩

theorem RpcSync.Climbs.round (hs : s.Climbs h w missing mainTip) (hi : input.Serves w.known) :
    (s.round h missing first input).Climbs h w missing mainTip := by
  unfold RpcSync.round
  split_ifs with hsome hlt hcancel
  · exact hs
  · exact hs.fail _
  · split
    · exact hs.wait
    · exact hs.fetchBatch (by simpa using hsome) hi (by omega)
  · have hway := hs.running (by simpa using hsome)
    rw [List.drop_eq_nil_of_le (by omega)] at hway
    exact ⟨hs.mirrors,hs.way,by simp [RpcSync.stop],fun _ => hway,by simp [RpcSync.stop]⟩

theorem RpcSync.Climbs.rounds {inputs : List RpcInput} (hs : s.Climbs h w missing mainTip)
    (hi : ∀ input ∈ inputs, input.Serves w.known) :
    (inputs.foldl (RpcSync.round h missing first) s).Climbs h w missing mainTip := by
  induction inputs generalizing s with
  | nil => exact hs
  | cons input inputs ih =>
    exact ih (hs.round (hi input List.mem_cons_self))
      (fun i hmem => hi i (List.mem_cons_of_mem _ hmem))

end Rpc

section All

variable [Bitcoin] {h : BlockHandler} {w : BlockWorld} {dbs : Dbs} {c : Chain}
  {mainTip : BlockHash} {e : SyncSurroundings} {missing : List BlockHash} {events : List Event}

/-- Where a sync stands when it has this result: on the way to the target, at the target if it
is done, and below an invalid block if it was stopped by one. -/
structure EndsOnWay (h : BlockHandler) (w : BlockWorld) (mainTip : BlockHash) (r : BlockSync) :
    Prop where
  way : ∃ missing, OnWay r.dbs missing mainTip
  finished : r.result = some (.ok none) → OnWay r.dbs [] mainTip
  stopped : ∀ invalid, r.result = some (.ok (some invalid)) → StoppedAt h w r.dbs mainTip invalid

theorem EndsOnWay.error (hp : ∃ missing, OnWay dbs missing mainTip)
    (err : SyncError ⊕ RpcSyncError) : EndsOnWay h w mainTip ⟨some (.error err),dbs,events⟩ :=
  ⟨hp,by simp,by simp⟩

theorem RpcSync.Climbs.run (hm : Mirrors h w dbs c) (hp : OnWay dbs missing mainTip)
    (hi : ∀ input ∈ e.rounds, input.Serves w.known) (mainTipHeight : ℕ) :
    (RpcSync.run h dbs missing mainTipHeight e.chainstates e.rounds).Climbs h w missing mainTip := by
  have hstart : (RpcSync.start dbs e.chainstates).Climbs h w missing mainTip := by
    unfold RpcSync.start
    split
    · exact ⟨⟨c,hm⟩,⟨_,hp⟩,by simp,by simp,by simp⟩
    · exact ⟨⟨c,hm⟩,⟨_,hp⟩,fun _ => hp,by simp,by simp⟩
  exact hstart.rounds hi

omit [Bitcoin] in
theorem mapError_result {ε ε' α : Type} {f : ε → ε'} {result : Option (Except ε α)} {a : α}
    (hr : result.map (fun r => r.mapError f) = some (.ok a)) : result = some (.ok a) := by
  obtain ⟨res,rfl,hres⟩ := Option.map_eq_some_iff.mp hr
  cases res with
  | error err => cases hres
  | ok b =>
    obtain rfl := Except.ok.inj hres
    rfl

theorem RpcSync.Climbs.endsOnWay {s : RpcSync} (hs : s.Climbs h w missing mainTip) :
    EndsOnWay h w mainTip ⟨s.result.map (fun r => r.mapError .inr),s.dbs,events⟩ :=
  ⟨hs.way,fun he => hs.finished (mapError_result he),
    fun invalid he => hs.stopped invalid (mapError_result he)⟩

theorem Mirrors.syncAllBlocks (hm : Mirrors h w dbs c) {hd : Header} {fuel : ℕ}
    (hmain : dbs.blockHashes.header.get? mainTip = some hd) (hfuel : c.length < fuel)
    (hserves : e.Serves w.known) (hi : ∀ input ∈ e.rounds, input.Serves w.known) :
    ∃ r, h.syncAllBlocks fuel e dbs mainTip = some r ∧ EndsOnWay h w mainTip r := by
  have hk := broadcasts_keeps (h := h) (w := w) (Chain.headerInfos c)
  have hstart₀ : Broadcasts h w (Chain.headerInfos c) dbs [] := ⟨c,hm,rfl⟩
  obtain ⟨n,hn,-⟩ := hm.store.headers.height _ _ hmain
  obtain ⟨dbs₁,missing,mainTipHeight,events₁,hstart,hp₁⟩ := hm.startSync hmain hn hfuel
  obtain ⟨c₁,hm₁,hc₁⟩ := hk.startSync hstart₀ hstart
  unfold BlockHandler.syncAllBlocks beforeRpc
  rw [hstart]
  simp only [Option.map_some]
  refine ⟨_,rfl,?_⟩
  by_cases hempty : missing = []
  · subst hempty
    exact ⟨⟨_,hp₁⟩,fun _ => hp₁,by simp⟩
  · have hne : missing.reverse.isEmpty = false := by simpa using hempty
    have hb₂ := hk.connectPreActivationBlocks e.cancelled missing ⟨c₁,hm₁,hc₁⟩
    have hp₂ := OnWay.connectPreActivationBlocks (h := h) e.cancelled hm₁.tipped hp₁
    simp only [hne,Bool.false_eq_true,if_false,List.reverse_reverse]
    cases hstage : h.connectPreActivationBlocks e.cancelled dbs₁ missing with
    | mk result dbs₂ missing₂ events₂ =>
      rw [hstage] at hb₂ hp₂
      obtain ⟨c₂,hm₂,hc₂⟩ := hb₂
      cases result with
      | error err => exact .error ⟨_,hp₂⟩ _
      | ok total =>
        have hb₃ := hk.syncFromFiles hserves missing₂ mainTip ⟨c₂,hm₂,hc₂⟩
        obtain ⟨rest,hp₃,hrest⟩ := OnWay.syncFromFiles (e := e) hm₂ hp₂
        dsimp only
        cases hfiles : h.syncFromFiles e dbs₂ missing₂ mainTip with
        | mk result s =>
          rw [hfiles] at hb₃ hp₃ hrest
          obtain ⟨c₃,hm₃,-⟩ := hb₃
          cases result with
          | error err => exact .error ⟨_,hp₃⟩ _
          | ok u =>
            obtain rfl := hrest rfl
            exact (RpcSync.Climbs.run hm₃ hp₃ hi mainTipHeight).endsOnWay

/-- A sync of blocks to a stored target, with the chain that it ends at. -/
theorem syncAllBlocks_ends (hm : Mirrors h w dbs c) {hd : Header} {fuel : ℕ}
    (hmain : dbs.blockHashes.header.get? mainTip = some hd) (hfuel : c.length < fuel)
    (hserves : e.Serves w.known) (hi : ∀ input ∈ e.rounds, input.Serves w.known) :
    ∃ r c', h.syncAllBlocks fuel e dbs mainTip = some r ∧ Mirrors h w r.dbs c' ∧
      chainAfter (Chain.headerInfos c) r.events = Chain.headerInfos c' ∧
      (∃ missing, Climb r.dbs.blockHashes.parent? c'.parentHash missing mainTip) ∧
      (r.result = some (.ok none) → c'.tipHash = some mainTip) ∧
      ∀ invalid, r.result = some (.ok (some invalid)) → ∃ b missing,
        w.known b ∧ b.blockHash = invalid.blockHash ∧ b.header.prevBlockhash = c'.parentHash ∧
        h.connectBlock r.dbs b = .error invalid.reason ∧
        Climb r.dbs.blockHashes.parent? c'.parentHash (invalid.blockHash::missing) mainTip := by
  obtain ⟨r,hr,hend⟩ := hm.syncAllBlocks hmain hfuel hserves hi
  have hstart : Broadcasts h w (Chain.headerInfos c) dbs [] := ⟨c,hm,rfl⟩
  obtain ⟨c',hm',hevents⟩ := (broadcasts_keeps _).syncAllBlocks hserves [] hstart hr
  have htip : r.dbs.currentChainTip.getD allZeros = c'.parentHash := hm'.tip.2
  have hway : ∀ missing, OnWay r.dbs missing mainTip →
      Climb r.dbs.blockHashes.parent? c'.parentHash missing mainTip := by
    intro missing hp
    rwa [← htip]
  refine ⟨r,c',hr,hm',hevents,?_,?_,?_⟩
  · obtain ⟨missing,hp⟩ := hend.way
    exact ⟨missing,hway missing hp⟩
  · intro hdone
    have hparent : c'.parentHash = mainTip := hway [] (hend.finished hdone)
    have hne : mainTip ≠ allZeros := by
      rw [← hm.store.headers.hash _ _ hmain]
      exact hd.blockHash_ne
    rw [← tipHash_of_parentHash,hparent,if_pos hne]
  · intro invalid hinvalid
    obtain ⟨b,rest,hb,hhash,hrej,hp⟩ := hend.stopped invalid hinvalid
    have hp' := hway _ hp
    refine ⟨b,rest,hb,hhash,?_,hrej,hp'⟩
    obtain ⟨hdr,hhdr,hprev⟩ := Option.map_eq_some_iff.mp hp'.1
    rw [← hhash] at hhdr
    have heq := Option.some.inj (hhdr.symm.trans (hm'.header_eq hb hhdr))
    rw [← heq,hprev]

end All

section Headers

variable [Bitcoin] {h : BlockHandler} {w : BlockWorld} {c : Chain} {mainTip : BlockHash}
  {e : SyncSurroundings}

/-- What happens around a step of the sync of headers. -/
structure HeaderInput where
  answers : NodeAnswers
  rest : Bool
  cancelled : Bool
  stored : Bool

def HeaderSystem.headerStep (s : HeaderSystem) (i : HeaderInput) : HeaderSystem :=
  let r := HeaderSync.step i.answers i.rest i.cancelled i.stored s.dbs.blockHashes s.sync
  ⟨{ s.dbs with blockHashes := r.2 },r.1⟩

/-- `sync_headers`, for some number of steps. -/
def syncHeaders (inputs : List HeaderInput) (dbs : Dbs) (mainTip : BlockHash) : HeaderSystem :=
  inputs.foldl HeaderSystem.headerStep ⟨dbs,.start mainTip⟩

/-- What a sync leaves behind. There is no result while headers or blocks are fetched. -/
structure TipSync where
  result : Option (Except (HeaderSyncError ⊕ SyncError ⊕ RpcSyncError) (Option InvalidBlock))
  dbs : Dbs
  events : List Event

/-- `sync_to_tip`: the headers, and then the blocks. -/
def BlockHandler.syncToTip (h : BlockHandler) (inputs : List HeaderInput) (fuel : ℕ)
    (e : SyncSurroundings) (dbs : Dbs) (mainTip : BlockHash) : Option TipSync :=
  let s := syncHeaders inputs dbs mainTip
  match s.sync with
  | .done (.error err) => some ⟨some (.error (.inl err)),s.dbs,[]⟩
  | .done (.ok ()) =>
    (h.syncAllBlocks fuel e s.dbs mainTip).map (fun r =>
      ⟨r.result.map (fun r => r.mapError .inr),r.dbs,r.events⟩)
  | _ => some ⟨none,s.dbs,[]⟩

def HeaderSync.Targets (mainTip : BlockHash) (dbs : BlockHashDbs) : HeaderSync → Prop
  | .start t => t = mainTip
  | .search t _ _ _ => t = mainTip
  | .genesis t _ => t = mainTip
  | .fetch t _ _ _ => t = mainTip
  | .done (.ok ()) => mainTip = allZeros ∨ ∃ hd, dbs.header.get? mainTip = some hd
  | .done (.error _) => True

omit [Bitcoin] in
theorem HeaderSync.Targets.fromAncestor {dbs : BlockHashDbs} {tipHeight : ℕ}
    {best : Option (BlockHash × ℕ)}
    (hbest : ∀ k n, best = some (k,n) → ∃ hd, dbs.header.get? k = some hd) :
    (HeaderSync.fromAncestor mainTip tipHeight best).Targets mainTip dbs := by
  cases best with
  | none => exact rfl
  | some r =>
    obtain ⟨k,n⟩ := r
    simp only [HeaderSync.fromAncestor]
    split_ifs with hk
    · exact .inr (hk ▸ hbest k n rfl)
    · exact rfl

theorem HeaderSync.Targets.step {w : HeaderWorld} {dbs : BlockHashDbs} (hs : HeaderStore w dbs)
    {i : HeaderInput} (hc : i.answers.Correct w) {sync : HeaderSync} (hsound : sync.Sound w dbs)
    (ht : sync.Targets mainTip dbs) :
    (HeaderSync.step i.answers i.rest i.cancelled i.stored dbs sync).1.Targets mainTip
      (HeaderSync.step i.answers i.rest i.cancelled i.stored dbs sync).2 := by
  cases sync with
  | start t =>
    obtain rfl : t = mainTip := ht
    simp only [HeaderSync.step]
    split
    · rename_i hz
      exact .inl hz
    · split
      · trivial
      · split
        · rename_i hstored
          dsimp only
          refine .fromAncestor ?_
          intro k n he
          obtain ⟨rfl,rfl⟩ := Prod.mk.inj (Option.some.inj he)
          exact (FinMap.contains_iff _ _).mp hstored
        · exact rfl
  | search t tipHeight best missing =>
    obtain rfl : t = mainTip := ht
    simp only [HeaderSync.step,HeaderSync.searchStep]
    split
    · refine .fromAncestor ?_
      intro k n he
      obtain ⟨-,hd,hk,-⟩ := hsound.2 k n he
      exact ⟨hd,hk⟩
    · split
      · trivial
      · split <;> exact rfl
  | genesis t tipHeight =>
    obtain rfl : t = mainTip := ht
    simp only [HeaderSync.step]
    split
    · trivial
    · exact rfl
  | fetch t tipHeight current n =>
    obtain rfl : t = mainTip := ht
    obtain ⟨-,hready⟩ := hsound
    simp only [HeaderSync.step]
    split
    · trivial
    · unfold HeaderSync.fetchStep
      dsimp only
      split
      · trivial
      · rename_i fetched hfetch
        obtain ⟨headers,hseg⟩ := fetchHeaders_ok hc hfetch
        split
        · trivial
        · rename_i last lastHash lastHeight hlast
          split
          · obtain ⟨hget,rfl,rfl,-⟩ := hseg.last hlast
            have hplace : ∀ hd, headers.head? = some hd → dbs.Placed hd n := by
              intro hd hfirst
              refine hs.placed_of_ready (hseg.known hd (List.mem_of_mem_head? hfirst)) ?_
              rw [hseg.first hd hfirst]
              exact hready
            obtain ⟨-,-,hstored⟩ := hs.putHeaders hseg.links hseg.known hplace
            rw [hseg.stored]
            dsimp only
            split
            · rename_i he
              exact .inr ⟨last,he ▸ (hstored last hget).1⟩
            · split
              · trivial
              · exact rfl
          · trivial
  | done result => exact ht

theorem syncHeaders_ends {inputs : List HeaderInput}
    (hc : ∀ i ∈ inputs, i.answers.Correct w.headers) {s : HeaderSystem} (hm : Mirrors h w s.dbs c)
    (hs : s.sync.Sound w.headers s.dbs.blockHashes) (ht : s.sync.Targets mainTip s.dbs.blockHashes) :
    Mirrors h w (inputs.foldl HeaderSystem.headerStep s).dbs c ∧
      (inputs.foldl HeaderSystem.headerStep s).sync.Targets mainTip
        (inputs.foldl HeaderSystem.headerStep s).dbs.blockHashes := by
  induction inputs generalizing s with
  | nil => exact ⟨hm,ht⟩
  | cons i inputs ih =>
    have hi := hc i List.mem_cons_self
    have hk := HeaderSync.Sound.step hm.store hi i.rest i.cancelled i.stored hs
    have hm' := hm.headerStep hi i.rest i.cancelled i.stored hs
    exact ih (fun j hj => hc j (List.mem_cons_of_mem _ hj)) hm' hk.sound (ht.step hm.store hi hs)

/-- From every state of the validator, whatever the node answers while it reorganises, and
whatever is cancelled, fails or is invalid: a sync to a tip of the node leaves the database of a
chain, and the events that it broadcasts lead to this chain from the one before. Either the
chain is the one before, or it is on the way to the target. If the sync says that it is done,
then the target is the tip. If it says that a block is invalid, then this block is next on the
way to the target, and connecting it fails for the reason given. -/
theorem syncToTip_ends {dbs : Dbs} (hm : Mirrors h w dbs c) {inputs : List HeaderInput} {fuel : ℕ}
    (hne : mainTip ≠ allZeros) (hfuel : c.length < fuel)
    (hc : ∀ i ∈ inputs, i.answers.Correct w.headers) (hserves : e.Serves w.known)
    (hi : ∀ input ∈ e.rounds, input.Serves w.known) :
    ∃ r c', h.syncToTip inputs fuel e dbs mainTip = some r ∧ Mirrors h w r.dbs c' ∧
      chainAfter (Chain.headerInfos c) r.events = Chain.headerInfos c' ∧
      (c' = c ∨ ∃ missing, Climb r.dbs.blockHashes.parent? c'.parentHash missing mainTip) ∧
      (r.result = some (.ok none) → c'.tipHash = some mainTip) ∧
      ∀ invalid, r.result = some (.ok (some invalid)) → ∃ b missing,
        w.known b ∧ b.blockHash = invalid.blockHash ∧ b.header.prevBlockhash = c'.parentHash ∧
        h.connectBlock r.dbs b = .error invalid.reason ∧
        Climb r.dbs.blockHashes.parent? c'.parentHash (invalid.blockHash::missing) mainTip := by
  have hstart : (HeaderSync.start mainTip).Targets mainTip dbs.blockHashes := rfl
  obtain ⟨hm',ht⟩ := syncHeaders_ends hc (s := ⟨dbs,.start mainTip⟩) hm trivial hstart
  unfold BlockHandler.syncToTip syncHeaders
  generalize inputs.foldl HeaderSystem.headerStep ⟨dbs,.start mainTip⟩ = s at hm' ht ⊢
  have hrunning : ∀ result : Option (Except (HeaderSyncError ⊕ SyncError ⊕ RpcSyncError)
      (Option InvalidBlock)), (∀ r, result ≠ some (.ok r)) →
      (result = some (.ok none) → c.tipHash = some mainTip) ∧
      ∀ invalid, result = some (.ok (some invalid)) → ∃ b missing,
        w.known b ∧ b.blockHash = invalid.blockHash ∧ b.header.prevBlockhash = c.parentHash ∧
        h.connectBlock s.dbs b = .error invalid.reason ∧
        Climb s.dbs.blockHashes.parent? c.parentHash (invalid.blockHash::missing) mainTip :=
    fun result hres => ⟨fun he => absurd he (hres _),fun invalid he => absurd he (hres _)⟩
  obtain ⟨dbs',sync⟩ := s
  cases sync with
  | done result =>
    cases result with
    | error err =>
      exact ⟨⟨some (.error (.inl err)),dbs',[]⟩,c,rfl,hm',rfl,.inl rfl,hrunning _ (by simp)⟩
    | ok u =>
      rcases ht with hz | ⟨hd,hmain⟩
      · exact absurd hz hne
      · obtain ⟨r,c',hr,hm'',hevents,hway,hdone,hinvalid⟩ :=
          syncAllBlocks_ends hm' hmain hfuel hserves hi
        refine ⟨⟨r.result.map (fun r => r.mapError .inr),r.dbs,r.events⟩,c',?_,hm'',hevents,
          .inr hway,?_,?_⟩
        · simp only [hr,Option.map_some]
        · exact fun he => hdone (mapError_result he)
        · exact fun invalid he => hinvalid invalid (mapError_result he)
  | _ => exact ⟨⟨none,dbs',[]⟩,c,rfl,hm',rfl,.inl rfl,hrunning _ (by simp)⟩

end Headers

section Sample

open Sample SyncedSample

theorem SyncedSample.input_serves : ∀ i ∈ surroundings.rounds, i.Serves world.known := by
  intro i hi
  refine ⟨serves.node i hi,?_⟩
  intro hashes found hfound
  have hinput : i = input := by simpa [surroundings] using hi
  subst hinput
  obtain ⟨hasked,hsome⟩ := Option.ite_none_right_eq_some.mp hfound
  obtain rfl := Option.some.inj hsome
  exact hasked

def SyncedSample.headerInputs : List HeaderInput := List.replicate 6 ⟨answers,true,false,true⟩

theorem syncToTip_ends_sample :
    ∃ r c', handler.syncToTip headerInputs 1 surroundings .empty target = some r ∧
      r.result = some (.ok none) ∧ c'.tipHash = some target ∧
      chainAfter [] r.events = Chain.headerInfos c' ∧ r.events.length = 3 := by
  have hcorrect : ∀ i ∈ headerInputs, i.answers.Correct world.headers := by
    intro i hi
    obtain rfl := List.eq_of_mem_replicate hi
    exact answers_correct
  obtain ⟨r,c',hr,-,hevents,-,hdone,-⟩ := syncToTip_ends (mirrors_empty handler world)
    (by decide +kernel : target ≠ allZeros) Nat.zero_lt_one hcorrect serves input_serves
  have hres : (handler.syncToTip headerInputs 1 surroundings .empty target).map
      (fun r => (r.result.bind Except.toOption,r.events.length)) = some (some none,3) := by
    decide +kernel
  rw [hr] at hres
  obtain ⟨hbind,hlen⟩ := Prod.mk.inj (Option.some.inj hres)
  have hok : r.result = some (.ok none) := by
    obtain ⟨res,hsome,hopt⟩ := Option.bind_eq_some_iff.mp hbind
    cases res with
    | error err => cases hopt
    | ok invalid =>
      obtain rfl := Option.some.inj hopt
      exact hsome
  exact ⟨r,c',hr,hok,hdone hok,hevents,hlen⟩

end Sample

end Bip300301Enforcer
