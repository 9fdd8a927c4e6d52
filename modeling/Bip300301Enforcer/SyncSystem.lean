import Bip300301Enforcer.Agreement
import Bip300301Enforcer.HeaderStore
import Bip300301Enforcer.SentEvents
import Bip300301Enforcer.SyncStages

/-! The whole validator in a run: headers and blocks are synced in any way and as often as one
likes, and the node calls in between. It always has the tables of its active chain. -/
namespace Bip300301Enforcer
open Lib Chain BlockHandler BlockHashDbs Walk

section Txids

variable [Bitcoin] {dbs dbs' : Dbs} {S : List BlockHash} {hash : BlockHash} {events : List Event}

/-- Disconnecting a block does not look at the coinbase txids. -/
theorem disconnectBlock_setTxids (dbs : Dbs) (m : Database BlockHash Txid) (hash : BlockHash) :
    disconnectBlock (dbs.setTxids m) hash =
      (disconnectBlock dbs hash).map (fun r => (r.1,r.2.setTxids m)) := by
  unfold disconnectBlock
  simp only [Dbs.setTxids]
  cases dbs.blockHashes.diff.get? hash with
  | none => rfl
  | some d =>
    simp only
    have htip : checkTip { dbs with blockHashes := { dbs.blockHashes with coinbaseTxid := m } } hash =
        checkTip dbs hash := rfl
    have hinfo : BlockHashDbs.getHeaderInfo { dbs.blockHashes with coinbaseTxid := m } hash =
        dbs.blockHashes.getHeaderInfo hash := rfl
    rw [htip,hinfo]
    cases checkTip dbs hash with
    | error err => rfl
    | ok u =>
      simp only [Fallible.ok_bind]
      cases dbs.blockHashes.getHeaderInfo hash with
      | error err => rfl
      | ok info =>
        simp only [Fallible.ok_bind]
        cases d.undo dbs.toConsensusDbs with
        | error err => rfl
        | ok t => rfl

theorem Dbs.AgreeOff.disconnectBlock (ha : dbs.AgreeOff S dbs')
    {dbs₁' : Dbs} (hd : disconnectBlock dbs' hash = .ok (events,dbs₁')) :
    ∃ dbs₁, BlockHandler.disconnectBlock dbs hash = .ok (events,dbs₁) ∧ dbs₁.AgreeOff S dbs₁' := by
  obtain ⟨m,rfl,hm⟩ := ha
  rw [disconnectBlock_setTxids] at hd
  cases hone : BlockHandler.disconnectBlock dbs hash with
  | error err =>
    rw [hone] at hd
    cases hd
  | ok r =>
    obtain ⟨events₁,dbs₁⟩ := r
    rw [hone] at hd
    cases hd
    refine ⟨dbs₁,rfl,m,rfl,fun k hk => ?_⟩
    rcases disconnectBlock_ok.mp hone with ⟨-,-,rfl⟩ | ⟨d,hd,n,t,-,-,-,-,-,-,-,rfl⟩
    · exact hm k hk
    · exact hm k hk

theorem Dbs.AgreeOff.putHeader (ha : dbs.AgreeOff S dbs') (hd : Header) (n : ℕ) :
    ({ dbs with blockHashes := dbs.blockHashes.putHeader hd n } : Dbs).AgreeOff S
      { dbs' with blockHashes := dbs'.blockHashes.putHeader hd n } := by
  obtain ⟨m,rfl,hm⟩ := ha
  exact ⟨m,rfl,hm⟩

end Txids

def Chain.Joined [Bitcoin] : Chain → Prop
  | [] => True
  | b::c => b.header.prevBlockhash = parentHash c ∧ Joined c

/-- The blocks that the node and the block files have. They have a coinbase, no two of them
have the same hash, and no transaction is twice in one of their chains. -/
structure BlockWorld [Bitcoin] where
  genesis : Header
  known : Block → Prop
  genesis_parent : genesis.prevBlockhash = allZeros
  noCollision : ∀ b b', known b → known b' → b.blockHash = b'.blockHash → b = b'
  coinbase : ∀ b, known b → b.txdata ≠ []
  fresh : ∀ (c : Chain) b, (∀ b' ∈ c, known b') → c.Joined → known b →
    b.header.prevBlockhash = c.parentHash → FreshTxids c b

section World

variable [Bitcoin]

def BlockWorld.headers (w : BlockWorld) : HeaderWorld where
  genesis := w.genesis
  known hd := ∃ b, w.known b ∧ b.header = hd
  genesis_parent := w.genesis_parent
  noCollision := by
    rintro hd hd' ⟨b,hb,rfl⟩ ⟨b',hb',rfl⟩ he
    rw [w.noCollision b b' hb hb' he]

variable {w : BlockWorld}

theorem Chain.joined_of_linked {bh : BlockHashDbs} {c : Chain} (hl : bh.Linked c) : c.Joined := by
  induction c with
  | nil => trivial
  | cons b c ih => exact ⟨hl.2.1,ih hl.2.2⟩

theorem BlockWorld.chain_unique {c c' : Chain} (hc : c.Joined) (hc' : c'.Joined)
    (hk : ∀ b ∈ c, w.known b) (hk' : ∀ b ∈ c', w.known b) (ht : c.tipHash = c'.tipHash) : c = c' := by
  induction c generalizing c' with
  | nil =>
    cases c' with
    | nil => rfl
    | cons b' c' => cases ht
  | cons b c ih =>
    cases c' with
    | nil => cases ht
    | cons b' c' =>
      obtain rfl : b = b' := w.noCollision b b' (hk b List.mem_cons_self) (hk' b' List.mem_cons_self)
        (Option.some.inj ht)
      have hparent : tipHash c = tipHash c' := by
        rw [← tipHash_of_parentHash,← tipHash_of_parentHash,← hc.1,← hc'.1]
      rw [ih hc.2 hc'.2 (fun x hx => hk x (List.mem_cons_of_mem _ hx))
        (fun x hx => hk' x (List.mem_cons_of_mem _ hx)) hparent]

end World

section Mirrors

variable [Bitcoin] {h : BlockHandler} {w : BlockWorld} {dbs dbs' : Dbs} {c : Chain} {b : Block}
  {event : Event}

/-- A database as it is after connecting the full blocks of a chain one by one, but for the
coinbase txids of some blocks below the activation height. -/
structure Mirrors (h : BlockHandler) (w : BlockWorld) (dbs : Dbs) (c : Chain) : Prop where
  plain : ∃ dbs₀ S, Reach h FreshTxids False dbs₀ c ∧ dbs₀.AgreeOff S dbs ∧
    ∀ k ∈ S, ∃ n, dbs.blockHashes.height.get? k = some n ∧ n < h.params.bip300ActivationHeight
  known : ∀ b ∈ c, w.known b
  store : HeaderStore w.headers dbs.blockHashes

theorem mirrors_empty (h : BlockHandler) (w : BlockWorld) : Mirrors h w .empty [] where
  plain := ⟨.empty,[],.empty,.refl _ _,by simp⟩
  known := by simp
  store := headerStore_empty _

theorem Mirrors.joined (hm : Mirrors h w dbs c) : c.Joined := by
  obtain ⟨dbs₀,S,hr,-,-⟩ := hm.plain
  exact joined_of_linked hr.synced.linked

theorem Mirrors.tip (hm : Mirrors h w dbs c) :
    dbs.currentChainTip = c.tipHash ∧ currentEnforcerTip dbs = c.parentHash := by
  obtain ⟨dbs₀,S,hr,⟨m,rfl,-⟩,-⟩ := hm.plain
  exact ⟨hr.synced.tip,hr.synced.parent_eq⟩

theorem Mirrors.header_eq (hm : Mirrors h w dbs c) (hb : w.known b) {hd : Header}
    (hk : dbs.blockHashes.header.get? b.blockHash = some hd) :
    dbs.blockHashes.header.get? b.blockHash = some b.header := by
  obtain ⟨b',hb',rfl⟩ := hm.store.known _ _ hk
  have hhash : b'.blockHash = b.blockHash := hm.store.headers.hash _ _ hk
  rwa [w.noCollision b' b hb' hb hhash] at hk

/-- A known block that is connected in full. -/
theorem Mirrors.connect (hm : Mirrors h w dbs c) (hb : w.known b)
    (hc : h.connectBlock dbs b = .ok (event,dbs')) :
    Mirrors h w dbs' (b::c) ∧ ∃ info, event = .connectBlock (headerInfoOf b c.length) info := by
  obtain ⟨dbs₀,S,hr,ha,hS⟩ := hm.plain
  obtain ⟨n,coinbase,txs,res,hp,-,hrec⟩ := connectBlock_ok.mp hc
  obtain ⟨hd,-,hhd,-⟩ := recordBlock_ok hrec
  have hheader := hm.header_eq hb hhd
  have hparent : b.header.prevBlockhash = c.parentHash := hp.parent.trans hm.tip.2
  obtain ⟨h₁,h₂,-⟩ := connectBlock_tables hc
  cases hc₀ : h.connectBlock dbs₀ b with
  | error err =>
    rw [ha.connectBlock_error hc₀] at hc
    cases hc
  | ok r =>
    obtain ⟨event₀,dbs₁⟩ := r
    obtain ⟨dbs₁',hc',ha'⟩ := ha.connectBlock hc₀
    obtain ⟨rfl,rfl⟩ := Prod.mk.inj (Except.ok.inj (hc.symm.trans hc'))
    have hheader₀ : dbs₀.blockHashes.header.get? b.blockHash = some b.header := by
      obtain ⟨m,rfl,-⟩ := ha
      exact hheader
    obtain ⟨-,-,res,-,rfl,-,-⟩ := hr.synced.connected hheader₀ hc₀
    refine ⟨⟨⟨dbs₁,S,?_,ha',by rwa [h₂]⟩,?_,hm.store.congr h₁ h₂⟩,_,rfl⟩
    · exact .connect hr (w.fresh c b hm.known hm.joined hb hparent) hheader₀ hc₀
    · intro b' hb'
      cases hb' with
      | head => exact hb
      | tail _ hb' => exact hm.known b' hb'

/-- A block below the activation height that is connected from its header. -/
theorem Mirrors.fromHeader (hm : Mirrors h w dbs c) {k : BlockHash} {n : ℕ}
    (hn : dbs.blockHashes.height.get? k = some n) (hlt : n < h.params.bip300ActivationHeight)
    (hc : connectBlockFromHeader dbs k = .ok (event,dbs')) :
    ∃ b, Mirrors h w dbs' (b::c) ∧ ∃ info, event = .connectBlock (headerInfoOf b c.length) info := by
  obtain ⟨hd,hhd⟩ := hm.store.heights k n hn
  obtain ⟨b,hb,rfl⟩ := hm.store.known k hd hhd
  obtain rfl : b.blockHash = k := hm.store.headers.hash _ _ hhd
  have hbelow : Below h dbs.blockHashes b := ⟨hhd,⟨n,hn,hlt⟩,w.coinbase b hb⟩
  have hc' := hc
  rw [connectBlockFromHeader_eq hbelow] at hc'
  cases hfull : h.connectBlock dbs b with
  | error err =>
    rw [hfull] at hc'
    cases hc'
  | ok r =>
    obtain ⟨event₁,dbs₁⟩ := r
    rw [hfull] at hc'
    cases hc'
    obtain ⟨⟨⟨dbs₂,S,hr,ha,hS⟩,hknown,hstore⟩,info,rfl⟩ := hm.connect hb hfull
    obtain ⟨h₁,h₂,txid,htxid⟩ := connectBlock_tables hfull
    refine ⟨b,⟨⟨dbs₂,b.blockHash::S,hr,?_,?_⟩,hknown,hstore.congr rfl rfl⟩,_,rfl⟩
    · have hzero : dbs₁.AgreeOff (b.blockHash::S)
          (dbs₁.setTxids (dbs.blockHashes.coinbaseTxid.insert b.blockHash zeroTxid)) := by
        refine ⟨_,rfl,fun k hk => ?_⟩
        have hne : b.blockHash ≠ k := fun he => hk (he ▸ List.mem_cons_self)
        rw [htxid,FinMap.get?_insert_ne _ _ hne,FinMap.get?_insert_ne _ _ hne]
      exact (ha.mono (List.subset_cons_self _ _)).trans hzero
    · intro k hk
      cases hk with
      | head => exact ⟨n,(congrArg (fun m => m.get? b.blockHash) h₂).trans hn,hlt⟩
      | tail _ hk => exact hS k hk

theorem Mirrors.disconnect (hm : Mirrors h w dbs c) {hash : BlockHash} {events : List Event}
    (hguard : dbs.currentChainTip = none → dbs.blockHashes.diff.get? hash = none)
    (hd : disconnectBlock dbs hash = .ok (events,dbs')) :
    Mirrors h w dbs' c ∧ events = [] ∨ Mirrors h w dbs' c.tail ∧ events = [.disconnectBlock hash] := by
  obtain ⟨dbs₀,S,hr,ha,hS⟩ := hm.plain
  obtain ⟨dbs₁,hd₀,ha₁⟩ := ha.disconnectBlock hd
  have hguard₀ : dbs₀.currentChainTip = none → dbs₀.blockHashes.diff.get? hash = none := by
    obtain ⟨m,rfl,-⟩ := ha
    exact hguard
  have hr₁ := hr.disconnect hguard₀ hd₀
  rcases disconnectBlock_ok.mp hd with ⟨hnone,rfl,rfl⟩ | ⟨d,hdr,n,t,hsome,-,-,-,-,-,rfl,rfl⟩
  · exact .inl ⟨hm,rfl⟩
  · have hcontains : dbs₀.blockHashes.diff.contains hash = true := by
      obtain ⟨m,rfl,-⟩ := ha
      exact (FinMap.contains_iff _ _).mpr ⟨d,hsome⟩
    rw [if_pos hcontains] at hr₁
    exact .inr ⟨⟨⟨dbs₁,S,hr₁,ha₁,hS⟩,fun b hb => hm.known b (List.mem_of_mem_tail hb),
      hm.store.congr rfl rfl⟩,rfl⟩

theorem Mirrors.disconnectTip (hm : Mirrors h w dbs c) {events : List Event}
    (hd : disconnectBlock dbs (currentEnforcerTip dbs) = .ok (events,dbs')) :
    Mirrors h w dbs' c ∧ events = [] ∨
      Mirrors h w dbs' c.tail ∧ events = [.disconnectBlock (currentEnforcerTip dbs)] := by
  refine hm.disconnect ?_ hd
  intro hnone
  obtain ⟨dbs₀,S,hr,⟨m,rfl,-⟩,-⟩ := hm.plain
  unfold currentEnforcerTip
  rw [hnone]
  exact hr.synced.diff_zeros

theorem Mirrors.putHeader (hm : Mirrors h w dbs c) {hd : Header} {n : ℕ}
    (hknown : w.headers.known hd) (hplace : dbs.blockHashes.Placed hd n) :
    Mirrors h w { dbs with blockHashes := dbs.blockHashes.putHeader hd n } c := by
  obtain ⟨dbs₀,S,hr,ha,hS⟩ := hm.plain
  obtain ⟨hstore,hkept,-⟩ := hm.store.putHeader hknown hplace
  have hfits : dbs₀.blockHashes.HeaderFits hd n := by
    obtain ⟨m,rfl,-⟩ := ha
    have hf := hm.store.fits hknown hplace
    exact ⟨hf.first,hf.later,hf.known,hf.parentKnown,hf.stored,hf.noLoop⟩
  refine ⟨⟨_,S,.header hr hfits,ha.putHeader hd n,?_⟩,hm.known,hstore⟩
  intro k hk
  obtain ⟨m,hget,hlt⟩ := hS k hk
  exact ⟨m,hkept.height k m hget,hlt⟩

theorem Mirrors.putHeaders (hm : Mirrors h w dbs c) {headers : List Header} {n : ℕ}
    (hlinks : headers.IsChain Header.OnTop) (hknown : ∀ hd ∈ headers, w.headers.known hd)
    (hplace : ∀ hd, headers.head? = some hd → dbs.blockHashes.Placed hd n) :
    Mirrors h w { dbs with blockHashes := dbs.blockHashes.putHeaders (headers.zipIdx n) } c := by
  induction headers generalizing dbs n with
  | nil => exact hm
  | cons hd headers ih =>
    have hone := hm.putHeader (hknown hd List.mem_cons_self) (hplace hd rfl)
    obtain ⟨-,-,hheader,hheight⟩ :=
      hm.store.putHeader (hknown hd List.mem_cons_self) (hplace hd rfl)
    refine ih hone hlinks.tail (fun hd' hmem => hknown hd' (List.mem_cons_of_mem _ hmem)) ?_
    intro hd' hfirst
    have hon : hd'.prevBlockhash = hd.blockHash := hlinks.rel_head? hfirst
    exact .inr ⟨hd,n,by rw [hon]; exact hheader,by rw [hon]; exact hheight,rfl⟩

theorem Mirrors.mempool (hm : Mirrors h w dbs c)
    (seen : Database OutPoint (SidechainNumber × ℕ)) (requests : List SeenBmmRequest) :
    Mirrors h w { dbs with
      seenUnconsolidatedCtipOutputs := seen
      blockHashes := { dbs.blockHashes with seenBmmRequestTxs := requests } } c := by
  obtain ⟨dbs₀,S,hr,⟨m,rfl,hm'⟩,hS⟩ := hm.plain
  exact ⟨⟨_,S,.mempool hr,⟨m,rfl,hm'⟩,hS⟩,hm.known,hm.store.congr rfl rfl⟩

end Mirrors

section Keeps

variable [Bitcoin] {h : BlockHandler} {w : BlockWorld} {dbs dbs' : Dbs} {c : Chain}

/-- The database has an active chain, and following the events so far leads to it. -/
def Broadcasts (h : BlockHandler) (w : BlockWorld) (start : List HeaderInfo) (dbs : Dbs)
    (events : List Event) : Prop :=
  ∃ c, Mirrors h w dbs c ∧ chainAfter start events = Chain.headerInfos c

omit [Bitcoin] in
theorem chainAfter_append (chain : List HeaderInfo) (events events' : List Event) :
    chainAfter chain (events++events') = chainAfter (chainAfter chain events) events' :=
  List.foldl_append

theorem broadcasts_keeps (start : List HeaderInfo) :
    SyncKeeps h w.known (Broadcasts h w start) where
  connect := by
    rintro dbs dbs' events b event ⟨c,hm,hc⟩ hb hone
    obtain ⟨hm',info,rfl⟩ := hm.connect hb hone
    refine ⟨b::c,hm',?_⟩
    rw [chainAfter_append,hc]
    rfl
  fromHeader := by
    rintro dbs dbs' events k n event ⟨c,hm,hc⟩ hn hlt hone
    obtain ⟨b,hm',info,rfl⟩ := hm.fromHeader hn hlt hone
    refine ⟨b::c,hm',?_⟩
    rw [chainAfter_append,hc]
    rfl
  disconnect := by
    rintro dbs dbs' events events' ⟨c,hm,hc⟩ hone
    rcases hm.disconnectTip hone with ⟨hm',rfl⟩ | ⟨hm',rfl⟩
    · exact ⟨c,hm',by simpa using hc⟩
    · refine ⟨c.tail,hm',?_⟩
      rw [chainAfter_append,hc,← Chain.tail_headerInfos]
      rfl

theorem headers_keeps (header : Database BlockHash Header) (height : Database BlockHash ℕ)
    (known : Block → Prop) : SyncKeeps h known (fun dbs _ => dbs.blockHashes.header = header ∧
      dbs.blockHashes.height = height) where
  connect := by
    rintro dbs dbs' events b event ⟨h₁,h₂⟩ - hone
    obtain ⟨h₁',h₂',-⟩ := connectBlock_tables hone
    exact ⟨h₁'.trans h₁,h₂'.trans h₂⟩
  fromHeader := by
    rintro dbs dbs' events k n event ⟨h₁,h₂⟩ - - hone
    obtain ⟨h₁',h₂'⟩ := connectBlockFromHeader_tables hone
    exact ⟨h₁'.trans h₁,h₂'.trans h₂⟩
  disconnect := by
    rintro dbs dbs' events events' ⟨h₁,h₂⟩ hone
    rcases disconnectBlock_ok.mp hone with ⟨-,-,rfl⟩ | ⟨d,hd,n,t,-,-,-,-,-,-,-,rfl⟩
    · exact ⟨h₁,h₂⟩
    · exact ⟨h₁,h₂⟩

end Keeps

section System

variable [Bitcoin] {h : BlockHandler} {w : BlockWorld}

/-- A sync of headers starts or makes a step; blocks are synced to some block, whatever goes
wrong on the way; or the node calls. A block is not disconnected without a tip. -/
inductive SyncSystem.Step (h : BlockHandler) (w : BlockWorld) : HeaderSystem → HeaderSystem → Prop
  | start (s : HeaderSystem) (mainTip : BlockHash) : Step h w s ⟨s.dbs,.start mainTip⟩
  | headers (s : HeaderSystem) (answers : NodeAnswers) (rest cancelled stored : Bool)
      (correct : answers.Correct w.headers) :
      Step h w s
        ⟨{ s.dbs with blockHashes :=
            (HeaderSync.step answers rest cancelled stored s.dbs.blockHashes s.sync).2 },
          (HeaderSync.step answers rest cancelled stored s.dbs.blockHashes s.sync).1⟩
  | blocks (s : HeaderSystem) (fuel : ℕ) (e : SyncSurroundings) (mainTip : BlockHash)
      (r : BlockSync) (serves : e.Serves w.known)
      (synced : h.syncAllBlocks fuel e s.dbs mainTip = some r) : Step h w s ⟨r.dbs,s.sync⟩
  | call (s : HeaderSystem) (call : EnforcerCall)
      (known : ∀ b, call = .connectBlock b → w.known b)
      (guard : ∀ k, call = .disconnectBlock k → s.dbs.currentChainTip = none →
        s.dbs.blockHashes.diff.get? k = none) :
      Step h w s ⟨(EnforcedNode.call h ⟨s.dbs,[]⟩ call).dbs,s.sync⟩

/-- What a step of the sync of headers stores: nothing, or a batch of known headers. -/
theorem headerStep_dbs {w : HeaderWorld} {dbs : BlockHashDbs} (hs : HeaderStore w dbs)
    {answers : NodeAnswers} (hc : answers.Correct w) (rest cancelled stored : Bool)
    {sync : HeaderSync} (hsound : sync.Sound w dbs) :
    (HeaderSync.step answers rest cancelled stored dbs sync).2 = dbs ∨
      ∃ (headers : List Header) (n : ℕ), headers.IsChain Header.OnTop ∧
        (∀ hd ∈ headers, w.known hd) ∧ (∀ hd, headers.head? = some hd → dbs.Placed hd n) ∧
        (HeaderSync.step answers rest cancelled stored dbs sync).2 =
          dbs.putHeaders (headers.zipIdx n) := by
  cases sync with
  | start mainTip =>
    simp only [HeaderSync.step]
    split
    · exact .inl rfl
    · split
      · exact .inl rfl
      · split <;> exact .inl rfl
  | search mainTip tipHeight best missing => exact .inl rfl
  | genesis mainTip tipHeight =>
    simp only [HeaderSync.step]
    split <;> exact .inl rfl
  | fetch mainTip tipHeight current n =>
    obtain ⟨-,hready⟩ := hsound
    simp only [HeaderSync.step]
    split_ifs
    · exact .inl rfl
    · unfold HeaderSync.fetchStep
      dsimp only
      split
      · exact .inl rfl
      · rename_i fetched hfetch
        obtain ⟨headers,hseg⟩ := fetchHeaders_ok hc hfetch
        split
        · exact .inl rfl
        · split
          · refine .inr ⟨headers,n,hseg.links,hseg.known,?_,by rw [hseg.stored]⟩
            intro hd hfirst
            refine hs.placed_of_ready (hseg.known hd (List.mem_of_mem_head? hfirst)) ?_
            rw [hseg.first hd hfirst]
            exact hready
          · exact .inl rfl
  | done result => exact .inl rfl

theorem Mirrors.headerStep {dbs : Dbs} {c : Chain} (hm : Mirrors h w dbs c) {answers : NodeAnswers}
    (hc : answers.Correct w.headers) (rest cancelled stored : Bool) {sync : HeaderSync}
    (hsound : sync.Sound w.headers dbs.blockHashes) :
    Mirrors h w { dbs with blockHashes :=
      (HeaderSync.step answers rest cancelled stored dbs.blockHashes sync).2 } c := by
  rcases headerStep_dbs hm.store hc rest cancelled stored hsound with
    he | ⟨headers,n,hlinks,hknown,hplace,he⟩
  · rw [he]
    exact hm
  · rw [he]
    exact hm.putHeaders hlinks hknown hplace

theorem Mirrors.storeHeader {dbs dbs' : Dbs} {c : Chain} {b : Block} (hm : Mirrors h w dbs c)
    (hb : w.known b) (hst : BlockHandler.storeHeader dbs b = some dbs') : Mirrors h w dbs' c := by
  unfold BlockHandler.storeHeader at hst
  split_ifs at hst
  · obtain rfl := Option.some.inj hst
    exact hm
  · obtain ⟨n,hn,rfl⟩ := Option.map_eq_some_iff.mp hst
    refine hm.putHeader ⟨b,hb,rfl⟩ ?_
    unfold newHeight at hn
    split_ifs at hn with hz
    · exact .inl ⟨hz,(Option.some.inj hn).symm⟩
    · obtain ⟨m,hm',rfl⟩ := Option.map_eq_some_iff.mp hn
      obtain ⟨parent,hp⟩ := hm.store.heights _ _ hm'
      exact .inr ⟨parent,m,hp,hm',rfl⟩

/-- A call of the node. -/
theorem Mirrors.call {s : EnforcedNode} {c : Chain} (hm : Mirrors h w s.dbs c) (call : EnforcerCall)
    (hknown : ∀ b, call = .connectBlock b → w.known b)
    (hguard : ∀ k, call = .disconnectBlock k → s.dbs.currentChainTip = none →
      s.dbs.blockHashes.diff.get? k = none) : ∃ c', Mirrors h w (s.call h call).dbs c' := by
  cases call with
  | acceptTx tx =>
    simp only [EnforcedNode.call]
    split
    · rename_i conflicts weight payout dbs' ha
      obtain ⟨v,-,ha⟩ := Fallible.bind_ok.mp ha
      cases hacc : acceptedCtips v with
      | none => simp [hacc] at ha
      | some p =>
        simp only [hacc,Fallible.pure_ok,Prod.mk.injEq] at ha
        obtain ⟨-,-,rfl⟩ := ha
        cases parseM8Tx tx with
        | none => exact ⟨c,hm.mempool _ s.dbs.blockHashes.seenBmmRequestTxs⟩
        | some request => exact ⟨c,hm.mempool _ _⟩
    · exact ⟨c,hm⟩
    · exact ⟨c,hm⟩
  | connectBlock b =>
    have hb := hknown b rfl
    simp only [EnforcedNode.call,connectBlockCommit]
    cases hstore : BlockHandler.storeHeader s.dbs b with
    | none => exact ⟨c,hm⟩
    | some dbs₁ =>
      have hm₁ := hm.storeHeader hb hstore
      cases hcon : h.connectBlock dbs₁ b with
      | ok r => simpa [hcon] using ⟨b::c,(hm₁.connect hb hcon).1⟩
      | error err =>
        cases hf : err.fatality with
        | jfyi => simpa [hcon,hf] using ⟨c,hm₁⟩
        | fatal => simpa [hcon,hf] using ⟨c,hm⟩
        | panic => simpa [hcon,hf] using ⟨c,hm⟩
  | disconnectBlock k =>
    simp only [EnforcedNode.call]
    split
    · rename_i removed dbs' hd
      obtain ⟨⟨events,dbs₁⟩,hone,hd⟩ := Fallible.bind_ok.mp hd
      cases hd
      rcases hm.disconnect (hguard k rfl) hone with ⟨hm',-⟩ | ⟨hm',-⟩
      · exact ⟨c,hm'⟩
      · exact ⟨c.tail,hm'⟩
    · exact ⟨c,hm⟩

/-- What holds in every state: the header sync knows where it goes on, and the database has
an active chain. -/
structure SyncSystem.Sound (h : BlockHandler) (w : BlockWorld) (s : HeaderSystem) : Prop where
  sync : s.sync.Sound w.headers s.dbs.blockHashes
  mirrors : ∃ c, Mirrors h w s.dbs c

theorem SyncSystem.Sound.step {s s' : HeaderSystem} (hs : Sound h w s) (hstep : Step h w s s') :
    Sound h w s' := by
  obtain ⟨hsync,c,hm⟩ := hs
  cases hstep with
  | start mainTip => exact ⟨trivial,c,hm⟩
  | headers answers rest cancelled stored hc =>
    have hk := HeaderSync.Sound.step hm.store hc rest cancelled stored hsync
    exact ⟨hk.sound,c,hm.headerStep hc rest cancelled stored hsync⟩
  | blocks fuel e mainTip r hserves hr =>
    obtain ⟨h₁,h₂⟩ := (headers_keeps s.dbs.blockHashes.header s.dbs.blockHashes.height
      w.known).syncAllBlocks hserves [] ⟨rfl,rfl⟩ hr
    obtain ⟨c',hm',-⟩ :=
      (broadcasts_keeps (Chain.headerInfos c)).syncAllBlocks hserves [] ⟨c,hm,rfl⟩ hr
    exact ⟨hsync.mono ⟨fun k hd hk => by rwa [h₁],fun k n hk => by rwa [h₂]⟩,c',hm'⟩
  | call call hknown hguard =>
    obtain ⟨-,hkept⟩ := HeaderStore.call h (s := ⟨s.dbs,[]⟩) hm.store call
      (fun b hb => ⟨b,hknown b hb,rfl⟩)
    exact ⟨hsync.mono hkept,Mirrors.call (s := ⟨s.dbs,[]⟩) hm call hknown hguard⟩

theorem SyncSystem.Sound.run {s s' : HeaderSystem} (hs : Sound h w s)
    (hrun : Relation.ReflTransGen (Step h w) s s') : Sound h w s' := by
  induction hrun with
  | refl => exact hs
  | tail _ hstep ih => exact ih.step hstep

theorem SyncSystem.sound_initial : Sound h w .initial := ⟨trivial,[],mirrors_empty h w⟩

theorem judge_setTxids (dbs : Dbs) (m : Database BlockHash Txid) (b : Block) :
    h.judge (dbs.setTxids m) b = h.judge dbs b := by
  unfold BlockHandler.judge
  rw [connectBlock_setTxids]
  cases h.connectBlock dbs b <;> rfl

theorem Mirrors.agree {dbs dbs' : Dbs} {c : Chain} (hm : Mirrors h w dbs c)
    (hm' : Mirrors h w dbs' c) : dbs.toConsensusDbs = dbs'.toConsensusDbs ∧
      ∀ b, dbs.blockHashes.header.get? b.blockHash = some b.header →
        dbs'.blockHashes.header.get? b.blockHash = some b.header →
        b.header.prevBlockhash = c.parentHash → h.judge dbs b = h.judge dbs' b := by
  obtain ⟨dbs₀,S,hr,⟨m,rfl,-⟩,-⟩ := hm.plain
  obtain ⟨dbs₁,S',hr',⟨m',rfl,-⟩,-⟩ := hm'.plain
  obtain ⟨htables,hdiff⟩ := hr.agree (fun c b hb => hb) hr'
  refine ⟨htables,fun b hb hb' hparent => ?_⟩
  rw [judge_setTxids,judge_setTxids,hr.synced.judge_eq hb hparent,hr'.synced.judge_eq hb' hparent,
    htables,hdiff]

/-- Two validators that have synced and been called in any way, with whatever went wrong on the
way, hold the same consensus tables if they have the same tip: those after connecting the full
blocks of one chain one by one. They judge every block on top of it in the same way. -/
theorem synced_validators_agree {s s' : HeaderSystem}
    (hrun : Relation.ReflTransGen (SyncSystem.Step h w) .initial s)
    (hrun' : Relation.ReflTransGen (SyncSystem.Step h w) .initial s')
    (ht : s.dbs.currentChainTip = s'.dbs.currentChainTip) :
    (∃ c, Mirrors h w s.dbs c ∧ Mirrors h w s'.dbs c) ∧
      s.dbs.toConsensusDbs = s'.dbs.toConsensusDbs ∧
      ∀ b, s.dbs.blockHashes.header.get? b.blockHash = some b.header →
        s'.dbs.blockHashes.header.get? b.blockHash = some b.header →
        b.header.prevBlockhash = currentEnforcerTip s.dbs → h.judge s.dbs b = h.judge s'.dbs b := by
  obtain ⟨-,c,hm⟩ := SyncSystem.sound_initial.run hrun
  obtain ⟨-,c',hm'⟩ := SyncSystem.sound_initial.run hrun'
  have htip : c.tipHash = c'.tipHash := by rw [← hm.tip.1,← hm'.tip.1,ht]
  obtain rfl := BlockWorld.chain_unique hm.joined hm'.joined hm.known hm'.known htip
  obtain ⟨htables,hjudge⟩ := hm.agree hm'
  refine ⟨⟨c,hm,hm'⟩,htables,fun b hb hb' hparent => hjudge b hb hb' ?_⟩
  rw [hparent,hm.tip.2]

end System

section Sample

open Sample

namespace SyncedSample

def handler : BlockHandler := HeaderOnlySample.handler

def blocks : List Block := HeaderOnlySample.blocks

def chain : List Header := blocks.map Block.header

def target : BlockHash := (blocks.getLastD (blockOn 0 0 [] [])).blockHash

theorem chain_ne_nil : chain ≠ [] := by decide

def world : BlockWorld where
  genesis := chain.head chain_ne_nil
  known b := b ∈ blocks
  genesis_parent := by decide +kernel
  noCollision b b' hb hb' :=
    (by decide +kernel : ∀ b ∈ blocks, ∀ b' ∈ blocks, b.blockHash = b'.blockHash → b = b') b hb b' hb'
  coinbase := by decide +kernel
  fresh c b _ _ hb _ := by
    have hnone : b.txdata.tail = [] :=
      (by decide +kernel : ∀ b ∈ blocks, b.txdata.tail = []) b hb
    simp [FreshTxids,NewTxs,hnone]

def answers : NodeAnswers where
  getblockheader k := chain.findIdx? (fun hd => hd.blockHash = k)
  getblockhash _ n := chain[n]?.map Header.blockHash
  rawHeader _ k := (chain.find? (fun hd => hd.blockHash = k)).map Header.serialize
  restHeaders k n := some ((headersFrom chain k n).flatMap Header.serialize)

theorem known_of_mem {hd : Header} (hmem : hd ∈ chain) : world.headers.known hd := by
  obtain ⟨b,hb,rfl⟩ := List.mem_map.mp hmem
  exact ⟨b,hb,rfl⟩

theorem headerChain : HeaderChain world.headers chain :=
  ⟨by decide +kernel,by decide +kernel,fun _ hmem => known_of_mem hmem⟩

theorem answers_correct : answers.Correct world.headers where
  getblockhash i n k hk := by
    obtain ⟨hd,hget,hhash⟩ := Option.map_eq_some_iff.mp hk
    exact ⟨chain,hd,headerChain,hget,hhash⟩
  rawHeader i k bytes hk := by
    obtain ⟨hd,hfind,hbytes⟩ := Option.map_eq_some_iff.mp hk
    exact ⟨hd,known_of_mem (List.mem_of_find?_eq_some hfind),by simpa using List.find?_some hfind,
      hbytes.symm⟩
  restHeaders k n bytes hk := ⟨chain,headerChain,(Option.some.inj hk).symm⟩

def headerStep (s : HeaderSystem) : HeaderSystem :=
  ⟨{ s.dbs with blockHashes := (HeaderSync.step answers true false true s.dbs.blockHashes s.sync).2 },
    (HeaderSync.step answers true false true s.dbs.blockHashes s.sync).1⟩

def withHeaders : HeaderSystem := headerStep^[6] ⟨.empty,.start target⟩

theorem run_withHeaders :
    Relation.ReflTransGen (SyncSystem.Step handler world) .initial withHeaders := by
  have hrun : ∀ n s, Relation.ReflTransGen (SyncSystem.Step handler world) s (headerStep^[n] s) := by
    intro n
    induction n with
    | zero => exact fun s => .refl
    | succ n ih => exact fun s => .head (.headers s answers true false true answers_correct) (ih _)
  exact .head (.start .initial _) (hrun 6 _)

def input : RpcInput where
  cancelled := false
  waitCancelled := false
  chainstates := some []
  blocks hashes :=
    let found := blocks.filter (fun b => b.blockHash ∈ hashes)
    if found.map Block.blockHash = hashes then some found else none
  committed := true

def surroundings : SyncSurroundings where
  cancelled _ := false
  fileCancelled _ := false
  fault _ := false
  mainBlocksDir := none
  chainstates := some []
  rounds := [input,input]

theorem serves : surroundings.Serves world.known where
  files := by simp [surroundings]
  node := by
    intro i hi hashes found hfound b hb
    have hinput : i = input := by simpa [surroundings] using hi
    subst hinput
    obtain ⟨-,hsome⟩ := Option.ite_none_right_eq_some.mp hfound
    obtain rfl := Option.some.inj hsome
    exact (List.mem_filter.mp hb).1

def called : HeaderSystem :=
  blocks.foldl (fun s b => ⟨(EnforcedNode.call handler ⟨s.dbs,[]⟩ (.connectBlock b)).dbs,s.sync⟩)
    .initial

theorem run_called : Relation.ReflTransGen (SyncSystem.Step handler world) .initial called := by
  have hrun : ∀ (l : List Block) s, (∀ b ∈ l, b ∈ blocks) →
      Relation.ReflTransGen (SyncSystem.Step handler world) s
        (l.foldl (fun s b => ⟨(EnforcedNode.call handler ⟨s.dbs,[]⟩ (.connectBlock b)).dbs,s.sync⟩)
          s) := by
    intro l
    induction l with
    | nil => exact fun s _ => .refl
    | cons b l ih =>
      intro s hl
      refine .head (.call s (.connectBlock b) ?_ ?_)
        (ih _ (fun b' hb' => hl b' (List.mem_cons_of_mem _ hb')))
      · intro b' he
        obtain rfl := EnforcerCall.connectBlock.inj he
        exact hl b List.mem_cons_self
      · intro k he
        cases he
  exact hrun blocks _ (fun b hb => hb)

end SyncedSample

open SyncedSample

theorem synced_validators_agree_sample :
    ∃ r, handler.syncAllBlocks 1 surroundings withHeaders.dbs target = some r ∧
      r.dbs.currentChainTip = some target ∧
      r.dbs.toConsensusDbs = called.dbs.toConsensusDbs ∧
      called.dbs.proposalIdToSidechain.toList.length = 1 := by
  have hsome : (handler.syncAllBlocks 1 surroundings withHeaders.dbs target).isSome = true := by
    decide +kernel
  obtain ⟨r,hr⟩ := Option.isSome_iff_exists.mp hsome
  have htip : (handler.syncAllBlocks 1 surroundings withHeaders.dbs target).map
      (fun r => r.dbs.currentChainTip) = some (some target) := by decide +kernel
  rw [hr] at htip
  have htip' := Option.some.inj htip
  have hcalled : called.dbs.currentChainTip = some target := by decide +kernel
  obtain ⟨-,htables,-⟩ := synced_validators_agree
    (run_withHeaders.tail (.blocks _ 1 surroundings target r serves hr)) run_called
    (htip'.trans hcalled.symm)
  exact ⟨r,hr,htip',htables,by decide +kernel⟩

end Sample

end Bip300301Enforcer
