import Bip300301Enforcer.HeaderStore

/-! How far a sync of the headers gets. Every round of its loop ends it or fetches a header
above the current one, unless the node answers over REST while its chain ends in the current
block. -/
namespace Bip300301Enforcer
open Lib Walk BlockHashDbs

section Progress

variable [Bitcoin] {w : HeaderWorld} {dbs dbs' : BlockHashDbs} {answers : NodeAnswers}
  {mainTip current : BlockHash} {tipHeight n count : ℕ} {rest cancelled stored : Bool}

def NodeAnswers.EndsAt (w : HeaderWorld) (answers : NodeAnswers) (k : BlockHash) (count : ℕ) : Prop :=
  ∃ chain hd, HeaderChain w (chain++[hd]) ∧ hd.blockHash = k ∧
    answers.restHeaders k count = some hd.serialize

theorem fetchRpcHeaders_length {fetched : List FetchedHeader}
    (hf : fetchHeaders answers false current n count = .ok fetched) : fetched.length = count := by
  obtain ⟨blockHashes,hhashes,hf⟩ := Fallible.bind_ok.mp hf
  obtain ⟨rawHeaders,hraw,hf⟩ := Fallible.bind_ok.mp hf
  obtain ⟨_,-,hf⟩ := Fallible.bind_ok.mp hf
  obtain ⟨headers,rfl,-,-,hmap,-⟩ := validateRpcHeaders_ok hf
  have hlen := congrArg List.length hmap
  have hcount := (Fallible.mapM_results hhashes).1
  have hcount' := (Fallible.mapM_results hraw).1
  simp only [List.length_map,List.length_zip,List.length_range,List.length_zipIdx] at hlen hcount hcount' ⊢
  omega

/-- A single header is fetched only over REST, from a node whose chain ends with it. -/
theorem endsAt_of_single (hc : answers.Correct w) (hcount : 2 ≤ count)
    {e : FetchedHeader} (hf : fetchHeaders answers rest current n count = .ok [e]) :
    rest = true ∧ answers.EndsAt w current count := by
  cases rest with
  | false =>
    have hlen := fetchRpcHeaders_length hf
    simp only [List.length_cons,List.length_nil] at hlen
    omega
  | true =>
    refine ⟨rfl,?_⟩
    simp only [fetchHeaders,if_true,Fallible.mapError_ok] at hf
    obtain ⟨bytes,hbytes,hg⟩ := Fallible.bind_ok.mp hf
    rw [Fallible.require_ok] at hbytes
    obtain ⟨fetched,hdec,hg⟩ := Fallible.bind_ok.mp hg
    obtain ⟨_,-,hg⟩ := Fallible.bind_ok.mp hg
    obtain rfl := (Fallible.pure_ok _ _).mp hg
    obtain ⟨chain,hchain,rfl⟩ := hc.restHeaders current count bytes hbytes
    have hlen := congrArg List.length (decodeBlockHeaders_ok hdec)
    simp only [List.length_cons,List.length_nil,List.length_map,List.length_zipIdx] at hlen
    obtain ⟨hd,hsingle⟩ := List.length_eq_one_iff.mp hlen.symm
    have hhead : (headersFrom chain current count).head? = some hd := by
      rw [hsingle]
      rfl
    have hfirst : hd.blockHash = current := headersFrom_first hhead
    -- fewer headers than asked for: the chain ends here
    have hdrop : chain.dropWhile (fun hd => decide (hd.blockHash ≠ current)) = [hd] := by
      have htake := hsingle
      unfold headersFrom at htake
      have hshort := congrArg List.length htake
      rw [List.length_take,List.length_singleton] at hshort
      rwa [List.take_of_length_le (by omega)] at htake
    obtain ⟨front,hsplit⟩ := List.dropWhile_suffix (l := chain)
      (fun hd : Header => decide (hd.blockHash ≠ current))
    rw [hdrop] at hsplit
    refine ⟨front,hd,by rwa [hsplit],hfirst,?_⟩
    rw [hbytes,hsingle]
    simp

theorem fetchHeaders_endsAt (hlt : n < 2^32) (he : answers.EndsAt w current count) :
    ∃ hd, fetchHeaders answers true current n count = .ok [(hd,current,n)] := by
  obtain ⟨chain,hd,-,rfl,hbytes⟩ := he
  refine ⟨hd,?_⟩
  have htake : hd.serialize.take 80 = hd.serialize := List.take_of_length_le (by simp)
  have hlt' : n < 4294967296 := hlt
  simp [fetchHeaders,getBlockHeaders,hbytes,decodeBlockHeaders,Fallible.ensure,htake,
    Header.deserialize_serialize,hlt',List.range_succ,Except.mapError]

def batchSize (tipHeight n : ℕ) : ℕ := min headerFetchBatchSize (tipHeight-n+1)

omit [Bitcoin] in
theorem two_le_batchSize (hlt : n < tipHeight) : 2 ≤ batchSize tipHeight n := by
  unfold batchSize headerFetchBatchSize
  omega

/-- A round ends the sync, or it goes on from a height above the last one and not above that
of the tip. -/
def HeaderSync.Advances (tipHeight n : ℕ) : HeaderSync → Prop
  | .done _ => True
  | .fetch _ tipHeight' _ n' => tipHeight' = tipHeight ∧ n < n' ∧ n' ≤ tipHeight
  | _ => False

/-- The round in which a node whose chain ends in the current block answers over REST. -/
structure HeaderSync.Stalls (w : HeaderWorld) (answers : NodeAnswers) (rest cancelled stored : Bool)
    (mainTip : BlockHash) (tipHeight : ℕ) (current : BlockHash) (n : ℕ) : Prop where
  isRest : rest = true
  notCancelled : cancelled = false
  isStored : stored = true
  notTip : current ≠ mainTip
  below : n < tipHeight
  endsAt : answers.EndsAt w current (batchSize tipHeight n)

theorem HeaderSync.Stalls.step (hu32 : tipHeight < 2^32)
    (hs : Stalls w answers rest cancelled stored mainTip tipHeight current n) :
    (HeaderSync.step answers rest cancelled stored dbs (.fetch mainTip tipHeight current n)).1 =
      .fetch mainTip tipHeight current n := by
  obtain ⟨rfl,rfl,rfl,hne,hlt,hends⟩ := hs
  obtain ⟨hd,hf⟩ := fetchHeaders_endsAt (n := n) (by omega) hends
  unfold batchSize at hf
  simp only [HeaderSync.step,HeaderSync.fetchStep,hf,Bool.false_eq_true,if_false,if_true,
    List.getLast?_singleton,if_neg hne,if_neg hlt.ne]

/-- A round that does not stall advances. -/
theorem step_advances (hc : answers.Correct w) (hle : n ≤ tipHeight)
    (hs : ¬ HeaderSync.Stalls w answers rest cancelled stored mainTip tipHeight current n) :
    (HeaderSync.step answers rest cancelled stored dbs
      (.fetch mainTip tipHeight current n)).1.Advances tipHeight n := by
  simp only [HeaderSync.step]
  split
  · trivial
  rename_i hcancel
  unfold HeaderSync.fetchStep
  dsimp only
  split
  · trivial
  rename_i fetched hf
  obtain ⟨headers,hseg⟩ := fetchHeaders_ok hc hf
  split
  · trivial
  rename_i last lastHash lastHeight hlast
  obtain ⟨hget,rfl,rfl,hpos⟩ := hseg.last hlast
  split
  · rename_i hstored
    have hlen := hseg.length_le
    dsimp only
    split
    · trivial
    · rename_i htip
      split
      · trivial
      · rename_i hheight
        refine ⟨rfl,?_,by omega⟩
        by_contra hcon
        obtain ⟨hd,rfl⟩ := List.length_eq_one_iff.mp (show headers.length = 1 by omega)
        obtain rfl : hd = last := Option.some.inj hget
        have hcurrent := hseg.first hd rfl
        have hlt : n < tipHeight := by
          simp only [List.length_singleton] at hheight
          omega
        have hsingle : fetched = [(hd,hd.blockHash,n)] := hseg.fetched
        rw [hsingle] at hf
        obtain ⟨hrest,hends⟩ := endsAt_of_single hc (two_le_batchSize hlt) hf
        exact hs ⟨hrest,by simpa using hcancel,hstored,by rwa [← hcurrent],hlt,hends⟩
  · trivial

/-- The sync is for this tip, whose height fits in 32 bits, and when it succeeds the tip is
stored. -/
def HeaderSync.Toward (mainTip : BlockHash) (dbs : BlockHashDbs) : HeaderSync → Prop
  | .start tip => tip = mainTip
  | .search tip tipHeight _ _ => tip = mainTip ∧ tipHeight < 2^32
  | .genesis tip tipHeight => tip = mainTip ∧ tipHeight < 2^32
  | .fetch tip tipHeight _ _ => tip = mainTip ∧ tipHeight < 2^32
  | .done (.ok _) => mainTip = allZeros ∨ dbs.header.contains mainTip = true
  | .done (.error _) => True

/-- The heights that the node answers with fit in 32 bits. -/
def NodeAnswers.Bounded (answers : NodeAnswers) : Prop :=
  ∀ k n, answers.getblockheader k = some n → n < 2^32

omit [Bitcoin] in
theorem HeaderSync.Toward.fromAncestor {best : Option (BlockHash × ℕ)} (hu32 : tipHeight < 2^32)
    (hbest : ∀ k n, best = some (k,n) → dbs.header.contains k = true) :
    (HeaderSync.fromAncestor mainTip tipHeight best).Toward mainTip dbs := by
  cases best with
  | none => exact ⟨rfl,hu32⟩
  | some e =>
    unfold HeaderSync.fromAncestor
    dsimp only
    split
    · rename_i he
      exact .inr (he ▸ hbest e.1 e.2 rfl)
    · exact ⟨rfl,hu32⟩

theorem HeaderSync.Toward.step {sync : HeaderSync} (hs : HeaderStore w dbs) (hc : answers.Correct w)
    (hb : answers.Bounded) (hsound : sync.Sound w dbs) (ht : sync.Toward mainTip dbs) :
    (HeaderSync.step answers rest cancelled stored dbs sync).1.Toward mainTip
      (HeaderSync.step answers rest cancelled stored dbs sync).2 := by
  cases sync with
  | start tip =>
    obtain rfl : tip = mainTip := ht
    simp only [HeaderSync.step]
    split
    · rename_i hz
      exact .inl hz
    · split
      · trivial
      · rename_i tipHeight htip
        split
        · rename_i hstored
          dsimp only
          refine HeaderSync.Toward.fromAncestor (hb _ _ htip) (fun k n hkn => ?_)
          obtain ⟨rfl,-⟩ := Prod.mk.inj (Option.some.inj hkn)
          exact hstored
        · exact ⟨rfl,hb _ _ htip⟩
  | search tip tipHeight best missing =>
    obtain ⟨rfl,hu32⟩ := ht
    simp only [HeaderSync.step,HeaderSync.searchStep]
    split
    · refine HeaderSync.Toward.fromAncestor hu32 (fun k n hkn => ?_)
      obtain ⟨-,hd,hh,-⟩ := hsound.2 k n hkn
      exact (FinMap.contains_iff _ _).mpr ⟨hd,hh⟩
    · split
      · trivial
      · split
        · exact ⟨rfl,hu32⟩
        · exact ⟨rfl,hu32⟩
  | genesis tip tipHeight =>
    obtain ⟨rfl,hu32⟩ := ht
    simp only [HeaderSync.step]
    split
    · trivial
    · exact ⟨rfl,hu32⟩
  | fetch tip tipHeight current n =>
    obtain ⟨rfl,hu32⟩ := ht
    obtain ⟨hle,hready⟩ := hsound
    simp only [HeaderSync.step]
    split
    · trivial
    · unfold HeaderSync.fetchStep
      dsimp only
      split
      · trivial
      · rename_i fetched hf
        obtain ⟨headers,hseg⟩ := fetchHeaders_ok hc hf
        split
        · trivial
        · rename_i last lastHash lastHeight hlast
          split
          · obtain ⟨hget,rfl,rfl,hpos⟩ := hseg.last hlast
            dsimp only
            split
            · rename_i he
              rw [hseg.stored]
              obtain ⟨-,-,hput⟩ := hs.putHeaders hseg.links hseg.known (fun hd hfirst =>
                hs.placed_of_ready (hseg.known hd (List.mem_of_mem_head? hfirst))
                  (by rw [hseg.first hd hfirst]; exact hready))
              exact .inr ((FinMap.contains_iff _ _).mpr ⟨last,he ▸ (hput last hget).1⟩)
            · split
              · trivial
              · exact ⟨rfl,hu32⟩
          · trivial
  | done result => exact ht

/-- The number of rounds that are left at most. While nothing is known, the search has one
more height to ask for. -/
def HeaderSync.rounds : HeaderSync → ℕ
  | .start _ => 0
  | .search _ tipHeight best missing =>
    missing+1-(best.map (fun e => e.2+1)).getD 0+(tipHeight+3)
  | .genesis _ tipHeight => tipHeight+2
  | .fetch _ tipHeight _ n => tipHeight-n+1
  | .done _ => 0

omit [Bitcoin] in
/-- The search comes to an end, whatever the node answers. -/
theorem searchStep_rounds {best : Option (BlockHash × ℕ)} {missing : ℕ}
    (hbest : ∀ k n, best = some (k,n) → n < missing) (hle : missing ≤ tipHeight) :
    (HeaderSync.searchStep answers dbs mainTip tipHeight best missing).rounds <
      (HeaderSync.search mainTip tipHeight best missing).rounds := by
  unfold HeaderSync.searchStep
  dsimp only
  split
  · cases best with
    | none =>
      simp only [HeaderSync.fromAncestor,HeaderSync.rounds,Option.map_none,Option.getD_none]
      omega
    | some e =>
      simp only [HeaderSync.fromAncestor]
      split
      · simp only [HeaderSync.rounds]
        omega
      · simp only [HeaderSync.rounds]
        omega
  · rename_i hmid
    rw [not_or] at hmid
    split
    · simp only [HeaderSync.rounds]
      omega
    · cases best with
      | none =>
        simp only [Option.map_none,Option.getD_none] at hmid ⊢
        split
        · simp only [HeaderSync.rounds,Option.map_some,Option.getD_some,Option.map_none,
            Option.getD_none]
          omega
        · simp only [HeaderSync.rounds,Option.map_none,Option.getD_none]
          omega
      | some e =>
        have hlt := hbest e.1 e.2 rfl
        simp only [Option.map_some,Option.getD_some,Option.some.injEq] at hmid ⊢
        split
        · simp only [HeaderSync.rounds,Option.map_some,Option.getD_some]
          omega
        · simp only [HeaderSync.rounds,Option.map_some,Option.getD_some]
          omega

/-- What happens in one round: the answers of the node, whether the sync is cancelled and
whether the headers can be stored. -/
structure SyncInput where
  answers : NodeAnswers
  cancelled : Bool
  stored : Bool

/-- Where a sync stands after some rounds, and what is stored. -/
def HeaderSync.run (rest : Bool) (inputs : ℕ → SyncInput) (dbs : BlockHashDbs) (mainTip : BlockHash) :
    ℕ → HeaderSync × BlockHashDbs
  | 0 => (.start mainTip,dbs)
  | i+1 =>
    let s := HeaderSync.run rest inputs dbs mainTip i
    HeaderSync.step (inputs i).answers rest (inputs i).cancelled (inputs i).stored s.2 s.1

/-- Each round of the loop advances, and the sync comes to an end. -/
def HeaderSync.MakesProgress (rest : Bool) (inputs : ℕ → SyncInput) (dbs : BlockHashDbs)
    (mainTip : BlockHash) : Prop :=
  (∀ i tip tipHeight k n, (run rest inputs dbs mainTip i).1 = .fetch tip tipHeight k n →
    (run rest inputs dbs mainTip (i+1)).1.Advances tipHeight n) ∧
  ∃ i result, (run rest inputs dbs mainTip i).1 = .done result

/-- In no round does the node answer over REST while its chain ends in the current block. -/
def HeaderSync.NeverStalls (w : HeaderWorld) (rest : Bool) (inputs : ℕ → SyncInput)
    (dbs : BlockHashDbs) (mainTip : BlockHash) : Prop :=
  ∀ i tip tipHeight k n, (run rest inputs dbs mainTip i).1 = .fetch tip tipHeight k n →
    ¬ Stalls w (inputs i).answers rest (inputs i).cancelled (inputs i).stored tip tipHeight k n

variable {inputs : ℕ → SyncInput}

/-- What holds after any number of rounds. -/
structure HeaderSync.Along (w : HeaderWorld) (mainTip : BlockHash) (s : HeaderSync × BlockHashDbs) :
    Prop where
  store : HeaderStore w s.2
  sound : s.1.Sound w s.2
  toward : s.1.Toward mainTip s.2

theorem HeaderSync.along_run (hs : HeaderStore w dbs) (hc : ∀ i, (inputs i).answers.Correct w)
    (hb : ∀ i, (inputs i).answers.Bounded) (i : ℕ) :
    Along w mainTip (run rest inputs dbs mainTip i) := by
  induction i with
  | zero => exact ⟨hs,trivial,rfl⟩
  | succ i ih =>
    have hkeeps := HeaderSync.Sound.step ih.store (hc i) rest (inputs i).cancelled
      (inputs i).stored ih.sound
    exact ⟨hkeeps.store,hkeeps.sound,ih.toward.step ih.store (hc i) (hb i) ih.sound⟩

/-- A round after the first one ends the sync or leaves fewer rounds. -/
theorem HeaderSync.Along.rounds_lt {s : HeaderSync × BlockHashDbs} (ha : Along w mainTip s)
    (hc : answers.Correct w) (hstart : ∀ tip, s.1 ≠ .start tip) (hdone : ∀ r, s.1 ≠ .done r)
    (hstall : ∀ tip tipHeight k n, s.1 = .fetch tip tipHeight k n →
      ¬ Stalls w answers rest cancelled stored tip tipHeight k n) :
    (HeaderSync.step answers rest cancelled stored s.2 s.1).1.rounds < s.1.rounds := by
  obtain ⟨sync,dbs⟩ := s
  have hsound := ha.sound
  cases sync with
  | start tip => exact absurd rfl (hstart tip)
  | search tip tipHeight best missing =>
    exact searchStep_rounds (fun k n hkn => (hsound.2 k n hkn).1) hsound.1
  | genesis tip tipHeight =>
    simp only [HeaderSync.step]
    split
    · simp only [rounds]
      omega
    · simp only [rounds]
      omega
  | fetch tip tipHeight k n =>
    have hadv : (HeaderSync.step answers rest cancelled stored dbs
        (.fetch tip tipHeight k n)).1.Advances tipHeight n :=
      step_advances hc hsound.1 (hstall tip tipHeight k n rfl)
    dsimp only
    cases hstep : (HeaderSync.step answers rest cancelled stored dbs
        (.fetch tip tipHeight k n)).1 with
    | fetch tip' tipHeight' k' n' =>
      rw [hstep] at hadv
      obtain ⟨rfl,hlt,hle⟩ := hadv
      simp only [rounds]
      omega
    | done r =>
      simp only [rounds]
      omega
    | start _ | search _ _ _ _ | genesis _ _ =>
      rw [hstep] at hadv
      exact absurd hadv id
  | done r => exact absurd rfl (hdone r)

omit [Bitcoin] in
theorem HeaderSync.fromAncestor_ne_start (best : Option (BlockHash × ℕ)) (tip : BlockHash) :
    HeaderSync.fromAncestor mainTip tipHeight best ≠ .start tip := by
  cases best with
  | none => simp [HeaderSync.fromAncestor]
  | some e =>
    simp only [HeaderSync.fromAncestor]
    split
    · simp
    · simp

/-- A sync starts once. -/
theorem HeaderSync.step_ne_start {sync : HeaderSync} (tip : BlockHash) :
    (HeaderSync.step answers rest cancelled stored dbs sync).1 ≠ .start tip := by
  cases sync with
  | start mainTip =>
    simp only [HeaderSync.step]
    split
    · simp
    · split
      · simp
      · split
        · dsimp only
          exact fromAncestor_ne_start _ tip
        · simp
  | search mainTip tipHeight best missing =>
    simp only [HeaderSync.step,HeaderSync.searchStep]
    split
    · exact fromAncestor_ne_start _ tip
    · split
      · simp
      · split
        · simp
        · simp
  | genesis mainTip tipHeight =>
    simp only [HeaderSync.step]
    split
    · simp
    · simp
  | fetch mainTip tipHeight current n =>
    simp only [HeaderSync.step,HeaderSync.fetchStep]
    split
    · simp
    · split
      · simp
      · split
        · simp
        · split
          · dsimp only
            split
            · simp
            · split
              · simp
              · simp
          · simp
  | done result => simp [HeaderSync.step]

theorem HeaderSync.exists_done (hs : HeaderStore w dbs) (hc : ∀ i, (inputs i).answers.Correct w)
    (hb : ∀ i, (inputs i).answers.Bounded) (hstall : NeverStalls w rest inputs dbs mainTip) :
    ∃ i result, (run rest inputs dbs mainTip i).1 = .done result := by
  by_contra hcon
  push Not at hcon
  have hdown : ∀ i, (run rest inputs dbs mainTip (i+1)).1.rounds+i ≤
      (run rest inputs dbs mainTip 1).1.rounds := by
    intro i
    induction i with
    | zero => exact le_rfl
    | succ i ih =>
      have halong : Along w mainTip (run rest inputs dbs mainTip (i+1)) :=
        along_run hs hc hb (i+1)
      have hlt := halong.rounds_lt (hc (i+1)) (fun tip => step_ne_start tip) (hcon (i+1))
        (hstall (i+1))
      have hnext : (run rest inputs dbs mainTip (i+1+1)).1.rounds <
          (run rest inputs dbs mainTip (i+1)).1.rounds := hlt
      omega
  have := hdown ((run rest inputs dbs mainTip 1).1.rounds+1)
  omega

/-- Whatever the node reorganises, the current height stays at most that of the tip, so that
the difference of the two is exact, and a sync that succeeds has stored the tip and its
ancestors. It makes progress exactly when the node never answers over REST while its chain
ends in the current block, below the height of the tip. -/
theorem header_sync_progress (mainTip : BlockHash) (rest : Bool) (inputs : ℕ → SyncInput)
    (hs : HeaderStore w dbs) (hc : ∀ i, (inputs i).answers.Correct w)
    (hb : ∀ i, (inputs i).answers.Bounded) :
    (HeaderSync.MakesProgress rest inputs dbs mainTip ↔
      HeaderSync.NeverStalls w rest inputs dbs mainTip) ∧
    (∀ i tip tipHeight k n,
      (HeaderSync.run rest inputs dbs mainTip i).1 = .fetch tip tipHeight k n → n ≤ tipHeight) ∧
    ∀ i stored, HeaderSync.run rest inputs dbs mainTip i = (.done (.ok ()),stored) →
      mainTip ≠ allZeros → stored.header.contains mainTip = true ∧
        Path stored.parent? mainTip (stored.ancestorHeaders mainTip) allZeros := by
  have halong : ∀ i, HeaderSync.Along w mainTip (HeaderSync.run rest inputs dbs mainTip i) :=
    HeaderSync.along_run hs hc hb
  have hbound : ∀ i tip tipHeight k n,
      (HeaderSync.run rest inputs dbs mainTip i).1 = .fetch tip tipHeight k n →
        n ≤ tipHeight ∧ tipHeight < 2^32 := by
    intro i tip tipHeight k n hi
    have hsound := (halong i).sound
    have htoward := (halong i).toward
    rw [hi] at hsound htoward
    exact ⟨hsound.1,htoward.2⟩
  refine ⟨⟨?_,?_⟩,fun i tip tipHeight k n hi => (hbound i tip tipHeight k n hi).1,?_⟩
  · rintro ⟨hadv,-⟩ i tip tipHeight k n hi hstalls
    have hnext := hadv i tip tipHeight k n hi
    rw [HeaderSync.run,hi] at hnext
    rw [hstalls.step (hbound i tip tipHeight k n hi).2] at hnext
    exact absurd hnext.2.1 (lt_irrefl n)
  · intro hstall
    refine ⟨fun i tip tipHeight k n hi => ?_,HeaderSync.exists_done hs hc hb hstall⟩
    rw [HeaderSync.run,hi]
    exact step_advances (hc i) (hbound i tip tipHeight k n hi).1 (hstall i tip tipHeight k n hi)
  · intro i stored hi hz
    have hstore := (halong i).store
    have htoward := (halong i).toward
    rw [hi] at hstore htoward
    have hmem : stored.header.contains mainTip = true := htoward.resolve_left hz
    obtain ⟨hd,hhd⟩ := (FinMap.contains_iff _ _).mp hmem
    obtain ⟨l,hl⟩ := hstore.headers.exists_path hstore.closed hhd
    refine ⟨hmem,?_⟩
    rw [hstore.headers.ancestorHeaders_eq hl]
    exact hl

end Progress

section Sample

open Sample HeaderSample

namespace RollbackSample

def mainTip : BlockHash := (chain.getLast chain_ne_nil).blockHash

def inputs (_ : ℕ) : SyncInput := ⟨answers,false,true⟩

def rolledBackAnswers : NodeAnswers where
  getblockheader := answers.getblockheader
  getblockhash := answers.getblockhash
  rawHeader := answers.rawHeader
  restHeaders k n := some ((headersFrom [world.genesis] k n).flatMap Header.serialize)

def rolledBack (_ : ℕ) : SyncInput := ⟨rolledBackAnswers,false,true⟩

theorem headerChain_genesis : HeaderChain world [world.genesis] :=
  ⟨by decide +kernel,by decide +kernel,by
    intro hd hm
    obtain rfl := List.mem_singleton.mp hm
    exact List.head_mem (show chain ≠ [] by decide)⟩

theorem rolledBack_correct : rolledBackAnswers.Correct world where
  getblockhash := answers_correct.getblockhash
  rawHeader := answers_correct.rawHeader
  restHeaders _ _ _ hk := ⟨[world.genesis],headerChain_genesis,(Option.some.inj hk).symm⟩

theorem bounded (k : BlockHash) (n : ℕ) (hn : answers.getblockheader k = some n) : n < 2^32 := by
  have hlt := (List.findIdx?_eq_some_iff_findIdx_eq.mp hn).1
  have hlen : chain.length = 3 := by decide +kernel
  omega

def position : HeaderSync → Option (BlockHash × ℕ × BlockHash × ℕ)
  | .fetch mainTip tipHeight k n => some (mainTip,tipHeight,k,n)
  | _ => none

theorem position_eq {sync : HeaderSync} {tip k : BlockHash} {tipHeight n : ℕ}
    (hp : position sync = some (tip,tipHeight,k,n)) : sync = .fetch tip tipHeight k n := by
  cases sync with
  | fetch tip' tipHeight' k' n' =>
    obtain ⟨rfl,rfl,rfl,rfl⟩ : tip' = tip ∧ tipHeight' = tipHeight ∧ k' = k ∧ n' = n := by
      simpa [position] using hp
    rfl
  | _ => cases hp

def succeeded : HeaderSync → Bool
  | .done (.ok _) => true
  | _ => false

theorem succeeded_eq {sync : HeaderSync} (hs : succeeded sync = true) : sync = .done (.ok ()) := by
  cases sync with
  | done r =>
    cases r with
    | ok u => rfl
    | error e => cases hs
  | _ => cases hs

theorem stalls (i : ℕ) : HeaderSync.Stalls world (rolledBack i).answers true
    (rolledBack i).cancelled (rolledBack i).stored mainTip 2 world.genesis.blockHash 0 where
  isRest := rfl
  notCancelled := rfl
  isStored := rfl
  notTip := by decide +kernel
  below := by decide
  endsAt := ⟨[],world.genesis,headerChain_genesis,rfl,show rolledBackAnswers.restHeaders
    world.genesis.blockHash (batchSize 2 0) = some world.genesis.serialize by decide +kernel⟩

end RollbackSample

open RollbackSample

theorem header_sync_progress_sample :
    ∃ i stored, HeaderSync.run false inputs .empty mainTip i = (.done (.ok ()),stored) ∧
      stored.header.contains mainTip = true ∧
      Path stored.parent? mainTip (stored.ancestorHeaders mainTip) allZeros := by
  have hdone : (HeaderSync.run false inputs .empty mainTip 6).1 = .done (.ok ()) :=
    succeeded_eq (by decide +kernel)
  have hrun : HeaderSync.run false inputs .empty mainTip 6 =
      (.done (.ok ()),(HeaderSync.run false inputs .empty mainTip 6).2) := Prod.ext hdone rfl
  obtain ⟨-,-,hstored⟩ := header_sync_progress mainTip false inputs (headerStore_empty world)
    (fun _ => answers_correct) (fun _ => bounded)
  exact ⟨6,_,hrun,hstored 6 _ hrun (by decide +kernel)⟩

/-- A sync over REST from a node that has rolled back to the first block asks for the same
headers forever. -/
theorem rolled_back_sync_stalls :
    (∀ i, (rolledBack i).answers.Correct world ∧ (rolledBack i).answers.Bounded) ∧
    HeaderStore world .empty ∧
    (∀ i, (HeaderSync.run true rolledBack .empty mainTip (i+5)).1 =
      .fetch mainTip 2 world.genesis.blockHash 0) ∧
    ¬ HeaderSync.MakesProgress true rolledBack .empty mainTip := by
  have hforever : ∀ i, (HeaderSync.run true rolledBack .empty mainTip (i+5)).1 =
      .fetch mainTip 2 world.genesis.blockHash 0 := by
    intro i
    induction i with
    | zero => exact position_eq (by decide +kernel)
    | succ i ih =>
      rw [show i+1+5 = (i+5)+1 by omega,HeaderSync.run,ih]
      exact (stalls (i+5)).step (by decide)
  refine ⟨fun _ => ⟨rolledBack_correct,bounded⟩,headerStore_empty world,hforever,?_⟩
  rintro ⟨hadv,-⟩
  have hnext := hadv 5 _ _ _ _ (hforever 0)
  rw [hforever 1] at hnext
  exact absurd hnext.2.1 (lt_irrefl 0)

end Sample

end Bip300301Enforcer
