import Bip300301Enforcer.BlockFiles

/-! The stages of a sync of blocks, and when the stage that reads the block files is
entered with nothing to do. -/
namespace Bip300301Enforcer
open Lib Chain BlockHandler Walk

namespace BlockHandler

variable [Bitcoin] (h : BlockHandler)

/-- What `sync_blocks` does before the block files are read. Nothing is returned when no
block is missing, and otherwise the database and the blocks that are then still missing,
the next one first. -/
def syncBeforeFiles (fuel : ℕ) (cancelled : ℕ → Bool) (dbs : Dbs) (mainTip : BlockHash) :
    Option (Except SyncError (Option (Dbs × List BlockHash))) :=
  (startSync fuel dbs mainTip).map (fun start =>
    match start.result with
    | .error err => .error err
    | .ok (missing,_) =>
      if missing.isEmpty then .ok none
      else
        let stage := h.connectPreActivationBlocks cancelled start.dbs missing.reverse
        match stage.result with
        | .error err => .error err
        | .ok _ => .ok (some (stage.dbs,stage.missing)))

/-- The arguments of the call to `sync_from_directory`, if `sync_blocks` makes it. -/
def directoryCall {Dir : Type} (fuel : ℕ) (cancelled : ℕ → Bool) (mainBlocksDir : Option Dir)
    (dbs : Dbs) (mainTip : BlockHash) : Option (Dbs × List BlockHash × Dir) :=
  match h.syncBeforeFiles fuel cancelled dbs mainTip, mainBlocksDir with
  | some (.ok (some (dbs,missing))), some dir => some (dbs,missing,dir)
  | _, _ => none

/-- `sync_blocks`, up to the stage that fetches the remaining blocks from the node. A sync
from the block files that fails is given up unless it left a gap. -/
def syncBlocks (fuel : ℕ) (cancelled fileCancelled fault : ℕ → Bool)
    (mainBlocksDir : Option
      (BlockHash → Except BlockFilesError (List (Except BlockFilesError FileBlock))))
    (dbs : Dbs) (mainTip : BlockHash) : Option (Except SyncError (Option (Dbs × List BlockHash))) :=
  (h.syncBeforeFiles fuel cancelled dbs mainTip).map (fun before =>
    match before, mainBlocksDir with
    | .ok (some (dbs,missing)), some directory =>
      match h.syncFromDirectory fault fileCancelled directory dbs missing with
      | (.ok _,s) => .ok (some (s.dbs,s.missing))
      | (.error err,s) =>
        if err.panics then .error err
        else
          match missingBlocksConnectToTip s.dbs s.missing mainTip with
          | .error e => .error (.block e)
          | .ok true => .ok (some (s.dbs,s.missing))
          | .ok false => .error err
    | before, _ => before)

end BlockHandler

section PreActivation

variable [Bitcoin] {h : BlockHandler} {dbs dbs' : Dbs} {mainTip : BlockHash}
  {missing : List BlockHash}

/-- A database whose tip has a stored header and known work. -/
structure Dbs.Tipped (dbs : Dbs) : Prop where
  headers : dbs.blockHashes.Headers
  tip : dbs.currentChainTip ≠ some allZeros
  work : ∀ t, dbs.currentChainTip = some t → ∃ w, dbs.blockHashes.cumulativeWork.get? t = some w

/-- A child of the tip can be recorded. -/
theorem Dbs.Tipped.recordBlock_succeeds (info : HeaderInfo) (blockInfo : BlockInfo) (d : Diff.Block)
    (ht : dbs.Tipped)
    (hp : dbs.blockHashes.parent? info.blockHash = some (dbs.currentChainTip.getD allZeros)) :
    ∃ r, recordBlock dbs info blockInfo d = .ok r := by
  obtain ⟨hd,hhd,hprev⟩ := Option.map_eq_some_iff.mp hp
  obtain ⟨w,hw⟩ : ∃ w, dbs.blockHashes.chainWork info.blockHash hd = .ok w := by
    unfold BlockHashDbs.chainWork
    split
    · exact ⟨_,rfl⟩
    · rename_i hz
      cases htip : dbs.currentChainTip with
      | none =>
        rw [htip] at hprev
        exact absurd hprev hz
      | some t =>
        obtain ⟨w,hw⟩ := ht.work t htip
        rw [htip,Option.getD_some] at hprev
        rw [hprev]
        exact ⟨_,by rw [hw]; rfl⟩
  have hput := BlockHashDbs.putBlockInfo_ok.mpr
    ⟨hd,w,hhd,hw,Eq.refl (dbs.blockHashes.recorded info.blockHash blockInfo d w)⟩
  have hget : Database.get (dbs.blockHashes.recorded info.blockHash blockInfo d w).cumulativeWork
      .cumulativeWork info.blockHash = .ok w :=
    (Database.get_ok _ _ _ _).mpr (FinMap.get?_insert_self _ _ _)
  obtain ⟨tw,htw⟩ : ∃ tw, tipWork dbs.currentChainTip
      (dbs.blockHashes.recorded info.blockHash blockInfo d w).cumulativeWork = .ok tw := by
    cases htip : dbs.currentChainTip with
    | none => exact ⟨none,rfl⟩
    | some t =>
      obtain ⟨w',hw'⟩ := ht.work t htip
      obtain ⟨v,hv⟩ : ∃ v, (dbs.blockHashes.recorded info.blockHash blockInfo d w).cumulativeWork.get? t =
          some v := by
        rw [BlockHashDbs.recorded,FinMap.get?_insert]
        split
        · exact ⟨w,rfl⟩
        · exact ⟨w',hw'⟩
      exact ⟨some v,by rw [tipWork,(Database.get_ok _ _ _ _).mpr hv]; rfl⟩
  simp only [recordBlock,hput,htw,hget,Fallible.ok_bind]
  exact ⟨_,rfl⟩

/-- A child of the tip can be connected from its header, and becomes the tip. -/
theorem Dbs.Tipped.connectBlockFromHeader {k : BlockHash} (ht : dbs.Tipped)
    (hp : dbs.blockHashes.parent? k = some (dbs.currentChainTip.getD allZeros)) :
    ∃ event dbs', connectBlockFromHeader dbs k = .ok (event,dbs') ∧ dbs'.Tipped ∧
      dbs'.currentChainTip = some k ∧ dbs'.blockHashes.header = dbs.blockHashes.header ∧
      dbs'.blockHashes.height = dbs.blockHashes.height := by
  obtain ⟨hd,hhd,hprev⟩ := Option.map_eq_some_iff.mp hp
  obtain ⟨n,hn,-⟩ := ht.headers.height _ _ hhd
  have hhash := ht.headers.hash _ _ hhd
  have hinfo : dbs.blockHashes.getHeaderInfo k =
      .ok ⟨hd.blockHash,hd.prevBlockhash,n,hd.work,hd.time⟩ := by
    simp only [BlockHashDbs.getHeaderInfo,hhd,Fallible.require_some,Fallible.ok_bind,hhash,
      Fallible.ensure,decide_true,if_true,(Database.get_ok _ _ _ _).mpr hn]
    rfl
  have hp' : dbs.blockHashes.parent? hd.blockHash = some (dbs.currentChainTip.getD allZeros) := by
    rw [hhash]
    exact hp
  have hparent : ensureTipIsParent dbs hd.prevBlockhash = .ok () := ensureTipIsParent_ok.mpr hprev
  obtain ⟨⟨event,dbs'⟩,hr⟩ := ht.recordBlock_succeeds
    ⟨hd.blockHash,hd.prevBlockhash,n,hd.work,hd.time⟩ (emptyBlockInfoAndDiff zeroTxid).1
    (emptyBlockInfoAndDiff zeroTxid).2 hp'
  obtain ⟨htip,h₁,h₂,w,hw⟩ := recordBlock_tip ht.headers ht.tip hp' hr
  rw [hhash] at htip hw
  refine ⟨event,dbs',?_,⟨ht.headers.congr h₁ h₂,?_,?_⟩,htip,h₁,h₂⟩
  · simp only [BlockHandler.connectBlockFromHeader,hinfo,hparent,Fallible.ok_bind]
    exact hr
  · rw [htip,← hhash]
    intro he
    exact hd.blockHash_ne (Option.some.inj he)
  · intro t he
    rw [htip] at he
    obtain rfl := Option.some.inj he
    exact ⟨w,hw⟩

/-- A batch of the pre-activation stage connects the first missing blocks that are below
the activation height. -/
theorem Dbs.Tipped.preActivationBatch (n : ℕ) (ht : dbs.Tipped)
    (hp : Climb dbs.blockHashes.parent? (dbs.currentChainTip.getD allZeros) missing mainTip) :
    ∃ events connected rest dbs', missing = connected++rest ∧ connected.length ≤ n ∧
      h.preActivationBatch n dbs missing = .ok (events,rest,dbs') ∧
      events.length = connected.length ∧ dbs'.Tipped ∧
      dbs'.blockHashes.height = dbs.blockHashes.height ∧
      Climb dbs'.blockHashes.parent? (dbs'.currentChainTip.getD allZeros) rest mainTip ∧
      (∀ k ∈ connected, ∃ m, dbs.blockHashes.height.get? k = some m ∧
        m < h.params.bip300ActivationHeight) ∧
      (connected.length = n ∨ rest = [] ∨ ∃ k ∈ rest, ∃ m, dbs.blockHashes.height.get? k = some m ∧
        h.params.bip300ActivationHeight ≤ m) := by
  induction n generalizing dbs missing with
  | zero => exact ⟨[],[],missing,dbs,rfl,le_rfl,rfl,rfl,ht,rfl,hp,by simp,.inl rfl⟩
  | succ n ih =>
    cases missing with
    | nil => exact ⟨[],[],[],dbs,rfl,by simp,rfl,rfl,ht,rfl,hp,by simp,.inr (.inl rfl)⟩
    | cons k missing =>
      obtain ⟨hd,hhd,-⟩ := Option.map_eq_some_iff.mp hp.1
      obtain ⟨m,hm,-⟩ := ht.headers.height _ _ hhd
      have hget : Database.get dbs.blockHashes.height .height k = .ok m :=
        (Database.get_ok _ _ _ _).mpr hm
      by_cases hlt : m < h.params.bip300ActivationHeight
      · obtain ⟨event,dbs₁,hone,ht₁,htip₁,hheader₁,hheight₁⟩ := ht.connectBlockFromHeader hp.1
        have hp₁ : Climb dbs₁.blockHashes.parent? (dbs₁.currentChainTip.getD allZeros) missing
            mainTip := by
          have hparent : dbs₁.blockHashes.parent? = dbs.blockHashes.parent? := by
            funext k
            simp only [BlockHashDbs.parent?,hheader₁]
          rw [hparent,htip₁]
          exact hp.2
        obtain ⟨events,connected,rest,dbs',rfl,hle,hbatch,hlen,ht',hheight',hp',hbelow,hend⟩ :=
          ih ht₁ hp₁
        rw [hheight₁] at hheight' hbelow hend
        refine ⟨event::events,k::connected,rest,dbs',rfl,Nat.succ_le_succ hle,?_,?_,ht',hheight',hp',
          ?_,?_⟩
        · simp only [BlockHandler.preActivationBatch,hget,Fallible.ok_bind,hlt,if_true,hone,hbatch]
          rfl
        · rw [List.length_cons,List.length_cons,hlen]
        · intro k' hk'
          rcases List.mem_cons.mp hk' with rfl | hk'
          · exact ⟨m,hm,hlt⟩
          · exact hbelow k' hk'
        · rcases hend with hend | hend
          · exact .inl (by rw [List.length_cons,hend])
          · exact .inr hend
      · refine ⟨[],[],k::missing,dbs,rfl,by simp,?_,rfl,ht,rfl,hp,by simp,
          .inr (.inr ⟨k,List.mem_cons_self ..,m,hm,Nat.not_lt.mp hlt⟩)⟩
        simp only [BlockHandler.preActivationBatch,hget,Fallible.ok_bind,hlt,if_false]
        rfl

def preActivationRounds (n : ℕ) : ℕ := (n+preActivationBatchSize-1)/preActivationBatchSize

/-- If all missing blocks are below the activation height, then the stage connects them
all, unless it is cancelled when one of its rounds begins. -/
theorem Dbs.Tipped.preActivationLoop_below (cancelled : ℕ → Bool) (r : ℕ) {fuel : ℕ} (ht : dbs.Tipped)
    (hp : Climb dbs.blockHashes.parent? (dbs.currentChainTip.getD allZeros) missing mainTip)
    (hbelow : ∀ k ∈ missing, ∃ m, dbs.blockHashes.height.get? k = some m ∧
      m < h.params.bip300ActivationHeight) (hfuel : missing.length < fuel) :
    ((∀ j ≤ preActivationRounds missing.length, cancelled (r+j) = false) →
      (h.preActivationLoop cancelled fuel r dbs missing).missing = [] ∧
        ∃ n, (h.preActivationLoop cancelled fuel r dbs missing).result = .ok n) ∧
    ((∃ j ≤ preActivationRounds missing.length, cancelled (r+j) = true) →
      (h.preActivationLoop cancelled fuel r dbs missing).result = .error .shutdown) := by
  induction fuel generalizing dbs missing r with
  | zero => omega
  | succ fuel ih =>
    unfold preActivationLoop
    by_cases hcancel : cancelled r = true
    · rw [if_pos hcancel]
      refine ⟨fun hall => ?_,fun _ => rfl⟩
      have := hall 0 (Nat.zero_le _)
      rw [Nat.add_zero,hcancel] at this
      cases this
    rw [if_neg hcancel]
    obtain ⟨events,connected,rest,dbs',rfl,hle,hbatch,hlen,ht',hheight',hp',-,hend⟩ :=
      ht.preActivationBatch (h := h) preActivationBatchSize hp
    have hend' : connected.length = preActivationBatchSize ∨ rest = [] := by
      rcases hend with hend | hend | ⟨k,hk,m,hm,hge⟩
      · exact .inl hend
      · exact .inr hend
      · obtain ⟨m',hm',hlt⟩ := hbelow k (List.mem_append_right _ hk)
        obtain rfl := Option.some.inj (hm.symm.trans hm')
        omega
    simp only [hbatch]
    cases connected with
    | nil =>
      obtain rfl := List.eq_nil_of_length_eq_zero hlen
      have hnil : rest = [] := by
        rcases hend' with hend | hend
        · cases hend
        · exact hend
      subst hnil
      refine ⟨fun _ => ⟨rfl,0,rfl⟩,?_⟩
      rintro ⟨j,hj,hc⟩
      have hzero : j = 0 := by
        simpa [preActivationRounds,preActivationBatchSize] using hj
      rw [hzero,Nat.add_zero] at hc
      exact absurd hc hcancel
    | cons k connected =>
      obtain ⟨event,events,rfl⟩ := List.exists_cons_of_length_eq_add_one hlen
      simp only [List.length_append,List.length_cons] at hfuel hend' hle
      have hrounds : preActivationRounds ((k::connected)++rest).length =
          preActivationRounds rest.length+1 := by
        simp only [preActivationRounds,preActivationBatchSize,List.length_append,
          List.length_cons] at hend' hle ⊢
        rcases hend' with hend | rfl
        · omega
        · simp only [List.length_nil]
          omega
      obtain ⟨hok,hstop⟩ := ih (r+1) ht' hp' (fun k' hk' => by
        rw [hheight']
        exact hbelow k' (List.mem_append_right _ hk')) (by omega)
      rw [hrounds]
      refine ⟨fun hall => ?_,?_⟩
      · obtain ⟨hmissing,n,hres⟩ := hok (fun j hj => by
          have := hall (j+1) (Nat.succ_le_succ hj)
          rwa [show r+(j+1) = r+1+j by omega] at this)
        have hmap : Except.map ((event::events).length+·)
            (h.preActivationLoop cancelled fuel (r+1) dbs' rest).result =
              .ok ((event::events).length+n) := by
          rw [hres]
          rfl
        exact ⟨hmissing,_,hmap⟩
      · rintro ⟨j,hj,hc⟩
        cases j with
        | zero => exact absurd hc hcancel
        | succ j =>
          have hres := hstop ⟨j,Nat.le_of_succ_le_succ hj,by rwa [show r+1+j = r+(j+1) by omega]⟩
          have hmap : Except.map ((event::events).length+·)
              (h.preActivationLoop cancelled fuel (r+1) dbs' rest).result = .error .shutdown := by
            rw [hres]
            rfl
          exact hmap

theorem Dbs.Tipped.preActivationLoop_atLeast {cancelled : ℕ → Bool} {fuel r n : ℕ} (ht : dbs.Tipped)
    (hp : Climb dbs.blockHashes.parent? (dbs.currentChainTip.getD allZeros) missing mainTip)
    (hn : dbs.blockHashes.height.get? mainTip = some n) (hge : h.params.bip300ActivationHeight ≤ n)
    (hne : missing ≠ []) : (h.preActivationLoop cancelled fuel r dbs missing).missing ≠ [] := by
  induction fuel generalizing dbs missing r with
  | zero => exact hne
  | succ fuel ih =>
    unfold preActivationLoop
    split
    · exact hne
    obtain ⟨events,connected,rest,dbs',rfl,-,hbatch,-,ht',hheight',hp',hbelow,-⟩ :=
      ht.preActivationBatch (h := h) preActivationBatchSize hp
    have hrest : rest ≠ [] := by
      rintro rfl
      rw [List.append_nil] at hp hne
      obtain ⟨m,hm,hlt⟩ := hbelow mainTip (climb_end_mem hp hne)
      obtain rfl := Option.some.inj (hn.symm.trans hm)
      omega
    simp only [hbatch]
    cases events with
    | nil => exact hrest
    | cons event events => exact ih ht' hp' (by rw [hheight']; exact hn) hrest

end PreActivation

section EmptyCall

variable [Bitcoin] {h : BlockHandler} {dbs : Dbs} {c : Chain}

theorem Synced.tipped {V : Chain → Block → Prop} (hs : Synced h V False dbs c) : dbs.Tipped := by
  refine ⟨hs.headers,?_,?_⟩
  · rw [hs.tip]
    cases c with
    | nil => simp [tipHash]
    | cons b c =>
      intro he
      exact b.header.blockHash_ne (Option.some.inj he)
  · intro t ht
    rw [hs.tip] at ht
    cases c with
    | nil => cases ht
    | cons b c =>
      obtain rfl := Option.some.inj ht
      obtain ⟨d,hd⟩ := hs.stored (by simp)
      exact hs.diffs.work _ d hd

/-- How many blocks of the way to a target are not in the active chain. -/
def missingCount (dbs : Dbs) (c : Chain) (mainTip : BlockHash) : ℕ :=
  ((dbs.blockHashes.ancestorHeaders mainTip).filter (fun k => k ∉ c.map Block.blockHash)).length

/-- What the stages before the block files do with the way from the active chain to a
target. -/
structure Missing (h : BlockHandler) (c : Chain) (dbs dbs' : Dbs) (mainTip : BlockHash) (n : ℕ)
    (missing : List BlockHash) : Prop where
  tipped : dbs'.Tipped
  height : dbs'.blockHashes.height = dbs.blockHashes.height
  climb : Climb dbs'.blockHashes.parent? (dbs'.currentChainTip.getD allZeros) missing mainTip
  count : missingCount dbs c mainTip = missing.length
  empty : missing = [] ↔ mainTip ∈ c.map Block.blockHash
  below : n < h.params.bip300ActivationHeight → ∀ k ∈ missing, ∃ m,
    dbs.blockHashes.height.get? k = some m ∧ m < h.params.bip300ActivationHeight

theorem Reach.missing {V : Chain → Block → Prop} {mainTip : BlockHash} {hd : Header} {n : ℕ}
    (hr : Reach h V False dbs c) (hclosed : dbs.blockHashes.AncestorClosed)
    (hmain : dbs.blockHashes.header.get? mainTip = some hd)
    (hn : dbs.blockHashes.height.get? mainTip = some n) :
    ∃ dbs' missing, Missing h c dbs dbs' mainTip n missing ∧ ∀ fuel, c.length < fuel →
      ∃ m events, startSync fuel dbs mainTip = some ⟨.ok (missing.reverse,m),dbs',events⟩ := by
  obtain ⟨above,below,missing,m,dbs',hc,hstart,hbh,hpath,hnotin,hr'⟩ := hr.startSync_eq hclosed hmain
  have hh := hr.synced.headers
  have hs' := hr'.synced
  have hnodup := nodup_of_ranked hh.ranked hh.parent?_zeros hpath
  have hdisjoint : ∀ k ∈ missing, k ∉ c.map Block.blockHash := by
    intro k hk hmem
    rw [hc,List.map_append] at hmem
    rcases List.mem_append.mp hmem with hmem | hmem
    · obtain ⟨b,hb,rfl⟩ := List.mem_map.mp hmem
      exact hnotin b hb (List.mem_append_left _ hk)
    · exact (List.nodup_append.mp hnodup).2.2 k hk k hmem rfl
  have hempty : missing = [] ↔ mainTip ∈ c.map Block.blockHash := by
    constructor
    · rintro rfl
      cases below with
      | nil =>
        obtain rfl : mainTip = allZeros := hpath
        exact absurd (hh.hash _ _ hmain) hd.blockHash_ne
      | cons b below =>
        rw [hpath.1,hc]
        simp
    · intro hmem
      cases missing with
      | nil => rfl
      | cons k missing =>
        obtain rfl : mainTip = k := hpath.1
        exact absurd hmem (hdisjoint _ (List.mem_cons_self ..))
  refine ⟨dbs',missing.reverse,⟨hs'.tipped,by rw [hbh],?_,?_,?_,?_⟩,?_⟩
  · obtain ⟨t,hup,hdown⟩ := path_append.mp hpath
    have ht : t = parentHash below := by
      cases below with
      | nil => exact hdown
      | cons b below => exact hdown.1
    have htip : dbs'.currentChainTip.getD allZeros = t := hs'.currentEnforcerTip_eq.trans ht.symm
    rw [climb_iff_path,List.reverse_reverse,hbh,htip]
    exact hup
  · have hfilter : (missing++below.map Block.blockHash).filter (fun k => k ∉ c.map Block.blockHash) =
        missing := by
      rw [List.filter_append,List.filter_eq_self.mpr (by simpa using hdisjoint)]
      have hnil : (below.map Block.blockHash).filter (fun k => k ∉ c.map Block.blockHash) = [] := by
        rw [List.filter_eq_nil_iff]
        intro k hk
        rw [hc,List.map_append]
        simp only [decide_not,Bool.not_eq_true',decide_eq_false_iff_not,not_not]
        exact List.mem_append_right _ hk
      rw [hnil,List.append_nil]
    rw [missingCount,hh.ancestorHeaders_eq hpath,hfilter,List.length_reverse]
  · rw [List.reverse_eq_nil_iff]
    exact hempty
  · intro hlt k hk
    rw [List.mem_reverse] at hk
    obtain ⟨i,hi⟩ := List.mem_iff_getElem?.mp (List.mem_append_left (below.map Block.blockHash) hk)
    refine ⟨_,rank_get hh.ranked hh.parent?_zeros hpath hi,?_⟩
    have hne : missing++below.map Block.blockHash ≠ [] := by
      intro he
      rw [he] at hi
      cases hi
    obtain ⟨x,l,hl⟩ := List.exists_cons_of_ne_nil hne
    rw [hl] at hpath ⊢
    have htop := Option.some.inj (hn.symm.trans (rank_start hh.ranked hh.parent?_zeros hpath))
    simp only [List.length_cons]
    omega
  · intro fuel hfuel
    rw [List.reverse_reverse]
    refine ⟨m,_,hstart fuel ?_⟩
    rw [hc,List.length_append] at hfuel
    omega

end EmptyCall

end Bip300301Enforcer
