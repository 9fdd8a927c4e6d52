import Bip300301Enforcer.BlockInfos
import Bip300301Enforcer.PolicyMarks
import Bip300301Enforcer.ReorgStep

/-! The two-way-peg data of a range of blocks, as sidechains ask for it. -/
namespace Bip300301Enforcer
open Lib Chain Walk BlockHandler

section TwoWayPeg

variable [Bitcoin]

structure TwoWayPegData where
  headerInfo : HeaderInfo
  blockInfo : BlockInfo
deriving DecidableEq

/-- The ways in which asking for a range fails. -/
inductive PegRangeError
  | db (err : ReconcileError)
  | endBlockNotFound (endBlock : BlockHash)
  | previousBlockNotFound (block prevBlock : BlockHash)
  | startBlockNotAncestor (startBlock endBlock : BlockHash)
  -- the headers form a loop, and the walk never ends
  | diverges
deriving DecidableEq

/-- The error is reported: the walk ends and no assertion fails. -/
def PegRangeError.Returned (e : PegRangeError) : Prop :=
  e ≠ .db (.db (.panic .headerHash)) ∧ e ≠ .diverges

namespace BlockHashDbs

def tryGetHeaderInfo (dbs : BlockHashDbs) (blockHash : BlockHash) :
    Except ReconcileError (Option HeaderInfo) :=
  match dbs.header.get? blockHash with
  | none => .ok none
  | some header => do
    Fallible.ensure (header.blockHash = blockHash) (.db (.panic .headerHash))
    let height ← Fallible.require (dbs.height.get? blockHash) (.inconsistent blockHash)
    return some ⟨header.blockHash,header.prevBlockhash,height,header.work,header.time⟩

def tryGetTwoWayPegData (dbs : BlockHashDbs) (blockHash : BlockHash) :
    Except ReconcileError (Option TwoWayPegData) := do
  match ← dbs.tryGetHeaderInfo blockHash with
  | none => return none
  | some headerInfo =>
    match ← dbs.tryGetBlockInfo blockHash with
    | none => return none
    | some blockInfo => return some ⟨headerInfo,blockInfo⟩

def twoWayPegLoop (dbs : BlockHashDbs) (startBlock : Option BlockHash) (endBlock : BlockHash) :
    ℕ → BlockHash → BlockHash → List TwoWayPegData → Except PegRangeError (List TwoWayPegData)
  | 0, _, _, _ => .error .diverges
  | n+1, prevBlock, currentBlock, res =>
    if some currentBlock = startBlock then .ok res
    else if currentBlock = allZeros then
      match startBlock with
      | some startBlock => .error (.startBlockNotAncestor startBlock endBlock)
      | none => .ok res
    else
      match dbs.tryGetTwoWayPegData currentBlock with
      | .error err => .error (.db err)
      | .ok none => .error (.previousBlockNotFound currentBlock prevBlock)
      | .ok (some data) =>
        dbs.twoWayPegLoop startBlock endBlock n currentBlock data.headerInfo.prevBlockHash (res++[data])

/-- The data of the blocks after some block, up to another one, the oldest first. A walk
without a loop has no more steps than there are headers. -/
def getTwoWayPegDataRange (dbs : BlockHashDbs) (startBlock : Option BlockHash)
    (endBlock : BlockHash) : Except PegRangeError (List TwoWayPegData) :=
  match dbs.tryGetTwoWayPegData endBlock with
  | .error err => .error (.db err)
  | .ok none => .error (.endBlockNotFound endBlock)
  | .ok (some data) =>
    if some endBlock = startBlock then .ok [data]
    else do
      let res ← dbs.twoWayPegLoop startBlock endBlock dbs.header.toList.length endBlock
        data.headerInfo.prevBlockHash [data]
      return res.reverse

variable {dbs : BlockHashDbs} {a b c k : BlockHash} {l p : List BlockHash} {d : TwoWayPegData}
  {ds res r : List TwoWayPegData} {startBlock : Option BlockHash} {endBlock prevBlock : BlockHash} {n : ℕ}

theorem tryGetHeaderInfo_some {info : HeaderInfo} :
    dbs.tryGetHeaderInfo k = .ok (some info) ↔ ∃ hd n, dbs.header.get? k = some hd ∧
      hd.blockHash = k ∧ dbs.height.get? k = some n ∧
      info = ⟨k,hd.prevBlockhash,n,hd.work,hd.time⟩ := by
  unfold tryGetHeaderInfo
  cases hk : dbs.header.get? k with
  | none => simp
  | some hd =>
    simp only [Fallible.bind_ok,Fallible.ensure_ok,Fallible.require_ok,Fallible.pure_ok,
      decide_eq_true_eq,Option.some.injEq]
    constructor
    · rintro ⟨-,hhash,n,hn,rfl⟩
      exact ⟨hd,n,rfl,hhash,hn,by rw [hhash]⟩
    · rintro ⟨_,n,rfl,hhash,hn,rfl⟩
      exact ⟨(),hhash,n,hn,by rw [hhash]⟩

omit [Bitcoin] in
theorem tryGetBlockInfo_some {info : BlockInfo} :
    dbs.tryGetBlockInfo k = .ok (some info) ↔ dbs.Has k info := by
  unfold tryGetBlockInfo Has
  cases hk : dbs.bmmCommitments.get? k with
  | none => simp
  | some bmm =>
    simp only [Fallible.bind_ok,Fallible.require_ok,Fallible.pure_ok,Option.some.injEq]
    constructor
    · rintro ⟨txid,htxid,events,hevents,rfl⟩
      exact ⟨rfl,htxid,hevents⟩
    · rintro ⟨rfl,htxid,hevents⟩
      exact ⟨_,htxid,_,hevents,rfl⟩

theorem tryGetTwoWayPegData_some :
    dbs.tryGetTwoWayPegData k = .ok (some d) ↔
      dbs.tryGetHeaderInfo k = .ok (some d.headerInfo) ∧ dbs.Has k d.blockInfo := by
  unfold tryGetTwoWayPegData
  rw [← tryGetBlockInfo_some,Fallible.bind_ok]
  constructor
  · rintro ⟨_ | info,hinfo,h⟩
    · simp at h
    · obtain ⟨_ | block,hblock,h⟩ := Fallible.bind_ok.mp h
      · simp at h
      · obtain rfl := Option.some.inj ((Fallible.pure_ok _ _).mp h)
        exact ⟨hinfo,hblock⟩
  · rintro ⟨hinfo,hblock⟩
    exact ⟨_,hinfo,by rw [hblock]; rfl⟩

theorem parent?_of_data (hd : dbs.tryGetTwoWayPegData k = .ok (some d)) :
    dbs.parent? k = some d.headerInfo.prevBlockHash := by
  obtain ⟨hd,n,hk,-,-,he⟩ := tryGetHeaderInfo_some.mp (tryGetTwoWayPegData_some.mp hd).1
  simp [parent?,hk,he]

def Data (dbs : BlockHashDbs) (l : List BlockHash) (ds : List TwoWayPegData) : Prop :=
  List.Forall₂ (fun k d => dbs.tryGetTwoWayPegData k = .ok (some d)) l ds

theorem twoWayPegLoop_stop (hc : c = startBlock.getD allZeros) :
    dbs.twoWayPegLoop startBlock endBlock (n+1) prevBlock c res = .ok res := by
  unfold twoWayPegLoop
  cases startBlock with
  | none => simp [show c = allZeros from hc]
  | some s => simp [show c = s from hc]

theorem twoWayPegLoop_step (hc : c ≠ startBlock.getD allZeros) :
    dbs.twoWayPegLoop startBlock endBlock (n+1) prevBlock c res =
      if c = allZeros then .error (.startBlockNotAncestor (startBlock.getD allZeros) endBlock)
      else
        (match dbs.tryGetTwoWayPegData c with
        | .error err => .error (.db err)
        | .ok none => .error (.previousBlockNotFound c prevBlock)
        | .ok (some data) =>
          dbs.twoWayPegLoop startBlock endBlock n c data.headerInfo.prevBlockHash (res++[data])) := by
  have hne : some c ≠ startBlock := by
    rintro rfl
    exact hc rfl
  simp only [twoWayPegLoop,if_neg hne]
  by_cases hz : c = allZeros
  · rw [if_pos hz,if_pos hz]
    cases startBlock with
    | none => exact absurd hz hc
    | some s => rfl
  · rw [if_neg hz,if_neg hz]

/-- The loop ends well when it walks through blocks whose data is there and arrives at the
start, and then it has read these blocks. -/
theorem Headers.twoWayPegLoop_ok (hh : dbs.Headers) :
    dbs.twoWayPegLoop startBlock endBlock n prevBlock c res = .ok r ↔
      ∃ p ds, Path dbs.parent? c p (startBlock.getD allZeros) ∧ p.length < n ∧ dbs.Data p ds ∧
        r = res++ds := by
  induction n generalizing prevBlock c res with
  | zero => simp [twoWayPegLoop]
  | succ n ih =>
    by_cases hstop : c = startBlock.getD allZeros
    · rw [twoWayPegLoop_stop hstop]
      constructor
      · intro he
        exact ⟨[],[],hstop,by simp,.nil,by rw [← Except.ok.inj he,List.append_nil]⟩
      · rintro ⟨p,ds,hp,-,hds,rfl⟩
        cases p with
        | nil =>
          cases hds
          rw [List.append_nil]
        | cons x p =>
          have hnot := end_notMem_of_ranked hh.ranked hh.parent?_zeros hp
          rw [← hstop,hp.1] at hnot
          exact absurd List.mem_cons_self hnot
    rw [twoWayPegLoop_step hstop]
    by_cases hz : c = allZeros
    · rw [if_pos hz]
      refine ⟨nofun,?_⟩
      rintro ⟨_ | ⟨x,p⟩,ds,hp,-,-,-⟩
      · exact absurd hp hstop
      · obtain ⟨rfl,b,hb,-⟩ := hp
        rw [hz,hh.parent?_zeros] at hb
        cases hb
    rw [if_neg hz]
    constructor
    · intro h
      split at h
      · cases h
      · cases h
      · rename_i data hdata
        obtain ⟨p,ds,hp,hlen,hds,rfl⟩ := ih.mp h
        refine ⟨c::p,data::ds,⟨rfl,_,parent?_of_data hdata,hp⟩,?_,.cons hdata hds,by simp⟩
        rw [List.length_cons]
        omega
    · rintro ⟨_ | ⟨x,p⟩,ds,hp,hlen,hds,rfl⟩
      · exact absurd hp hstop
      · obtain ⟨rfl,b,hb,hp⟩ := hp
        obtain _ | @⟨_,data,_,ds,hdata,hds⟩ := hds
        obtain rfl := Option.some.inj (hb.symm.trans (parent?_of_data hdata))
        rw [hdata]
        refine ih.mpr ⟨p,ds,hp,?_,hds,by simp⟩
        rw [List.length_cons] at hlen
        omega

/-- Reading a block fails only where a table lacks a key that another one has. -/
theorem Headers.tryGetTwoWayPegData_error (hh : dbs.Headers) {e : ReconcileError}
    (he : dbs.tryGetTwoWayPegData k = .error e) : e = .inconsistent k := by
  unfold tryGetTwoWayPegData tryGetHeaderInfo at he
  cases hk : dbs.header.get? k with
  | none =>
    rw [hk] at he
    cases he
  | some hd =>
    rw [hk] at he
    obtain ⟨n,hn,-⟩ := hh.height k hd hk
    have hhash := hh.hash k hd hk
    simp only [hhash,hn,decide_true,Fallible.ensure,if_true,Fallible.ok_bind,Fallible.require_some] at he
    unfold tryGetBlockInfo at he
    cases hb : dbs.bmmCommitments.get? k with
    | none =>
      rw [hb] at he
      cases he
    | some bmm =>
      rw [hb] at he
      cases ht : dbs.coinbaseTxid.get? k with
      | none =>
        rw [ht] at he
        cases he
        rfl
      | some txid =>
        rw [ht] at he
        cases hv : dbs.events.get? k with
        | none =>
          rw [hv] at he
          cases he
          rfl
        | some events =>
          rw [hv] at he
          cases he

/-- A loop that does not end within some number of steps walks through as many headers. -/
theorem Headers.twoWayPegLoop_error (hh : dbs.Headers) {e : PegRangeError}
    (he : dbs.twoWayPegLoop startBlock endBlock n prevBlock c res = .error e) :
    e.Returned ∨ ∃ p b, Path dbs.parent? c p b ∧ p.length = n := by
  induction n generalizing prevBlock c res with
  | zero => exact .inr ⟨[],c,rfl,rfl⟩
  | succ n ih =>
    by_cases hstop : c = startBlock.getD allZeros
    · rw [twoWayPegLoop_stop hstop] at he
      cases he
    rw [twoWayPegLoop_step hstop] at he
    by_cases hz : c = allZeros
    · rw [if_pos hz] at he
      cases he
      exact .inl ⟨nofun,nofun⟩
    rw [if_neg hz] at he
    cases hdata : dbs.tryGetTwoWayPegData c with
    | error e' =>
      obtain rfl := hh.tryGetTwoWayPegData_error hdata
      rw [hdata] at he
      cases he
      exact .inl ⟨nofun,nofun⟩
    | ok o =>
      rw [hdata] at he
      cases o with
      | none =>
        cases he
        exact .inl ⟨nofun,nofun⟩
      | some data =>
        rcases ih he with hr | ⟨p,b,hp,hlen⟩
        · exact .inl hr
        · exact .inr ⟨c::p,b,⟨rfl,_,parent?_of_data hdata,hp⟩,by rw [List.length_cons,hlen]⟩

/-- The walk for a range ends, and no assertion fails. -/
theorem Headers.getTwoWayPegDataRange_error (hh : dbs.Headers) {e : PegRangeError}
    (he : dbs.getTwoWayPegDataRange startBlock endBlock = .error e) : e.Returned := by
  unfold getTwoWayPegDataRange at he
  cases hdata : dbs.tryGetTwoWayPegData endBlock with
  | error e' =>
    obtain rfl := hh.tryGetTwoWayPegData_error hdata
    rw [hdata] at he
    cases he
    exact ⟨nofun,nofun⟩
  | ok o =>
    rw [hdata] at he
    cases o with
    | none =>
      cases he
      exact ⟨nofun,nofun⟩
    | some data =>
      dsimp only at he
      split at he
      · cases he
      · cases hloop : dbs.twoWayPegLoop startBlock endBlock dbs.header.toList.length endBlock
            data.headerInfo.prevBlockHash [data] with
        | ok r =>
          rw [hloop] at he
          cases he
        | error e' =>
          rw [hloop] at he
          obtain rfl := Except.error.inj he
          rcases hh.twoWayPegLoop_error hloop with hr | ⟨p,b,hp,hlen⟩
          · exact hr
          · have hle := hh.path_length_le (p := endBlock::p) ⟨rfl,_,parent?_of_data hdata,hp⟩
            rw [List.length_cons,hlen] at hle
            omega

/-- A range consists of the blocks of the walk from its end to its start, where the start
is not part of it unless it is the end, too. -/
theorem Headers.getTwoWayPegDataRange_ok (hh : dbs.Headers) :
    dbs.getTwoWayPegDataRange startBlock endBlock = .ok r ↔
      ∃ p ds, Path dbs.parent? endBlock (endBlock::p)
          (if some endBlock = startBlock then (dbs.parent? endBlock).getD allZeros
            else startBlock.getD allZeros) ∧
        (some endBlock = startBlock → p = []) ∧ dbs.Data (endBlock::p) ds ∧ r = ds.reverse := by
  unfold getTwoWayPegDataRange
  constructor
  · intro h
    split at h
    · cases h
    · cases h
    · rename_i data hdata
      have hparent := parent?_of_data hdata
      by_cases hse : some endBlock = startBlock
      · rw [if_pos hse,Except.ok.injEq] at h
        subst h
        refine ⟨[],[data],?_,fun _ => rfl,.cons hdata .nil,rfl⟩
        rw [if_pos hse,hparent]
        exact ⟨rfl,_,hparent,rfl⟩
      · simp only [if_neg hse,Fallible.bind_ok,Fallible.pure_ok] at h
        obtain ⟨r',hloop,rfl⟩ := h
        obtain ⟨p,ds,hp,-,hds,rfl⟩ := hh.twoWayPegLoop_ok.mp hloop
        refine ⟨p,data::ds,?_,fun he => absurd he hse,.cons hdata hds,rfl⟩
        rw [if_neg hse]
        exact ⟨rfl,_,hparent,hp⟩
  · rintro ⟨p,ds,hp,hone,hds,rfl⟩
    obtain _ | @⟨_,data,_,ds,hdata,hds⟩ := hds
    rw [hdata]
    by_cases hse : some endBlock = startBlock
    · obtain rfl := hone hse
      cases hds
      exact if_pos hse
    · have hle := hh.path_length_le hp
      rw [if_neg hse] at hp
      obtain ⟨-,b,hb,hp⟩ := hp
      obtain rfl := Option.some.inj (hb.symm.trans (parent?_of_data hdata))
      simp only [if_neg hse]
      refine Fallible.bind_ok.mpr ⟨data::ds,hh.twoWayPegLoop_ok.mpr ⟨p,ds,hp,?_,hds,rfl⟩,rfl⟩
      rw [List.length_cons] at hle
      omega

/-- A block is the same as another one or below it, all zeros being below the first block. -/
def AncestorOrEqual (dbs : BlockHashDbs) (a b : BlockHash) : Prop := ∃ l, Path dbs.parent? b l a

def InRange (dbs : BlockHashDbs) (startBlock endBlock k : BlockHash) : Prop :=
  k = endBlock ∨ ∃ l, Path dbs.parent? endBlock l startBlock ∧ k ∈ l

theorem exists_data (hd : ∀ k ∈ l, ∃ d, dbs.tryGetTwoWayPegData k = .ok (some d)) :
    ∃ ds, dbs.Data l ds := by
  induction l with
  | nil => exact ⟨[],.nil⟩
  | cons x l ih =>
    obtain ⟨d,hx⟩ := hd x List.mem_cons_self
    obtain ⟨ds,hds⟩ := ih (fun k hk => hd k (List.mem_cons_of_mem _ hk))
    exact ⟨d::ds,.cons hx hds⟩

theorem Data.exists_of_mem (hd : dbs.Data l ds) (hk : k ∈ l) :
    ∃ d, dbs.tryGetTwoWayPegData k = .ok (some d) := by
  induction hd with
  | nil => cases hk
  | @cons x d l ds hx _ ih =>
    rcases List.mem_cons.mp hk with rfl | hk
    · exact ⟨d,hx⟩
    · exact ih hk

theorem Headers.getTwoWayPegDataRange_isOk (hh : dbs.Headers) :
    (∃ r, dbs.getTwoWayPegDataRange startBlock endBlock = .ok r) ↔
      dbs.AncestorOrEqual (startBlock.getD allZeros) endBlock ∧
        ∀ k, dbs.InRange (startBlock.getD allZeros) endBlock k →
          ∃ d, dbs.tryGetTwoWayPegData k = .ok (some d) := by
  simp only [hh.getTwoWayPegDataRange_ok]
  constructor
  · rintro ⟨r,p,ds,hp,hone,hds,-⟩
    have hend : ∃ d, dbs.tryGetTwoWayPegData endBlock = .ok (some d) :=
      hds.exists_of_mem List.mem_cons_self
    by_cases hse : some endBlock = startBlock
    · subst hse
      refine ⟨⟨[],rfl⟩,?_⟩
      rintro k (rfl | ⟨_ | ⟨x,l⟩,hl,hk⟩)
      · exact hend
      · cases hk
      · have hnot := end_notMem_of_ranked hh.ranked hh.parent?_zeros hl
        exact absurd (hl.1 ▸ List.mem_cons_self) hnot
    · rw [if_neg hse] at hp
      refine ⟨⟨_,hp⟩,?_⟩
      rintro k (rfl | ⟨l,hl,hk⟩)
      · exact hend
      · obtain rfl := path_unique_of_ranked hh.ranked hh.parent?_zeros hl hp
        exact hds.exists_of_mem hk
  · rintro ⟨⟨l,hl⟩,hall⟩
    obtain ⟨d,hd⟩ := hall endBlock (.inl rfl)
    by_cases hse : some endBlock = startBlock
    · refine ⟨_,[],[d],?_,fun _ => rfl,.cons hd .nil,rfl⟩
      rw [if_pos hse,parent?_of_data hd]
      exact ⟨rfl,_,parent?_of_data hd,rfl⟩
    · obtain ⟨ds,hds⟩ := exists_data (fun k hk => hall k (.inr ⟨l,hl,hk⟩))
      cases l with
      | nil =>
        cases startBlock with
        | none =>
          have hparent := parent?_of_data hd
          rw [show endBlock = allZeros from hl,hh.parent?_zeros] at hparent
          cases hparent
        | some s => exact absurd (congrArg some hl) hse
      | cons x l =>
        obtain rfl : endBlock = x := hl.1
        exact ⟨_,l,ds,by rw [if_neg hse]; exact hl,fun he => absurd he hse,hds,rfl⟩

theorem Headers.getTwoWayPegDataRange_isError (hh : dbs.Headers) :
    (∃ e, dbs.getTwoWayPegDataRange startBlock endBlock = .error e) ↔
      ¬ dbs.AncestorOrEqual (startBlock.getD allZeros) endBlock ∨
        ∃ k, dbs.InRange (startBlock.getD allZeros) endBlock k ∧
          ∀ d, dbs.tryGetTwoWayPegData k ≠ .ok (some d) := by
  have hok : (∃ r, dbs.getTwoWayPegDataRange startBlock endBlock = .ok r) ↔ _ :=
    hh.getTwoWayPegDataRange_isOk
  cases hr : dbs.getTwoWayPegDataRange startBlock endBlock with
  | ok r =>
    obtain ⟨hanc,hall⟩ := hok.mp ⟨r,hr⟩
    refine ⟨nofun,?_⟩
    rintro (hnot | ⟨k,hk,hnone⟩)
    · exact absurd hanc hnot
    · obtain ⟨d,hd⟩ := hall k hk
      exact absurd hd (hnone d)
  | error e =>
    refine ⟨fun _ => ?_,fun _ => ⟨e,rfl⟩⟩
    rw [hr] at hok
    by_contra hcon
    push Not at hcon
    obtain ⟨r,hr⟩ := hok.mpr hcon
    cases hr

structure ConnectedChain (dbs : BlockHashDbs) (peg : BlockHash → TwoWayPegData) (c : BlockHash)
    (l : List BlockHash) : Prop where
  path : Path dbs.parent? c l allZeros
  ne : l ≠ []
  data : ∀ k ∈ l, dbs.tryGetTwoWayPegData k = .ok (some (peg k))

variable {peg : BlockHash → TwoWayPegData} {t : List BlockHash}

theorem ConnectedChain.head (hc : dbs.ConnectedChain peg c l) : l.head? = some c := by
  obtain ⟨x,l,rfl⟩ := List.exists_cons_of_ne_nil hc.ne
  rw [hc.path.1]
  rfl

theorem data_map (hd : ∀ k ∈ l, dbs.tryGetTwoWayPegData k = .ok (some (peg k))) :
    dbs.Data l (l.map peg) := by
  unfold Data
  rw [List.forall₂_map_right_iff,List.forall₂_same]
  exact hd

/-- The range from a block of a chain to its last one. -/
theorem Headers.getTwoWayPegDataRange_chain (hh : dbs.Headers) (hc : dbs.ConnectedChain peg c (p++t)) :
    dbs.getTwoWayPegDataRange t.head? c = .ok (if p = [] then [peg c] else (p.map peg).reverse) := by
  rw [hh.getTwoWayPegDataRange_ok]
  have hhead := hc.head
  obtain ⟨b,hp,ht⟩ := path_append.mp hc.path
  cases p with
  | nil =>
    have hself := hc.data c (List.mem_of_mem_head? hhead)
    refine ⟨[],[peg c],?_,fun _ => rfl,.cons hself .nil,by simp⟩
    rw [if_pos (by simpa using hhead.symm),parent?_of_data hself]
    exact ⟨rfl,_,parent?_of_data hself,rfl⟩
  | cons x p =>
    obtain rfl : c = x := hp.1
    have hnodup := nodup_of_ranked hh.ranked hh.parent?_zeros hc.path
    have hne : some c ≠ t.head? := by
      intro he
      have hmem : c ∈ t := List.mem_of_mem_head? he.symm
      exact (List.nodup_append.mp hnodup).2.2 c List.mem_cons_self c hmem rfl
    have hb : t.head?.getD allZeros = b := by
      cases t with
      | nil => exact ht.symm
      | cons y t => exact ht.1.symm
    refine ⟨p,(c::p).map peg,?_,fun he => absurd he hne,
      data_map (fun k hk => hc.data k (List.mem_append_left _ hk)),by simp⟩
    rw [if_neg hne,hb]
    exact hp

theorem ConnectedChain.drop (hc : dbs.ConnectedChain peg c (p++b::t)) :
    dbs.ConnectedChain peg b (b::t) := by
  obtain ⟨b',-,hb⟩ := path_append.mp hc.path
  obtain rfl : b' = b := hb.1
  exact ⟨hb,by simp,fun k hk => hc.data k (List.mem_append_right _ hk)⟩

theorem Headers.exists_split (hh : dbs.Headers) (hc : dbs.ConnectedChain peg c l) (ha : a ∈ l)
    (hb : b ∈ l) (hab : dbs.AncestorOrEqual a b) :
    ∃ q p u t, l = q++b::t ∧ b::t = p++a::u := by
  obtain ⟨m,hm⟩ := hab
  obtain ⟨-,u,-,hu⟩ := path_of_mem hc.path ha
  obtain ⟨q,t,hl,ht⟩ := path_of_mem hc.path hb
  have hmu := path_append.mpr ⟨a,hm,hu⟩
  exact ⟨q,m,u,t,hl,path_unique ht hh.parent?_zeros hmu⟩

/-- The range from `a` to `c` is the one to `b` followed by the one from there. -/
def Concatenates (dbs : BlockHashDbs) (a b c : BlockHash) : Prop :=
  ∃ x y, dbs.getTwoWayPegDataRange (some a) b = .ok x ∧
    dbs.getTwoWayPegDataRange (some b) c = .ok y ∧
    dbs.getTwoWayPegDataRange (some a) c = .ok (x++y)

/-- Ranges concatenate unless one of the two is asked for with the same start and end. -/
theorem Headers.concatenates_iff (hh : dbs.Headers) (hc : dbs.ConnectedChain peg c l) (ha : a ∈ l)
    (hb : b ∈ l) (hab : dbs.AncestorOrEqual a b) : dbs.Concatenates a b c ↔ a ≠ b ∧ b ≠ c := by
  obtain ⟨q,p,u,t,rfl,hpu⟩ := hh.exists_split hc ha hb hab
  have hnodup := nodup_of_ranked hh.ranked hh.parent?_zeros hc.path
  have hbc : b ≠ c ↔ q ≠ [] := by
    have hhead := hc.head
    cases q with
    | nil => simpa using hhead
    | cons x q =>
      obtain rfl : x = c := Option.some.inj hhead
      simp only [ne_eq,reduceCtorEq,not_false_eq_true,iff_true]
      rintro rfl
      simp at hnodup
  have hap : a ≠ b ↔ p ≠ [] := by
    cases p with
    | nil => simpa using (List.cons.inj hpu).1.symm
    | cons x p =>
      obtain rfl : b = x := (List.cons.inj hpu).1
      simp only [ne_eq,reduceCtorEq,not_false_eq_true,iff_true]
      rintro rfl
      rw [hpu] at hnodup
      have hnodup' := (List.nodup_append.mp hnodup).2.1
      simp at hnodup'
  have hcb := hc.drop
  have hab' := hh.getTwoWayPegDataRange_chain (p := p) (t := a::u) (hpu ▸ hcb)
  have hbc' := hh.getTwoWayPegDataRange_chain (p := q) (t := b::t) hc
  have hac' := hh.getTwoWayPegDataRange_chain (p := q++p) (t := a::u)
    (by rw [List.append_assoc,← hpu]; exact hc)
  simp only [List.head?_cons] at hab' hbc' hac'
  unfold Concatenates
  simp only [hab',hbc',hac',Except.ok.injEq,hap,hbc]
  by_cases hp : p = []
  · subst hp
    by_cases hq : q = []
    · simp [hq]
    · simp [hq]
  · by_cases hq : q = []
    · subst hq
      simp [hp]
    · simp [hp,hq]

end BlockHashDbs

open BlockHashDbs

/-- A sidechain asks again and again for the blocks after the last one that it has
processed, up to the tip. -/
def pollAll : List (BlockHashDbs × BlockHash) → Option BlockHash →
    Except PegRangeError (List TwoWayPegData)
  | [], _ => .ok []
  | (dbs,tip)::polls, last => do
    let blocks ← dbs.getTwoWayPegDataRange last tip
    let later ← pollAll polls (some tip)
    return blocks++later

def Polls (peg : BlockHash → TwoWayPegData) :
    List BlockHash → List (BlockHashDbs × BlockHash) → List BlockHash → Prop
  | l, [], l' => l' = l
  | l, (dbs,tip)::polls, l' =>
    ∃ p, dbs.Headers ∧ dbs.ConnectedChain peg tip (p++l) ∧ Polls peg (p++l) polls l'

/-- Two polls in a row do not ask for the same tip. -/
abbrev NoRepeat (tips : List BlockHash) : Prop := tips.IsChain (· ≠ ·)

/-- What the polls have delivered: every block of the chain once if no tip is asked for
twice in a row, and too many blocks else. -/
theorem pollAll_ok {peg : BlockHash → TwoWayPegData} {polls : List (BlockHashDbs × BlockHash)}
    {l l' : List BlockHash} (hp : Polls peg l polls l') :
    ∃ q r, l' = q++l ∧ pollAll polls l.head? = .ok r ∧
      (NoRepeat (l.head?.toList++polls.map Prod.snd) → r = (q.map peg).reverse) ∧
      (¬ NoRepeat (l.head?.toList++polls.map Prod.snd) → q.length < r.length) := by
  induction polls generalizing l with
  | nil =>
    obtain rfl : l' = l := hp
    refine ⟨[],[],rfl,rfl,fun _ => rfl,fun hnot => absurd ?_ hnot⟩
    cases l' <;> simp
  | cons e polls ih =>
    obtain ⟨dbs,tip⟩ := e
    obtain ⟨p,hh,hc,hp⟩ := hp
    obtain ⟨q,r,rfl,hr,hyes,hno⟩ := ih hp
    have hrange := hh.getTwoWayPegDataRange_chain hc
    have hhead := hc.head
    rw [hhead] at hr hyes hno
    simp only [Option.toList_some,List.singleton_append] at hyes hno
    refine ⟨q++p,(if p = [] then [peg tip] else (p.map peg).reverse)++r,by simp,?_,?_⟩
    · rw [pollAll,hrange,Fallible.ok_bind,hr,Fallible.ok_bind]
      rfl
    simp only [List.map_cons]
    cases p with
    | nil =>
      rw [List.nil_append] at hhead
      have hnot : ¬ NoRepeat ((some tip).toList++tip::polls.map Prod.snd) := by simp
      rw [hhead]
      refine ⟨fun h => absurd h hnot,fun _ => ?_⟩
      simp only [List.append_nil,if_true,List.singleton_append,List.length_cons]
      by_cases hchain : NoRepeat (tip::polls.map Prod.snd)
      · simp [hyes hchain]
      · have := hno hchain
        omega
    | cons x p =>
      obtain rfl : x = tip := Option.some.inj hhead
      have hne : ∀ y ∈ l.head?, y ≠ x := by
        rintro y hy rfl
        have hnodup := nodup_of_ranked hh.ranked hh.parent?_zeros hc.path
        have hmem := List.mem_of_mem_head? hy
        exact (List.nodup_append.mp hnodup).2.2 y List.mem_cons_self y hmem rfl
      have hiff : NoRepeat (l.head?.toList++x::polls.map Prod.snd) ↔
          NoRepeat (x::polls.map Prod.snd) := by
        cases hl : l.head? with
        | none => rfl
        | some y => simpa using fun _ => hne y hl
      simp only [hiff,reduceCtorEq,if_false]
      constructor
      · intro hchain
        rw [hyes hchain,List.map_append,List.reverse_append]
      · intro hchain
        have := hno hchain
        simp only [List.length_append,List.length_reverse,List.length_map,List.length_cons]
        omega

section Reach

variable {h : BlockHandler} {V : Chain → Block → Prop} {stale : Prop} {dbs : Dbs} {c : Chain}
  {k : BlockHash} {d : Diff.Block}

theorem Reach.has (hr : Reach h V stale dbs c) (hk : dbs.blockHashes.diff.get? k = some d) :
    ∃ info, dbs.blockHashes.Has k info := by
  induction hr generalizing d with
  | empty => cases hk
  | header hr hf ih => exact ih hk
  | mempool hr ih => exact ih hk
  | @connect dbs dbs' c b event hr hv hh hc ih =>
    obtain ⟨n,coinbase,txs,res,hp,he,hrec⟩ := connectBlock_ok.mp hc
    obtain ⟨hd,w,-,-,-,tip,rfl,-⟩ := recordBlock_ok hrec
    by_cases he : b.blockHash = k
    · subst he
      exact ⟨_,has_recorded⟩
    · obtain ⟨info,hhas⟩ := ih ((FinMap.get?_insert_ne _ _ he).symm.trans hk)
      exact ⟨info,(has_recorded_ne he).mpr hhas⟩
  | disconnect hr hg hd ih | staleDisconnect _ hr _ hd _ _ _ ih =>
    rcases disconnectBlock_ok.mp hd with ⟨-,-,rfl⟩ | ⟨d,hd,n,t,-,-,-,-,-,-,-,rfl⟩
    · exact ih hk
    · exact ih hk

/-- In every state that can be reached, each block that was connected once ends a chain of
connected blocks. -/
theorem Reach.connectedChain (hr : Reach h V stale dbs c)
    (hk : dbs.blockHashes.diff.get? k = some d) :
    ∃ peg l, dbs.blockHashes.ConnectedChain peg k l := by
  have hs := hr.synced
  have hdata : ∀ k, (∃ d, dbs.blockHashes.diff.get? k = some d) →
      ∃ d, dbs.blockHashes.tryGetTwoWayPegData k = .ok (some d) := by
    rintro k ⟨d,hk⟩
    obtain ⟨info,hinfo⟩ := hr.has hk
    obtain ⟨hd,hhd⟩ := hs.diffs.header k d hk
    obtain ⟨n,hn,-⟩ := hs.headers.height k hd hhd
    exact ⟨⟨_,info⟩,tryGetTwoWayPegData_some.mpr ⟨tryGetHeaderInfo_some.mpr
      ⟨hd,n,hhd,hs.headers.hash k hd hhd,hn,rfl⟩,hinfo⟩⟩
  obtain ⟨l,hl,hall⟩ := hs.headers.exists_path_of_closed
    (S := fun k => ∃ d, dbs.blockHashes.diff.get? k = some d) (a := k) (by
      rintro k ⟨d,hk⟩
      obtain ⟨hd,hhd⟩ := hs.diffs.header k d hk
      exact ⟨hd,hhd,hs.diffs.parent k d hd hk hhd⟩) ⟨d,hk⟩
  have hne : Nonempty TwoWayPegData := (hdata k ⟨d,hk⟩).nonempty
  choose! peg hpeg using hdata
  refine ⟨peg,l,hl,?_,fun k hk => hpeg k (hall k hk)⟩
  rintro rfl
  obtain rfl : k = allZeros := hl
  obtain ⟨hd,hhd⟩ := hs.diffs.header _ d hk
  exact absurd (hs.headers.hash _ hd hhd) hd.blockHash_ne

end Reach

/-- Ranges of blocks concatenate exactly when none of them starts where it ends, and polls
deliver the chain exactly when no tip is asked for twice in a row. A range without a start
is the whole chain, and asking for a range fails exactly when the start is not below the
end or the data of a block is missing. -/
theorem getTwoWayPegDataRange_concat {dbs : BlockHashDbs} (hh : dbs.Headers) :
    (∀ peg c l, dbs.ConnectedChain peg c l →
      dbs.getTwoWayPegDataRange none c = .ok (l.map peg).reverse ∧
      ∀ a ∈ l, ∀ b ∈ l, dbs.AncestorOrEqual a b → (dbs.Concatenates a b c ↔ a ≠ b ∧ b ≠ c)) ∧
    (∀ startBlock endBlock,
      ((∃ e, dbs.getTwoWayPegDataRange startBlock endBlock = .error e) ↔
        ¬ dbs.AncestorOrEqual (startBlock.getD allZeros) endBlock ∨
          ∃ k, dbs.InRange (startBlock.getD allZeros) endBlock k ∧
            ∀ d, dbs.tryGetTwoWayPegData k ≠ .ok (some d)) ∧
      ∀ e, dbs.getTwoWayPegDataRange startBlock endBlock = .error e → e.Returned) ∧
    ∀ peg polls l, Polls peg [] polls l →
      (pollAll polls none = .ok (l.map peg).reverse ↔ NoRepeat (polls.map Prod.snd)) := by
  refine ⟨fun peg c l hc => ⟨?_,fun a ha b hb hab => hh.concatenates_iff hc ha hb hab⟩,
    fun startBlock endBlock => ⟨hh.getTwoWayPegDataRange_isError,
      fun e he => hh.getTwoWayPegDataRange_error he⟩,?_⟩
  · have hrange := hh.getTwoWayPegDataRange_chain (p := l) (t := []) (by rwa [List.append_nil])
    rwa [if_neg hc.ne] at hrange
  · intro peg polls l hp
    obtain ⟨q,r,hl,hr,hyes,hno⟩ := pollAll_ok hp
    rw [List.append_nil] at hl
    subst hl
    simp only [List.head?_nil,Option.toList_none,List.nil_append] at hr hyes hno
    rw [hr,Except.ok.injEq]
    refine ⟨fun he => ?_,hyes⟩
    by_contra hcon
    have hlt := hno hcon
    rw [he] at hlt
    simp at hlt

end TwoWayPeg

section Sample

open Sample ForkSample

namespace PegSample

def store : BlockHashDbs := run.1.blockHashes

def tip : BlockHash := (oldBranch.getLastD genesis).blockHash

end PegSample

open PegSample

theorem getTwoWayPegDataRange_concat_sample :
    ∃ peg l, store.ConnectedChain peg tip l ∧
      store.getTwoWayPegDataRange none tip = .ok (l.map peg).reverse := by
  obtain ⟨d,hd⟩ : ∃ d, store.diff.get? tip = some d := (FinMap.contains_iff _ _).mp (by decide +kernel)
  obtain ⟨peg,l,hc⟩ := reach_run.connectedChain hd
  exact ⟨peg,l,hc,((getTwoWayPegDataRange_concat reach_run.synced.headers).1 peg tip l hc).1⟩

/-- A sidechain that asks again before there is a new block is told of the tip once more. -/
theorem poll_delivers_twice :
    Reach handler FreshTxids False run.1 run.2 ∧ run.2.parentHash = tip ∧
      (store.getTwoWayPegDataRange (some genesis.blockHash) tip).toOption.map List.length = some 2 ∧
      (store.getTwoWayPegDataRange (some tip) tip).toOption.map List.length = some 1 ∧
      ¬ store.Concatenates genesis.blockHash tip tip ∧
      (pollAll [(store,tip),(store,tip)] none).toOption.map
          (List.map (fun d => d.headerInfo.blockHash)) =
        some (((genesis::oldBranch).map Block.blockHash)++[tip]) := by
  refine ⟨reach_run,by decide +kernel,by decide +kernel,by decide +kernel,?_,by decide +kernel⟩
  rintro ⟨x,y,hx,hy,hxy⟩
  have hlen : (store.getTwoWayPegDataRange (some tip) tip).toOption.map List.length = some 1 := by
    decide +kernel
  rw [hx] at hxy
  rw [hy] at hlen
  obtain rfl : y = [] := by simpa using Except.ok.inj hxy
  cases hlen

end Sample

end Bip300301Enforcer
