import Mathlib.Data.List.Chain
import Mathlib.Logic.Relation
import Bip300301Enforcer.SyncHeaders
import Bip300301Enforcer.Ancestors
import Bip300301Enforcer.HeaderOnly
import Bip300301Enforcer.Runs

/-! The stored headers, while they are synced from a node that may reorganise at any time and
while blocks are connected. Every stored header leads down to the first block, and no height
changes. -/
namespace Bip300301Enforcer
open Lib Chain Walk BlockHandler

section Model

variable [Bitcoin]

/-- The headers that occur in a run, on the node and in connected blocks. No two of them have
the same hash, and all chains share the first one. -/
structure HeaderWorld where
  genesis : Header
  known : Header → Prop
  genesis_parent : genesis.prevBlockhash = allZeros
  noCollision : ∀ hd hd', known hd → known hd' → hd.blockHash = hd'.blockHash → hd = hd'

def Header.OnTop (hd hd' : Header) : Prop := hd'.prevBlockhash = hd.blockHash

/-- An active chain of the node, with the first block first. -/
structure HeaderChain (w : HeaderWorld) (chain : List Header) : Prop where
  first : chain.head? = some w.genesis
  links : chain.IsChain Header.OnTop
  known : ∀ hd ∈ chain, w.known hd

/-- The headers of a chain from a block on. There are none if the block is not part of it. -/
def headersFrom (chain : List Header) (blockHash : BlockHash) (count : ℕ) : List Header :=
  (chain.dropWhile (fun hd => hd.blockHash ≠ blockHash)).take count

/-- Each answer is right about the chain that is active when it is given. The answers of a
batch may be about different chains. -/
structure NodeAnswers.Correct (w : HeaderWorld) (answers : NodeAnswers) : Prop where
  getblockhash : ∀ i n k, answers.getblockhash i n = some k →
    ∃ chain hd, HeaderChain w chain ∧ chain[n]? = some hd ∧ hd.blockHash = k
  rawHeader : ∀ i k bytes, answers.rawHeader i k = some bytes →
    ∃ hd, w.known hd ∧ hd.blockHash = k ∧ bytes = hd.serialize
  restHeaders : ∀ k n bytes, answers.restHeaders k n = some bytes →
    ∃ chain, HeaderChain w chain ∧ bytes = (headersFrom chain k n).flatMap Header.serialize

/-- The database, and where the sync of the headers stands. -/
structure HeaderSystem where
  dbs : Dbs
  sync : HeaderSync

/-- A sync starts, whether or not the one before has come to an end; it makes a step; or the
validator is called. -/
inductive HeaderSystem.Step (h : BlockHandler) (w : HeaderWorld) : HeaderSystem → HeaderSystem → Prop
  | start (s : HeaderSystem) (mainTip : BlockHash) : Step h w s ⟨s.dbs,.start mainTip⟩
  | sync (s : HeaderSystem) (answers : NodeAnswers) (rest cancelled stored : Bool)
      (correct : answers.Correct w) :
      Step h w s
        ⟨{ s.dbs with blockHashes :=
            (HeaderSync.step answers rest cancelled stored s.dbs.blockHashes s.sync).2 },
          (HeaderSync.step answers rest cancelled stored s.dbs.blockHashes s.sync).1⟩
  | call (s : HeaderSystem) (call : EnforcerCall)
      (known : ∀ block, call = .connectBlock block → w.known block.header) :
      Step h w s ⟨(EnforcedNode.call h ⟨s.dbs,[]⟩ call).dbs,s.sync⟩

def HeaderSystem.initial : HeaderSystem := ⟨.empty,.done (.ok ())⟩

/-- The header has a place in the store: it is a first block, or one above its stored parent. -/
def BlockHashDbs.Placed (dbs : BlockHashDbs) (hd : Header) (n : ℕ) : Prop :=
  hd.prevBlockhash = allZeros ∧ n = 0 ∨
    ∃ parent m, dbs.header.get? hd.prevBlockhash = some parent ∧
      dbs.height.get? hd.prevBlockhash = some m ∧ n = m+1

/-- Every stored header is stored under its hash, has a height, and has a place. -/
def BlockHashDbs.HeadersLinked (dbs : BlockHashDbs) : Prop :=
  ∀ k hd, dbs.header.get? k = some hd → hd.blockHash = k ∧
    ∃ n, dbs.height.get? k = some n ∧ dbs.Placed hd n

end Model

namespace BlockHashDbs

variable [Bitcoin] {w : HeaderWorld} {dbs dbs' : BlockHashDbs}

/-- What is kept about the stored headers. A height is stored only with a header. -/
structure HeaderStore (w : HeaderWorld) (dbs : BlockHashDbs) : Prop where
  headers : dbs.Headers
  closed : dbs.AncestorClosed
  heights : ∀ k n, dbs.height.get? k = some n → ∃ hd, dbs.header.get? k = some hd
  known : ∀ k hd, dbs.header.get? k = some hd → w.known hd

/-- All headers and heights stay. -/
structure Kept (dbs dbs' : BlockHashDbs) : Prop where
  header : ∀ k hd, dbs.header.get? k = some hd → dbs'.header.get? k = some hd
  height : ∀ k n, dbs.height.get? k = some n → dbs'.height.get? k = some n

omit [Bitcoin] in
theorem Kept.refl (dbs : BlockHashDbs) : dbs.Kept dbs := ⟨fun _ _ h => h,fun _ _ h => h⟩

omit [Bitcoin] in
theorem Kept.trans {dbs'' : BlockHashDbs} (h : dbs.Kept dbs') (h' : dbs'.Kept dbs'') :
    dbs.Kept dbs'' :=
  ⟨fun k hd hk => h'.header k hd (h.header k hd hk),fun k n hk => h'.height k n (h.height k n hk)⟩

theorem headerStore_empty (w : HeaderWorld) : HeaderStore w .empty where
  headers := ⟨fun k hd hk => by simp [empty] at hk,fun k hd hk => by simp [empty] at hk⟩
  closed := fun k hd hk => by simp [empty] at hk
  heights := fun k n hk => by simp [empty] at hk
  known := fun k hd hk => by simp [empty] at hk

theorem HeaderStore.congr (hs : HeaderStore w dbs) (hhd : dbs'.header = dbs.header)
    (hht : dbs'.height = dbs.height) : HeaderStore w dbs' where
  headers := ⟨fun k hd hk => hs.headers.hash k hd (by rwa [← hhd]),
    fun k hd hk => by rw [hht]; exact hs.headers.height k hd (by rwa [← hhd])⟩
  closed := fun k hd hk => by rw [hhd]; exact hs.closed k hd (by rwa [← hhd])
  heights := fun k n hk => by rw [hhd]; exact hs.heights k n (by rwa [← hht])
  known := fun k hd hk => hs.known k hd (by rwa [← hhd])

theorem HeaderStore.placed (hs : HeaderStore w dbs) {k : BlockHash} {hd : Header} {n : ℕ}
    (hk : dbs.header.get? k = some hd) (hn : dbs.height.get? k = some n) : dbs.Placed hd n := by
  obtain ⟨n',hn',h₁,h₂⟩ := hs.headers.height k hd hk
  obtain rfl := Option.some.inj (hn.symm.trans hn')
  by_cases hz : hd.prevBlockhash = allZeros
  · exact .inl ⟨hz,h₁ hz⟩
  · obtain ⟨parent,hp⟩ := hs.closed k hd hk hz
    obtain ⟨hpos,hm⟩ := h₂ hz
    exact .inr ⟨parent,n-1,hp,hm,by omega⟩

theorem HeaderStore.headersLinked (hs : HeaderStore w dbs) : dbs.HeadersLinked := by
  intro k hd hk
  obtain ⟨n,hn,-⟩ := hs.headers.height k hd hk
  exact ⟨hs.headers.hash k hd hk,n,hn,hs.placed hk hn⟩

theorem HeaderStore.eq_of_hash (hs : HeaderStore w dbs) {hd hd' : Header} (hknown : w.known hd)
    (hk : dbs.header.get? hd.blockHash = some hd') : hd' = hd :=
  w.noCollision hd' hd (hs.known _ _ hk) hknown (hs.headers.hash _ _ hk)

/-- A known header that has a place fits, whether or not it is stored already. -/
theorem HeaderStore.fits (hs : HeaderStore w dbs) {hd : Header} {n : ℕ} (hknown : w.known hd)
    (hplace : dbs.Placed hd n) : dbs.HeaderFits hd n := by
  have hzero : ∀ {parent : Header}, dbs.header.get? hd.prevBlockhash = some parent →
      hd.prevBlockhash ≠ allZeros := by
    intro parent hp hz
    exact parent.blockHash_ne (by rw [hs.headers.hash _ _ hp,hz])
  refine ⟨?_,?_,?_,?_,?_,?_⟩
  · intro hz
    rcases hplace with ⟨-,rfl⟩ | ⟨parent,m,hp,-,-⟩
    · rfl
    · exact absurd hz (hzero hp)
  · intro hz
    rcases hplace with ⟨hz',-⟩ | ⟨-,m,-,-,rfl⟩
    · exact absurd hz' hz
    · omega
  · cases hk : dbs.height.get? hd.blockHash with
    | none => simp
    | some m =>
      obtain ⟨hd',hhd'⟩ := hs.heights _ _ hk
      obtain rfl := hs.eq_of_hash hknown hhd'
      have hplace' := hs.placed hhd' hk
      rcases hplace with ⟨hz,rfl⟩ | ⟨parent,m',hp,hm',rfl⟩
      · rcases hplace' with ⟨-,rfl⟩ | ⟨parent,_,hp,-,-⟩
        · simp
        · exact absurd hz (hzero hp)
      · rcases hplace' with ⟨hz,-⟩ | ⟨_,m'',-,hm'',rfl⟩
        · exact absurd hz (hzero hp)
        · obtain rfl := Option.some.inj (hm'.symm.trans hm'')
          simp
  · intro hz
    rcases hplace with ⟨hz',-⟩ | ⟨parent,m,-,hm,rfl⟩
    · exact absurd hz' hz
    · rw [hm]
      simp
  · cases hk : dbs.header.get? hd.blockHash with
    | none => simp
    | some hd' =>
      rw [hs.eq_of_hash hknown hk]
      simp
  · intro hloop
    rcases hplace with ⟨hz,-⟩ | ⟨parent,m,hp,hm,-⟩
    · exact hd.blockHash_ne (hloop.symm.trans hz)
    · -- a stored header that is its own parent would be one above itself
      have hne := hzero hp
      rw [hloop] at hp
      obtain rfl := hs.eq_of_hash hknown hp
      obtain ⟨m',hm',-,h₂⟩ := hs.headers.height _ _ hp
      obtain ⟨hpos,hprev⟩ := h₂ hne
      rw [hloop] at hprev
      have := Option.some.inj (hm'.symm.trans hprev)
      omega

/-- Storing a known header that has a place. -/
theorem HeaderStore.putHeader (hs : HeaderStore w dbs) {hd : Header} {n : ℕ} (hknown : w.known hd)
    (hplace : dbs.Placed hd n) :
    HeaderStore w (dbs.putHeader hd n) ∧ dbs.Kept (dbs.putHeader hd n) ∧
      (dbs.putHeader hd n).header.get? hd.blockHash = some hd ∧
      (dbs.putHeader hd n).height.get? hd.blockHash = some n := by
  have hfits := hs.fits hknown hplace
  have hkept : dbs.Kept (dbs.putHeader hd n) :=
    ⟨fun _ _ hk => putHeader_header_some hfits hk,fun _ _ hk => putHeader_height_some hfits hk⟩
  refine ⟨⟨headers_putHeader hs.headers hfits,?_,?_,?_⟩,hkept,?_,?_⟩
  · intro k hd' hk hz
    rw [putHeader_header] at hk
    split at hk
    · obtain rfl := Option.some.inj hk
      rcases hplace with ⟨hz',-⟩ | ⟨parent,-,hp,-⟩
      · exact absurd hz' hz
      · exact ⟨parent,hkept.header _ _ hp⟩
    · obtain ⟨parent,hp⟩ := hs.closed k hd' hk hz
      exact ⟨parent,hkept.header _ _ hp⟩
  · intro k m hk
    rw [putHeader_height hd n hfits] at hk
    split at hk
    · rename_i he
      exact ⟨hd,by rw [putHeader_header,if_pos he]⟩
    · split at hk
      · rename_i he
        obtain ⟨hz,rfl⟩ := he
        rcases hplace with ⟨hz',-⟩ | ⟨parent,-,hp,-⟩
        · exact absurd hz' hz
        · exact ⟨parent,hkept.header _ _ hp⟩
      · obtain ⟨hd',hhd'⟩ := hs.heights k m hk
        exact ⟨hd',hkept.header _ _ hhd'⟩
  · intro k hd' hk
    rw [putHeader_header] at hk
    split at hk
    · obtain rfl := Option.some.inj hk
      exact hknown
    · exact hs.known k hd' hk
  · rw [putHeader_header,if_pos rfl]
  · rw [putHeader_height hd n hfits,if_pos rfl]

/-- A chain of known headers is stored, from one on that has a place. -/
theorem HeaderStore.putHeaders (hs : HeaderStore w dbs) {headers : List Header} {n : ℕ}
    (hlinks : headers.IsChain Header.OnTop) (hknown : ∀ hd ∈ headers, w.known hd)
    (hplace : ∀ hd, headers.head? = some hd → dbs.Placed hd n) :
    HeaderStore w (dbs.putHeaders (headers.zipIdx n)) ∧ dbs.Kept (dbs.putHeaders (headers.zipIdx n)) ∧
      ∀ hd, headers.getLast? = some hd →
        (dbs.putHeaders (headers.zipIdx n)).header.get? hd.blockHash = some hd ∧
        (dbs.putHeaders (headers.zipIdx n)).height.get? hd.blockHash =
          some (n+(headers.length-1)) := by
  induction headers generalizing dbs n with
  | nil => exact ⟨hs,Kept.refl dbs,fun hd hlast => by cases hlast⟩
  | cons hd headers ih =>
    obtain ⟨hs',hkept,hheader,hheight⟩ :=
      hs.putHeader (hknown hd (List.mem_cons_self ..)) (hplace hd rfl)
    have hput : dbs.putHeaders ((hd::headers).zipIdx n) =
        (dbs.putHeader hd n).putHeaders (headers.zipIdx (n+1)) := rfl
    rw [hput]
    obtain ⟨hs'',hkept',hlast⟩ := ih hs' hlinks.tail
      (fun hd' hm => hknown hd' (List.mem_cons_of_mem _ hm)) (fun hd' hfirst => by
        have hon : hd'.prevBlockhash = hd.blockHash := hlinks.rel_head? hfirst
        exact .inr ⟨hd,n,by rw [hon]; exact hheader,by rw [hon]; exact hheight,rfl⟩)
    refine ⟨hs'',hkept.trans hkept',fun hd' hl => ?_⟩
    cases headers with
    | nil =>
      obtain rfl := Option.some.inj hl
      exact ⟨hheader,hheight⟩
    | cons x l =>
      obtain ⟨hh,hn⟩ := hlast hd' (by rw [← hl,List.getLast?_cons_cons])
      refine ⟨hh,hn.trans ?_⟩
      simp only [List.length_cons]
      congr 1
      omega

/-- A block that the node reports at a height has this height in the store, if it is stored. -/
theorem HeaderStore.height_of_chain (hs : HeaderStore w dbs) {chain : List Header}
    (hc : HeaderChain w chain) {n : ℕ} {hd hd' : Header} (hn : chain[n]? = some hd)
    (hk : dbs.header.get? hd.blockHash = some hd') : dbs.height.get? hd.blockHash = some n := by
  induction n generalizing hd hd' with
  | zero =>
    have hfirst : chain.head? = some hd := by rw [List.head?_eq_getElem?,hn]
    obtain rfl := Option.some.inj (hc.first.symm.trans hfirst)
    obtain rfl := hs.eq_of_hash (hc.known _ (List.mem_of_getElem? hn)) hk
    obtain ⟨m,hm,h₁,-⟩ := hs.headers.height _ _ hk
    rw [hm,h₁ w.genesis_parent]
  | succ n ih =>
    obtain rfl := hs.eq_of_hash (hc.known _ (List.mem_of_getElem? hn)) hk
    obtain ⟨hlt,hget⟩ := List.getElem?_eq_some_iff.mp hn
    have hon : hd'.prevBlockhash = (chain.get ⟨n,by omega⟩).blockHash := by
      rw [← hget]
      exact hc.links.getElem n hlt
    have hne : hd'.prevBlockhash ≠ allZeros := by
      rw [hon]
      exact Header.blockHash_ne _
    obtain ⟨parent,hp⟩ := hs.closed _ _ hk hne
    obtain ⟨m,hm,-,h₂⟩ := hs.headers.height _ _ hk
    obtain ⟨hpos,hprev⟩ := h₂ hne
    have hparent := ih (List.getElem?_eq_getElem (show n < chain.length by omega))
      (by rw [hon] at hp; exact hp)
    rw [hon] at hprev
    have heq := Option.some.inj (hprev.symm.trans hparent)
    rw [hm]
    congr 1
    omega

/-- A block from which headers can be fetched: it is stored at this height, or it is the
first one. -/
def Ready (w : HeaderWorld) (dbs : BlockHashDbs) (k : BlockHash) (n : ℕ) : Prop :=
  (∃ hd, dbs.header.get? k = some hd ∧ dbs.height.get? k = some n) ∨
    k = w.genesis.blockHash ∧ w.known w.genesis ∧ n = 0

theorem Ready.mono {k : BlockHash} {n : ℕ} (hr : Ready w dbs k n) (hk : dbs.Kept dbs') :
    Ready w dbs' k n := by
  rcases hr with ⟨hd,hh,hn⟩ | hg
  · exact .inl ⟨hd,hk.header _ _ hh,hk.height _ _ hn⟩
  · exact .inr hg

theorem HeaderStore.placed_of_ready (hs : HeaderStore w dbs) {hd : Header} {n : ℕ}
    (hknown : w.known hd) (hr : Ready w dbs hd.blockHash n) : dbs.Placed hd n := by
  rcases hr with ⟨hd',hh,hn⟩ | ⟨hk,hg,rfl⟩
  · obtain rfl := hs.eq_of_hash hknown hh
    exact hs.placed hh hn
  · obtain rfl := w.noCollision _ _ hknown hg hk
    exact .inl ⟨w.genesis_parent,rfl⟩

end BlockHashDbs

section Fetched

variable [Bitcoin] {w : HeaderWorld} {current : BlockHash} {n count : ℕ}

structure Segment (w : HeaderWorld) (current : BlockHash) (n count : ℕ) (fetched : List FetchedHeader)
    (headers : List Header) : Prop where
  fetched : fetched = (headers.zipIdx n).map (fun e => (e.1,e.1.blockHash,e.2))
  links : headers.IsChain Header.OnTop
  known : ∀ hd ∈ headers, w.known hd
  first : ∀ hd, headers.head? = some hd → hd.blockHash = current
  length_le : headers.length ≤ count

theorem Segment.stored {fetched : List FetchedHeader} {headers : List Header}
    (hs : Segment w current n count fetched headers) :
    fetched.map (fun e => (e.1,e.2.2)) = headers.zipIdx n := by
  rw [hs.fetched,List.map_map]
  exact List.map_id _

theorem Segment.last {fetched : List FetchedHeader} {headers : List Header} {hd : Header}
    {k : BlockHash} {m : ℕ} (hs : Segment w current n count fetched headers)
    (hlast : fetched.getLast? = some (hd,k,m)) :
    headers.getLast? = some hd ∧ k = hd.blockHash ∧ m = n+(headers.length-1) ∧ 0 < headers.length := by
  rw [hs.fetched,List.getLast?_map] at hlast
  obtain ⟨⟨hd',i⟩,hget,he⟩ := Option.map_eq_some_iff.mp hlast
  rw [List.getLast?_eq_getElem?,List.getElem?_zipIdx,List.length_zipIdx] at hget
  obtain ⟨hd'',hget',heq⟩ := Option.map_eq_some_iff.mp hget
  obtain ⟨rfl,rfl⟩ := Prod.mk.inj heq
  obtain ⟨rfl,rfl,rfl⟩ : hd'' = hd ∧ hd''.blockHash = k ∧ n+(headers.length-1) = m := by
    simpa using he
  have hlt := (List.getElem?_eq_some_iff.mp hget').1
  exact ⟨by rw [List.getLast?_eq_getElem?,hget'],rfl,rfl,by omega⟩

omit [Bitcoin] in
theorem chunk_serialize (headers : List Header) (i : ℕ) :
    ((headers.flatMap Header.serialize).drop (80*i)).take 80 =
      (headers[i]?.map Header.serialize).getD [] := by
  induction headers generalizing i with
  | nil => simp
  | cons hd headers ih =>
    rw [List.flatMap_cons]
    cases i with
    | zero =>
      have hlen : 80 ≤ hd.serialize.length := by simp
      rw [Nat.mul_zero,List.drop_zero,List.take_append_of_le_length hlen,
        List.take_of_length_le (by simp)]
      rfl
    | succ i =>
      have hdrop : 80*(i+1) = hd.serialize.length+80*i := by
        rw [Header.length_serialize]
        omega
      rw [hdrop,List.drop_length_add_append,ih,List.getElem?_cons_succ]

/-- The headers of an answer are read back, with their heights. -/
theorem decodeBlockHeaders_ok {headers : List Header} {fetched : List FetchedHeader}
    (hd : decodeBlockHeaders (headers.flatMap Header.serialize) n = .ok fetched) :
    fetched = (headers.zipIdx n).map (fun e => (e.1,e.1.blockHash,e.2)) := by
  obtain ⟨_,-,hd⟩ := Fallible.bind_ok.mp hd
  have hlen : (headers.flatMap Header.serialize).length = 80*headers.length := by
    rw [List.length_flatMap]
    simp [Nat.mul_comm]
  rw [hlen,Nat.mul_div_cancel_left _ (by decide)] at hd
  have hmap := Fallible.mapM_eq_map (g := fun i => ((headers[i]?).map
    (fun hd => (hd,hd.blockHash,n+i))).getD (⟨0,0,0,0,0,0⟩,0,0)) ?_ hd
  · rw [hmap]
    refine List.ext_getElem? (fun i => ?_)
    rw [List.getElem?_map,List.getElem?_map,List.getElem?_zipIdx]
    by_cases hi : i < headers.length
    · simp [List.getElem?_range hi,List.getElem?_eq_getElem hi]
    · rw [List.getElem?_eq_none (by simpa using hi),List.getElem?_eq_none (by omega)]
      rfl
  · intro i e he
    obtain ⟨hd',hhd',he⟩ := Fallible.bind_ok.mp he
    obtain ⟨_,-,he⟩ := Fallible.bind_ok.mp he
    rw [Fallible.require_ok,chunk_serialize] at hhd'
    cases hi : headers[i]? with
    | none =>
      rw [hi] at hhd'
      cases hhd'
    | some hd =>
      rw [hi] at hhd'
      have hsame : some hd = some hd' := by
        rw [← hhd']
        exact (Header.deserialize_serialize hd).symm
      obtain rfl := Option.some.inj hsame
      obtain rfl := (Fallible.pure_ok _ _).mp he
      rfl

theorem headersFrom_first {chain : List Header} {hd : Header}
    (hh : (headersFrom chain current count).head? = some hd) : hd.blockHash = current := by
  rw [headersFrom,List.head?_take] at hh
  split at hh
  · cases hh
  · have hfirst := List.head?_dropWhile_not (fun hd : Header => decide (hd.blockHash ≠ current)) chain
    rw [hh] at hfirst
    simpa using hfirst

theorem getBlockHeaders_ok {answers : NodeAnswers} (hc : answers.Correct w)
    {fetched : List FetchedHeader}
    (hg : getBlockHeaders (answers.restHeaders current count) current n = .ok fetched) :
    ∃ headers, Segment w current n count fetched headers := by
  obtain ⟨bytes,hbytes,hg⟩ := Fallible.bind_ok.mp hg
  rw [Fallible.require_ok] at hbytes
  obtain ⟨fetched',hdec,hg⟩ := Fallible.bind_ok.mp hg
  obtain ⟨_,-,hg⟩ := Fallible.bind_ok.mp hg
  obtain rfl := (Fallible.pure_ok _ _).mp hg
  obtain ⟨chain,hchain,rfl⟩ := hc.restHeaders current count bytes hbytes
  have hsuffix : (chain.dropWhile (fun hd => decide (hd.blockHash ≠ current))) <:+ chain :=
    List.dropWhile_suffix _
  refine ⟨headersFrom chain current count,decodeBlockHeaders_ok hdec,?_,?_,
    fun hd hfirst => headersFrom_first hfirst,by simp [headersFrom]⟩
  · exact (hchain.links.suffix hsuffix).take count
  · intro hd hm
    exact hchain.known hd (hsuffix.subset (List.mem_of_mem_take hm))

/-- Validated headers are a chain, on top of the one before. -/
theorem validateRpcHeaders_ok {offset : ℕ} {previous : Option BlockHash}
    {answered : List (BlockHash × List UInt8)} {fetched : List FetchedHeader}
    (hv : validateRpcHeaders n offset previous answered = .ok fetched) :
    ∃ headers : List Header,
      fetched = (headers.zipIdx (n+offset)).map (fun e => (e.1,e.1.blockHash,e.2)) ∧
      headers.IsChain Header.OnTop ∧
      (∀ hd, headers.head? = some hd → ∀ k, previous = some k → hd.prevBlockhash = k) ∧
      headers.map Header.blockHash = answered.map Prod.fst ∧
      ∀ hd ∈ headers, ∃ e ∈ answered, Header.deserialize e.2 = some hd := by
  induction answered generalizing offset previous fetched with
  | nil =>
    obtain rfl := Except.ok.inj hv
    exact ⟨[],rfl,.nil,by simp,rfl,by simp⟩
  | cons e answered ih =>
    obtain ⟨blockHash,rawHeader⟩ := e
    obtain ⟨_,-,hv⟩ := Fallible.bind_ok.mp hv
    obtain ⟨hd,hhd,hv⟩ := Fallible.bind_ok.mp hv
    obtain ⟨_,hok,hv⟩ := Fallible.bind_ok.mp hv
    obtain ⟨rest,hrest,hv⟩ := Fallible.bind_ok.mp hv
    obtain rfl := (Fallible.pure_ok _ _).mp hv
    rw [Fallible.require_ok] at hhd
    rw [Fallible.ensure_ok,Bool.and_eq_true,decide_eq_true_eq] at hok
    obtain ⟨rfl,hprev⟩ := hok
    obtain ⟨headers,rfl,hlinks,hfirst,hhashes,hread⟩ := ih hrest
    refine ⟨hd::headers,rfl,hlinks.cons (fun hd' hm => hfirst hd' hm _ rfl),?_,?_,?_⟩
    · intro hd' hh k hk
      obtain rfl := Option.some.inj hh
      rw [hk] at hprev
      simpa using hprev
    · rw [List.map_cons,hhashes]
      rfl
    · intro hd' hm
      rcases List.mem_cons.mp hm with rfl | hm
      · exact ⟨(_,rawHeader),List.mem_cons_self ..,hhd⟩
      · obtain ⟨e,he,hr⟩ := hread hd' hm
        exact ⟨e,List.mem_cons_of_mem _ he,hr⟩

/-- The headers of two batches of JSON-RPC answers. Only the first of them has to be on the
chain that the caller has asked about. -/
theorem fetchRpcHeaders_ok {answers : NodeAnswers} (hc : answers.Correct w)
    {fetched : List FetchedHeader} (hf : fetchHeaders answers false current n count = .ok fetched) :
    ∃ headers, Segment w current n count fetched headers := by
  obtain ⟨blockHashes,hhashes,hf⟩ := Fallible.bind_ok.mp hf
  obtain ⟨rawHeaders,hraw,hf⟩ := Fallible.bind_ok.mp hf
  obtain ⟨_,hstart,hf⟩ := Fallible.bind_ok.mp hf
  rw [Fallible.ensure_ok,decide_eq_true_eq] at hstart
  obtain ⟨headers,hfetched,hlinks,-,hmap,hread⟩ := validateRpcHeaders_ok hf
  refine ⟨headers,hfetched,hlinks,?_,?_,?_⟩
  · intro hd hm
    obtain ⟨e,he,hr⟩ := hread hd hm
    obtain ⟨⟨k,i⟩,-,hk⟩ := (Fallible.mapM_results hraw).2 e.2 (List.of_mem_zip he).2
    rw [Fallible.require_ok] at hk
    obtain ⟨hd',hknown,-,hbytes⟩ := hc.rawHeader i k e.2 hk
    rw [hbytes,Header.deserialize_serialize] at hr
    obtain rfl := Option.some.inj hr
    exact hknown
  · intro hd hfirst
    have hhash : (headers.map Header.blockHash).head? = some hd.blockHash := by
      rw [List.head?_map,hfirst]
      rfl
    rw [hmap] at hhash
    cases hzip : blockHashes.zip rawHeaders with
    | nil =>
      rw [hzip] at hhash
      cases hhash
    | cons e rest =>
      obtain ⟨k,ks,rfl⟩ : ∃ k ks, blockHashes = k::ks := by
        cases blockHashes with
        | nil => cases hstart
        | cons k ks => exact ⟨k,ks,rfl⟩
      cases rawHeaders with
      | nil => cases hzip
      | cons raw raws =>
        obtain rfl := Option.some.inj hstart
        exact (Option.some.inj hhash).symm
  · have hlen : headers.length = (blockHashes.zip rawHeaders).length := by
      simpa using congrArg List.length hmap
    have hcount := (Fallible.mapM_results hhashes).1
    rw [List.length_range] at hcount
    rw [hlen,List.length_zip,hcount]
    exact Nat.min_le_left ..

theorem fetchHeaders_ok {answers : NodeAnswers} (hc : answers.Correct w) {rest : Bool}
    {fetched : List FetchedHeader} (hf : fetchHeaders answers rest current n count = .ok fetched) :
    ∃ headers, Segment w current n count fetched headers := by
  cases rest with
  | true =>
    simp only [fetchHeaders,if_true,Fallible.mapError_ok] at hf
    exact getBlockHeaders_ok hc hf
  | false => exact fetchRpcHeaders_ok hc hf

end Fetched

section Run

open BlockHashDbs

variable [Bitcoin] {w : HeaderWorld} {dbs dbs' : BlockHashDbs}

/-- What a sync knows about the blocks that it goes on from. No height is above that of the
tip, so that the differences of heights are exact. -/
def HeaderSync.Sound (w : HeaderWorld) (dbs : BlockHashDbs) : HeaderSync → Prop
  | .search _ tipHeight best missing => missing ≤ tipHeight ∧
      ∀ k n, best = some (k,n) → n < missing ∧
        ∃ hd, dbs.header.get? k = some hd ∧ dbs.height.get? k = some n
  | .fetch _ tipHeight k n => n ≤ tipHeight ∧ Ready w dbs k n
  | _ => True

theorem HeaderSync.Sound.mono {sync : HeaderSync} (hs : sync.Sound w dbs) (hk : dbs.Kept dbs') :
    sync.Sound w dbs' := by
  cases sync with
  | search mainTip tipHeight best missing =>
    refine ⟨hs.1,fun k n hb => ?_⟩
    obtain ⟨hlt,hd,hh,hn⟩ := hs.2 k n hb
    exact ⟨hlt,hd,hk.header _ _ hh,hk.height _ _ hn⟩
  | fetch mainTip tipHeight k n => exact ⟨hs.1,hs.2.mono hk⟩
  | _ => trivial

/-- The search keeps what is known about the best ancestor. -/
theorem HeaderSync.Sound.searchStep (hs : HeaderStore w dbs) {answers : NodeAnswers}
    (hc : answers.Correct w) {mainTip : BlockHash} {tipHeight missing : ℕ}
    {best : Option (BlockHash × ℕ)} (hsound : (HeaderSync.search mainTip tipHeight best missing).Sound w dbs) :
    (HeaderSync.searchStep answers dbs mainTip tipHeight best missing).Sound w dbs := by
  obtain ⟨hle,hbest⟩ := hsound
  unfold HeaderSync.searchStep
  dsimp only
  split
  · cases best with
    | none => trivial
    | some e =>
      obtain ⟨hlt,hd,hh,hn⟩ := hbest e.1 e.2 rfl
      simp only [HeaderSync.fromAncestor]
      split
      · trivial
      · exact ⟨by omega,.inl ⟨hd,hh,hn⟩⟩
  · rename_i hmid
    rw [not_or] at hmid
    have hlow : (best.map Prod.snd).getD 0 ≤ missing := by
      cases best with
      | none => exact Nat.zero_le _
      | some e => exact (hbest e.1 e.2 rfl).1.le
    have hne := hmid.2
    split
    · trivial
    · rename_i k hk
      obtain ⟨chain,hd,hchain,hget,rfl⟩ := hc.getblockhash _ _ _ hk
      split
      · rename_i hstored
        obtain ⟨hd',hhd'⟩ := (FinMap.contains_iff _ _).mp hstored
        refine ⟨hle,fun k n hkn => ?_⟩
        obtain ⟨rfl,rfl⟩ := Prod.mk.inj (Option.some.inj hkn)
        exact ⟨by omega,hd',hhd',hs.height_of_chain hchain hget hhd'⟩
      · refine ⟨by omega,fun k n hkn => ?_⟩
        obtain ⟨hlt,hstored⟩ := hbest k n hkn
        refine ⟨?_,hstored⟩
        rw [hkn] at hmid hne ⊢
        have h₁ : (missing+n)/2 ≠ n := fun heq => hmid.1 (congrArg some heq)
        have h₂ : (missing+n)/2 ≠ missing := hne
        show n < (missing+n)/2
        omega

/-- A step of the sync keeps the store, loses nothing, and knows where it goes on. -/
structure StepKeeps (w : HeaderWorld) (dbs : BlockHashDbs) (r : HeaderSync × BlockHashDbs) : Prop where
  store : HeaderStore w r.2
  kept : dbs.Kept r.2
  sound : r.1.Sound w r.2

theorem StepKeeps.same {sync : HeaderSync} (hs : HeaderStore w dbs) (hsound : sync.Sound w dbs) :
    StepKeeps w dbs (sync,dbs) := ⟨hs,Kept.refl dbs,hsound⟩

/-- A batch is stored. -/
theorem HeaderSync.Sound.fetchStep (hs : HeaderStore w dbs) {answers : NodeAnswers}
    (hc : answers.Correct w) (rest stored : Bool) {mainTip current : BlockHash} {tipHeight n : ℕ}
    (hsound : (HeaderSync.fetch mainTip tipHeight current n).Sound w dbs) :
    StepKeeps w dbs (HeaderSync.fetchStep answers rest stored dbs mainTip tipHeight current n) := by
  obtain ⟨hle,hready⟩ := hsound
  unfold HeaderSync.fetchStep
  dsimp only
  split
  · exact .same hs trivial
  · rename_i fetched hfetch
    obtain ⟨headers,hseg⟩ := fetchHeaders_ok hc hfetch
    split
    · exact .same hs trivial
    · rename_i last lastHash lastHeight hlast
      split
      · obtain ⟨hget,rfl,rfl,hpos⟩ := hseg.last hlast
        have hplace : ∀ hd, headers.head? = some hd → dbs.Placed hd n := by
          intro hd hfirst
          refine hs.placed_of_ready (hseg.known hd (List.mem_of_mem_head? hfirst)) ?_
          rw [hseg.first hd hfirst]
          exact hready
        obtain ⟨hs',hkept,hstored⟩ := hs.putHeaders hseg.links hseg.known hplace
        obtain ⟨hheader,hheight⟩ := hstored last hget
        rw [hseg.stored]
        refine ⟨hs',hkept,?_⟩
        dsimp only
        split
        · trivial
        · split
          · trivial
          · have hlen := hseg.length_le
            exact ⟨by omega,.inl ⟨last,hheader,hheight⟩⟩
      · exact .same hs trivial

/-- Every step of a sync. -/
theorem HeaderSync.Sound.step (hs : HeaderStore w dbs) {answers : NodeAnswers}
    (hc : answers.Correct w) (rest cancelled stored : Bool) {sync : HeaderSync}
    (hsound : sync.Sound w dbs) :
    StepKeeps w dbs (HeaderSync.step answers rest cancelled stored dbs sync) := by
  cases sync with
  | start mainTip =>
    simp only [HeaderSync.step]
    split
    · exact .same hs trivial
    · split
      · exact .same hs trivial
      · split
        · simp only [HeaderSync.fromAncestor,if_true]
          exact .same hs trivial
        · exact .same hs ⟨le_rfl,fun k n hkn => by cases hkn⟩
  | search mainTip tipHeight best missing => exact .same hs (.searchStep hs hc hsound)
  | genesis mainTip tipHeight =>
    simp only [HeaderSync.step]
    split
    · exact .same hs trivial
    · rename_i k hk
      obtain ⟨chain,hd,hchain,hget,rfl⟩ := hc.getblockhash _ _ _ hk
      have hfirst : chain.head? = some hd := by rw [List.head?_eq_getElem?,hget]
      obtain rfl := Option.some.inj (hchain.first.symm.trans hfirst)
      exact .same hs ⟨Nat.zero_le _,.inr ⟨rfl,hchain.known _ (List.mem_of_getElem? hget),rfl⟩⟩
  | fetch mainTip tipHeight current n =>
    simp only [HeaderSync.step]
    split
    · exact .same hs trivial
    · exact HeaderSync.Sound.fetchStep hs hc rest stored hsound
  | done result => exact .same hs trivial

theorem BlockHashDbs.HeaderStore.storeHeader {dbs dbs' : Dbs} (hs : HeaderStore w dbs.blockHashes) {b : Block}
    (hknown : w.known b.header) (hst : BlockHandler.storeHeader dbs b = some dbs') :
    HeaderStore w dbs'.blockHashes ∧ dbs.blockHashes.Kept dbs'.blockHashes := by
  unfold BlockHandler.storeHeader at hst
  split at hst
  · obtain rfl := Option.some.inj hst
    exact ⟨hs,Kept.refl _⟩
  · obtain ⟨n,hn,rfl⟩ := Option.map_eq_some_iff.mp hst
    have hplace : dbs.blockHashes.Placed b.header n := by
      unfold newHeight at hn
      split at hn
      · rename_i hz
        exact .inl ⟨hz,(Option.some.inj hn).symm⟩
      · obtain ⟨m,hm,rfl⟩ := Option.map_eq_some_iff.mp hn
        obtain ⟨parent,hp⟩ := hs.heights _ _ hm
        exact .inr ⟨parent,m,hp,hm,rfl⟩
    obtain ⟨hs',hkept,-⟩ := hs.putHeader hknown hplace
    exact ⟨hs',hkept⟩

/-- A call leaves the headers and the heights alone, but for the header of a block that is
connected. -/
theorem BlockHashDbs.HeaderStore.call (h : BlockHandler) {s : EnforcedNode} (hs : HeaderStore w s.dbs.blockHashes)
    (call : EnforcerCall) (hknown : ∀ b, call = .connectBlock b → w.known b.header) :
    HeaderStore w (s.call h call).dbs.blockHashes ∧
      s.dbs.blockHashes.Kept (s.call h call).dbs.blockHashes := by
  have hsame : ∀ {dbs' : BlockHashDbs}, dbs'.header = s.dbs.blockHashes.header →
      dbs'.height = s.dbs.blockHashes.height →
      HeaderStore w dbs' ∧ s.dbs.blockHashes.Kept dbs' := fun hhd hht =>
    ⟨hs.congr hhd hht,fun _ _ hk => by rwa [hhd],fun _ _ hk => by rwa [hht]⟩
  cases call with
  | acceptTx tx =>
    simp only [EnforcedNode.call]
    split
    · rename_i conflicts weight payout dbs' ha
      obtain ⟨v,-,ha⟩ := Fallible.bind_ok.mp ha
      cases hacc : acceptedCtips v with
      | none => simp only [hacc,Fallible.pure_ok,Prod.mk.injEq,reduceCtorEq,false_and] at ha
      | some p =>
        simp only [hacc] at ha
        cases hr : parseM8Tx tx with
        | none =>
          simp only [hr,Fallible.pure_ok,Prod.mk.injEq] at ha
          obtain ⟨-,-,rfl⟩ := ha
          exact hsame rfl rfl
        | some r =>
          simp only [hr,Fallible.pure_ok,Prod.mk.injEq] at ha
          obtain ⟨-,-,rfl⟩ := ha
          exact hsame rfl rfl
    · exact ⟨hs,Kept.refl _⟩
    · exact ⟨hs,Kept.refl _⟩
  | connectBlock b =>
    simp only [EnforcedNode.call,connectBlockCommit]
    cases hstore : BlockHandler.storeHeader s.dbs b with
    | none => exact ⟨hs,Kept.refl _⟩
    | some dbs₁ =>
      obtain ⟨hs₁,hkept⟩ := hs.storeHeader (hknown b rfl) hstore
      cases hcon : h.connectBlock dbs₁ b with
      | ok r =>
        obtain ⟨event,dbs₂⟩ := r
        obtain ⟨hhd,hht,-⟩ := connectBlock_tables hcon
        simp only [hcon]
        refine ⟨hs₁.congr hhd hht,hkept.trans ⟨fun _ _ hk => ?_,fun _ _ hk => ?_⟩⟩
        · rwa [hhd]
        · rwa [hht]
      | error err =>
        simp only [hcon]
        cases err.fatality with
        | jfyi => exact ⟨hs₁,hkept⟩
        | _ => exact ⟨hs,Kept.refl _⟩
  | disconnectBlock hash =>
    simp only [EnforcedNode.call]
    split
    · rename_i removed dbs' hd
      obtain ⟨⟨events,dbs₁⟩,hdis,hd⟩ := Fallible.bind_ok.mp hd
      simp only [Fallible.pure_ok,Prod.mk.injEq] at hd
      obtain ⟨-,rfl⟩ := hd
      rcases disconnectBlock_ok.mp hdis with ⟨-,-,rfl⟩ | ⟨d,hd,n,t,-,-,-,-,-,-,-,rfl⟩
      · exact hsame rfl rfl
      · exact hsame rfl rfl
    · exact ⟨hs,Kept.refl _⟩

/-- What holds of every state that can be reached. -/
structure HeaderSystem.Sound (w : HeaderWorld) (s : HeaderSystem) : Prop where
  store : HeaderStore w s.dbs.blockHashes
  sync : s.sync.Sound w s.dbs.blockHashes

variable {h : BlockHandler} {s s' : HeaderSystem}

theorem HeaderSystem.Sound.step (hs : s.Sound w) (hstep : Step h w s s') :
    s'.Sound w ∧ s.dbs.blockHashes.Kept s'.dbs.blockHashes := by
  cases hstep with
  | start mainTip => exact ⟨⟨hs.store,trivial⟩,Kept.refl _⟩
  | sync answers rest cancelled stored hc =>
    have hk := HeaderSync.Sound.step hs.store hc rest cancelled stored hs.sync
    exact ⟨⟨hk.store,hk.sound⟩,hk.kept⟩
  | call call hknown =>
    obtain ⟨hstore,hkept⟩ := HeaderStore.call h (s := ⟨s.dbs,[]⟩) hs.store call hknown
    exact ⟨⟨hstore,hs.sync.mono hkept⟩,hkept⟩

theorem HeaderSystem.Sound.run (hs : s.Sound w) (hrun : Relation.ReflTransGen (Step h w) s s') :
    s'.Sound w ∧ s.dbs.blockHashes.Kept s'.dbs.blockHashes := by
  induction hrun with
  | refl => exact ⟨hs,Kept.refl _⟩
  | tail _ hstep ih =>
    obtain ⟨hs',hkept⟩ := ih.1.step hstep
    exact ⟨hs',ih.2.trans hkept⟩

theorem BlockHashDbs.HeaderStore.lastCommonAncestor_ok (hs : HeaderStore w dbs) {a b : BlockHash}
    {n m : ℕ} (ha : dbs.height.get? a = some n) (hb : dbs.height.get? b = some m) :
    ∃ k, dbs.lastCommonAncestor a b = .ok k := by
  obtain ⟨hda,hha⟩ := hs.heights a n ha
  obtain ⟨hdb,hhb⟩ := hs.heights b m hb
  obtain ⟨l,hl⟩ := hs.headers.exists_path hs.closed hha
  obtain ⟨l',hl'⟩ := hs.headers.exists_path hs.closed hhb
  obtain ⟨p,p',t,hp,hp',hne,-⟩ := exists_meet hs.headers.ranked hs.headers.parent?_zeros hl hl'
  exact ⟨_,hs.headers.lastCommonAncestor_eq hl hl' hp hp' hne⟩

/-- No ancestor is missing, whatever blocks are compared. -/
theorem BlockHashDbs.HeaderStore.ne_missingAncestor (hs : HeaderStore w dbs) (a b k : BlockHash)
    (depth height : ℕ) : dbs.lastCommonAncestor a b ≠ .error (.missingAncestor k depth height) := by
  intro he
  cases ha : dbs.height.get? a with
  | some n =>
    cases hb : dbs.height.get? b with
    | some m =>
      obtain ⟨k',hk'⟩ := hs.lastCommonAncestor_ok ha hb
      rw [hk'] at he
      cases he
    | none =>
      unfold lastCommonAncestor at he
      split at he
      · cases he
      · split at he
        · cases he
        · simp [Database.get,ha,hb] at he
  | none =>
    unfold lastCommonAncestor at he
    split at he
    · cases he
    · split at he
      · cases he
      · simp [Database.get,ha] at he

/-- In every state that syncs of the headers and calls of the validator lead to, whatever the
node reorganises in between, every stored header is one above its stored parent or a first
block, and later steps change no height. So the walk over the ancestors of a stored header goes
down to a first block, and last common ancestors are found. -/
theorem header_store_invariant (hs : Relation.ReflTransGen (HeaderSystem.Step h w) .initial s)
    (hs' : Relation.ReflTransGen (HeaderSystem.Step h w) s s') :
    s.dbs.blockHashes.HeadersLinked ∧
    (∀ k n, s.dbs.blockHashes.height.get? k = some n → s'.dbs.blockHashes.height.get? k = some n) ∧
    (∀ k hd, s.dbs.blockHashes.header.get? k = some hd →
      Path s.dbs.blockHashes.parent? k (s.dbs.blockHashes.ancestorHeaders k) allZeros) ∧
    (∀ a b, s.dbs.blockHashes.header.contains a = true → s.dbs.blockHashes.header.contains b = true →
      ∃ k, s.dbs.blockHashes.lastCommonAncestor a b = .ok k) ∧
    ∀ a b k depth height,
      s.dbs.blockHashes.lastCommonAncestor a b ≠ .error (.missingAncestor k depth height) := by
  have hinit : HeaderSystem.initial.Sound w := ⟨headerStore_empty w,trivial⟩
  obtain ⟨hsound,-⟩ := hinit.run hs
  have hstore := hsound.store
  refine ⟨hstore.headersLinked,(hsound.run hs').2.height,?_,?_,hstore.ne_missingAncestor⟩
  · intro k hd hk
    obtain ⟨l,hl⟩ := hstore.headers.exists_path hstore.closed hk
    rw [hstore.headers.ancestorHeaders_eq hl]
    exact hl
  · intro a b ha hb
    obtain ⟨hda,hha⟩ := (FinMap.contains_iff _ _).mp ha
    obtain ⟨hdb,hhb⟩ := (FinMap.contains_iff _ _).mp hb
    obtain ⟨n,hn,-⟩ := hstore.headers.height a hda hha
    obtain ⟨m,hm,-⟩ := hstore.headers.height b hdb hhb
    exact hstore.lastCommonAncestor_ok hn hm

end Run

section Sample

open Sample

namespace HeaderSample

def handler : BlockHandler := .new (.new .bitcoin .regtest)

def chain : List Header := (blocksOn allZeros 0 [([],[]),([],[]),([],[])]).map Block.header

theorem chain_ne_nil : chain ≠ [] := by decide

def world : HeaderWorld where
  genesis := chain.head chain_ne_nil
  known hd := hd ∈ chain
  genesis_parent := by decide +kernel
  noCollision hd hd' h h' :=
    (by decide +kernel : ∀ hd ∈ chain, ∀ hd' ∈ chain, hd.blockHash = hd'.blockHash → hd = hd') hd h hd' h'

def answers : NodeAnswers where
  getblockheader k := chain.findIdx? (fun hd => hd.blockHash = k)
  getblockhash _ n := chain[n]?.map Header.blockHash
  rawHeader _ k := (chain.find? (fun hd => hd.blockHash = k)).map Header.serialize
  restHeaders k n := some ((headersFrom chain k n).flatMap Header.serialize)

instance : DecidableRel Header.OnTop := fun hd hd' =>
  inferInstanceAs (Decidable (hd'.prevBlockhash = hd.blockHash))

theorem headerChain : HeaderChain world chain :=
  ⟨by decide +kernel,by decide +kernel,fun _ h => h⟩

theorem answers_correct : answers.Correct world where
  getblockhash i n k hk := by
    obtain ⟨hd,hget,hhash⟩ := Option.map_eq_some_iff.mp hk
    exact ⟨chain,hd,headerChain,hget,hhash⟩
  rawHeader i k bytes hk := by
    obtain ⟨hd,hfind,hbytes⟩ := Option.map_eq_some_iff.mp hk
    exact ⟨hd,List.mem_of_find?_eq_some hfind,by simpa using List.find?_some hfind,hbytes.symm⟩
  restHeaders k n bytes hk := ⟨chain,headerChain,(Option.some.inj hk).symm⟩

def sync (s : HeaderSystem) : HeaderSystem :=
  ⟨{ s.dbs with blockHashes := (HeaderSync.step answers false false true s.dbs.blockHashes s.sync).2 },
    (HeaderSync.step answers false false true s.dbs.blockHashes s.sync).1⟩

def synced : HeaderSystem :=
  sync^[6] ⟨.empty,.start ((chain.getLast?.map Header.blockHash).getD allZeros)⟩

theorem run_synced : Relation.ReflTransGen (HeaderSystem.Step handler world) .initial synced := by
  have hrun : ∀ n s, Relation.ReflTransGen (HeaderSystem.Step handler world) s (sync^[n] s) := by
    intro n
    induction n with
    | zero => exact fun s => .refl
    | succ n ih => exact fun s => .head (.sync s answers false false true answers_correct) (ih _)
  exact .head (.start .initial _) (hrun 6 _)

end HeaderSample

open HeaderSample

theorem header_store_invariant_sample :
    synced.dbs.blockHashes.header.toList.length = 3 ∧ synced.dbs.blockHashes.HeadersLinked ∧
    ∃ k hd, synced.dbs.blockHashes.header.get? k = some hd ∧
      synced.dbs.blockHashes.height.get? k = some 2 ∧
      Path synced.dbs.blockHashes.parent? k (synced.dbs.blockHashes.ancestorHeaders k) allZeros := by
  obtain ⟨hlinked,-,hwalk,-⟩ := header_store_invariant run_synced .refl
  have hlast : synced.dbs.blockHashes.header.get? (chain.getLast chain_ne_nil).blockHash =
      some (chain.getLast chain_ne_nil) := by decide +kernel
  exact ⟨by decide +kernel,hlinked,_,_,hlast,by decide +kernel,hwalk _ _ hlast⟩

end Sample

end Bip300301Enforcer
