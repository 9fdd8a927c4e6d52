import Bip300301Enforcer.ChainDiff
import Bip300301Enforcer.SentEvents

/-! What a client knows that asks for the two-way-peg data once and then follows the events.
It always knows what the validator would answer if it were asked again. -/
namespace Bip300301Enforcer
open Lib Chain BlockHandler BlockHashDbs Walk

section EventReplay

variable [Bitcoin] {h : BlockHandler} {V : Chain → Block → Prop} {dbs dbs' dbs₀ : Dbs}
  {c c₀ : Chain} {events : List Event} {view : List TwoWayPegData} {k : BlockHash}

def Dbs.pegData (dbs : Dbs) : Except PegRangeError (List TwoWayPegData) :=
  match dbs.currentChainTip with
  | none => .ok []
  | some tip => dbs.blockHashes.getTwoWayPegDataRange none tip

def clientTip (view : List TwoWayPegData) : BlockHash :=
  (view.head?.map (fun d => d.headerInfo.blockHash)).getD allZeros

/-- A client follows one event, and gives up when the event does not fit what it knows. The
latest block is first. -/
def follow (view : List TwoWayPegData) : Event → Option (List TwoWayPegData)
  | .connectBlock headerInfo blockInfo =>
    if headerInfo.prevBlockHash = clientTip view then some (⟨headerInfo,blockInfo⟩::view) else none
  | .disconnectBlock blockHash =>
    match view with
    | [] => none
    | d::view => if d.headerInfo.blockHash = blockHash then some view else none

theorem Chain.exists_of_mem_headerInfos {m : HeaderInfo} (hm : m ∈ Chain.headerInfos c) :
    ∃ b ∈ c, b.blockHash = m.blockHash := by
  induction c with
  | nil => cases hm
  | cons b c ih =>
    rcases List.mem_cons.mp hm with rfl | hm
    · exact ⟨b,by simp,rfl⟩
    · obtain ⟨b',hb',he⟩ := ih hm
      exact ⟨b',List.mem_cons_of_mem _ hb',he⟩

/-- The data of a chain as it is stored, the latest block first. -/
structure Shows (dbs : Dbs) (c : Chain) (view : List TwoWayPegData) : Prop where
  headers : view.map TwoWayPegData.headerInfo = Chain.headerInfos c
  infos : ∀ d ∈ view, dbs.blockHashes.Has d.headerInfo.blockHash d.blockInfo

theorem Shows.tip (hv : Shows dbs c view) : clientTip view = c.parentHash := by
  cases c with
  | nil =>
    obtain rfl := List.map_eq_nil_iff.mp hv.headers
    rfl
  | cons b c =>
    obtain ⟨d,rest,rfl,hd,-⟩ := List.map_eq_cons_iff.mp hv.headers
    simp [clientTip,hd,headerInfoOf,parentHash_cons]

theorem Shows.data (hv : Shows dbs c view) (hh : dbs.blockHashes.Headers)
    (hl : dbs.blockHashes.Linked c) : dbs.blockHashes.Data (c.map Block.blockHash) view := by
  induction c generalizing view with
  | nil =>
    obtain rfl := List.map_eq_nil_iff.mp hv.headers
    exact .nil
  | cons b c ih =>
    obtain ⟨d,rest,rfl,hd,hrest⟩ := List.map_eq_cons_iff.mp hv.headers
    have hinfo := hv.infos d (List.mem_cons_self ..)
    rw [hd] at hinfo
    refine .cons (tryGetTwoWayPegData_some.mpr ⟨tryGetHeaderInfo_some.mpr ?_,hinfo⟩)
      (ih ⟨hrest,fun d hd => hv.infos d (List.mem_cons_of_mem _ hd)⟩ hl.2.2)
    exact ⟨b.header,c.length,hl.1,rfl,linked_height hh hl,hd⟩

theorem Shows.pegData {stale : Prop} (hv : Shows dbs c view) (hs : Synced h V stale dbs c) :
    dbs.pegData = .ok view.reverse := by
  have hdata := hv.data hs.headers hs.linked
  rw [Dbs.pegData,hs.tip]
  cases c with
  | nil =>
    obtain rfl := List.map_eq_nil_iff.mp hv.headers
    rfl
  | cons b c =>
    have hpath : Path dbs.blockHashes.parent? b.blockHash
        (b.blockHash::c.map Block.blockHash) allZeros := linked_path hs.linked
    exact hs.headers.getTwoWayPegDataRange_ok.mpr
      ⟨c.map Block.blockHash,view,by simpa using hpath,by simp,hdata,rfl⟩

theorem exists_shows (hr : Reach h V False dbs c) : ∃ view, Shows dbs c view := by
  have hinfo : ∀ b ∈ c, ∃ info, dbs.blockHashes.Has b.blockHash info := by
    intro b hb
    obtain ⟨d,hd⟩ := hr.synced.grown.diff_some b hb
    exact hr.has hd
  clear hr
  induction c with
  | nil => exact ⟨[],rfl,by simp⟩
  | cons b c ih =>
    obtain ⟨view,hview⟩ := ih (fun b hb => hinfo b (List.mem_cons_of_mem _ hb))
    obtain ⟨info,hi⟩ := hinfo b (List.mem_cons_self ..)
    refine ⟨⟨headerInfoOf b c.length,info⟩::view,by simp [hview.headers,Chain.headerInfos],?_⟩
    intro d hd
    rcases List.mem_cons.mp hd with rfl | hd
    · exact hi
    · exact hview.infos d hd

theorem Shows.connect {b : Block} {event : Event} (hv : Shows dbs c view)
    (hs : Synced h V False dbs c) (hh : dbs.blockHashes.header.get? b.blockHash = some b.header)
    (hc : h.connectBlock dbs b = .ok (event,dbs')) :
    ∃ view', follow view event = some view' ∧ Shows dbs' (b::c) view' := by
  obtain ⟨n,coinbase,txs,res,hp,he,hrec⟩ := connectBlock_ok.mp hc
  obtain ⟨rfl,ha⟩ := hs.accepted hh hp he
  have hnot := linked_hash_ne hs.headers (hs.linked_cons hh hp)
  obtain ⟨hd,w,-,-,rfl,tip,rfl,-⟩ := recordBlock_ok hrec
  refine ⟨⟨headerInfoOf b c.length,res.blockInfo⟩::view,?_,by simp [hv.headers,Chain.headerInfos],?_⟩
  · exact if_pos (ha.parent.trans hv.tip.symm)
  · intro d hmem
    rcases List.mem_cons.mp hmem with rfl | hmem
    · exact has_recorded
    · refine (has_recorded_ne ?_).mpr (hv.infos d hmem)
      intro he
      apply hnot
      have hheader : d.headerInfo ∈ Chain.headerInfos c := hv.headers ▸ List.mem_map_of_mem hmem
      obtain ⟨b',hb',hinfo⟩ := Chain.exists_of_mem_headerInfos hheader
      have hk : b'.blockHash = b.blockHash := by rw [hinfo]; exact he.symm
      exact hk ▸ List.mem_map_of_mem hb'

/-- Following the events of a run leads from the data before it to the data after it. -/
theorem Sends.shows (hr : Reach h V False dbs₀ c₀) (hs : Sends h V dbs₀ c₀ dbs c events)
    {view₀ : List TwoWayPegData} (hv : Shows dbs₀ c₀ view₀) :
    ∃ view, events.foldlM follow view₀ = some view ∧ Shows dbs c view := by
  induction hs with
  | start => exact ⟨view₀,rfl,hv⟩
  | header sends fits ih =>
    obtain ⟨view,hf,hv⟩ := ih
    exact ⟨view,hf,hv.headers,hv.infos⟩
  | mempool sends ih =>
    obtain ⟨view,hf,hv⟩ := ih
    exact ⟨view,hf,hv.headers,hv.infos⟩
  | connect sends valid header connected ih =>
    obtain ⟨view,hf,hv⟩ := ih
    obtain ⟨view',hstep,hv'⟩ := hv.connect (sends.reach hr).synced header connected
    exact ⟨view',by simp [List.foldlM_append,hf,hstep],hv'⟩
  | @disconnect dbs dbs' c events events' hash sends guard disconnected ih =>
    obtain ⟨view,hf,hv⟩ := ih
    have hsync := (sends.reach hr).synced
    rcases disconnectBlock_ok.mp disconnected with ⟨hnone,rfl,rfl⟩ |
      ⟨d,hd,n,t,hdiff,htip,-,-,-,-,rfl,rfl⟩
    · rw [(FinMap.contains_false_iff _ _).mpr hnone,List.append_nil]
      exact ⟨view,hf,hv⟩
    · rw [(FinMap.contains_iff _ _).mpr ⟨d,hdiff⟩,if_pos rfl]
      cases c with
      | nil => exact absurd (guard hsync.tip) (by simp [hdiff])
      | cons b c =>
        obtain ⟨e,rest,rfl,he,hrest⟩ := List.map_eq_cons_iff.mp hv.headers
        have hhash : e.headerInfo.blockHash = hash := by
          rw [he]
          exact htip _ hsync.tip
        refine ⟨rest,?_,hrest,fun d hd => hv.infos d (List.mem_cons_of_mem _ hd)⟩
        simp [List.foldlM_append,hf,follow,hhash]

/-- A client that asks for the data of the whole chain and then follows the events of any
run, with all its reorganisations, never meets an event that does not fit, and ends with
the data that the validator then answers with. -/
theorem events_replay (hr : Reach h V False dbs₀ c₀) (hs : Sends h V dbs₀ c₀ dbs c events) :
    ∃ before after, dbs₀.pegData = .ok before ∧ dbs.pegData = .ok after ∧
      events.foldlM follow before.reverse = some after.reverse := by
  obtain ⟨view₀,hv₀⟩ := exists_shows hr
  obtain ⟨view,hf,hv⟩ := hs.shows hr hv₀
  refine ⟨view₀.reverse,view.reverse,hv₀.pegData hr.synced,hv.pegData (hs.reach hr).synced,?_⟩
  rw [List.reverse_reverse,List.reverse_reverse]
  exact hf

/-- The calls of a list send some events, one call after another. -/
theorem sends_calls [∀ c b, Decidable (V c b)] (calls : List Call)
    (hstale : ∀ call ∈ calls, call.isStale = false) {s : Dbs × Chain}
    (hs : Sends h V dbs₀ c₀ s.1 s.2 events) : ∃ events', Sends h V dbs₀ c₀
      (calls.foldl (Call.run h V) s).1 (calls.foldl (Call.run h V) s).2 events' := by
  induction calls generalizing s events with
  | nil => exact ⟨events,hs⟩
  | cons call calls ih =>
    obtain ⟨events',hs'⟩ : ∃ events', Sends h V dbs₀ c₀ (call.run h V s).1 (call.run h V s).2 events' := by
      cases call with
      | header hd n =>
        simp only [Call.run]
        split
        · rename_i hf; exact ⟨events,hs.header hf⟩
        · exact ⟨events,hs⟩
      | connect b =>
        simp only [Call.run]
        split
        · rename_i hv
          split
          · rename_i dbs hc; exact ⟨_,hs.connect hv.1 hv.2 hc⟩
          · exact ⟨events,hs⟩
        · exact ⟨events,hs⟩
      | disconnect hash =>
        simp only [Call.run]
        split
        · rename_i hg
          split
          · rename_i dbs hd; exact ⟨_,hs.disconnect hg hd⟩
          · exact ⟨events,hs⟩
        · exact ⟨events,hs⟩
      | staleDisconnect hash c =>
        have hno := hstale _ (List.mem_cons_self ..)
        cases hno
    exact ih (fun call hc => hstale call (List.mem_cons_of_mem _ hc)) hs'

end EventReplay

section Sample

open Sample ForkSample

namespace ReplaySample

def calls : List Call :=
  oldBranch.reverse.map (fun b => .disconnect b.blockHash)++newBranch.map .connect

def reorg : Dbs × Chain := calls.foldl (Call.run handler FreshTxids) run

end ReplaySample

theorem events_replay_sample :
    ∃ (events : List Event) (before after : List TwoWayPegData),
      run.1.pegData = .ok before ∧ ReplaySample.reorg.1.pegData = .ok after ∧
      events.foldlM follow before.reverse = some after.reverse ∧ before.length = 3 ∧
      after.length = 4 := by
  obtain ⟨events,hs⟩ : ∃ events, Sends handler FreshTxids run.1 run.2 ReplaySample.reorg.1
      ReplaySample.reorg.2 events := sends_calls ReplaySample.calls (by decide) .start
  obtain ⟨before,after,hbefore,hafter,hf⟩ := events_replay reach_run hs
  have hlen : run.1.pegData.toOption.map List.length = some 3 := by decide +kernel
  have hlen' : ReplaySample.reorg.1.pegData.toOption.map List.length = some 4 := by decide +kernel
  rw [hbefore] at hlen
  rw [hafter] at hlen'
  exact ⟨events,before,after,hbefore,hafter,hf,Option.some.inj hlen,Option.some.inj hlen'⟩

end Sample
end Bip300301Enforcer
