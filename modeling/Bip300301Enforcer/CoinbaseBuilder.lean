import Bip300301Enforcer.CoinbaseScan
import Bip300301Enforcer.MessageEncoding

/-! Building the messages of a coinbase, and that they are read back from its outputs. -/
namespace Bip300301Enforcer
open Lib

namespace CoinbaseMessages

def m2AckSlotVout (c : CoinbaseMessages) (slot : SidechainNumber) : Option ℕ :=
  c.m2AckSlotToIndex.get? slot

def m2AckSlots (c : CoinbaseMessages) : List SidechainNumber := c.m2AckSlotToIndex.keys

def m3Exists (c : CoinbaseMessages) : Bool := c.m3Index.isSome

/-- Read one output. An output that is no message is skipped. -/
def readOutput [Bitcoin] (c : CoinbaseMessages) (e : TxOut × ℕ) :
    Except CoinbaseMessagesError CoinbaseMessages :=
  match CoinbaseMessage.parse e.1.scriptPubkey with
  | none => .ok c
  | some msg => c.push msg e.2

def new [Bitcoin] (coinbaseTxouts : List TxOut) : Except CoinbaseMessagesError CoinbaseMessages :=
  coinbaseTxouts.zipIdx.foldlM readOutput default

end CoinbaseMessages

/-- Coinbase outputs, and their messages with those that are to be added. -/
structure CoinbaseBuilder where
  coinbaseTxouts : List TxOut
  messages : CoinbaseMessages

namespace CoinbaseBuilder

section Build

variable [Bitcoin]

def new (coinbaseTxouts : List TxOut) : Except CoinbaseMessagesError CoinbaseBuilder :=
  (CoinbaseMessages.new coinbaseTxouts).map (fun messages => ⟨coinbaseTxouts,messages⟩)

/-- The new outputs: those of the messages that come after the old outputs. -/
def buildExtension (b : CoinbaseBuilder) : Except PushBytesError (List TxOut) :=
  (b.messages.messages.dropWhile (fun e => e.2 < b.coinbaseTxouts.length)).mapM
    (fun e => e.1.tryIntoScript.map (fun scriptPubkey => ⟨0,scriptPubkey⟩))

def build (b : CoinbaseBuilder) : Except PushBytesError (List TxOut) :=
  b.buildExtension.map (fun extension => b.coinbaseTxouts++extension)

end Build

def nextVoutIndex (b : CoinbaseBuilder) : ℕ :=
  match b.messages.messages.getLast? with
  | some (_,vout) => max b.coinbaseTxouts.length (vout+1)
  | none => b.coinbaseTxouts.length

def push (b : CoinbaseBuilder) (msg : CoinbaseMessage) :
    Except CoinbaseMessagesError CoinbaseBuilder :=
  (b.messages.push msg b.nextVoutIndex).map (fun messages => { b with messages })

def proposeSidechain (b : CoinbaseBuilder) (proposal : SidechainProposal) :
    Except CoinbaseMessagesError CoinbaseBuilder :=
  b.push (.m1ProposeSidechain proposal.sidechainNumber proposal.description)

def ackSidechain (b : CoinbaseBuilder) (s : SidechainNumber) (descriptionHash : DescriptionHash) :
    Except CoinbaseMessagesError CoinbaseBuilder :=
  b.push (.m2AckSidechain s descriptionHash)

def proposeBundle (b : CoinbaseBuilder) (s : SidechainNumber) (m6id : M6id) :
    Except CoinbaseMessagesError CoinbaseBuilder :=
  b.push (.m3ProposeBundle s m6id)

def ackBundles (b : CoinbaseBuilder) (m4 : M4AckBundles) :
    Except CoinbaseMessagesError CoinbaseBuilder :=
  b.push (.m4AckBundles m4)

def bmmAccept (b : CoinbaseBuilder) (s : SidechainNumber) (commitment : BmmCommitment) :
    Except CoinbaseMessagesError CoinbaseBuilder :=
  b.push (.m7BmmAccept s commitment)

end CoinbaseBuilder

namespace CoinbaseMessages

theorem push_messages {c c' : CoinbaseMessages} {msg : CoinbaseMessage} {vout : ℕ}
    (hp : c.push msg vout = .ok c') : c'.messages = c.messages++[(msg,vout)] := by
  unfold push at hp
  cases msg with
  | _ =>
    simp only at hp
    split at hp
    · cases hp
    · obtain rfl := Except.ok.inj hp
      rfl

theorem filterMap_push {α : Type} (f : CoinbaseMessage → Option α) {c c' : CoinbaseMessages}
    {msg : CoinbaseMessage} {vout : ℕ} (hp : c.push msg vout = .ok c') :
    (c'.messages.map Prod.fst).filterMap f =
      (c.messages.map Prod.fst).filterMap f++(f msg).toList := by
  rw [push_messages hp,List.map_append,List.filterMap_append]
  cases hf : f msg with
  | none => simp [hf]
  | some a => simp [hf]

def pushAll (c : CoinbaseMessages) (l : List (CoinbaseMessage × ℕ)) :
    Except CoinbaseMessagesError CoinbaseMessages :=
  l.foldlM (fun c e => c.push e.1 e.2) c

theorem pushAll_append {c c' c'' : CoinbaseMessages} {l : List (CoinbaseMessage × ℕ)}
    {e : CoinbaseMessage × ℕ} (hl : c.pushAll l = .ok c') (he : c'.push e.1 e.2 = .ok c'') :
    c.pushAll (l++[e]) = .ok c'' := by
  unfold pushAll at hl ⊢
  rw [List.foldlM_append,hl,Fallible.ok_bind,List.foldlM_cons,he]
  rfl

theorem pushAll_messages {c c' : CoinbaseMessages} {l : List (CoinbaseMessage × ℕ)}
    (hl : c.pushAll l = .ok c') : c'.messages = c.messages++l := by
  refine Fallible.foldlM_prefix (fun done acc => acc.messages = c.messages++done) hl
    (List.append_nil _).symm ?_
  intro done e rest acc acc' _ hI hstep
  rw [push_messages hstep,hI,List.append_assoc]

/-- The message of an output, with the output's position. -/
def readMessage [Bitcoin] (e : TxOut × ℕ) : Option (CoinbaseMessage × ℕ) :=
  (CoinbaseMessage.parse e.1.scriptPubkey).map (fun msg => (msg,e.2))

theorem readOutput_pushAll [Bitcoin] (c : CoinbaseMessages) (l : List (TxOut × ℕ)) :
    l.foldlM readOutput c = c.pushAll (l.filterMap readMessage) := by
  induction l generalizing c with
  | nil => rfl
  | cons e l ih =>
    rw [List.foldlM_cons,List.filterMap_cons,readOutput,readMessage]
    cases CoinbaseMessage.parse e.1.scriptPubkey with
    | none => exact ih c
    | some msg =>
      simp only [Option.map_some,pushAll,List.foldlM_cons]
      cases c.push msg e.2 with
      | error err => rfl
      | ok c' => exact ih c'

end CoinbaseMessages

namespace CoinbaseBuilder

/-- The messages of the outputs that the builder starts with are among these outputs. -/
def Old (b : CoinbaseBuilder) : Prop := ∀ e ∈ b.messages.messages, e.2 < b.coinbaseTxouts.length

/-- The builder was given these messages, as outputs after the ones it started with. -/
structure Added (b₀ b : CoinbaseBuilder) (msgs : List CoinbaseMessage) : Prop where
  txouts : b.coinbaseTxouts = b₀.coinbaseTxouts
  pushed : b₀.messages.pushAll (msgs.zipIdx b₀.coinbaseTxouts.length) = .ok b.messages

section Added

variable {b₀ b b' : CoinbaseBuilder} {msgs : List CoinbaseMessage}

theorem added_nil (b : CoinbaseBuilder) : Added b b [] := ⟨rfl,rfl⟩

theorem Added.messages (hb : Added b₀ b msgs) :
    b.messages.messages = b₀.messages.messages++msgs.zipIdx b₀.coinbaseTxouts.length :=
  CoinbaseMessages.pushAll_messages hb.pushed

theorem Added.nextVoutIndex_eq (hold : b₀.Old) (hb : Added b₀ b msgs) :
    b.nextVoutIndex = b₀.coinbaseTxouts.length+msgs.length := by
  unfold nextVoutIndex
  rw [hb.messages,hb.txouts]
  rcases List.eq_nil_or_concat msgs with rfl | ⟨l,msg,rfl⟩
  · rw [List.zipIdx_nil,List.append_nil,List.length_nil,Nat.add_zero]
    cases hlast : b₀.messages.messages.getLast? with
    | none => rfl
    | some e => exact Nat.max_eq_left (hold e (List.mem_of_getLast? hlast))
  · rw [List.concat_eq_append,List.zipIdx_append,List.zipIdx_singleton,← List.append_assoc,
      List.getLast?_append]
    simp only [List.getLast?_singleton,Option.some_or,List.length_append,List.length_singleton]
    omega

theorem Added.push {msg : CoinbaseMessage} (hold : b₀.Old) (hb : Added b₀ b msgs)
    (hp : b.push msg = .ok b') : Added b₀ b' (msgs++[msg]) := by
  unfold CoinbaseBuilder.push at hp
  rw [hb.nextVoutIndex_eq hold] at hp
  cases hm : b.messages.push msg (b₀.coinbaseTxouts.length+msgs.length) with
  | error e => rw [hm] at hp; cases hp
  | ok messages =>
    rw [hm] at hp
    obtain rfl := Except.ok.inj hp
    refine ⟨hb.txouts,?_⟩
    rw [List.zipIdx_append,List.zipIdx_singleton]
    exact CoinbaseMessages.pushAll_append hb.pushed hm

theorem Added.dropWhile_eq (hold : b₀.Old) (hb : Added b₀ b msgs) :
    b.messages.messages.dropWhile (fun e => e.2 < b.coinbaseTxouts.length) =
      msgs.zipIdx b₀.coinbaseTxouts.length := by
  rw [hb.messages,hb.txouts,List.dropWhile_append_of_pos (fun e he => decide_eq_true (hold e he))]
  cases msgs with
  | nil => rfl
  | cons msg msgs => simp [List.zipIdx_cons]

variable [Bitcoin]

theorem messages_of_new {outs : List TxOut} (hn : new outs = .ok b) :
    CoinbaseMessages.new outs = .ok b.messages := by
  rw [new] at hn
  cases hm : CoinbaseMessages.new outs with
  | error e => rw [hm] at hn; cases hn
  | ok messages =>
    rw [hm] at hn
    obtain rfl := Except.ok.inj hn
    rfl

theorem old_new {outs : List TxOut} (hn : new outs = .ok b) : b.Old ∧ b.coinbaseTxouts = outs := by
  have hm := messages_of_new hn
  have htxouts : b.coinbaseTxouts = outs := by
    rw [new,hm] at hn
    exact (congrArg coinbaseTxouts (Except.ok.inj hn)).symm
  rw [CoinbaseMessages.new,CoinbaseMessages.readOutput_pushAll] at hm
  refine ⟨fun e he => ?_,htxouts⟩
  rw [CoinbaseMessages.pushAll_messages hm] at he
  rw [htxouts]
  obtain ⟨⟨out,vout⟩,hout,hread⟩ := List.mem_filterMap.mp he
  obtain ⟨msg,-,rfl⟩ := Option.map_eq_some_iff.mp hread
  exact List.snd_lt_of_mem_zipIdx hout

end Added

/-- The builder holds these messages, as outputs after the given ones. -/
structure Built (outs : List TxOut) (b : CoinbaseBuilder) (msgs : List CoinbaseMessage) : Prop where
  txouts : b.coinbaseTxouts = outs
  pushed : CoinbaseMessages.default.pushAll (msgs.zipIdx outs.length) = .ok b.messages

variable {outs outs' : List TxOut} {b b' : CoinbaseBuilder} {msgs : List CoinbaseMessage}

theorem Built.messages (hb : Built outs b msgs) : b.messages.messages = msgs.zipIdx outs.length :=
  CoinbaseMessages.pushAll_messages hb.pushed

theorem Built.indexed (hb : Built outs b msgs) : b.messages.Pushed msgs := by
  have hspec := Fallible.foldlM_prefix
    (fun done acc => CoinbaseMessages.Pushed acc (done.map Prod.fst)) hb.pushed
    ⟨rfl,by simp,rfl,rfl⟩ ?_
  · rwa [List.zipIdx_map_fst] at hspec
  · intro done e rest acc acc' _ hI hstep
    rw [List.map_append,List.map_singleton]
    exact CoinbaseMessages.pushed_push hI hstep

theorem Built.added (hb : Built outs b msgs) : Added ⟨outs,.default⟩ b msgs := ⟨hb.txouts,hb.pushed⟩

theorem old_default : Old ⟨outs,.default⟩ := by
  intro e he
  cases he

theorem Built.push {msg : CoinbaseMessage} (hb : Built outs b msgs) (hp : b.push msg = .ok b') :
    Built outs b' (msgs++[msg]) := by
  have hadd := hb.added.push old_default hp
  exact ⟨hadd.txouts,hadd.pushed⟩

section Read

variable [Bitcoin]

theorem built_new (hnone : ∀ out ∈ outs, CoinbaseMessage.parse out.scriptPubkey = none)
    (hn : new outs = .ok b) : Built outs b [] := by
  have hskip : CoinbaseMessages.new outs = .ok .default := by
    have hread : outs.zipIdx.filterMap CoinbaseMessages.readMessage = [] := by
      refine List.filterMap_eq_nil_iff.mpr (fun e he => ?_)
      rw [CoinbaseMessages.readMessage,hnone e.1 (List.fst_mem_of_mem_zipIdx he)]
      rfl
    rw [CoinbaseMessages.new,CoinbaseMessages.readOutput_pushAll,hread]
    rfl
  rw [new,hskip] at hn
  obtain rfl := Except.ok.inj hn
  exact ⟨rfl,rfl⟩

def Reads (out : TxOut) (msg : CoinbaseMessage) : Prop :=
  CoinbaseMessage.parse out.scriptPubkey = some msg

/-- The outputs that are made for messages are worth nothing and are read as these. -/
theorem reads_of_mapM (hpush : ∀ data : List UInt8, data.length < 2^32 →
      instructions (newOpReturn data) = [some (.op opReturn),some (.pushBytes data)])
    {l : List (CoinbaseMessage × ℕ)} {exts : List TxOut}
    (hl : l.mapM (fun e => e.1.tryIntoScript.map (fun s => (⟨0,s⟩ : TxOut))) = .ok exts) :
    List.Forall₂ (fun out msg => Reads out msg ∧ out.value = 0) exts (l.map Prod.fst) := by
  induction l generalizing exts with
  | nil =>
    obtain rfl := Except.ok.inj hl
    exact .nil
  | cons e l ih =>
    rw [List.mapM_cons] at hl
    obtain ⟨out,hout,hl⟩ := Fallible.bind_ok.mp hl
    obtain ⟨exts',hexts',hl⟩ := Fallible.bind_ok.mp hl
    rw [Fallible.pure_ok] at hl
    subst hl
    refine .cons ?_ (ih hexts')
    unfold CoinbaseMessage.tryIntoScript pushBytes at hout
    split at hout
    · rename_i hlen
      obtain rfl := Except.ok.inj hout
      refine ⟨?_,rfl⟩
      rw [Reads,CoinbaseMessage.parse_eq]
      simp only [CoinbaseMessage.parseInput,hpush _ hlen,if_true,
        CoinbaseMessage.parseDataInput_data]
      rfl
    · cases hout

theorem Added.build_ok (hpush : ∀ data : List UInt8, data.length < 2^32 →
      instructions (newOpReturn data) = [some (.op opReturn),some (.pushBytes data)])
    {b₀ : CoinbaseBuilder} (hold : b₀.Old) (hb : Added b₀ b msgs) (hbuild : b.build = .ok outs') :
    ∃ exts, outs' = b₀.coinbaseTxouts++exts ∧
      List.Forall₂ (fun out msg => Reads out msg ∧ out.value = 0) exts msgs := by
  unfold build buildExtension at hbuild
  rw [hb.dropWhile_eq hold] at hbuild
  cases hexts : (msgs.zipIdx b₀.coinbaseTxouts.length).mapM
      (fun e => e.1.tryIntoScript.map (fun s => (⟨0,s⟩ : TxOut))) with
  | error e => rw [hexts] at hbuild; cases hbuild
  | ok exts =>
    rw [hexts] at hbuild
    obtain rfl := Except.ok.inj hbuild
    refine ⟨exts,by rw [hb.txouts],?_⟩
    have hread := reads_of_mapM hpush hexts
    rwa [List.zipIdx_map_fst] at hread

theorem Built.build_ok (hpush : ∀ data : List UInt8, data.length < 2^32 →
      instructions (newOpReturn data) = [some (.op opReturn),some (.pushBytes data)])
    (hb : Built outs b msgs) (hbuild : b.build = .ok outs') :
    ∃ exts, outs' = outs++exts ∧ List.Forall₂ Reads exts msgs := by
  obtain ⟨exts,hout,hread⟩ := hb.added.build_ok hpush old_default hbuild
  exact ⟨exts,hout,hread.imp (fun _ _ h => h.1)⟩

end Read

end CoinbaseBuilder

namespace BlockHandler

variable [Bitcoin] {outs exts : List TxOut} {msgs : List CoinbaseMessage} {c c' : CoinbaseMessages}

theorem scanOutput_skip {acc : CoinbaseScan} {l : List (TxOut × ℕ)}
    (hl : ∀ e ∈ l, CoinbaseMessage.parse e.1.scriptPubkey = none) :
    l.foldlM scanOutput acc = .ok acc := by
  induction l with
  | nil => rfl
  | cons e l ih =>
    rw [List.foldlM_cons,scanOutput,hl e (List.mem_cons_self ..),Fallible.ok_bind]
    exact ih (fun e' he' => hl e' (List.mem_cons_of_mem _ he'))

theorem scanOutput_reads (hread : List.Forall₂ CoinbaseBuilder.Reads exts msgs) (n : ℕ)
    (proposals : FinMap SidechainProposalId ℕ) (hpush : c.pushAll (msgs.zipIdx n) = .ok c') :
    ∃ scan, (exts.zipIdx n).foldlM scanOutput ⟨c,proposals⟩ = .ok scan ∧ scan.messages = c' := by
  induction hread generalizing n c proposals with
  | nil =>
    obtain rfl := Except.ok.inj hpush
    exact ⟨_,rfl,rfl⟩
  | @cons out msg exts msgs hout _ ih =>
    rw [List.zipIdx_cons,CoinbaseMessages.pushAll,List.foldlM_cons] at hpush
    obtain ⟨c₁,h₁,hpush⟩ := Fallible.bind_ok.mp hpush
    rw [List.zipIdx_cons,List.foldlM_cons]
    simp only [scanOutput,show CoinbaseMessage.parse out.scriptPubkey = some msg from hout,h₁,
      Except.mapError,Fallible.ok_bind]
    exact ih (n+1) _ hpush

theorem scanCoinbase_built {b : CoinbaseBuilder} {coinbase : Transaction}
    (hnone : ∀ out ∈ outs, CoinbaseMessage.parse out.scriptPubkey = none)
    (hb : CoinbaseBuilder.Built outs b msgs) (hread : List.Forall₂ CoinbaseBuilder.Reads exts msgs)
    (hout : coinbase.output = outs++exts) :
    ∃ scan, scanCoinbase coinbase = .ok scan ∧ scan.messages = b.messages ∧
      coinbase.messages = msgs := by
  have hskip : outs.zipIdx.foldlM scanOutput ⟨.default,.empty⟩ = .ok ⟨.default,.empty⟩ :=
    scanOutput_skip (fun e he => hnone e.1 (List.fst_mem_of_mem_zipIdx he))
  obtain ⟨scan,hscan,hmsgs⟩ := scanOutput_reads hread outs.length .empty hb.pushed
  have hall : scanCoinbase coinbase = .ok scan := by
    rw [scanCoinbase,hout,List.zipIdx_append,List.foldlM_append,hskip,Fallible.ok_bind,Nat.zero_add]
    exact hscan
  refine ⟨scan,hall,hmsgs,?_⟩
  rw [← (scanCoinbase_ok hall).1,hmsgs,hb.messages,List.zipIdx_map_fst]

end BlockHandler

end Bip300301Enforcer
