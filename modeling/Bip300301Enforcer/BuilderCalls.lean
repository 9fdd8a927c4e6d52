import Bip300301Enforcer.CoinbaseBuilder

/-! Any calls of the coinbase builder, and that what it builds is read back. -/
namespace Bip300301Enforcer
open Lib

namespace CoinbaseMessages

/-- Add a message, as the method does it on the messages it was called on. -/
def pushMut (c : CoinbaseMessages) (msg : CoinbaseMessage) (vout : ℕ) :
    Except CoinbaseMessagesError Unit × CoinbaseMessages :=
  let pushed (c : CoinbaseMessages) : Except CoinbaseMessagesError Unit × CoinbaseMessages :=
    (.ok (),{ c with messages := c.messages++[(msg,vout)] })
  match msg with
  | .m1ProposeSidechain _ _ =>
    match c.m1Index with
    | some firstIndex => (.error (.multipleM1 firstIndex),c)
    | none => pushed { c with m1Index := some vout }
  | .m2AckSidechain s _ =>
    match c.m2AckSlotToIndex.get? s with
    | some index => (.error (.duplicateM2 index s),c)
    | none => pushed { c with m2AckSlotToIndex := c.m2AckSlotToIndex.insert s vout }
  | .m4AckBundles _ =>
    match c.m4Index with
    | some index => (.error (.duplicateM4 index),c)
    | none => pushed { c with m4Index := some vout }
  | .m7BmmAccept s commitment =>
    match c.m7SlotToCommitmentIndex.get? s with
    | some (_,index) => (.error (.duplicateM7 index s),c)
    | none =>
      pushed { c with
        m7SlotToCommitmentIndex := c.m7SlotToCommitmentIndex.insert s (commitment,vout) }
  | .m3ProposeBundle _ _ =>
    match c.m3Index with
    | some index => (.error (.multipleM3 index),c)
    | none => pushed { c with m3Index := some vout }

theorem pushMut_eq (c : CoinbaseMessages) (msg : CoinbaseMessage) (vout : ℕ) :
    c.pushMut msg vout =
      match c.push msg vout with
      | .error e => (.error e,c)
      | .ok c' => (.ok (),c') := by
  cases msg with
  | m1ProposeSidechain s description =>
    simp only [pushMut,push]
    cases c.m1Index <;> rfl
  | m2AckSidechain s descriptionHash =>
    simp only [pushMut,push]
    cases c.m2AckSlotToIndex.get? s <;> rfl
  | m3ProposeBundle s m6id =>
    simp only [pushMut,push]
    cases c.m3Index <;> rfl
  | m4AckBundles m4 =>
    simp only [pushMut,push]
    cases c.m4Index <;> rfl
  | m7BmmAccept s commitment =>
    simp only [pushMut,push]
    cases c.m7SlotToCommitmentIndex.get? s <;> rfl

end CoinbaseMessages

inductive BuilderCall where
  | proposeSidechain (proposal : SidechainProposal)
  | ackSidechain (s : SidechainNumber) (descriptionHash : DescriptionHash)
  | proposeBundle (s : SidechainNumber) (m6id : M6id)
  | ackBundles (m4 : M4AckBundles)
  | bmmAccept (s : SidechainNumber) (commitment : BmmCommitment)

namespace BuilderCall

def message : BuilderCall → CoinbaseMessage
  | proposeSidechain proposal => .m1ProposeSidechain proposal.sidechainNumber proposal.description
  | ackSidechain s descriptionHash => .m2AckSidechain s descriptionHash
  | proposeBundle s m6id => .m3ProposeBundle s m6id
  | ackBundles m4 => .m4AckBundles m4
  | bmmAccept s commitment => .m7BmmAccept s commitment

def run (call : BuilderCall) (b : CoinbaseBuilder) :
    Except CoinbaseMessagesError Unit × CoinbaseBuilder :=
  let (res,messages) := b.messages.pushMut call.message b.nextVoutIndex
  (res,{ b with messages })

def runAll (b : CoinbaseBuilder) (calls : List BuilderCall) : CoinbaseBuilder :=
  calls.foldl (fun b call => (call.run b).2) b

/-- The messages of the calls that did not fail. -/
def accepted : CoinbaseBuilder → List BuilderCall → List CoinbaseMessage
  | _, [] => []
  | b, call::calls =>
    match (call.run b).1 with
    | .error _ => accepted (call.run b).2 calls
    | .ok _ => call.message::accepted (call.run b).2 calls

variable {b₀ b : CoinbaseBuilder} {msgs : List CoinbaseMessage}

theorem run_error {call : BuilderCall} {e : CoinbaseMessagesError} (h : (call.run b).1 = .error e) :
    (call.run b).2 = b := by
  unfold run at h ⊢
  rw [CoinbaseMessages.pushMut_eq] at h ⊢
  cases hp : b.messages.push call.message b.nextVoutIndex with
  | error e => rfl
  | ok c => rw [hp] at h; cases h

theorem run_ok {call : BuilderCall} (h : (call.run b).1 = .ok ()) :
    b.push call.message = .ok (call.run b).2 := by
  unfold run at h ⊢
  rw [CoinbaseMessages.pushMut_eq] at h ⊢
  rw [CoinbaseBuilder.push]
  cases hp : b.messages.push call.message b.nextVoutIndex with
  | error e => rw [hp] at h; cases h
  | ok c => rfl

theorem added_runAll (hold : b₀.Old) (hb : b₀.Added b msgs) (calls : List BuilderCall) :
    b₀.Added (runAll b calls) (msgs++accepted b calls) := by
  induction calls generalizing b msgs with
  | nil => rwa [accepted,List.append_nil]
  | cons call calls ih =>
    rw [runAll,List.foldl_cons,accepted]
    cases hres : (call.run b).1 with
    | error e =>
      rw [run_error hres]
      exact ih hb
    | ok _ =>
      have hstep := ih (hb.push hold (run_ok hres))
      rwa [List.append_assoc,List.singleton_append] at hstep

end BuilderCall

namespace CoinbaseBuilder

section Read

variable [Bitcoin] {b₀ b : CoinbaseBuilder} {msgs : List CoinbaseMessage} {outs exts : List TxOut}

theorem readMessage_zipIdx (hread : List.Forall₂ Reads exts msgs) (n : ℕ) :
    (exts.zipIdx n).filterMap CoinbaseMessages.readMessage = msgs.zipIdx n := by
  induction hread generalizing n with
  | nil => rfl
  | @cons out msg exts msgs hout _ ih =>
    have hmsg : CoinbaseMessages.readMessage (out,n) = some (msg,n) := by
      rw [CoinbaseMessages.readMessage,show CoinbaseMessage.parse out.scriptPubkey = some msg from hout]
      rfl
    rw [List.zipIdx_cons,List.zipIdx_cons,List.filterMap_cons,hmsg,ih]

theorem Added.reads (hn : new outs = .ok b₀) (hb : b₀.Added b msgs)
    (hread : List.Forall₂ Reads exts msgs) : CoinbaseMessages.new (outs++exts) = .ok b.messages := by
  have hold := messages_of_new hn
  obtain ⟨-,htxouts⟩ := old_new hn
  have hpushed := hb.pushed
  rw [htxouts] at hpushed
  rw [CoinbaseMessages.new] at hold ⊢
  rw [List.zipIdx_append,List.foldlM_append,hold,Fallible.ok_bind,CoinbaseMessages.readOutput_pushAll,
    Nat.zero_add,readMessage_zipIdx hread]
  exact hpushed

/-- After any calls, some of which may fail, the built outputs are the old ones and one worthless
output for each message that was accepted, and they are read as the builder's messages, each at
the output that the builder predicted. A failed call changes nothing. -/
theorem runAll_build (hpush : ∀ data : List UInt8, data.length < 2^32 →
      instructions (newOpReturn data) = [some (.op opReturn),some (.pushBytes data)])
    (hn : new outs = .ok b₀) (calls : List BuilderCall) :
    (∀ (call : BuilderCall) (b : CoinbaseBuilder) e, (call.run b).1 = .error e → (call.run b).2 = b) ∧
      ∀ outs', (BuilderCall.runAll b₀ calls).build = .ok outs' →
        ∃ exts, outs' = outs++exts ∧
          List.Forall₂ (fun out msg => Reads out msg ∧ out.value = 0) exts
            (BuilderCall.accepted b₀ calls) ∧
          CoinbaseMessages.new outs' = .ok (BuilderCall.runAll b₀ calls).messages ∧
          (BuilderCall.runAll b₀ calls).messages.messages =
            b₀.messages.messages++(BuilderCall.accepted b₀ calls).zipIdx outs.length := by
  obtain ⟨hold,htxouts⟩ := old_new hn
  have hadd : b₀.Added (BuilderCall.runAll b₀ calls) (BuilderCall.accepted b₀ calls) :=
    BuilderCall.added_runAll hold (added_nil b₀) calls
  refine ⟨fun call b e he => BuilderCall.run_error he,fun outs' hbuild => ?_⟩
  obtain ⟨exts,rfl,hread⟩ := hadd.build_ok hpush hold hbuild
  rw [htxouts]
  refine ⟨exts,rfl,hread,hadd.reads hn (hread.imp (fun _ _ h => h.1)),?_⟩
  rw [hadd.messages,htxouts]

end Read

section Sample

open Sample

def sampleOutputs : List TxOut := [⟨50,[0x51]⟩,⟨0,newOpReturn (CoinbaseMessage.m2AckSidechain 1 7).data⟩]

def sampleCalls : List BuilderCall := [.ackSidechain 1 8,.bmmAccept 3 9,.ackBundles .repeatPrevious]

theorem runAll_build_sample :
    ∃ b₀ outs', new sampleOutputs = .ok b₀ ∧ (BuilderCall.runAll b₀ sampleCalls).build = .ok outs' ∧
      CoinbaseMessages.new outs' = .ok (BuilderCall.runAll b₀ sampleCalls).messages ∧
      (BuilderCall.runAll b₀ sampleCalls).messages.messages =
        [(.m2AckSidechain 1 7,1),(.m7BmmAccept 3 9,2),(.m4AckBundles .repeatPrevious,3)] := by
  obtain ⟨b₀,hn⟩ : ∃ b₀, new sampleOutputs = .ok b₀ := Fallible.exists_of_isOk (by decide +kernel)
  have hrun : (new sampleOutputs).toOption.map (fun b =>
      ((BuilderCall.runAll b sampleCalls).build.isOk,
        (BuilderCall.runAll b sampleCalls).messages.messages)) = some (true,
      [(.m2AckSidechain 1 7,1),(.m7BmmAccept 3 9,2),(.m4AckBundles .repeatPrevious,3)]) := by
    decide +kernel
  rw [hn] at hrun
  obtain ⟨hok,hmsgs⟩ := Prod.mk.inj (Option.some.inj hrun)
  obtain ⟨outs',hbuild⟩ := Fallible.exists_of_isOk hok
  obtain ⟨-,hall⟩ := runAll_build (fun _ hdata => Script.instructions_newOpReturn_all hdata) hn sampleCalls
  obtain ⟨exts,-,-,hreads,-⟩ := hall outs' hbuild
  exact ⟨b₀,outs',hn,hbuild,hreads,hmsgs⟩

end Sample

end CoinbaseBuilder
end Bip300301Enforcer
