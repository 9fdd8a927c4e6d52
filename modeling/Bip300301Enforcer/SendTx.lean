import Bip300301Enforcer.Types
import Bip300301Enforcer.Lib.Bytes
import Bip300301Enforcer.Lib.SliceReader

/-! Sending a transaction to a node over the P2P protocol: the handshake, the announcement and
the transaction once the node asks for it. -/
namespace Bip300301Enforcer
open Lib Bytes Fallible

namespace SendTx

inductive ExchangeState
  | awaitingVersion
  | awaitingVerack
  | awaitingGetData
  | done
deriving DecidableEq

/-- What a node says about itself, as far as it is looked at. -/
structure VersionMessage where
  relay : Bool
  witness : Bool
deriving DecidableEq

inductive Inventory
  | transaction (txid : Txid)
  | witnessTransaction (txid : Txid)
  | other
deriving DecidableEq

/-- The messages that the exchange acts on. -/
inductive Message
  | version (version : VersionMessage)
  | verack
  | getData (inv : List Inventory)
  | ping (nonce : UInt64)
  | pong (nonce : UInt64)
  | other (command : List UInt8)
deriving DecidableEq

/-- The messages that are written. -/
inductive NetworkMessage
  | version
  | verack
  | inv (inv : List Inventory)
  | tx (tx : Transaction)
  | ping (nonce : UInt64)
  | pong (nonce : UInt64)
deriving DecidableEq

inductive ProtocolError
  | magic (messageMagic : List UInt8)
  | invalidCommand (bytes : List UInt8)
  | payloadTooLong (command : List UInt8) (payloadLen : ℕ)
  | badChecksum (command : List UInt8)
  | decode (command : List UInt8)
  | outOfOrder (what : String) (state : ExchangeState)
  | noRelay
  | noSegwit
  | notRequested (txid : Txid)
deriving DecidableEq

inductive Error
  | io
  | protocol (err : ProtocolError)
  | timeout
deriving DecidableEq

/-- The state of an exchange and all that it has written. -/
structure Exchange where
  state : ExchangeState
  sent : List NetworkMessage
deriving DecidableEq

/-- A node as one connection meets it: whether it accepts the connection, how many writes it
takes before it closes, what the reads give one after the other, and the random nonce of the
connection. Reads that never end let the timeout end the exchange. -/
structure Peer where
  connected : Except Error Unit
  writes : ℕ
  incoming : List (Except Error Message)
  nonce : UInt64

/-- What is answered to a message that may come at any time. -/
def Message.reply : Message → Option (List NetworkMessage)
  | .ping nonce => some [.pong nonce]
  | .pong _ => some []
  | .other _ => some []
  | _ => none

namespace Exchange

def send (writes : ℕ) (e : Exchange) (message : NetworkMessage) : Except Error Exchange :=
  if e.sent.length < writes then .ok { e with sent := e.sent++[message] } else .error .io

def outOfOrder (e : Exchange) (what : String) : Error := .protocol (.outOfOrder what e.state)

variable [Bitcoin] (writes : ℕ) (transaction : Transaction)

def handle (e : Exchange) : Message → Except Error Exchange
  | .version version => do
    let _ ← ensure (e.state = .awaitingVersion) (e.outOfOrder "version")
    let _ ← ensure version.relay (.protocol .noRelay)
    let _ ← ensure version.witness (.protocol .noSegwit)
    let e ← e.send writes .verack
    return { e with state := .awaitingVerack }
  | .verack => do
    let _ ← ensure (e.state = .awaitingVerack) (e.outOfOrder "verack")
    let e ← e.send writes (.inv [.transaction transaction.computeTxid])
    return { e with state := .awaitingGetData }
  | .getData inv => do
    let _ ← ensure (e.state = .awaitingGetData) (e.outOfOrder "getdata")
    let txid := transaction.computeTxid
    let requested := inv.contains (.transaction txid) || inv.contains (.witnessTransaction txid)
    let _ ← ensure requested (.protocol (.notRequested txid))
    let e ← e.send writes (.tx transaction)
    return { e with state := .done }
  | .ping nonce => e.send writes (.pong nonce)
  | .pong _ => .ok e
  | .other _ => .ok e

/-- Read and handle messages until the transaction is sent. The rest of the reads is left. -/
def loop (e : Exchange) :
    List (Except Error Message) → Except Error (List (Except Error Message)) × Exchange
  | [] => (if e.state = .done then .ok [] else .error .timeout,e)
  | read::l =>
    if e.state = .done then (.ok (read::l),e)
    else
      match read with
      | .error err => (.error err,e)
      | .ok message =>
        match e.handle writes transaction message with
        | .error err => (.error err,e)
        | .ok e' => loop e' l

/-- Read and handle messages until the node answers the last ping. -/
def awaitLoop (nonce : UInt64) (e : Exchange) :
    List (Except Error Message) → Except Error Unit × Exchange
  | [] => (.error .timeout,e)
  | .error err::_ => (.error err,e)
  | .ok message::l =>
    if message = .pong nonce then (.ok (),e)
    else
      match e.handle writes transaction message with
      | .error err => (.error err,e)
      | .ok e' => awaitLoop nonce e' l

end Exchange

section Send

variable [Bitcoin]

/-- Handshake, announce the transaction, and send it once requested. -/
def exchange (peer : Peer) (transaction : Transaction) :
    Except Error (List (Except Error Message)) × Exchange :=
  let start : Exchange := ⟨.awaitingVersion,[]⟩
  match start.send peer.writes .version with
  | .error err => (.error err,start)
  | .ok e => e.loop peer.writes transaction peer.incoming

def awaitProcessed (peer : Peer) (transaction : Transaction) (e : Exchange)
    (incoming : List (Except Error Message)) : Except Error Unit × Exchange :=
  match e.send peer.writes (.ping peer.nonce) with
  | .error err => (.error err,e)
  | .ok e => e.awaitLoop peer.writes transaction peer.nonce incoming

/-- The result and all that was written. Whether the node confirms does not count. -/
def sendTx (peer : Peer) (transaction : Transaction) : Except Error Unit × List NetworkMessage :=
  match peer.connected with
  | .error err => (.error err,[])
  | .ok _ =>
    match exchange peer transaction with
    | (.error err,e) => (.error err,e.sent)
    | (.ok rest,e) => (.ok (),(awaitProcessed peer transaction e rest).2.sent)

/-- Try the addresses in order until one connects, and keep what each of them was sent. The
result is `false` on timeout. There is at least one address. -/
def sendToFirstReachable (transaction : Transaction) :
    Error → List Peer → Except Error Bool × List (List NetworkMessage)
  | lastErr, [] => (.error lastErr,[])
  | _, peer::peers =>
    let (res,sent) := sendTx peer transaction
    match res with
    | .ok _ => (.ok true,[sent])
    | .error .timeout => (.ok false,[sent])
    | .error err =>
      let (res,rest) := sendToFirstReachable transaction err peers
      (res,sent::rest)

end Send

section Steps

variable [Bitcoin] {writes : ℕ} {transaction : Transaction}

def Requests (transaction : Transaction) (inv : List Inventory) : Prop :=
  .transaction transaction.computeTxid ∈ inv ∨ .witnessTransaction transaction.computeTxid ∈ inv

/-- What handling a message can do. -/
inductive Handled (writes : ℕ) (transaction : Transaction) :
    Exchange → Message → Exchange → Prop
  | chat {e : Exchange} {message : Message} {reply : List NetworkMessage} :
      message.reply = some reply → (reply ≠ [] → e.sent.length+reply.length ≤ writes) →
      Handled writes transaction e message ⟨e.state,e.sent++reply⟩
  | version {sent : List NetworkMessage} {version : VersionMessage} :
      version.relay = true → version.witness = true → sent.length < writes →
      Handled writes transaction ⟨.awaitingVersion,sent⟩ (.version version)
        ⟨.awaitingVerack,sent++[.verack]⟩
  | verack {sent : List NetworkMessage} : sent.length < writes →
      Handled writes transaction ⟨.awaitingVerack,sent⟩ .verack
        ⟨.awaitingGetData,sent++[.inv [.transaction transaction.computeTxid]]⟩
  | getData {sent : List NetworkMessage} {inv : List Inventory} :
      Requests transaction inv → sent.length < writes →
      Handled writes transaction ⟨.awaitingGetData,sent⟩ (.getData inv)
        ⟨.done,sent++[.tx transaction]⟩

theorem Handled.quiet {e : Exchange} {message : Message} (h : message.reply = some []) :
    Handled writes transaction e message e := by
  have hchat : Handled writes transaction e message ⟨e.state,e.sent++[]⟩ :=
    .chat h (fun hne => absurd rfl hne)
  rwa [List.append_nil] at hchat

omit [Bitcoin] in
theorem send_ok {e e' : Exchange} {message : NetworkMessage} :
    e.send writes message = .ok e' ↔
      e.sent.length < writes ∧ e' = ⟨e.state,e.sent++[message]⟩ := by
  unfold Exchange.send
  split_ifs with hlt
  · simp [hlt,eq_comm]
  · simp [hlt]

theorem handle_ok {e e' : Exchange} {message : Message} :
    e.handle writes transaction message = .ok e' ↔ Handled writes transaction e message e' := by
  obtain ⟨state,sent⟩ := e
  constructor
  · intro h
    cases message with
    | version version =>
      obtain ⟨_,hstate,h⟩ := bind_ok.mp h
      obtain ⟨_,hrelay,h⟩ := bind_ok.mp h
      obtain ⟨_,hwitness,h⟩ := bind_ok.mp h
      obtain ⟨e₁,hsend,h⟩ := bind_ok.mp h
      obtain ⟨hlt,rfl⟩ := send_ok.mp hsend
      obtain rfl := (pure_ok _ _).mp h
      simp only [ensure_ok,decide_eq_true_eq] at hstate hrelay hwitness
      subst hstate
      exact .version hrelay hwitness hlt
    | verack =>
      obtain ⟨_,hstate,h⟩ := bind_ok.mp h
      obtain ⟨e₁,hsend,h⟩ := bind_ok.mp h
      obtain ⟨hlt,rfl⟩ := send_ok.mp hsend
      obtain rfl := (pure_ok _ _).mp h
      simp only [ensure_ok,decide_eq_true_eq] at hstate
      subst hstate
      exact .verack hlt
    | getData inv =>
      obtain ⟨_,hstate,h⟩ := bind_ok.mp h
      obtain ⟨_,hrequested,h⟩ := bind_ok.mp h
      obtain ⟨e₁,hsend,h⟩ := bind_ok.mp h
      obtain ⟨hlt,rfl⟩ := send_ok.mp hsend
      obtain rfl := (pure_ok _ _).mp h
      simp only [ensure_ok,decide_eq_true_eq] at hstate
      subst hstate
      exact .getData (by simpa [Requests] using hrequested) hlt
    | ping nonce =>
      obtain ⟨hlt,rfl⟩ := send_ok.mp h
      exact .chat rfl (fun _ => hlt)
    | pong nonce =>
      obtain rfl := Except.ok.inj h
      exact .quiet rfl
    | other command =>
      obtain rfl := Except.ok.inj h
      exact .quiet rfl
  · intro h
    cases h with
    | chat hreply hfit =>
      cases message with
      | version version => cases hreply
      | verack => cases hreply
      | getData inv => cases hreply
      | ping nonce =>
        obtain rfl := Option.some.inj hreply
        exact send_ok.mpr ⟨hfit (by simp),rfl⟩
      | pong nonce =>
        obtain rfl := Option.some.inj hreply
        simp [Exchange.handle]
      | other command =>
        obtain rfl := Option.some.inj hreply
        simp [Exchange.handle]
    | version hrelay hwitness hlt =>
      simp [Exchange.handle,hrelay,hwitness,Exchange.send,hlt,ensure]
    | verack hlt => simp [Exchange.handle,Exchange.send,hlt,ensure]
    | getData hrequests hlt =>
      unfold Requests at hrequests
      simp [Exchange.handle,Exchange.send,hlt,ensure,hrequests]

end Steps

section Runs

variable {writes : ℕ} {transaction : Transaction}

def Chatter (l : List Message) : Prop := ∀ message ∈ l, message.reply ≠ none

def replies (l : List Message) : List NetworkMessage :=
  l.flatMap (fun message => message.reply.getD [])

def sentTxs (sent : List NetworkMessage) : List Transaction :=
  sent.filterMap fun
    | .tx transaction => some transaction
    | _ => none

theorem sentTxs_append (l l' : List NetworkMessage) : sentTxs (l++l') = sentTxs l++sentTxs l' := by
  simp [sentTxs]

theorem sentTxs_reply {message : Message} {reply : List NetworkMessage}
    (h : message.reply = some reply) : sentTxs reply = [] := by
  cases message <;> cases h <;> rfl

def TxOnlyDone (transaction : Transaction) (e : Exchange) : Prop :=
  sentTxs e.sent = if e.state = .done then [transaction] else []

variable [Bitcoin]

theorem Handled.txOnlyDone {e e' : Exchange} {message : Message}
    (h : Handled writes transaction e message e') (he : TxOnlyDone transaction e) :
    TxOnlyDone transaction e' := by
  unfold TxOnlyDone at he ⊢
  cases h with
  | chat hreply hfit => rw [sentTxs_append,sentTxs_reply hreply,List.append_nil,he]
  | version hrelay hwitness hlt => rw [sentTxs_append,he]; rfl
  | verack hlt => rw [sentTxs_append,he]; rfl
  | getData hrequests hlt => rw [sentTxs_append,he]; rfl

theorem Handled.done {e e' : Exchange} {message : Message}
    (h : Handled writes transaction e message e') (he : e.state = .done) : e'.state = .done := by
  cases h with
  | chat hreply hfit => exact he
  | version hrelay hwitness hlt => cases he
  | verack hlt => cases he
  | getData hrequests hlt => rfl

theorem loop_txOnlyDone {e : Exchange} (he : TxOnlyDone transaction e)
    (l : List (Except Error Message)) :
    TxOnlyDone transaction (e.loop writes transaction l).2 ∧
      ((e.loop writes transaction l).1.isOk = true ↔
        (e.loop writes transaction l).2.state = .done) := by
  induction l generalizing e with
  | nil =>
    refine ⟨he,?_⟩
    unfold Exchange.loop
    split_ifs with hdone <;> simp [hdone,Except.isOk,Except.toBool]
  | cons read l ih =>
    unfold Exchange.loop
    by_cases hdone : e.state = .done
    · simp [hdone,he,Except.isOk,Except.toBool]
    · cases read with
      | error err => simp [hdone,he,Except.isOk,Except.toBool]
      | ok message =>
        cases hh : e.handle writes transaction message with
        | error err => simp [hdone,hh,he,Except.isOk,Except.toBool]
        | ok e' =>
          simp only [hdone,if_false,hh]
          exact ih ((handle_ok.mp hh).txOnlyDone he)

/-- While the confirmation is awaited, more messages may be written, but no transaction. -/
theorem awaitLoop_sent {nonce : UInt64} {e : Exchange} (hdone : e.state = .done)
    (l : List (Except Error Message)) :
    ∃ after, (e.awaitLoop writes transaction nonce l).2.sent = e.sent++after ∧
      sentTxs after = [] := by
  induction l generalizing e with
  | nil => exact ⟨[],by simp [Exchange.awaitLoop],rfl⟩
  | cons read l ih =>
    cases read with
    | error err => exact ⟨[],by simp [Exchange.awaitLoop],rfl⟩
    | ok message =>
      unfold Exchange.awaitLoop
      split_ifs
      · exact ⟨[],by simp,rfl⟩
      · cases hh : e.handle writes transaction message with
        | error err => exact ⟨[],by simp,rfl⟩
        | ok e' =>
          have hhandled := handle_ok.mp hh
          obtain ⟨after,hafter,hnone⟩ := ih (hhandled.done hdone)
          cases hhandled with
          | @chat _ _ reply hreply hfit =>
            refine ⟨reply++after,?_,by rw [sentTxs_append,sentTxs_reply hreply,hnone]; rfl⟩
            rw [← List.append_assoc]
            exact hafter
          | version hrelay hwitness hlt => cases hdone
          | verack hlt => cases hdone
          | getData hrequests hlt => cases hdone

theorem loop_chat {state : ExchangeState} {sent : List NetworkMessage} {chat : List Message}
    {l : List (Except Error Message)} (hstate : state ≠ .done) (hchat : Chatter chat)
    (hfit : sent.length+(replies chat).length ≤ writes) :
    (Exchange.mk state sent).loop writes transaction (chat.map .ok++l) =
      (Exchange.mk state (sent++replies chat)).loop writes transaction l := by
  induction chat generalizing sent with
  | nil => simp [replies]
  | cons message chat ih =>
    obtain ⟨reply,hreply⟩ := Option.ne_none_iff_exists'.mp (hchat message List.mem_cons_self)
    have hcons : replies (message::chat) = reply++replies chat := by simp [replies,hreply]
    rw [hcons,List.length_append] at hfit
    have hh : (Exchange.mk state sent).handle writes transaction message =
        .ok ⟨state,sent++reply⟩ :=
      handle_ok.mpr (.chat hreply (fun _ => by dsimp only; omega))
    rw [List.map_cons,List.cons_append,Exchange.loop]
    simp only [hstate,if_false,hh]
    rw [ih (fun m hm => hchat m (List.mem_cons_of_mem _ hm)) (by rw [List.length_append]; omega),
      hcons,List.append_assoc]

/-- A loop that ends goes through chatter to a message that moves it on. -/
theorem loop_ok {state : ExchangeState} {sent : List NetworkMessage} {e : Exchange}
    {l rest : List (Except Error Message)} (hstate : state ≠ .done)
    (h : (Exchange.mk state sent).loop writes transaction l = (.ok rest,e)) :
    ∃ chat message l' e₁, l = chat.map .ok++.ok message::l' ∧ Chatter chat ∧
      message.reply = none ∧
      Handled writes transaction ⟨state,sent++replies chat⟩ message e₁ ∧
      e₁.loop writes transaction l' = (.ok rest,e) := by
  induction l generalizing sent with
  | nil => simp [Exchange.loop,hstate] at h
  | cons read l ih =>
    unfold Exchange.loop at h
    simp only [hstate,if_false] at h
    cases read with
    | error err => simp at h
    | ok message =>
      cases hh : (Exchange.mk state sent).handle writes transaction message with
      | error err => simp [hh] at h
      | ok e₁ =>
        simp only [hh] at h
        have hhandled := handle_ok.mp hh
        cases hreply : message.reply with
        | none =>
          refine ⟨[],message,l,e₁,rfl,by simp [Chatter],hreply,?_,h⟩
          simpa [replies] using hhandled
        | some reply =>
          cases hhandled with
          | version hrelay hwitness hlt => cases hreply
          | verack hlt => cases hreply
          | getData hrequests hlt => cases hreply
          | chat hreply' hfit =>
            obtain rfl := Option.some.inj (hreply.symm.trans hreply')
            obtain ⟨chat,message',l',e₂,rfl,hchat,hnone,hhandled,hloop⟩ := ih h
            refine ⟨message::chat,message',l',e₂,rfl,?_,hnone,?_,hloop⟩
            · intro m hm
              cases hm with
              | head => simp [hreply]
              | tail _ hm => exact hchat m hm
            · have hcons : replies (message::chat) = reply++replies chat := by
                simp [replies,hreply]
              rw [hcons,← List.append_assoc]
              exact hhandled

/-- A node that asks for the transaction: it says that it relays and knows witnesses, agrees,
and requests the transaction, with chatter in between. -/
structure Asks (transaction : Transaction) (incoming : List (Except Error Message))
    (l₁ l₂ l₃ : List Message) (rest : List (Except Error Message)) : Prop where
  incoming : ∃ inv, Requests transaction inv ∧ incoming =
    l₁.map .ok++.ok (.version ⟨true,true⟩)::(l₂.map .ok++.ok .verack::
      (l₃.map .ok++.ok (.getData inv)::rest))
  chat₁ : Chatter l₁
  chat₂ : Chatter l₂
  chat₃ : Chatter l₃

def written (transaction : Transaction) (l₁ l₂ l₃ : List Message) : List NetworkMessage :=
  [.version]++replies l₁++[.verack]++replies l₂++[.inv [.transaction transaction.computeTxid]]++
    replies l₃++[.tx transaction]

theorem exchange_ok {peer : Peer} {rest : List (Except Error Message)} {e : Exchange} :
    exchange peer transaction = (.ok rest,e) ↔
      ∃ l₁ l₂ l₃, Asks transaction peer.incoming l₁ l₂ l₃ rest ∧
        (written transaction l₁ l₂ l₃).length ≤ peer.writes ∧
        e = ⟨.done,written transaction l₁ l₂ l₃⟩ := by
  constructor
  · intro h
    unfold exchange at h
    dsimp only at h
    cases hs : (Exchange.mk .awaitingVersion []).send peer.writes .version with
    | error err => simp [hs] at h
    | ok e₀ =>
      simp only [hs] at h
      obtain ⟨-,rfl⟩ := send_ok.mp hs
      obtain ⟨l₁,m₁,r₁,e₁,hin₁,hchat₁,hnone₁,hh₁,h⟩ := loop_ok (by decide) h
      cases hh₁ with
      | chat hreply hfit => simp [hnone₁] at hreply
      | @version _ version hrelay hwitness hlt₁ =>
        obtain ⟨l₂,m₂,r₂,e₂,hin₂,hchat₂,hnone₂,hh₂,h⟩ := loop_ok (by decide) h
        cases hh₂ with
        | chat hreply hfit => simp [hnone₂] at hreply
        | verack hlt₂ =>
          obtain ⟨l₃,m₃,r₃,e₃,hin₃,hchat₃,hnone₃,hh₃,h⟩ := loop_ok (by decide) h
          cases hh₃ with
          | chat hreply hfit => simp [hnone₃] at hreply
          | @getData _ inv hrequests hlt₃ =>
            have hend : r₃ = rest ∧ (⟨.done,written transaction l₁ l₂ l₃⟩ : Exchange) = e := by
              cases r₃ with
              | nil => simpa [Exchange.loop,written] using h
              | cons read r => simpa [Exchange.loop,written] using h
            obtain ⟨rfl,rfl⟩ := hend
            obtain ⟨relay,witness⟩ := version
            obtain rfl : relay = true := hrelay
            obtain rfl : witness = true := hwitness
            refine ⟨l₁,l₂,l₃,⟨⟨inv,hrequests,?_⟩,hchat₁,hchat₂,hchat₃⟩,?_,rfl⟩
            · rw [hin₁,hin₂,hin₃]
            · simp [written] at hlt₃ ⊢
              omega
  · rintro ⟨l₁,l₂,l₃,⟨⟨inv,hrequests,hin⟩,hchat₁,hchat₂,hchat₃⟩,hfit,rfl⟩
    have hlen : 4+(replies l₁).length+(replies l₂).length+(replies l₃).length ≤ peer.writes := by
      simp [written] at hfit
      omega
    have hs : (Exchange.mk .awaitingVersion []).send peer.writes .version =
        .ok ⟨.awaitingVersion,[.version]⟩ := send_ok.mpr ⟨by simp; omega,rfl⟩
    have hversion : (Exchange.mk .awaitingVersion ([.version]++replies l₁)).handle peer.writes
        transaction (.version ⟨true,true⟩) =
          .ok ⟨.awaitingVerack,[.version]++replies l₁++[.verack]⟩ :=
      handle_ok.mpr (.version rfl rfl (by simp; omega))
    have hverack : (Exchange.mk .awaitingVerack
        ([.version]++replies l₁++[.verack]++replies l₂)).handle peer.writes transaction .verack =
          .ok ⟨.awaitingGetData,[.version]++replies l₁++[.verack]++replies l₂++
            [.inv [.transaction transaction.computeTxid]]⟩ :=
      handle_ok.mpr (.verack (by simp; omega))
    have hgetData : (Exchange.mk .awaitingGetData ([.version]++replies l₁++[.verack]++
        replies l₂++[.inv [.transaction transaction.computeTxid]]++replies l₃)).handle peer.writes
          transaction (.getData inv) = .ok ⟨.done,written transaction l₁ l₂ l₃⟩ :=
      handle_ok.mpr (.getData hrequests (by simp; omega))
    have hend : (Exchange.mk .done (written transaction l₁ l₂ l₃)).loop peer.writes transaction
        rest = (.ok rest,⟨.done,written transaction l₁ l₂ l₃⟩) := by
      cases rest <;> simp [Exchange.loop]
    unfold exchange
    simp only [hs]
    rw [hin,loop_chat (by decide) hchat₁ (by simp; omega),Exchange.loop]
    simp only [hversion,reduceCtorEq,if_false]
    rw [loop_chat (by decide) hchat₂ (by simp; omega),Exchange.loop]
    simp only [hverack,reduceCtorEq,if_false]
    rw [loop_chat (by decide) hchat₃ (by simp; omega),Exchange.loop]
    simp only [hgetData,reduceCtorEq,if_false]
    exact hend

def Served (transaction : Transaction) (peer : Peer) : Prop :=
  peer.connected = .ok () ∧ ∃ l₁ l₂ l₃ rest, Asks transaction peer.incoming l₁ l₂ l₃ rest ∧
    (written transaction l₁ l₂ l₃).length ≤ peer.writes

theorem sendTx_ok {peer : Peer} :
    (sendTx peer transaction).1 = .ok () ↔ Served transaction peer := by
  unfold sendTx Served
  cases hc : peer.connected with
  | error err => simp
  | ok u =>
    obtain ⟨⟩ := u
    cases he : exchange peer transaction with
    | mk res e =>
      cases res with
      | error err =>
        simp only [reduceCtorEq,true_and,false_iff]
        rintro ⟨l₁,l₂,l₃,rest,hasks,hfit⟩
        have hok := exchange_ok.mpr ⟨l₁,l₂,l₃,hasks,hfit,rfl⟩
        simp [he] at hok
      | ok rest =>
        simp only [true_and,true_iff]
        obtain ⟨l₁,l₂,l₃,hasks,hfit,-⟩ := exchange_ok.mp he
        exact ⟨l₁,l₂,l₃,rest,hasks,hfit⟩

theorem exchange_txOnlyDone (transaction : Transaction) (peer : Peer) :
    TxOnlyDone transaction (exchange peer transaction).2 ∧
      ((exchange peer transaction).1.isOk = true ↔
        (exchange peer transaction).2.state = .done) := by
  unfold exchange
  dsimp only
  cases hs : (Exchange.mk .awaitingVersion []).send peer.writes .version with
  | error err => simp [TxOnlyDone,sentTxs,Except.isOk,Except.toBool]
  | ok e =>
    obtain ⟨-,rfl⟩ := send_ok.mp hs
    have hstart : TxOnlyDone transaction ⟨.awaitingVersion,[.version]⟩ := rfl
    exact loop_txOnlyDone hstart peer.incoming

theorem awaitProcessed_sent {peer : Peer} {e : Exchange} (hdone : e.state = .done)
    (l : List (Except Error Message)) :
    ∃ after, (awaitProcessed peer transaction e l).2.sent = e.sent++after ∧ sentTxs after = [] := by
  unfold awaitProcessed
  cases hs : e.send peer.writes (.ping peer.nonce) with
  | error err => exact ⟨[],by simp,rfl⟩
  | ok e' =>
    obtain ⟨-,rfl⟩ := send_ok.mp hs
    have hping : (Exchange.mk e.state (e.sent++[.ping peer.nonce])).state = .done := hdone
    obtain ⟨after,hafter,hnone⟩ : ∃ after,
        ((Exchange.mk e.state (e.sent++[.ping peer.nonce])).awaitLoop peer.writes transaction
          peer.nonce l).2.sent = e.sent++[.ping peer.nonce]++after ∧ sentTxs after = [] :=
      awaitLoop_sent hping l
    exact ⟨.ping peer.nonce::after,by simpa using hafter,hnone⟩

theorem sendTx_sentTxs (transaction : Transaction) (peer : Peer) : sentTxs (sendTx peer transaction).2 =
    if (sendTx peer transaction).1 = .ok () then [transaction] else [] := by
  obtain ⟨honly,hok⟩ := exchange_txOnlyDone transaction peer
  unfold sendTx
  cases hc : peer.connected with
  | error err => simp [sentTxs]
  | ok u =>
    cases he : exchange peer transaction with
    | mk res e =>
      rw [he] at honly hok
      cases res with
      | error err =>
        have hne : e.state ≠ .done := fun hdone => by
          simpa [Except.isOk,Except.toBool] using hok.mpr hdone
        simpa [TxOnlyDone,hne] using honly
      | ok rest =>
        have hdone : e.state = .done := hok.mp rfl
        obtain ⟨after,hafter,hnone⟩ : ∃ after,
            (awaitProcessed peer transaction e rest).2.sent = e.sent++after ∧ sentTxs after = [] :=
          awaitProcessed_sent hdone rest
        simp only [hafter,sentTxs_append,hnone,List.append_nil,if_true]
        simpa [TxOnlyDone,hdone] using honly

theorem sendTx_written {peer : Peer} (h : (sendTx peer transaction).1 = .ok ()) :
    ∃ l₁ l₂ l₃ rest after, Asks transaction peer.incoming l₁ l₂ l₃ rest ∧ sentTxs after = [] ∧
      (sendTx peer transaction).2 = written transaction l₁ l₂ l₃++after := by
  unfold sendTx at h ⊢
  cases hc : peer.connected with
  | error err => simp [hc] at h
  | ok u =>
    cases he : exchange peer transaction with
    | mk res e =>
      cases res with
      | error err => simp [hc,he] at h
      | ok rest =>
        obtain ⟨l₁,l₂,l₃,hasks,-,rfl⟩ := exchange_ok.mp he
        have hdone : (Exchange.mk .done (written transaction l₁ l₂ l₃)).state = .done := rfl
        obtain ⟨after,hafter,hnone⟩ : ∃ after, (awaitProcessed peer transaction
            ⟨.done,written transaction l₁ l₂ l₃⟩ rest).2.sent =
              written transaction l₁ l₂ l₃++after ∧ sentTxs after = [] :=
          awaitProcessed_sent hdone rest
        exact ⟨l₁,l₂,l₃,rest,after,hasks,hnone,hafter⟩

end Runs

section Broadcast

variable [Bitcoin] {transaction : Transaction}

def FailsAtOnce (transaction : Transaction) (peer : Peer) : Prop :=
  ∃ err, (sendTx peer transaction).1 = .error err ∧ err ≠ .timeout

theorem sendToFirstReachable_served {peer : Peer} (h : (sendTx peer transaction).1 = .ok ())
    (lastErr : Error) (peers : List Peer) :
    sendToFirstReachable transaction lastErr (peer::peers) =
      (.ok true,[(sendTx peer transaction).2]) := by
  unfold sendToFirstReachable
  simp only [h]

theorem sendToFirstReachable_timeout {peer : Peer}
    (h : (sendTx peer transaction).1 = .error .timeout) (lastErr : Error) (peers : List Peer) :
    sendToFirstReachable transaction lastErr (peer::peers) =
      (.ok false,[(sendTx peer transaction).2]) := by
  unfold sendToFirstReachable
  simp only [h]

theorem sendToFirstReachable_failed {peer : Peer} {err : Error}
    (h : (sendTx peer transaction).1 = .error err) (hne : err ≠ .timeout) (lastErr : Error)
    (peers : List Peer) :
    sendToFirstReachable transaction lastErr (peer::peers) =
      ((sendToFirstReachable transaction err peers).1,
        (sendTx peer transaction).2::(sendToFirstReachable transaction err peers).2) := by
  rw [sendToFirstReachable]
  simp only [h]

/-- A broadcast that succeeds has gone through the addresses before the node that is served. -/
theorem sendToFirstReachable_true {lastErr : Error} {peers : List Peer}
    (h : (sendToFirstReachable transaction lastErr peers).1 = .ok true) :
    ∃ failed peer rest, peers = failed++peer::rest ∧
      (∀ p ∈ failed, FailsAtOnce transaction p) ∧ (sendTx peer transaction).1 = .ok () ∧
      (sendToFirstReachable transaction lastErr peers).2 =
        failed.map (fun p => (sendTx p transaction).2)++[(sendTx peer transaction).2] := by
  induction peers generalizing lastErr with
  | nil => simp [sendToFirstReachable] at h
  | cons peer peers ih =>
    cases hs : (sendTx peer transaction).1 with
    | ok u =>
      rw [sendToFirstReachable_served hs]
      exact ⟨[],peer,peers,rfl,by simp,hs,rfl⟩
    | error err =>
      by_cases htimeout : err = .timeout
      · subst htimeout
        simp [sendToFirstReachable_timeout hs] at h
      · rw [sendToFirstReachable_failed hs htimeout] at h ⊢
        obtain ⟨failed,p,rest,rfl,hfailed,hp,hsent⟩ := ih h
        refine ⟨peer::failed,p,rest,rfl,?_,hp,by rw [hsent]; rfl⟩
        intro q hq
        cases hq with
        | head => exact ⟨err,hs,htimeout⟩
        | tail _ hq => exact hfailed q hq

theorem sendToFirstReachable_of_served {failed : List Peer} {peer : Peer}
    (hfailed : ∀ p ∈ failed, FailsAtOnce transaction p) (hp : Served transaction peer)
    (lastErr : Error) (rest : List Peer) :
    (sendToFirstReachable transaction lastErr (failed++peer::rest)).1 = .ok true := by
  induction failed generalizing lastErr with
  | nil =>
    rw [List.nil_append,sendToFirstReachable_served (sendTx_ok.mpr hp)]
  | cons q failed ih =>
    obtain ⟨err,herr,hne⟩ := hfailed q List.mem_cons_self
    rw [List.cons_append,sendToFirstReachable_failed herr hne]
    exact ih (fun p hp => hfailed p (List.mem_cons_of_mem _ hp)) err

theorem sendToFirstReachable_sentTxs (transaction : Transaction) (lastErr : Error)
    (peers : List Peer) : (sendToFirstReachable transaction lastErr peers).2.flatMap sentTxs =
      if (sendToFirstReachable transaction lastErr peers).1 = .ok true then [transaction] else [] := by
  induction peers generalizing lastErr with
  | nil => simp [sendToFirstReachable]
  | cons peer peers ih =>
    have hsent := sendTx_sentTxs transaction peer
    cases hs : (sendTx peer transaction).1 with
    | ok u =>
      rw [sendToFirstReachable_served hs]
      simpa [hs] using hsent
    | error err =>
      by_cases htimeout : err = .timeout
      · subst htimeout
        rw [sendToFirstReachable_timeout hs]
        simpa [hs] using hsent
      · rw [sendToFirstReachable_failed hs htimeout]
        simpa [hs,hsent] using ih err

/-- The transaction goes to the first address whose node asks for it, provided that all before
it failed at once, and to no other. That node is sent the announcement first, and the answers
to what it says in between. -/
theorem broadcast_once (transaction : Transaction) (lastErr : Error) (peers : List Peer) :
    ((sendToFirstReachable transaction lastErr peers).1 = .ok true ↔
      ∃ failed peer rest, peers = failed++peer::rest ∧ Served transaction peer ∧
        ∀ p ∈ failed, FailsAtOnce transaction p) ∧
    (sendToFirstReachable transaction lastErr peers).2.flatMap sentTxs =
      (if (sendToFirstReachable transaction lastErr peers).1 = .ok true then [transaction] else []) ∧
    ((sendToFirstReachable transaction lastErr peers).1 = .ok true →
      ∃ failed peer rest l₁ l₂ l₃ unread after, peers = failed++peer::rest ∧
        (∀ p ∈ failed, FailsAtOnce transaction p) ∧
        Asks transaction peer.incoming l₁ l₂ l₃ unread ∧ sentTxs after = [] ∧
        (sendToFirstReachable transaction lastErr peers).2 =
          failed.map (fun p => (sendTx p transaction).2)++[written transaction l₁ l₂ l₃++after]) := by
  refine ⟨⟨fun h => ?_,?_⟩,sendToFirstReachable_sentTxs transaction lastErr peers,fun h => ?_⟩
  · obtain ⟨failed,peer,rest,hpeers,hfailed,hok,-⟩ := sendToFirstReachable_true h
    exact ⟨failed,peer,rest,hpeers,sendTx_ok.mp hok,hfailed⟩
  · rintro ⟨failed,peer,rest,rfl,hpeer,hfailed⟩
    exact sendToFirstReachable_of_served hfailed hpeer lastErr rest
  · obtain ⟨failed,peer,rest,hpeers,hfailed,hok,hsent⟩ := sendToFirstReachable_true h
    obtain ⟨l₁,l₂,l₃,unread,after,hasks,hnone,hwritten⟩ := sendTx_written hok
    rw [hwritten] at hsent
    exact ⟨failed,peer,rest,l₁,l₂,l₃,unread,after,hpeers,hfailed,hasks,hnone,hsent⟩

end Broadcast

end SendTx

end Bip300301Enforcer
