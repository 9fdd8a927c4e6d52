import Bip300301Enforcer.BlindedM6Storage
import Bip300301Enforcer.SendTx

/-! The bytes of a P2P connection. A node's messages are read from whole frames, whatever the
pieces that the bytes arrive in. -/
namespace Bip300301Enforcer
open Lib Bytes SliceReader

namespace SendTx

/-- The decoders of the `bitcoin` crate: the name in the twelve bytes of a command, and the
payloads that are looked at. -/
class PayloadDecoders where
  decodeCommand : List UInt8 → Option (List UInt8)
  decodeVersion : List UInt8 → Option VersionMessage
  decodeInventory : List UInt8 → Option (List Inventory)

def headerLen : ℕ := 24

/-- Bitcoin Core's `MAX_PROTOCOL_MESSAGE_LENGTH`. -/
def maxPayloadLen : ℕ := 4000000

def commandName (name : String) : List UInt8 := name.toList.map (fun c => UInt8.ofNat c.toNat)

def decodeNonce (payload : List UInt8) : Option UInt64 :=
  if 8 ≤ payload.length then some (.ofNat (leNat (payload.take 8))) else none

section Read

variable [Bitcoin] [PayloadDecoders]

/-- The message of a frame. One without use for the exchange keeps only its name. -/
def decodeMessage (command payload : List UInt8) : Except Error Message :=
  let decode {α : Type} (o : Option α) : Except Error α :=
    Fallible.require o (.protocol (.decode command))
  if command = commandName "version" then
    (decode (PayloadDecoders.decodeVersion payload)).map .version
  else if command = commandName "verack" then .ok .verack
  else if command = commandName "getdata" then
    (decode (PayloadDecoders.decodeInventory payload)).map .getData
  else if command = commandName "ping" then (decode (decodeNonce payload)).map .ping
  else if command = commandName "pong" then (decode (decodeNonce payload)).map .pong
  else .ok (.other command)

def checksum (payload : List UInt8) : List UInt8 := (hashBytes (sha256d payload)).take 4

def lift {α : Type} (x : Except Error α) : SliceReader (Option Error) α := fun bytes =>
  (x.mapError some).map (fun a => (a,bytes))

/-- Read one message. The error is `none` when the bytes run out. -/
def readMessage (magic : List UInt8) : SliceReader (Option Error) Message := do
  let header ← readExact none headerLen
  let messageMagic := header.take 4
  let _ ← ensure (messageMagic = magic) (some (.protocol (.magic messageMagic)))
  let rawCommand := (header.drop 4).take 12
  let command ← lift (Fallible.require (PayloadDecoders.decodeCommand rawCommand)
    (.protocol (.invalidCommand rawCommand)))
  let payloadLen := leNat ((header.drop 16).take 4)
  let _ ← ensure (payloadLen ≤ maxPayloadLen) (some (.protocol (.payloadTooLong command payloadLen)))
  let payload ← readExact none payloadLen
  let _ ← ensure (checksum payload = header.drop 20) (some (.protocol (.badChecksum command)))
  lift (decodeMessage command payload)

/-- What a number of reads give. After the last byte the node closes the connection or stays
silent. -/
def readMessages (closed : Bool) (magic : List UInt8) :
    ℕ → List UInt8 → List (Except Error Message)
  | 0, _ => []
  | n+1, bytes =>
    match readMessage magic bytes with
    | .ok (message,rest) => .ok message::readMessages closed magic n rest
    | .error (some err) => [.error err]
    | .error none => if closed then [.error .io] else []

/-- All the reads of a connection. Each of them takes bytes. -/
def receive (closed : Bool) (magic bytes : List UInt8) : List (Except Error Message) :=
  readMessages closed magic (bytes.length+1) bytes

/-- A well-formed frame and its message. -/
structure Frame where
  command : List UInt8
  payload : List UInt8
  message : Message
  length_command : command.length = 12
  length_payload : payload.length ≤ maxPayloadLen
  decodes : ∃ name, PayloadDecoders.decodeCommand command = some name ∧
    decodeMessage name payload = .ok message

namespace Frame

def header (magic : List UInt8) (f : Frame) : List UInt8 :=
  magic++(f.command++(leBytes 4 f.payload.length++checksum f.payload))

def bytes (magic : List UInt8) (f : Frame) : List UInt8 := f.header magic++f.payload

end Frame

end Read

section Frames

variable [Bitcoin] [PayloadDecoders] {magic : List UInt8}

omit [PayloadDecoders] in
theorem length_checksum (payload : List UInt8) : (checksum payload).length = 4 := by
  simp [checksum,hashBytes]

theorem length_header (hm : magic.length = 4) (f : Frame) : (f.header magic).length = headerLen := by
  simp [Frame.header,hm,f.length_command,length_checksum,headerLen]

omit [Bitcoin] [PayloadDecoders] in
theorem lift_reads {α : Type} {x : Except Error α} {a : α} (h : x = .ok a) :
    Reads (lift x) [] a := by
  intro rest
  subst h
  rfl

omit [Bitcoin] [PayloadDecoders] in
theorem lift_ok {α : Type} {x : Except Error α} {a : α} {bytes rest : List UInt8}
    (h : lift x bytes = .ok (a,rest)) : x = .ok a ∧ rest = bytes := by
  cases x with
  | error err => cases h
  | ok a' =>
    obtain ⟨rfl,rfl⟩ := Prod.mk.inj (Except.ok.inj h)
    exact ⟨rfl,rfl⟩

omit [Bitcoin] [PayloadDecoders] in
theorem ensure_reader_ok {b : Bool} {err : Option Error} {u : Unit} {bytes rest : List UInt8}
    (h : SliceReader.ensure b err bytes = .ok (u,rest)) : b = true ∧ rest = bytes := by
  unfold SliceReader.ensure at h
  split_ifs at h with hb
  exact ⟨hb,(Prod.mk.inj (Except.ok.inj h)).2.symm⟩

omit [Bitcoin] [PayloadDecoders] in
theorem readExact_reader_ok {err : Option Error} {len : ℕ} {taken bytes rest : List UInt8}
    (h : SliceReader.readExact err len bytes = .ok (taken,rest)) :
    bytes = taken++rest ∧ taken.length = len := by
  unfold SliceReader.readExact at h
  split_ifs at h with hlen
  obtain ⟨rfl,rfl⟩ := Prod.mk.inj (Except.ok.inj h)
  refine ⟨(List.take_append_drop len bytes).symm,?_⟩
  rw [List.length_take]
  omega

/-- A frame is read as its message. -/
theorem readMessage_frame (hm : magic.length = 4) (f : Frame) :
    Reads (readMessage magic) (f.bytes magic) f.message := by
  obtain ⟨name,hname,hmessage⟩ := f.decodes
  have hlen := length_header hm f
  have hfour := length_checksum f.payload
  have htake : (f.header magic).take 4 = magic := List.take_left' hm
  have hcommand : ((f.header magic).drop 4).take 12 = f.command := by
    rw [Frame.header,List.drop_left' hm,List.take_left' f.length_command]
  have hnumber : ((f.header magic).drop 16).take 4 = leBytes 4 f.payload.length := by
    have hsplit : f.header magic = (magic++f.command)++(leBytes 4 f.payload.length++
        checksum f.payload) := by simp [Frame.header]
    rw [hsplit,List.drop_left' (by simp [hm,f.length_command]),
      List.take_left' (length_leBytes 4 _)]
  have hsum : (f.header magic).drop 20 = checksum f.payload := by
    have hsplit : f.header magic = (magic++f.command++leBytes 4 f.payload.length)++
        checksum f.payload := by simp [Frame.header]
    rw [hsplit,List.drop_left' (by simp [hm,f.length_command])]
  have hpayload : leNat (leBytes 4 f.payload.length) = f.payload.length := by
    have hmax := f.length_payload
    unfold maxPayloadLen at hmax
    exact leNat_leBytes_of_lt (by omega)
  have hheader : Reads (readExact (none : Option Error) headerLen) (f.header magic)
      (f.header magic) := by
    have hread := Reads.readExact (none : Option Error) (f.header magic)
    rwa [hlen] at hread
  refine hheader.bind ?_
  simp only [htake,hcommand,hnumber,hsum,hpayload]
  have hbody : Reads (readExact (none : Option Error) f.payload.length) f.payload f.payload :=
    Reads.readExact (none : Option Error) f.payload
  have hname' : Fallible.require (PayloadDecoders.decodeCommand f.command)
      (Error.protocol (.invalidCommand f.command)) = .ok name := (Fallible.require_ok _ _ _).mpr hname
  suffices hall : Reads _ ([]++([]++([]++(f.payload++([]++[]))))) f.message by
    simpa only [List.nil_append,List.append_nil] using hall
  refine (Reads.ensure (by simp) _).bind ?_
  refine (lift_reads hname').bind ?_
  refine (Reads.ensure (decide_eq_true f.length_payload) _).bind ?_
  refine hbody.bind ?_
  exact (Reads.ensure (by simp) _).bind (lift_reads hmessage)

/-- Whatever is read as a message is a frame. -/
theorem frame_of_readMessage {bytes rest : List UInt8} {message : Message}
    (h : readMessage magic bytes = .ok (message,rest)) :
    ∃ f : Frame, f.message = message ∧ bytes = f.bytes magic++rest := by
  obtain ⟨⟨header,rest₁⟩,hheader,h⟩ := Fallible.bind_ok.mp h
  obtain ⟨⟨_,_⟩,hmagic,h⟩ := Fallible.bind_ok.mp h
  obtain ⟨⟨name,_⟩,hname,h⟩ := Fallible.bind_ok.mp h
  obtain ⟨⟨_,_⟩,hmax,h⟩ := Fallible.bind_ok.mp h
  obtain ⟨⟨payload,rest₂⟩,hpayload,h⟩ := Fallible.bind_ok.mp h
  obtain ⟨⟨_,_⟩,hsum,hlast⟩ := Fallible.bind_ok.mp h
  clear h
  obtain ⟨rfl,hlen⟩ := readExact_reader_ok hheader
  obtain ⟨hmagic',rfl⟩ := ensure_reader_ok hmagic
  obtain ⟨hname',rfl⟩ := lift_ok hname
  obtain ⟨hmax',rfl⟩ := ensure_reader_ok hmax
  obtain ⟨rfl,hplen⟩ := readExact_reader_ok hpayload
  obtain ⟨hsum',rfl⟩ := ensure_reader_ok hsum
  obtain ⟨hmessage,rfl⟩ := lift_ok hlast
  have htake := of_decide_eq_true hmagic'
  have hle := of_decide_eq_true hmax'
  have hcheck := of_decide_eq_true hsum'
  rw [Fallible.require_ok] at hname'
  rw [headerLen] at hlen
  let f : Frame := ⟨(header.drop 4).take 12,payload,message,by simp [hlen],hplen ▸ hle,
    name,hname',hmessage⟩
  have hnumber : leBytes 4 payload.length = (header.drop 16).take 4 := by
    have hback := leBytes_leNat ((header.drop 16).take 4)
    rw [List.length_take,List.length_drop,hlen] at hback
    rw [hplen]
    exact hback
  have hheader' : f.header magic = header := by
    have h₄ := List.take_append_drop 12 (header.drop 4)
    have h₁₆ := List.take_append_drop 4 (header.drop 16)
    rw [List.drop_drop] at h₄ h₁₆
    rw [Frame.header,hnumber,hcheck,h₁₆,h₄,← htake]
    exact List.take_append_drop 4 header
  refine ⟨f,rfl,?_⟩
  rw [Frame.bytes,hheader',List.append_assoc]

theorem readMessage_iff (hm : magic.length = 4) {bytes rest : List UInt8} {message : Message} :
    readMessage magic bytes = .ok (message,rest) ↔
      ∃ f : Frame, f.message = message ∧ bytes = f.bytes magic++rest := by
  constructor
  · exact frame_of_readMessage
  · rintro ⟨f,rfl,rfl⟩
    exact readMessage_frame hm f rest

theorem length_bytes (hm : magic.length = 4) (f : Frame) : headerLen ≤ (f.bytes magic).length := by
  rw [Frame.bytes,List.length_append,length_header hm]
  exact Nat.le_add_right _ _

/-- The messages that come before anything else are those of the frames that the bytes begin
with. -/
theorem readMessages_prefix (hm : magic.length = 4) (closed : Bool) {n : ℕ} {bytes : List UInt8}
    (hn : bytes.length < n) (messages : List Message) :
    messages.map .ok <+: readMessages closed magic n bytes ↔
      ∃ frames : List Frame, frames.map Frame.message = messages ∧
        frames.flatMap (Frame.bytes magic) <+: bytes := by
  induction messages generalizing n bytes with
  | nil => simp
  | cons message messages ih =>
    obtain ⟨n,rfl⟩ := Nat.exists_eq_succ_of_ne_zero (Nat.ne_zero_of_lt hn)
    unfold readMessages
    cases hr : readMessage magic bytes with
    | error err =>
      have hnone : ¬∃ frames : List Frame, frames.map Frame.message = message::messages ∧
          frames.flatMap (Frame.bytes magic) <+: bytes := by
        rintro ⟨frames,hframes,hpre⟩
        cases frames with
        | nil => cases hframes
        | cons f frames =>
          obtain ⟨rest,rfl⟩ := hpre
          have hok := readMessage_frame hm f (frames.flatMap (Frame.bytes magic)++rest)
          rw [List.flatMap_cons,List.append_assoc,hok] at hr
          cases hr
      cases err with
      | none => cases closed <;> simp [hnone,List.prefix_cons_iff]
      | some err => simp [hnone,List.prefix_cons_iff]
    | ok r =>
      obtain ⟨message',rest⟩ := r
      obtain ⟨f,hf,hbytes⟩ := (readMessage_iff hm).mp hr
      have hlen := length_bytes hm f
      have hrest : rest.length < n := by
        have hsum := congrArg List.length hbytes
        rw [List.length_append] at hsum
        unfold headerLen at hlen
        omega
      simp only [List.map_cons]
      rw [List.cons_prefix_cons,ih hrest]
      constructor
      · rintro ⟨he,frames,rfl,hpre⟩
        refine ⟨f::frames,by rw [List.map_cons,hf,← Except.ok.inj he],?_⟩
        rw [hbytes,List.flatMap_cons]
        exact (List.prefix_append_right_inj _).mpr hpre
      · rintro ⟨frames,hframes,hpre⟩
        cases frames with
        | nil => cases hframes
        | cons f' frames =>
          obtain ⟨tail,htail⟩ := hpre
          obtain ⟨hf',rfl⟩ := List.cons.inj hframes
          rw [List.flatMap_cons,List.append_assoc] at htail
          have hok := readMessage_frame hm f' (frames.flatMap (Frame.bytes magic)++tail)
          rw [htail,hr] at hok
          obtain ⟨hmessage,htail'⟩ := Prod.mk.inj (Except.ok.inj hok)
          exact ⟨by rw [hmessage,hf'],frames,rfl,tail,htail'.symm⟩

end Frames

section Bytes

variable [Bitcoin] [PayloadDecoders]

/-- A node that accepts the connection and sends some bytes. -/
def peerSending (closed : Bool) (magic bytes : List UInt8) (writes : ℕ) (nonce : UInt64) : Peer :=
  ⟨.ok (),writes,receive closed magic bytes,nonce⟩

/-- The bytes that a node sends begin with the frames of a handshake and of a request for the
transaction, and it takes the answers to them. -/
def AsksInBytes (transaction : Transaction) (magic bytes : List UInt8) (writes : ℕ) : Prop :=
  ∃ (frames : List Frame) (l₁ l₂ l₃ : List Message) (inv : List Inventory),
    frames.flatMap (Frame.bytes magic) <+: bytes ∧
    frames.map Frame.message = l₁++.version ⟨true,true⟩::(l₂++.verack::(l₃++[.getData inv])) ∧
    Chatter l₁ ∧ Chatter l₂ ∧ Chatter l₃ ∧ Requests transaction inv ∧
    (written transaction l₁ l₂ l₃).length ≤ writes

theorem peerSending_ok {magic : List UInt8} (hm : magic.length = 4) (transaction : Transaction)
    (closed : Bool) (bytes : List UInt8) (writes : ℕ) (nonce : UInt64) :
    (sendTx (peerSending closed magic bytes writes nonce) transaction).1 = .ok () ↔
      AsksInBytes transaction magic bytes writes := by
  have hread := readMessages_prefix hm closed (Nat.lt_succ_self bytes.length)
  rw [sendTx_ok]
  constructor
  · rintro ⟨-,l₁,l₂,l₃,rest,⟨⟨inv,hrequests,hin⟩,hchat₁,hchat₂,hchat₃⟩,hfit⟩
    obtain ⟨frames,hframes,hpre⟩ :=
      (hread (l₁++.version ⟨true,true⟩::(l₂++.verack::(l₃++[.getData inv])))).mp
        ⟨rest,by simpa [peerSending,receive] using hin.symm⟩
    exact ⟨frames,l₁,l₂,l₃,inv,hpre,hframes,hchat₁,hchat₂,hchat₃,hrequests,hfit⟩
  · rintro ⟨frames,l₁,l₂,l₃,inv,hpre,hframes,hchat₁,hchat₂,hchat₃,hrequests,hfit⟩
    obtain ⟨rest,hrest⟩ := (hread _).mpr ⟨frames,hframes,hpre⟩
    refine ⟨rfl,l₁,l₂,l₃,rest,⟨⟨inv,hrequests,?_⟩,hchat₁,hchat₂,hchat₃⟩,hfit⟩
    simpa [peerSending,receive] using hrest.symm

/-- A node whose bytes ask for the transaction is sent it once, in any packets and with whatever
after these bytes, and any other node is not sent it. -/
theorem sendTx_bytes_iff {magic : List UInt8} (hm : magic.length = 4) (transaction : Transaction)
    (closed : Bool) (bytes : List UInt8) (writes : ℕ) (nonce : UInt64) :
    ((sendTx (peerSending closed magic bytes writes nonce) transaction).1 = .ok () ↔
      AsksInBytes transaction magic bytes writes) ∧
    (AsksInBytes transaction magic bytes writes →
      sentTxs (sendTx (peerSending closed magic bytes writes nonce) transaction).2 =
        [transaction]) ∧
    (¬ AsksInBytes transaction magic bytes writes →
      sentTxs (sendTx (peerSending closed magic bytes writes nonce) transaction).2 = []) := by
  have hiff := peerSending_ok hm transaction closed bytes writes nonce
  refine ⟨hiff,fun hasks => ?_,fun hno => ?_⟩
  · rw [sendTx_sentTxs,if_pos (hiff.mpr hasks)]
  · rw [sendTx_sentTxs,if_neg (fun hok => hno (hiff.mp hok))]

end Bytes

section Sample

open Sample

namespace FramesSample
open WireFormat

/-- The fields of a `version` payload up to the last one. The user agent has its length before
it, and the other fields have fixed lengths. -/
def decodeVersion : SliceReader Unit VersionMessage := do
  let _ ← decodeUint 4
  let services ← decodeUint 8
  let _ ← readExact () (8+26+26+8)
  let agentLen ← decodeVarInt
  let _ ← readExact () agentLen.toNat
  let _ ← decodeUint 4
  let relay ← decodeUint 1
  return ⟨relay ≠ 0,services.testBit 3⟩

def decodeEntry : SliceReader Unit Inventory := do
  let kind ← decodeUint 4
  let hash ← decodeUint 32
  return if kind = 1 then .transaction (.ofNat 256 hash)
    else if kind = 0x40000001 then .witnessTransaction (.ofNat 256 hash)
    else .other

def decodeInventory : SliceReader Unit (List Inventory) := do
  let count ← decodeVarInt
  readMany decodeEntry count.toNat

scoped instance : PayloadDecoders where
  decodeCommand bytes := some (bytes.filter (fun b => b ≠ 0))
  decodeVersion payload := (decodeVersion payload).toOption.map Prod.fst
  decodeInventory payload := (decodeInventory payload).toOption.map Prod.fst

def transaction : Transaction := ⟨2,0,[],[⟨40,[0x51]⟩]⟩

def magic : List UInt8 := [0xFA,0xBF,0xB5,0xDA]

def services : List UInt8 := leBytes 8 0x409

def address (ip : List UInt8) (port : ℕ) : List UInt8 :=
  services++(List.replicate 10 0++[0xFF,0xFF]++ip++[UInt8.ofNat (port/256),UInt8.ofNat port])

def versionPayload : List UInt8 :=
  leBytes 4 70016++services++leBytes 8 1700000000++address [127,0,0,1] 18444++
    address [0,0,0,0] 0++leBytes 8 77++compactSize 16++commandName "/Satoshi:27.0.0/"++
    leBytes 4 120++[1]

def version : Frame :=
  ⟨commandName "version"++List.replicate 5 0,versionPayload,.version ⟨true,true⟩,by decide,
    by decide,commandName "version",by decide,by decide +kernel⟩

def ping : Frame :=
  ⟨commandName "ping"++List.replicate 8 0,leBytes 8 9,.ping 9,by decide,by decide,
    commandName "ping",by decide,by decide +kernel⟩

def verack : Frame :=
  ⟨commandName "verack"++List.replicate 6 0,[],.verack,by decide,by decide,
    commandName "verack",by decide,by decide +kernel⟩

def getData : Frame :=
  ⟨commandName "getdata"++List.replicate 5 0,
    compactSize 1++leBytes 4 0x40000001++leBytes 32 transaction.computeTxid.toNat,
    .getData [.witnessTransaction transaction.computeTxid],by decide,by decide,
    commandName "getdata",by decide,by decide +kernel⟩

end FramesSample

open FramesSample

theorem sendTx_bytes_iff_sample :
    sentTxs (sendTx (peerSending true FramesSample.magic
      (([version,ping,verack,getData].flatMap (Frame.bytes FramesSample.magic))++[7]) 5 0)
      FramesSample.transaction).2 = [FramesSample.transaction] := by
  refine (sendTx_bytes_iff (by decide) FramesSample.transaction true _ 5 0).2.1
    ⟨[version,ping,verack,getData],[],[.ping 9],[],
      [.witnessTransaction FramesSample.transaction.computeTxid],List.prefix_append _ _,rfl,
      ?_,?_,?_,?_,?_⟩
  · simp [Chatter]
  · simp [Chatter,Message.reply]
  · simp [Chatter]
  · exact .inr List.mem_cons_self
  · decide

end Sample

end SendTx

end Bip300301Enforcer
