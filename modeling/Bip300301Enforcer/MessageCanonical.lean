import Bip300301Enforcer.MessageEncoding

/-! Which scripts are read as a coinbase message. The data of a push has one form for
each message. The parser takes the push itself in every form that a script can give it, and
the encoder writes the shortest. -/
namespace Bip300301Enforcer
open Lib Bytes Parse

namespace Script

/-- The push after the first opcode takes no more length bytes than it needs. -/
def MinimalPush : Script → Prop
  | _::op::rest =>
    (op = 0x4c → 0x4c ≤ leNat (rest.take 1)) ∧ (op = 0x4d → 0x100 ≤ leNat (rest.take 2)) ∧
      (op = 0x4e → 0x10000 ≤ leNat (rest.take 4))
  | _ => True

instance : DecidablePred MinimalPush
  | [] => .isTrue trivial
  | [_] => .isTrue trivial
  | _::op::rest => inferInstanceAs (Decidable ((op = 0x4c → 0x4c ≤ leNat (rest.take 1)) ∧
      (op = 0x4d → 0x100 ≤ leNat (rest.take 2)) ∧ (op = 0x4e → 0x10000 ≤ leNat (rest.take 4))))

/-- The bytes that a script may put before a push of `n` bytes. -/
inductive PushHead (n : ℕ) : List UInt8 → Prop
  | direct (op : UInt8) (hop : op ≤ 0x4b) (hn : op.toNat = n) : PushHead n [op]
  | pushdata1 (hn : n < 256^1) : PushHead n (0x4c::leBytes 1 n)
  | pushdata2 (hn : n < 256^2) : PushHead n (0x4d::leBytes 2 n)
  | pushdata4 (hn : n < 256^4) : PushHead n (0x4e::leBytes 4 n)

theorem decode_eq_nil {fuel : ℕ} {script : Script} (h : decode fuel script = [])
    (hfuel : script.length ≤ fuel) : script = [] := by
  cases script with
  | nil => rfl
  | cons op rest =>
    cases fuel with
    | zero => simp at hfuel
    | succ fuel =>
      unfold decode at h
      grind

theorem readPush_inv {width : ℕ} {input data rest : List UInt8}
    (h : readPush width input = some (data,rest)) :
    input = leBytes width data.length++(data++rest) ∧ data.length < 256^width := by
  have hdef : readPush width input =
      if width ≤ input.length && leNat (input.take width) ≤ (input.drop width).length then
        some ((input.drop width).take (leNat (input.take width)),
          (input.drop width).drop (leNat (input.take width)))
      else none := rfl
  rw [hdef] at h
  split at h
  · rename_i hle
    obtain ⟨hw,hn⟩ := Bool.and_eq_true_iff.mp hle
    have hw := of_decide_eq_true hw
    have hn := of_decide_eq_true hn
    obtain ⟨hdata,hrest⟩ := Prod.mk.inj (Option.some.inj h)
    have hlen : (input.take width).length = width := List.length_take_of_le hw
    have hnum : data.length = leNat (input.take width) := by
      rw [← hdata]
      exact List.length_take_of_le hn
    have hhead : leBytes width data.length = input.take width := by
      rw [hnum]
      nth_rewrite 1 [← hlen]
      exact leBytes_leNat _
    constructor
    · rw [hhead,← hdata,← hrest,List.take_append_drop,List.take_append_drop]
    · rw [hnum]
      nth_rewrite 2 [← hlen]
      exact leNat_lt _
  · cases h

theorem decode_op {fuel : ℕ} {op code : UInt8} {rest : Script} {tail : List (Option Instruction)}
    (h : decode (fuel+1) (op::rest) = some (.op code)::tail) :
    op = code ∧ tail = decode fuel rest := by
  unfold decode at h
  grind

/-- A push is read from one of the forms that a script may give it. -/
theorem decode_push {fuel : ℕ} {op : UInt8} {rest : Script} {data : List UInt8}
    {tail : List (Option Instruction)}
    (h : decode (fuel+1) (op::rest) = some (.pushBytes data)::tail) :
    ∃ head rest', op::rest = head++(data++rest') ∧ PushHead data.length head ∧
      tail = decode fuel rest' := by
  have hread : ∀ (width : ℕ) (code : UInt8), op = code → (∀ n, n < 256^width →
      PushHead n (code::leBytes width n)) → (match readPush width rest with
        | none => [none]
        | some (data,rest) => some (.pushBytes data)::decode fuel rest) =
          some (.pushBytes data)::tail →
      ∃ head rest', op::rest = head++(data++rest') ∧ PushHead data.length head ∧
        tail = decode fuel rest' := by
    intro width code hop hhead hm
    cases hp : readPush width rest with
    | none =>
      rw [hp] at hm
      simp at hm
    | some r =>
      obtain ⟨d,rest'⟩ := r
      rw [hp] at hm
      obtain ⟨hd,htail⟩ := List.cons.inj hm
      obtain rfl : d = data := Instruction.pushBytes.inj (Option.some.inj hd)
      obtain ⟨hrest,hlen⟩ := readPush_inv hp
      refine ⟨code::leBytes width d.length,rest',?_,hhead _ hlen,htail.symm⟩
      rw [hop,hrest,List.cons_append]
  simp only [decode] at h
  split at h
  · rename_i hop
    split at h
    · simp at h
    · rename_i r d rest' hr
      split at hr
      · rename_i hle
        obtain ⟨hd,hrest⟩ := Prod.mk.inj (Option.some.inj hr)
        obtain ⟨hd',htail⟩ := List.cons.inj h
        obtain rfl : d = data := Instruction.pushBytes.inj (Option.some.inj hd')
        have hlen : op.toNat = d.length := by
          rw [← hd]
          exact (List.length_take_of_le hle).symm
        refine ⟨[op],rest',?_,.direct op hop hlen,htail.symm⟩
        rw [← hd,← hrest,List.take_append_drop]
        rfl
      · cases hr
  · split at h
    · rename_i hop
      exact hread 1 _ hop (fun n hn => .pushdata1 hn) h
    · split at h
      · rename_i hop
        exact hread 2 _ hop (fun n hn => .pushdata2 hn) h
      · split at h
        · rename_i hop
          exact hread 4 _ hop (fun n hn => .pushdata4 hn) h
        · simp at h

theorem PushHead.length_pos {n : ℕ} {head : List UInt8} (h : PushHead n head) :
    0 < head.length := by
  cases h <;> simp

theorem instructions_op_push {script : Script} {code : UInt8} {data : List UInt8}
    (h : instructions script = [some (.op code),some (.pushBytes data)]) :
    ∃ head, script = code::(head++data) ∧ PushHead data.length head := by
  cases script with
  | nil => cases h
  | cons op rest =>
    obtain ⟨rfl,hrest⟩ := decode_op h
    cases rest with
    | nil => cases hrest
    | cons op' rest' =>
      obtain ⟨head,left,heq,hhead,hleft⟩ := decode_push hrest.symm
      have hlen : left.length ≤ rest'.length := by
        have hl := congrArg List.length heq
        have hpos := hhead.length_pos
        simp only [List.length_cons,List.length_append] at hl
        omega
      obtain rfl := decode_eq_nil hleft.symm hlen
      exact ⟨head,by rw [heq,List.append_nil],hhead⟩

theorem pushSlice_eq (data : List UInt8) :
    pushSlice data =
      if data.length < 0x4c then UInt8.ofNat data.length::data
      else if data.length < 0x100 then 0x4c::(leBytes 1 data.length++data)
      else if data.length < 0x10000 then 0x4d::(leBytes 2 data.length++data)
      else 0x4e::(leBytes 4 data.length++data) := by
  simp [pushSlice,leBytes,List.range_succ]

theorem ofNat_ne_of_lt {n : ℕ} {op : UInt8} (h : n < op.toNat) : UInt8.ofNat n ≠ op := by
  intro he
  have hn := congrArg UInt8.toNat he
  have hop := op.toNat_lt
  rw [UInt8.toNat_ofNat',Nat.mod_eq_of_lt (by omega)] at hn
  omega

theorem PushHead.lt {n : ℕ} {head : List UInt8} (h : PushHead n head) : n < 2^32 := by
  cases h with
  | direct op hop hn =>
    have := op.toNat_lt
    omega
  | pushdata1 hn => omega
  | pushdata2 hn => omega
  | pushdata4 hn => omega

/-- The encoder writes the shortest of the forms. -/
theorem minimalPush_iff {code : UInt8} {head data : List UInt8} (h : PushHead data.length head) :
    MinimalPush (code::(head++data)) ↔ pushSlice data = head++data := by
  rw [pushSlice_eq data]
  have hsmall : ∀ {op : UInt8} {l : List UInt8}, data.length < op.toNat →
      UInt8.ofNat data.length::data ≠ op::l :=
    fun hlt he => ofNat_ne_of_lt hlt (List.cons.inj he).1
  cases h with
  | direct op hop hn =>
    have hop' : op.toNat ≤ 0x4b := UInt8.le_iff_toNat_le.mp hop
    have hne : op ≠ 0x4c ∧ op ≠ 0x4d ∧ op ≠ 0x4e := by
      refine ⟨?_,?_,?_⟩ <;> rintro rfl <;> exact absurd hop (by decide)
    have hlt : data.length < 0x4c := by omega
    have hmin : MinimalPush (code::([op]++data)) :=
      ⟨fun he => absurd he hne.1,fun he => absurd he hne.2.1,fun he => absurd he hne.2.2⟩
    have hback : UInt8.ofNat data.length = op := by rw [← hn,UInt8.ofNat_toNat]
    rw [if_pos hlt,hback]
    exact ⟨fun _ => rfl,fun _ => hmin⟩
  | pushdata1 hn =>
    have hmin : MinimalPush (code::(0x4c::leBytes 1 data.length++data)) ↔ 0x4c ≤ data.length := by
      simp [MinimalPush,leNat_leBytes_of_lt hn]
    rw [hmin]
    by_cases h₁ : data.length < 0x4c
    · rw [if_pos h₁]
      exact ⟨fun hle => by omega,fun he => absurd he (hsmall h₁)⟩
    · rw [if_neg h₁,if_pos (by omega)]
      exact ⟨fun _ => rfl,fun _ => by omega⟩
  | pushdata2 hn =>
    have hmin : MinimalPush (code::(0x4d::leBytes 2 data.length++data)) ↔ 0x100 ≤ data.length := by
      simp [MinimalPush,leNat_leBytes_of_lt hn]
    rw [hmin]
    by_cases h₁ : data.length < 0x4c
    · rw [if_pos h₁]
      exact ⟨fun hle => by omega,fun he => absurd he (hsmall (h₁.trans (by decide)))⟩
    rw [if_neg h₁]
    by_cases h₂ : data.length < 0x100
    · rw [if_pos h₂]
      exact ⟨fun hle => by omega,fun he => absurd (List.cons.inj he).1 (by decide)⟩
    · rw [if_neg h₂,if_pos (by omega)]
      exact ⟨fun _ => rfl,fun _ => by omega⟩
  | pushdata4 hn =>
    have hmin : MinimalPush (code::(0x4e::leBytes 4 data.length++data)) ↔
        0x10000 ≤ data.length := by
      simp [MinimalPush,leNat_leBytes_of_lt hn]
    rw [hmin]
    by_cases h₁ : data.length < 0x4c
    · rw [if_pos h₁]
      exact ⟨fun hle => by omega,fun he => absurd he (hsmall (h₁.trans (by decide)))⟩
    rw [if_neg h₁]
    by_cases h₂ : data.length < 0x100
    · rw [if_pos h₂]
      exact ⟨fun hle => by omega,fun he => absurd (List.cons.inj he).1 (by decide)⟩
    rw [if_neg h₂]
    by_cases h₃ : data.length < 0x10000
    · rw [if_pos h₃]
      exact ⟨fun hle => by omega,fun he => absurd (List.cons.inj he).1 (by decide)⟩
    · rw [if_neg h₃]
      exact ⟨fun _ => rfl,fun _ => by omega⟩

end Script

namespace Parse

theorem eof_some {input : List UInt8} (h : (eof input).isSome) : input = [] := by
  cases input with
  | nil => rfl
  | cons b input => cases h

theorem tag_some {t input rest : List UInt8} (h : tag t input = some rest) : input = t++rest := by
  unfold tag at h
  split at h
  · rename_i hp
    obtain ⟨l,rfl⟩ := List.isPrefixOf_iff_prefix.mp hp
    have hrest := Option.some.inj h
    rw [List.drop_left] at hrest
    rw [hrest]
  · cases h

end Parse

namespace M4AckBundles

theorem toLeBytes_readU16 (lo hi : UInt8) : toLeBytes (readU16 (lo,hi)) = [lo,hi] := by
  have hlo := lo.toNat_lt
  have hhi := hi.toNat_lt
  have hn : (readU16 (lo,hi)).toNat = leNat [lo,hi] := by
    have h256 : (256 : UInt16).toNat = 256 := rfl
    simp only [readU16,UInt16.toNat_add,UInt16.toNat_mul,UInt8.toNat_toUInt16,h256,leNat,
      List.foldr_cons,List.foldr_nil]
    omega
  rw [toLeBytes,hn]
  exact leBytes_leNat [lo,hi]

theorem pairs_bytes (input : List UInt8) :
    (((pairs input).1.map readU16).flatMap toLeBytes)++(pairs input).2 = input := by
  induction input using pairs.induct with
  | case1 lo hi rest ih =>
    have hcons : pairs (lo::hi::rest) = ((lo,hi)::(pairs rest).1,(pairs rest).2) := rfl
    rw [hcons,List.map_cons,List.flatMap_cons,toLeBytes_readU16,List.append_assoc,ih]
    rfl
  | case2 rest hne =>
    rw [pairs]
    · rfl
    · exact hne

theorem parse_body {input : List UInt8} {m4 : M4AckBundles} (h : parse input = some m4) :
    m4.versionTag::m4.upvoteBytes = input := by
  unfold parse at h
  split at h
  · rename_i rest
    obtain ⟨u,hu,rfl⟩ := Option.map_eq_some_iff.mp h
    obtain rfl := eof_some (Option.isSome_of_eq_some hu)
    rfl
  · cases h
    rfl
  · rename_i rest
    obtain ⟨u,hu,rfl⟩ := Option.map_eq_some_iff.mp h
    have hbytes := pairs_bytes rest
    rw [eof_some (Option.isSome_of_eq_some hu),List.append_nil] at hbytes
    exact congrArg (List.cons twoBytesTag) hbytes
  · rename_i rest
    obtain ⟨u,hu,rfl⟩ := Option.map_eq_some_iff.mp h
    obtain rfl := eof_some (Option.isSome_of_eq_some hu)
    rfl
  · cases h

end M4AckBundles

theorem hashBytes_hash {bytes : List UInt8} (h : bytes.length = 32) :
    hashBytes (Parse.hash bytes) = bytes := by
  have hlt := leNat_lt bytes
  rw [h] at hlt
  have hn : (Parse.hash bytes).toNat = leNat bytes := by
    have hmod : (Parse.hash bytes).toNat = leNat bytes%2^256 := BitVec.toNat_ofNat _ _
    rw [hmod,Nat.mod_eq_of_lt (by omega)]
  have hback := leBytes_leNat bytes
  rw [h] at hback
  rw [hashBytes,hn]
  exact hback

namespace CoinbaseMessage

theorem parseSlotHash_body {input : List UInt8} {p : SidechainNumber × BitVec 256}
    (h : parseSlotHash input = some p) : p.1::hashBytes p.2 = input := by
  cases input with
  | nil => cases h
  | cons s input =>
    simp only [parseSlotHash,takeByte,Option.bind_eq_bind,Option.bind_some] at h
    obtain ⟨⟨bytes,left⟩,ht,h⟩ := Option.bind_eq_some_iff.mp h
    obtain ⟨u,he,h⟩ := Option.bind_eq_some_iff.mp h
    obtain rfl := eof_some (Option.isSome_of_eq_some he)
    obtain rfl := Option.some.inj h
    unfold take at ht
    split at ht
    · rename_i hle
      obtain ⟨hb,hleft⟩ := Prod.mk.inj (Option.some.inj ht)
      have hin : input = bytes := by
        rw [← hb,← List.append_nil (input.take 32),← hleft,List.take_append_drop]
      have hlen : bytes.length = 32 := by
        rw [← hb]
        exact List.length_take_of_le hle
      rw [hashBytes_hash hlen,hin]
    · cases ht

/-- A message is written with the data that it was read from. -/
theorem parseData_data {data : List UInt8} {msg : CoinbaseMessage}
    (h : parseData data = some msg) : msg.data = data := by
  unfold parseData at h
  split at h
  · rename_i rest ht
    rw [tag_some ht]
    cases rest with
    | nil => cases h
    | cons s description =>
      obtain rfl := Option.some.inj h
      rfl
  · rename_i rest _ ht
    obtain ⟨p,hp,rfl⟩ := Option.map_eq_some_iff.mp h
    rw [tag_some ht,← parseSlotHash_body hp]
    rfl
  · rename_i rest _ _ ht
    obtain ⟨p,hp,rfl⟩ := Option.map_eq_some_iff.mp h
    rw [tag_some ht,← parseSlotHash_body hp]
    rfl
  · rename_i rest _ _ _ ht
    obtain ⟨m4,hp,rfl⟩ := Option.map_eq_some_iff.mp h
    rw [tag_some ht,← M4AckBundles.parse_body hp]
    rfl
  · rename_i rest _ _ _ _ ht
    obtain ⟨p,hp,rfl⟩ := Option.map_eq_some_iff.mp h
    rw [tag_some ht,← parseSlotHash_body hp]
    rfl
  · cases h

theorem parse_inv [Bitcoin] {script : Script} {msg : CoinbaseMessage}
    (h : parse script = some msg) :
    instructions script = [some (.op opReturn),some (.pushBytes msg.data)] := by
  unfold parse at h
  split at h
  · rename_i code data hi
    split at h
    · rename_i hc
      rw [hi,hc,parseData_data h]
    · cases h
  · cases h

/-- A script that is read as a message is the script that the message is written as exactly
if its push takes no more length bytes than it needs. So among these scripts each message has
only one, and any other script is an ordinary output. -/
theorem parse_canonical_iff [Bitcoin]
    (hinstr : ∀ script, instructions script = Script.instructions script)
    (hnew : ∀ data : List UInt8, data.length < 2^32 → newOpReturn data = Script.newOpReturn data)
    (script : Script) (msg : CoinbaseMessage) (hp : parse script = some msg) :
    (msg.tryIntoScript = .ok script ↔ Script.MinimalPush script) ∧
      (Script.MinimalPush script → ∀ script', parse script' = some msg →
        (script' = script ↔ Script.MinimalPush script')) := by
  have hiff : ∀ script, parse script = some msg →
      (msg.tryIntoScript = .ok script ↔ Script.MinimalPush script) := by
    intro script hp
    have hi := parse_inv hp
    rw [hinstr] at hi
    obtain ⟨head,rfl,hhead⟩ := Script.instructions_op_push hi
    have hwrite : msg.tryIntoScript = .ok (opReturn::Script.pushSlice msg.data) := by
      rw [tryIntoScript,pushBytes,if_pos hhead.lt]
      exact congrArg Except.ok (hnew _ hhead.lt)
    rw [hwrite,Script.minimalPush_iff hhead]
    constructor
    · intro he
      exact (List.cons.inj (Except.ok.inj he)).2
    · intro he
      rw [he]
  refine ⟨hiff script hp,?_⟩
  intro hmin script' hp'
  constructor
  · rintro rfl
    exact hmin
  · intro hmin'
    have hw := (hiff script hp).mpr hmin
    rw [(hiff script' hp').mpr hmin'] at hw
    exact Except.ok.inj hw

end CoinbaseMessage

section Sample

open Sample

def longM2 : Script := 0x6a::0x4c::37::(CoinbaseMessage.m2AckSidechain 1 7).data

/-- The script of 40 bytes is read as an `M2`, which is written with 39. -/
theorem parse_longM2 : CoinbaseMessage.parse longM2 = some (.m2AckSidechain 1 7) ∧
    longM2.length = 40 ∧ (CoinbaseMessage.m2AckSidechain 1 7).tryIntoScript ≠ .ok longM2 :=
  ⟨by decide +kernel,by decide +kernel,by decide +kernel⟩

theorem parse_canonical_iff_sample :
    (CoinbaseMessage.m1ProposeSidechain 7 (List.replicate 80 1)).tryIntoScript =
      .ok (0x6a::0x4c::85::(CoinbaseMessage.m1Tag++7::List.replicate 80 1)) :=
  (CoinbaseMessage.parse_canonical_iff (fun _ => rfl) (fun _ _ => rfl) _ _
    (by decide +kernel)).1.mpr (by decide +kernel)

end Sample

end Bip300301Enforcer
