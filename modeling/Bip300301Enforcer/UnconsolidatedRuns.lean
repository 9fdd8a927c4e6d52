import Bip300301Enforcer.Unsettled
import Bip300301Enforcer.Lib.AtEach

/-! Runs of insertions and removals on the unconsolidated treasury outputs. -/
namespace Bip300301Enforcer
open Lib

/-- One update of the outputs that wait for consolidation. -/
inductive CtipsCall where
  | insert (s : SidechainNumber) (ctip : Ctip)
  | remove (o : OutPoint)
  | removeSidechain (s : SidechainNumber)
deriving DecidableEq

/-- The outputs that wait, with their slots, oldest first. -/
abbrev CtipLog := List (SidechainNumber × Ctip)

namespace CtipLog

def ofSlot (log : CtipLog) (s : SidechainNumber) : List Ctip :=
  (log.filter (fun e => e.1 = s)).map Prod.snd

def update (log : CtipLog) : CtipsCall → CtipLog
  | .insert s ctip => log++[(s,ctip)]
  | .remove o => log.filter (fun e => e.2.outpoint ≠ o)
  | .removeSidechain s => log.filter (fun e => e.1 ≠ s)

variable (log : CtipLog)

theorem ofSlot_insert (s a : SidechainNumber) (ctip : Ctip) :
    (log.update (.insert s ctip)).ofSlot a = if s = a then log.ofSlot a++[ctip] else log.ofSlot a := by
  simp only [update,ofSlot,List.filter_append,List.map_append]
  split
  · rename_i hs
    simp [hs]
  · rename_i hs
    simp [hs]

theorem ofSlot_remove (o : OutPoint) (a : SidechainNumber) :
    (log.update (.remove o)).ofSlot a = (log.ofSlot a).filter (fun c => c.outpoint ≠ o) := by
  simp only [update,ofSlot,List.filter_map,List.filter_filter]
  refine congrArg (List.map Prod.snd) (List.filter_congr (fun e _ => ?_))
  exact Bool.and_comm _ _

theorem ofSlot_removeSidechain (s a : SidechainNumber) :
    (log.update (.removeSidechain s)).ofSlot a = if s = a then [] else log.ofSlot a := by
  simp only [update,ofSlot,List.filter_filter]
  split
  · rename_i hs
    subst hs
    simp
  · rename_i hs
    refine congrArg (List.map Prod.snd) (List.filter_congr (fun e _ => ?_))
    by_cases he : e.1 = a
    · simp [he,Ne.symm hs]
    · simp [he]

end CtipLog

namespace UnconsolidatedCtips

def update (u : UnconsolidatedCtips) : CtipsCall → UnconsolidatedCtips
  | .insert s ctip => u.insert s ctip
  | .remove o => u.remove o
  | .removeSidechain s => (u.removeSidechain s).2

/-- Only outpoints that are not there yet are inserted. -/
def Fresh (u : UnconsolidatedCtips) : CtipsCall → Prop
  | .insert _ ctip => u.byOutpoint.get? ctip.outpoint = none
  | _ => True

instance (u : UnconsolidatedCtips) : DecidablePred u.Fresh
  | .insert _ ctip => inferInstanceAs (Decidable (u.byOutpoint.get? ctip.outpoint = none))
  | .remove _ => .isTrue trivial
  | .removeSidechain _ => .isTrue trivial

def Holds (u : UnconsolidatedCtips) (log : CtipLog) : Prop :=
  InStep u ∧ ∀ s, u.ofSlot s = log.ofSlot s

variable {u : UnconsolidatedCtips} {log : CtipLog}

theorem holds_default : Holds default [] :=
  ⟨inStep_default,fun s => by simp [ofSlot,default,CtipLog.ofSlot]⟩

theorem Holds.update (h : Holds u log) {call : CtipsCall} (hnew : u.Fresh call) :
    Holds (u.update call) (log.update call) := by
  obtain ⟨hin,hof⟩ := h
  cases call with
  | insert s ctip =>
    refine ⟨hin.insert s hnew,fun a => ?_⟩
    rw [CtipLog.ofSlot_insert,← hof]
    exact hin.ofSlot_insert s hnew a
  | remove o =>
    refine ⟨hin.remove o,fun a => ?_⟩
    rw [CtipLog.ofSlot_remove,← hof]
    exact hin.ofSlot_remove o a
  | removeSidechain s =>
    refine ⟨(hin.removeSidechain s).1,fun a => ?_⟩
    rw [CtipLog.ofSlot_removeSidechain,← hof]
    exact (hin.removeSidechain s).2 a

def afterCalls (calls : List CtipsCall) : UnconsolidatedCtips := calls.foldl update default

def logOf (calls : List CtipsCall) : CtipLog := calls.foldl CtipLog.update []

theorem holds_afterCalls {calls : List CtipsCall}
    (hnew : AtEach (fun before call => (afterCalls before).Fresh call) calls) :
    Holds (afterCalls calls) (logOf calls) := by
  induction calls using List.reverseRecOn with
  | nil => exact holds_default
  | append_singleton calls call ih =>
    obtain ⟨hinit,hlast⟩ := AtEach.snoc.mp hnew
    have hstep := (ih hinit).update hlast
    simpa [afterCalls,logOf,List.foldl_append] using hstep

def Has (u : UnconsolidatedCtips) (s : SidechainNumber) (c : Ctip) : Prop :=
  ∃ ctips, u.bySidechain.get? s = some ctips ∧ c ∈ ctips

theorem has_iff {s : SidechainNumber} {c : Ctip} : u.Has s c ↔ c ∈ u.ofSlot s := by
  unfold Has ofSlot
  cases u.bySidechain.get? s with
  | none => simp
  | some ctips => simp

theorem InStep.has_unique (h : InStep u) {o : OutPoint} (ho : u.byOutpoint.contains o = true) :
    ∃! e : SidechainNumber × Ctip, e.2.outpoint = o ∧ u.Has e.1 e.2 := by
  obtain ⟨⟨s,v⟩,hsv⟩ := (u.byOutpoint.contains_iff o).mp ho
  refine ⟨(s,⟨o,v⟩),⟨rfl,has_iff.mpr ((h.listed o s v).mp hsv)⟩,?_⟩
  rintro ⟨s',c⟩ ⟨rfl,hc⟩
  have hget := h.get?_of_mem (has_iff.mp hc)
  obtain ⟨rfl,rfl⟩ := Prod.mk.inj (Option.some.inj (hget.symm.trans hsv))
  rfl

theorem InStep.isEmpty_iff (h : InStep u) :
    u.isEmpty = true ↔ u.byOutpoint = .empty ∧ u.bySidechain = .empty := by
  rw [isEmpty,FinMap.isEmpty_iff]
  refine ⟨fun he => ⟨he,?_⟩,fun he => he.1⟩
  apply FinMap.ext
  intro s
  rw [FinMap.get?_empty,h.bySidechain_none]
  refine List.eq_nil_iff_forall_not_mem.mpr (fun c hc => ?_)
  have hget := h.get?_of_mem hc
  rw [he,FinMap.get?_empty] at hget
  cases hget

end UnconsolidatedCtips

namespace BlockHandler

/-- The updates of one slot in a transaction: the outputs it spends go, the one it makes comes in
unless it is the slot's new treasury. -/
def ctipsCalls (dbs : ActiveSidechainDbs) (s : SidechainNumber) (info : TxCtipsInfo) :
    List CtipsCall :=
  info.unconsolidatedCtipInputs.map (fun c => .remove c.outpoint)++
    if isNewCtip dbs s info then [] else [.insert s info.ctipOutput]

theorem updateUnconsolidated_eq (dbs : ActiveSidechainDbs) (u : UnconsolidatedCtips)
    (s : SidechainNumber) (info : TxCtipsInfo) :
    updateUnconsolidated dbs u s info =
      (ctipsCalls dbs s info).foldl UnconsolidatedCtips.update u := by
  rw [updateUnconsolidated,ctipsCalls,List.foldl_append,List.foldl_map]
  simp only [UnconsolidatedCtips.update]
  split <;> rfl

end BlockHandler

namespace UnconsolidatedCtips
open BlockHandler

/-- After every run of insertions of new outpoints and of removals the two indexes hold the same
outputs, the sets in the order of their insertion. A transaction adds calls to the run. -/
theorem afterCalls_inStep (calls : List CtipsCall)
    (hnew : AtEach (fun before call => (afterCalls before).Fresh call) calls) :
    (∀ o s v, (afterCalls calls).byOutpoint.get? o = some (s,v) ↔ (afterCalls calls).Has s ⟨o,v⟩) ∧
      (∀ o, (afterCalls calls).byOutpoint.contains o = true →
        ∃! e : SidechainNumber × Ctip, e.2.outpoint = o ∧ (afterCalls calls).Has e.1 e.2) ∧
      (∀ s, (afterCalls calls).getBySidechain s ≠ some []) ∧
      ((afterCalls calls).isEmpty = true ↔
        (afterCalls calls).byOutpoint = .empty ∧ (afterCalls calls).bySidechain = .empty) ∧
      (∀ s, (afterCalls calls).getBySidechain s =
        if (logOf calls).ofSlot s = [] then none else some ((logOf calls).ofSlot s)) ∧
      ∀ dbs s info, updateUnconsolidated dbs (afterCalls calls) s info =
        afterCalls (calls++ctipsCalls dbs s info) := by
  obtain ⟨hin,hof⟩ := holds_afterCalls hnew
  refine ⟨fun o s v => ?_,fun o => hin.has_unique,hin.nonempty,hin.isEmpty_iff,fun s => ?_,
    fun dbs s info => ?_⟩
  · rw [hin.listed,has_iff]
  · rw [← hof]
    split
    · rename_i hs
      exact hin.bySidechain_none.mpr hs
    · rename_i hs
      unfold getBySidechain
      unfold ofSlot at hs ⊢
      cases hget : (afterCalls calls).bySidechain.get? s with
      | none => simp [hget] at hs
      | some ctips => simp
  · rw [updateUnconsolidated_eq,afterCalls,afterCalls,List.foldl_append]

theorem afterCalls_inStep_sample :
    (afterCalls [.insert 7 ⟨⟨1,0⟩,5⟩,.insert 3 ⟨⟨2,0⟩,6⟩,.insert 3 ⟨⟨3,0⟩,8⟩,.remove ⟨2,0⟩,
        .removeSidechain 7]).getBySidechain 3 = some [⟨⟨3,0⟩,8⟩] := by
  have hnew : AtEach (fun before call => (afterCalls before).Fresh call)
      [.insert 7 ⟨⟨1,0⟩,5⟩,.insert 3 ⟨⟨2,0⟩,6⟩,.insert 3 ⟨⟨3,0⟩,8⟩,.remove ⟨2,0⟩,
        .removeSidechain 7] := by
    simp only [AtEach.cons]
    exact ⟨by decide,by decide,by decide,trivial,trivial,AtEach.nil⟩
  rw [(afterCalls_inStep _ hnew).2.2.2.2.1 3]
  decide

end UnconsolidatedCtips

end Bip300301Enforcer
