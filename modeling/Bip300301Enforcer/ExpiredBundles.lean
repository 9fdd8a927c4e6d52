import Bip300301Enforcer.CoinbasePhase

/-! Expired bundles leave the pending ones and come back at their positions. -/
namespace Bip300301Enforcer
open Lib

namespace Diff.FailedM6ids

/-- The bundles at the positions in `S`, under their positions. -/
def failedAt (S : ℕ → Bool) (p : PendingM6ids) : FailedPositions :=
  (p.entries.zipIdx.filter (fun e => S e.2)).map (fun e => (e.2,e.1))

def keptAt (S : ℕ → Bool) (p : PendingM6ids) : List (M6id × PendingM6idInfo) :=
  (p.entries.zipIdx.filter (fun e => !S e.2)).map Prod.fst

variable (S : ℕ → Bool) (p : PendingM6ids)

theorem idxOf_of_mem_zipIdx {l : List (M6id × PendingM6idInfo)} (hl : l.Nodup)
    {e : (M6id × PendingM6idInfo) × ℕ} (he : e ∈ l.zipIdx) : l.idxOf e.1 = e.2 := by
  obtain ⟨hlt,hget⟩ := List.getElem?_eq_some_iff.mp (List.mem_zipIdx_iff_getElem?.mp he)
  rw [← hget]
  exact hl.idxOf_getElem e.2 hlt

theorem failedAt_eq :
    failedAt S p = positionsFrom (fun e => S (p.entries.idxOf e)) p.entries 0 := by
  have hnodup : p.entries.Nodup := List.Nodup.of_map _ p.nodup
  rw [failedAt,positionsFrom]
  refine congrArg (List.map _) (List.filter_congr (fun e he => ?_))
  rw [idxOf_of_mem_zipIdx hnodup he]

theorem keptAt_eq : keptAt S p = p.entries.filter (fun e => !S (p.entries.idxOf e)) := by
  have hnodup : p.entries.Nodup := List.Nodup.of_map _ p.nodup
  have hfst : p.entries.zipIdx.map Prod.fst = p.entries := List.zipIdx_map_fst 0 _
  calc keptAt S p
      = (p.entries.zipIdx.filter (fun e => !S (p.entries.idxOf e.1))).map Prod.fst := by
        refine congrArg (List.map _) (List.filter_congr (fun e he => ?_))
        rw [idxOf_of_mem_zipIdx hnodup he]
    _ = (p.entries.zipIdx.map Prod.fst).filter (fun e => !S (p.entries.idxOf e)) := by
        rw [List.filter_map]
        rfl
    _ = p.entries.filter (fun e => !S (p.entries.idxOf e)) := by rw [hfst]

theorem failedAt_keptAt_perm : ((failedAt S p).map Prod.snd++keptAt S p).Perm p.entries := by
  have hsnd : (failedAt S p).map Prod.snd = (p.entries.zipIdx.filter (fun e => S e.2)).map Prod.fst := by
    rw [failedAt,List.map_map]
    rfl
  have hsplit := (List.filter_append_perm (fun e : (M6id × PendingM6idInfo) × ℕ => S e.2)
    p.entries.zipIdx).map Prod.fst
  rw [List.map_append,List.zipIdx_map_fst] at hsplit
  rw [hsnd]
  exact hsplit

end Diff.FailedM6ids

namespace BlockHandler
open Diff.FailedM6ids

/-- The positions whose bundle is too old at this height. -/
def expiredPosition (h : BlockHandler) (height : ℕ) (p : PendingM6ids) (i : ℕ) : Bool :=
  (p.entries[i]?).any (h.expired height)

theorem failedPositions_failedAt (h : BlockHandler) (height : ℕ) (p : PendingM6ids) :
    h.failedPositions p height = failedAt (h.expiredPosition height p) p := by
  rw [failedPositions_eq,positionsFrom,failedAt]
  refine congrArg (List.map _) (List.filter_congr (fun e he => ?_))
  rw [expiredPosition,List.mem_zipIdx_iff_getElem?.mp he]
  rfl

end BlockHandler

namespace Diff.FailedM6ids

variable (S : ℕ → Bool) (p : PendingM6ids)

/-- Removal of the bundles at any positions leaves the others in their order, and refilling puts
each one back at its position; none is lost or doubled. What is recorded at a height is of this
form, with the positions of the bundles that are too old. -/
theorem removeFailedWithdrawals_refill :
    (∃ q, removeFailedWithdrawals (failedAt S p) p = .ok q ∧ q.entries = keptAt S p ∧
      refillPendingWithdrawals (failedAt S p) q = p ∧
      ((failedAt S p).map Prod.snd++q.entries).Perm p.entries) ∧
    ∀ (h : BlockHandler) (height : ℕ),
      h.failedPositions p height = failedAt (h.expiredPosition height p) p := by
  obtain ⟨q,hq,hentries⟩ := removeFailedWithdrawals_eq (fun e => S (p.entries.idxOf e)) p
  have hkept : q.entries = keptAt S p := by rw [hentries,keptAt_eq]
  rw [← failedAt_eq] at hq
  refine ⟨⟨q,hq,hkept,?_,?_⟩,fun h height => h.failedPositions_failedAt height p⟩
  · rw [failedAt_eq] at hq ⊢
    exact refill_remove hq
  · rw [hkept]
    exact failedAt_keptAt_perm S p

end Diff.FailedM6ids
end Bip300301Enforcer
