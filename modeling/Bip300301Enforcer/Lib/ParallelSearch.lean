import Mathlib.Logic.Relation
import Mathlib.Logic.Function.Basic
import Mathlib.Algebra.BigOperators.Fin
import Mathlib.Algebra.Order.BigOperators.Group.Finset

/-! Threads that search their own candidates until one of them has set a shared flag. The
thread that sets it writes its candidate into a shared cell. -/
namespace Lib

/-- Thread `i` tries `first i`, `next` of it and so on. It looks at the flag every `batch`
candidates. The cell holds `empty`, or what `put` makes of a candidate. -/
structure Search (ι α γ : Type) where
  first : ι → α
  next : α → Option α
  meets : α → Bool
  batch : ℕ
  empty : γ
  put : α → γ

namespace Search

/-- Where a thread is: at the head of its loop, with some candidates left before it looks at
the flag again, between setting the flag and the write to the cell, or finished. -/
inductive Thread (α : Type)
  | check (a : α)
  | scan (left : ℕ) (a : α)
  | write (a : α)
  | done
deriving DecidableEq

structure Shared (γ : Type) where
  found : Bool
  cell : γ
deriving DecidableEq

structure State (ι α γ : Type) extends Shared γ where
  thread : ι → Thread α

variable {ι α γ : Type}

/-- What a thread does next. A `stale` read of the flag does not see yet that it is set. -/
def act (g : Search ι α γ) (stale : Bool) (s : Shared γ) : Thread α → Shared γ × Thread α
  | .check a => if s.found && !stale then (s,.done) else (s,.scan g.batch a)
  | .scan 0 a => (s,.check a)
  | .scan (n+1) a =>
    if g.meets a then
      if s.found then (s,.done) else ({s with found := true},.write a)
    else
      match g.next a with
      | none => (s,.done)
      | some b => (s,.scan n b)
  | .write a => ({s with cell := g.put a},.done)
  | .done => (s,.done)

def State.step [DecidableEq ι] (g : Search ι α γ) (s : State ι α γ) (i : ι) (stale : Bool) :
    State ι α γ :=
  let r := g.act stale s.toShared (s.thread i)
  ⟨r.1,Function.update s.thread i r.2⟩

def start (g : Search ι α γ) : State ι α γ := ⟨⟨false,g.empty⟩,fun i => .check (g.first i)⟩

/-- What the threads can get to in a number of steps, in any order. -/
inductive Reach [DecidableEq ι] (g : Search ι α γ) : ℕ → State ι α γ → Prop
  | start : Reach g 0 g.start
  | step {n : ℕ} {s : State ι α γ} (i : ι) (stale : Bool) :
      Reach g n s → s.thread i ≠ .done → Reach g (n+1) (s.step g i stale)

def State.Finished (s : State ι α γ) : Prop := ∀ i, s.thread i = .done

/-- The candidates that come after one, itself included. -/
def Tries (g : Search ι α γ) : α → α → Prop :=
  Relation.ReflTransGen (fun a b => g.next a = some b)

/-- A thread that is at a candidate has tried all the ones before it. -/
structure At (g : Search ι α γ) (i : ι) (a : α) : Prop where
  tries : g.Tries (g.first i) a
  failed : ∀ b, g.Tries (g.first i) b → g.Tries a b ∨ g.meets b = false

def Exhausted (g : Search ι α γ) (i : ι) : Prop :=
  ∀ b, g.Tries (g.first i) b → g.meets b = false

variable {g : Search ι α γ} {i : ι} {a b : α}

theorem At.start (g : Search ι α γ) (i : ι) : g.At i (g.first i) :=
  ⟨Relation.ReflTransGen.refl,fun _ h => .inl h⟩

theorem At.next (ha : g.At i a) (hm : g.meets a = false) (hn : g.next a = some b) :
    g.At i b := by
  refine ⟨ha.tries.tail hn,fun c hc => ?_⟩
  cases ha.failed c hc with
  | inr hfail => exact .inr hfail
  | inl htries =>
    cases htries.cases_head with
    | inl he => exact .inr (he ▸ hm)
    | inr hlater =>
      obtain ⟨b',hb',htries⟩ := hlater
      have hbb : b' = b := Option.some.inj (hb'.symm.trans hn)
      exact .inl (hbb ▸ htries)

theorem At.exhausted (ha : g.At i a) (hm : g.meets a = false) (hn : g.next a = none) :
    g.Exhausted i := by
  intro c hc
  cases ha.failed c hc with
  | inr hfail => exact hfail
  | inl htries =>
    cases htries.cases_head with
    | inl he => exact he ▸ hm
    | inr hlater =>
      obtain ⟨b,hb,-⟩ := hlater
      simp [hn] at hb

/-- What holds of one thread, given the flag. -/
def ThreadOk (g : Search ι α γ) (found : Bool) (i : ι) : Thread α → Prop
  | .check a => g.At i a
  | .scan _ a => g.At i a
  | .write a => g.Tries (g.first i) a ∧ g.meets a = true
  | .done => found = true ∨ g.Exhausted i

/-- The phases of a search: nobody has set the flag, one thread has and is about to write,
or its candidate is in the cell. -/
inductive Phase (g : Search ι α γ) (s : State ι α γ) : Prop
  | searching (flag : s.found = false) (cell : s.cell = g.empty)
      (write : ∀ i a, s.thread i ≠ .write a) : Phase g s
  | claimed (flag : s.found = true) (cell : s.cell = g.empty) (i : ι) (a : α)
      (write : s.thread i = .write a) (only : ∀ j b, s.thread j = .write b → j = i) : Phase g s
  | reported (flag : s.found = true) (i : ι) (a : α) (tries : g.Tries (g.first i) a)
      (meets : g.meets a = true) (cell : s.cell = g.put a)
      (write : ∀ i a, s.thread i ≠ .write a) : Phase g s

structure Invariant (g : Search ι α γ) (s : State ι α γ) : Prop where
  threads : ∀ i, g.ThreadOk s.found i (s.thread i)
  phase : g.Phase s

theorem ThreadOk.found {found : Bool} {t : Thread α} (h : g.ThreadOk found i t) :
    g.ThreadOk true i t := by
  cases t with
  | done => exact .inl rfl
  | check a => exact h
  | scan n a => exact h
  | write a => exact h

theorem invariant_start (g : Search ι α γ) : g.Invariant g.start :=
  ⟨fun i => At.start g i,.searching rfl rfl (by simp [Search.start])⟩

variable [DecidableEq ι]

/-- A thread that leaves the shared state alone and does not come to the write. -/
theorem Invariant.quiet {s : State ι α γ} {t : Thread α} (h : g.Invariant s)
    (hold : ∀ a, s.thread i ≠ .write a) (ht : g.ThreadOk s.found i t)
    (hnew : ∀ a, t ≠ .write a) :
    g.Invariant ⟨s.toShared,Function.update s.thread i t⟩ := by
  have hwrite : ∀ j b, Function.update s.thread i t j = .write b → s.thread j = .write b := by
    intro j b hj
    by_cases he : j = i
    · subst he
      exact absurd (by simpa using hj) (hnew b)
    · simpa [he] using hj
  constructor
  · intro j
    by_cases he : j = i
    · subst he
      simpa using ht
    · simpa [he] using h.threads j
  · cases h.phase with
    | searching flag cell write =>
      exact .searching flag cell (fun j b hj => write j b (hwrite j b hj))
    | claimed flag cell j b write only =>
      have hne : j ≠ i := fun he => hold b (he ▸ write)
      exact .claimed flag cell j b (by simpa [hne] using write)
        (fun k c hk => only k c (hwrite k c hk))
    | reported flag j b tries meets cell write =>
      exact .reported flag j b tries meets cell (fun j b hj => write j b (hwrite j b hj))

theorem Invariant.claim {s : State ι α γ} (h : g.Invariant s) (hf : s.found = false)
    (ha : g.Tries (g.first i) a) (hm : g.meets a = true) :
    g.Invariant ⟨{s.toShared with found := true},Function.update s.thread i (.write a)⟩ := by
  constructor
  · intro j
    by_cases he : j = i
    · subst he
      simpa [ThreadOk] using ⟨ha,hm⟩
    · simpa [he] using (h.threads j).found
  · cases h.phase with
    | claimed flag => simp [hf] at flag
    | reported flag => simp [hf] at flag
    | searching flag cell write =>
      refine .claimed rfl cell i a (by simp) (fun j b hj => ?_)
      by_contra he
      exact write j b (by simpa [he] using hj)

theorem Invariant.report {s : State ι α γ} (h : g.Invariant s) (hw : s.thread i = .write a) :
    g.Invariant ⟨{s.toShared with cell := g.put a},Function.update s.thread i .done⟩ := by
  have ha : g.Tries (g.first i) a ∧ g.meets a = true := by
    have hi := h.threads i
    rwa [hw] at hi
  cases h.phase with
  | searching flag cell write => exact absurd hw (write i a)
  | reported flag j b tries meets cell write => exact absurd hw (write i a)
  | claimed flag cell j b write only =>
    constructor
    · intro j
      by_cases he : j = i
      · subst he
        have hdone : g.ThreadOk s.found j .done := .inl flag
        simpa using hdone
      · simpa [he] using h.threads j
    · refine .reported flag i a ha.1 ha.2 rfl (fun k c hk => ?_)
      by_cases he : k = i
      · subst he
        simp at hk
      · exact he ((only k c (by simpa [he] using hk)).trans (only i a hw).symm)

theorem Invariant.step {s : State ι α γ} (h : g.Invariant s) (i : ι) (stale : Bool) :
    g.Invariant (s.step g i stale) := by
  have hi := h.threads i
  unfold State.step
  cases ht : s.thread i with
  | done =>
    rw [ht] at hi
    exact h.quiet (by simp [ht]) hi (by simp [act])
  | write a => exact h.report ht
  | check a =>
    rw [ht] at hi
    by_cases hf : (s.found && !stale) = true
    · have hfound : s.found = true := (Bool.and_eq_true_iff.mp hf).1
      simp only [act,hf,if_true]
      exact h.quiet (by simp [ht]) (.inl hfound) (by simp)
    · simp only [act,hf]
      exact h.quiet (by simp [ht]) hi (by simp)
  | scan left a =>
    rw [ht] at hi
    have hat : g.At i a := hi
    cases left with
    | zero => exact h.quiet (by simp [ht]) hat (by simp [act])
    | succ left =>
      by_cases hm : g.meets a = true
      · by_cases hf : s.found = true
        · simp only [act,hm,hf,if_true]
          exact h.quiet (by simp [ht]) (.inl hf) (by simp)
        · simp only [act,hm,hf,if_true]
          exact h.claim (by simpa using hf) hat.tries hm
      · have hfail : g.meets a = false := by simpa using hm
        cases hn : g.next a with
        | none =>
          simp only [act,hfail,hn]
          exact h.quiet (by simp [ht]) (.inr (hat.exhausted hfail hn)) (by simp)
        | some b =>
          simp only [act,hfail,hn]
          exact h.quiet (by simp [ht]) (hat.next hfail hn) (by simp)

theorem Reach.invariant {n : ℕ} {s : State ι α γ} (h : g.Reach n s) : g.Invariant s := by
  induction h with
  | start => exact invariant_start g
  | step i stale _ _ ih => exact ih.step i stale

theorem Reach.finished {n : ℕ} {s : State ι α γ} (h : g.Reach n s) (hd : s.Finished) :
    (s.cell = g.empty ∧ ∀ i, g.Exhausted i) ∨
      ∃ i a, g.Tries (g.first i) a ∧ g.meets a = true ∧ s.cell = g.put a := by
  have hi := h.invariant
  cases hi.phase with
  | searching flag cell write =>
    refine .inl ⟨cell,fun i => ?_⟩
    have hdone := hi.threads i
    rw [hd i] at hdone
    simpa [ThreadOk,flag] using hdone
  | claimed flag cell i a write only => simp [hd i] at write
  | reported flag i a tries meets cell write => exact .inr ⟨i,a,tries,meets,cell⟩

section Steps

variable {rank : α → ℕ}

/-- A bound on the steps that a thread still takes, where `rank` falls along `next`. -/
def stepsLeft (rank : α → ℕ) : Thread α → ℕ
  | .scan 0 a => 3*rank a+5
  | .check a => 3*rank a+4
  | .scan (_+1) a => 3*rank a+3
  | .write _ => 1
  | .done => 0

omit [DecidableEq ι] in
theorem act_stepsLeft (hb : 0 < g.batch) (hr : ∀ a b, g.next a = some b → rank b < rank a)
    (stale : Bool) (s : Shared γ) {t : Thread α} (ht : t ≠ .done) :
    stepsLeft rank (g.act stale s t).2+1 ≤ stepsLeft rank t := by
  obtain ⟨m,hbatch⟩ := Nat.exists_eq_succ_of_ne_zero hb.ne'
  cases t with
  | done => exact absurd rfl ht
  | write a => simp [act,stepsLeft]
  | check a =>
    by_cases hf : (s.found && !stale) = true
    · simp [act,hf,stepsLeft]
    · simp [act,hf,stepsLeft,hbatch]
  | scan left a =>
    cases left with
    | zero => simp [act,stepsLeft]
    | succ left =>
      by_cases hm : g.meets a = true
      · by_cases hf : s.found = true
        · simp [act,hm,hf,stepsLeft]
        · simp [act,hm,hf,stepsLeft]
      · cases hn : g.next a with
        | none => simp [act,hm,hn,stepsLeft]
        | some b =>
          have hlt := hr a b hn
          simp only [act,hm,hn]
          cases left with
          | zero => simp [stepsLeft]; omega
          | succ left => simp [stepsLeft]; omega

variable [Fintype ι]

theorem Reach.steps_le {n : ℕ} {s : State ι α γ} (h : g.Reach n s) (hb : 0 < g.batch)
    (hr : ∀ a b, g.next a = some b → rank b < rank a) :
    n+∑ i, stepsLeft rank (s.thread i) ≤ ∑ i, (3*rank (g.first i)+4) := by
  induction h with
  | start => simp [Search.start,stepsLeft]
  | step i stale _ hne ih =>
    rename_i n s _
    have hact := act_stepsLeft hb hr stale s.toShared hne
    have hsum : ∑ j, stepsLeft rank ((s.step g i stale).thread j)+1 ≤
        ∑ j, stepsLeft rank (s.thread j) := by
      rw [← Finset.add_sum_erase _ _ (Finset.mem_univ i),
        ← Finset.add_sum_erase (f := fun j => stepsLeft rank (s.thread j)) _ (Finset.mem_univ i)]
      have hrest : ∑ j ∈ Finset.univ.erase i, stepsLeft rank ((s.step g i stale).thread j) =
          ∑ j ∈ Finset.univ.erase i, stepsLeft rank (s.thread j) := by
        refine Finset.sum_congr rfl (fun j hj => ?_)
        simp [State.step,Finset.ne_of_mem_erase hj]
      rw [hrest]
      simp only [State.step,Function.update_self] at hact ⊢
      omega
    omega

end Steps

end Search
end Lib
