import Bip300301Enforcer.BlockHandler
import Mathlib.Data.List.Induction

/-! What a transaction spends and creates of each treasury, read off its inputs
and outputs, and that `fillCtips` computes exactly this. -/
namespace Bip300301Enforcer
open Lib

namespace OpDrivechain

def slotOutputs (op : OpDrivechain) (l : List (TxOut × ℕ)) (s : SidechainNumber) : List (TxOut × ℕ) :=
  l.filter (fun e => op.parse e.1.scriptPubkey = some s)

theorem slotOutputs_snoc (op : OpDrivechain) (l : List (TxOut × ℕ)) (e : TxOut × ℕ)
    (s : SidechainNumber) :
    op.slotOutputs (l++[e]) s =
      op.slotOutputs l s++if op.parse e.1.scriptPubkey = some s then [e] else [] := by
  unfold slotOutputs
  rw [List.filter_append,List.filter_singleton]
  by_cases hp : op.parse e.1.scriptPubkey = some s <;> simp [hp]

end OpDrivechain

namespace ActiveSidechainDbs

/-- The treasury output of a slot that an input spends, if it has been a ctip. -/
def consolidatedInput (dbs : ActiveSidechainDbs) (s : SidechainNumber) (i : TxIn) : Option Ctip :=
  match dbs.ctipOutpointToValueSeq.get? i.previousOutput with
  | some (s',v,_) => if s' = s then some ⟨i.previousOutput,v⟩ else none
  | none => none

/-- The treasury output of a slot that an input spends, if it is not consolidated. -/
def unconsolidatedInput (dbs : ActiveSidechainDbs) (u : UnconsolidatedCtips) (s : SidechainNumber)
    (i : TxIn) : Option Ctip :=
  match dbs.ctipOutpointToValueSeq.get? i.previousOutput with
  | some _ => none
  | none =>
    match u.byOutpoint.get? i.previousOutput with
    | some (s',v) => if s' = s then some ⟨i.previousOutput,v⟩ else none
    | none => none

def consolidatedInputs (dbs : ActiveSidechainDbs) (s : SidechainNumber) (l : List TxIn) : List Ctip :=
  l.filterMap (dbs.consolidatedInput s)

def unconsolidatedInputs (dbs : ActiveSidechainDbs) (u : UnconsolidatedCtips) (s : SidechainNumber)
    (l : List TxIn) : List Ctip :=
  l.filterMap (dbs.unconsolidatedInput u s)

theorem mem_unconsolidatedInputs {dbs : ActiveSidechainDbs} {u : UnconsolidatedCtips}
    {s : SidechainNumber} {c : Ctip} {l : List TxIn} :
    c ∈ dbs.unconsolidatedInputs u s l ↔ (∃ i ∈ l, i.previousOutput = c.outpoint) ∧
      dbs.ctipOutpointToValueSeq.get? c.outpoint = none ∧
      u.byOutpoint.get? c.outpoint = some (s,c.value) := by
  simp only [unconsolidatedInputs,List.mem_filterMap,unconsolidatedInput]
  constructor
  · rintro ⟨i,hi,he⟩
    cases hc : dbs.ctipOutpointToValueSeq.get? i.previousOutput with
    | some e => simp [hc] at he
    | none =>
      cases hu : u.byOutpoint.get? i.previousOutput with
      | none => simp [hc,hu] at he
      | some e =>
        obtain ⟨s',v⟩ := e
        by_cases hs : s' = s
        · subst hs
          simp only [hc,hu,if_true,Option.some.injEq] at he
          subst he
          exact ⟨⟨i,hi,rfl⟩,hc,hu⟩
        · simp [hc,hu,hs] at he
  · rintro ⟨⟨i,hi,ho⟩,hc,hu⟩
    exact ⟨i,hi,by simp [ho,hc,hu]⟩

theorem mem_consolidatedInputs {dbs : ActiveSidechainDbs} {s : SidechainNumber} {c : Ctip} {l : List TxIn} :
    c ∈ dbs.consolidatedInputs s l ↔ (∃ i ∈ l, i.previousOutput = c.outpoint) ∧
      ∃ n, dbs.ctipOutpointToValueSeq.get? c.outpoint = some (s,c.value,n) := by
  simp only [consolidatedInputs,List.mem_filterMap,consolidatedInput]
  constructor
  · rintro ⟨i,hi,he⟩
    cases hc : dbs.ctipOutpointToValueSeq.get? i.previousOutput with
    | none => simp [hc] at he
    | some e =>
      obtain ⟨s',v,n⟩ := e
      by_cases hs : s' = s
      · subst hs
        simp only [hc,if_true,Option.some.injEq] at he
        subst he
        exact ⟨⟨i,hi,rfl⟩,n,hc⟩
      · simp [hc,hs] at he
  · rintro ⟨⟨i,hi,ho⟩,n,hc⟩
    exact ⟨i,hi,by simp [ho,hc]⟩

end ActiveSidechainDbs

def asSet (l : List Ctip) : List Ctip := l.foldl (fun acc c => acc.insert c) []

theorem asSet_snoc (l : List Ctip) (c : Ctip) : asSet (l++[c]) = (asSet l).insert c := by
  simp [asSet]

@[simp] theorem mem_asSet {l : List Ctip} {c : Ctip} : c ∈ asSet l ↔ c ∈ l := by
  induction l using List.reverseRecOn with
  | nil => simp [asSet]
  | append_singleton l a ih => rw [asSet_snoc]; simp [ih,or_comm]

theorem nodup_asSet (l : List Ctip) : (asSet l).Nodup := by
  induction l using List.reverseRecOn with
  | nil => simp [asSet]
  | append_singleton l a ih => rw [asSet_snoc]; exact ih.insert

theorem asSet_perm {l : List Ctip} (h : l.Nodup) : (asSet l).Perm l :=
  (List.perm_ext_iff_of_nodup (nodup_asSet l) h).mpr (fun _ => mem_asSet)

namespace BlockHandler

variable (h : BlockHandler) (dbs : ActiveSidechainDbs)

def outputInfo (txid : Txid) (e : TxOut × ℕ) : TxCtipsInfo := ⟨none,[],⟨txid,e.2⟩,e.1.value⟩

def OutputsRead (txid : Txid) (l : List (TxOut × ℕ)) (res : FinMap SidechainNumber TxCtipsInfo) :
    Prop :=
  ∀ s, (dbs.sidechain.contains s = false ∧ res.get? s = none) ∨
    (dbs.sidechain.contains s = true ∧ h.params.opDrivechain.slotOutputs l s = [] ∧
      res.get? s = none) ∨
    (dbs.sidechain.contains s = true ∧ ∃ e, h.params.opDrivechain.slotOutputs l s = [e] ∧
      res.get? s = some (outputInfo txid e))

variable {h dbs}

theorem outputsRead_step {txid : Txid} {done : List (TxOut × ℕ)} {e : TxOut × ℕ}
    {res res' : FinMap SidechainNumber TxCtipsInfo} (hr : OutputsRead h dbs txid done res)
    (hs : h.fillOutput dbs txid res e = .ok res') : OutputsRead h dbs txid (done++[e]) res' := by
  unfold fillOutput at hs
  cases hp : h.params.opDrivechain.parse e.1.scriptPubkey with
  | none =>
    rw [hp] at hs
    obtain rfl := Except.ok.inj hs
    intro s
    simpa [OpDrivechain.slotOutputs_snoc,hp] using hr s
  | some a =>
    rw [hp] at hs
    simp only at hs
    by_cases hact : dbs.sidechain.contains a = true
    · have hnone : res.get? a = none := by
        by_contra hne
        have hc : res.contains a = true := by
          simpa [FinMap.contains,Option.isSome_iff_ne_none] using hne
        simp [hact,hc] at hs
      have hc : res.contains a = false := (FinMap.contains_false_iff _ _).mpr hnone
      simp only [hact,hc,Bool.not_true,Bool.false_eq_true,if_false,Except.ok.injEq] at hs
      subst hs
      intro s
      by_cases has : a = s
      · subst has
        rcases hr a with ⟨hn,-⟩ | ⟨-,hl,-⟩ | ⟨-,e',hl,hsome⟩
        · rw [hact] at hn; cases hn
        · exact .inr (.inr ⟨hact,e,by simp [OpDrivechain.slotOutputs_snoc,hp,hl],by simp; rfl⟩)
        · rw [hnone] at hsome; cases hsome
      · simpa [OpDrivechain.slotOutputs_snoc,hp,has,FinMap.get?_insert] using hr s
    · simp only [hact,Bool.not_false,if_true,Except.ok.injEq] at hs
      subst hs
      intro s
      by_cases has : a = s
      · subst has
        rcases hr a with hn | ⟨ha,-⟩ | ⟨ha,-⟩
        · exact .inl hn
        · exact absurd ha hact
        · exact absurd ha hact
      · simpa [OpDrivechain.slotOutputs_snoc,hp,has] using hr s

theorem outputsRead_of_fill {txid : Txid} {l : List (TxOut × ℕ)}
    {res : FinMap SidechainNumber TxCtipsInfo}
    (hf : l.foldlM (h.fillOutput dbs txid) .empty = .ok res) : OutputsRead h dbs txid l res := by
  refine Fallible.foldlM_prefix (OutputsRead h dbs txid) hf ?_ ?_
  · intro s
    cases hact : dbs.sidechain.contains s with
    | false => exact .inl ⟨rfl,FinMap.get?_empty s⟩
    | true => exact .inr (.inl ⟨rfl,rfl,FinMap.get?_empty s⟩)
  · intro done e rest res res' _ hr hs
    exact outputsRead_step hr hs

/-- Reading the outputs succeeds when no active slot has two of them. -/
theorem fill_outputs_succeeds (txid : Txid) {l : List (TxOut × ℕ)}
    (hone : ∀ s, dbs.sidechain.contains s = true → (h.params.opDrivechain.slotOutputs l s).length ≤ 1) :
    ∃ res, l.foldlM (h.fillOutput dbs txid) .empty = .ok res ∧ OutputsRead h dbs txid l res := by
  refine Fallible.foldlM_succeeds (OutputsRead h dbs txid) ?_ ?_
  · intro s
    cases hact : dbs.sidechain.contains s with
    | false => exact .inl ⟨rfl,FinMap.get?_empty s⟩
    | true => exact .inr (.inl ⟨rfl,rfl,FinMap.get?_empty s⟩)
  · intro done e rest res hl hr
    have hex : ∃ res', h.fillOutput dbs txid res e = .ok res' := by
      unfold fillOutput
      cases hp : h.params.opDrivechain.parse e.1.scriptPubkey with
      | none => exact ⟨res,rfl⟩
      | some a =>
        simp only
        by_cases hact : dbs.sidechain.contains a = true
        · have hnone : res.get? a = none := by
            rcases hr a with hn | ⟨-,-,hn⟩ | ⟨-,e',he',-⟩
            · exact hn.2
            · exact hn
            · have hlen := hone a hact
              rw [hl] at hlen
              have hsplit : done++e::rest = (done++[e])++rest := by simp
              rw [hsplit,OpDrivechain.slotOutputs,List.filter_append] at hlen
              have hsn := OpDrivechain.slotOutputs_snoc h.params.opDrivechain done e a
              rw [OpDrivechain.slotOutputs] at hsn
              rw [hsn,he'] at hlen
              simp [hp] at hlen
          have hc : res.contains a = false := (FinMap.contains_false_iff _ _).mpr hnone
          exact ⟨_,by simp [hact,hc]; rfl⟩
        · exact ⟨res,by simp [hact]⟩
    obtain ⟨res',hres'⟩ := hex
    exact ⟨res',hres',outputsRead_step hr hres'⟩

section Inputs

variable {u : UnconsolidatedCtips}

/-- What is known about a slot once some inputs are read. -/
def addInputs (dbs : ActiveSidechainDbs) (u : UnconsolidatedCtips) (s : SidechainNumber)
    (l : List TxIn) (info : TxCtipsInfo) : TxCtipsInfo :=
  { info with
    consolidatedCtipInput := (dbs.consolidatedInputs s l).head?
    unconsolidatedCtipInputs := asSet (dbs.unconsolidatedInputs u s l) }

def InputsRead (dbs : ActiveSidechainDbs) (u : UnconsolidatedCtips)
    (res₀ : FinMap SidechainNumber TxCtipsInfo) (l : List TxIn)
    (res : FinMap SidechainNumber TxCtipsInfo) : Prop :=
  ∀ s, res.get? s = (res₀.get? s).map (addInputs dbs u s l) ∧
    (dbs.consolidatedInputs s l).length ≤ 1 ∧
    (res₀.get? s = none → dbs.consolidatedInputs s l = [] ∧ dbs.unconsolidatedInputs u s l = [])

theorem consolidatedInputs_snoc (s : SidechainNumber) (l : List TxIn) (i : TxIn) :
    dbs.consolidatedInputs s (l++[i]) = dbs.consolidatedInputs s l++(dbs.consolidatedInput s i).toList := by
  unfold ActiveSidechainDbs.consolidatedInputs
  rw [List.filterMap_append]
  cases hc : dbs.consolidatedInput s i <;> simp [hc]

theorem unconsolidatedInputs_snoc (s : SidechainNumber) (l : List TxIn) (i : TxIn) :
    dbs.unconsolidatedInputs u s (l++[i]) =
      dbs.unconsolidatedInputs u s l++(dbs.unconsolidatedInput u s i).toList := by
  unfold ActiveSidechainDbs.unconsolidatedInputs
  rw [List.filterMap_append]
  cases hc : dbs.unconsolidatedInput u s i <;> simp [hc]

theorem addInputs_snoc_of_none {s : SidechainNumber} {l : List TxIn} {i : TxIn}
    (hc : dbs.consolidatedInput s i = none) (hn : dbs.unconsolidatedInput u s i = none) :
    addInputs dbs u s (l++[i]) = addInputs dbs u s l := by
  funext info
  simp [addInputs,consolidatedInputs_snoc,unconsolidatedInputs_snoc,hc,hn]

theorem inputsRead_init {res₀ : FinMap SidechainNumber TxCtipsInfo}
    (hnone : ∀ s info, res₀.get? s = some info →
      info.consolidatedCtipInput = none ∧ info.unconsolidatedCtipInputs = []) :
    InputsRead dbs u res₀ [] res₀ := by
  intro s
  refine ⟨?_,by simp [ActiveSidechainDbs.consolidatedInputs],fun _ => ⟨rfl,rfl⟩⟩
  cases hr : res₀.get? s with
  | none => rfl
  | some info =>
    obtain ⟨c,un,o⟩ := info
    obtain ⟨rfl,rfl⟩ := hnone s _ hr
    rfl

/-- One input is read into the slot whose output it spends. -/
theorem inputsRead_step {res₀ res res' : FinMap SidechainNumber TxCtipsInfo} {done : List TxIn}
    {i : TxIn} (hr : InputsRead dbs u res₀ done res) (hs : fillInput dbs u res i = .ok res') :
    InputsRead dbs u res₀ (done++[i]) res' := by
  unfold fillInput at hs
  cases hc : dbs.ctipOutpointToValueSeq.get? i.previousOutput with
  | some e =>
    obtain ⟨a,v,n⟩ := e
    simp only [hc,Fallible.bind_ok,Fallible.require_ok] at hs
    obtain ⟨info,hinfo,_,hfree,hs⟩ := hs
    have hun (s : SidechainNumber) : dbs.unconsolidatedInput u s i = none := by
      simp [ActiveSidechainDbs.unconsolidatedInput,hc]
    have hcon (s : SidechainNumber) : dbs.consolidatedInput s i =
        if a = s then some ⟨i.previousOutput,v⟩ else none := by
      simp [ActiveSidechainDbs.consolidatedInput,hc]
    simp only [Fallible.ensure_ok,Option.isNone_iff_eq_none] at hfree
    simp only [Fallible.pure_ok] at hs
    subst hs
    obtain ⟨ha,hlen,-⟩ := hr a
    rw [hinfo] at ha
    obtain ⟨info₀,h₀,hadd⟩ := Option.map_eq_some_iff.mp ha.symm
    have hnil : dbs.consolidatedInputs a done = [] := by
      rw [← hadd] at hfree
      exact List.head?_eq_none_iff.mp hfree
    intro s
    obtain ⟨hget,hlen',hout⟩ := hr s
    by_cases has : a = s
    · subst has
      refine ⟨?_,?_,fun hno => by rw [h₀] at hno; cases hno⟩
      · rw [FinMap.get?_insert_self,h₀,Option.map_some,← hadd]
        simp [addInputs,consolidatedInputs_snoc,unconsolidatedInputs_snoc,hcon,hun,hnil]
      · simp [consolidatedInputs_snoc,hnil,hcon]
    · have hcs : dbs.consolidatedInput s i = none := by simp [hcon,has]
      refine ⟨?_,?_,?_⟩
      · rw [FinMap.get?_insert_ne _ _ has,hget]
        rw [addInputs_snoc_of_none hcs (hun s)]
      · simpa [consolidatedInputs_snoc,hcs] using hlen'
      · simpa [consolidatedInputs_snoc,unconsolidatedInputs_snoc,hcs,hun] using hout
  | none =>
    have hcon (s : SidechainNumber) : dbs.consolidatedInput s i = none := by
      simp [ActiveSidechainDbs.consolidatedInput,hc]
    simp only [hc] at hs
    cases hu : u.byOutpoint.get? i.previousOutput with
    | none =>
      have hun (s : SidechainNumber) : dbs.unconsolidatedInput u s i = none := by
        simp [ActiveSidechainDbs.unconsolidatedInput,hc,hu]
      rw [hu] at hs
      obtain rfl := Except.ok.inj hs
      intro s
      obtain ⟨hget,hlen,hout⟩ := hr s
      refine ⟨?_,?_,?_⟩
      · rw [hget]
        rw [addInputs_snoc_of_none (hcon s) (hun s)]
      · simpa [consolidatedInputs_snoc,hcon] using hlen
      · simpa [consolidatedInputs_snoc,unconsolidatedInputs_snoc,hcon,hun] using hout
    | some e =>
      obtain ⟨a,v⟩ := e
      have hun (s : SidechainNumber) : dbs.unconsolidatedInput u s i =
          if a = s then some ⟨i.previousOutput,v⟩ else none := by
        simp [ActiveSidechainDbs.unconsolidatedInput,hc,hu]
      simp only [hu,Fallible.bind_ok,Fallible.require_ok,Fallible.pure_ok] at hs
      obtain ⟨info,hinfo,rfl⟩ := hs
      intro s
      obtain ⟨hget,hlen,hout⟩ := hr s
      by_cases has : a = s
      · subst has
        rw [hinfo] at hget
        obtain ⟨info₀,h₀,hadd⟩ := Option.map_eq_some_iff.mp hget.symm
        refine ⟨?_,?_,fun hno => by rw [h₀] at hno; cases hno⟩
        · rw [FinMap.get?_insert_self,h₀,Option.map_some,← hadd]
          simp [addInputs,consolidatedInputs_snoc,unconsolidatedInputs_snoc,hcon,hun,asSet_snoc]
        · simpa [consolidatedInputs_snoc,hcon] using hlen
      · have hus : dbs.unconsolidatedInput u s i = none := by simp [hun,has]
        refine ⟨?_,?_,?_⟩
        · rw [FinMap.get?_insert_ne _ _ has,hget]
          rw [addInputs_snoc_of_none (hcon s) hus]
        · simpa [consolidatedInputs_snoc,hcon] using hlen
        · simpa [consolidatedInputs_snoc,unconsolidatedInputs_snoc,hcon,hus] using hout

/-- An input can be read when its slot has an output and no other ctip is spent. -/
theorem fillInput_succeeds {res₀ res : FinMap SidechainNumber TxCtipsInfo} {l done rest : List TxIn}
    {i : TxIn} (hl : l = done++i::rest) (hr : InputsRead dbs u res₀ done res)
    (hone : ∀ s, (dbs.consolidatedInputs s l).length ≤ 1)
    (hrep : ∀ s, res₀.get? s = none →
      dbs.consolidatedInputs s l = [] ∧ dbs.unconsolidatedInputs u s l = []) :
    ∃ res', fillInput dbs u res i = .ok res' := by
  have hmem : i ∈ l := by simp [hl]
  have hslot (a : SidechainNumber)
      (h : dbs.consolidatedInput a i ≠ none ∨ dbs.unconsolidatedInput u a i ≠ none) :
      ∃ info, res.get? a = some info ∧ info.consolidatedCtipInput =
        (dbs.consolidatedInputs a done).head? := by
    obtain ⟨hget,-,-⟩ := hr a
    cases h₀ : res₀.get? a with
    | some info₀ => exact ⟨_,by rw [hget,h₀,Option.map_some],rfl⟩
    | none =>
      obtain ⟨hc,hu⟩ := hrep a h₀
      rcases h with h | h
      · exact absurd (List.filterMap_eq_nil_iff.mp hc i hmem) h
      · exact absurd (List.filterMap_eq_nil_iff.mp hu i hmem) h
  cases hc : dbs.ctipOutpointToValueSeq.get? i.previousOutput with
  | some e =>
    obtain ⟨a,v,n⟩ := e
    have hcon : dbs.consolidatedInput a i = some ⟨i.previousOutput,v⟩ := by
      simp [ActiveSidechainDbs.consolidatedInput,hc]
    obtain ⟨info,hinfo,hhead⟩ := hslot a (.inl (by simp [hcon]))
    have hnil : dbs.consolidatedInputs a done = [] := by
      have hlen := hone a
      rw [hl,ActiveSidechainDbs.consolidatedInputs,List.filterMap_append,
        List.filterMap_cons_some hcon,List.length_append,List.length_cons] at hlen
      exact List.eq_nil_of_length_eq_zero (by unfold ActiveSidechainDbs.consolidatedInputs; omega)
    rw [hnil] at hhead
    simp only [fillInput,hc]
    exact ⟨_,Fallible.bind_ok.mpr
      ⟨info,by simp [hinfo],Fallible.bind_ok.mpr ⟨(),by simp [hhead],rfl⟩⟩⟩
  | none =>
    cases hu : u.byOutpoint.get? i.previousOutput with
    | none => exact ⟨res,by simp only [fillInput,hc,hu]⟩
    | some e =>
      obtain ⟨a,v⟩ := e
      have hun : dbs.unconsolidatedInput u a i = some ⟨i.previousOutput,v⟩ := by
        simp [ActiveSidechainDbs.unconsolidatedInput,hc,hu]
      obtain ⟨info,hinfo,-⟩ := hslot a (.inr (by simp [hun]))
      simp only [fillInput,hc,hu]
      exact ⟨_,Fallible.bind_ok.mpr ⟨info,by simp [hinfo],rfl⟩⟩

end Inputs

section FillCtips

variable [Bitcoin] (h dbs) (u : UnconsolidatedCtips) (tx : Transaction)

/-- What a transaction spends and creates of an active slot's treasury. -/
def slotInfo (s : SidechainNumber) : Option TxCtipsInfo :=
  if dbs.sidechain.contains s then
    (h.params.opDrivechain.slotOutputs tx.output.zipIdx s).head?.map
      (fun e => addInputs dbs u s tx.input (outputInfo tx.computeTxid e))
  else none

/-- A transaction creates at most one treasury output of each active slot, spends
at most one ctip of each slot, and replaces the treasury outputs that it spends. -/
structure TreasuryFormed : Prop where
  oneOutput : ∀ s, dbs.sidechain.contains s = true →
    (h.params.opDrivechain.slotOutputs tx.output.zipIdx s).length ≤ 1
  oneConsolidated : ∀ s, (dbs.consolidatedInputs s tx.input).length ≤ 1
  replaced : ∀ s, slotInfo h dbs u tx s = none →
    dbs.consolidatedInputs s tx.input = [] ∧ dbs.unconsolidatedInputs u s tx.input = []

variable {h dbs u tx}

theorem outputsRead_map {res : FinMap SidechainNumber TxCtipsInfo} {s : SidechainNumber}
    (hr : OutputsRead h dbs tx.computeTxid tx.output.zipIdx res) :
    (res.get? s).map (addInputs dbs u s tx.input) = slotInfo h dbs u tx s := by
  unfold slotInfo
  rcases hr s with ⟨hact,hn⟩ | ⟨hact,hl,hn⟩ | ⟨hact,e,hl,hsome⟩
  · simp [hact,hn]
  · simp [hact,hn,hl]
  · simp [hact,hsome,hl]

theorem outputsRead_none {res : FinMap SidechainNumber TxCtipsInfo} {s : SidechainNumber}
    (hr : OutputsRead h dbs tx.computeTxid tx.output.zipIdx res) :
    res.get? s = none ↔ slotInfo h dbs u tx s = none := by
  rw [← outputsRead_map (u := u) hr,Option.map_eq_none_iff]

theorem outputsRead_inputsRead_init {res : FinMap SidechainNumber TxCtipsInfo}
    (hr : OutputsRead h dbs tx.computeTxid tx.output.zipIdx res) : InputsRead dbs u res [] res := by
  apply inputsRead_init
  intro s info hs
  rcases hr s with ⟨-,hn⟩ | ⟨-,-,hn⟩ | ⟨-,e,-,hsome⟩
  · rw [hs] at hn; cases hn
  · rw [hs] at hn; cases hn
  · obtain rfl := Option.some.inj (hs.symm.trans hsome)
    exact ⟨rfl,rfl⟩

theorem fillCtips_succeeds (hf : TreasuryFormed h dbs u tx) :
    ∃ infos, h.fillCtips dbs u tx = .ok infos ∧ ∀ s, infos.get? s = slotInfo h dbs u tx s := by
  obtain ⟨res,hout,hor⟩ := fill_outputs_succeeds tx.computeTxid hf.oneOutput
  obtain ⟨infos,hin,hir⟩ := Fallible.foldlM_succeeds (f := fillInput dbs u) (InputsRead dbs u res)
    (l := tx.input) (outputsRead_inputsRead_init hor) (fun done i rest t hl hr => by
      obtain ⟨t',ht'⟩ := fillInput_succeeds hl hr hf.oneConsolidated
        (fun s hs => hf.replaced s ((outputsRead_none hor).mp hs))
      exact ⟨t',ht',inputsRead_step hr ht'⟩)
  exact ⟨infos,Fallible.bind_ok.mpr ⟨res,hout,hin⟩,fun s => by rw [(hir s).1,outputsRead_map hor]⟩

/-- It accepts no others, and finds what each of them spends and creates. -/
theorem fillCtips_ok {infos : FinMap SidechainNumber TxCtipsInfo} :
    h.fillCtips dbs u tx = .ok infos ↔
      TreasuryFormed h dbs u tx ∧ ∀ s, infos.get? s = slotInfo h dbs u tx s := by
  constructor
  · intro hfill
    obtain ⟨res,hout,hin⟩ := Fallible.bind_ok.mp hfill
    have hor := outputsRead_of_fill hout
    have hir := Fallible.foldlM_prefix (InputsRead dbs u res) hin (outputsRead_inputsRead_init hor)
      (fun done i rest t t' _ hr hs => inputsRead_step hr hs)
    refine ⟨⟨?_,fun s => (hir s).2.1,?_⟩,?_⟩
    · intro s hact
      rcases hor s with ⟨hn,-⟩ | ⟨-,hl,-⟩ | ⟨-,e,hl,-⟩
      · rw [hact] at hn; cases hn
      · simp [hl]
      · simp [hl]
    · intro s hs
      exact (hir s).2.2 ((outputsRead_none hor).mpr hs)
    · intro s
      rw [(hir s).1,outputsRead_map hor]
  · rintro ⟨hf,hget⟩
    obtain ⟨infos',hfill,hget'⟩ := fillCtips_succeeds hf
    have he : infos' = infos := by
      apply FinMap.ext
      intro s
      rw [hget,hget']
    exact he ▸ hfill

end FillCtips

end BlockHandler
end Bip300301Enforcer
