import Mathlib.Data.List.Forall2

/-! Inversion rules for computations that may fail, and induction rules for
loops that stop at the first failure. -/
namespace Lib
namespace Fallible

variable {ε α β σ : Type}

theorem bind_ok {x : Except ε α} {f : α → Except ε β} {b : β} :
    (x >>= f) = .ok b ↔ ∃ a, x = .ok a ∧ f a = .ok b := by
  cases x <;> simp [bind,Except.bind]

@[simp] theorem ok_bind (a : α) (f : α → Except ε β) : (Except.ok a >>= f) = f a := rfl

@[simp] theorem error_bind (e : ε) (f : α → Except ε β) :
    ((Except.error e : Except ε α) >>= f) = .error e := rfl

@[simp] theorem pure_ok (a b : α) : (pure a : Except ε α) = .ok b ↔ a = b := by
  simp [pure,Except.pure]

@[simp] theorem throw_ok (e : ε) (b : α) : (throw e : Except ε α) = .ok b ↔ False := by
  simp [throw,throwThe,MonadExceptOf.throw]

/-- A value that must be there. -/
def require (o : Option α) (e : ε) : Except ε α :=
  match o with
  | some a => .ok a
  | none => .error e

@[simp] theorem require_ok (o : Option α) (e : ε) (a : α) : require o e = .ok a ↔ o = some a := by
  cases o <;> simp [require]

@[simp] theorem require_some (a : α) (e : ε) : require (some a) e = .ok a := rfl

@[simp] theorem require_none (e : ε) : require (none : Option α) e = .error e := rfl

def ensure (b : Bool) (e : ε) : Except ε Unit := if b then .ok () else .error e

@[simp] theorem ensure_ok (b : Bool) (e : ε) (u : Unit) : ensure b e = .ok u ↔ b = true := by
  cases b <;> simp [ensure]

@[simp] theorem mapError_ok {ε' : Type} (x : Except ε α) (f : ε → ε') (a : α) :
    x.mapError f = .ok a ↔ x = .ok a := by
  cases x <;> simp [Except.mapError]

theorem exists_of_isOk {x : Except ε α} (h : x.isOk = true) : ∃ a, x = .ok a := by
  cases x with
  | ok a => exact ⟨a,rfl⟩
  | error e => cases h

theorem of_toOption {x : Except ε α} {a : α} (h : x.toOption = some a) : x = .ok a := by
  cases x with
  | error e => cases h
  | ok b => rw [Option.some.inj h]

theorem foldlM_prefix {f : σ → α → Except ε σ} (I : List α → σ → Prop) {l : List α} {s s' : σ}
    (h : l.foldlM f s = .ok s') (init : I [] s)
    (step : ∀ done a rest t t', l = done++a::rest → I done t → f t a = .ok t' → I (done++[a]) t') :
    I l s' := by
  have main : ∀ (rest done : List α) (t : σ), l = done++rest → I done t →
      rest.foldlM f t = .ok s' → I l s' := by
    intro rest
    induction rest with
    | nil =>
      intro done t hl hi hr
      simp only [List.foldlM_nil,pure_ok] at hr
      subst hr
      simpa [hl] using hi
    | cons a rest ih =>
      intro done t hl hi hr
      rw [List.foldlM_cons,bind_ok] at hr
      obtain ⟨t',ht,hr⟩ := hr
      exact ih (done++[a]) t' (by simp [hl]) (step done a rest t t' hl hi ht) hr
  exact main l [] s rfl init h

theorem foldlM_invariant {f : σ → α → Except ε σ} (I : σ → Prop) {l : List α} {s s' : σ}
    (h : l.foldlM f s = .ok s') (init : I s)
    (step : ∀ a t t', a ∈ l → I t → f t a = .ok t' → I t') : I s' :=
  foldlM_prefix (fun _ t => I t) h init
    (fun _ a _ t t' hl hi ht => step a t t' (by simp [hl]) hi ht)

theorem foldlM_congr {f g : σ → α → Except ε σ} (step : ∀ s a s', f s a = .ok s' ↔ g s a = .ok s')
    {l : List α} {s s' : σ} : l.foldlM f s = .ok s' ↔ l.foldlM g s = .ok s' := by
  induction l generalizing s with
  | nil => rfl
  | cons a l ih => simp only [List.foldlM_cons,bind_ok,step,ih]

theorem foldlM_commute {f : σ → α → Except ε σ} {g : σ → σ}
    (step : ∀ s a, f (g s) a = (f s a).map g) (l : List α) (s : σ) :
    l.foldlM f (g s) = (l.foldlM f s).map g := by
  induction l generalizing s with
  | nil => rfl
  | cons a l ih =>
    rw [List.foldlM_cons,List.foldlM_cons,step]
    cases f s a with
    | error e => rfl
    | ok t => exact ih t

theorem foldlM_succeeds {f : σ → α → Except ε σ} (I : List α → σ → Prop) {l : List α} {s : σ}
    (init : I [] s)
    (step : ∀ done a rest t, l = done++a::rest → I done t → ∃ t', f t a = .ok t' ∧ I (done++[a]) t') :
    ∃ s', l.foldlM f s = .ok s' ∧ I l s' := by
  have main : ∀ (rest done : List α) (t : σ), l = done++rest → I done t →
      ∃ s', rest.foldlM f t = .ok s' ∧ I l s' := by
    intro rest
    induction rest with
    | nil =>
      intro done t hl hi
      exact ⟨t,rfl,by simpa [hl] using hi⟩
    | cons a rest ih =>
      intro done t hl hi
      obtain ⟨t',ht,hi'⟩ := step done a rest t hl hi
      obtain ⟨s',hs,hs'⟩ := ih (done++[a]) t' (by simp [hl]) hi'
      exact ⟨s',by rw [List.foldlM_cons,ht]; exact hs,hs'⟩
  exact main l [] s rfl init

theorem mapM_eq_map {f : α → Except ε β} {g : α → β} (hf : ∀ a b, f a = .ok b → b = g a)
    {l : List α} {l' : List β} (h : l.mapM f = .ok l') : l' = l.map g := by
  induction l generalizing l' with
  | nil => simpa using ((pure_ok _ _).mp h).symm
  | cons a l ih =>
    rw [List.mapM_cons] at h
    obtain ⟨b,hb,h⟩ := bind_ok.mp h
    obtain ⟨bs,hbs,h⟩ := bind_ok.mp h
    obtain rfl := (pure_ok _ _).mp h
    rw [List.map_cons,hf a b hb,ih hbs]

theorem forall₂_left {R : α → β → Prop} {l : List α} {l' : List β} (h : List.Forall₂ R l l') {a : α}
    (ha : a ∈ l) : ∃ b ∈ l', R a b := by
  induction h with
  | nil => cases ha
  | @cons a' b l l' hab _ ih =>
    rcases List.mem_cons.mp ha with rfl | ha
    · exact ⟨b,List.mem_cons_self ..,hab⟩
    · obtain ⟨b',hb',hr⟩ := ih ha
      exact ⟨b',List.mem_cons_of_mem _ hb',hr⟩

theorem mapM_forall₂ {f : α → Except ε β} {l : List α} {l' : List β} (h : l.mapM f = .ok l') :
    List.Forall₂ (fun a b => f a = .ok b) l l' := by
  induction l generalizing l' with
  | nil =>
    obtain rfl := (pure_ok _ _).mp h
    exact .nil
  | cons a l ih =>
    rw [List.mapM_cons] at h
    obtain ⟨b,hb,h⟩ := bind_ok.mp h
    obtain ⟨bs,hbs,h⟩ := bind_ok.mp h
    obtain rfl := (pure_ok _ _).mp h
    exact .cons hb (ih hbs)

theorem mapM_results {f : α → Except ε β} {l : List α} {l' : List β} (h : l.mapM f = .ok l') :
    l'.length = l.length ∧ ∀ b ∈ l', ∃ a ∈ l, f a = .ok b := by
  have hall := mapM_forall₂ h
  exact ⟨hall.length_eq.symm,fun b hb => forall₂_left hall.flip hb⟩

theorem mapM_succeeds {f : α → Except ε β} {l : List α} (h : ∀ a ∈ l, ∃ b, f a = .ok b) :
    ∃ l', l.mapM f = .ok l' := by
  induction l with
  | nil => exact ⟨[],rfl⟩
  | cons a l ih =>
    obtain ⟨b,hb⟩ := h a (List.mem_cons_self ..)
    obtain ⟨l',hl'⟩ := ih (fun a' ha' => h a' (List.mem_cons_of_mem _ ha'))
    exact ⟨b::l',by rw [List.mapM_cons,hb,ok_bind,hl',ok_bind]; rfl⟩

def FailsOnly (P : ε → Prop) (x : Except ε α) : Prop := ∀ e, x = .error e → P e

namespace FailsOnly

variable {P : ε → Prop}

theorem ok (a : α) : FailsOnly P (.ok a : Except ε α) := by
  intro e he
  cases he

theorem pure (a : α) : FailsOnly P (Pure.pure a : Except ε α) := ok a

theorem error {e : ε} (he : P e) : FailsOnly P (.error e : Except ε α) := by
  intro e' h
  obtain rfl := Except.error.inj h
  exact he

theorem bind {x : Except ε α} {f : α → Except ε β} (hx : FailsOnly P x)
    (hf : ∀ a, x = .ok a → FailsOnly P (f a)) : FailsOnly P (x >>= f) := by
  cases x with
  | error e => exact error (hx e rfl)
  | ok a => exact hf a rfl

theorem of_ok {x : Except ε α} {a : α} (h : x = .ok a) : FailsOnly P x := by
  rw [h]
  exact ok a

theorem require {o : Option α} {e : ε} (h : o = none → P e) : FailsOnly P (require o e) := by
  cases o with
  | none => exact error (h rfl)
  | some a => exact ok a

theorem ensure {b : Bool} {e : ε} (h : b = false → P e) : FailsOnly P (ensure b e) := by
  cases b with
  | false => exact error (h rfl)
  | true => exact ok ()

theorem mapError {ε' : Type} {Q : ε' → Prop} {x : Except ε α} {f : ε → ε'} (hx : FailsOnly P x)
    (hf : ∀ e, P e → Q (f e)) : FailsOnly Q (x.mapError f) := by
  cases x with
  | error e => exact error (hf e (hx e rfl))
  | ok a => exact ok a

theorem succeeds {x : Except ε α} (hx : FailsOnly (fun _ => False) x) : ∃ a, x = .ok a := by
  cases x with
  | error e => exact absurd rfl (hx e)
  | ok a => exact ⟨a,rfl⟩

theorem foldlM {f : σ → α → Except ε σ} (I : List α → σ → Prop) {l : List α} {s : σ}
    (init : I [] s)
    (keep : ∀ done a rest t t', l = done++a::rest → I done t → f t a = .ok t' → I (done++[a]) t')
    (step : ∀ done a rest t, l = done++a::rest → I done t → FailsOnly P (f t a)) :
    FailsOnly P (l.foldlM f s) := by
  have main : ∀ (rest done : List α) (t : σ), l = done++rest → I done t →
      FailsOnly P (rest.foldlM f t) := by
    intro rest
    induction rest with
    | nil => intro done t _ _; exact pure t
    | cons a rest ih =>
      intro done t hl hi
      rw [List.foldlM_cons]
      refine bind (step done a rest t hl hi) (fun t' ht => ?_)
      exact ih (done++[a]) t' (by simp [hl]) (keep done a rest t t' hl hi ht)
  exact main l [] s rfl init

end FailsOnly

end Fallible
end Lib
