import Bip300301Enforcer.Lib.Fallible
import Mathlib.Data.List.Infix

/-! Readers of a slice of bytes, composed of readers of its fields. -/
namespace Lib

/-- A reader takes bytes from the front and leaves the rest. -/
abbrev SliceReader (ε : Type) := StateT (List UInt8) (Except ε)

namespace SliceReader

variable {ε α β : Type}

def readExact (eof : ε) (len : ℕ) : SliceReader ε (List UInt8) := fun bytes =>
  if bytes.length < len then .error eof else .ok (bytes.take len,bytes.drop len)

def readIf (present : Bool) (read : SliceReader ε α) : SliceReader ε (Option α) :=
  if present then some <$> read else pure none

/-- A number of fields of one kind. -/
def readMany (read : SliceReader ε α) : ℕ → SliceReader ε (List α)
  | 0 => pure []
  | n+1 => do
    let a ← read
    let as ← readMany read n
    return a::as

def ensure (b : Bool) (err : ε) : SliceReader ε Unit := fun bytes =>
  if b then .ok ((),bytes) else .error err

/-- A reader gives a value for some bytes and leaves what follows them. -/
def Reads (read : SliceReader ε α) (bytes : List UInt8) (a : α) : Prop :=
  ∀ rest, read (bytes++rest) = .ok (a,rest)

namespace Reads

theorem pure (a : α) : Reads (Pure.pure a : SliceReader ε α) [] a := fun _ => rfl

theorem bind_apply {read : SliceReader ε α} {next : α → SliceReader ε β} {bytes : List UInt8}
    {a : α} (hread : Reads read bytes a) (rest : List UInt8) :
    (read >>= next) (bytes++rest) = next a rest := by
  show (read (bytes++rest) >>= fun out => next out.1 out.2) = next a rest
  rw [hread]
  rfl

theorem bind {read : SliceReader ε α} {next : α → SliceReader ε β} {as bs : List UInt8} {a : α}
    {b : β} (hread : Reads read as a) (hnext : Reads (next a) bs b) :
    Reads (read >>= next) (as++bs) b := by
  intro rest
  rw [List.append_assoc,hread.bind_apply]
  exact hnext rest

theorem map {read : SliceReader ε α} {bytes : List UInt8} {a : α} (hread : Reads read bytes a)
    (f : α → β) : Reads (f <$> read) bytes (f a) := by
  intro rest
  show (fun out => (f out.1,out.2)) <$> read (bytes++rest) = .ok (f a,rest)
  rw [hread]
  rfl

theorem readExact (eof : ε) (bytes : List UInt8) :
    Reads (SliceReader.readExact eof bytes.length) bytes bytes := by
  intro rest
  rw [SliceReader.readExact,if_neg (by simp),List.take_left,List.drop_left]

theorem readIf {read : SliceReader ε α} {bytes : List UInt8} {a : α}
    (hread : Reads read bytes a) (present : Bool) :
    Reads (readIf present read) (if present then bytes else [])
      (if present then some a else none) := by
  cases present with
  | true => exact hread.map some
  | false => exact Reads.pure none

theorem readMany {read : SliceReader ε α} {encode : α → List UInt8} {as : List α}
    (hread : ∀ a ∈ as, Reads read (encode a) a) :
    Reads (readMany read as.length) (as.flatMap encode) as := by
  induction as with
  | nil => exact Reads.pure []
  | cons a as ih =>
    have htail := (ih fun b hb => hread b (List.mem_cons_of_mem _ hb)).map (a::·)
    exact (hread a List.mem_cons_self).bind htail

theorem ensure {b : Bool} (hb : b = true) (err : ε) : Reads (ensure b err) [] () := by
  intro rest
  rw [SliceReader.ensure,if_pos hb]
  rfl

end Reads

theorem map_ok {read : SliceReader ε α} {f : α → β} {bytes rest : List UInt8} {b : β}
    (h : (f <$> read) bytes = .ok (b,rest)) : ∃ a, read bytes = .ok (a,rest) ∧ f a = b := by
  have hmap : (fun out => (f out.1,out.2)) <$> read bytes = .ok (b,rest) := h
  rcases hout : read bytes with err | ⟨a,mid⟩
  · rw [hout] at hmap
    cases hmap
  · rw [hout] at hmap
    obtain ⟨⟨⟩⟩ := hmap
    exact ⟨a,rfl,rfl⟩

def Consumes (read : SliceReader ε α) : Prop :=
  ∀ bytes a rest, read bytes = .ok (a,rest) → rest <:+ bytes

def Advances (read : SliceReader ε α) : Prop :=
  ∀ bytes a rest, read bytes = .ok (a,rest) → rest <:+ bytes ∧ rest.length < bytes.length

namespace Consumes

theorem pure (a : α) : Consumes (Pure.pure a : SliceReader ε α) := by
  rintro bytes b rest ⟨⟩
  exact List.suffix_rfl

theorem bind {read : SliceReader ε α} {next : α → SliceReader ε β} (hread : Consumes read)
    (hnext : ∀ a, Consumes (next a)) : Consumes (read >>= next) := by
  intro bytes b rest h
  obtain ⟨⟨a,mid⟩,ha,hb⟩ := Fallible.bind_ok.mp h
  exact (hnext a mid b rest hb).trans (hread bytes a mid ha)

theorem map {read : SliceReader ε α} (hread : Consumes read) (f : α → β) :
    Consumes (f <$> read) := by
  intro bytes b rest h
  obtain ⟨a,ha,-⟩ := map_ok h
  exact hread bytes a rest ha

theorem readExact (eof : ε) (len : ℕ) : Consumes (readExact eof len) := by
  intro bytes a rest h
  unfold SliceReader.readExact at h
  split at h
  · cases h
  · obtain ⟨⟨⟩⟩ := h
    exact List.drop_suffix ..

theorem ensure (b : Bool) (err : ε) : Consumes (ensure b err) := by
  intro bytes a rest h
  unfold SliceReader.ensure at h
  split at h
  · obtain ⟨⟨⟩⟩ := h
    exact List.suffix_rfl
  · cases h

theorem readMany {read : SliceReader ε α} (hread : Consumes read) (n : ℕ) :
    Consumes (readMany read n) := by
  induction n with
  | zero => exact Consumes.pure []
  | succ n ih => exact hread.bind fun a => ih.bind fun as => Consumes.pure (a::as)

end Consumes

theorem Advances.readExact (eof : ε) {len : ℕ} (hlen : 0 < len) :
    Advances (SliceReader.readExact eof len) := by
  intro bytes a rest h
  refine ⟨Consumes.readExact eof len bytes a rest h,?_⟩
  unfold SliceReader.readExact at h
  split at h
  · cases h
  · obtain ⟨⟨⟩⟩ := h
    rw [List.length_drop]
    omega

theorem Advances.map {read : SliceReader ε α} (hread : Advances read) (f : α → β) :
    Advances (f <$> read) := by
  intro bytes b rest h
  obtain ⟨a,ha,-⟩ := map_ok h
  exact hread bytes a rest ha

theorem Advances.bind {read : SliceReader ε α} {next : α → SliceReader ε β}
    (hread : Advances read) (hnext : ∀ a, Consumes (next a)) : Advances (read >>= next) := by
  intro bytes b rest h
  obtain ⟨⟨a,mid⟩,ha,hb⟩ := Fallible.bind_ok.mp h
  obtain ⟨hsuffix,hlt⟩ := hread bytes a mid ha
  have hrest := hnext a mid b rest hb
  exact ⟨hrest.trans hsuffix,lt_of_le_of_lt hrest.length_le hlt⟩

/-- How often `readMany` reads before it ends or fails. -/
def rounds (read : SliceReader ε α) : ℕ → List UInt8 → ℕ
  | 0, _ => 0
  | n+1, bytes =>
    match read bytes with
    | .error _ => 1
    | .ok (_,rest) => rounds read n rest+1

theorem Advances.rounds_le {read : SliceReader ε α} (hread : Advances read) (n : ℕ)
    (bytes : List UInt8) : rounds read n bytes ≤ bytes.length+1 := by
  induction n generalizing bytes with
  | zero => exact Nat.zero_le _
  | succ n ih =>
    unfold rounds
    split
    · exact Nat.le_add_left ..
    · rename_i a rest hok
      have hlt := (hread bytes a rest hok).2
      have hle := ih rest
      omega

end SliceReader
end Lib
