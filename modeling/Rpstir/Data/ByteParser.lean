import Rpstir.Data.Bytes

/-!
This module contains parsers that read a buffer from its start and may find that it is too short. A
lawful one does not look at the bytes after those it reads.
-/

inductive ByteResult (ε α : Type) where
  | done (a : α) (rest : List UInt8)
  | truncated
  | fail (e : ε)
  deriving DecidableEq

structure ByteParser (ε α : Type) where
  run : List UInt8 → ByteResult ε α

namespace ByteParser

open List

variable {ε α β : Type}

protected def pure (a : α) : ByteParser ε α where
  run buffer := .done a buffer

protected def bind (p : ByteParser ε α) (f : α → ByteParser ε β) : ByteParser ε β where
  run buffer :=
    match p.run buffer with
    | .done a rest => (f a).run rest
    | .truncated => .truncated
    | .fail e => .fail e

instance : Monad (ByteParser ε) where
  pure := ByteParser.pure
  bind := ByteParser.bind

def fail (e : ε) : ByteParser ε α where
  run _ := .fail e

def check (c : Bool) (e : ε) : ByteParser ε Unit :=
  if c then pure () else fail e

def ofOption (o : Option α) (e : ε) : ByteParser ε α :=
  match o with
  | some a => pure a
  | none => fail e

def take (n : Nat) : ByteParser ε (FixedBytes n) where
  run buffer :=
    if h : n ≤ buffer.length then
      .done ⟨buffer.take n, length_take_of_le h⟩ (buffer.drop n)
    else
      .truncated

variable {p : ByteParser ε α} {f : α → ByteParser ε β} {buffer rest : List UInt8}

theorem run_bind
    : (p >>= f).run buffer
        =
      match p.run buffer with
      | .done a rest => (f a).run rest
      | .truncated => .truncated
      | .fail e => .fail e := by
  rfl

theorem run_bind_of_done {a : α} (h : p.run buffer = .done a rest)
    : (p >>= f).run buffer = (f a).run rest := by
  rw [run_bind, h]

@[simp]
theorem pure_eq_done_iff {a a' : α}
    : (pure a : ByteParser ε α).run buffer = .done a' rest ↔ a = a' ∧ buffer = rest := by
  change ByteResult.done a buffer = _ ↔ _
  simp

@[simp]
theorem bind_eq_done_iff {b : β}
    : (p >>= f).run buffer = .done b rest
        ↔
      ∃ a rest', p.run buffer = .done a rest' ∧ (f a).run rest' = .done b rest := by
  rw [run_bind]
  cases p.run buffer <;> simp

theorem bind_eq_fail_iff {e : ε}
    : (p >>= f).run buffer = .fail e
        ↔
      p.run buffer = .fail e ∨ ∃ a rest', p.run buffer = .done a rest' ∧ (f a).run rest' = .fail e := by
  rw [run_bind]
  cases p.run buffer <;> simp

@[simp]
theorem check_eq_done_iff {c : Bool} {e : ε} {a : Unit}
    : (check c e).run buffer = .done a rest ↔ c = true ∧ buffer = rest := by
  cases c <;> simp [check, fail]

@[simp]
theorem ofOption_eq_done_iff {o : Option α} {e : ε} {a : α}
    : (ofOption o e).run buffer = .done a rest ↔ o = some a ∧ buffer = rest := by
  cases o <;> simp [ofOption, fail]

theorem take_append {n : Nat} (l : FixedBytes n) (rest : List UInt8)
    : (take n : ByteParser ε _).run (l.val ++ rest) = .done l rest := by
  rcases l with ⟨l, rfl⟩
  simp [take]

@[simp]
theorem take_eq_done_iff {n : Nat} {l : FixedBytes n}
    : (take n : ByteParser ε _).run buffer = .done l rest ↔ buffer = l.val ++ rest := by
  constructor
  . intro h
    unfold take at h
    dsimp only at h
    split at h
    . cases h
      simp
    . cases h
  . rintro rfl
    exact take_append l rest

theorem bind_eq_truncated_iff
    : (p >>= f).run buffer = .truncated
        ↔
      p.run buffer = .truncated ∨
        ∃ a rest', p.run buffer = .done a rest' ∧ (f a).run rest' = .truncated := by
  rw [run_bind]
  cases p.run buffer <;> simp

structure Lawful (p : ByteParser ε α) : Prop where
  done : ∀ {buffer : List UInt8} {a : α} {rest : List UInt8}, p.run buffer = .done a rest →
    ∃ used, buffer = used ++ rest ∧ ∀ rest', p.run (used ++ rest') = .done a rest'
  fail : ∀ {buffer : List UInt8} {e : ε}, p.run buffer = .fail e →
    ∀ more, p.run (buffer ++ more) = .fail e

namespace Lawful

protected theorem pure (a : α) : Lawful (pure a : ByteParser ε α) where
  done := by
    intro buffer a' rest h
    cases h
    exact ⟨[], rfl, fun _ => rfl⟩
  fail := by
    intro buffer e h
    cases h

protected theorem bind (hp : Lawful p) (hf : ∀ a, Lawful (f a)) : Lawful (p >>= f) where
  done := by
    intro buffer b rest h
    rcases bind_eq_done_iff.mp h with ⟨a, mid, hpa, hfa⟩
    rcases hp.done hpa with ⟨used, rfl, hused⟩
    rcases (hf a).done hfa with ⟨used', rfl, hused'⟩
    refine ⟨used ++ used', by rw [append_assoc], ?_⟩
    intro rest'
    rw [append_assoc, run_bind_of_done (hused _), hused']
  fail := by
    intro buffer e h more
    rcases bind_eq_fail_iff.mp h with hfail | ⟨a, mid, hpa, hfa⟩
    . rw [run_bind, hp.fail hfail]
    . rcases hp.done hpa with ⟨used, rfl, hused⟩
      rw [append_assoc, run_bind_of_done (hused _), (hf a).fail hfa]

theorem throw (e : ε) : Lawful (ByteParser.fail e : ByteParser ε α) where
  done := by
    intro buffer _ _ h
    cases h
  fail := by
    intro buffer _ h _
    cases h
    rfl

theorem check (c : Bool) (e : ε) : Lawful (check c e) := by
  unfold ByteParser.check
  split
  . exact .pure ()
  . exact throw e

theorem ofOption (o : Option α) (e : ε) : Lawful (ofOption o e) := by
  cases o with
  | none => exact throw e
  | some a => exact .pure a

protected theorem take (n : Nat) : Lawful (take n : ByteParser ε _) where
  done := by
    intro buffer l _ h
    exact ⟨l.val, take_eq_done_iff.mp h, take_append l⟩
  fail := by
    intro buffer e h
    unfold ByteParser.take at h
    dsimp only at h
    split at h <;> cases h

end Lawful

structure Width (p : ByteParser ε α) (n : Nat) : Prop where
  done : ∀ {buffer : List UInt8} {a : α} {rest : List UInt8}, p.run buffer = .done a rest →
    buffer.length = n + rest.length
  truncated : ∀ {buffer : List UInt8}, p.run buffer = .truncated → buffer.length < n

namespace Width

variable {n m : Nat}

protected theorem pure (a : α) : Width (pure a : ByteParser ε α) 0 where
  done := by
    intro buffer a' rest h
    cases h
    simp
  truncated := by
    intro buffer h
    cases h

protected theorem bind (hp : Width p n) (hf : ∀ a, Width (f a) m) : Width (p >>= f) (n + m) where
  done := by
    intro buffer b rest h
    rcases bind_eq_done_iff.mp h with ⟨a, mid, hpa, hfa⟩
    rw [hp.done hpa, (hf a).done hfa, Nat.add_assoc]
  truncated := by
    intro buffer h
    rcases bind_eq_truncated_iff.mp h with hpa | ⟨a, mid, hpa, hfa⟩
    . have := hp.truncated hpa
      omega
    . have := hp.done hpa
      have := (hf a).truncated hfa
      omega

theorem throw (e : ε) (n : Nat) : Width (ByteParser.fail e : ByteParser ε α) n where
  done := by
    intro buffer _ _ h
    cases h
  truncated := by
    intro buffer h
    cases h

theorem check (c : Bool) (e : ε) : Width (check c e) 0 := by
  unfold ByteParser.check
  split
  . exact .pure ()
  . exact throw e 0

theorem ofOption (o : Option α) (e : ε) : Width (ofOption o e) 0 := by
  cases o with
  | none => exact throw e 0
  | some a => exact .pure a

protected theorem take (n : Nat) : Width (take n : ByteParser ε _) n where
  done := by
    intro buffer l _ h
    rw [take_eq_done_iff.mp h, length_append, l.property]
  truncated := by
    intro buffer h
    unfold ByteParser.take at h
    dsimp only at h
    split at h
    . cases h
    . omega

end Width
end ByteParser
