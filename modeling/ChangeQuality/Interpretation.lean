import ChangeQuality.Interference

/-!
Interpretations. A program over one kind of operations becomes a program over another kind when
every operation is replaced by a program that carries it out.
-/

namespace ChangeQuality.Interpretation

open ChangeQuality.Coroutine
open ChangeQuality.Interference

variable {Op Op' : Type} {Reply : Op → Type} {Reply' : Op' → Type} {ε τ χ σ α β γ : Type}

/-- Run `p` and go on with what it returned or raised. -/
def attempt : Program Reply ε α → (Except ε α → Program Reply ε β) → Program Reply ε β
  | .done a, f => f (.ok a)
  | .raise e, f => f (.error e)
  | .await op k, f => .await op fun r => attempt (k r) f

/-- The program with its operations carried out by `f`. -/
def interpret (f : (op : Op) → Program Reply' ε (Reply op)) :
    Program Reply ε α → Program Reply' ε α
  | .done a => .done a
  | .raise e => .raise e
  | .await op k => attempt (f op) fun r => interpret f (k r)

theorem attempt_bind (p : Program Reply ε α) (f : Except ε α → Program Reply ε β)
    (g : β → Program Reply ε γ) : (attempt p f).bind g = attempt p fun r => (f r).bind g := by
  induction p with
  | done a => rfl
  | raise e => rfl
  | await op k ih => exact congrArg (Program.await op) (funext ih)

theorem attempt_tryCatch (p : Program Reply ε α) (f : Except ε α → Program Reply ε β)
    (handler : ε → Program Reply ε β) :
    (attempt p f).tryCatch handler = attempt p fun r => (f r).tryCatch handler := by
  induction p with
  | done a => rfl
  | raise e => rfl
  | await op k ih => exact congrArg (Program.await op) (funext ih)

theorem attempt_ensuring (p : Program Reply ε α) (f : Except ε α → Program Reply ε β)
    (cleanup : Program Reply ε Unit) :
    (attempt p f).ensuring cleanup = attempt p fun r => (f r).ensuring cleanup := by
  induction p with
  | done a => rfl
  | raise e => rfl
  | await op k ih => exact congrArg (Program.await op) (funext ih)

theorem attempt_leave (p : Program Reply ε α) : attempt p Program.leave = p := by
  induction p with
  | done a => rfl
  | raise e => rfl
  | await op k ih => exact congrArg (Program.await op) (funext ih)

section Equations

variable (f : (op : Op) → Program Reply' ε (Reply op))

theorem interpret_leave (r : Except ε α) :
    interpret f (Program.leave r : Program Reply ε α) = Program.leave r := by
  cases r <;> rfl

theorem interpret_bind (p : Program Reply ε α) (g : α → Program Reply ε β) :
    interpret f (p.bind g) = (interpret f p).bind fun a => interpret f (g a) := by
  induction p with
  | done a => rfl
  | raise e => rfl
  | await op k ih =>
      simp only [Program.bind, interpret, attempt_bind]
      exact congrArg (attempt (f op)) (funext ih)

theorem interpret_tryCatch (p : Program Reply ε α) (handler : ε → Program Reply ε α) :
    interpret f (p.tryCatch handler) =
      (interpret f p).tryCatch fun e => interpret f (handler e) := by
  induction p with
  | done a => rfl
  | raise e => rfl
  | await op k ih =>
      simp only [Program.tryCatch, interpret, attempt_tryCatch]
      exact congrArg (attempt (f op)) (funext ih)

theorem interpret_ensuring (p : Program Reply ε α) (cleanup : Program Reply ε Unit) :
    interpret f (p.ensuring cleanup) = (interpret f p).ensuring (interpret f cleanup) := by
  induction p with
  | done a =>
      simp only [Program.ensuring, interpret, interpret_bind, interpret_leave]
  | raise e =>
      simp only [Program.ensuring, interpret, interpret_bind, interpret_leave]
  | await op k ih =>
      simp only [Program.ensuring, interpret, attempt_ensuring]
      exact congrArg (attempt (f op)) (funext ih)

/-- A single operation becomes the program that carries it out. -/
theorem interpret_perform (op : Op) :
    interpret f (Program.perform op : Program Reply ε (Reply op)) = f op := by
  simp only [Program.perform, interpret, interpret_leave]
  exact attempt_leave (f op)

end Equations

section Rules

variable {f : (op : Op) → Program Reply' ε (Reply op)} {S : Op → Prop} {S' : Op' → Prop}

theorem Uses.attempt {p : Program Reply' ε α} {g : Except ε α → Program Reply' ε β}
    (hp : Uses S' p) (hg : ∀ r, Uses S' (g r)) : Uses S' (attempt p g) := by
  induction p with
  | done a => exact hg (.ok a)
  | raise e => exact hg (.error e)
  | await op k ih => exact ⟨hp.1, fun r => ih r (hp.2 r)⟩

/-- What an interpreted program awaits, from what each operation becomes. -/
theorem Uses.interpret {p : Program Reply ε α} (hp : Uses S p)
    (hf : ∀ op, S op → Uses S' (f op)) : Uses S' (interpret f p) := by
  induction p with
  | done a => trivial
  | raise e => trivial
  | await op k ih => exact Uses.attempt (hf op hp.1) fun r => ih r (hp.2 r)

variable {exec : Semantics Reply' ε τ χ σ} {allowed : τ → Op' → χ → σ → Prop}
  {P : Protocol exec allowed} {t : τ} {A : σ → Prop}

theorem triple_perform {op : Op} {Q : Reply op → σ → Prop} {E : ε → σ → Prop}
    (h : Triple P t A (f op) Q E) :
    Triple P t A (interpret f (Program.perform op : Program Reply ε (Reply op))) Q E := by
  rw [interpret_perform]
  exact h

theorem triple_bind {p : Program Reply ε α} {g : α → Program Reply ε β} {B : α → σ → Prop}
    {Q : β → σ → Prop} {E : ε → σ → Prop} (hp : Triple P t A (interpret f p) B E)
    (hg : ∀ a, Triple P t (B a) (interpret f (g a)) Q E) :
    Triple P t A (interpret f (p.bind g)) Q E := by
  rw [interpret_bind]
  exact Triple.bind hp hg

theorem triple_tryCatch {p : Program Reply ε α} {handler : ε → Program Reply ε α}
    {B : ε → σ → Prop} {Q : α → σ → Prop} {E : ε → σ → Prop}
    (hp : Triple P t A (interpret f p) Q B)
    (hhandler : ∀ e, Triple P t (B e) (interpret f (handler e)) Q E) :
    Triple P t A (interpret f (p.tryCatch handler)) Q E := by
  rw [interpret_tryCatch]
  exact Triple.tryCatch hp hhandler

theorem triple_ensuring {p : Program Reply ε α} {cleanup : Program Reply ε Unit}
    {B : α → σ → Prop} {C : ε → σ → Prop} {Q : α → σ → Prop} {E : ε → σ → Prop}
    (hQ : ∀ a, Stable P t (Q a)) (hE : ∀ e, Stable P t (E e))
    (hp : Triple P t A (interpret f p) B C)
    (hvalue : ∀ a, Triple P t (B a) (interpret f cleanup) (fun _ => Q a) E)
    (herror : ∀ e, Triple P t (C e) (interpret f cleanup) (fun _ => E e) E) :
    Triple P t A (interpret f (p.ensuring cleanup)) Q E := by
  rw [interpret_ensuring]
  exact Triple.ensuring hQ hE hp hvalue herror

end Rules

end ChangeQuality.Interpretation
