import Mathlib.Logic.Function.Basic
import Mathlib.Logic.Relation

/-!
Coroutines that await operations of an environment, and the configurations in which any number of
them take turns. A coroutine is a tree, so a source function is written down once and every
interleaving of its awaits with the other tasks is covered by the step relation.
-/

namespace ChangeQuality.Coroutine

/-- A coroutine returns, raises, or awaits one operation and resumes with what the operation
returned or raised. -/
inductive Program {Op : Type} (Reply : Op → Type) (ε α : Type) where
  | done (value : α)
  | raise (error : ε)
  | await (op : Op) (resume : Except ε (Reply op) → Program Reply ε α)

namespace Program

variable {Op : Type} {Reply : Op → Type} {ε α β : Type}

/-- Run `p`, then `f` on its value; an exception of `p` skips `f`. -/
def bind : Program Reply ε α → (α → Program Reply ε β) → Program Reply ε β
  | .done a, f => f a
  | .raise e, _ => .raise e
  | .await op k, f => .await op fun r => (k r).bind f

/-- `try p except e: handler e`. -/
def tryCatch : Program Reply ε α → (ε → Program Reply ε α) → Program Reply ε α
  | .done a, _ => .done a
  | .raise e, handler => handler e
  | .await op k, handler => .await op fun r => (k r).tryCatch handler

/-- Leave with the value or the exception of an earlier part. -/
def leave : Except ε α → Program Reply ε α
  | .ok a => .done a
  | .error e => .raise e

/-- `try p finally cleanup`: the cleanup runs on both exits and its own exception wins. -/
def ensuring : Program Reply ε α → Program Reply ε Unit → Program Reply ε α
  | .done a, cleanup => cleanup.bind fun _ => leave (.ok a)
  | .raise e, cleanup => cleanup.bind fun _ => leave (.error e)
  | .await op k, cleanup => .await op fun r => (k r).ensuring cleanup

instance : Monad (Program Reply ε) where
  pure := .done
  bind := .bind

instance : MonadExceptOf ε (Program Reply ε) where
  throw := .raise
  tryCatch := .tryCatch

/-- Await one operation and pass its value or its exception on. -/
def perform (op : Op) : Program Reply ε (Reply op) :=
  .await op leave

theorem bind_eq (p : Program Reply ε α) (f : α → Program Reply ε β) :
    (p >>= f) = p.bind f := rfl

/-- Every value that the program may return has the property. -/
def Returns (φ : α → Prop) : Program Reply ε α → Prop
  | .done a => φ a
  | .raise _ => True
  | .await _ k => ∀ r, Returns φ (k r)

theorem Returns.bind {φ : α → Prop} {ψ : β → Prop} {p : Program Reply ε α}
    {f : α → Program Reply ε β} (hp : Returns φ p) (hf : ∀ a, φ a → Returns ψ (f a)) :
    Returns ψ (p.bind f) := by
  induction p with
  | done a => exact hf a hp
  | raise e => trivial
  | await op k ih => exact fun r => ih r (hp r)

theorem returns_true (p : Program Reply ε α) : Returns (fun _ => True) p := by
  induction p with
  | done a => trivial
  | raise e => trivial
  | await op k ih => exact ih

end Program

/-- How the environment carries an operation out, from the task that awaits it, the environment's
choice (a reply, a failure) and the shared state. The result `none` says that the operation stays
blocked under this choice. -/
abbrev Semantics {Op : Type} (Reply : Op → Type) (ε τ χ σ : Type) :=
  τ → (op : Op) → χ → σ → Option (Except ε (Reply op) × σ)

/-- The shared state and, for each task that was started, what it has left to run. -/
structure Config {Op : Type} (Reply : Op → Type) (ε τ σ : Type) where
  shared : σ
  task : τ → Option (Program Reply ε Unit)

/-- One move of the scheduler. -/
inductive Move {Op : Type} (Reply : Op → Type) (ε τ χ : Type) where
  | spawn (t : τ) (program : Program Reply ε Unit)
  | resume (t : τ) (choice : χ)

section Machine

variable {Op : Type} {Reply : Op → Type} {ε τ χ σ : Type} [DecidableEq τ]

/-- A configuration in which no task was started. -/
def Config.idle (shared : σ) : Config Reply ε τ σ :=
  { shared, task := fun _ => none }

/-- One step: start a task that was never started, or let a waiting task's operation happen. The
`spawnable` programs are those of the component; `allowed` is the condition a run is subject to. -/
inductive Step (exec : Semantics Reply ε τ χ σ) (spawnable : Program Reply ε Unit → Prop)
    (allowed : τ → Op → χ → σ → Prop) : Config Reply ε τ σ → Config Reply ε τ σ → Prop
  | spawn {c : Config Reply ε τ σ} {t : τ} {p : Program Reply ε Unit} :
      c.task t = none → spawnable p →
      Step exec spawnable allowed c { c with task := Function.update c.task t (some p) }
  | resume {c : Config Reply ε τ σ} {t : τ} {op : Op}
      {k : Except ε (Reply op) → Program Reply ε Unit} {choice : χ}
      {r : Except ε (Reply op)} {w : σ} :
      c.task t = some (.await op k) → allowed t op choice c.shared →
      exec t op choice c.shared = some (r, w) →
      Step exec spawnable allowed c ⟨w, Function.update c.task t (some (k r))⟩

/-- Any number of steps. -/
abbrev Steps (exec : Semantics Reply ε τ χ σ) (spawnable : Program Reply ε Unit → Prop)
    (allowed : τ → Op → χ → σ → Prop) : Config Reply ε τ σ → Config Reply ε τ σ → Prop :=
  Relation.ReflTransGen (Step exec spawnable allowed)

/-- The condition that excludes no step. -/
def unrestricted (_ : τ) (_ : Op) (_ : χ) (_ : σ) : Prop := True

/-- A step is one of every component that has the program and admits the operation. -/
theorem Step.weaken {exec : Semantics Reply ε τ χ σ} {spawnable spawnable' : Program Reply ε Unit → Prop}
    {allowed allowed' : τ → Op → χ → σ → Prop} (hspawn : ∀ p, spawnable p → spawnable' p)
    (hallowed : ∀ t op choice w, allowed t op choice w → allowed' t op choice w)
    {c c' : Config Reply ε τ σ} (h : Step exec spawnable allowed c c') :
    Step exec spawnable' allowed' c c' := by
  cases h with
  | spawn htask hp => exact .spawn htask (hspawn _ hp)
  | resume htask hop hexec => exact .resume htask (hallowed _ _ _ _ hop) hexec

theorem Steps.weaken {exec : Semantics Reply ε τ χ σ}
    {spawnable spawnable' : Program Reply ε Unit → Prop}
    {allowed allowed' : τ → Op → χ → σ → Prop} (hspawn : ∀ p, spawnable p → spawnable' p)
    (hallowed : ∀ t op choice w, allowed t op choice w → allowed' t op choice w)
    {c c' : Config Reply ε τ σ} (h : Steps exec spawnable allowed c c') :
    Steps exec spawnable' allowed' c c' := by
  induction h with
  | refl => exact .refl
  | tail _ hstep ih => exact ih.tail (hstep.weaken hspawn hallowed)

section Schedules

variable (exec : Semantics Reply ε τ χ σ) (allowed : τ → Op → χ → σ → Prop)
  [∀ t op choice w, Decidable (allowed t op choice w)]

/-- Follow one move of the scheduler. -/
def next (c : Config Reply ε τ σ) : Move Reply ε τ χ → Option (Config Reply ε τ σ)
  | .spawn t p =>
      match c.task t with
      | none => some { c with task := Function.update c.task t (some p) }
      | some _ => none
  | .resume t choice =>
      match c.task t with
      | some (.await op k) =>
          if allowed t op choice c.shared then
            match exec t op choice c.shared with
            | some (r, w) => some ⟨w, Function.update c.task t (some (k r))⟩
            | none => none
          else none
      | _ => none

/-- Follow a whole schedule. -/
def follow (c : Config Reply ε τ σ) : List (Move Reply ε τ χ) → Option (Config Reply ε τ σ)
  | [] => some c
  | move :: rest => (next exec allowed c move).bind fun c' => follow c' rest

end Schedules

instance (t : τ) (op : Op) (choice : χ) (w : σ) : Decidable (unrestricted t op choice w) :=
  inferInstanceAs (Decidable True)

/-- The programs that a schedule starts. -/
def started : List (Move Reply ε τ χ) → List (Program Reply ε Unit)
  | [] => []
  | .spawn _ p :: rest => p :: started rest
  | .resume _ _ :: rest => started rest

variable {exec : Semantics Reply ε τ χ σ} {allowed : τ → Op → χ → σ → Prop}
  [∀ t op choice w, Decidable (allowed t op choice w)]
  {spawnable : Program Reply ε Unit → Prop} {c c' : Config Reply ε τ σ}

theorem next_step {move : Move Reply ε τ χ} (hspawn : ∀ t p, move = .spawn t p → spawnable p)
    (h : next exec allowed c move = some c') : Step exec spawnable allowed c c' := by
  cases move with
  | spawn t p =>
      simp only [next] at h
      split at h
      · rename_i htask
        obtain rfl := Option.some.inj h
        exact .spawn htask (hspawn t p rfl)
      · simp at h
  | resume t choice =>
      simp only [next] at h
      split at h
      · rename_i op k htask
        split at h
        · rename_i hallowed
          split at h
          · rename_i r w hexec
            obtain rfl := Option.some.inj h
            exact .resume htask hallowed hexec
          · simp at h
        · simp at h
      · simp at h

/-- What a schedule leads to is reached by steps. -/
theorem follow_steps {moves : List (Move Reply ε τ χ)}
    (hspawn : ∀ p ∈ started moves, spawnable p) (h : follow exec allowed c moves = some c') :
    Steps exec spawnable allowed c c' := by
  induction moves generalizing c with
  | nil =>
      obtain rfl := Option.some.inj h
      exact .refl
  | cons move rest ih =>
      simp only [follow, Option.bind_eq_some_iff] at h
      obtain ⟨mid, hmid, hrest⟩ := h
      have hhead : ∀ t p, move = .spawn t p → spawnable p := by
        rintro t p rfl
        exact hspawn p (by simp [started])
      have htail : ∀ p ∈ started rest, spawnable p := by
        intro p hp
        cases move with
        | spawn t q => exact hspawn p (by simp [started, hp])
        | resume t choice => exact hspawn p (by simpa [started] using hp)
      exact .head (next_step hhead hmid) (ih htail hrest)

/-- The task that a move is about. -/
def Move.task : Move Reply ε τ χ → τ
  | .spawn t _ => t
  | .resume t _ => t

theorem next_task {move : Move Reply ε τ χ} {t : τ} (ht : move.task ≠ t)
    (h : next exec allowed c move = some c') : c'.task t = c.task t := by
  cases move with
  | spawn t' p =>
      simp only [next] at h
      split at h
      · obtain rfl := Option.some.inj h
        exact Function.update_of_ne ht.symm _ _
      · simp at h
  | resume t' choice =>
      simp only [next] at h
      split at h
      · split at h
        · split at h
          · obtain rfl := Option.some.inj h
            exact Function.update_of_ne ht.symm _ _
          · simp at h
        · simp at h
      · simp at h

/-- A schedule leaves the tasks alone that it does not name. -/
theorem follow_task {moves : List (Move Reply ε τ χ)} {t : τ} (ht : t ∉ moves.map Move.task)
    (h : follow exec allowed c moves = some c') : c'.task t = c.task t := by
  induction moves generalizing c with
  | nil =>
      obtain rfl := Option.some.inj h
      rfl
  | cons move rest ih =>
      simp only [follow, Option.bind_eq_some_iff] at h
      obtain ⟨mid, hmid, hrest⟩ := h
      rw [List.map_cons, List.mem_cons, not_or] at ht
      exact (ih ht.2 hrest).trans (next_task (Ne.symm ht.1) hmid)

end Machine

end ChangeQuality.Coroutine
