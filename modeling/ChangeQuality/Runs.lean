import Mathlib.Data.Option.Basic

/-!
Runs of a machine given by a partial step function: the moves that the environment makes, one after
the other, and the conditions that every step of a run may be subject to.
-/

namespace ChangeQuality.Runs

variable {σ μ : Type} (step : μ → σ → Option σ)

/-- The state after some moves; `none` when one of them is not possible. -/
def run : List μ → σ → Option σ
  | [], s => some s
  | m :: ms, s => (step m s).bind (run ms)

/-- Every step of a run meets a condition on the move and the state before it. -/
def Along (allowed : μ → σ → Prop) : List μ → σ → Prop
  | [], _ => True
  | m :: ms, s => allowed m s ∧ ∀ s' ∈ step m s, Along allowed ms s'

/-- Every state of a run has a property. -/
def Throughout (P : σ → Prop) : List μ → σ → Prop
  | [], s => P s
  | m :: ms, s => P s ∧ ∀ s' ∈ step m s, Throughout P ms s'

/-- A decision procedure for conditions along a run. -/
def decideAlong (allowed : μ → σ → Prop) [∀ m s, Decidable (allowed m s)] :
    (ms : List μ) → (s : σ) → Decidable (Along step allowed ms s)
  | [], _ => isTrue trivial
  | m :: ms, s =>
      match hm : step m s with
      | none => decidable_of_iff (allowed m s) (by simp [Along, hm])
      | some s' =>
          have := decideAlong allowed ms s'
          decidable_of_iff (allowed m s ∧ Along step allowed ms s') (by simp [Along, hm])

instance (allowed : μ → σ → Prop) [∀ m s, Decidable (allowed m s)] (ms : List μ) (s : σ) :
    Decidable (Along step allowed ms s) :=
  decideAlong step allowed ms s

variable {step} {ms : List μ} {s s' : σ}

theorem run_cons {m : μ} (h : run step (m :: ms) s = some s') :
    ∃ mid, step m s = some mid ∧ run step ms mid = some s' :=
  Option.bind_eq_some_iff.mp h

/-- What every step keeps, a run keeps. -/
theorem run_invariant {I : σ → Prop}
    (hstep : ∀ m s s', I s → step m s = some s' → I s') (hs : I s)
    (h : run step ms s = some s') : I s' := by
  induction ms generalizing s with
  | nil => exact Option.some.inj h ▸ hs
  | cons m ms ih =>
      obtain ⟨mid, hmid, hrest⟩ := run_cons h
      exact ih (hstep m s mid hs hmid) hrest

/-- What every allowed step keeps, a run of allowed steps keeps. -/
theorem run_invariant_along {allowed : μ → σ → Prop} {I : σ → Prop}
    (hstep : ∀ m s s', I s → allowed m s → step m s = some s' → I s') (hs : I s)
    (halong : Along step allowed ms s) (h : run step ms s = some s') : I s' := by
  induction ms generalizing s with
  | nil => exact Option.some.inj h ▸ hs
  | cons m ms ih =>
      obtain ⟨mid, hmid, hrest⟩ := run_cons h
      exact ih (hstep m s mid hs halong.1 hmid) (halong.2 mid hmid) hrest

/-- A condition on the moves alone. -/
theorem along_of_forall {allowed : μ → σ → Prop} (h : ∀ m ∈ ms, ∀ s, allowed m s) (s : σ) :
    Along step allowed ms s := by
  induction ms generalizing s with
  | nil => exact trivial
  | cons m ms ih =>
      obtain ⟨hhead, hrest⟩ := List.forall_mem_cons.mp h
      exact ⟨hhead s, fun mid _ => ih hrest mid⟩

/-- A condition that an invariant of the allowed steps gives at each of them. -/
theorem along_of_invariant {allowed Q : μ → σ → Prop} {I : σ → Prop}
    (hstep : ∀ m s s', I s → allowed m s → step m s = some s' → I s')
    (hgives : ∀ m s, I s → allowed m s → Q m s) (hs : I s) (halong : Along step allowed ms s) :
    Along step Q ms s := by
  induction ms generalizing s with
  | nil => exact trivial
  | cons m ms ih =>
      refine ⟨hgives m s hs halong.1, fun mid hmid => ?_⟩
      exact ih (hstep m s mid hs halong.1 hmid) (halong.2 mid hmid)

/-- Under an invariant, conditions that are equivalent at each step are equivalent along a run. -/
theorem along_congr {P Q : μ → σ → Prop} {I : σ → Prop}
    (hstep : ∀ m s s', I s → step m s = some s' → I s')
    (hiff : ∀ m s, I s → (P m s ↔ Q m s)) (hs : I s) :
    Along step P ms s ↔ Along step Q ms s := by
  induction ms generalizing s with
  | nil => exact Iff.rfl
  | cons m ms ih =>
      refine and_congr (hiff m s hs) ?_
      constructor
      · intro h mid hmid
        exact (ih (hstep m s mid hs hmid)).mp (h mid hmid)
      · intro h mid hmid
        exact (ih (hstep m s mid hs hmid)).mpr (h mid hmid)

/-- A property that a step keeps exactly when it meets a condition holds after a run exactly when
all steps of the run meet the condition. -/
theorem run_iff_along {P : σ → Prop} {allowed : μ → σ → Prop} {I : σ → Prop}
    (hinv : ∀ m s s', I s → step m s = some s' → I s')
    (hstep : ∀ m s s', I s → step m s = some s' → (P s' ↔ P s ∧ allowed m s))
    (hs : I s) (h : run step ms s = some s') : P s' ↔ P s ∧ Along step allowed ms s := by
  induction ms generalizing s with
  | nil =>
      obtain rfl := Option.some.inj h
      simp [Along]
  | cons m ms ih =>
      obtain ⟨mid, hmid, hrest⟩ := run_cons h
      rw [ih (hinv m s mid hs hmid) hrest, hstep m s mid hs hmid]
      simp [Along, hmid, and_assoc]

theorem Throughout.head {P : σ → Prop} (h : Throughout step P ms s) : P s := by
  cases ms with
  | nil => exact h
  | cons m ms => exact h.1

theorem Throughout.last {P : σ → Prop} (hall : Throughout step P ms s)
    (h : run step ms s = some s') : P s' := by
  induction ms generalizing s with
  | nil => exact Option.some.inj h ▸ hall
  | cons m ms ih =>
      obtain ⟨mid, hmid, hrest⟩ := run_cons h
      exact ih (hall.2 mid hmid) hrest

/-- If, from a state with a property, a step leads to one exactly when it meets a condition, then
every state of a run has the property exactly when every step meets the condition. -/
theorem throughout_iff_along {P : σ → Prop} {allowed : μ → σ → Prop} {I : σ → Prop}
    (hinv : ∀ m s s', I s → step m s = some s' → I s')
    (hstep : ∀ m s s', I s → P s → step m s = some s' → (P s' ↔ allowed m s))
    (hs : I s) (hP : P s) (h : run step ms s = some s') :
    Throughout step P ms s ↔ Along step allowed ms s := by
  induction ms generalizing s with
  | nil => exact iff_of_true hP trivial
  | cons m ms ih =>
      obtain ⟨mid, hmid, hrest⟩ := run_cons h
      have hiff := hstep m s mid hs hP hmid
      simp only [Throughout, Along, hmid, Option.mem_def, Option.some.injEq, forall_eq']
      constructor
      · rintro ⟨_, hlater⟩
        exact ⟨hiff.mp hlater.head, (ih (hinv m s mid hs hmid) hlater.head hrest).mp hlater⟩
      · rintro ⟨hallowed, hlater⟩
        exact ⟨hP, (ih (hinv m s mid hs hmid) (hiff.mpr hallowed) hrest).mpr hlater⟩

end ChangeQuality.Runs
