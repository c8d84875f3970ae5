import ChangeQuality.Interference

/-!
Systems that keep a record of what has happened. A property of the past is one of the record, and a
protocol of a system is one of the recording system, in which the preconditions may speak of it.
-/

namespace ChangeQuality.Histories

open ChangeQuality.Coroutine
open ChangeQuality.Interference

variable {Op : Type} {Reply : Op → Type} {ε τ χ σ ρ α : Type}

/-- What an operation enters into the record, from its outcome and the state before it. -/
abbrev Entries {Op : Type} (Reply : Op → Type) (ε τ σ ρ : Type) :=
  τ → (op : Op) → Except ε (Reply op) → σ → List ρ

/-- The system with its record. -/
def recording (exec : Semantics Reply ε τ χ σ) (entries : Entries Reply ε τ σ ρ) :
    Semantics Reply ε τ χ (σ × List ρ) :=
  fun t op choice s =>
    (exec t op choice s.1).map fun out => (out.1, out.2, s.2 ++ entries t op out.1 s.1)

variable {exec : Semantics Reply ε τ χ σ} {allowed : τ → Op → χ → σ → Prop}
  {entries : Entries Reply ε τ σ ρ}

theorem recording_eq_some {t : τ} {op : Op} {choice : χ} {s s' : σ × List ρ}
    {r : Except ε (Reply op)} (h : recording exec entries t op choice s = some (r, s')) :
    exec t op choice s.1 = some (r, s'.1) ∧ s'.2 = s.2 ++ entries t op r s.1 := by
  obtain ⟨⟨r', w⟩, hexec, heq⟩ := Option.map_eq_some_iff.mp h
  obtain ⟨rfl, rfl⟩ := Prod.mk.inj heq
  exact ⟨hexec, rfl⟩

/-- A protocol says the same of the recording system. -/
def recorded (P : Protocol exec allowed) (entries : Entries Reply ε τ σ ρ) :
    Protocol (recording exec entries) fun t op choice s => allowed t op choice s.1 where
  inv s := P.inv s.1
  rely t s s' := P.rely t s.1 s'.1
  pre t op s := P.pre t op s.1
  rely_refl t s := P.rely_refl t s.1
  rely_trans h h' := P.rely_trans h h'
  sound hinv hpre hallowed hexec := P.sound hinv hpre hallowed (recording_eq_some hexec).1

variable {P : Protocol exec allowed} {t : τ}

theorem Safe.recorded {Q : Except ε α → σ → Prop} {p : Program Reply ε α} {s : σ × List ρ}
    (h : Safe P t Q p s.1) : Safe (recorded P entries) t (fun r s => Q r s.1) p s := by
  induction p generalizing s with
  | done a => exact fun s' hrely hinv => h s'.1 hrely hinv
  | raise e => exact fun s' hrely hinv => h s'.1 hrely hinv
  | await op k ih =>
      intro s₁ hrely hinv₁
      obtain ⟨hpre, hk⟩ := h s₁.1 hrely hinv₁
      refine ⟨hpre, fun choice r s₂ hallowed hexec => ?_⟩
      exact ih r (hk choice r s₂.1 hallowed (recording_eq_some hexec).1)

theorem Triple.recorded {A : σ → Prop} {p : Program Reply ε α} {Q : α → σ → Prop}
    {E : ε → σ → Prop} (h : Triple P t A p Q E) :
    Triple (recorded P entries) t (fun s => A s.1) p (fun a s => Q a s.1) fun e s => E e s.1 := by
  intro s hinv hA
  refine Safe.mono ?_ (Safe.recorded (h s.1 hinv hA))
  rintro (e | a) s' - hr
  · exact hr
  · exact hr

section Runs

variable [DecidableEq τ] {spawnable : Program Reply ε Unit → Prop}

/-- Every run of a system is one of the recording system. -/
theorem Steps.recorded {c c' : Config Reply ε τ σ} (h : Steps exec spawnable allowed c c')
    (record : List ρ) : ∃ record' : List ρ, Steps (recording exec entries) spawnable
      (fun t op choice s => allowed t op choice s.1) ⟨(c.shared, record), c.task⟩
      ⟨(c'.shared, record'), c'.task⟩ := by
  induction h with
  | refl => exact ⟨record, .refl⟩
  | @tail mid _ _ hstep ih =>
      obtain ⟨record', hrun⟩ := ih
      cases hstep with
      | spawn htask hp => exact ⟨record', hrun.tail (.spawn htask hp)⟩
      | @resume t op k choice r w htask hallowed hexec =>
          have hrecorded : recording exec entries t op choice (mid.shared, record') =
              some (r, w, record' ++ entries t op r mid.shared) := by
            simp [recording, hexec]
          exact ⟨_, hrun.tail (.resume htask hallowed hrecorded)⟩

/-- A run of the recording system is one of the system. -/
theorem Steps.unrecorded {allowed' : τ → Op → χ → σ × List ρ → Prop}
    (hallowed : ∀ t op choice s, allowed' t op choice s → allowed t op choice s.1)
    {c c' : Config Reply ε τ (σ × List ρ)}
    (h : Steps (recording exec entries) spawnable allowed' c c') :
    Steps exec spawnable allowed ⟨c.shared.1, c.task⟩ ⟨c'.shared.1, c'.task⟩ := by
  induction h with
  | refl => exact .refl
  | @tail mid _ _ hstep ih =>
      cases hstep with
      | spawn htask hp => exact ih.tail (.spawn htask hp)
      | resume htask hop hexec =>
          exact ih.tail (.resume htask (hallowed _ _ _ _ hop) (recording_eq_some hexec).1)

end Runs

end ChangeQuality.Histories
