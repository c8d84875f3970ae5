import ChangeQuality.Interference

/-!
One coroutine on its own. In an environment whose choices are a function of the operation and the
state, what it ends with is a function of the state it starts from; in one that chooses freely, a
protocol without other tasks says what it may end with.
-/

namespace ChangeQuality.Solo

open ChangeQuality.Coroutine
open ChangeQuality.Interference

variable {Op : Type} {Reply : Op → Type} {ε τ χ σ α β : Type}

section Carry

variable (exec : Semantics Reply ε τ χ σ) (choose : Op → σ → χ) (t : τ)

/-- What the coroutine ends with; `none` when an operation of it stays blocked. -/
def carryOut : Program Reply ε α → σ → Option (Except ε α × σ)
  | .done a, w => some (.ok a, w)
  | .raise e, w => some (.error e, w)
  | .await op k, w => (exec t op (choose op w) w).bind fun out => carryOut (k out.1) out.2

/-- The coroutine, run from the first state, ends like that in the second one. -/
def Yields (p : Program Reply ε α) (w : σ) (r : Except ε α) (w' : σ) : Prop :=
  carryOut exec choose t p w = some (r, w')

end Carry

variable {exec : Semantics Reply ε τ χ σ} {choose : Op → σ → χ} {t : τ}
  {p : Program Reply ε α} {w w₁ w' : σ} {a : α} {e : ε}

/-- A coroutine ends in one way only. -/
theorem Yields.unique {r r' : Except ε α} (h : Yields exec choose t p w r w₁)
    (h' : Yields exec choose t p w r' w') : r = r' ∧ w₁ = w' :=
  Prod.mk.inj (Option.some.inj (h.symm.trans h'))

theorem Yields.done : Yields exec choose t (.done a : Program Reply ε α) w (.ok a) w := rfl

theorem Yields.raise : Yields exec choose t (.raise e : Program Reply ε α) w (.error e) w := rfl

theorem Yields.await {op : Op} {k : Except ε (Reply op) → Program Reply ε α}
    {out : Except ε (Reply op)} {r : Except ε α} (hexec : exec t op (choose op w) w = some (out, w₁))
    (h : Yields exec choose t (k out) w₁ r w') : Yields exec choose t (.await op k) w r w' := by
  unfold Yields carryOut
  rw [hexec]
  exact h

theorem Yields.leave {r : Except ε α} :
    Yields exec choose t (Program.leave r : Program Reply ε α) w r w := by
  cases r <;> rfl

theorem Yields.perform {op : Op} {out : Except ε (Reply op)}
    (hexec : exec t op (choose op w) w = some (out, w')) :
    Yields exec choose t (Program.perform op) w out w' :=
  .await hexec .leave

theorem Yields.bind {f : α → Program Reply ε β} {r : Except ε β}
    (hp : Yields exec choose t p w (.ok a) w₁) (hf : Yields exec choose t (f a) w₁ r w') :
    Yields exec choose t (p.bind f) w r w' := by
  induction p generalizing w with
  | done b =>
      obtain ⟨hb, rfl⟩ := Prod.mk.inj (Option.some.inj hp)
      obtain rfl := Except.ok.inj hb
      exact hf
  | raise e => cases (Prod.mk.inj (Option.some.inj hp)).1
  | await op k ih =>
      obtain ⟨⟨out, mid⟩, hexec, hk⟩ := Option.bind_eq_some_iff.mp hp
      exact .await hexec (ih out hk)

theorem Yields.bind_error {f : α → Program Reply ε β}
    (hp : Yields exec choose t p w (.error e) w') :
    Yields exec choose t (p.bind f) w (.error e) w' := by
  induction p generalizing w with
  | done b => cases (Prod.mk.inj (Option.some.inj hp)).1
  | raise e' =>
      obtain ⟨he, rfl⟩ := Prod.mk.inj (Option.some.inj hp)
      obtain rfl := Except.error.inj he
      exact .raise
  | await op k ih =>
      obtain ⟨⟨out, mid⟩, hexec, hk⟩ := Option.bind_eq_some_iff.mp hp
      exact .await hexec (ih out hk)

theorem Yields.tryCatch {handler : ε → Program Reply ε α}
    (hp : Yields exec choose t p w (.ok a) w') :
    Yields exec choose t (p.tryCatch handler) w (.ok a) w' := by
  induction p generalizing w with
  | done b => exact hp
  | raise e => cases (Prod.mk.inj (Option.some.inj hp)).1
  | await op k ih =>
      obtain ⟨⟨out, mid⟩, hexec, hk⟩ := Option.bind_eq_some_iff.mp hp
      exact .await hexec (ih out hk)

theorem Yields.tryCatch_error {handler : ε → Program Reply ε α} {r : Except ε α}
    (hp : Yields exec choose t p w (.error e) w₁)
    (hhandler : Yields exec choose t (handler e) w₁ r w') :
    Yields exec choose t (p.tryCatch handler) w r w' := by
  induction p generalizing w with
  | done b => cases (Prod.mk.inj (Option.some.inj hp)).1
  | raise e' =>
      obtain ⟨he, rfl⟩ := Prod.mk.inj (Option.some.inj hp)
      obtain rfl := Except.error.inj he
      exact hhandler
  | await op k ih =>
      obtain ⟨⟨out, mid⟩, hexec, hk⟩ := Option.bind_eq_some_iff.mp hp
      exact .await hexec (ih out hk)

/-- The cleanup runs on both exits. -/
theorem Yields.ensuring {cleanup : Program Reply ε Unit} {r : Except ε α}
    (hp : Yields exec choose t p w r w₁) (hcleanup : Yields exec choose t cleanup w₁ (.ok ()) w') :
    Yields exec choose t (p.ensuring cleanup) w r w' := by
  induction p generalizing w with
  | done b =>
      obtain ⟨rfl, rfl⟩ := Prod.mk.inj (Option.some.inj hp)
      exact hcleanup.bind .leave
  | raise e =>
      obtain ⟨rfl, rfl⟩ := Prod.mk.inj (Option.some.inj hp)
      exact hcleanup.bind .leave
  | await op k ih =>
      obtain ⟨⟨out, mid⟩, hexec, hk⟩ := Option.bind_eq_some_iff.mp hp
      exact .await hexec (ih out hk)

/-- The exception of the cleanup wins. -/
theorem Yields.ensuring_error {cleanup : Program Reply ε Unit} {r : Except ε α}
    (hp : Yields exec choose t p w r w₁)
    (hcleanup : Yields exec choose t cleanup w₁ (.error e) w') :
    Yields exec choose t (p.ensuring cleanup) w (.error e) w' := by
  induction p generalizing w with
  | done b =>
      obtain ⟨rfl, rfl⟩ := Prod.mk.inj (Option.some.inj hp)
      exact hcleanup.bind_error
  | raise e' =>
      obtain ⟨rfl, rfl⟩ := Prod.mk.inj (Option.some.inj hp)
      exact hcleanup.bind_error
  | await op k ih =>
      obtain ⟨⟨out, mid⟩, hexec, hk⟩ := Option.bind_eq_some_iff.mp hp
      exact .await hexec (ih out hk)

/-- The coroutine, run with no other task, ends like that for some choices of the environment. -/
def MayEnd (exec : Semantics Reply ε τ χ σ) (t : τ) :
    Program Reply ε α → σ → Except ε α → σ → Prop
  | .done a, w, r, w' => r = .ok a ∧ w' = w
  | .raise e, w, r, w' => r = .error e ∧ w' = w
  | .await op k, w, r, w' =>
      ∃ choice out mid, exec t op choice w = some (out, mid) ∧ MayEnd exec t (k out) mid r w'

/-- What comes of the choices of `choose` may come of free choices. -/
theorem Yields.mayEnd {r : Except ε α} (h : Yields exec choose t p w r w') :
    MayEnd exec t p w r w' := by
  induction p generalizing w with
  | done b =>
      obtain ⟨rfl, rfl⟩ := Prod.mk.inj (Option.some.inj h)
      exact ⟨rfl, rfl⟩
  | raise e =>
      obtain ⟨rfl, rfl⟩ := Prod.mk.inj (Option.some.inj h)
      exact ⟨rfl, rfl⟩
  | await op k ih =>
      obtain ⟨⟨out, mid⟩, hexec, hk⟩ := Option.bind_eq_some_iff.mp h
      exact ⟨choose op w, out, mid, hexec, ih out hk⟩

/-- The coroutine, run with no other task, comes by that state for some choices of the environment,
whether or not it ends. -/
def MayReach (exec : Semantics Reply ε τ χ σ) (t : τ) : Program Reply ε α → σ → σ → Prop
  | .done _, w, w' => w' = w
  | .raise _, w, w' => w' = w
  | .await op k, w, w' => w' = w ∨
      ∃ choice out mid, exec t op choice w = some (out, mid) ∧ MayReach exec t (k out) mid w'

/-- Run with no other task, in an environment that makes allowed choices only, the coroutine is never
left blocked and ends with `Q`. -/
def Completes (exec : Semantics Reply ε τ χ σ) (allowed : τ → Op → χ → σ → Prop) (t : τ)
    (Q : Except ε α → σ → Prop) : Program Reply ε α → σ → Prop
  | .done a, w => Q (.ok a) w
  | .raise e, w => Q (.error e) w
  | .await op k, w =>
      (∃ choice, allowed t op choice w ∧ (exec t op choice w).isSome) ∧
        ∀ choice r w', allowed t op choice w → exec t op choice w = some (r, w') →
          Completes exec allowed t Q (k r) w'

section Completes

variable {allowed : τ → Op → χ → σ → Prop}

theorem Completes.mono {Q Q' : Except ε α → σ → Prop} (h : Completes exec allowed t Q p w)
    (hQ : ∀ r w, Q r w → Q' r w) : Completes exec allowed t Q' p w := by
  induction p generalizing w with
  | done a => exact hQ _ _ h
  | raise e => exact hQ _ _ h
  | await op k ih =>
      exact ⟨h.1, fun choice r w' hallowed hexec => ih r (h.2 choice r w' hallowed hexec)⟩

theorem Completes.leave {Q : Except ε α → σ → Prop} {r : Except ε α} (h : Q r w) :
    Completes exec allowed t Q (Program.leave r) w := by
  cases r <;> exact h

theorem Completes.bind {f : α → Program Reply ε β} {Q : Except ε β → σ → Prop}
    (h : Completes exec allowed t
      (outcome (fun a => Completes exec allowed t Q (f a)) fun e => Q (.error e)) p w) :
    Completes exec allowed t Q (p.bind f) w := by
  induction p generalizing w with
  | done a => exact h
  | raise e => exact h
  | await op k ih =>
      exact ⟨h.1, fun choice r w' hallowed hexec => ih r (h.2 choice r w' hallowed hexec)⟩

theorem Completes.tryCatch {handler : ε → Program Reply ε α} {Q : Except ε α → σ → Prop}
    (h : Completes exec allowed t
      (outcome (fun a => Q (.ok a)) fun e => Completes exec allowed t Q (handler e)) p w) :
    Completes exec allowed t Q (p.tryCatch handler) w := by
  induction p generalizing w with
  | done a => exact h
  | raise e => exact h
  | await op k ih =>
      exact ⟨h.1, fun choice r w' hallowed hexec => ih r (h.2 choice r w' hallowed hexec)⟩

theorem Completes.ensuring {cleanup : Program Reply ε Unit} {Q : Except ε α → σ → Prop}
    (h : Completes exec allowed t (fun r => Completes exec allowed t
      (outcome (fun _ => Q r) fun e => Q (.error e)) cleanup) p w) :
    Completes exec allowed t Q (p.ensuring cleanup) w := by
  have hleave : ∀ r w, Completes exec allowed t (outcome (fun _ => Q r) fun e => Q (.error e))
      cleanup w → Completes exec allowed t Q (cleanup.bind fun _ => .leave r) w := by
    intro r w hcleanup
    refine Completes.bind (hcleanup.mono ?_)
    rintro (e | a) w' hr
    · exact hr
    · exact .leave hr
  induction p generalizing w with
  | done a => exact hleave _ _ h
  | raise e => exact hleave _ _ h
  | await op k ih =>
      exact ⟨h.1, fun choice r w' hallowed hexec => ih r (h.2 choice r w' hallowed hexec)⟩

end Completes

/-- The protocol of a task that no other task interferes with. -/
def alone (t : τ) (inv : σ → Prop) (pre : Op → σ → Prop)
    (keeps : ∀ {op choice w r w'}, inv w → pre op w → exec t op choice w = some (r, w') → inv w') :
    Protocol exec unrestricted where
  inv := inv
  rely t' w w' := t' = t → w' = w
  pre t' op w := t' = t ∧ pre op w
  rely_refl _ _ _ := rfl
  rely_trans h₁ h₂ ht := (h₂ ht).trans (h₁ ht)
  sound := by
    rintro t' op choice w r w' hinv ⟨rfl, hpre⟩ - hexec
    exact ⟨keeps hinv hpre hexec, fun t'' hne ht => (hne ht).elim⟩

section Alone

variable {inv : σ → Prop} {pre : Op → σ → Prop}
  {keeps : ∀ {op choice w r w'}, inv w → pre op w → exec t op choice w = some (r, w') → inv w'}

theorem alone_stable (A : σ → Prop) : Stable (alone t inv pre keeps) t A :=
  fun _ _ _ h hrely _ => hrely rfl ▸ h

/-- A program that is safe on its own ends with its postcondition and keeps the invariant. -/
theorem mayEnd_of_safe {Q : Except ε α → σ → Prop} {r : Except ε α} (hinv : inv w)
    (h : Safe (alone t inv pre keeps) t Q p w) (hend : MayEnd exec t p w r w') :
    inv w' ∧ Q r w' := by
  induction p generalizing w with
  | done a =>
      obtain ⟨rfl, rfl⟩ := hend
      exact ⟨hinv, h _ (fun _ => rfl) hinv⟩
  | raise e =>
      obtain ⟨rfl, rfl⟩ := hend
      exact ⟨hinv, h _ (fun _ => rfl) hinv⟩
  | await op k ih =>
      obtain ⟨choice, out, mid, hexec, hrest⟩ := hend
      obtain ⟨⟨-, hpre⟩, hk⟩ := h w (fun _ => rfl) hinv
      exact ih out (keeps hinv hpre hexec) (hk choice out mid trivial hexec) hrest

/-- A program that is safe on its own keeps the invariant at every point. -/
theorem mayReach_of_safe {Q : Except ε α → σ → Prop} (hinv : inv w)
    (h : Safe (alone t inv pre keeps) t Q p w) (hreach : MayReach exec t p w w') : inv w' := by
  induction p generalizing w with
  | done a => exact hreach ▸ hinv
  | raise e => exact hreach ▸ hinv
  | await op k ih =>
      rcases hreach with rfl | ⟨choice, out, mid, hexec, hrest⟩
      · exact hinv
      · obtain ⟨⟨-, hpre⟩, hk⟩ := h w (fun _ => rfl) hinv
        exact ih out (keeps hinv hpre hexec) (hk choice out mid trivial hexec) hrest

end Alone

end ChangeQuality.Solo
