import ChangeQuality.Coroutine

/-!
A program logic for coroutines that share a state. A protocol fixes what holds of the state at
every step (`inv`), what the other tasks may do between two awaits of a task (`rely`) and what a
task must have established before it awaits an operation (`pre`). A program is verified once,
against any interference, and the verdict holds in every interleaving.
-/

namespace ChangeQuality.Interference

open ChangeQuality.Coroutine

variable {Op : Type} {Reply : Op → Type} {ε τ χ σ α β : Type}

/-- The discipline that the tasks of a system keep. `sound` says that an operation awaited under its
precondition keeps the invariant and looks to every other task like permitted interference. -/
structure Protocol (exec : Semantics Reply ε τ χ σ) (allowed : τ → Op → χ → σ → Prop) where
  inv : σ → Prop
  rely : τ → σ → σ → Prop
  pre : τ → Op → σ → Prop
  rely_refl : ∀ t w, rely t w w
  rely_trans : ∀ {t w₁ w₂ w₃}, rely t w₁ w₂ → rely t w₂ w₃ → rely t w₁ w₃
  sound : ∀ {t op choice w r w'}, inv w → pre t op w → allowed t op choice w →
    exec t op choice w = some (r, w') → inv w' ∧ ∀ t', t' ≠ t → rely t' w w'

section Logic

variable {exec : Semantics Reply ε τ χ σ} {allowed : τ → Op → χ → σ → Prop}
  (P : Protocol exec allowed)

/-- From state `w`, whatever the other tasks do within `rely`, task `t` meets the precondition of
every operation that the program awaits and ends with `Q`. -/
def Safe (t : τ) (Q : Except ε α → σ → Prop) : Program Reply ε α → σ → Prop
  | .done a, w => ∀ w', P.rely t w w' → P.inv w' → Q (.ok a) w'
  | .raise e, w => ∀ w', P.rely t w w' → P.inv w' → Q (.error e) w'
  | .await op k, w => ∀ w₁, P.rely t w w₁ → P.inv w₁ →
      P.pre t op w₁ ∧ ∀ choice r w₂, allowed t op choice w₁ →
        exec t op choice w₁ = some (r, w₂) → Safe t Q (k r) w₂

/-- An assertion that the other tasks cannot falsify. -/
def Stable (t : τ) (A : σ → Prop) : Prop :=
  ∀ w w', P.inv w → A w → P.rely t w w' → P.inv w' → A w'

/-- A postcondition for both exits. -/
def outcome (Q : α → σ → Prop) (E : ε → σ → Prop) : Except ε α → σ → Prop
  | .ok a => Q a
  | .error e => E e

/-- `p` run by `t` from a state with `A` ends with `Q` on its value or with `E` on its exception. -/
def Triple (t : τ) (A : σ → Prop) (p : Program Reply ε α) (Q : α → σ → Prop)
    (E : ε → σ → Prop) : Prop :=
  ∀ w, P.inv w → A w → Safe P t (outcome Q E) p w

/-- A protocol on top of another one, for runs that keep the lower one. It adds an invariant and
what the tasks rely on, and has preconditions of its own. -/
def Protocol.extend (inv : σ → Prop) (rely : τ → σ → σ → Prop) (pre : τ → Op → σ → Prop)
    (rely_refl : ∀ t w, rely t w w)
    (rely_trans : ∀ {t w₁ w₂ w₃}, rely t w₁ w₂ → rely t w₂ w₃ → rely t w₁ w₃)
    (sound : ∀ {t op choice w r w'}, P.inv w → inv w → P.pre t op w → pre t op w →
      allowed t op choice w → exec t op choice w = some (r, w') →
      P.inv w' → inv w' ∧ ∀ t', t' ≠ t → P.rely t' w w' → rely t' w w') :
    Protocol exec fun t op choice w => allowed t op choice w ∧ P.pre t op w where
  inv w := P.inv w ∧ inv w
  rely t w w' := P.rely t w w' ∧ rely t w w'
  pre := pre
  rely_refl t w := ⟨P.rely_refl t w, rely_refl t w⟩
  rely_trans h₁ h₂ := ⟨P.rely_trans h₁.1 h₂.1, rely_trans h₁.2 h₂.2⟩
  sound hinv hpre hallowed hexec := by
    obtain ⟨hbase, hbaseRely⟩ := P.sound hinv.1 hallowed.2 hallowed.1 hexec
    obtain ⟨htop, htopRely⟩ := sound hinv.1 hinv.2 hallowed.2 hpre hallowed.1 hexec hbase
    exact ⟨⟨hbase, htop⟩, fun t' hne =>
      ⟨hbaseRely t' hne, htopRely t' hne (hbaseRely t' hne)⟩⟩

/-- The protocol for fewer runs. -/
def Protocol.restrict {allowed' : τ → Op → χ → σ → Prop}
    (h : ∀ {t op choice w}, allowed' t op choice w → allowed t op choice w) :
    Protocol exec allowed' :=
  { P with sound := fun hinv hpre hallowed hexec => P.sound hinv hpre (h hallowed) hexec }

variable {P} {t : τ}

theorem Safe.restrict {allowed' : τ → Op → χ → σ → Prop}
    {h : ∀ {t op choice w}, allowed' t op choice w → allowed t op choice w}
    {Q : Except ε α → σ → Prop} {p : Program Reply ε α} {w : σ} (hsafe : Safe P t Q p w) :
    Safe (P.restrict h) t Q p w := by
  induction p generalizing w with
  | done a => exact hsafe
  | raise e => exact hsafe
  | await op k ih =>
      intro w₁ hrely hinv
      obtain ⟨hpre, hk⟩ := hsafe w₁ hrely hinv
      exact ⟨hpre, fun choice r w₂ hallowed hexec => ih r (hk choice r w₂ (h hallowed) hexec)⟩

theorem Safe.interfere {Q : Except ε α → σ → Prop} {p : Program Reply ε α} {w w' : σ}
    (h : Safe P t Q p w) (hrely : P.rely t w w') : Safe P t Q p w' := by
  cases p with
  | done a => exact fun w₁ h₁ => h w₁ (P.rely_trans hrely h₁)
  | raise e => exact fun w₁ h₁ => h w₁ (P.rely_trans hrely h₁)
  | await op k => exact fun w₁ h₁ => h w₁ (P.rely_trans hrely h₁)

/-- The state after an operation that `t` awaited under its precondition. -/
theorem Protocol.inv_exec {op : Op} {choice : χ} {r : Except ε (Reply op)} {w w' : σ}
    (hinv : P.inv w) (hpre : P.pre t op w) (hallowed : allowed t op choice w)
    (hexec : exec t op choice w = some (r, w')) : P.inv w' :=
  (P.sound hinv hpre hallowed hexec).1

theorem Safe.mono {Q Q' : Except ε α → σ → Prop} (hQ : ∀ r w, P.inv w → Q r w → Q' r w)
    {p : Program Reply ε α} {w : σ} (h : Safe P t Q p w) : Safe P t Q' p w := by
  induction p generalizing w with
  | done a => exact fun w' hrely hinv => hQ _ w' hinv (h w' hrely hinv)
  | raise e => exact fun w' hrely hinv => hQ _ w' hinv (h w' hrely hinv)
  | await op k ih =>
      intro w₁ hrely hinv
      obtain ⟨hpre, hk⟩ := h w₁ hrely hinv
      exact ⟨hpre, fun choice r w₂ hallowed hexec => ih r (hk choice r w₂ hallowed hexec)⟩

theorem Safe.bind {f : α → Program Reply ε β} {Q : Except ε β → σ → Prop}
    {p : Program Reply ε α} {w : σ} (hinv : P.inv w)
    (h : Safe P t (outcome (fun a => Safe P t Q (f a)) fun e => Q (.error e)) p w) :
    Safe P t Q (p.bind f) w := by
  induction p generalizing w with
  | done a => exact h w (P.rely_refl t w) hinv
  | raise e => exact h
  | await op k ih =>
      intro w₁ hrely hinv₁
      obtain ⟨hpre, hk⟩ := h w₁ hrely hinv₁
      refine ⟨hpre, fun choice r w₂ hallowed hexec => ?_⟩
      exact ih r (P.inv_exec hinv₁ hpre hallowed hexec) (hk choice r w₂ hallowed hexec)

theorem Safe.tryCatch {handler : ε → Program Reply ε α} {Q : Except ε α → σ → Prop}
    {p : Program Reply ε α} {w : σ} (hinv : P.inv w)
    (h : Safe P t (outcome (fun a => Q (.ok a)) fun e => Safe P t Q (handler e)) p w) :
    Safe P t Q (p.tryCatch handler) w := by
  induction p generalizing w with
  | done a => exact h
  | raise e => exact h w (P.rely_refl t w) hinv
  | await op k ih =>
      intro w₁ hrely hinv₁
      obtain ⟨hpre, hk⟩ := h w₁ hrely hinv₁
      refine ⟨hpre, fun choice r w₂ hallowed hexec => ?_⟩
      exact ih r (P.inv_exec hinv₁ hpre hallowed hexec) (hk choice r w₂ hallowed hexec)

theorem Safe.ensuring {cleanup : Program Reply ε Unit} {Q : Except ε α → σ → Prop}
    {p : Program Reply ε α} {w : σ} (hinv : P.inv w)
    (h : Safe P t (fun r => Safe P t Q (cleanup.bind fun _ => .leave r)) p w) :
    Safe P t Q (p.ensuring cleanup) w := by
  induction p generalizing w with
  | done a => exact h w (P.rely_refl t w) hinv
  | raise e => exact h w (P.rely_refl t w) hinv
  | await op k ih =>
      intro w₁ hrely hinv₁
      obtain ⟨hpre, hk⟩ := h w₁ hrely hinv₁
      refine ⟨hpre, fun choice r w₂ hallowed hexec => ?_⟩
      exact ih r (P.inv_exec hinv₁ hpre hallowed hexec) (hk choice r w₂ hallowed hexec)

theorem Safe.leave {Q : Except ε α → σ → Prop} {r : Except ε α} {w : σ}
    (hstable : Stable P t (Q r)) (hinv : P.inv w) (h : Q r w) :
    Safe P t Q (Program.leave r) w := by
  cases r with
  | ok a => exact fun w' hrely hinv' => hstable w w' hinv h hrely hinv'
  | error e => exact fun w' hrely hinv' => hstable w w' hinv h hrely hinv'

theorem Stable.and {A B : σ → Prop} (hA : Stable P t A) (hB : Stable P t B) :
    Stable P t fun w => A w ∧ B w :=
  fun w w' hinv h hrely hinv' =>
    ⟨hA w w' hinv h.1 hrely hinv', hB w w' hinv h.2 hrely hinv'⟩

theorem Stable.or {A B : σ → Prop} (hA : Stable P t A) (hB : Stable P t B) :
    Stable P t fun w => A w ∨ B w := by
  rintro w w' hinv (h | h) hrely hinv'
  · exact .inl (hA w w' hinv h hrely hinv')
  · exact .inr (hB w w' hinv h hrely hinv')

theorem Stable.exists {ι : Sort*} {A : ι → σ → Prop} (hA : ∀ i, Stable P t (A i)) :
    Stable P t fun w => ∃ i, A i w := by
  rintro w w' hinv ⟨i, h⟩ hrely hinv'
  exact ⟨i, hA i w w' hinv h hrely hinv'⟩

theorem Stable.const (φ : Prop) : Stable P t fun _ => φ :=
  fun _ _ _ h _ _ => h

theorem Triple.done {A : σ → Prop} {a : α} {Q : α → σ → Prop} {E : ε → σ → Prop}
    (hstable : Stable P t (Q a)) (h : ∀ w, P.inv w → A w → Q a w) :
    Triple P t A (.done a) Q E :=
  fun w hinv hA w' hrely hinv' => hstable w w' hinv (h w hinv hA) hrely hinv'

theorem Triple.raise {A : σ → Prop} {e : ε} {Q : α → σ → Prop} {E : ε → σ → Prop}
    (hstable : Stable P t (E e)) (h : ∀ w, P.inv w → A w → E e w) :
    Triple P t A (.raise e) Q E :=
  fun w hinv hA w' hrely hinv' => hstable w w' hinv (h w hinv hA) hrely hinv'

/-- The rule of one operation: a stable assertion that gives the precondition, and postconditions
that hold after every outcome the environment may choose. -/
theorem Triple.perform {A : σ → Prop} {op : Op} {Q : Reply op → σ → Prop} {E : ε → σ → Prop}
    (hA : Stable P t A) (hQ : ∀ a, Stable P t (Q a)) (hE : ∀ e, Stable P t (E e))
    (hpre : ∀ w, P.inv w → A w → P.pre t op w)
    (hpost : ∀ w choice r w', P.inv w → A w → P.inv w' → allowed t op choice w →
      exec t op choice w = some (r, w') → outcome Q E r w') :
    Triple P t A (Program.perform op) Q E := by
  intro w hinv h w₁ hrely hinv₁
  have h₁ : A w₁ := hA w w₁ hinv h hrely hinv₁
  refine ⟨hpre w₁ hinv₁ h₁, fun choice r w₂ hallowed hexec => ?_⟩
  have hinv₂ : P.inv w₂ := P.inv_exec hinv₁ (hpre w₁ hinv₁ h₁) hallowed hexec
  refine Safe.leave ?_ hinv₂ (hpost w₁ choice r w₂ hinv₁ h₁ hinv₂ hallowed hexec)
  cases r with
  | ok a => exact hQ a
  | error e => exact hE e

theorem Triple.bind {A : σ → Prop} {p : Program Reply ε α} {f : α → Program Reply ε β}
    {B : α → σ → Prop} {Q : β → σ → Prop} {E : ε → σ → Prop}
    (hp : Triple P t A p B E) (hf : ∀ a, Triple P t (B a) (f a) Q E) :
    Triple P t A (p.bind f) Q E := by
  intro w hinv hA
  refine Safe.bind hinv (Safe.mono ?_ (hp w hinv hA))
  rintro (e | a) w' hinv' h
  · exact h
  · exact hf a w' hinv' h

theorem Triple.tryCatch {A : σ → Prop} {p : Program Reply ε α} {handler : ε → Program Reply ε α}
    {B : ε → σ → Prop} {Q : α → σ → Prop} {E : ε → σ → Prop}
    (hp : Triple P t A p Q B) (hhandler : ∀ e, Triple P t (B e) (handler e) Q E) :
    Triple P t A (p.tryCatch handler) Q E := by
  intro w hinv hA
  refine Safe.tryCatch hinv (Safe.mono ?_ (hp w hinv hA))
  rintro (e | a) w' hinv' h
  · exact hhandler e w' hinv' h
  · exact h

theorem Triple.ensuring {A : σ → Prop} {p : Program Reply ε α} {cleanup : Program Reply ε Unit}
    {B : α → σ → Prop} {C : ε → σ → Prop} {Q : α → σ → Prop} {E : ε → σ → Prop}
    (hQ : ∀ a, Stable P t (Q a)) (hE : ∀ e, Stable P t (E e))
    (hp : Triple P t A p B C)
    (hvalue : ∀ a, Triple P t (B a) cleanup (fun _ => Q a) E)
    (herror : ∀ e, Triple P t (C e) cleanup (fun _ => E e) E) :
    Triple P t A (p.ensuring cleanup) Q E := by
  intro w hinv hA
  refine Safe.ensuring hinv (Safe.mono ?_ (hp w hinv hA))
  rintro (e | a) w' hinv' h
  · exact Triple.bind (herror e) (fun _ => Triple.raise (hE e) fun _ _ h => h) w' hinv' h
  · exact Triple.bind (hvalue a) (fun _ => Triple.done (hQ a) fun _ _ h => h) w' hinv' h

theorem Triple.weaken {A A' : σ → Prop} {p : Program Reply ε α} {Q Q' : α → σ → Prop}
    {E E' : ε → σ → Prop} (h : Triple P t A p Q E) (hA : ∀ w, P.inv w → A' w → A w)
    (hQ : ∀ a w, P.inv w → Q a w → Q' a w) (hE : ∀ e w, P.inv w → E e w → E' e w) :
    Triple P t A' p Q' E' := by
  intro w hinv hA'
  refine Safe.mono ?_ (h w hinv (hA w hinv hA'))
  rintro (e | a) w' hinv' hr
  · exact hE e w' hinv' hr
  · exact hQ a w' hinv' hr

theorem Safe.and {Q Q' : Except ε α → σ → Prop} {p : Program Reply ε α} {w : σ}
    (h : Safe P t Q p w) (h' : Safe P t Q' p w) : Safe P t (fun r w => Q r w ∧ Q' r w) p w := by
  induction p generalizing w with
  | done a => exact fun w' hrely hinv => ⟨h w' hrely hinv, h' w' hrely hinv⟩
  | raise e => exact fun w' hrely hinv => ⟨h w' hrely hinv, h' w' hrely hinv⟩
  | await op k ih =>
      intro w₁ hrely hinv
      obtain ⟨hpre, hk⟩ := h w₁ hrely hinv
      obtain ⟨-, hk'⟩ := h' w₁ hrely hinv
      exact ⟨hpre, fun choice r w₂ hallowed hexec =>
        ih r (hk choice r w₂ hallowed hexec) (hk' choice r w₂ hallowed hexec)⟩

theorem Triple.and {A A' : σ → Prop} {p : Program Reply ε α} {Q Q' : α → σ → Prop}
    {E E' : ε → σ → Prop} (h : Triple P t A p Q E) (h' : Triple P t A' p Q' E') :
    Triple P t (fun w => A w ∧ A' w) p (fun a w => Q a w ∧ Q' a w)
      fun e w => E e w ∧ E' e w := by
  intro w hinv hA
  refine Safe.mono ?_ (Safe.and (h w hinv hA.1) (h' w hinv hA.2))
  rintro (e | a) w' hinv' hr
  · exact hr
  · exact hr

theorem Triple.of_false {A : σ → Prop} {p : Program Reply ε α} {Q : α → σ → Prop}
    {E : ε → σ → Prop} (h : ∀ w, P.inv w → ¬ A w) : Triple P t A p Q E :=
  fun w hinv hA => (h w hinv hA).elim

/-- What an assertion says beside the state may be taken for granted. -/
theorem Triple.given {φ : Prop} {A : σ → Prop} {p : Program Reply ε α} {Q : α → σ → Prop}
    {E : ε → σ → Prop} (h : φ → Triple P t A p Q E) : Triple P t (fun w => φ ∧ A w) p Q E :=
  fun w hinv hA => h hA.1 w hinv hA.2

theorem Triple.exists {ι : Sort*} {A : ι → σ → Prop} {p : Program Reply ε α}
    {Q : α → σ → Prop} {E : ε → σ → Prop} (h : ∀ i, Triple P t (A i) p Q E) :
    Triple P t (fun w => ∃ i, A i w) p Q E := by
  rintro w hinv ⟨i, hA⟩
  exact h i w hinv hA

theorem Triple.or {A B : σ → Prop} {p : Program Reply ε α}
    {Q : α → σ → Prop} {E : ε → σ → Prop} (hA : Triple P t A p Q E) (hB : Triple P t B p Q E) :
    Triple P t (fun w => A w ∨ B w) p Q E := by
  rintro w hinv (h | h)
  · exact hA w hinv h
  · exact hB w hinv h

/-- Where no operation has a precondition, every program is safe. -/
theorem Safe.of_pre (hpre : ∀ op w, P.pre t op w) (p : Program Reply ε α) (w : σ) :
    Safe P t (fun _ _ => True) p w := by
  induction p generalizing w with
  | done a => exact fun _ _ _ => trivial
  | raise e => exact fun _ _ _ => trivial
  | await op k ih => exact fun w₁ _ _ => ⟨hpre op w₁, fun _ r w₂ _ _ => ih r w₂⟩

/-- Every operation that the program may await is one of `S`. -/
def Uses (S : Op → Prop) : Program Reply ε α → Prop
  | .done _ => True
  | .raise _ => True
  | .await op k => S op ∧ ∀ r, Uses S (k r)

theorem Uses.bind {S : Op → Prop} {p : Program Reply ε α} {f : α → Program Reply ε β}
    (hp : Uses S p) (hf : ∀ a, Uses S (f a)) : Uses S (p.bind f) := by
  induction p with
  | done a => exact hf a
  | raise e => trivial
  | await op k ih => exact ⟨hp.1, fun r => ih r (hp.2 r)⟩

theorem Uses.tryCatch {S : Op → Prop} {p : Program Reply ε α}
    {handler : ε → Program Reply ε α} (hp : Uses S p) (hhandler : ∀ e, Uses S (handler e)) :
    Uses S (p.tryCatch handler) := by
  induction p with
  | done a => trivial
  | raise e => exact hhandler e
  | await op k ih => exact ⟨hp.1, fun r => ih r (hp.2 r)⟩

theorem Uses.ensuring {S : Op → Prop} {p : Program Reply ε α} {cleanup : Program Reply ε Unit}
    (hp : Uses S p) (hcleanup : Uses S cleanup) : Uses S (p.ensuring cleanup) := by
  induction p with
  | done a => exact hcleanup.bind fun _ => trivial
  | raise e => exact hcleanup.bind fun _ => trivial
  | await op k ih => exact ⟨hp.1, fun r => ih r (hp.2 r)⟩

theorem Uses.perform {S : Op → Prop} {op : Op} (h : S op) :
    Uses S (Program.perform op : Program Reply ε (Reply op)) := by
  refine ⟨h, fun r => ?_⟩
  cases r with
  | ok a => trivial
  | error e => trivial

theorem Uses.mono {S S' : Op → Prop} (h : ∀ op, S op → S' op) {p : Program Reply ε α}
    (hp : Uses S p) : Uses S' p := by
  induction p with
  | done a => trivial
  | raise e => trivial
  | await op k ih => exact ⟨h op hp.1, fun r => ih r (hp.2 r)⟩

theorem uses_true (p : Program Reply ε α) : Uses (fun _ => True) p := by
  induction p with
  | done a => trivial
  | raise e => trivial
  | await op k ih => exact ⟨trivial, ih⟩

/-- An assertion that every operation of `S` keeps is kept by a program over `S`. -/
theorem Triple.of_uses {S : Op → Prop} {A : σ → Prop} (hA : Stable P t A)
    (hpre : ∀ op w, S op → P.inv w → A w → P.pre t op w)
    (hkeep : ∀ op choice r w w', S op → P.inv w → A w → allowed t op choice w →
      exec t op choice w = some (r, w') → A w')
    {p : Program Reply ε α} (hp : Uses S p) : Triple P t A p (fun _ => A) fun _ => A := by
  induction p with
  | done a => exact Triple.done hA fun _ _ h => h
  | raise e => exact Triple.raise hA fun _ _ h => h
  | await op k ih =>
      intro w hinv h w₁ hrely hinv₁
      have h₁ : A w₁ := hA w w₁ hinv h hrely hinv₁
      refine ⟨hpre op w₁ hp.1 hinv₁ h₁, fun choice r w₂ hallowed hexec => ?_⟩
      refine ih r (hp.2 r) w₂ ?_ (hkeep op choice r w₁ w₂ hp.1 hinv₁ h₁ hallowed hexec)
      exact P.inv_exec hinv₁ (hpre op w₁ hp.1 hinv₁ h₁) hallowed hexec

/-- What a program does under a protocol, it does under an extension that asks nothing more of the
operations that the program awaits. -/
theorem Safe.extend {R : Protocol exec fun t op choice w => allowed t op choice w ∧ P.pre t op w}
    {S : Op → Prop} {Q : Except ε α → σ → Prop} (hinv : ∀ w, R.inv w → P.inv w)
    (hrely : ∀ w w', R.rely t w w' → P.rely t w w') (hpre : ∀ op w, S op → R.pre t op w)
    {p : Program Reply ε α} (hp : Uses S p) {w : σ} (h : Safe P t Q p w) : Safe R t Q p w := by
  induction p generalizing w with
  | done a => exact fun w' hw' hinv' => h w' (hrely w w' hw') (hinv w' hinv')
  | raise e => exact fun w' hw' hinv' => h w' (hrely w w' hw') (hinv w' hinv')
  | await op k ih =>
      intro w₁ hw₁ hinv₁
      obtain ⟨-, hk⟩ := h w₁ (hrely w w₁ hw₁) (hinv w₁ hinv₁)
      refine ⟨hpre op w₁ hp.1, fun choice r w₂ hallowed hexec => ?_⟩
      exact ih r (hp.2 r) (hk choice r w₂ hallowed.1 hexec)

theorem Triple.extend {R : Protocol exec fun t op choice w => allowed t op choice w ∧ P.pre t op w}
    {S : Op → Prop} {A : σ → Prop} {Q : α → σ → Prop} {E : ε → σ → Prop}
    (hinv : ∀ w, R.inv w → P.inv w) (hrely : ∀ w w', R.rely t w w' → P.rely t w w')
    (hpre : ∀ op w, S op → R.pre t op w) {p : Program Reply ε α} (hp : Uses S p)
    (h : Triple P t A p Q E) : Triple R t A p Q E :=
  fun w hw hA => Safe.extend hinv hrely hpre hp (h w (hinv w hw) hA)

/-- The program awaits at most that many operations. -/
def Within : Program Reply ε α → Nat → Prop
  | .done _, _ => True
  | .raise _, _ => True
  | .await _ k, n => 0 < n ∧ ∀ r, Within (k r) (n - 1)

theorem Within.mono {p : Program Reply ε α} {m n : Nat} (h : Within p m) (hle : m ≤ n) :
    Within p n := by
  induction p generalizing m n with
  | done a => trivial
  | raise e => trivial
  | await op k ih =>
      exact ⟨Nat.lt_of_lt_of_le h.1 hle, fun r => ih r (h.2 r) (Nat.sub_le_sub_right hle 1)⟩

theorem Within.perform {op : Op} :
    Within (Program.perform op : Program Reply ε (Reply op)) 1 := by
  refine ⟨Nat.one_pos, fun r => ?_⟩
  cases r with
  | ok a => trivial
  | error e => trivial

theorem Within.bind {p : Program Reply ε α} {f : α → Program Reply ε β} {m n : Nat}
    (hp : Within p m) (hf : ∀ a, Within (f a) n) : Within (p.bind f) (m + n) := by
  induction p generalizing m with
  | done a => exact (hf a).mono (Nat.le_add_left n m)
  | raise e => trivial
  | await op k ih =>
      have hlater : ∀ r, Within ((k r).bind f) (m - 1 + n) := fun r => ih r (hp.2 r)
      have hm := hp.1
      exact ⟨by omega, fun r => (hlater r).mono (by omega)⟩

theorem Within.tryCatch {p : Program Reply ε α} {handler : ε → Program Reply ε α} {m n : Nat}
    (hp : Within p m) (hhandler : ∀ e, Within (handler e) n) :
    Within (p.tryCatch handler) (m + n) := by
  induction p generalizing m with
  | done a => trivial
  | raise e => exact (hhandler e).mono (Nat.le_add_left n m)
  | await op k ih =>
      have hlater : ∀ r, Within ((k r).tryCatch handler) (m - 1 + n) := fun r => ih r (hp.2 r)
      have hm := hp.1
      exact ⟨by omega, fun r => (hlater r).mono (by omega)⟩

theorem Within.ensuring {p : Program Reply ε α} {cleanup : Program Reply ε Unit} {m n : Nat}
    (hp : Within p m) (hcleanup : Within cleanup n) : Within (p.ensuring cleanup) (m + n) := by
  have hleave : ∀ r : Except ε α, Within (cleanup.bind fun _ => .leave r) n := fun r =>
    hcleanup.bind (n := 0) fun _ => by cases r <;> trivial
  induction p generalizing m with
  | done a => exact (hleave (.ok a)).mono (Nat.le_add_left n m)
  | raise e => exact (hleave (.error e)).mono (Nat.le_add_left n m)
  | await op k ih =>
      have hlater : ∀ r, Within ((k r).ensuring cleanup) (m - 1 + n) := fun r => ih r (hp.2 r)
      have hm := hp.1
      exact ⟨by omega, fun r => (hlater r).mono (by omega)⟩

/-- Every operation that the program may await is one of `S`, and no exception of an operation is
caught. -/
def Straight (S : Op → Prop) : Program Reply ε α → Prop
  | .done _ => True
  | .raise _ => True
  | .await op k => S op ∧ (∀ a, Straight S (k (.ok a))) ∧ ∀ e, k (.error e) = .raise e

theorem Straight.bind {S : Op → Prop} {p : Program Reply ε α} {f : α → Program Reply ε β}
    (hp : Straight S p) (hf : ∀ a, Straight S (f a)) : Straight S (p.bind f) := by
  induction p with
  | done a => exact hf a
  | raise e => trivial
  | await op k ih =>
      refine ⟨hp.1, fun a => ih (.ok a) (hp.2.1 a), fun e => ?_⟩
      change (k (.error e)).bind f = .raise e
      rw [hp.2.2 e]
      rfl

theorem Straight.mono {S S' : Op → Prop} (h : ∀ op, S op → S' op) {p : Program Reply ε α}
    (hp : Straight S p) : Straight S' p := by
  induction p with
  | done a => trivial
  | raise e => trivial
  | await op k ih => exact ⟨h op hp.1, fun a => ih (.ok a) (hp.2.1 a), hp.2.2⟩

theorem Straight.uses {S : Op → Prop} {p : Program Reply ε α} (hp : Straight S p) : Uses S p := by
  induction p with
  | done a => trivial
  | raise e => trivial
  | await op k ih =>
      refine ⟨hp.1, fun r => ?_⟩
      cases r with
      | ok a => exact ih (.ok a) (hp.2.1 a)
      | error e =>
          rw [hp.2.2 e]
          trivial

theorem Straight.perform {S : Op → Prop} {op : Op} (h : S op) :
    Straight S (Program.perform op : Program Reply ε (Reply op)) :=
  ⟨h, fun _ => trivial, fun _ => rfl⟩

/-- An assertion that every operation of `S` keeps when it succeeds is kept by a straight program
that returns; what holds after a failed operation holds when the program raises. -/
theorem Triple.of_straight {S : Op → Prop} {A E : σ → Prop} (hA : Stable P t A)
    (hE : Stable P t E) (hpre : ∀ op w, S op → P.inv w → A w → P.pre t op w)
    (hok : ∀ op choice a w w', S op → P.inv w → A w → allowed t op choice w →
      exec t op choice w = some (.ok a, w') → A w')
    (herror : ∀ op choice e w w', S op → P.inv w → A w → allowed t op choice w →
      exec t op choice w = some (.error e, w') → E w')
    (hraise : ∀ w, P.inv w → A w → E w)
    {p : Program Reply ε α} (hp : Straight S p) : Triple P t A p (fun _ => A) fun _ => E := by
  induction p with
  | done a => exact Triple.done hA fun _ _ h => h
  | raise e => exact Triple.raise hE hraise
  | await op k ih =>
      intro w hinv h w₁ hrely hinv₁
      have h₁ : A w₁ := hA w w₁ hinv h hrely hinv₁
      have hpre₁ : P.pre t op w₁ := hpre op w₁ hp.1 hinv₁ h₁
      refine ⟨hpre₁, fun choice r w₂ hallowed hexec => ?_⟩
      have hinv₂ : P.inv w₂ := P.inv_exec hinv₁ hpre₁ hallowed hexec
      cases r with
      | ok a =>
          exact ih (.ok a) (hp.2.1 a) w₂ hinv₂ (hok op choice a w₁ w₂ hp.1 hinv₁ h₁ hallowed hexec)
      | error e =>
          rw [hp.2.2 e]
          exact Triple.raise (α := α) hE (fun _ _ h => h) w₂ hinv₂
            (herror op choice e w₁ w₂ hp.1 hinv₁ h₁ hallowed hexec)

end Logic

section Runs

variable {exec : Semantics Reply ε τ χ σ} {allowed : τ → Op → χ → σ → Prop}

/-- The invariant, together with the verdict on what every task has left to run. -/
structure Invariant (P : Protocol exec allowed) (begin : τ → σ → Prop)
    (Q : τ → Except ε Unit → σ → Prop) (c : Config Reply ε τ σ) : Prop where
  shared : P.inv c.shared
  fresh : ∀ t, c.task t = none → begin t c.shared
  safe : ∀ t p, c.task t = some p → Safe P t (Q t) p c.shared

variable {P : Protocol exec allowed} {spawnable : Program Reply ε Unit → Prop}
  {begin : τ → σ → Prop} {Q : τ → Except ε Unit → σ → Prop}

theorem Invariant.idle {w : σ} (hinv : P.inv w) (hbegin : ∀ t, begin t w) :
    Invariant P begin Q (Config.idle w : Config Reply ε τ σ) :=
  ⟨hinv, fun t _ => hbegin t, fun t p h => by simp [Config.idle] at h⟩

/-- A task that has returned or raised is in a state with its postcondition. -/
theorem Invariant.ended {c : Config Reply ε τ σ} (h : Invariant P begin Q c) {t : τ}
    {r : Except ε Unit} (htask : c.task t = some (.leave r)) : Q t r c.shared := by
  have hsafe := h.safe t _ htask
  cases r with
  | ok u => exact hsafe c.shared (P.rely_refl t _) h.shared
  | error e => exact hsafe c.shared (P.rely_refl t _) h.shared

variable [DecidableEq τ]

theorem Invariant.step (hbegin : ∀ t, Stable P t (begin t))
    (hspawn : ∀ t p, spawnable p → ∀ w, P.inv w → begin t w → Safe P t (Q t) p w)
    {c c' : Config Reply ε τ σ} (h : Invariant P begin Q c)
    (hstep : Step exec spawnable allowed c c') : Invariant P begin Q c' := by
  cases hstep with
  | @spawn t p htask hp =>
      refine ⟨h.shared, fun t' ht' => ?_, fun t' p' ht' => ?_⟩
      · by_cases heq : t' = t
        · subst heq
          simp at ht'
        · exact h.fresh t' (by simpa [heq] using ht')
      · by_cases heq : t' = t
        · subst heq
          obtain rfl : p = p' := by simpa using ht'
          exact hspawn t' p hp c.shared h.shared (h.fresh t' htask)
        · exact h.safe t' p' (by simpa [heq] using ht')
  | @resume t op k choice r w htask hallowed hexec =>
      obtain ⟨hpre, hk⟩ := h.safe t _ htask c.shared (P.rely_refl t c.shared) h.shared
      obtain ⟨hinv, hrely⟩ := P.sound h.shared hpre hallowed hexec
      refine ⟨hinv, fun t' ht' => ?_, fun t' p' ht' => ?_⟩
      · by_cases heq : t' = t
        · subst heq
          simp at ht'
        · refine hbegin t' c.shared w h.shared (h.fresh t' ?_) (hrely t' heq) hinv
          simpa [heq] using ht'
      · by_cases heq : t' = t
        · subst heq
          obtain rfl : k r = p' := by simpa using ht'
          exact hk choice r w hallowed hexec
        · exact (h.safe t' p' (by simpa [heq] using ht')).interfere (hrely t' heq)

/-- Soundness over whole runs: programs that are safe on their own keep the protocol together, in
every interleaving and for every choice of the environment. -/
theorem Invariant.steps (hbegin : ∀ t, Stable P t (begin t))
    (hspawn : ∀ t p, spawnable p → ∀ w, P.inv w → begin t w → Safe P t (Q t) p w)
    {c c' : Config Reply ε τ σ} (h : Invariant P begin Q c)
    (hsteps : Steps exec spawnable allowed c c') : Invariant P begin Q c' := by
  induction hsteps with
  | refl => exact h
  | tail _ hstep ih => exact ih.step hbegin hspawn hstep

/-- Safe programs meet the preconditions in every step of a run. -/
theorem Invariant.steps_pre (hbegin : ∀ t, Stable P t (begin t))
    (hspawn : ∀ t p, spawnable p → ∀ w, P.inv w → begin t w → Safe P t (Q t) p w)
    {c c' : Config Reply ε τ σ} (h : Invariant P begin Q c)
    (hsteps : Steps exec spawnable allowed c c') :
    Steps exec spawnable (fun t op choice w => allowed t op choice w ∧ P.pre t op w) c c' := by
  induction hsteps with
  | refl => exact .refl
  | @tail mid c'' hsteps hstep ih =>
      have hmid : Invariant P begin Q mid := h.steps hbegin hspawn hsteps
      refine ih.tail ?_
      cases hstep with
      | spawn htask hp => exact .spawn htask hp
      | @resume t op k choice r w htask hallowed hexec =>
          obtain ⟨hpre, -⟩ := hmid.safe t _ htask mid.shared (P.rely_refl t _) hmid.shared
          exact .resume htask ⟨hallowed, hpre⟩ hexec

/-- A relation that every operation keeps to holds between any two states of a run. -/
theorem Invariant.steps_relation (hbegin : ∀ t, Stable P t (begin t))
    (hspawn : ∀ t p, spawnable p → ∀ w, P.inv w → begin t w → Safe P t (Q t) p w)
    {R : σ → σ → Prop} (hrefl : ∀ w, R w w)
    (htrans : ∀ {w₁ w₂ w₃}, R w₁ w₂ → R w₂ w₃ → R w₁ w₃)
    (hR : ∀ {t op choice w r w'}, P.inv w → P.pre t op w → allowed t op choice w →
      exec t op choice w = some (r, w') → R w w')
    {c c' : Config Reply ε τ σ} (h : Invariant P begin Q c)
    (hsteps : Steps exec spawnable allowed c c') : R c.shared c'.shared := by
  induction hsteps with
  | refl => exact hrefl _
  | @tail mid c'' hsteps hstep ih =>
      have hmid : Invariant P begin Q mid := h.steps hbegin hspawn hsteps
      refine htrans ih ?_
      cases hstep with
      | spawn htask hp => exact hrefl _
      | @resume t op k choice r w htask hallowed hexec =>
          obtain ⟨hpre, -⟩ := hmid.safe t _ htask mid.shared (P.rely_refl t _) hmid.shared
          exact hR hmid.shared hpre hallowed hexec

end Runs

end ChangeQuality.Interference
