import RobotCtl.Library.Program

/-! # Environments and weakest preconditions

An environment is a transition relation on its states, labelled with events.
The weakest precondition of a program demands an invariant at every moment of
every partial trace and a postcondition of every complete one. It is computed
from the program, up to the choice of an invariant for each loop.
-/

/-- An environment: how a call and its reply can change its state. -/
abbrev Env (S : Sig) (W : Type) := W → Event S → W → Prop

namespace Env

variable {S : Sig} {W : Type}

/-- The environment goes through the events of a trace. -/
inductive Runs (env : Env S W) : W → List (Event S) → W → Prop
  | nil (w : W) : Runs env w [] w
  | cons {w w' w'' : W} {e : Event S} {t : List (Event S)} :
      env w e w' → Runs env w' t w'' → Runs env w (e :: t) w''

variable {env : Env S W} {w w' : W} {t t' : List (Event S)}

theorem runs_nil_iff : Runs env w [] w' ↔ w' = w := by
  constructor
  · intro h; cases h; rfl
  · rintro rfl; exact .nil _

theorem runs_cons_iff {e : Event S} :
    Runs env w (e :: t) w' ↔ ∃ u, env w e u ∧ Runs env u t w' := by
  constructor
  · intro h; cases h with | cons he h => exact ⟨_, he, h⟩
  · rintro ⟨u, he, h⟩; exact .cons he h

theorem runs_append_iff :
    Runs env w (t ++ t') w' ↔ ∃ u, Runs env w t u ∧ Runs env u t' w' := by
  induction t generalizing w with
  | nil => simp [runs_nil_iff]
  | cons e t ih =>
    simp only [List.cons_append, runs_cons_iff, ih]
    constructor
    · rintro ⟨u, he, v, h, h'⟩; exact ⟨v, ⟨u, he, h⟩, h'⟩
    · rintro ⟨v, ⟨u, he, h⟩, h'⟩; exact ⟨u, he, v, h, h'⟩

/-- What each event of a trace keeps, the run keeps. -/
theorem Runs.rel {R : W → W → Prop} (hrefl : ∀ w, R w w)
    (htrans : ∀ {u v w}, R u v → R v w → R u w) (h : Runs env w t w')
    (hstep : ∀ e ∈ t, ∀ {u u'}, env u e u' → R u u') : R w w' := by
  induction h with
  | nil w => exact hrefl w
  | cons he _ ih =>
    obtain ⟨h₁, h₂⟩ := List.forall_mem_cons.mp hstep
    exact htrans (h₁ he) (ih h₂)

/-- The environment that only records the events. -/
def history : Env S (List (Event S)) := fun h e h' => h' = h ++ [e]

theorem runs_history_iff {h h' : List (Event S)} : Runs history h t h' ↔ h' = h ++ t := by
  induction t generalizing h with
  | nil => simp [runs_nil_iff]
  | cons e t ih => simp [runs_cons_iff, history, ih]

/-- The environment that records its events besides. -/
def logged (env : Env S W) : Env S (W × List (Event S)) := fun w e w' =>
  env w.1 e w'.1 ∧ w'.2 = w.2 ++ [e]

/-- A run, with the events that are recorded of it. -/
theorem Runs.logged {h : List (Event S)} (hr : Runs env w t w') :
    Runs (logged env) (w, h) t (w', h ++ t) := by
  induction hr generalizing h with
  | nil w => rw [List.append_nil]; exact .nil _
  | @cons w u w' e t he _ ih => rw [List.append_cons]; exact .cons ⟨he, rfl⟩ ih

/-- The environment when others act before each of its steps. -/
def disturbed (rely : W → W → Prop) (env : Env S W) : Env S W := fun w e w' =>
  ∃ u, rely w u ∧ env u e w'

/-- The steps of the environment and those of others, in any order. The trace is that of the
environment. -/
inductive Interleaves (rely : W → W → Prop) (env : Env S W) (w : W) : List (Event S) → W → Prop
  | start : Interleaves rely env w [] w
  | others {t : List (Event S)} {w' w'' : W} : Interleaves rely env w t w' → rely w' w'' →
      Interleaves rely env w t w''
  | step {t : List (Event S)} {e : Event S} {w' w'' : W} : Interleaves rely env w t w' →
      env w' e w'' → Interleaves rely env w (t ++ [e]) w''

/-- An interleaving can go on with steps of the environment only. -/
theorem Interleaves.append {rely : W → W → Prop} {u : W} (h : Interleaves rely env w t u)
    (hr : Runs env u t' w') : Interleaves rely env w (t ++ t') w' := by
  induction hr generalizing t with
  | nil => rwa [List.append_nil]
  | cons he _ ih =>
    rw [List.append_cons]
    exact ih (h.step he)

/-- An interleaving is a run in the disturbed environment, up to what others do in the end. -/
theorem Interleaves.runs {rely : W → W → Prop} (hrefl : ∀ w, rely w w)
    (htrans : ∀ {u v w}, rely u v → rely v w → rely u w) (h : Interleaves rely env w t w') :
    ∃ u, Runs (disturbed rely env) w t u ∧ rely u w' := by
  induction h with
  | start => exact ⟨w, .nil w, hrefl w⟩
  | others _ hw ih =>
    obtain ⟨u, hr, hu⟩ := ih
    exact ⟨u, hr, htrans hu hw⟩
  | @step t e w' w'' _ he ih =>
    obtain ⟨u, hr, hu⟩ := ih
    exact ⟨w'', runs_append_iff.mpr ⟨u, hr, .cons ⟨w', hu, he⟩ (.nil _)⟩, hrefl _⟩

/-- The one history continues the other with calls of a kind. -/
def Grows (allowed : S.Op → Prop) (t t' : List (Event S)) : Prop :=
  ∃ u, t' = t ++ u ∧ ∀ e ∈ u, allowed e.1

namespace Grows

variable {allowed : S.Op → Prop}

theorem refl (t : List (Event S)) : Grows allowed t t := ⟨[], by simp⟩

theorem trans {t t' t'' : List (Event S)} (h : Grows allowed t t') (h' : Grows allowed t' t'') :
    Grows allowed t t'' := by
  obtain ⟨u, rfl, hu⟩ := h
  obtain ⟨v, rfl, hv⟩ := h'
  exact ⟨u ++ v, List.append_assoc .., fun e he => (List.mem_append.mp he).elim (hu e) (hv e)⟩

theorem mono {allowed' : S.Op → Prop} {t t' : List (Event S)} (h : Grows allowed t t')
    (ha : ∀ o, allowed o → allowed' o) : Grows allowed' t t' := by
  obtain ⟨u, rfl, hu⟩ := h
  exact ⟨u, rfl, fun e he => ha e.1 (hu e he)⟩

theorem isPrefix {t t' : List (Event S)} (h : Grows allowed t t') : t <+: t' := by
  obtain ⟨u, rfl, -⟩ := h
  exact List.prefix_append t u

end Grows

end Env

namespace Prog

variable {S : Sig} {W α β σ : Type} {env : Env S W} {I : W → Prop}

/-- The states from which the invariant holds at every moment and the result meets the
postcondition. -/
def wp (env : Env S W) (I : W → Prop) : {α : Type} → Prog S α → (α → W → Prop) → W → Prop
  | _, .ret a, Q, w => I w ∧ Q a w
  | _, .call o k, Q, w => I w ∧ ∀ r w', env w ⟨o, r⟩ w' → wp env I (k r) Q w'
  | _, @loop _ σ _ _ body s k, Q, w => ∃ J : σ → W → Prop, J s w ∧ ∀ s w, J s w →
      wp env I (body s) (fun x w' => match x with
        | .inl s' => J s' w'
        | .inr b => wp env I (k b) Q w') w

theorem wp_inv {p : Prog S α} {Q : α → W → Prop} {w : W} (h : wp env I p Q w) : I w := by
  induction p generalizing w with
  | ret a => exact h.1
  | call o k _ => exact h.1
  | loop body s k ihb _ =>
    obtain ⟨J, hs, hJ⟩ := h
    exact ihb s (hJ s w hs)

theorem wp_mono {p : Prog S α} {Q Q' : α → W → Prop} {w : W}
    (hQ : ∀ a w, I w → Q a w → Q' a w) (h : wp env I p Q w) : wp env I p Q' w := by
  induction p generalizing w with
  | ret a => exact ⟨h.1, hQ a w h.1 h.2⟩
  | call o k ih => exact ⟨h.1, fun r w' he => ih r hQ (h.2 r w' he)⟩
  | loop body s k ihb ihk =>
    obtain ⟨J, hs, hJ⟩ := h
    refine ⟨J, hs, fun s w hs => ihb s ?_ (hJ s w hs)⟩
    rintro (s' | b) w _ h
    · exact h
    · exact ihk b hQ h

theorem wp.mono {p : Prog S α} {Q Q' : α → W → Prop} {w : W} (h : wp env I p Q w)
    (hQ : ∀ a w, I w → Q a w → Q' a w) : wp env I p Q' w := wp_mono hQ h

@[simp] theorem wp_bind {p : Prog S α} {f : α → Prog S β} {Q : β → W → Prop} {w : W} :
    wp env I (p.bind f) Q w ↔ wp env I p (fun a w => wp env I (f a) Q w) w := by
  induction p generalizing w with
  | ret a => exact ⟨fun h => ⟨wp_inv h, h⟩, fun h => h.2⟩
  | call o k ih => simp only [call_bind, wp, ih]
  | loop body s k _ ih => simp only [loop_bind, wp, ih]

/-- A fallible program followed by another. -/
theorem wp_try_bind {ε : Type} {x : ExceptT ε (Prog S) α} {f : α → ExceptT ε (Prog S) β}
    {Q : Except ε β → W → Prop} {w : W} : wp env I (x >>= f).run Q w ↔
      wp env I x.run (fun r w => match r with
        | .ok a => wp env I (f a).run Q w
        | .error e => I w ∧ Q (.error e) w) w := by
  rw [ExceptT.run_bind, bind_eq, wp_bind]
  constructor <;> refine wp_mono fun r w _ hw => ?_ <;> cases r <;> exact hw

/-- A program that cannot fail, as a fallible one. -/
theorem wp_lift {ε : Type} {p : Prog S α} {Q : Except ε α → W → Prop} {w : W} :
    wp env I (liftM p : ExceptT ε (Prog S) α).run Q w ↔
      wp env I p (fun a w => Q (.ok a) w) w := by
  have h : (liftM p : ExceptT ε (Prog S) α).run = p.bind fun a => ret (.ok a) := rfl
  rw [h, wp_bind]
  exact ⟨wp_mono fun a w _ hw => hw.2, wp_mono fun a w hi hw => ⟨hi, hw⟩⟩

/-- A weakest precondition bounds every partial and every complete trace. -/
theorem wp_returns {p : Prog S α} {t : List (Event S)} {a : α} (h : Returns p t a)
    {Q : α → W → Prop} {w w' : W} (hw : wp env I p Q w) (hr : Env.Runs env w t w') : Q a w' := by
  induction h generalizing w w' with
  | ret a => rw [Env.runs_nil_iff.mp hr]; exact hw.2
  | call r _ ih =>
    obtain ⟨u, he, hr⟩ := Env.runs_cons_iff.mp hr
    exact ih (hw.2 r u he) hr
  | again _ _ ihb ih =>
    obtain ⟨u, hb, hr⟩ := Env.runs_append_iff.mp hr
    obtain ⟨J, hs, hJ⟩ := hw
    exact ih ⟨J, ihb (hJ _ w hs) hb, hJ⟩ hr
  | exit _ _ ihb ih =>
    obtain ⟨u, hb, hr⟩ := Env.runs_append_iff.mp hr
    obtain ⟨J, hs, hJ⟩ := hw
    exact ih (ihb (hJ _ w hs) hb) hr

theorem wp_cut {p : Prog S α} {t : List (Event S)} (h : Partial p t)
    {Q : α → W → Prop} {w w' : W} (hw : wp env I p Q w) (hr : Env.Runs env w t w') : I w' := by
  induction h generalizing w with
  | nil p => rw [Env.runs_nil_iff.mp hr]; exact wp_inv hw
  | call r _ ih =>
    obtain ⟨u, he, hr⟩ := Env.runs_cons_iff.mp hr
    exact ih (hw.2 r u he) hr
  | body _ ih =>
    obtain ⟨J, hs, hJ⟩ := hw
    exact ih (hJ _ w hs) hr
  | again hb _ ih =>
    obtain ⟨u, hu, hr⟩ := Env.runs_append_iff.mp hr
    obtain ⟨J, hs, hJ⟩ := hw
    exact ih ⟨J, wp_returns hb (hJ _ w hs) hu, hJ⟩ hr
  | exit hb _ ih =>
    obtain ⟨u, hu, hr⟩ := Env.runs_append_iff.mp hr
    obtain ⟨J, hs, hJ⟩ := hw
    exact ih (wp_returns hb (hJ _ w hs) hu) hr

/-- A loop with the invariant `J`. -/
theorem wp_loop (J : σ → W → Prop) {body : σ → Prog S (σ ⊕ β)} {k : β → Prog S α}
    {Q : α → W → Prop} {s : σ} {w : W} (hs : J s w) (hJ : ∀ s w, J s w →
      wp env I (body s) (Sum.elim J fun b w' => wp env I (k b) Q w') w) :
    wp env I (.loop body s k) Q w :=
  ⟨J, hs, fun s w h => (hJ s w h).mono fun x _ _ hx => by cases x <;> exact hx⟩

/-- The invariant of a loop holds wherever whole iterations lead. -/
theorem wp_iterates {body : σ → Prog S (σ ⊕ β)} {J : σ → W → Prop} {Q : β → W → Prop} {s s' : σ}
    {t : List (Event S)} {w w' : W} (h : Iterates body s t s') (hw : J s w)
    (hJ : ∀ s w, J s w → wp env I (body s) (Sum.elim J Q) w) (hr : Env.Runs env w t w') :
    J s' w' := by
  induction h generalizing w' with
  | refl => rwa [Env.runs_nil_iff.mp hr]
  | step _ hb ih =>
    obtain ⟨u, ht, hu⟩ := Env.runs_append_iff.mp hr
    exact wp_returns hb (hJ _ u (ih ht)) hu

/-- A program that only makes calls of a kind that keeps the invariant and a relation keeps both. -/
theorem wp_of_uses {allowed : S.Op → Prop} {R : W → W → Prop} (hrefl : ∀ w, R w w)
    (htrans : ∀ {u v w}, R u v → R v w → R u w)
    (hstep : ∀ {o r w w'}, allowed o → I w → env w ⟨o, r⟩ w' → I w' ∧ R w w')
    {p : Prog S α} {w : W} (h : p.Uses allowed) (hw : I w) :
    wp env I p (fun _ w' => R w w') w := by
  induction p generalizing w with
  | ret a => exact ⟨hw, hrefl w⟩
  | call o k ih =>
    refine ⟨hw, fun r w' he => ?_⟩
    obtain ⟨hw', hr⟩ := hstep h.1 hw he
    exact (ih r (h.2 r) hw').mono fun _ _ _ h' => htrans hr h'
  | loop body s k ihb ihk =>
    refine ⟨fun _ w' => I w' ∧ R w w', ⟨hw, hrefl w⟩, fun s w' hs => ?_⟩
    apply (ihb s (h.1 s) hs.1).mono
    rintro (s' | b) w'' hw'' hr'
    · exact ⟨hw'', htrans hs.2 hr'⟩
    · exact (ihk b (h.2 b) hw'').mono fun _ _ _ h' => htrans (htrans hs.2 hr') h'

/-- What every call of the kind keeps, besides the invariant, the program keeps. -/
theorem wp_keeps {allowed : S.Op → Prop} {J : W → Prop}
    (hstep : ∀ {o r w w'}, allowed o → I w → env w ⟨o, r⟩ w' → I w' ∧ (J w → J w'))
    {p : Prog S α} {w : W} (h : p.Uses allowed) (hw : I w) (hj : J w) :
    wp env I p (fun _ w' => J w') w := by
  have hp := wp_of_uses (R := fun w w' => J w → J w') (fun _ hj => hj)
    (fun h h' hj => h' (h hj)) hstep h hw
  exact hp.mono fun _ _ _ hr => hr hj

/-- In an environment that records the events, a program adds only calls that it makes. -/
theorem wp_record {allowed : S.Op → Prop} {env : Env S (List (Event S))}
    {I : List (Event S) → Prop} (henv : ∀ {t e t'}, env t e t' → t' = t ++ [e])
    (hI : ∀ {t e t'}, env t e t' → allowed e.1 → I t → I t') {p : Prog S α} {t : List (Event S)}
    (h : p.Uses allowed) (ht : I t) : wp env I p (fun _ t' => Env.Grows allowed t t') t := by
  refine wp_of_uses Env.Grows.refl Env.Grows.trans ?_ h ht
  intro o r t t' ho ht he
  exact ⟨hI he ho ht, [⟨o, r⟩], henv he, by simpa using ho⟩

/-- A program without loops returns where every call that it makes gets a reply. -/
theorem Straight.exists_run {allowed : S.Op → Prop} {p : Prog S α}
    (henv : ∀ o w, allowed o → ∃ r w', env w ⟨o, r⟩ w') (h : p.Straight allowed) (w : W) :
    ∃ t a w', Returns p t a ∧ Env.Runs env w t w' := by
  induction p generalizing w with
  | ret a => exact ⟨[], a, w, .ret a, .nil w⟩
  | call o k ih =>
    obtain ⟨r, u, he⟩ := henv o w h.1
    obtain ⟨t, a, w', ht, hr⟩ := ih r (h.2 r) u
    exact ⟨_, a, w', .call r ht, .cons he hr⟩
  | loop body s k _ _ => exact h.elim

end Prog
