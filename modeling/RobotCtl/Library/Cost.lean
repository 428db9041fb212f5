import Mathlib.Algebra.BigOperators.Group.List.Basic
import Mathlib.Algebra.GroupWithZero.Nat
import RobotCtl.Library.Logic

/-! # What a run can cost

Every event has a cost, and a program spends at most so much if none of its
traces, wherever it is cut, costs more. With a cost of one for each event this
bounds the length of the runs, so that none of them goes on forever.
-/

namespace Prog

variable {S : Sig} {W α β σ : Type}

/-- What the events of a trace cost together. -/
def price (cost : Event S → ℕ) (t : List (Event S)) : ℕ := (t.map cost).sum

/-- From this state, no trace of the program costs more than so much. -/
def Spends (env : Env S W) (cost : Event S → ℕ) (n : ℕ) (p : Prog S α) (w : W) : Prop :=
  ∀ t w', Partial p t → Env.Runs env w t w' → price cost t ≤ n

variable {env : Env S W} {cost : Event S → ℕ} {c d m n : ℕ} {p : Prog S α} {w : W}

@[simp] theorem price_cons (e : Event S) (t : List (Event S)) :
    price cost (e :: t) = cost e + price cost t := by simp [price]

@[simp] theorem price_append (t t' : List (Event S)) :
    price cost (t ++ t') = price cost t + price cost t' := by simp [price]

theorem Spends.mono (h : Spends env cost m p w) (hmn : m ≤ n) : Spends env cost n p w :=
  fun t w' hp hr => Nat.le_trans (h t w' hp hr) hmn

theorem spends_ret (a : α) : Spends env cost 0 (.ret a) w := by
  intro t w' hp _
  cases hp
  exact Nat.le_refl 0

theorem Spends.call {o : S.Op} {k : S.Reply o → Prog S α} (hc : ∀ r, cost ⟨o, r⟩ ≤ c)
    (hk : ∀ r w', env w ⟨o, r⟩ w' → Spends env cost n (k r) w') :
    Spends env cost (c + n) (.call o k) w := by
  intro t w' hp hr
  cases hp with
  | nil => exact Nat.zero_le _
  | call r hp =>
    obtain ⟨u, he, hu⟩ := Env.runs_cons_iff.mp hr
    rw [price_cons]
    exact Nat.add_le_add (hc r) (hk r u he _ _ hp hu)

/-- The costs of two programs add up. -/
theorem Spends.bind {f : α → Prog S β} (h : Spends env cost n p w)
    (hf : ∀ a t w', Returns p t a → Env.Runs env w t w' → Spends env cost m (f a) w') :
    Spends env cost (n + m) (p.bind f) w := by
  intro t w' hp hr
  rcases partial_bind_iff.mp hp with hp | ⟨a, t₁, t₂, rfl, h₁, h₂⟩
  · exact Nat.le_trans (h t w' hp hr) (Nat.le_add_right n m)
  · obtain ⟨u, hr₁, hr₂⟩ := Env.runs_append_iff.mp hr
    rw [price_append]
    exact Nat.add_le_add (h t₁ u h₁.cut hr₁) (hf a t₁ u h₁ hr₁ t₂ w' h₂ hr₂)

theorem Spends.try_bind {ε : Type} {x : ExceptT ε (Prog S) α} {f : α → ExceptT ε (Prog S) β}
    (h : Spends env cost n x.run w) (hf : ∀ a t w', Returns x.run t (.ok a) →
      Env.Runs env w t w' → Spends env cost m (f a).run w') :
    Spends env cost (n + m) (x >>= f).run w := by
  refine h.bind fun r t w' hr hw => ?_
  cases r with
  | error e => exact (spends_ret _).mono (Nat.zero_le m)
  | ok a => exact hf a t w' hr hw

theorem Spends.lift (h : Spends env cost n p w) {ε : Type} :
    Spends env cost n (liftM p : ExceptT ε (Prog S) α).run w :=
  fun t w' hp hr => h t w' (partial_lift_iff.mp hp) hr

/-- A loop whose rounds count down: each round but the last costs at most `c`, and the last one
together with what follows it at most `d`. -/
theorem Spends.loop {body : σ → Prog S (σ ⊕ β)} {k : β → Prog S α} (J : σ → ℕ → W → Prop)
    (hcut : ∀ {s i w}, J s i w → Spends env cost (c * i + d) (body s) w)
    (hagain : ∀ {s i w t s' w'}, J s i w → Returns (body s) t (.inl s') → Env.Runs env w t w' →
      ∃ j, i = j + 1 ∧ price cost t ≤ c ∧ J s' j w')
    (hexit : ∀ {s i w t b w'}, J s i w → Returns (body s) t (.inr b) → Env.Runs env w t w' →
      ∃ m, price cost t + m ≤ d ∧ Spends env cost m (k b) w')
    {s : σ} {i : ℕ} (h : J s i w) : Spends env cost (c * i + d) (.loop body s k) w := by
  intro t w' hp hr
  generalize hq : Prog.loop body s k = q at hp
  induction hp generalizing s i w with
  | nil q => exact Nat.zero_le _
  | call r _ _ => cases hq
  | body hp _ =>
    cases hq
    exact hcut h _ _ hp hr
  | again hb _ ih =>
    cases hq
    obtain ⟨u, hr₁, hr₂⟩ := Env.runs_append_iff.mp hr
    obtain ⟨j, rfl, hc, hj⟩ := hagain h hb hr₁
    have hrest := ih hexit hj hr₂ rfl
    rw [price_append]
    calc _ ≤ c + (c * j + d) := Nat.add_le_add hc hrest
      _ = c * (j + 1) + d := by rw [Nat.mul_succ]; omega
  | exit hb hp _ =>
    cases hq
    obtain ⟨u, hr₁, hr₂⟩ := Env.runs_append_iff.mp hr
    obtain ⟨m, hm, hk⟩ := hexit h hb hr₁
    have hrest := hk _ _ hp hr₂
    rw [price_append]
    calc _ ≤ _ + m := Nat.add_le_add_left hrest _
      _ ≤ c * i + d := Nat.le_trans hm (Nat.le_add_left d _)

end Prog
