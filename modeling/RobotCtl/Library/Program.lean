import Mathlib.Data.Sum.Basic
import Mathlib.Data.List.Basic
import Mathlib.Control.Basic

/-! # Programs and their traces

A program is a tree of calls to its environment, with a node for every loop.
Its traces pair each call with the reply it got: a complete trace ends with the
result, a partial trace is cut anywhere. The environment is not part of a
program, so the traces of a program range over all replies.
-/

/-- The calls a program can make and the replies to each. -/
structure Sig where
  Op : Type
  Reply : Op → Type

inductive Prog (S : Sig) : Type → Type 1 where
  | ret {α : Type} (a : α) : Prog S α
  | call {α : Type} (o : S.Op) (k : S.Reply o → Prog S α) : Prog S α
  | loop {σ β α : Type} (body : σ → Prog S (σ ⊕ β)) (s : σ) (k : β → Prog S α) : Prog S α

/-- A call together with the reply to it. -/
abbrev Event (S : Sig) := (o : S.Op) × S.Reply o

namespace Prog

variable {S : Sig} {α β σ : Type}

def bind : {α : Type} → Prog S α → (α → Prog S β) → Prog S β
  | _, .ret a, f => f a
  | _, .call o k, f => .call o fun r => (k r).bind f
  | _, .loop body s k, f => .loop body s fun b => (k b).bind f

instance : Monad (Prog S) where
  pure := .ret
  bind := bind

@[simp] theorem bind_eq (p : Prog S α) (f : α → Prog S β) : p >>= f = p.bind f := rfl

@[simp] theorem ret_bind (a : α) (f : α → Prog S β) : (ret a).bind f = f a := rfl

@[simp] theorem call_bind (o : S.Op) (k : S.Reply o → Prog S α) (f : α → Prog S β) :
    (call o k).bind f = .call o fun r => (k r).bind f := rfl

@[simp] theorem loop_bind {τ : Type} (body : σ → Prog S (σ ⊕ τ)) (s : σ) (k : τ → Prog S α)
    (f : α → Prog S β) : (loop body s k).bind f = .loop body s fun b => (k b).bind f := rfl

@[simp] theorem bind_ret (p : Prog S α) : p.bind ret = p := by
  induction p with
  | ret a => rfl
  | call o k ih => simp [ih]
  | loop body s k _ ih => simp [ih]

protected theorem bind_assoc {γ : Type} (p : Prog S α) (f : α → Prog S β) (g : β → Prog S γ) :
    (p.bind f).bind g = p.bind fun a => (f a).bind g := by
  induction p with
  | ret a => rfl
  | call o k ih => simp [ih]
  | loop body s k _ ih => simp [ih]

instance : LawfulMonad (Prog S) :=
  LawfulMonad.mk' _ (fun p => bind_ret p) (fun _ _ => rfl) Prog.bind_assoc

/-- Make one call and return its reply. -/
def perform (o : S.Op) : Prog S (S.Reply o) := .call o .ret

/-- The complete traces of a program, with its result. -/
inductive Returns : {α : Type} → Prog S α → List (Event S) → α → Prop
  | ret {α : Type} (a : α) : Returns (.ret a) [] a
  | call {α : Type} {o : S.Op} {k : S.Reply o → Prog S α} {t : List (Event S)} {a : α}
      (r : S.Reply o) : Returns (k r) t a → Returns (.call o k) (⟨o, r⟩ :: t) a
  | again {σ β α : Type} {body : σ → Prog S (σ ⊕ β)} {s s' : σ} {k : β → Prog S α}
      {t t' : List (Event S)} {a : α} : Returns (body s) t (.inl s') →
      Returns (.loop body s' k) t' a → Returns (.loop body s k) (t ++ t') a
  | exit {σ β α : Type} {body : σ → Prog S (σ ⊕ β)} {s : σ} {b : β} {k : β → Prog S α}
      {t t' : List (Event S)} {a : α} : Returns (body s) t (.inr b) →
      Returns (k b) t' a → Returns (.loop body s k) (t ++ t') a

/-- The traces of a program cut anywhere. -/
inductive Partial : {α : Type} → Prog S α → List (Event S) → Prop
  | nil {α : Type} (p : Prog S α) : Partial p []
  | call {α : Type} {o : S.Op} {k : S.Reply o → Prog S α} {t : List (Event S)}
      (r : S.Reply o) : Partial (k r) t → Partial (.call o k) (⟨o, r⟩ :: t)
  | body {σ β α : Type} {body : σ → Prog S (σ ⊕ β)} {s : σ} {k : β → Prog S α}
      {t : List (Event S)} : Partial (body s) t → Partial (.loop body s k) t
  | again {σ β α : Type} {body : σ → Prog S (σ ⊕ β)} {s s' : σ} {k : β → Prog S α}
      {t t' : List (Event S)} : Returns (body s) t (.inl s') →
      Partial (.loop body s' k) t' → Partial (.loop body s k) (t ++ t')
  | exit {σ β α : Type} {body : σ → Prog S (σ ⊕ β)} {s : σ} {b : β} {k : β → Prog S α}
      {t t' : List (Event S)} : Returns (body s) t (.inr b) →
      Partial (k b) t' → Partial (.loop body s k) (t ++ t')

/-- Reach a loop head from another by whole iterations. -/
inductive Iterates (body : σ → Prog S (σ ⊕ β)) : σ → List (Event S) → σ → Prop
  | refl (s : σ) : Iterates body s [] s
  | step {s s' s'' : σ} {t t' : List (Event S)} : Iterates body s t s' →
      Returns (body s') t' (.inl s'') → Iterates body s (t ++ t') s''

theorem returns_ret_iff {a b : α} {t : List (Event S)} :
    Returns (ret a : Prog S α) t b ↔ t = [] ∧ b = a := by
  constructor
  · intro h; cases h; exact ⟨rfl, rfl⟩
  · rintro ⟨rfl, rfl⟩; exact .ret _

theorem returns_call_iff {o : S.Op} {k : S.Reply o → Prog S α} {t : List (Event S)} {a : α} :
    Returns (call o k) t a ↔ ∃ r t', t = ⟨o, r⟩ :: t' ∧ Returns (k r) t' a := by
  constructor
  · intro h; cases h with | call r h => exact ⟨r, _, rfl, h⟩
  · rintro ⟨r, t', rfl, h⟩; exact .call r h

theorem returns_perform_iff {o : S.Op} {t : List (Event S)} {r : S.Reply o} :
    Returns (perform o) t r ↔ t = [⟨o, r⟩] := by
  constructor
  · intro h
    obtain ⟨r', t', rfl, h'⟩ := returns_call_iff.mp h
    obtain ⟨rfl, rfl⟩ := returns_ret_iff.mp h'
    rfl
  · rintro rfl; exact .call r (.ret r)

theorem Returns.bind {p : Prog S α} {f : α → Prog S β} {t t' : List (Event S)} {a : α} {b : β}
    (h : Returns p t a) (h' : Returns (f a) t' b) : Returns (p.bind f) (t ++ t') b := by
  induction h with
  | ret a => exact h'
  | call r _ ih => exact .call r (ih h')
  | again hb _ _ ih => rw [List.append_assoc]; exact .again hb (ih h')
  | exit hb _ _ ih => rw [List.append_assoc]; exact .exit hb (ih h')

theorem returns_bind_iff {p : Prog S α} {f : α → Prog S β} {t : List (Event S)} {b : β} :
    Returns (p.bind f) t b ↔ ∃ a t₁ t₂, t = t₁ ++ t₂ ∧ Returns p t₁ a ∧ Returns (f a) t₂ b := by
  constructor
  · intro h
    generalize hq : p.bind f = q at h
    induction h generalizing p with
    | ret b =>
      cases p with
      | ret a => exact ⟨a, [], [], rfl, .ret a, by rw [← ret_bind a f, hq]; exact .ret b⟩
      | call o k => simp at hq
      | loop body s k => simp at hq
    | @call _ o k t b r h ih =>
      cases p with
      | ret a => exact ⟨a, [], _, rfl, .ret a, by rw [← ret_bind a f, hq]; exact .call r h⟩
      | call o' k' =>
        rw [call_bind] at hq
        cases hq
        obtain ⟨a, t₁, t₂, rfl, h₁, h₂⟩ := ih rfl
        exact ⟨a, _, t₂, rfl, .call r h₁, h₂⟩
      | loop body s k => simp at hq
    | @again σ γ _ body s s' k t t' b h h' _ ih =>
      cases p with
      | ret a => exact ⟨a, [], _, rfl, .ret a, by rw [← ret_bind a f, hq]; exact .again h h'⟩
      | call o k => simp at hq
      | loop body' u k' =>
        rw [loop_bind] at hq
        cases hq
        obtain ⟨a, t₁, t₂, rfl, h₁, h₂⟩ := ih (p := .loop body s' k') rfl
        exact ⟨a, _, t₂, by rw [List.append_assoc], .again h h₁, h₂⟩
    | @exit σ γ _ body s c k t t' b h h' _ ih =>
      cases p with
      | ret a => exact ⟨a, [], _, rfl, .ret a, by rw [← ret_bind a f, hq]; exact .exit h h'⟩
      | call o k => simp at hq
      | loop body' u k' =>
        rw [loop_bind] at hq
        cases hq
        obtain ⟨a, t₁, t₂, rfl, h₁, h₂⟩ := ih rfl
        exact ⟨a, _, t₂, by rw [List.append_assoc], .exit h h₁, h₂⟩
  · rintro ⟨a, t₁, t₂, rfl, h₁, h₂⟩; exact h₁.bind h₂

/-- A fallible program followed by another: the first fails, or the second runs on its value. -/
theorem returns_try_bind_iff {ε : Type} {x : ExceptT ε (Prog S) α}
    {f : α → ExceptT ε (Prog S) β} {t : List (Event S)} {r : Except ε β} :
    Returns (x >>= f).run t r ↔ (∃ e, Returns x.run t (.error e) ∧ r = .error e) ∨
      ∃ a t₁ t₂, t = t₁ ++ t₂ ∧ Returns x.run t₁ (.ok a) ∧ Returns (f a).run t₂ r := by
  rw [ExceptT.run_bind, bind_eq, returns_bind_iff]
  constructor
  · rintro ⟨a | a, t₁, t₂, rfl, h₁, h₂⟩
    · obtain ⟨rfl, rfl⟩ := returns_ret_iff.mp h₂
      exact Or.inl ⟨a, by rwa [List.append_nil], rfl⟩
    · exact Or.inr ⟨a, t₁, t₂, rfl, h₁, h₂⟩
  · rintro (⟨e, h, rfl⟩ | ⟨a, t₁, t₂, rfl, h₁, h₂⟩)
    · exact ⟨.error e, t, [], by simp, h, .ret _⟩
    · exact ⟨.ok a, t₁, t₂, rfl, h₁, h₂⟩

/-- A sequence succeeds if both of its parts do. -/
theorem returns_try_bind_ok_iff {ε : Type} {x : ExceptT ε (Prog S) α}
    {f : α → ExceptT ε (Prog S) β} {t : List (Event S)} {b : β} :
    Returns (x >>= f).run t (.ok b) ↔
      ∃ a t₁ t₂, t = t₁ ++ t₂ ∧ Returns x.run t₁ (.ok a) ∧ Returns (f a).run t₂ (.ok b) := by
  rw [returns_try_bind_iff]
  refine or_iff_right ?_
  rintro ⟨_, _, he⟩
  cases he

theorem Returns.try_bind {ε : Type} {x : ExceptT ε (Prog S) α} {f : α → ExceptT ε (Prog S) β}
    {t t' : List (Event S)} {a : α} {r : Except ε β} (h : Returns x.run t (.ok a))
    (h' : Returns (f a).run t' r) : Returns (x >>= f).run (t ++ t') r :=
  returns_try_bind_iff.mpr (Or.inr ⟨a, t, t', rfl, h, h'⟩)

/-- A fallible program whose value is only converted. -/
theorem returns_try_map_iff {ε : Type} {x : ExceptT ε (Prog S) α} {f : α → β} {t : List (Event S)}
    {r : Except ε β} : Returns (x >>= fun a => pure (f a)).run t r ↔
      ∃ r', Returns x.run t r' ∧ r = r'.map f := by
  rw [returns_try_bind_iff]
  constructor
  · rintro (⟨e, h, rfl⟩ | ⟨a, t₁, t₂, rfl, h₁, h₂⟩)
    · exact ⟨.error e, h, rfl⟩
    · obtain ⟨rfl, rfl⟩ := returns_ret_iff.mp h₂
      exact ⟨.ok a, by rwa [List.append_nil], rfl⟩
  · rintro ⟨e | a, h, rfl⟩
    · exact Or.inl ⟨e, h, rfl⟩
    · exact Or.inr ⟨a, t, [], (List.append_nil t).symm, h, .ret _⟩

/-- A program that cannot fail, as a fallible one. -/
theorem returns_lift_iff {ε : Type} {p : Prog S α} {t : List (Event S)} {r : Except ε α} :
    Returns (liftM p : ExceptT ε (Prog S) α).run t r ↔ ∃ a, Returns p t a ∧ r = .ok a := by
  have h : (liftM p : ExceptT ε (Prog S) α).run = p.bind fun a => ret (.ok a) := rfl
  simp only [h, returns_bind_iff, returns_ret_iff]
  constructor
  · rintro ⟨a, t₁, t₂, rfl, hp, rfl, rfl⟩; exact ⟨a, by rwa [List.append_nil], rfl⟩
  · rintro ⟨a, hp, rfl⟩; exact ⟨a, t, [], by simp, hp, rfl, rfl⟩

/-- A program followed by another, as a fallible one. -/
theorem returns_lift_bind_iff {ε : Type} {p : Prog S α} {f : α → ExceptT ε (Prog S) β}
    {t : List (Event S)} {r : Except ε β} :
    Returns ((liftM p : ExceptT ε (Prog S) α) >>= f).run t r ↔
      ∃ a t₁ t₂, t = t₁ ++ t₂ ∧ Returns p t₁ a ∧ Returns (f a).run t₂ r := by
  rw [returns_try_bind_iff]
  constructor
  · rintro (⟨e, h, -⟩ | ⟨a, t₁, t₂, rfl, h₁, h₂⟩)
    · obtain ⟨_, -, he⟩ := returns_lift_iff.mp h
      cases he
    · obtain ⟨_, h₁, ha⟩ := returns_lift_iff.mp h₁
      cases ha
      exact ⟨a, t₁, t₂, rfl, h₁, h₂⟩
  · rintro ⟨a, t₁, t₂, rfl, h₁, h₂⟩
    exact Or.inr ⟨a, t₁, t₂, rfl, returns_lift_iff.mpr ⟨a, h₁, rfl⟩, h₂⟩

theorem Returns.cut {p : Prog S α} {t : List (Event S)} {a : α} (h : Returns p t a) :
    Partial p t := by
  induction h with
  | ret a => exact .nil _
  | call r _ ih => exact .call r ih
  | again hb _ _ ih => exact .again hb ih
  | exit hb _ _ ih => exact .exit hb ih

theorem isPrefix_append_cases {E : Type} {t t' u : List E} (h : u <+: t ++ t') :
    u <+: t ∨ ∃ v, u = t ++ v ∧ v <+: t' := by
  rcases List.prefix_or_prefix_of_prefix h (List.prefix_append t t') with hu | ⟨v, rfl⟩
  · exact Or.inl hu
  · exact Or.inr ⟨v, rfl, (List.prefix_append_right_inj t).mp h⟩

theorem Returns.shorten {p : Prog S α} {t u : List (Event S)} {a : α} (h : Returns p t a)
    (hu : u <+: t) : Partial p u := by
  induction h generalizing u with
  | ret a => rw [List.prefix_nil.mp hu]; exact .nil _
  | call r _ ih =>
    rcases List.prefix_cons_iff.mp hu with rfl | ⟨v, rfl, hv⟩
    · exact .nil _
    · exact .call r (ih hv)
  | again hb _ ihb ih =>
    rcases isPrefix_append_cases hu with hu | ⟨v, rfl, hv⟩
    · exact .body (ihb hu)
    · exact .again hb (ih hv)
  | exit hb _ ihb ih =>
    rcases isPrefix_append_cases hu with hu | ⟨v, rfl, hv⟩
    · exact .body (ihb hu)
    · exact .exit hb (ih hv)

/-- A trace that was cut can be cut earlier. -/
theorem Partial.shorten {p : Prog S α} {t u : List (Event S)} (h : Partial p t) (hu : u <+: t) :
    Partial p u := by
  induction h generalizing u with
  | nil p => rw [List.prefix_nil.mp hu]; exact .nil _
  | call r _ ih =>
    rcases List.prefix_cons_iff.mp hu with rfl | ⟨v, rfl, hv⟩
    · exact .nil _
    · exact .call r (ih hv)
  | body _ ih => exact .body (ih hu)
  | again hb _ ih =>
    rcases isPrefix_append_cases hu with hu | ⟨v, rfl, hv⟩
    · exact .body (hb.shorten hu)
    · exact .again hb (ih hv)
  | exit hb _ ih =>
    rcases isPrefix_append_cases hu with hu | ⟨v, rfl, hv⟩
    · exact .body (hb.shorten hu)
    · exact .exit hb (ih hv)

theorem Iterates.trans {body : σ → Prog S (σ ⊕ β)} {s s' s'' : σ} {t t' : List (Event S)}
    (h : Iterates body s t s') (h' : Iterates body s' t' s'') : Iterates body s (t ++ t') s'' := by
  induction h' with
  | refl => rwa [List.append_nil]
  | step _ hb ih =>
    rw [← List.append_assoc]
    exact ih.step hb

theorem Iterates.returns_loop {body : σ → Prog S (σ ⊕ β)} {k : β → Prog S α} {s s' : σ}
    {t t' : List (Event S)} {a : α} (h : Iterates body s t s')
    (h' : Returns (.loop body s' k) t' a) : Returns (.loop body s k) (t ++ t') a := by
  induction h generalizing t' with
  | refl => exact h'
  | step _ hb ih =>
    rw [List.append_assoc]
    exact ih (.again hb h')

theorem Iterates.partial_loop {body : σ → Prog S (σ ⊕ β)} {k : β → Prog S α} {s s' : σ}
    {t t' : List (Event S)} (h : Iterates body s t s') (h' : Partial (.loop body s' k) t') :
    Partial (.loop body s k) (t ++ t') := by
  induction h generalizing t' with
  | refl => exact h'
  | step _ hb ih =>
    rw [List.append_assoc]
    exact ih (.again hb h')

/-- A loop that is left makes whole rounds, and is left by a last one. -/
theorem Returns.loop_rounds {body : σ → Prog S (σ ⊕ β)} {k : β → Prog S α} {s : σ}
    {t : List (Event S)} {a : α} (h : Returns (.loop body s k) t a) :
    ∃ s' b u t₁ t₂, t = u ++ (t₁ ++ t₂) ∧ Iterates body s u s' ∧ Returns (body s') t₁ (.inr b) ∧
      Returns (k b) t₂ a := by
  generalize hq : Prog.loop body s k = q at h
  induction h generalizing s with
  | ret a => cases hq
  | call r _ _ => cases hq
  | @again _ _ _ body s _ k t _ _ hround _ _ ih =>
    cases hq
    obtain ⟨s', b, u, t₁, t₂, rfl, hu, hb, hk⟩ := ih rfl
    have hfirst : Iterates body s ([] ++ t) _ := (Iterates.refl s).step hround
    exact ⟨s', b, t ++ u, t₁, t₂, (List.append_assoc ..).symm, hfirst.trans hu, hb, hk⟩
  | @exit _ _ _ body s b k t t' a hb hk =>
    cases hq
    exact ⟨s, b, [], t, t', rfl, .refl s, hb, hk⟩

/-- A loop that is left is left by a round. -/
theorem Returns.loop_exit {body : σ → Prog S (σ ⊕ β)} {k : β → Prog S α} {s : σ}
    {t : List (Event S)} {a : α} (h : Returns (.loop body s k) t a) :
    ∃ s' b t₁ t₂, Returns (body s') t₁ (.inr b) ∧ Returns (k b) t₂ a := by
  obtain ⟨s', b, -, t₁, t₂, -, -, hb, hk⟩ := h.loop_rounds
  exact ⟨s', b, t₁, t₂, hb, hk⟩

/-- A loop that is cut has made whole rounds, and is cut in a round or behind the last one. -/
theorem Partial.loop_rounds {body : σ → Prog S (σ ⊕ β)} {k : β → Prog S α} {s : σ}
    {t : List (Event S)} (h : Partial (.loop body s k) t) :
    ∃ s' u t', t = u ++ t' ∧ Iterates body s u s' ∧ (Partial (body s') t' ∨
      ∃ b t₁ t₂, t' = t₁ ++ t₂ ∧ Returns (body s') t₁ (.inr b) ∧ Partial (k b) t₂) := by
  generalize hq : Prog.loop body s k = q at h
  induction h generalizing s with
  | nil q => exact ⟨s, [], [], rfl, .refl s, Or.inl (.nil _)⟩
  | call r _ _ => cases hq
  | body hb _ =>
    cases hq
    exact ⟨s, [], _, rfl, .refl s, Or.inl hb⟩
  | @again _ _ _ body s _ k t _ hround _ ih =>
    cases hq
    obtain ⟨s', u, t', rfl, hu, hrest⟩ := ih rfl
    have hfirst : Iterates body s ([] ++ t) _ := (Iterates.refl s).step hround
    exact ⟨s', t ++ u, t', (List.append_assoc ..).symm, hfirst.trans hu, hrest⟩
  | exit hb hk _ =>
    cases hq
    exact ⟨s, [], _, rfl, .refl s, Or.inr ⟨_, _, _, rfl, hb, hk⟩⟩

/-- A partial trace of a sequence ends in its first part or in its second. -/
theorem partial_bind_iff {p : Prog S α} {f : α → Prog S β} {t : List (Event S)} :
    Partial (p.bind f) t ↔ Partial p t ∨
      ∃ a t₁ t₂, t = t₁ ++ t₂ ∧ Returns p t₁ a ∧ Partial (f a) t₂ := by
  constructor
  · intro h
    generalize hq : p.bind f = q at h
    induction h generalizing p with
    | nil q => exact Or.inl (.nil p)
    | @call _ o k t r h ih =>
      cases p with
      | ret a => exact Or.inr ⟨a, [], _, rfl, .ret a, by rw [← ret_bind a f, hq]; exact .call r h⟩
      | call o' k' =>
        rw [call_bind] at hq
        cases hq
        rcases ih rfl with h' | ⟨a, t₁, t₂, rfl, h₁, h₂⟩
        · exact Or.inl (.call r h')
        · exact Or.inr ⟨a, _, t₂, rfl, .call r h₁, h₂⟩
      | loop body s k => simp at hq
    | @body σ γ _ body s k t h _ =>
      cases p with
      | ret a => exact Or.inr ⟨a, [], _, rfl, .ret a, by rw [← ret_bind a f, hq]; exact .body h⟩
      | call o k => simp at hq
      | loop body' u k' =>
        rw [loop_bind] at hq
        cases hq
        exact Or.inl (.body h)
    | @again σ γ _ body s s' k t t' h h' ih =>
      cases p with
      | ret a => exact Or.inr ⟨a, [], _, rfl, .ret a, by rw [← ret_bind a f, hq]; exact .again h h'⟩
      | call o k => simp at hq
      | loop body' u k' =>
        rw [loop_bind] at hq
        cases hq
        rcases ih (p := .loop body s' k') rfl with h₁ | ⟨a, t₁, t₂, rfl, h₁, h₂⟩
        · exact Or.inl (.again h h₁)
        · exact Or.inr ⟨a, _, t₂, by rw [List.append_assoc], .again h h₁, h₂⟩
    | @exit σ γ _ body s c k t t' h h' ih =>
      cases p with
      | ret a => exact Or.inr ⟨a, [], _, rfl, .ret a, by rw [← ret_bind a f, hq]; exact .exit h h'⟩
      | call o k => simp at hq
      | loop body' u k' =>
        rw [loop_bind] at hq
        cases hq
        rcases ih rfl with h₁ | ⟨a, t₁, t₂, rfl, h₁, h₂⟩
        · exact Or.inl (.exit h h₁)
        · exact Or.inr ⟨a, _, t₂, by rw [List.append_assoc], .exit h h₁, h₂⟩
  · rintro (h | ⟨a, t₁, t₂, rfl, h₁, h₂⟩)
    · induction h with
      | nil p => exact .nil _
      | call r _ ih => exact .call r ih
      | body h _ => exact .body h
      | again hb _ ih => exact .again hb ih
      | exit hb _ ih => exact .exit hb ih
    · induction h₁ with
      | ret a => exact h₂
      | call r _ ih => exact .call r (ih h₂)
      | again hb _ _ ih => rw [List.append_assoc]; exact .again hb (ih h₂)
      | exit hb _ _ ih => rw [List.append_assoc]; exact .exit hb (ih h₂)

/-- A partial trace of a fallible program followed by another. -/
theorem partial_try_bind_iff {ε : Type} {x : ExceptT ε (Prog S) α}
    {f : α → ExceptT ε (Prog S) β} {t : List (Event S)} : Partial (x >>= f).run t ↔
      Partial x.run t ∨
        ∃ a t₁ t₂, t = t₁ ++ t₂ ∧ Returns x.run t₁ (.ok a) ∧ Partial (f a).run t₂ := by
  rw [ExceptT.run_bind, bind_eq, partial_bind_iff]
  constructor
  · rintro (h | ⟨e | a, t₁, t₂, rfl, h₁, h₂⟩)
    · exact Or.inl h
    · have ht : t₂ = [] := by cases h₂; rfl
      rw [ht, List.append_nil]
      exact Or.inl h₁.cut
    · exact Or.inr ⟨a, t₁, t₂, rfl, h₁, h₂⟩
  · rintro (h | ⟨a, t₁, t₂, rfl, h₁, h₂⟩)
    · exact Or.inl h
    · exact Or.inr ⟨.ok a, t₁, t₂, rfl, h₁, h₂⟩

theorem partial_lift_iff {ε : Type} {p : Prog S α} {t : List (Event S)} :
    Partial (liftM p : ExceptT ε (Prog S) α).run t ↔ Partial p t := by
  have h : (liftM p : ExceptT ε (Prog S) α).run = p.bind fun a => ret (.ok a) := rfl
  rw [h, partial_bind_iff]
  constructor
  · rintro (h | ⟨a, t₁, t₂, rfl, h₁, h₂⟩)
    · exact h
    · have ht : t₂ = [] := by cases h₂; rfl
      rw [ht, List.append_nil]
      exact h₁.cut
  · exact Or.inl

/-- A loop over a list leaves one record of each round, in order. -/
theorem exists_records {ω : Type} {f : σ → α → Prog S σ} {subject : ω → α} {Valid : ω → Prop}
    {events : ω → List (Event S)} {next : σ → ω → σ}
    (hf : ∀ s x t s', Returns (f s x) t s' →
      ∃ w, subject w = x ∧ Valid w ∧ t = events w ∧ s' = next s w)
    {xs : List α} {s s' : σ} {t : List (Event S)} (h : Returns (xs.foldlM f s) t s') :
    ∃ ws : List ω, ws.map subject = xs ∧ (∀ w ∈ ws, Valid w) ∧ t = ws.flatMap events ∧
      s' = ws.foldl next s := by
  induction xs generalizing s t with
  | nil =>
    obtain ⟨rfl, rfl⟩ := returns_ret_iff.mp h
    exact ⟨[], rfl, by simp, rfl, rfl⟩
  | cons x xs ih =>
    rw [List.foldlM_cons, bind_eq] at h
    obtain ⟨u, t₁, t₂, rfl, h₁, h₂⟩ := returns_bind_iff.mp h
    obtain ⟨w, hx, hw, rfl, rfl⟩ := hf s x t₁ u h₁
    obtain ⟨ws, hxs, hws, rfl, hs⟩ := ih h₂
    exact ⟨w :: ws, by simp [hx, hxs], by simpa using ⟨hw, hws⟩, by simp, hs⟩

/-- Every call of the program, whatever the replies, is an allowed one. -/
def Uses (allowed : S.Op → Prop) : {α : Type} → Prog S α → Prop
  | _, .ret _ => True
  | _, .call o k => allowed o ∧ ∀ r, (k r).Uses allowed
  | _, .loop body _ k => (∀ s, (body s).Uses allowed) ∧ ∀ b, (k b).Uses allowed

variable {allowed : S.Op → Prop} {p : Prog S α} {t : List (Event S)}

theorem Uses.bind {f : α → Prog S β} (h : p.Uses allowed) (hf : ∀ a, (f a).Uses allowed) :
    (p.bind f).Uses allowed := by
  induction p with
  | ret a => exact hf a
  | call o k ih => exact ⟨h.1, fun r => ih r (h.2 r) hf⟩
  | loop body s k _ ih => exact ⟨h.1, fun b => ih b (h.2 b) hf⟩

theorem Uses.try_bind {ε : Type} {x : ExceptT ε (Prog S) α} {f : α → ExceptT ε (Prog S) β}
    (h : x.run.Uses allowed) (hf : ∀ a, (f a).run.Uses allowed) : (x >>= f).run.Uses allowed :=
  Uses.bind h fun r => match r with
    | .ok a => hf a
    | .error _ => trivial

theorem Uses.lift_bind {ε : Type} {f : α → ExceptT ε (Prog S) β} (h : p.Uses allowed)
    (hf : ∀ a, (f a).run.Uses allowed) :
    ((liftM p : ExceptT ε (Prog S) α) >>= f).run.Uses allowed :=
  Uses.try_bind (h.bind fun _ => trivial) hf

theorem Uses.foldlM {ε : Type} {f : σ → α → ExceptT ε (Prog S) σ} {xs : List α} {s : σ}
    (h : ∀ s x, (f s x).run.Uses allowed) : (xs.foldlM f s).run.Uses allowed := by
  induction xs generalizing s with
  | nil => trivial
  | cons x xs ih =>
    rw [List.foldlM_cons]
    exact (h s x).try_bind fun _ => ih

/-- A loop that cannot fail, over elements of which each has its allowed rounds. -/
theorem Uses.foldlM_mem {f : σ → α → Prog S σ} {xs : List α} {s : σ}
    (h : ∀ x ∈ xs, ∀ s, (f s x).Uses allowed) : (xs.foldlM f s).Uses allowed := by
  induction xs generalizing s with
  | nil => trivial
  | cons x xs ih =>
    obtain ⟨hx, hxs⟩ := List.forall_mem_cons.mp h
    rw [List.foldlM_cons]
    exact (hx s).bind fun _ => ih hxs

theorem Uses.foldlM_prog {f : σ → α → Prog S σ} {xs : List α} {s : σ}
    (h : ∀ s x, (f s x).Uses allowed) : (xs.foldlM f s).Uses allowed :=
  Uses.foldlM_mem fun x _ s => h s x

theorem Uses.mapM_prog {f : α → Prog S β} {xs : List α} (h : ∀ x, (f x).Uses allowed) :
    (xs.mapM f).Uses allowed := by
  induction xs with
  | nil => trivial
  | cons x xs ih =>
    rw [List.mapM_cons]
    exact (h x).bind fun _ => ih.bind fun _ => trivial

theorem Uses.mono {allowed' : S.Op → Prop} (h : p.Uses allowed) (hm : ∀ o, allowed o → allowed' o) :
    p.Uses allowed' := by
  induction p with
  | ret a => trivial
  | call o k ih => exact ⟨hm o h.1, fun r => ih r (h.2 r)⟩
  | loop body s k ihb ih => exact ⟨fun s => ihb s (h.1 s), fun b => ih b (h.2 b)⟩

theorem Uses.returns {a : α} (h : p.Uses allowed) (hr : Returns p t a) :
    ∀ e ∈ t, allowed e.1 := by
  induction hr with
  | ret a => simp
  | call r _ ih => exact List.forall_mem_cons.mpr ⟨h.1, ih (h.2 r)⟩
  | again _ _ ihb ih => exact List.forall_mem_append.mpr ⟨ihb (h.1 _), ih h⟩
  | exit _ _ ihb ih => exact List.forall_mem_append.mpr ⟨ihb (h.1 _), ih (h.2 _)⟩

theorem Uses.cut (h : p.Uses allowed) (hr : Partial p t) : ∀ e ∈ t, allowed e.1 := by
  induction hr with
  | nil p => simp
  | call r _ ih => exact List.forall_mem_cons.mpr ⟨h.1, ih (h.2 r)⟩
  | body _ ih => exact ih (h.1 _)
  | again hb _ ih => exact List.forall_mem_append.mpr ⟨(h.1 _).returns hb, ih h⟩
  | exit hb _ ih => exact List.forall_mem_append.mpr ⟨(h.1 _).returns hb, ih (h.2 _)⟩

/-- What follows a fallible program need only be allowed for the values that this returns. -/
theorem Uses.cut_try_bind {ε : Type} {x : ExceptT ε (Prog S) α} {f : α → ExceptT ε (Prog S) β}
    (hx : x.run.Uses allowed) (hf : ∀ t a, Returns x.run t (.ok a) → (f a).run.Uses allowed)
    (h : Partial (x >>= f).run t) : ∀ e ∈ t, allowed e.1 := by
  rcases partial_try_bind_iff.mp h with h | ⟨a, t₁, t₂, rfl, h₁, h₂⟩
  · exact hx.cut h
  · exact List.forall_mem_append.mpr ⟨hx.returns h₁, (hf t₁ a h₁).cut h₂⟩

/-- The program has no loop, and every call of it, whatever the replies, is an allowed one. -/
def Straight (allowed : S.Op → Prop) : {α : Type} → Prog S α → Prop
  | _, .ret _ => True
  | _, .call o k => allowed o ∧ ∀ r, (k r).Straight allowed
  | _, .loop _ _ _ => False

theorem Straight.bind {f : α → Prog S β} (h : p.Straight allowed)
    (hf : ∀ a, (f a).Straight allowed) : (p.bind f).Straight allowed := by
  induction p with
  | ret a => exact hf a
  | call o k ih => exact ⟨h.1, fun r => ih r (h.2 r) hf⟩
  | loop body s k _ _ => exact h.elim

theorem Straight.try_bind {ε : Type} {x : ExceptT ε (Prog S) α} {f : α → ExceptT ε (Prog S) β}
    (h : x.run.Straight allowed) (hf : ∀ a, (f a).run.Straight allowed) :
    (x >>= f).run.Straight allowed :=
  Straight.bind h fun r => match r with
    | .ok a => hf a
    | .error _ => trivial

theorem Straight.lift_bind {ε : Type} {f : α → ExceptT ε (Prog S) β} (h : p.Straight allowed)
    (hf : ∀ a, (f a).run.Straight allowed) :
    ((liftM p : ExceptT ε (Prog S) α) >>= f).run.Straight allowed :=
  Straight.try_bind (h.bind fun _ => trivial) hf

end Prog
