import Mathlib.Logic.Function.Basic

/-! # Programs with effects — every effect is a crash point

    A program is a tree: it returns, or it performs one effect and goes on with
    the answer.  A handler says what an effect answers and what it does to the
    world.  Two readings of a program are needed by any argument about a process
    that can die at an arbitrary moment:

    * `exec` runs it to the end;
    * `crashAt n` is the world left behind when the process dies after at most
      `n` of its effects.

    `Always` is the rule of pre- and postconditions for both readings at once:
    an invariant of every world in between, and a postcondition for the end.

    `exec_related` is the rule for two handlers that differ in the answers a program
    ends with.

    `Calls` puts callers side by side that share the world and take turns at every
    effect; `Calls.run_induction` is its invariant rule. -/

namespace EffectProg

/-- A program over the effects `E`: a result, or an effect and a continuation. -/
inductive Prog (E : Type → Type) (α : Type) : Type 1 where
  | ret (a : α) : Prog E α
  | op {β : Type} (e : E β) (k : β → Prog E α) : Prog E α

/-- What each effect answers, and the world it leaves. -/
abbrev Handler (E : Type → Type) (W : Type) := (β : Type) → E β → W → β × W

variable {E : Type → Type} {W α γ : Type}

namespace Prog

/-- Sequencing: the continuation is grafted onto every result. -/
def bind : Prog E α → (α → Prog E γ) → Prog E γ
  | ret a, f => f a
  | op e k, f => op e (fun b => (k b).bind f)

instance : Monad (Prog E) where
  pure := ret
  bind := bind

/-- One effect, its answer the result. -/
def perform {β : Type} (e : E β) : Prog E β := op e ret

/-- Run to the end. -/
def exec (h : Handler E W) : Prog E α → W → α × W
  | ret a, w => (a, w)
  | op e k, w => (k (h _ e w).1).exec h (h _ e w).2

/-- The world after at most `n` effects. -/
def crashAt (h : Handler E W) : Nat → Prog E α → W → W
  | 0, _, w => w
  | _ + 1, ret _, w => w
  | n + 1, op e k, w => (k (h _ e w).1).crashAt h n (h _ e w).2

/-- `I` holds in every world the program passes through, the last included, and
    `Q` holds of the result and the last world. -/
def Always (h : Handler E W) (I : W → Prop) (Q : α → W → Prop) :
    Prog E α → W → Prop
  | ret a, w => I w ∧ Q a w
  | op e k, w => I w ∧ (k (h _ e w).1).Always h I Q (h _ e w).2

@[simp] theorem exec_ret (h : Handler E W) (a : α) (w : W) :
    (ret a : Prog E α).exec h w = (a, w) := rfl

@[simp] theorem exec_op (h : Handler E W) {β : Type} (e : E β)
    (k : β → Prog E α) (w : W) :
    (op e k).exec h w = (k (h _ e w).1).exec h (h _ e w).2 := rfl

@[simp] theorem exec_perform (h : Handler E W) {β : Type} (e : E β) (w : W) :
    (perform e).exec h w = h _ e w := rfl

@[simp] theorem pure_eq (a : α) : (pure a : Prog E α) = ret a := rfl

@[simp] theorem bind_eq (p : Prog E α) (f : α → Prog E γ) : (p >>= f) = p.bind f := rfl

@[simp] theorem perform_bind {β : Type} (e : E β) (f : β → Prog E γ) :
    (perform e).bind f = op e f := rfl

@[simp] theorem bind_ret (a : α) (f : α → Prog E γ) :
    (ret a : Prog E α).bind f = f a := rfl

@[simp] theorem bind_op {β : Type} (e : E β) (k : β → Prog E α)
    (f : α → Prog E γ) :
    (op e k).bind f = op e (fun b => (k b).bind f) := rfl

@[simp] theorem always_ret (h : Handler E W) (I : W → Prop) (Q : α → W → Prop)
    (a : α) (w : W) :
    (ret a : Prog E α).Always h I Q w ↔ I w ∧ Q a w := Iff.rfl

@[simp] theorem always_op (h : Handler E W) (I : W → Prop) (Q : α → W → Prop)
    {β : Type} (e : E β) (k : β → Prog E α) (w : W) :
    (op e k).Always h I Q w
      ↔ I w ∧ (k (h _ e w).1).Always h I Q (h _ e w).2 := Iff.rfl

/-- Running a sequence is running its parts in turn. -/
theorem exec_bind (h : Handler E W) (p : Prog E α) (f : α → Prog E γ) (w : W) :
    (p.bind f).exec h w = (f (p.exec h w).1).exec h (p.exec h w).2 := by
  induction p generalizing w with
  | ret a => rfl
  | op e k ih => exact ih _ _

variable {h : Handler E W} {I : W → Prop} {Q : α → W → Prop}

/-- The invariant holds now. -/
theorem always_now {p : Prog E α} {w : W} (hp : p.Always h I Q w) : I w := by
  cases p with
  | ret a => exact hp.1
  | op e k => exact hp.1

/-- **CRASH SAFETY**: whatever the number of effects performed, the world left
    behind satisfies the invariant. -/
theorem always_crashAt {p : Prog E α} {w : W} (hp : p.Always h I Q w) (n : Nat) :
    I (p.crashAt h n w) := by
  induction n generalizing p w with
  | zero => exact always_now hp
  | succ n ih =>
      cases p with
      | ret a => exact hp.1
      | op e k => exact ih hp.2

/-- **PARTIAL RUNS END**: the run to the end satisfies the postcondition. -/
theorem always_exec {p : Prog E α} {w : W} (hp : p.Always h I Q w) :
    I (p.exec h w).2 ∧ Q (p.exec h w).1 (p.exec h w).2 := by
  induction p generalizing w with
  | ret a => exact hp
  | op e k ih => exact ih _ hp.2

/-- The rule of sequencing: the postcondition of the first part is the
    precondition of the second. -/
theorem always_bind {Q' : γ → W → Prop} {p : Prog E α} {f : α → Prog E γ} {w : W}
    (hp : p.Always h I Q w)
    (hf : ∀ a w, I w → Q a w → (f a).Always h I Q' w) :
    (p.bind f).Always h I Q' w := by
  induction p generalizing w with
  | ret a => exact hf a w hp.1 hp.2
  | op e k ih => exact ⟨hp.1, ih _ hp.2⟩

/-! ### Two handlers side by side -/

section Related

variable {V : Type} {P : {β : Type} → E β → Prop}

/-- No effect of the program is in `P`. -/
def Avoids (P : {β : Type} → E β → Prop) : Prog E α → Prop
  | ret _ => True
  | op e k => ¬P e ∧ ∀ b, (k b).Avoids P

/-- The effects in `P` come last: after one of them only the result is left. -/
def EndsWith (P : {β : Type} → E β → Prop) : Prog E α → Prop
  | ret _ => True
  | op e k => (P e → ∀ b, ∃ a, k b = ret a) ∧ (¬P e → ∀ b, (k b).EndsWith P)

theorem Avoids.bind {p : Prog E α} {f : α → Prog E γ} (hp : p.Avoids P)
    (hf : ∀ a, (f a).Avoids P) : (p.bind f).Avoids P := by
  induction p with
  | ret a => exact hf a
  | op e k ih => exact ⟨hp.1, fun b => ih b (hp.2 b)⟩

theorem Avoids.endsWith_bind {p : Prog E α} {f : α → Prog E γ} (hp : p.Avoids P)
    (hf : ∀ a, (f a).EndsWith P) : (p.bind f).EndsWith P := by
  induction p with
  | ret a => exact hf a
  | op e k ih =>
      refine ⟨?_, ?_⟩
      · intro he
        exact absurd he hp.1
      · intro _ b
        exact ih b (hp.2 b)

theorem Avoids.endsWith {p : Prog E α} (hp : p.Avoids P) : p.EndsWith P := by
  induction p with
  | ret a => trivial
  | op e k ih => exact ⟨fun he => absurd he hp.1, fun _ b => ih b (hp.2 b)⟩

/-- **THE LAST ANSWER DOES NOT MATTER**: two handlers that keep their worlds related and
    give the same answers, but for the effects in `P`, lead to related worlds when those
    effects come last. -/
theorem exec_related (h₁ : Handler E W) (h₂ : Handler E V) (R : W → V → Prop)
    (hsame : ∀ {β : Type} (e : E β) w v, R w v → ¬P e →
      (h₁ β e w).1 = (h₂ β e v).1 ∧ R (h₁ β e w).2 (h₂ β e v).2)
    (hlast : ∀ {β : Type} (e : E β) w v, R w v → P e → R (h₁ β e w).2 (h₂ β e v).2)
    {p : Prog E α} (hp : p.EndsWith P) {w : W} {v : V} (hR : R w v) :
    R (p.exec h₁ w).2 (p.exec h₂ v).2 := by
  induction p generalizing w v with
  | ret a => exact hR
  | op e k ih =>
      by_cases he : P e
      · -- both programs have returned, whatever they were told
        obtain ⟨a, ha⟩ := hp.1 he (h₁ _ e w).1
        obtain ⟨a', ha'⟩ := hp.1 he (h₂ _ e v).1
        rw [exec_op, exec_op, ha, ha']
        exact hlast e w v hR he
      · obtain ⟨hans, hR'⟩ := hsame e w v hR he
        rw [exec_op, exec_op, hans]
        exact ih _ (hp.2 he _) hR'

end Related

end Prog

/-! ## Interleavings -/

/-- A caller: the requests it has still to make, the one it is in the middle of, and
    what came back. -/
structure Client (E : Type → Type) (Q R : Type) : Type 1 where
  todo : List Q
  running : Option (Q × Prog E R)
  returned : List (Q × R)

/-- Callers that share a world. -/
structure Calls (ι : Type) (E : Type → Type) (Q R W : Type) : Type 1 where
  world : W
  clients : ι → Client E Q R

section Interleaving

variable {ι Q R : Type} [DecidableEq ι] (prog : Q → Prog E R) (h : Handler E W)

/-- One caller's next move: make a request, perform one effect, or return. -/
def Client.move (c : Client E Q R) (w : W) : Client E Q R × W :=
  match c.running, c.todo with
  | none, [] => (c, w)
  | none, q :: qs => ({ c with todo := qs, running := some (q, prog q) }, w)
  | some (q, .ret r), _ => ({ c with running := none, returned := c.returned ++ [(q, r)] }, w)
  | some (q, .op e k), _ => ({ c with running := some (q, k (h _ e w).1) }, (h _ e w).2)

namespace Calls

/-- Caller `i` moves; the others stand still. -/
def move (s : Calls ι E Q R W) (i : ι) : Calls ι E Q R W where
  world := ((s.clients i).move prog h s.world).2
  clients := Function.update s.clients i ((s.clients i).move prog h s.world).1

/-- A schedule says who moves. -/
def run : List ι → Calls ι E Q R W → Calls ι E Q R W
  | [], s => s
  | i :: schedule, s => run schedule (s.move prog h i)

/-- Every move of the schedule meets a condition on the state before it. -/
def Meets (ok : Calls ι E Q R W → ι → Prop) : List ι → Calls ι E Q R W → Prop
  | [], _ => True
  | i :: schedule, s => ok s i ∧ Meets ok schedule (s.move prog h i)

/-- **THE INTERLEAVING RULE**: what every permitted move preserves holds at the end. -/
theorem run_induction {ok : Calls ι E Q R W → ι → Prop} {I : Calls ι E Q R W → Prop}
    (hmove : ∀ s i, I s → ok s i → I (s.move prog h i)) {schedule : List ι}
    {s : Calls ι E Q R W} (hs : I s) (hmeets : s.Meets prog h ok schedule) :
    I (s.run prog h schedule) := by
  induction schedule generalizing s with
  | nil => exact hs
  | cons i schedule ih => exact ih (hmove s i hs hmeets.1) hmeets.2

end Calls

end Interleaving

end EffectProg
