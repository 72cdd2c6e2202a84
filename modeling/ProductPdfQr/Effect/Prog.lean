/-
# Programs over an environment that answers calls

A program is a tree: it returns, it raises an exception, or it makes a call and goes on with
whatever the environment answered.  Nothing here says what the calls are.  A `Machine` gives
them a meaning as a step on a state, and `exec` runs a program for a bounded number of calls:
the bound is the crash, so "for every bound" is "for every point at which the process may
die".

`wp` is the proof side.  `wp m Q p s` holds when every run of `p` from `s`, crashed anywhere
or not, ends in a state that `Q` allows, and `exec_of_wp` / `wp_of_exec` say that this is
exactly what `exec` does.  The remaining lemmas are its rules: one for each constructor, for
sequencing, for `try`, and for the two list loops.
-/
import Mathlib.Logic.Relation

namespace ProductPdfQr.Effect

/-! ## 1. Programs -/

/-- A program whose calls are drawn from `O`, the call `o` being answered by an `R o`. -/
inductive Prog (O : Type) (R : O → Type) (ε α : Type) : Type
  | ret (a : α) : Prog O R ε α
  | raise (e : ε) : Prog O R ε α
  | call (o : O) (k : R o → Prog O R ε α) : Prog O R ε α

namespace Prog

variable {O : Type} {R : O → Type} {ε α β γ : Type}

/-- Run `p`, then `f` on what it returned.  An exception skips `f`. -/
def bind : Prog O R ε α → (α → Prog O R ε β) → Prog O R ε β
  | ret a, f => f a
  | raise e, _ => raise e
  | call o k, f => call o fun r => (k r).bind f

/-- `try p except e: h e`.  The calls `p` made before it raised have happened. -/
def tryCatch : Prog O R ε α → (ε → Prog O R ε α) → Prog O R ε α
  | ret a, _ => ret a
  | raise e, h => h e
  | call o k, h => call o fun r => (k r).tryCatch h

instance : Monad (Prog O R ε) where
  pure := ret
  bind := bind

instance : MonadExcept ε (Prog O R ε) where
  throw := raise
  tryCatch := tryCatch

/-- One call, returning its answer. -/
def perform (o : O) : Prog O R ε (R o) := call o ret

/-- A call answered by an exception raises it. -/
def liftExcept : Except ε α → Prog O R ε α
  | .ok a => ret a
  | .error e => raise e

/-- `try p except e: h e`, for a `p` whose exceptions carry more than those of `h`. -/
def handle {ε' : Type} : Prog O R ε' α → (ε' → Prog O R ε α) → Prog O R ε α
  | ret a, _ => ret a
  | raise e, h => h e
  | call o k, h => call o fun r => (k r).handle h

/-- Rename the exceptions: what a frame adds to whatever is raised inside it. -/
def mapError {ε' : Type} (f : ε → ε') : Prog O R ε α → Prog O R ε' α
  | ret a => ret a
  | raise e => raise (f e)
  | call o k => call o fun r => (k r).mapError f

/-- `if not c: raise e`. -/
def ensure (c : Bool) (e : ε) : Prog O R ε Unit := if c then ret () else raise e

theorem bind_ret : ∀ p : Prog O R ε α, p.bind ret = p
  | ret _ => rfl
  | raise _ => rfl
  | call o k => congrArg (call o) (funext fun r => bind_ret (k r))

theorem bind_assoc : ∀ (p : Prog O R ε α) (f : α → Prog O R ε β) (g : β → Prog O R ε γ),
    (p.bind f).bind g = p.bind fun a => (f a).bind g
  | ret _, _, _ => rfl
  | raise _, _, _ => rfl
  | call o k, f, g => congrArg (call o) (funext fun r => bind_assoc (k r) f g)

instance : LawfulMonad (Prog O R ε) :=
  LawfulMonad.mk' _ bind_ret (fun _ _ => rfl) bind_assoc

theorem liftExcept_ok_bind (a : α) (f : α → Prog O R ε β) :
    ((liftExcept (.ok a) : Prog O R ε α) >>= f) = f a := rfl

theorem ensure_true_bind (e : ε) (f : Unit → Prog O R ε β) :
    ((ensure true e : Prog O R ε Unit) >>= f) = f () := rfl

end Prog

/-! ## 2. Machines and runs -/

/-- What the calls do: each one takes the state to an answer and a next state. -/
structure Machine (O : Type) (R : O → Type) (σ : Type) where
  step : (o : O) → σ → R o × σ

/-- How a run ended. -/
inductive Outcome (ε α : Type)
  | returned (a : α)
  | raised (e : ε)
  | crashed
  deriving DecidableEq, Repr

/-- The state a run ended in, and how. -/
structure Halt (σ ε α : Type) where
  outcome : Outcome ε α
  state : σ

/-- What a run may leave behind: one condition for each way it can end. -/
structure Post (σ ε α : Type) where
  returned : α → σ → Prop
  raised : ε → σ → Prop
  crashed : σ → Prop

namespace Post

variable {σ ε α β : Type}

/-- The condition on a halted run. -/
def Holds (Q : Post σ ε α) (h : Halt σ ε α) : Prop :=
  match h.outcome with
  | .returned a => Q.returned a h.state
  | .raised e => Q.raised e h.state
  | .crashed => Q.crashed h.state

/-- The same condition whichever way the run ends. -/
def always (I : σ → Prop) : Post σ ε α := ⟨fun _ => I, fun _ => I, I⟩

/-- Replace the condition on a normal return. -/
def seq (Q : Post σ ε β) (F : α → σ → Prop) : Post σ ε α := ⟨F, Q.raised, Q.crashed⟩

/-- Replace the condition on an exception. -/
def guard (Q : Post σ ε α) (F : ε → σ → Prop) : Post σ ε α := ⟨Q.returned, F, Q.crashed⟩

/-- `Q` asks no more than `Q'`. -/
structure Le (Q Q' : Post σ ε α) : Prop where
  returned : ∀ a s, Q.returned a s → Q'.returned a s
  raised : ∀ e s, Q.raised e s → Q'.raised e s
  crashed : ∀ s, Q.crashed s → Q'.crashed s

theorem Le.refl (Q : Post σ ε α) : Q.Le Q := ⟨fun _ _ => id, fun _ _ => id, fun _ => id⟩

@[simp] theorem always_returned (I : σ → Prop) (a : α) (s : σ) :
    (always I : Post σ ε α).returned a s = I s := rfl

@[simp] theorem always_raised (I : σ → Prop) (e : ε) (s : σ) :
    (always I : Post σ ε α).raised e s = I s := rfl

@[simp] theorem always_crashed (I : σ → Prop) (s : σ) :
    (always I : Post σ ε α).crashed s = I s := rfl

theorem always_holds {I : σ → Prop} {h : Halt σ ε α} : (always I).Holds h ↔ I h.state := by
  unfold Holds
  split <;> rfl

end Post

namespace Prog

variable {O : Type} {R : O → Type} {σ ε α β : Type}

/-- Run `p` from `s` for at most `n` calls; the `n + 1`st call is where the process dies. -/
def exec (m : Machine O R σ) : Prog O R ε α → Nat → σ → Halt σ ε α
  | ret a, _, s => ⟨.returned a, s⟩
  | raise e, _, s => ⟨.raised e, s⟩
  | call _ _, 0, s => ⟨.crashed, s⟩
  | call o k, n + 1, s => (k (m.step o s).1).exec m n (m.step o s).2

/-- Run `p` from `s` to its end. -/
def run (m : Machine O R σ) : Prog O R ε α → σ → Except ε α × σ
  | ret a, s => (.ok a, s)
  | raise e, s => (.error e, s)
  | call o k, s => (k (m.step o s).1).run m (m.step o s).2

/-! ## 3. Weakest preconditions -/

/-- Every run of `p` from `s` ends as `Q` allows, and so does every run cut short. -/
def wp (m : Machine O R σ) (Q : Post σ ε α) : Prog O R ε α → σ → Prop
  | ret a, s => Q.returned a s
  | raise e, s => Q.raised e s
  | call o k, s => Q.crashed s ∧ (k (m.step o s).1).wp m Q (m.step o s).2

theorem exec_of_wp {m : Machine O R σ} {Q : Post σ ε α} :
    ∀ (p : Prog O R ε α) (n : Nat) (s : σ), p.wp m Q s → Q.Holds (p.exec m n s)
  | ret _, _, _, h => h
  | raise _, _, _, h => h
  | call _ _, 0, _, h => h.1
  | call o k, n + 1, s, h => exec_of_wp (k (m.step o s).1) n (m.step o s).2 h.2

theorem wp_of_exec {m : Machine O R σ} {Q : Post σ ε α} :
    ∀ (p : Prog O R ε α) (s : σ), (∀ n, Q.Holds (p.exec m n s)) → p.wp m Q s
  | ret _, _, h => h 0
  | raise _, _, h => h 0
  | call o k, s, h =>
    ⟨h 0, wp_of_exec (k (m.step o s).1) (m.step o s).2 fun n => h (n + 1)⟩

theorem wp_iff_exec {m : Machine O R σ} {Q : Post σ ε α} {p : Prog O R ε α} {s : σ} :
    p.wp m Q s ↔ ∀ n, Q.Holds (p.exec m n s) :=
  ⟨fun h n => exec_of_wp p n s h, wp_of_exec p s⟩

/-- What `wp` says of the run that is not cut short. -/
theorem run_of_wp {m : Machine O R σ} {Q : Post σ ε α} :
    ∀ (p : Prog O R ε α) (s : σ), p.wp m Q s →
      match p.run m s with
      | (.ok a, s') => Q.returned a s'
      | (.error e, s') => Q.raised e s'
  | ret _, _, h => h
  | raise _, _, h => h
  | call o k, s, h => run_of_wp (k (m.step o s).1) (m.step o s).2 h.2

theorem run_ok_of_wp {m : Machine O R σ} {Q : Post σ ε α} {p : Prog O R ε α} {s s' : σ} {a : α}
    (h : p.wp m Q s) (hrun : p.run m s = (.ok a, s')) : Q.returned a s' := by
  simpa [hrun] using run_of_wp p s h

theorem run_error_of_wp {m : Machine O R σ} {Q : Post σ ε α} {p : Prog O R ε α} {s s' : σ} {e : ε}
    (h : p.wp m Q s) (hrun : p.run m s = (.error e, s')) : Q.raised e s' := by
  simpa [hrun] using run_of_wp p s h

theorem run_bind {m : Machine O R σ} : ∀ (p : Prog O R ε α) (f : α → Prog O R ε β) (s : σ),
    (p >>= f).run m s = match p.run m s with
      | (.ok a, s') => (f a).run m s'
      | (.error e, s') => (.error e, s')
  | ret _, _, _ => rfl
  | raise _, _, _ => rfl
  | call o k, f, s => run_bind (k (m.step o s).1) f (m.step o s).2

/-- What follows a part that returned. -/
theorem run_bind_ok {m : Machine O R σ} {p : Prog O R ε α} {f : α → Prog O R ε β} {s t : σ} {a : α}
    (h : p.run m s = (.ok a, t)) : (p >>= f).run m s = (f a).run m t := by
  rw [run_bind, h]

/-- Nothing follows a part that raised. -/
theorem run_bind_error {m : Machine O R σ} {p : Prog O R ε α} {f : α → Prog O R ε β} {s s' : σ}
    {e : ε} (h : p.run m s = (.error e, s')) : (p >>= f).run m s = (.error e, s') := by
  rw [run_bind, h]

@[simp] theorem run_pure {m : Machine O R σ} (a : α) (s : σ) :
    (pure a : Prog O R ε α).run m s = (.ok a, s) := rfl

@[simp] theorem run_throw {m : Machine O R σ} (e : ε) (s : σ) :
    (throw e : Prog O R ε α).run m s = (.error e, s) := rfl

@[simp] theorem run_perform {m : Machine O R σ} (o : O) (s : σ) :
    (perform o : Prog O R ε (R o)).run m s = (.ok (m.step o s).1, (m.step o s).2) := rfl

theorem run_liftExcept {m : Machine O R σ} (x : Except ε α) (s : σ) :
    (liftExcept x : Prog O R ε α).run m s = (x, s) := by
  cases x <;> rfl

theorem run_ensure {m : Machine O R σ} {c : Bool} (e : ε) (s : σ) (h : c = true) :
    (ensure c e : Prog O R ε Unit).run m s = (.ok (), s) := by
  simp [ensure, h, run]

theorem run_tryCatch {m : Machine O R σ} : ∀ (p : Prog O R ε α) (h : ε → Prog O R ε α) (s : σ),
    (MonadExcept.tryCatch p h).run m s = match p.run m s with
      | (.ok a, s') => (.ok a, s')
      | (.error e, s') => (h e).run m s'
  | ret _, _, _ => rfl
  | raise _, _, _ => rfl
  | call o k, h, s => run_tryCatch (k (m.step o s).1) h (m.step o s).2

theorem run_handle {ε' : Type} {m : Machine O R σ} :
    ∀ (p : Prog O R ε' α) (h : ε' → Prog O R ε α) (s : σ),
      (p.handle h).run m s = match p.run m s with
        | (.ok a, s') => (.ok a, s')
        | (.error e, s') => (h e).run m s'
  | ret _, _, _ => rfl
  | raise _, _, _ => rfl
  | call o k, h, s => run_handle (k (m.step o s).1) h (m.step o s).2

theorem run_mapError {ε' : Type} {m : Machine O R σ} {f : ε → ε'} :
    ∀ (p : Prog O R ε α) (s : σ), (p.mapError f).run m s = match p.run m s with
      | (.ok a, s') => (.ok a, s')
      | (.error e, s') => (.error (f e), s')
  | ret _, _ => rfl
  | raise _, _ => rfl
  | call o k, s => run_mapError (k (m.step o s).1) (m.step o s).2

/-- What every call only adds to, a run only adds to. -/
theorem run_rel {m : Machine O R σ} {Rel : σ → σ → Prop} (hrefl : ∀ s, Rel s s)
    (htrans : ∀ a b c, Rel a b → Rel b c → Rel a c) (hstep : ∀ o s, Rel s (m.step o s).2) :
    ∀ (p : Prog O R ε α) (s : σ), Rel s (p.run m s).2
  | ret _, s => hrefl s
  | raise _, s => hrefl s
  | call o k, s =>
    htrans _ _ _ (hstep o s) (run_rel hrefl htrans hstep (k (m.step o s).1) (m.step o s).2)

/-- And it goes on from where the process might have died. -/
theorem exec_rel_run {m : Machine O R σ} {T : σ → σ → Prop} (hrefl : ∀ s, T s s)
    (htrans : ∀ a b c, T a b → T b c → T a c) (hstep : ∀ o s, T s (m.step o s).2) :
    ∀ (p : Prog O R ε α) (n : Nat) (s : σ), T (p.exec m n s).state (p.run m s).2
  | ret _, _, s => hrefl s
  | raise _, _, s => hrefl s
  | call o k, 0, s => run_rel hrefl htrans hstep (call o k) s
  | call o k, n + 1, s =>
    exec_rel_run hrefl htrans hstep (k (m.step o s).1) n (m.step o s).2

/-- With enough calls the process does not die. -/
theorem exists_exec_state {m : Machine O R σ} : ∀ (p : Prog O R ε α) (s : σ),
    ∃ n, (p.exec m n s).state = (p.run m s).2
  | ret _, _ => ⟨0, rfl⟩
  | raise _, _ => ⟨0, rfl⟩
  | call o k, s => by
    obtain ⟨n, hn⟩ := exists_exec_state (m := m) (k (m.step o s).1) (m.step o s).2
    exact ⟨n + 1, hn⟩

/-- Where a process dies it dies as well when it had more to do. -/
theorem exists_exec_bind {m : Machine O R σ} {f : α → Prog O R ε β} :
    ∀ (p : Prog O R ε α) (n : Nat) (s : σ),
      ∃ n', ((p >>= f).exec m n' s).state = (p.exec m n s).state
  | ret a, n, s => ⟨0, by
    change ((f a).exec m 0 s).state = s
    cases f a <;> rfl⟩
  | raise _, _, _ => ⟨0, rfl⟩
  | call _ _, 0, _ => ⟨0, rfl⟩
  | call o k, n + 1, s => by
    obtain ⟨n', hn'⟩ := exists_exec_bind (f := f) (k (m.step o s).1) n (m.step o s).2
    exact ⟨n' + 1, hn'⟩

/-- A process can die where its first part comes to its end. -/
theorem exists_exec_of_wp {m : Machine O R σ} {p : Prog O R ε α} {f : α → Prog O R ε β}
    {Q : σ → Prop} {s s' : σ} (h : p.wp m ⟨fun _ t => t = s', fun _ _ => False, Q⟩ s) :
    ∃ n, ((p >>= f).exec m n s).state = s' := by
  obtain ⟨n, hn⟩ := exists_exec_state (m := m) p s
  obtain ⟨n', hn'⟩ := exists_exec_bind (m := m) (f := f) p n s
  refine ⟨n', hn'.trans (hn.trans ?_)⟩
  have hrun := run_of_wp _ _ h
  split at hrun
  · rename_i a t heq
    rw [heq, hrun]
  · exact hrun.elim

/-- The number of calls of a whole run. -/
def cost (m : Machine O R σ) : Prog O R ε α → σ → Nat
  | ret _, _ => 0
  | raise _, _ => 0
  | call o k, s => (k (m.step o s).1).cost m (m.step o s).2 + 1

@[simp] theorem cost_pure {m : Machine O R σ} (a : α) (s : σ) :
    (pure a : Prog O R ε α).cost m s = 0 := rfl

@[simp] theorem cost_perform {m : Machine O R σ} (o : O) (s : σ) :
    (perform o : Prog O R ε (R o)).cost m s = 1 := rfl

@[simp] theorem cost_ensure {m : Machine O R σ} (c : Bool) (e : ε) (s : σ) :
    (ensure c e : Prog O R ε Unit).cost m s = 0 := by
  cases c <;> rfl

@[simp] theorem cost_liftExcept {m : Machine O R σ} (x : Except ε α) (s : σ) :
    (liftExcept x : Prog O R ε α).cost m s = 0 := by
  cases x <;> rfl

/-- The calls of two parts. -/
theorem cost_bind_of_run {m : Machine O R σ} : ∀ (p : Prog O R ε α) (f : α → Prog O R ε β)
    {s t : σ} {a : α}, p.run m s = (.ok a, t) →
      (p >>= f).cost m s = p.cost m s + (f a).cost m t
  | ret _, f, _, _, _, h => by
    obtain ⟨hret, rfl⟩ := Prod.mk.inj h
    obtain rfl := Except.ok.inj hret
    exact (Nat.zero_add _).symm
  | raise _, _, _, _, _, h => by cases h
  | call o k, f, s, t, a, h => by
    have ih := cost_bind_of_run (k (m.step o s).1) f h
    change (k (m.step o s).1 >>= f).cost m (m.step o s).2 + 1 = _
    rw [ih]
    exact Nat.add_right_comm ..

/-- A process that may make all its calls does not die. -/
theorem exec_of_cost_le {m : Machine O R σ} : ∀ (p : Prog O R ε α) (n : Nat) (s : σ),
    p.cost m s ≤ n → (p.exec m n s).state = (p.run m s).2
  | ret _, _, _, _ => rfl
  | raise _, _, _, _ => rfl
  | call o k, n + 1, s, h =>
    exec_of_cost_le (k (m.step o s).1) n (m.step o s).2 (Nat.le_of_succ_le_succ h)

/-- A process that dies before its first part is done dies there. -/
theorem exec_bind_of_le {m : Machine O R σ} : ∀ (p : Prog O R ε α) (f : α → Prog O R ε β) (n : Nat)
    (s : σ), n < p.cost m s → ((p >>= f).exec m n s).state = (p.exec m n s).state
  | call _ _, _, 0, _, _ => rfl
  | call o k, f, n + 1, s, h =>
    exec_bind_of_le (k (m.step o s).1) f n (m.step o s).2 (Nat.lt_of_succ_lt_succ h)

/-- One that gets further has done it. -/
theorem exec_bind_of_run {m : Machine O R σ} : ∀ (p : Prog O R ε α) (f : α → Prog O R ε β)
    {n : Nat} {s t : σ} {a : α}, p.cost m s ≤ n → p.run m s = (.ok a, t) →
      (p >>= f).exec m n s = (f a).exec m (n - p.cost m s) t
  | ret _, _, _, _, _, _, _, h => by
    obtain ⟨hret, rfl⟩ := Prod.mk.inj h
    obtain rfl := Except.ok.inj hret
    rfl
  | raise _, _, _, _, _, _, _, h => by cases h
  | call o k, f, n + 1, s, t, a, hn, h => by
    have ih := exec_bind_of_run (k (m.step o s).1) f (Nat.le_of_succ_le_succ hn) h
    change (k (m.step o s).1 >>= f).exec m n (m.step o s).2 = _
    rw [ih]
    exact congrArg (fun i => (f a).exec m i t) (Nat.add_sub_add_right ..).symm

/-- A weaker demand on the end of the run is easier to meet. -/
theorem wp_mono {m : Machine O R σ} {Q Q' : Post σ ε α} (hle : Q.Le Q') :
    ∀ (p : Prog O R ε α) (s : σ), p.wp m Q s → p.wp m Q' s
  | ret a, s, h => hle.returned a s h
  | raise e, s, h => hle.raised e s h
  | call o k, s, h => ⟨hle.crashed s h.1, wp_mono hle (k (m.step o s).1) (m.step o s).2 h.2⟩

/-- The same, with the program first. -/
theorem wp_le {m : Machine O R σ} {Q Q' : Post σ ε α} {p : Prog O R ε α} {s : σ}
    (h : p.wp m Q s) (hle : Q.Le Q') : p.wp m Q' s := wp_mono hle p s h

/-- Two facts about the end of every run hold together. -/
theorem wp_and {m : Machine O R σ} {Q Q' : Post σ ε α} :
    ∀ (p : Prog O R ε α) (s : σ), p.wp m Q s → p.wp m Q' s →
      p.wp m ⟨fun a s => Q.returned a s ∧ Q'.returned a s,
        fun e s => Q.raised e s ∧ Q'.raised e s, fun s => Q.crashed s ∧ Q'.crashed s⟩ s
  | ret _, _, h, h' => ⟨h, h'⟩
  | raise _, _, h, h' => ⟨h, h'⟩
  | call o k, s, h, h' =>
    ⟨⟨h.1, h'.1⟩, wp_and (k (m.step o s).1) (m.step o s).2 h.2 h'.2⟩

/-! ### The rules -/

section Rules

variable {m : Machine O R σ} {Q : Post σ ε α} {s : σ}

@[simp] theorem wp_ret (a : α) : (ret a : Prog O R ε α).wp m Q s = Q.returned a s := rfl

@[simp] theorem wp_pure (a : α) : (pure a : Prog O R ε α).wp m Q s = Q.returned a s := rfl

@[simp] theorem wp_raise (e : ε) : (raise e : Prog O R ε α).wp m Q s = Q.raised e s := rfl

@[simp] theorem wp_throw (e : ε) : (throw e : Prog O R ε α).wp m Q s = Q.raised e s := rfl

theorem wp_call (o : O) (k : R o → Prog O R ε α) :
    (call o k).wp m Q s = (Q.crashed s ∧ (k (m.step o s).1).wp m Q (m.step o s).2) := rfl

@[simp] theorem wp_perform {o : O} {Q : Post σ ε (R o)} :
    (perform o : Prog O R ε (R o)).wp m Q s =
      (Q.crashed s ∧ Q.returned (m.step o s).1 (m.step o s).2) := rfl

theorem wp_ensure {c : Bool} {e : ε} {Q : Post σ ε Unit} :
    (ensure c e : Prog O R ε Unit).wp m Q s ↔
      (c = true → Q.returned () s) ∧ (c = false → Q.raised e s) := by
  cases c <;> simp [ensure]

theorem wp_liftExcept {x : Except ε α} :
    (liftExcept x : Prog O R ε α).wp m Q s ↔
      (∀ a, x = .ok a → Q.returned a s) ∧ (∀ e, x = .error e → Q.raised e s) := by
  cases x <;> simp [liftExcept]

theorem wp_bind {Q : Post σ ε β} : ∀ (p : Prog O R ε α) (f : α → Prog O R ε β) (s : σ),
    (p >>= f).wp m Q s ↔ p.wp m (Q.seq fun a s' => (f a).wp m Q s') s
  | ret _, _, _ => Iff.rfl
  | raise _, _, _ => Iff.rfl
  | call o k, f, s =>
    and_congr Iff.rfl (wp_bind (k (m.step o s).1) f (m.step o s).2)

theorem wp_tryCatch : ∀ (p : Prog O R ε α) (h : ε → Prog O R ε α) (s : σ),
    (MonadExcept.tryCatch p h).wp m Q s ↔ p.wp m (Q.guard fun e s' => (h e).wp m Q s') s
  | ret _, _, _ => Iff.rfl
  | raise _, _, _ => Iff.rfl
  | call o k, h, s =>
    and_congr Iff.rfl (wp_tryCatch (k (m.step o s).1) h (m.step o s).2)

theorem wp_handle {ε' : Type} :
    ∀ (p : Prog O R ε' α) (h : ε' → Prog O R ε α) (s : σ), (p.handle h).wp m Q s ↔
      p.wp m ⟨Q.returned, fun e s' => (h e).wp m Q s', Q.crashed⟩ s
  | ret _, _, _ => Iff.rfl
  | raise _, _, _ => Iff.rfl
  | call o k, h, s => and_congr Iff.rfl (wp_handle (k (m.step o s).1) h (m.step o s).2)

theorem wp_mapError {ε' : Type} {Q : Post σ ε' α} {f : ε → ε'} :
    ∀ (p : Prog O R ε α) (s : σ),
      (p.mapError f).wp m Q s ↔ p.wp m ⟨Q.returned, fun e => Q.raised (f e), Q.crashed⟩ s
  | ret _, _ => Iff.rfl
  | raise _, _ => Iff.rfl
  | call o k, s => and_congr Iff.rfl (wp_mapError (k (m.step o s).1) (m.step o s).2)

end Rules

/-- Sequencing, in the form proofs use it: the first program's own post-condition, then what
it leaves for the second. -/
theorem wp_bind_of {m : Machine O R σ} {Q : Post σ ε β} {P : Post σ ε α} {p : Prog O R ε α}
    {f : α → Prog O R ε β} {s : σ} (hp : p.wp m P s)
    (hret : ∀ a s', P.returned a s' → (f a).wp m Q s')
    (hraise : ∀ e s', P.raised e s' → Q.raised e s')
    (hcrash : ∀ s', P.crashed s' → Q.crashed s') : (p >>= f).wp m Q s :=
  (wp_bind p f s).mpr (wp_mono (Q := P) ⟨hret, hraise, hcrash⟩ p s hp)

/-- `try`, in the same form. -/
theorem wp_tryCatch_of {m : Machine O R σ} {Q P : Post σ ε α} {p : Prog O R ε α}
    {h : ε → Prog O R ε α} {s : σ} (hp : p.wp m P s)
    (hret : ∀ a s', P.returned a s' → Q.returned a s')
    (hraise : ∀ e s', P.raised e s' → (h e).wp m Q s')
    (hcrash : ∀ s', P.crashed s' → Q.crashed s') : (MonadExcept.tryCatch p h).wp m Q s := by
  have hle : P.Le (Q.guard fun e s' => (h e).wp m Q s') := ⟨hret, hraise, hcrash⟩
  exact (wp_tryCatch p h s).mpr (wp_mono hle p s hp)

/-! ### Loops -/

theorem forM_append (f : α → Prog O R ε PUnit) (first rest : List α) :
    (first ++ rest).forM f = first.forM f >>= fun _ => rest.forM f :=
  List.forM_append

/-- The `for` loop: an invariant that the body keeps, whatever becomes of it, is kept by the
whole loop. -/
theorem wp_forM {m : Machine O R σ} {Q : Post σ ε PUnit} {I : List α → σ → Prop}
    {f : α → Prog O R ε PUnit}
    (hbody : ∀ a rest s, I (a :: rest) s → (f a).wp m (Q.seq fun _ s' => I rest s') s)
    (hdone : ∀ s, I [] s → Q.returned ⟨⟩ s) :
    ∀ (l : List α) (s : σ), I l s → (l.forM f).wp m Q s
  | [], s, h => hdone s h
  | a :: rest, s, h =>
    wp_bind_of (hbody a rest s h) (fun _ s' h' => wp_forM hbody hdone rest s' h')
      (fun _ _ => id) (fun _ => id)

/-- The `for` loop with an accumulator. -/
theorem wp_foldlM {m : Machine O R σ} {Q : Post σ ε β} {I : List α → β → σ → Prop}
    {f : β → α → Prog O R ε β}
    (hbody : ∀ b a rest s, I (a :: rest) b s → (f b a).wp m (Q.seq fun b' s' => I rest b' s') s)
    (hdone : ∀ b s, I [] b s → Q.returned b s) :
    ∀ (l : List α) (b : β) (s : σ), I l b s → (l.foldlM f b).wp m Q s
  | [], b, s, h => hdone b s h
  | a :: rest, b, s, h =>
    wp_bind_of (hbody b a rest s h) (fun b' s' h' => wp_foldlM hbody hdone rest b' s' h')
      (fun _ _ => id) (fun _ => id)

/-! ## 4. Invariants -/

/-- `p` keeps `I`, wherever it is cut. -/
def Keeps (m : Machine O R σ) (I : σ → Prop) (p : Prog O R ε α) : Prop :=
  ∀ s, I s → p.wp m (Post.always I) s

/-- A kept invariant holds of the state a run leaves, crashed or not. -/
theorem Keeps.exec {m : Machine O R σ} {I : σ → Prop} {p : Prog O R ε α} (h : p.Keeps m I)
    (n : Nat) {s : σ} (hs : I s) : I (p.exec m n s).state :=
  Post.always_holds.mp (exec_of_wp p n s (h s hs))

theorem keeps_ret {m : Machine O R σ} {I : σ → Prop} (a : α) :
    (ret a : Prog O R ε α).Keeps m I := fun _ hs => hs

theorem keeps_raise {m : Machine O R σ} {I : σ → Prop} (e : ε) :
    (raise e : Prog O R ε α).Keeps m I := fun _ hs => hs

/-- It is enough that every single call keeps the invariant. -/
theorem keeps_of_step {m : Machine O R σ} {I : σ → Prop}
    (hstep : ∀ o s, I s → I (m.step o s).2) : ∀ p : Prog O R ε α, p.Keeps m I
  | ret _, _, hs => hs
  | raise _, _, hs => hs
  | call o k, s, hs => ⟨hs, keeps_of_step hstep (k (m.step o s).1) _ (hstep o s hs)⟩

theorem Keeps.bind {m : Machine O R σ} {I : σ → Prop} {p : Prog O R ε α}
    {f : α → Prog O R ε β} (hp : p.Keeps m I) (hf : ∀ a, (f a).Keeps m I) :
    (p >>= f).Keeps m I := fun s hs =>
  wp_bind_of (hp s hs) (fun a s' h => hf a s' h) (fun _ _ => id) (fun _ => id)

/-! ### Programs known by their calls -/

/-- Every call `p` can make, whatever it is answered, satisfies `P`. -/
def CallsIn (P : O → Prop) : Prog O R ε α → Prop
  | ret _ => True
  | raise _ => True
  | call o k => P o ∧ ∀ r, (k r).CallsIn P

section CallsIn

variable {P : O → Prop}

@[simp] theorem callsIn_ret (a : α) : (ret a : Prog O R ε α).CallsIn P := trivial

@[simp] theorem callsIn_raise (e : ε) : (raise e : Prog O R ε α).CallsIn P := trivial

@[simp] theorem callsIn_pure (a : α) : (pure a : Prog O R ε α).CallsIn P := trivial

@[simp] theorem callsIn_throw (e : ε) : (throw e : Prog O R ε α).CallsIn P := trivial

@[simp] theorem callsIn_perform {o : O} : (perform o : Prog O R ε (R o)).CallsIn P ↔ P o :=
  ⟨fun h => h.1, fun h => ⟨h, fun _ => trivial⟩⟩

@[simp] theorem callsIn_ensure (c : Bool) (e : ε) : (ensure c e : Prog O R ε Unit).CallsIn P := by
  cases c <;> exact trivial

@[simp] theorem callsIn_liftExcept (x : Except ε α) : (liftExcept x : Prog O R ε α).CallsIn P := by
  cases x <;> exact trivial

/-- The calls of one answer are among the calls. -/
theorem callsIn_call {o : O} {k : R o → Prog O R ε α} :
    (call o k).CallsIn P ↔ P o ∧ ∀ r, (k r).CallsIn P := Iff.rfl

theorem callsIn_bind : ∀ {p : Prog O R ε α} {f : α → Prog O R ε β}, p.CallsIn P →
    (∀ a, (f a).CallsIn P) → (p >>= f).CallsIn P
  | ret a, _, _, hf => hf a
  | raise _, _, _, _ => trivial
  | call _ _, _, hp, hf => ⟨hp.1, fun r => callsIn_bind (hp.2 r) hf⟩

theorem callsIn_tryCatch : ∀ {p : Prog O R ε α} {h : ε → Prog O R ε α}, p.CallsIn P →
    (∀ e, (h e).CallsIn P) → (MonadExcept.tryCatch p h).CallsIn P
  | ret _, _, _, _ => trivial
  | raise e, _, _, hh => hh e
  | call _ _, _, hp, hh => ⟨hp.1, fun r => callsIn_tryCatch (hp.2 r) hh⟩

theorem callsIn_handle {ε' : Type} : ∀ {p : Prog O R ε' α} {h : ε' → Prog O R ε α}, p.CallsIn P →
    (∀ e, (h e).CallsIn P) → (p.handle h).CallsIn P
  | ret _, _, _, _ => trivial
  | raise e, _, _, hh => hh e
  | call _ _, _, hp, hh => ⟨hp.1, fun r => callsIn_handle (hp.2 r) hh⟩

theorem callsIn_mapError {ε' : Type} {f : ε → ε'} : ∀ {p : Prog O R ε α}, p.CallsIn P →
    (p.mapError f).CallsIn P
  | ret _, _ => trivial
  | raise _, _ => trivial
  | call _ _, hp => ⟨hp.1, fun r => callsIn_mapError (hp.2 r)⟩

theorem callsIn_forM {f : α → Prog O R ε PUnit} (hf : ∀ a, (f a).CallsIn P) :
    ∀ l : List α, (l.forM f).CallsIn P
  | [] => trivial
  | a :: rest => callsIn_bind (hf a) fun _ => callsIn_forM hf rest

theorem callsIn_foldlM {f : β → α → Prog O R ε β} (hf : ∀ b a, (f b a).CallsIn P) :
    ∀ (l : List α) (b : β), (l.foldlM f b).CallsIn P
  | [], _ => trivial
  | a :: rest, b => callsIn_bind (hf b a) fun b' => callsIn_foldlM hf rest b'

theorem CallsIn.mono {P' : O → Prop} (h : ∀ o, P o → P' o) :
    ∀ {p : Prog O R ε α}, p.CallsIn P → p.CallsIn P'
  | ret _, _ => trivial
  | raise _, _ => trivial
  | call o _, hp => ⟨h o hp.1, fun r => CallsIn.mono h (hp.2 r)⟩

theorem callsIn_true : ∀ p : Prog O R ε α, p.CallsIn fun _ => True
  | ret _ => trivial
  | raise _ => trivial
  | call _ k => ⟨trivial, fun r => callsIn_true (k r)⟩

/-- An invariant that each of these calls keeps is kept by the program. -/
theorem CallsIn.keeps {m : Machine O R σ} {I : σ → Prop}
    (hstep : ∀ o, P o → ∀ s, I s → I (m.step o s).2) :
    ∀ {p : Prog O R ε α}, p.CallsIn P → p.Keeps m I
  | ret _, _, _, hs => hs
  | raise _, _, _, hs => hs
  | call o _, hp, s, hs => ⟨hs, CallsIn.keeps hstep (hp.2 _) _ (hstep o hp.1 s hs)⟩

/-- What holds at one moment of a run, and is kept by its calls, holds at every later one. -/
theorem CallsIn.exec_mono {m : Machine O R σ} {I : σ → Prop}
    (hstep : ∀ o, P o → ∀ s, I s → I (m.step o s).2) :
    ∀ {p : Prog O R ε α} {n n' : Nat} {s : σ}, p.CallsIn P → n ≤ n' →
      I (p.exec m n s).state → I (p.exec m n' s).state
  | ret _, _, _, _, _, _, h => h
  | raise _, _, _, _, _, _, h => h
  | call _ _, 0, n', _, hp, _, h => (CallsIn.keeps hstep hp).exec n' h
  | call o k, n + 1, n' + 1, s, hp, hle, h =>
    exec_mono (p := k (m.step o s).1) (s := (m.step o s).2) hstep (hp.2 _) (by omega) h

end CallsIn

-- Large programs are taken apart by the rules above, never by computing with them.
attribute [irreducible] wp CallsIn

end Prog

/-! ## 5. Histories -/

section History

variable {E : Type}

/-- Every event of the history is justified by what came before it. -/
inductive Justified (P : List E → E → Prop) : List E → Prop
  | nil : Justified P []
  | snoc {past : List E} {e : E} : Justified P past → P past e → Justified P (past ++ [e])

/-- The reading a reviewer wants: split the history anywhere. -/
theorem Justified.split {P : List E → E → Prop} {h : List E} (hj : Justified P h) :
    ∀ {past : List E} {e : E} {future : List E}, h = past ++ e :: future → P past e := by
  induction hj with
  | nil => intro past e future heq; simp at heq
  | @snoc past₀ e₀ _ hP ih =>
    intro past e future heq
    rcases List.eq_nil_or_concat future with rfl | ⟨init, last, rfl⟩
    · obtain ⟨rfl, he⟩ := List.append_inj' heq rfl
      rw [List.singleton_inj] at he
      exact he ▸ hP
    · have heq' : past₀ ++ [e₀] = (past ++ e :: init) ++ [last] := by simpa using heq
      exact ih (List.append_inj' heq' rfl).1

end History

end ProductPdfQr.Effect
