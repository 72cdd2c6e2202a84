/-
# Transactions under read committed

A store holds a row, or none, at each key.  A transaction is a program whose calls are the parts
of its statements that another transaction may come between: it looks at the committed rows and
its own, it takes the lock of a row and reads it again, it inserts, it writes.  What it writes
is its own until it commits, and whoever wants a lock that another holds waits.  Any number of
sessions run at once, each may be rolled back at any moment, and a session that has committed
may still be interrupted before it returns.

What a session outside the store does (a sequence, a file) is a parameter: a relation for the
calls, and one for what happens by itself.
-/
import ProductPdfQr.Effect.Prog
import Mathlib.Data.List.Nodup
import Mathlib.Data.Set.Lattice
import Mathlib.Order.CompletePartialOrder

namespace ProductPdfQr.Database

open Effect

variable {K : Type} {V : K → Type} {X : Type} {A : X → Type}

/-! ## 1. Statements -/

/-- A row, or none, at each key. -/
abbrev Store (V : K → Type) := (k : K) → Option (V k)

/-- One part of a statement. -/
inductive Op (V : K → Type) (X : Type)
  | scan (p : (k : K) → V k → Bool)
  | lock (k : K)
  | insert (k : K) (v : V k)
  | write (k : K) (v : V k)
  | outside (x : X)

/-- What it is answered: the rows that match; the row, if it is there; whether the key was free;
nothing; what the outside says. -/
def Op.Answer (A : X → Type) : Op V X → Type
  | .scan _ => List ((k : K) × V k)
  | .lock k => Option (V k)
  | .insert _ _ => Bool
  | .write _ _ => Unit
  | .outside x => A x

/-- The body of a transaction. -/
abbrev Transaction (V : K → Type) (A : X → Type) (ε α : Type) :=
  Prog (Op V X) (Op.Answer A) ε α

variable {ε α : Type}

def scan (p : (k : K) → V k → Bool) : Transaction V A ε (List ((k : K) × V k)) :=
  Prog.call (.scan p) .ret

def lock (k : K) : Transaction V A ε (Option (V k)) := Prog.call (.lock k) .ret

def insert (k : K) (v : V k) : Transaction V A ε Bool := Prog.call (.insert k v) .ret

def write (k : K) (v : V k) : Transaction V A ε Unit := Prog.call (.write k v) .ret

def outside (x : X) : Transaction V A ε (A x) := Prog.call (.outside x) .ret

/-- `SELECT … WHERE p FOR UPDATE`, of one row: the row is found, locked and looked at again. -/
def selectForUpdate (p : (k : K) → V k → Bool) : Transaction V A ε (Option ((k : K) × V k)) := do
  match ← scan p with
  | [] => return none
  | ⟨k, _⟩ :: _ =>
    match ← lock k with
    | none => return none
    | some row => return if p k row then some ⟨k, row⟩ else none

/-- `UPDATE … WHERE` the key is `k` and `p`. -/
def updateRow (k : K) (p : V k → Bool) (f : V k → V k) : Transaction V A ε Unit := do
  match ← lock k with
  | none => return ()
  | some row => if p row then write k (f row) else return ()

/-- `UPDATE … WHERE p`: each of the rows found is locked, looked at again, and written. -/
def updateWhere (p : (k : K) → V k → Bool) (f : (k : K) → V k → V k) :
    Transaction V A ε Unit := do
  (← scan p).forM fun found => updateRow found.1 (p found.1) (f found.1)

/-! ## 2. Sessions -/

/-- What a transaction has to itself: the locks it holds, and the rows it wrote under them. -/
structure Local (V : K → Type) where
  held : Set K
  own : Store V
  owned : ∀ k, (own k).isSome = true → k ∈ held

namespace Local

/-- Nothing yet. -/
def empty : Local V := ⟨∅, fun _ => none, fun _ h => by simp at h⟩

/-- With one more lock. -/
def hold (l : Local V) (k : K) : Local V :=
  ⟨Insert.insert k l.held, l.own, fun k' h => Set.mem_insert_of_mem _ (l.owned k' h)⟩

/-- What the transaction sees: its own row, or else the committed one. -/
def sees (l : Local V) (rows : Store V) : Store V := fun k => (l.own k).or (rows k)

section

variable {l : Local V} {rows : Store V} {k : K}

@[simp] theorem hold_held : (l.hold k).held = Insert.insert k l.held := rfl

@[simp] theorem hold_own : (l.hold k).own = l.own := rfl

@[simp] theorem empty_held : (empty : Local V).held = ∅ := rfl

@[simp] theorem empty_own : (empty : Local V).own k = none := rfl

@[simp] theorem sees_empty : (empty : Local V).sees rows = rows := by
  funext k
  simp [sees]

@[simp] theorem sees_hold : (l.hold k).sees rows = l.sees rows := rfl

theorem sees_of_not_held (h : k ∉ l.held) : l.sees rows k = rows k := by
  cases hown : l.own k with
  | none => simp [sees, hown]
  | some v => exact absurd (l.owned k (by simp [hown])) h

theorem sees_congr {rows' : Store V} (h : rows' k = rows k) : l.sees rows' k = l.sees rows k := by
  simp [sees, h]

end

variable [DecidableEq K]

/-- With one more row. -/
def put (l : Local V) (k : K) (v : V k) : Local V where
  held := Insert.insert k l.held
  own := Function.update l.own k (some v)
  owned := by
    intro k' h
    by_cases hk : k' = k
    · exact hk ▸ Set.mem_insert _ _
    · rw [Function.update_of_ne hk] at h
      exact Set.mem_insert_of_mem _ (l.owned k' h)

variable {l : Local V} {rows : Store V} {k k' : K} {v : V k}

@[simp] theorem put_held : (l.put k v).held = Insert.insert k l.held := rfl

@[simp] theorem put_own : (l.put k v).own = Function.update l.own k (some v) := rfl

@[simp] theorem sees_put_self : (l.put k v).sees rows k = some v := by simp [sees]

theorem sees_put_of_ne (h : k' ≠ k) : (l.put k v).sees rows k' = l.sees rows k' := by
  simp [sees, Function.update_of_ne h]

end Local

/-- What all sessions share: the committed rows, the outside, and what was committed, in order. -/
structure Shared (V : K → Type) (E α : Type) where
  rows : Store V
  ext : E
  log : List α

variable {E : Type}

namespace Shared

/-- The rows of a transaction become those of all, and its value is logged. -/
def commit (s : Shared V E α) (l : Local V) (a : α) : Shared V E α :=
  { s with rows := l.sees s.rows, log := s.log ++ [a] }

/-- The outside moves. -/
def move (s : Shared V E α) (e : E) : Shared V E α := { s with ext := e }

variable {s : Shared V E α} {l : Local V} {a : α} {e : E}

@[simp] theorem commit_rows : (s.commit l a).rows = l.sees s.rows := rfl

@[simp] theorem commit_ext : (s.commit l a).ext = s.ext := rfl

@[simp] theorem commit_log : (s.commit l a).log = s.log ++ [a] := rfl

@[simp] theorem move_rows : (s.move e).rows = s.rows := rfl

@[simp] theorem move_ext : (s.move e).ext = e := rfl

@[simp] theorem move_log : (s.move e).log = s.log := rfl

end Shared

/-- What the outside does when it is called, and by itself. -/
structure Outside (A : X → Type) (E : Type) where
  call : (x : X) → E → A x → E → Prop
  drift : E → E → Prop

variable [DecidableEq K]

/-- One part of a statement takes what a transaction has to itself to what it has then, and
moves the outside. -/
def Op.Does (out : Outside A E) (s : Shared V E α) (l : Local V) :
    (o : Op V X) → o.Answer A → Local V → E → Prop
  | .scan p, (rows : List ((k : K) × V k)), l', e =>
    rows.Nodup ∧ (∀ r, r ∈ rows ↔ l.sees s.rows r.1 = some r.2 ∧ p r.1 r.2 = true) ∧
      l' = l ∧ e = s.ext
  | .lock k, (row : Option (V k)), l', e =>
    row = l.sees s.rows k ∧ l' = (if row.isSome then l.hold k else l) ∧ e = s.ext
  | .insert k v, (free : Bool), l', e =>
    free = (l.sees s.rows k).isNone ∧ l' = (if free then l.put k v else l) ∧ e = s.ext
  | .write k v, _, l', e => l' = l.put k v ∧ e = s.ext
  | .outside x, a, l', e => out.call x s.ext a e ∧ l' = l

/-- A session: its transaction is open, or it has committed and not returned. -/
inductive Session (V : K → Type) (A : X → Type) (ε α : Type)
  | running (body : Transaction V A ε α) (l : Local V)
  | committed (a : α)

/-- How a session ended. -/
inductive Ended (α : Type)
  | returned (a : α)
  | failed
  | interrupted (a : α)

/-- Everything. -/
structure System (V : K → Type) (A : X → Type) (E ε α : Type) where
  shared : Shared V E α
  session : Nat → Option (Session V A ε α)
  ended : List (Nat × Ended α)

namespace System

/-- Nobody but `t` holds any of these locks. -/
def FreeFor (c : System V A E ε α) (t : Nat) (held : Set K) : Prop :=
  ∀ t' body l, t' ≠ t → c.session t' = some (.running body l) → Disjoint held l.held

/-- The session `t` goes on as `x`. -/
def become (c : System V A E ε α) (t : Nat) (x : Option (Session V A ε α)) :
    System V A E ε α :=
  { c with session := Function.update c.session t x }

section

omit [DecidableEq K]

variable {c : System V A E ε α} {t t' : Nat} {x : Option (Session V A ε α)}

@[simp] theorem become_self : (c.become t x).session t = x := by
  simp [become]

theorem become_of_ne (h : t' ≠ t) : (c.become t x).session t' = c.session t' := by
  simp [become, Function.update_of_ne h]

@[simp] theorem become_become {y : Option (Session V A ε α)} :
    (c.become t x).become t y = c.become t y := by
  simp [become, Function.update_idem]

end

/-- One step of the system, in which the transactions of `start` may be begun. -/
inductive Step (out : Outside A E) (start : Set (Transaction V A ε α)) :
    System V A E ε α → System V A E ε α → Prop
  | begin {c t body} : c.session t = none → body ∈ start →
      Step out start c (c.become t (some (.running body .empty)))
  | advance {c t o k l a l' e} : c.session t = some (.running (.call o k) l) →
      o.Does out c.shared l a l' e → c.FreeFor t l'.held →
      Step out start c
        { c.become t (some (.running (k a) l')) with shared := c.shared.move e }
  | commit {c t a l} : c.session t = some (.running (.ret a) l) →
      Step out start c
        { c.become t (some (.committed a)) with shared := c.shared.commit l a }
  | rollback {c t body l} : c.session t = some (.running body l) →
      Step out start c { c.become t none with ended := c.ended ++ [(t, .failed)] }
  | complete {c t a} : c.session t = some (.committed a) →
      Step out start c { c.become t none with ended := c.ended ++ [(t, .returned a)] }
  | interrupt {c t a} : c.session t = some (.committed a) →
      Step out start c { c.become t none with ended := c.ended ++ [(t, .interrupted a)] }
  | drift {c e} : out.drift c.shared.ext e →
      Step out start c { c with shared := c.shared.move e }

/-- Whatever any number of steps leads to. -/
abbrev Reaches (out : Outside A E) (start : Set (Transaction V A ε α)) :
    System V A E ε α → System V A E ε α → Prop :=
  Relation.ReflTransGen (Step out start)

/-- Before the first session. -/
def initial (shared : Shared V E α) : System V A E ε α := ⟨shared, fun _ => none, []⟩

end System

/-! ## 3. Rely and guarantee -/

/-- What a transaction may rely on while it holds the locks `H`, what it guarantees to the
others, and what all of them keep. -/
structure Contract (V : K → Type) (E α : Type) where
  rely : Set K → Shared V E α → Shared V E α → Prop
  guarantee : Set K → Shared V E α → Shared V E α → Prop
  invariant : Shared V E α → Prop

/-- What one guarantees is what the others rely on. -/
structure Contract.Fits (C : Contract V E α) (out : Outside A E) : Prop where
  refl : ∀ H s, C.rely H s s
  trans : ∀ H s s' s'', C.rely H s s' → C.rely H s' s'' → C.rely H s s''
  interfere : ∀ H H' s s', Disjoint H H' → C.guarantee H' s s' → C.rely H s s'
  keeps : ∀ H s s', C.invariant s → C.guarantee H s s' → C.invariant s'
  idle : ∀ H s, C.invariant s → C.guarantee H s s
  drift : ∀ H s e, out.drift s.ext e → C.invariant s →
    C.rely H s (s.move e) ∧ C.invariant (s.move e)

/-- However the others interfere, every move of the transaction is guaranteed, and if it returns
then as `Q` asks. -/
def Safe (C : Contract V E α) (out : Outside A E) {β : Type}
    (Q : β → Local V → Shared V E α → Prop) :
    Transaction V A ε β → Local V → Shared V E α → Prop
  | .ret b, l, s => ∀ s', C.rely l.held s s' → C.invariant s' → Q b l s'
  | .raise _, _, _ => True
  | .call o k, l, s => ∀ s', C.rely l.held s s' → C.invariant s' → ∀ a l' e,
      o.Does out s' l a l' e →
        C.guarantee l.held s' (s'.move e) ∧ Safe C out Q (k a) l' (s'.move e)

/-- What a transaction leaves to its commit. -/
abbrev Commits (C : Contract V E α) (a : α) (l : Local V) (s : Shared V E α) : Prop :=
  C.guarantee l.held s (s.commit l a)

section Rules

variable {C : Contract V E α} {out : Outside A E} {β γ : Type}

theorem Safe.mono {Q Q' : β → Local V → Shared V E α → Prop}
    (hle : ∀ b l s, C.invariant s → Q b l s → Q' b l s) :
    ∀ {p : Transaction V A ε β} {l : Local V} {s : Shared V E α},
      Safe C out Q p l s → Safe C out Q' p l s
  | .ret _, _, _, h => fun s' hr hi => hle _ _ _ hi (h s' hr hi)
  | .raise _, _, _, _ => trivial
  | .call _ _, _, _, h => fun s' hr hi a l' e hdoes =>
      ⟨(h s' hr hi a l' e hdoes).1, Safe.mono hle (h s' hr hi a l' e hdoes).2⟩

/-- The interference may have happened already. -/
theorem Safe.rely (hfits : C.Fits out) {Q : β → Local V → Shared V E α → Prop}
    {p : Transaction V A ε β} {l : Local V} {s s' : Shared V E α} (hr : C.rely l.held s s')
    (h : Safe C out Q p l s) : Safe C out Q p l s' := by
  cases p with
  | ret b => exact fun s'' hr' hi => h s'' (hfits.trans _ _ _ _ hr hr') hi
  | raise e => trivial
  | call o k => exact fun s'' hr' hi => h s'' (hfits.trans _ _ _ _ hr hr') hi

/-- Sequencing: what follows is safe from wherever the first part ends. -/
theorem safe_bind (hfits : C.Fits out) {Q : γ → Local V → Shared V E α → Prop}
    {f : β → Transaction V A ε γ} : ∀ {p : Transaction V A ε β} {l : Local V} {s : Shared V E α},
    C.invariant s → Safe C out (fun b l s => Safe C out Q (f b) l s) p l s →
      Safe C out Q (p >>= f) l s
  | .ret b, l, s, hi, h => h s (hfits.refl _ _) hi
  | .raise _, _, _, _, _ => trivial
  | .call o k, l, s, hi, h => by
    intro s' hr hi' a l' e hdoes
    obtain ⟨hg, hk⟩ := h s' hr hi' a l' e hdoes
    exact ⟨hg, safe_bind hfits (hfits.keeps _ _ _ hi' hg) hk⟩

theorem safe_pure {Q : β → Local V → Shared V E α → Prop} {b : β} {l : Local V}
    {s : Shared V E α} (h : ∀ s', C.rely l.held s s' → C.invariant s' → Q b l s') :
    Safe C out Q (pure b : Transaction V A ε β) l s := h

theorem safe_throw {Q : β → Local V → Shared V E α → Prop} {e : ε} {l : Local V}
    {s : Shared V E α} : Safe C out Q (throw e : Transaction V A ε β) l s := trivial

/-! ### Statements -/

variable {Q : γ → Local V → Shared V E α → Prop} {l : Local V} {s : Shared V E α}

theorem safe_scan (hfits : C.Fits out) {p : (k : K) → V k → Bool}
    {f : List ((k : K) × V k) → Transaction V A ε γ}
    (h : ∀ s' rows, C.rely l.held s s' → C.invariant s' →
      (∀ r, r ∈ rows ↔ l.sees s'.rows r.1 = some r.2 ∧ p r.1 r.2 = true) →
        Safe C out Q (f rows) l s') : Safe C out Q (scan p >>= f) l s := by
  rintro s' hr hi rows l' e ⟨-, hrows, rfl, rfl⟩
  exact ⟨hfits.idle _ _ hi, h s' rows hr hi hrows⟩

theorem safe_lock (hfits : C.Fits out) {k : K} {f : Option (V k) → Transaction V A ε γ}
    (hnone : ∀ s', C.rely l.held s s' → C.invariant s' → l.sees s'.rows k = none →
      Safe C out Q (f none) l s')
    (hsome : ∀ s' row, C.rely l.held s s' → C.invariant s' → l.sees s'.rows k = some row →
      Safe C out Q (f (some row)) (l.hold k) s') : Safe C out Q (lock k >>= f) l s := by
  rintro s' hr hi row l' e ⟨rfl, rfl, rfl⟩
  refine ⟨hfits.idle _ _ hi, ?_⟩
  change Safe C out Q (f (l.sees s'.rows k)) _ s'
  cases hrow : l.sees s'.rows k with
  | none => exact hnone s' hr hi hrow
  | some row => exact hsome s' row hr hi hrow

theorem safe_insert (hfits : C.Fits out) {k : K} {v : V k} {f : Bool → Transaction V A ε γ}
    (hfull : ∀ s' row, C.rely l.held s s' → C.invariant s' → l.sees s'.rows k = some row →
      Safe C out Q (f false) l s')
    (hfree : ∀ s', C.rely l.held s s' → C.invariant s' → l.sees s'.rows k = none →
      Safe C out Q (f true) (l.put k v) s') : Safe C out Q (insert k v >>= f) l s := by
  rintro s' hr hi free l' e ⟨rfl, rfl, rfl⟩
  refine ⟨hfits.idle _ _ hi, ?_⟩
  change Safe C out Q (f (l.sees s'.rows k).isNone) _ s'
  cases hrow : l.sees s'.rows k with
  | none => exact hfree s' hr hi hrow
  | some row => exact hfull s' row hr hi hrow

theorem safe_write (hfits : C.Fits out) {k : K} {v : V k} {f : Unit → Transaction V A ε γ}
    (h : ∀ s', C.rely l.held s s' → C.invariant s' → Safe C out Q (f ()) (l.put k v) s') :
    Safe C out Q (write k v >>= f) l s := by
  rintro s' hr hi ⟨⟩ l' e ⟨rfl, rfl⟩
  exact ⟨hfits.idle _ _ hi, h s' hr hi⟩

theorem safe_outside {x : X} {f : A x → Transaction V A ε γ}
    (h : ∀ s' a e, C.rely l.held s s' → C.invariant s' → out.call x s'.ext a e →
      C.guarantee l.held s' (s'.move e) ∧ Safe C out Q (f a) l (s'.move e)) :
    Safe C out Q (outside x >>= f) l s := by
  rintro s' hr hi a l' e ⟨hcall, rfl⟩
  exact h s' a e hr hi hcall

theorem safe_liftExcept {x : Except ε β} {f : β → Transaction V A ε γ}
    (h : ∀ b, x = .ok b → Safe C out Q (f b) l s) :
    Safe C out Q ((Prog.liftExcept x : Transaction V A ε β) >>= f) l s := by
  cases x with
  | error e => trivial
  | ok b => exact h b rfl

theorem safe_selectForUpdate (hfits : C.Fits out) {p : (k : K) → V k → Bool}
    {f : Option ((k : K) × V k) → Transaction V A ε γ}
    (hnone : ∀ s' l', C.rely l.held s s' → C.invariant s' → (l' = l ∨ ∃ k, l' = l.hold k) →
      Safe C out Q (f none) l' s')
    (hsome : ∀ s' k row, C.rely l.held s s' → C.invariant s' → l.sees s'.rows k = some row →
      p k row = true → Safe C out Q (f (some ⟨k, row⟩)) (l.hold k) s') :
    Safe C out Q (selectForUpdate p >>= f) l s := by
  rw [selectForUpdate, bind_assoc]
  refine safe_scan hfits fun s₁ rows hr₁ hi₁ _ => ?_
  match rows with
  | [] => exact hnone s₁ l hr₁ hi₁ (Or.inl rfl)
  | ⟨k, _⟩ :: _ =>
    rw [bind_assoc]
    refine safe_lock hfits (fun s₂ hr₂ hi₂ _ => ?_) fun s₂ row hr₂ hi₂ hrow => ?_
    · exact hnone s₂ l (hfits.trans _ _ _ _ hr₁ hr₂) hi₂ (Or.inl rfl)
    · have hr := hfits.trans _ _ _ _ hr₁ hr₂
      by_cases hp : p k row = true
      · simp only [hp, if_true, pure_bind]
        exact hsome s₂ k row hr hi₂ hrow hp
      · simp only [hp, pure_bind]
        exact hnone s₂ (l.hold k) hr hi₂ (Or.inr ⟨k, rfl⟩)

theorem safe_updateRow (hfits : C.Fits out) {k : K} {p : V k → Bool} {g : V k → V k}
    {f : Unit → Transaction V A ε γ}
    (hnone : ∀ s', C.rely l.held s s' → C.invariant s' → l.sees s'.rows k = none →
      Safe C out Q (f ()) l s')
    (hskip : ∀ s' row, C.rely l.held s s' → C.invariant s' → l.sees s'.rows k = some row →
      p row = false → Safe C out Q (f ()) (l.hold k) s')
    (hwrite : ∀ s' row s'', C.rely l.held s s' → C.invariant s' → l.sees s'.rows k = some row →
      p row = true → C.rely (l.hold k).held s' s'' → C.invariant s'' →
        Safe C out Q (f ()) ((l.hold k).put k (g row)) s'') :
    Safe C out Q (updateRow k p g >>= f) l s := by
  rw [updateRow, bind_assoc]
  refine safe_lock hfits (fun s₁ hr hi hrow => ?_) fun s₁ row hr hi hrow => ?_
  · exact hnone s₁ hr hi hrow
  · cases hp : p row with
    | false =>
      simp only [hp, Bool.false_eq_true, if_false, pure_bind]
      exact hskip s₁ row hr hi hrow hp
    | true =>
      simp only [hp, if_true]
      exact safe_write hfits fun s₂ hr₂ hi₂ => hwrite s₁ row s₂ hr hi hrow hp hr₂ hi₂

/-- A failure may be renamed. -/
theorem safe_mapError {ε' : Type} {Q : β → Local V → Shared V E α → Prop} {g : ε → ε'} :
    ∀ {p : Transaction V A ε β} {l : Local V} {s : Shared V E α},
      Safe C out Q p l s → Safe C out Q (p.mapError g) l s
  | .ret _, _, _, h => h
  | .raise _, _, _, _ => trivial
  | .call _ _, _, _, h => fun s' hr hi a l' e hdoes =>
      ⟨(h s' hr hi a l' e hdoes).1, safe_mapError (h s' hr hi a l' e hdoes).2⟩

/-- A loop, by what holds before each of its rounds. -/
theorem safe_forM (hfits : C.Fits out) {J : List β → Local V → Shared V E α → Prop}
    (hstable : ∀ xs l s s', J xs l s → C.rely l.held s s' → C.invariant s' → J xs l s')
    {g : β → Transaction V A ε PUnit}
    (hround : ∀ x xs l s, J (x :: xs) l s → C.invariant s →
      Safe C out (fun _ l' s' => J xs l' s') (g x) l s) :
    ∀ {xs : List β} {l : Local V} {s : Shared V E α}, C.invariant s → J xs l s →
      Safe C out (fun _ l s => J [] l s) (xs.forM g) l s
  | [], l, s, _, hJ => fun s' hr hi => hstable [] l s s' hJ hr hi
  | x :: xs, l, s, hi, hJ => by
    refine safe_bind hfits hi (Safe.mono ?_ (hround x xs l s hJ hi))
    exact fun _ l' s' hi' hJ' => safe_forM hfits hstable hround hi' hJ'

end Rules

/-- What holds in every state: the invariant; every open transaction is safe; and no two of
them hold the same lock. -/
structure System.Sound (C : Contract V E α) (out : Outside A E) (c : System V A E ε α) : Prop where
  kept : C.invariant c.shared
  safe : ∀ t body l, c.session t = some (.running body l) → Safe C out (Commits C) body l c.shared
  apart : ∀ t t' body body' l l', t' ≠ t → c.session t = some (.running body l) →
    c.session t' = some (.running body' l') → Disjoint l.held l'.held

namespace System.Sound

variable {C : Contract V E α} {out : Outside A E} {c : System V A E ε α} {t : Nat}

/-- A session that is not running any more leaves the others as they are. -/
theorem leave (h : c.Sound C out) {x : Option (Session V A ε α)}
    (hx : ∀ body l, x ≠ some (.running body l)) : (c.become t x).Sound C out := by
  have hother : ∀ t' body l, (c.become t x).session t' = some (.running body l) →
      c.session t' = some (.running body l) := by
    intro t' body l hrun
    by_cases ht : t' = t
    · subst ht
      rw [become_self] at hrun
      exact absurd hrun (hx body l)
    · rwa [become_of_ne ht] at hrun
  exact ⟨h.kept, fun t' body l hrun => h.safe t' body l (hother t' body l hrun),
    fun t₁ t₂ body body' l l' hne h₁ h₂ => h.apart t₁ t₂ body body' l l' hne (hother _ _ _ h₁)
      (hother _ _ _ h₂)⟩

/-- A session that goes on with safe work, apart from the others. -/
theorem goOn (h : c.Sound C out) {body : Transaction V A ε α} {l : Local V}
    (hsafe : Safe C out (Commits C) body l c.shared) (hfree : c.FreeFor t l.held) :
    (c.become t (some (.running body l))).Sound C out := by
  refine ⟨h.kept, ?_, ?_⟩
  · intro t' body' l' hrun
    by_cases ht : t' = t
    · subst ht
      rw [become_self] at hrun
      obtain ⟨rfl, rfl⟩ : body = body' ∧ l = l' := by simpa using hrun
      exact hsafe
    · rw [become_of_ne ht] at hrun
      exact h.safe t' body' l' hrun
  · intro t₁ t₂ body₁ body₂ l₁ l₂ hne h₁ h₂
    by_cases ht₁ : t₁ = t
    · subst ht₁
      rw [become_self] at h₁
      rw [become_of_ne hne] at h₂
      obtain ⟨rfl, rfl⟩ : body = body₁ ∧ l = l₁ := by simpa using h₁
      exact hfree t₂ body₂ l₂ hne h₂
    · rw [become_of_ne ht₁] at h₁
      by_cases ht₂ : t₂ = t
      · subst ht₂
        rw [become_self] at h₂
        obtain ⟨rfl, rfl⟩ : body = body₂ ∧ l = l₂ := by simpa using h₂
        exact (hfree t₁ body₁ l₁ ht₁ h₁).symm
      · rw [become_of_ne ht₂] at h₂
        exact h.apart t₁ t₂ body₁ body₂ l₁ l₂ hne h₁ h₂

/-- The shared state moves in a way that every open transaction relies on. -/
theorem moved (hfits : C.Fits out) (h : c.Sound C out) {s : Shared V E α}
    (hkept : C.invariant s)
    (hrely : ∀ t body l, c.session t = some (.running body l) → C.rely l.held c.shared s) :
    ({ c with shared := s } : System V A E ε α).Sound C out :=
  ⟨hkept, fun t body l hrun => (h.safe t body l hrun).rely hfits (hrely t body l hrun), h.apart⟩

theorem step (hfits : C.Fits out) {start : Set (Transaction V A ε α)}
    (hstart : ∀ body ∈ start, ∀ s, C.invariant s → Safe C out (Commits C) body .empty s)
    (h : c.Sound C out) {c' : System V A E ε α} (hstep : Step out start c c') :
    c'.Sound C out := by
  cases hstep with
  | begin hnone hbody =>
    exact h.goOn (hstart _ hbody _ h.kept) fun _ _ _ _ _ => Set.empty_disjoint _
  | advance hrun hdoes hfree =>
    rename_i t o k l a l' e
    obtain ⟨hg, hk⟩ := h.safe t _ l hrun c.shared (hfits.refl _ _) h.kept a l' e hdoes
    -- the session steps aside, the others see the move, and it goes on after it
    have hothers : (c.become t none).Sound C out := h.leave fun _ _ => by simp
    have hmoved := hothers.moved hfits (hfits.keeps _ _ _ h.kept hg) fun t' body' l'' hrun' => by
      by_cases ht : t' = t
      · subst ht
        rw [become_self] at hrun'
        cases hrun'
      · rw [become_of_ne ht] at hrun'
        exact hfits.interfere _ _ _ _ (h.apart t' t _ _ _ _ (Ne.symm ht) hrun' hrun) hg
    have hdone := hmoved.goOn (t := t) hk fun t' body' l'' hne hrun' =>
      hfree t' body' l'' hne (by rwa [← become_of_ne (x := none) hne])
    simpa [become] using hdone
  | commit hrun =>
    rename_i t a l
    have hg := h.safe t _ l hrun c.shared (hfits.refl _ _) h.kept
    have hothers : (c.become t (some (.committed a))).Sound C out := h.leave fun _ _ => by simp
    refine hothers.moved hfits (hfits.keeps _ _ _ h.kept hg) fun t' body' l'' hrun' => ?_
    by_cases ht : t' = t
    · subst ht
      rw [become_self] at hrun'
      cases hrun'
    · rw [become_of_ne ht] at hrun'
      exact hfits.interfere _ _ _ _ (h.apart t' t _ _ _ _ (Ne.symm ht) hrun' hrun) hg
  | rollback hrun =>
    obtain ⟨hkept, hsafe, hapart⟩ := h.leave (t := _) (x := none) fun _ _ => by simp
    exact ⟨hkept, hsafe, hapart⟩
  | complete hdone =>
    obtain ⟨hkept, hsafe, hapart⟩ := h.leave (t := _) (x := none) fun _ _ => by simp
    exact ⟨hkept, hsafe, hapart⟩
  | interrupt hdone =>
    obtain ⟨hkept, hsafe, hapart⟩ := h.leave (t := _) (x := none) fun _ _ => by simp
    exact ⟨hkept, hsafe, hapart⟩
  | drift hdrift =>
    exact h.moved hfits (hfits.drift ∅ _ _ hdrift h.kept).2
      fun t body l _ => (hfits.drift l.held _ _ hdrift h.kept).1

end System.Sound

/-- **The rule.**  If every transaction that may begin is safe from any state that keeps the
invariant, then every state that any interleaving of any number of them reaches keeps it. -/
theorem invariant_of_safe {C : Contract V E α} {out : Outside A E} (hfits : C.Fits out)
    {start : Set (Transaction V A ε α)}
    (hstart : ∀ body ∈ start, ∀ s, C.invariant s → Safe C out (Commits C) body .empty s)
    {shared : Shared V E α} (hinit : C.invariant shared) {c : System V A E ε α}
    (h : System.Reaches out start (System.initial shared) c) : C.invariant c.shared := by
  suffices hall : c.Sound C out from hall.kept
  induction h with
  | refl =>
    exact ⟨hinit, fun _ _ _ h => (by cases h), fun _ _ _ _ _ _ _ h => (by cases h)⟩
  | tail _ hstep ih => exact ih.step hfits hstart hstep

/-! ## 4. What is left of a call -/

/-- What an ended session had committed. -/
def Ended.committed : Ended α → Option α
  | .returned a => some a
  | .failed => none
  | .interrupted a => some a

namespace System

variable {c c' : System V A E ε α} {out : Outside A E} {start : Set (Transaction V A ε α)}

/-- The log holds the value of each session that committed, and nothing else. -/
def Accounted (c : System V A E ε α) : Prop :=
  ∃ pending : List (Nat × α), (pending.map Prod.fst).Nodup ∧
    (∀ t a, (t, a) ∈ pending ↔ c.session t = some (.committed a)) ∧
    c.shared.log.Perm ((c.ended.filterMap fun e => e.2.committed) ++ pending.map Prod.snd)

omit [DecidableEq K] in
/-- A session without a commit goes on without one. -/
theorem Accounted.become (h : c.Accounted) {t : Nat} {x : Option (Session V A ε α)}
    (hbefore : ∀ a, c.session t ≠ some (.committed a)) (hafter : ∀ a, x ≠ some (.committed a)) :
    (c.become t x).Accounted := by
  obtain ⟨pending, hnodup, hmem, hperm⟩ := h
  refine ⟨pending, hnodup, fun t' a => (hmem t' a).trans ?_, hperm⟩
  by_cases ht : t' = t
  · subst ht
    rw [become_self]
    exact iff_of_false (hbefore a) (hafter a)
  · rw [become_of_ne ht]

omit [DecidableEq K] in
/-- A session that has committed ends. -/
theorem Accounted.finish (h : c.Accounted) {t : Nat} {a : α} {e : Ended α}
    (hdone : c.session t = some (.committed a)) (he : e.committed = some a) :
    ({ c.become t none with ended := c.ended ++ [(t, e)] } : System V A E ε α).Accounted := by
  obtain ⟨pending, hnodup, hmem, hperm⟩ := h
  obtain ⟨before, after, rfl⟩ := List.append_of_mem ((hmem t a).mpr hdone)
  rw [List.map_append, List.map_cons, List.nodup_middle, List.nodup_cons, ← List.map_append]
    at hnodup
  refine ⟨before ++ after, hnodup.2, fun t' b => ?_, hperm.trans ?_⟩
  · change _ ↔ (c.become t none).session t' = _
    by_cases ht : t' = t
    · subst ht
      rw [become_self]
      refine iff_of_false (fun hin => hnodup.1 ?_) (by simp)
      exact List.mem_map.mpr ⟨(t', b), hin, rfl⟩
    · rw [become_of_ne ht, ← hmem t' b]
      simp [ht]
  · simp only [List.filterMap_append, List.filterMap_cons, List.filterMap_nil, he, List.map_append,
      List.map_cons, List.append_assoc, List.singleton_append]
    exact List.Perm.append_left _ List.perm_middle

theorem Accounted.step (h : c.Accounted) (hstep : Step out start c c') : c'.Accounted := by
  cases hstep with
  | begin hnone _ => exact h.become (by simp [hnone]) (by simp)
  | @advance t o k l a l' e hrun _ _ =>
    obtain ⟨pending, hrest⟩ := h.become (t := t) (x := some (.running (k a) l'))
      (by simp [hrun]) (by simp)
    exact ⟨pending, hrest⟩
  | @commit t a l hrun =>
    obtain ⟨pending, hnodup, hmem, hperm⟩ := h
    refine ⟨(t, a) :: pending, ?_, fun t' b => ?_, ?_⟩
    · rw [List.map_cons, List.nodup_cons]
      refine ⟨fun hin => ?_, hnodup⟩
      obtain ⟨⟨t', b⟩, hpending, rfl⟩ := List.mem_map.mp hin
      have hsession := (hmem t' b).mp hpending
      rw [hrun] at hsession
      cases hsession
    · change _ ↔ (c.become t _).session t' = _
      by_cases ht : t' = t
      · subst ht
        have hout : (t', b) ∉ pending := by simp [hmem, hrun]
        simp [hout, eq_comm]
      · rw [become_of_ne ht, ← hmem t' b]
        simp [ht]
    · rw [Shared.commit_log, List.map_cons]
      exact (hperm.append_right [a]).trans (by
        rw [List.append_assoc]
        exact List.Perm.append_left _ List.perm_append_comm)
  | @rollback t body l hrun =>
    obtain ⟨pending, hnodup, hmem, hperm⟩ := h.become (t := t) (x := none) (by simp [hrun]) (by simp)
    refine ⟨pending, hnodup, hmem, hperm.trans (List.Perm.of_eq ?_)⟩
    simp [Ended.committed, System.become]
  | complete hdone => exact h.finish hdone rfl
  | interrupt hdone => exact h.finish hdone rfl
  | drift _ => exact h

/-- Each commit is that of one session, which did not fail. -/
theorem accounted {shared : Shared V E α} (hlog : shared.log = [])
    (h : Reaches out start (initial shared) c) : c.Accounted := by
  induction h with
  | refl => exact ⟨[], by simp, by simp [initial], by simp [initial, hlog]⟩
  | tail _ hstep ih => exact ih.step hstep

/-- Rows change with the log only. -/
theorem rows_of_log (h : Reaches out start c c') :
    c.shared.log.length ≤ c'.shared.log.length ∧
      (c'.shared.log.length = c.shared.log.length → c'.shared.rows = c.shared.rows) := by
  induction h with
  | refl => exact ⟨le_rfl, fun _ => rfl⟩
  | tail _ hstep ih =>
    obtain ⟨hle, hrows⟩ := ih
    cases hstep with
    | commit hrun =>
      rw [Shared.commit_log, List.length_append, List.length_singleton]
      exact ⟨by omega, fun heq => by omega⟩
    | begin | advance | rollback | complete | interrupt | drift => exact ⟨hle, hrows⟩

end System

end ProductPdfQr.Database
