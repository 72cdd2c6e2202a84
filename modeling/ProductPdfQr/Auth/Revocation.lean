/-
# Sessions follow the password

A login keeps the lock of its administrator from the verification of the hash to its commit,
and whoever sets a hash takes the same lock first and then revokes.  So of the committed calls,
in the order of their commits, no password was set after the login of a session that is still
unrevoked, except by this session itself.
-/
import ProductPdfQr.Auth.Service

namespace ProductPdfQr.Auth

open Database

/-! ## 1. The log -/

namespace AuthEvent

/-- The hash that the call set for the administrator, if it set one. -/
def setsHash (a : Nat) : AuthEvent → Option String
  | reset b passwordHash => if b = a then some passwordHash else none
  | change admin passwordHash => if admin.id = a then some passwordHash else none
  | _ => none

/-- The call changed the password of the administrator in the session. -/
def ChangedIn (a : Nat) (sid : String) (e : AuthEvent) : Prop :=
  ∃ admin passwordHash, e = change admin passwordHash ∧ admin.id = a ∧ admin.sessionId = sid

end AuthEvent

/-- The hash of an administrator after the calls of the log, which had the hash `h` before. -/
def hashAfter (a : Nat) (h : String) (log : List AuthEvent) : String :=
  log.foldl (fun h e => (e.setsHash a).getD h) h

@[simp] theorem hashAfter_append {a : Nat} {h : String} {log log' : List AuthEvent} :
    hashAfter a h (log ++ log') = hashAfter a (hashAfter a h log) log' := by
  simp [hashAfter]

theorem hashAfter_of_none {a : Nat} {h : String} : ∀ {log : List AuthEvent},
    (∀ e ∈ log, e.setsHash a = none) → hashAfter a h log = h
  | [], _ => rfl
  | e :: log, hnone => by
    have htail : hashAfter a h log = h :=
      hashAfter_of_none fun e' he' => hnone e' (List.mem_cons_of_mem _ he')
    have hhead : e.setsHash a = none := hnone e List.mem_cons_self
    change hashAfter a ((e.setsHash a).getD h) log = h
    rw [hhead]
    exact htail

/-- The session was issued by a login that verified the hash of that moment, and whatever call
set a hash since then is a change of the password in this session. -/
def Stands (h : String) (log : List AuthEvent) (a : Nat) (sid : String) : Prop :=
  ∃ before created verified after, log = before ++ .login (some (created, verified)) :: after ∧
    created.admin.id = a ∧ created.admin.sessionId = sid ∧ verified = hashAfter a h before ∧
    ∀ e ∈ after, e.setsHash a ≠ none → e.ChangedIn a sid

theorem Stands.snoc {h : String} {log : List AuthEvent} {a : Nat} {sid : String} {e : AuthEvent}
    (hs : Stands h log a sid) (he : e.setsHash a ≠ none → e.ChangedIn a sid) :
    Stands h (log ++ [e]) a sid := by
  obtain ⟨before, created, verified, after, rfl, ha, hsid, hverified, hafter⟩ := hs
  refine ⟨before, created, verified, after ++ [e], by simp, ha, hsid, hverified, ?_⟩
  intro e' he'
  rcases List.mem_append.mp he' with he' | he'
  · exact hafter e' he'
  · rw [List.mem_singleton.mp he']
    exact he

/-! ## 2. The contract -/

abbrev AuthShared := Shared Row Unit AuthEvent

/-- The hash of each administrator before any call. -/
abbrev Hashes := Nat → String

/-- What the committed rows have to do with the log. -/
structure Kept (h : Hashes) (s : AuthShared) : Prop where
  hash : ∀ a (row : AdminRow), s.rows (.admin a) = some row →
    row.passwordHash = hashAfter a (h a) s.log
  stands : ∀ sid (row : SessionRow), s.rows (.session sid) = some row → row.revokedAt = none →
    (s.rows (.admin row.adminId)).isSome = true ∧ Stands (h row.adminId) s.log row.adminId sid

/-- The holder of an administrator's lock knows that no session of it appears. -/
def contract (h : Hashes) : Contract Row Unit AuthEvent where
  rely H s s' := (∀ k ∈ H, s'.rows k = s.rows k) ∧
    ∀ sid (row : SessionRow), s'.rows (.session sid) = some row → row.revokedAt = none →
      Key.admin row.adminId ∈ H → s.rows (.session sid) = some row
  guarantee H s s' := (∀ k, k ∉ H → s'.rows k = s.rows k) ∧
    (∀ sid (row : SessionRow), s'.rows (.session sid) = some row → row.revokedAt = none →
      s.rows (.session sid) = some row ∨ Key.admin row.adminId ∈ H) ∧ Kept h s'
  invariant := Kept h

/-- There is nothing outside. -/
def nothing : Outside (X := Empty) (fun _ => Unit) Unit where
  call := fun _ _ _ _ => False
  drift := fun _ _ => False

theorem contract_fits (h : Hashes) : (contract h).Fits nothing where
  refl := fun _ _ => ⟨fun _ _ => rfl, fun _ _ hrow _ _ => hrow⟩
  trans := by
    rintro H s s' s'' ⟨hrows, hsessions⟩ ⟨hrows', hsessions'⟩
    refine ⟨fun k hk => (hrows' k hk).trans (hrows k hk), ?_⟩
    intro sid row hrow hunrevoked hlocked
    exact hsessions sid row (hsessions' sid row hrow hunrevoked hlocked) hunrevoked hlocked
  interfere := by
    rintro H H' s s' hapart ⟨hrows, hsessions, -⟩
    have hout : ∀ k ∈ H, k ∉ H' := fun k hk hk' => Set.disjoint_left.mp hapart hk hk'
    refine ⟨fun k hk => hrows k (hout k hk), ?_⟩
    intro sid row hrow hunrevoked hlocked
    exact (hsessions sid row hrow hunrevoked).resolve_right (hout _ hlocked)
  keeps := fun _ _ _ _ hg => hg.2.2
  idle := fun _ _ hi => ⟨fun _ _ => rfl, fun _ _ hrow _ => Or.inl hrow, hi⟩
  drift := fun _ _ _ hdrift => hdrift.elim

variable {h : Hashes} {l : Local Row} {s : AuthShared}

theorem rely_mono {H H' : Set Key} {s' : AuthShared} (hsub : H ⊆ H')
    (hr : (contract h).rely H' s s') : (contract h).rely H s s' :=
  ⟨fun k hk => hr.1 k (hsub hk), fun sid row hrow hu hk => hr.2 sid row hrow hu (hsub hk)⟩

/-- What a commit has to show: its sessions, and that the rows still fit the log. -/
theorem commits_of {e : AuthEvent}
    (hsessions : ∀ sid (row : SessionRow), l.sees s.rows (.session sid) = some row →
      row.revokedAt = none → s.rows (.session sid) = some row ∨ Key.admin row.adminId ∈ l.held)
    (hkept : Kept h (s.commit l e)) : Commits (contract h) e l s :=
  ⟨fun _ hk => Local.sees_of_not_held hk, hsessions, hkept⟩

theorem sees_isSome {k : Key} (hk : (s.rows k).isSome = true) :
    (l.sees s.rows k).isSome = true := by
  unfold Local.sees
  cases l.own k with
  | none => simpa using hk
  | some row => rfl

/-! ## 3. Setting a hash -/

/-- Where a call stands that sets the hash of `a` and goes through the sessions that it found:
every session it wrote is revoked, and every other one of `a` is still to come, or kept. -/
structure Sweep (a : Nat) (keep : String → Prop) (hash : String)
    (rest : List ((k : Key) × Row k)) (l : Local Row) (s : AuthShared) : Prop where
  locked : Key.admin a ∈ l.held
  sets : ∃ row : AdminRow, l.own (.admin a) = some row ∧ row.passwordHash = hash
  others : ∀ b, b ≠ a → l.own (.admin b) = none
  revoked : ∀ sid (row : SessionRow), l.own (.session sid) = some row → row.revokedAt ≠ none
  sessions : ∀ found ∈ rest, ∃ sid row, found = ⟨.session sid, row⟩
  covered : ∀ sid (row : SessionRow), s.rows (.session sid) = some row → row.revokedAt = none →
    row.adminId = a → ¬keep sid →
      (∃ row', (⟨.session sid, row'⟩ : (k : Key) × Row k) ∈ rest) ∨
        (l.own (.session sid)).isSome = true

theorem Sweep.rely {a : Nat} {keep : String → Prop} {hash : String}
    {rest : List ((k : Key) × Row k)} {s' : AuthShared} (hsweep : Sweep a keep hash rest l s)
    (hr : (contract h).rely l.held s s') : Sweep a keep hash rest l s' where
  locked := hsweep.locked
  sets := hsweep.sets
  others := hsweep.others
  revoked := hsweep.revoked
  sessions := hsweep.sessions
  covered := by
    intro sid row hrow hunrevoked ha hkeep
    exact hsweep.covered sid row (hr.2 sid row hrow hunrevoked (ha ▸ hsweep.locked)) hunrevoked ha
      hkeep

/-- With one more lock, and the session found needing no revocation any more. -/
theorem Sweep.skip {a : Nat} {keep : String → Prop} {hash : String} {sid : String}
    {found : SessionRow} {rest : List ((k : Key) × Row k)} {l' : Local Row}
    (hsweep : Sweep a keep hash (⟨.session sid, found⟩ :: rest) l s)
    (hheld : l.held ⊆ l'.held) (hown : l'.own = l.own)
    (hdone : ∀ row : SessionRow, s.rows (.session sid) = some row → row.revokedAt = none →
      row.adminId = a → ¬keep sid → (l.own (.session sid)).isSome = true) :
    Sweep a keep hash rest l' s where
  locked := hheld hsweep.locked
  sets := hown ▸ hsweep.sets
  others := hown ▸ hsweep.others
  revoked := hown ▸ hsweep.revoked
  sessions := fun found' hfound' => hsweep.sessions found' (List.mem_cons_of_mem _ hfound')
  covered := by
    intro sid' row hrow hunrevoked ha hkeep
    rw [hown]
    rcases hsweep.covered sid' row hrow hunrevoked ha hkeep with ⟨row', hmem⟩ | hmine
    · rcases List.mem_cons.mp hmem with heq | hmem
      · obtain rfl : sid' = sid := by simpa using congrArg Sigma.fst heq
        exact Or.inr (hdone row hrow hunrevoked ha hkeep)
      · exact Or.inl ⟨row', hmem⟩
    · exact Or.inr hmine

/-- With the session found revoked. -/
theorem Sweep.revoke {a : Nat} {keep : String → Prop} {hash : String} {sid : String}
    {found row : SessionRow} {rest : List ((k : Key) × Row k)}
    (hsweep : Sweep a keep hash (⟨.session sid, found⟩ :: rest) l s)
    (hrow : row.revokedAt ≠ none) :
    Sweep a keep hash rest ((l.hold (.session sid)).put (.session sid) row) s where
  locked := Set.mem_insert_of_mem _ (Set.mem_insert_of_mem _ hsweep.locked)
  sets := by
    obtain ⟨admin, hadmin, hhash⟩ := hsweep.sets
    exact ⟨admin, by simpa [Function.update] using hadmin, hhash⟩
  others := by
    intro b hb
    simpa [Function.update] using hsweep.others b hb
  revoked := by
    intro sid' row' hown
    by_cases hsid : sid' = sid
    · subst hsid
      obtain rfl : row = row' := by simpa using hown
      exact hrow
    · rw [Local.put_own, Function.update_of_ne (by simpa using hsid)] at hown
      exact hsweep.revoked sid' row' hown
  sessions := fun found' hfound' => hsweep.sessions found' (List.mem_cons_of_mem _ hfound')
  covered := by
    intro sid' row' hrow' hunrevoked ha hkeep
    by_cases hsid : sid' = sid
    · subst hsid
      exact Or.inr (by simp)
    · rcases hsweep.covered sid' row' hrow' hunrevoked ha hkeep with ⟨row'', hmem⟩ | hmine
      · rcases List.mem_cons.mp hmem with heq | hmem
        · exact absurd (by simpa using congrArg Sigma.fst heq) hsid
        · exact Or.inl ⟨row'', hmem⟩
      · refine Or.inr ?_
        rw [Local.put_own, Function.update_of_ne (by simpa using hsid)]
        exact hmine

/-- One round: the session found is revoked, or it needs no revocation any more. -/
theorem sweep_round {a : Nat} {keep : String → Prop} {hash : String} {now : Int}
    {p : String → SessionRow → Bool}
    (hp : ∀ sid row, p sid row = true ↔ row.adminId = a ∧ row.revokedAt = none ∧ ¬keep sid)
    (found : (k : Key) × Row k) (rest : List ((k : Key) × Row k)) (l : Local Row) (s : AuthShared)
    (hsweep : Sweep a keep hash (found :: rest) l s) :
    Safe (contract h) nothing (fun _ l' s' => Sweep a keep hash rest l' s')
      (updateRow found.1 (onSessions p found.1) (revokedAt now found.1) : AuthTx Unit) l s := by
  obtain ⟨sid, row₀, rfl⟩ := hsweep.sessions found List.mem_cons_self
  rw [← bind_pure (updateRow _ _ _)]
  refine safe_updateRow (contract_fits h) (fun s₁ hr₁ hi₁ hrow => ?_)
    (fun s₁ row hr₁ hi₁ hrow hskip => ?_) (fun s₁ row s₂ hr₁ hi₁ hrow hmatch hr₂ hi₂ => ?_)
  · refine safe_pure fun s₂ hr₂ hi₂ => ?_
    refine Sweep.rely (h := h) ?_ hr₂
    refine (hsweep.rely hr₁).skip subset_rfl rfl fun row hcommitted _ _ _ => ?_
    have hseen : (l.sees s₁.rows (.session sid)).isSome = true :=
      sees_isSome (by rw [hcommitted]; rfl)
    rw [hrow] at hseen
    cases hseen
  · refine safe_pure fun s₂ hr₂ hi₂ => ?_
    refine Sweep.rely (h := h) ?_ hr₂
    refine (hsweep.rely hr₁).skip (Set.subset_insert _ _) rfl
      fun row' hcommitted hunrevoked ha hkeep => ?_
    by_contra hnone
    have hown : l.own (.session sid) = none := by simpa using hnone
    have hseen : l.sees s₁.rows (.session sid) = s₁.rows (.session sid) := by
      simp [Local.sees, hown]
    rw [hseen, hcommitted] at hrow
    obtain rfl : row' = row := Option.some.inj hrow
    have hmatch : p sid row' = true := (hp sid row').mpr ⟨ha, hunrevoked, hkeep⟩
    exact absurd (hskip.symm.trans hmatch) (by simp)
  · refine safe_pure fun s₃ hr₃ hi₃ => ?_
    refine Sweep.rely (h := h) ?_ hr₃
    have hheld := rely_mono (Set.subset_insert _ _) hr₂
    exact ((hsweep.rely hr₁).rely hheld).revoke (by simp [revokedAt])

/-- A call that holds the lock of an administrator and has written nothing. -/
abbrev adminLocked (a : Nat) : Local Row := Local.empty.hold (.admin a)

theorem adminLocked_sees {a : Nat} {row : AdminRow} {s' : AuthShared}
    (hrow : s.rows (.admin a) = some row)
    (hr : (contract h).rely (adminLocked a).held s s') :
    (adminLocked a).sees s'.rows (.admin a) = some row := by
  rw [Local.sees_hold, Local.sees_empty, hr.1 _ (Set.mem_insert _ _), hrow]

/-- The statements that set a hash, under the lock of the administrator. -/
theorem safe_sweep {a : Nat} (keep : String → Prop) (now : Int) (p : String → SessionRow → Bool)
    (set : AdminRow → AdminRow) (hash : String) (hset : ∀ row, (set row).passwordHash = hash)
    (hp : ∀ sid row, p sid row = true ↔ row.adminId = a ∧ row.revokedAt = none ∧ ¬keep sid)
    {row : AdminRow} (hrow : s.rows (.admin a) = some row) :
    Safe (contract h) nothing (fun _ l' s' => Sweep a keep hash [] l' s')
      (do
        updateRow (Key.admin a) (fun _ => true) set
        updateWhere (onSessions p) (revokedAt now) : AuthTx Unit)
      (adminLocked a) s := by
  refine safe_updateRow (contract_fits h) (fun s₁ hr₁ _ hnone => ?_)
    (fun s₁ _ _ _ _ hskip => absurd hskip (by simp)) (fun s₁ row₁ s₂ _ _ _ _ _ _ => ?_)
  · rw [adminLocked_sees hrow hr₁] at hnone
    cases hnone
  · rw [updateWhere]
    refine safe_scan (contract_fits h) fun s₃ found hr₃ hi₃ hfound => ?_
    refine safe_forM (J := Sweep a keep hash) (contract_fits h)
      (fun rest l s s' hsweep hr _ => hsweep.rely hr)
      (fun found rest l s hsweep _ => sweep_round hp found rest l s hsweep) hi₃ ?_
    constructor
    · exact Set.mem_insert _ _
    · exact ⟨set row₁, by simp, hset row₁⟩
    · intro b hb
      simp [Function.update_of_ne (show Key.admin b ≠ Key.admin a by simpa using hb)]
    · intro sid session hown
      simp at hown
    · rintro ⟨k, found'⟩ hmem
      obtain ⟨-, hmatch⟩ := (hfound _).mp hmem
      cases k with
      | admin b => cases hmatch
      | session sid => exact ⟨sid, found', rfl⟩
    · intro sid session hcommitted hunrevoked ha hkeep
      refine Or.inl ⟨session, (hfound _).mpr ⟨?_, (hp sid session).mpr ⟨ha, hunrevoked, hkeep⟩⟩⟩
      rw [Local.sees_put_of_ne (by simp), Local.sees_hold, Local.sees_hold, Local.sees_empty]
      exact hcommitted

/-- When every session was gone through, the hash can be committed. -/
theorem Sweep.commits {a : Nat} {keep : String → Prop} {hash : String} {e : AuthEvent}
    (hsweep : Sweep a keep hash [] l s) (hi : Kept h s) (hset : e.setsHash a = some hash)
    (hother : ∀ b, b ≠ a → e.setsHash b = none) (hkeep : ∀ sid, keep sid → e.ChangedIn a sid) :
    Commits (contract h) e l s := by
  have hcommitted : ∀ sid (row : SessionRow), l.sees s.rows (.session sid) = some row →
      row.revokedAt = none → l.own (.session sid) = none ∧ s.rows (.session sid) = some row := by
    intro sid row hrow hunrevoked
    unfold Local.sees at hrow
    cases hown : l.own (.session sid) with
    | none => exact ⟨rfl, by simpa [hown] using hrow⟩
    | some row' =>
      rw [hown] at hrow
      obtain rfl : row' = row := by simpa using hrow
      exact absurd hunrevoked (hsweep.revoked sid row' hown)
  refine commits_of (fun sid row hrow hu => Or.inl (hcommitted sid row hrow hu).2) ⟨?_, ?_⟩
  · intro b row hrow
    rw [Shared.commit_log, hashAfter_append]
    by_cases hb : b = a
    · subst hb
      obtain ⟨row', hown, hhash⟩ := hsweep.sets
      have hseen : l.sees s.rows (.admin b) = some row' := by simp [Local.sees, hown]
      obtain rfl : row' = row := Option.some.inj (hseen.symm.trans hrow)
      simp [hashAfter, hset, hhash]
    · have hseen : l.sees s.rows (.admin b) = s.rows (.admin b) := by
        simp [Local.sees, hsweep.others b hb]
      rw [Shared.commit_rows, hseen] at hrow
      simpa [hashAfter, hother b hb] using hi.hash b row hrow
  · intro sid row hrow hunrevoked
    obtain ⟨hown, hrow'⟩ := hcommitted sid row hrow hunrevoked
    obtain ⟨hadmin, hstands⟩ := hi.stands sid row hrow' hunrevoked
    refine ⟨sees_isSome hadmin, hstands.snoc fun hsets => ?_⟩
    have ha : row.adminId = a := by
      by_contra hne
      exact hsets (hother _ hne)
    by_cases hk : keep sid
    · rw [ha]
      exact hkeep sid hk
    · rcases hsweep.covered sid row hrow' hunrevoked ha hk with ⟨_, hmem⟩ | hmine
      · cases hmem
      · rw [hown] at hmine
        cases hmine

/-- A call that takes the lock of an administrator, sets the hash, and revokes. -/
theorem safe_setHash {a : Nat} (keep : String → Prop) (now : Int) (p : String → SessionRow → Bool)
    (set : AdminRow → AdminRow) (hash : String) (e : AuthEvent)
    (hset : ∀ row, (set row).passwordHash = hash)
    (hp : ∀ sid row, p sid row = true ↔ row.adminId = a ∧ row.revokedAt = none ∧ ¬keep sid)
    (he : e.setsHash a = some hash) (hother : ∀ b, b ≠ a → e.setsHash b = none)
    (hkeep : ∀ sid, keep sid → e.ChangedIn a sid) {row : AdminRow}
    (hrow : s.rows (.admin a) = some row) (hi : (contract h).invariant s) :
    Safe (contract h) nothing (Commits (contract h))
      (do
        updateRow (Key.admin a) (fun _ => true) set
        updateWhere (onSessions p) (revokedAt now)
        return e : AuthTx AuthEvent)
      (adminLocked a) s := by
  have hsweep := safe_sweep (h := h) keep now p set hash hset hp hrow
  have hdone := safe_bind (f := fun _ => (pure e : AuthTx AuthEvent))
    (Q := Commits (contract h)) (contract_fits h) hi (Safe.mono (fun _ l' s' _ hs => ?_) hsweep)
  · simpa only [bind_assoc] using hdone
  · exact safe_pure fun s'' hr hi'' => (hs.rely hr).commits hi'' he hother hkeep

/-! ## 4. The calls -/

/-- A call that sets no hash and writes no session but revoked ones. -/
theorem commits_of_quiet {e : AuthEvent} (hi : Kept h s) (hquiet : ∀ a, e.setsHash a = none)
    (hadmins : ∀ a (row : AdminRow), l.own (.admin a) = some row →
      ∃ row', s.rows (.admin a) = some row' ∧ row'.passwordHash = row.passwordHash)
    (hsessions : ∀ sid (row : SessionRow), l.own (.session sid) = some row →
      row.revokedAt = none → Key.admin row.adminId ∈ l.held ∧
        (l.sees s.rows (.admin row.adminId)).isSome = true ∧
        Stands (h row.adminId) (s.log ++ [e]) row.adminId sid) :
    Commits (contract h) e l s := by
  refine commits_of ?_ ⟨?_, ?_⟩
  · intro sid row hrow hunrevoked
    unfold Local.sees at hrow
    cases hown : l.own (.session sid) with
    | none => exact Or.inl (by simpa [hown] using hrow)
    | some row' =>
      rw [hown] at hrow
      obtain rfl : row' = row := by simpa using hrow
      exact Or.inr (hsessions sid row' hown hunrevoked).1
  · intro a row hrow
    have hlog : hashAfter a (h a) (s.commit l e).log = hashAfter a (h a) s.log := by
      simp [hashAfter, hquiet a]
    rw [hlog]
    rw [Shared.commit_rows] at hrow
    unfold Local.sees at hrow
    cases hown : l.own (.admin a) with
    | none => exact hi.hash a row (by simpa [hown] using hrow)
    | some row' =>
      rw [hown] at hrow
      obtain rfl : row' = row := by simpa using hrow
      obtain ⟨row'', hcommitted, hsame⟩ := hadmins a row' hown
      rw [← hsame]
      exact hi.hash a row'' hcommitted
  · intro sid row hrow hunrevoked
    rw [Shared.commit_rows] at hrow
    unfold Local.sees at hrow
    cases hown : l.own (.session sid) with
    | none =>
      obtain ⟨hadmin, hstands⟩ := hi.stands sid row (by simpa [hown] using hrow) hunrevoked
      exact ⟨sees_isSome hadmin, hstands.snoc fun hsets => absurd (hquiet _) hsets⟩
    | some row' =>
      rw [hown] at hrow
      obtain rfl : row' = row := by simpa using hrow
      exact (hsessions sid row' hown hunrevoked).2

/-- A login that issues nothing. -/
theorem commits_refused {l : Local Row} (hi : Kept h s)
    (hown : l = .empty ∨ ∃ k, l = Local.empty.hold k) :
    Commits (contract h) (.login none) l s := by
  refine commits_of_quiet hi (fun _ => rfl) ?_ ?_ <;>
    rcases hown with rfl | ⟨k, rfl⟩ <;> simp

/-- The commit of a login: the hash that was verified is still the one of the administrator. -/
theorem commits_issued {a : Nat} (sid : String) {row : AdminRow} (row' : AdminRow)
    (session : SessionRow) {created : CreatedSession} {l : Local Row} (hi : Kept h s) (hlocked : Key.admin a ∈ l.held)
    (hcommitted : s.rows (.admin a) = some row) (hsame : row'.passwordHash = row.passwordHash)
    (hadmins : ∀ b, l.own (.admin b) = if b = a then some row' else none)
    (hsessions : ∀ id, l.own (.session id) = if id = sid then some session else none)
    (hsession : session.adminId = a) (hadmin : created.admin.id = a)
    (hsid : created.admin.sessionId = sid) :
    Commits (contract h) (.login (some (created, row.passwordHash))) l s := by
  refine commits_of_quiet hi (fun _ => rfl) ?_ ?_
  · intro b r hown
    rw [hadmins] at hown
    by_cases hb : b = a
    · subst hb
      rw [if_pos rfl] at hown
      obtain rfl := Option.some.inj hown
      exact ⟨row, hcommitted, hsame.symm⟩
    · rw [if_neg hb] at hown
      cases hown
  · intro id r hown _
    rw [hsessions] at hown
    by_cases hid : id = sid
    · subst hid
      rw [if_pos rfl] at hown
      obtain rfl := Option.some.inj hown
      rw [hsession]
      refine ⟨hlocked, sees_isSome (by rw [hcommitted]; rfl), s.log, created, row.passwordHash, [],
        rfl, hadmin, hsid, hi.hash a row hcommitted, ?_⟩
      intro e he
      cases he
    · rw [if_neg hid] at hown
      cases hown

/-! ### What is claimed -/

/-- The latest call that set a hash for the administrator changed it in this session. -/
def LastChangedIn (log : List AuthEvent) (a : Nat) (sid : String) : Prop :=
  ∃ before e after, log = before ++ e :: after ∧ e.ChangedIn a sid ∧
    ∀ e' ∈ after, e'.setsHash a = none

/-- What is claimed of the committed rows and the calls that committed, in their order.  Every
unrevoked session was issued by a login that verified the hash of that moment; this is the hash
of its administrator still, or the last change of it was made in this session; and the password
was not reset since. -/
def SessionsFollowPassword (h : Hashes) (s : AuthShared) : Prop :=
  ∀ sid (session : SessionRow), s.rows (.session sid) = some session → session.revokedAt = none →
    ∃ (admin : AdminRow) (before : List AuthEvent) (created : CreatedSession) (verified : String)
      (after : List AuthEvent),
      s.rows (.admin session.adminId) = some admin ∧
      s.log = before ++ .login (some (created, verified)) :: after ∧
      created.admin.id = session.adminId ∧ created.admin.sessionId = sid ∧
      verified = hashAfter session.adminId (h session.adminId) before ∧
      (verified = admin.passwordHash ∨ LastChangedIn after session.adminId sid) ∧
      ∀ passwordHash, .reset session.adminId passwordHash ∉ after

theorem lastChangedIn_or_none {a : Nat} {sid : String} : ∀ log : List AuthEvent,
    (∀ e ∈ log, e.setsHash a ≠ none → e.ChangedIn a sid) →
      (∀ e ∈ log, e.setsHash a = none) ∨ LastChangedIn log a sid
  | [], _ => Or.inl (by simp)
  | e :: log, hall => by
    rcases lastChangedIn_or_none log fun e' he' => hall e' (List.mem_cons_of_mem _ he')
      with hnone | ⟨before, e', after, rfl, hchanged, hafter⟩
    · by_cases he : e.setsHash a = none
      · left
        intro e' he'
        rcases List.mem_cons.mp he' with rfl | he'
        · exact he
        · exact hnone e' he'
      · exact Or.inr ⟨[], e, log, rfl, hall e List.mem_cons_self he, hnone⟩
    · exact Or.inr ⟨e :: before, e', after, rfl, hchanged, hafter⟩

theorem follow_of_kept {h : Hashes} {s : AuthShared} (hkept : Kept h s) :
    SessionsFollowPassword h s := by
  intro sid session hrow hunrevoked
  obtain ⟨hadmin, before, created, verified, after, hlog, hid, hsid, hverified, hafter⟩ :=
    hkept.stands sid session hrow hunrevoked
  obtain ⟨admin, hadmin⟩ := Option.isSome_iff_exists.mp hadmin
  refine ⟨admin, before, created, verified, after, hadmin, hlog, hid, hsid, hverified, ?_, ?_⟩
  · rcases lastChangedIn_or_none _ hafter with hnone | hchanged
    · left
      have hhash := hkept.hash _ admin hadmin
      rw [hlog, List.append_cons, hashAfter_append, hashAfter_append, ← hverified,
        hashAfter_of_none hnone] at hhash
      exact hhash.symm
    · exact Or.inr hchanged
  · intro passwordHash hmem
    obtain ⟨_, _, heq, -, -⟩ := hafter _ hmem (by simp [AuthEvent.setsHash])
    cases heq

/-! ### One call each -/

variable [Sha256] {m : PasswordManager}

theorem safe_reset {rawUsername password salt : String} {now : Int} :
    Safe (contract h) nothing (Commits (contract h))
      ((AuthCall.reset rawUsername password salt now).body m) .empty s := by
  rw [AuthCall.body, resetAdminPassword, ← bind_pure_comp, bind_assoc]
  refine safe_liftExcept fun username _ => ?_
  rw [bind_assoc]
  refine safe_liftExcept fun _ _ => ?_
  rw [bind_assoc]
  refine safe_selectForUpdate (contract_fits h) (fun _ _ _ _ _ => safe_throw) ?_
  intro s₁ k row _ hi₁ hrow hmatch
  cases k with
  | session sid => cases hmatch
  | admin a =>
    rw [Local.sees_empty] at hrow
    have hdone := safe_setHash (fun _ => False) now
      (fun _ row => row.adminId = a && row.revokedAt.isNone)
      (fun row => { row with
        passwordHash := m.hash salt password, mustChangePassword := true, passwordUpdatedAt := now })
      (m.hash salt password) (AuthEvent.reset a (m.hash salt password)) (fun _ => rfl) (by simp)
      (by simp [AuthEvent.setsHash]) (fun b hb => by simp [AuthEvent.setsHash, Ne.symm hb])
      (fun _ hk => hk.elim) hrow hi₁
    simpa only [bind_assoc, pure_bind] using hdone

theorem safe_change {admin : AuthenticatedAdmin} {currentPassword newPassword salt : String}
    {now : Int} :
    Safe (contract h) nothing (Commits (contract h))
      ((AuthCall.change admin currentPassword newPassword salt now).body m) .empty s := by
  rw [AuthCall.body, changePassword, ← bind_pure_comp, bind_assoc]
  refine safe_liftExcept fun _ _ => ?_
  rw [bind_assoc]
  refine safe_lock (contract_fits h) (fun _ _ _ _ => safe_throw) fun s₁ row _ hi₁ hrow => ?_
  rw [Local.sees_empty] at hrow
  dsimp only
  split
  · split
    · exact safe_throw
    · have hdone := safe_setHash (fun sid => sid = admin.sessionId) now
        (fun id row => row.adminId = admin.id && id ≠ admin.sessionId && row.revokedAt.isNone)
        (fun row => { row with
          passwordHash := m.hash salt newPassword, mustChangePassword := false,
          passwordUpdatedAt := now })
        (m.hash salt newPassword) (AuthEvent.change admin (m.hash salt newPassword))
        (fun _ => rfl) (by simp; tauto) (by simp [AuthEvent.setsHash])
        (fun b hb => by simp [AuthEvent.setsHash, Ne.symm hb])
        (fun sid hk => ⟨admin, _, rfl, rfl, hk.symm⟩) hrow hi₁
      simpa only [bind_assoc, pure_bind] using hdone
  · exact safe_throw

theorem safe_revoke {admin : AuthenticatedAdmin} {now : Int} :
    Safe (contract h) nothing (Commits (contract h))
      ((AuthCall.revoke admin now).body m) .empty s := by
  have hquiet : ∀ a, (AuthEvent.revoke admin).setsHash a = none := fun _ => rfl
  rw [AuthCall.body, revokeSession, ← bind_pure_comp]
  refine safe_updateRow (contract_fits h) (fun _ _ _ _ => ?_) (fun _ _ _ _ _ _ => ?_)
    fun _ row _ _ _ _ _ _ _ => ?_
  · refine safe_pure fun s' _ hi' => commits_of_quiet hi' hquiet ?_ ?_ <;> simp
  · refine safe_pure fun s' _ hi' => commits_of_quiet hi' hquiet ?_ ?_ <;> simp
  · refine safe_pure fun s' _ hi' => commits_of_quiet hi' hquiet ?_ ?_
    · intro a row' hown
      simp at hown
    · intro sid row' hown hunrevoked
      by_cases hsid : sid = admin.sessionId
      · subst hsid
        obtain rfl : revokedAt now (.session admin.sessionId) row = row' := by simpa using hown
        cases hunrevoked
      · simp [Function.update_of_ne (show Key.session sid ≠ .session admin.sessionId by
          simpa using hsid)] at hown

theorem safe_login {rawUsername password : String} {ttlSeconds : Int} {sessionId token : String}
    {now : Int} :
    Safe (contract h) nothing (Commits (contract h))
      ((AuthCall.login rawUsername password ttlSeconds sessionId token now).body m) .empty s := by
  rw [AuthCall.body, createAuthenticatedSession, ← bind_pure_comp]
  cases normalizeUsername rawUsername with
  | error e => exact safe_pure fun s' _ hi' => commits_refused hi' (Or.inl rfl)
  | ok username =>
    dsimp only
    rw [bind_assoc]
    refine safe_selectForUpdate (contract_fits h) (fun s₁ l₁ _ _ hl₁ => ?_) ?_
    · exact safe_pure fun s' _ hi' => commits_refused hi' hl₁
    · intro s₁ k row _ hi₁ hrow hmatch
      cases k with
      | session sid => cases hmatch
      | admin a =>
        rw [Local.sees_empty] at hrow
        dsimp only
        split
        · rw [bind_assoc]
          refine safe_insert (contract_fits h) (fun _ _ _ _ _ => safe_throw)
            fun s₂ hr₂ _ _ => ?_
          have hrow₂ : s₂.rows (.admin a) = some row := by
            rw [hr₂.1 _ (Set.mem_insert _ _), hrow]
          simp only [if_true, bind_assoc]
          refine safe_updateRow (contract_fits h) (fun s₃ hr₃ _ hnone => ?_)
            (fun s₃ _ _ _ _ hskip => absurd hskip (by simp))
            (fun s₃ row' s₄ hr₃ _ hrow' _ hr₄ _ => ?_)
          · rw [Local.sees_put_of_ne (by simp),
              adminLocked_sees hrow₂ (rely_mono (Set.subset_insert _ _) hr₃)] at hnone
            cases hnone
          · rw [Local.sees_put_of_ne (by simp),
              adminLocked_sees hrow₂ (rely_mono (Set.subset_insert _ _) hr₃)] at hrow'
            obtain rfl := Option.some.inj hrow'
            refine safe_pure fun s₅ hr₅ hi₅ => ?_
            have hrow₅ : s₅.rows (.admin a) = some row := by
              rw [hr₅.1 _ (by simp), hr₄.1 _ (by simp), hr₃.1 _ (by simp), hrow₂]
            refine commits_issued sessionId { row with lastLoginAt := some now }
              ⟨a, hashSessionToken token, now, now + ttlSeconds * 1000000, none⟩ hi₅ (by simp) hrow₅ rfl ?_ ?_ rfl rfl rfl
            · intro b
              by_cases hb : b = a
              · subst hb
                simp
              · simp [hb]
            · intro id
              by_cases hid : id = sessionId
              · subst hid
                simp
              · simp [hid]
        · exact safe_pure fun s' _ hi' => commits_refused hi' (Or.inr ⟨_, rfl⟩)

/-! ## 5. Every reachable state -/

/-- The state before any call: the administrators, and nobody logged in. -/
def opening (admins : Nat → Option AdminRow) : AuthShared where
  rows
    | .admin a => admins a
    | .session _ => none
  ext := ()
  log := []

/-- The transactions of the service. -/
def calls (m : PasswordManager) : Set (AuthTx AuthEvent) := Set.range (AuthCall.body m)

/-- A system that any interleaving of the calls leads to, rolled back or interrupted wherever. -/
structure Reachable (m : PasswordManager) (admins : Nat → Option AdminRow) where
  system : System Row (fun _ : Empty => Unit) Unit AppError AuthEvent
  reached : System.Reaches nothing (calls m) (System.initial (opening admins)) system

/-- The hash that the administrators had before any call. -/
def openingHash (admins : Nat → Option AdminRow) (a : Nat) : String :=
  ((admins a).map AdminRow.passwordHash).getD ""

/-- **Session revocation.**  In every state that any interleaving commits. -/
theorem sessions_follow_password (m : PasswordManager) (admins : Nat → Option AdminRow)
    (c : Reachable m admins) :
    SessionsFollowPassword (openingHash admins) c.system.shared := by
  refine follow_of_kept (invariant_of_safe (contract_fits (openingHash admins)) ?_ ?_ c.reached)
  · rintro body ⟨call, rfl⟩ s hi
    cases call with
    | reset rawUsername password salt now => exact safe_reset
    | login rawUsername password ttlSeconds sessionId token now => exact safe_login
    | revoke admin now => exact safe_revoke
    | change admin currentPassword newPassword salt now => exact safe_change
  · constructor
    · intro a row hrow
      have hrow' : admins a = some row := hrow
      simp [opening, openingHash, hashAfter, hrow']
    · intro sid row hrow
      cases hrow

end ProductPdfQr.Auth
