/-
# The storage of uploaded files

What the upload transaction does outside the database: it draws row numbers from sequences, and
it has a worker thread move a validated temporary file to the place that its digest names.  The
worker goes on when its request is cancelled, while the request removes the temporary file
whenever it ends, so the worker's parts are steps of the outside by themselves.

What was received into a temporary file is a parameter, a function of its name: names are not
used twice.
-/
import ProductPdfQr.Database.Transactions
import ProductPdfQr.Digest

namespace ProductPdfQr.Version

open Database

variable [Sha256]

/-! ## 1. Uploads -/

/-- `ValidatedUpload`, over what the temporary files received.  Its size and its digest were
taken while it was received. -/
structure ValidatedUpload (received : String → Bytes) where
  temporaryPath : String
  originalFilename : String
  sizeBytes : Nat
  sha256 : String
  sized : sizeBytes = (received temporaryPath).size
  hashed : sha256 = hexdigest (received temporaryPath)

/-- `PublishedFile`. -/
structure PublishedFile where
  storagePath : String
  moved : Bool
  deriving DecidableEq

/-- `relative_path_for_hash`, of a digest. -/
def relativePathForHash (sha256 : String) : String :=
  String.ofList (sha256.toList.take 2 ++ '/' :: ((sha256.toList.drop 2).take 2 ++
    '/' :: (sha256.toList ++ ".pdf".toList)))

omit [Sha256] in
/-- The path tells the digest. -/
theorem relativePathForHash_injective {a b : String} (ha : Text.isSha256 a = true)
    (hb : Text.isSha256 b = true) (h : relativePathForHash a = relativePathForHash b) : a = b := by
  have hlength : ∀ {s : String}, Text.isSha256 s = true → s.toList.length = 64 := by
    intro s hs
    have := hs
    simp only [Text.isSha256, Text.isHex, Bool.and_eq_true, decide_eq_true_eq] at this
    exact this.1
  have hlists := congrArg String.toList h
  simp only [relativePathForHash, String.toList_ofList] at hlists
  have hdrop : ∀ {s : String}, s.toList.length = 64 →
      ((s.toList.take 2 ++ '/' :: ((s.toList.drop 2).take 2 ++
        '/' :: (s.toList ++ ".pdf".toList))).drop 6).take 64 = s.toList := by
    intro s hs
    rw [List.drop_append, List.drop_eq_nil_of_le (by simp)]
    simp only [List.nil_append, List.length_take, hs]
    rw [show 6 - min 2 64 = 3 + 1 by decide, List.drop_succ_cons, List.drop_append,
      List.drop_eq_nil_of_le (by simp)]
    simp only [List.nil_append, List.length_take, List.length_drop, hs]
    rw [show 3 - min 2 (64 - 2) = 0 + 1 by decide, List.drop_succ_cons, List.drop_zero,
      List.take_append_of_le_length (by omega), List.take_of_length_le (by omega)]
  have hsame := congrArg (fun l : List Char => (l.drop 6).take 64) hlists
  simp only [hdrop (hlength ha), hdrop (hlength hb)] at hsame
  exact String.toList_inj.mp hsame

/-! ## 2. Workers -/

/-- How far a worker is: before its look at the target, after it found none, after the rename,
or done with an outcome (none of a failure). -/
inductive Progress
  | looking
  | clear
  | renamed
  | done (published : Option PublishedFile)
  deriving DecidableEq

/-- One call of `_publish_sync`. -/
structure Worker (received : String → Bytes) where
  upload : ValidatedUpload received
  progress : Progress

/-- The three row numberings. -/
inductive Sequence
  | products
  | files
  | versions
  deriving DecidableEq

/-- What stands outside the tables. -/
structure Outer (received : String → Bytes) where
  last : Sequence → Nat
  files : String → Option Bytes
  temporary : String → Bool
  workers : List (Worker received)

/-- What a transaction asks of it: a number, a worker for an upload, what the worker did. -/
inductive Ask (received : String → Bytes)
  | nextval (s : Sequence)
  | publish (upload : ValidatedUpload received)
  | await (worker : Nat)

/-- What it is answered. -/
abbrev Ask.Answer {received : String → Bytes} : Ask received → Type
  | .nextval _ => Nat
  | .publish _ => Nat
  | .await _ => Option PublishedFile

variable {received : String → Bytes}

/-- The path of the content that the worker publishes. -/
def Worker.target (w : Worker received) : String := relativePathForHash w.upload.sha256

namespace Outer

/-- The worker `n` is this far. -/
def progress (e : Outer received) (n : Nat) (w : Worker received) (p : Progress) :
    Outer received :=
  { e with workers := e.workers.set n { w with progress := p } }

/-- Without the temporary file. -/
def discard (e : Outer received) (path : String) : Outer received :=
  { e with temporary := Function.update e.temporary path false }

/-- The steps of `_publish_sync`, and what else happens to the temporary files. -/
inductive Drift : Outer received → Outer received → Prop
  | found {e : Outer received} {n : Nat} {w : Worker received} : e.workers[n]? = some w → w.progress = .looking →
      Text.isSha256 w.upload.sha256 = true → (e.files w.target).isSome = true →
      Drift e ((e.discard w.upload.temporaryPath).progress n w (.done (some ⟨w.target, false⟩)))
  | clear {e : Outer received} {n : Nat} {w : Worker received} : e.workers[n]? = some w → w.progress = .looking →
      Text.isSha256 w.upload.sha256 = true → e.files w.target = none →
      Drift e (e.progress n w .clear)
  | rename {e : Outer received} {n : Nat} {w : Worker received} : e.workers[n]? = some w → w.progress = .clear →
      e.temporary w.upload.temporaryPath = true →
      Drift e ({ e.discard w.upload.temporaryPath with
        files := Function.update e.files w.target
          (some (received w.upload.temporaryPath)) }.progress n w .renamed)
  | finish {e : Outer received} {n : Nat} {w : Worker received} : e.workers[n]? = some w → w.progress = .renamed →
      Drift e (e.progress n w (.done (some ⟨w.target, true⟩)))
  | fail {e : Outer received} {n : Nat} {w : Worker received} : e.workers[n]? = some w → (∀ published, w.progress ≠ .done published) →
      Drift e (e.progress n w (.done none))
  | receive {e : Outer received} {path : String} : Drift e { e with temporary := Function.update e.temporary path true }
  | discard {e : Outer received} {path : String} : Drift e (e.discard path)

/-- What an `Ask` is answered, and what it leaves. -/
def Call : (x : Ask received) → Outer received → x.Answer → Outer received → Prop
  | .nextval s, e, (n : Nat), e' =>
    n = e.last s + 1 ∧ e' = { e with last := Function.update e.last s (e.last s + 1) }
  | .publish upload, e, (n : Nat), e' =>
    n = e.workers.length ∧ e' = { e with workers := e.workers ++ [⟨upload, .looking⟩] }
  | .await n, e, (published : Option PublishedFile), e' =>
    (∃ w, e.workers[n]? = some w ∧ w.progress = .done published) ∧ e' = e

end Outer

/-- The outside of the upload transactions. -/
def outer (received : String → Bytes) :
    Outside (X := Ask received) Ask.Answer (Outer received) where
  call := Outer.Call
  drift := Outer.Drift

/-! ## 3. Files hold what their names say -/

/-- Every file holds content of the digest that names it, and a worker that published points at
a file. -/
structure Outer.Named (e : Outer received) : Prop where
  files : ∀ path content, e.files path = some content →
    path = relativePathForHash (hexdigest content) ∧ Text.isSha256 (hexdigest content) = true
  hex : ∀ w ∈ e.workers, w.progress ≠ .looking → w.progress ≠ .done none →
    Text.isSha256 w.upload.sha256 = true
  renamed : ∀ w ∈ e.workers, w.progress = .renamed → (e.files w.target).isSome = true
  published : ∀ w ∈ e.workers, ∀ p, w.progress = .done (some p) →
    p.storagePath = w.target ∧ (e.files w.target).isSome = true

/-- Files stay, and workers keep their uploads. -/
structure Outer.Grows (e e' : Outer received) : Prop where
  files : ∀ path, (e.files path).isSome = true → (e'.files path).isSome = true
  workers : ∀ (n : Nat) (w : Worker received), e.workers[n]? = some w →
    ∃ w', e'.workers[n]? = some w' ∧ w'.upload = w.upload

namespace Outer

theorem Grows.refl (e : Outer received) : e.Grows e :=
  ⟨fun _ h => h, fun _ w h => ⟨w, h, rfl⟩⟩

theorem Grows.trans {e e' e'' : Outer received} (h : e.Grows e') (h' : e'.Grows e'') :
    e.Grows e'' where
  files := fun path hpath => h'.files path (h.files path hpath)
  workers := by
    intro n w hw
    obtain ⟨w', hw', hsame⟩ := h.workers n w hw
    obtain ⟨w'', hw'', hsame'⟩ := h'.workers n w' hw'
    exact ⟨w'', hw'', hsame'.trans hsame⟩

/-- A worker that gets further leaves the other workers, and keeps its upload. -/
theorem progress_workers {e : Outer received} {n : Nat} {w : Worker received} {p : Progress}
    (hw : e.workers[n]? = some w) (k : Nat) (v : Worker received)
    (hv : e.workers[k]? = some v) :
    ∃ v', (e.progress n w p).workers[k]? = some v' ∧ v'.upload = v.upload := by
  by_cases hk : k = n
  · subst hk
    obtain rfl : w = v := Option.some.inj (hw.symm.trans hv)
    obtain ⟨hlt, -⟩ := List.getElem?_eq_some_iff.mp hw
    exact ⟨⟨w.upload, p⟩, by simp [progress, hlt], rfl⟩
  · exact ⟨v, by simp [progress, List.getElem?_set_ne (Ne.symm hk), hv], rfl⟩

theorem mem_progress {e : Outer received} {n : Nat} {w v : Worker received} {p : Progress}
    (hv : v ∈ (e.progress n w p).workers) : v ∈ e.workers ∨ v = ⟨w.upload, p⟩ := by
  exact List.mem_or_eq_of_mem_set hv

/-- A worker gets further, in a storage whose files only grew. -/
theorem Grows.progress {e e' : Outer received} {n : Nat} {w : Worker received} {p : Progress}
    (hw : e.workers[n]? = some w) (hworkers : e'.workers = e.workers)
    (hfiles : ∀ path, (e.files path).isSome = true → (e'.files path).isSome = true) :
    e.Grows (e'.progress n w p) where
  files := hfiles
  workers := by
    intro k v hv
    rw [← hworkers] at hw hv
    exact progress_workers hw k v hv

theorem grows_of_drift {e e' : Outer received} (h : Drift e e') : e.Grows e' := by
  cases h with
  | found hw _ _ _ => exact Grows.progress hw rfl fun _ h => h
  | clear hw _ _ _ => exact Grows.progress hw rfl fun _ h => h
  | @rename n w hw _ _ =>
    refine Grows.progress hw rfl fun path hpath => ?_
    by_cases ht : path = w.target
    · simp [ht]
    · simpa [Function.update_of_ne ht] using hpath
  | finish hw _ => exact Grows.progress hw rfl fun _ h => h
  | fail hw _ => exact Grows.progress hw rfl fun _ h => h
  | receive => exact ⟨fun _ h => h, fun _ w h => ⟨w, h, rfl⟩⟩
  | discard => exact ⟨fun _ h => h, fun _ w h => ⟨w, h, rfl⟩⟩

theorem grows_of_call {x : Ask received} {e e' : Outer received} {a : x.Answer}
    (h : Call x e a e') : e.Grows e' := by
  cases x with
  | nextval s =>
    obtain ⟨-, rfl⟩ := h
    exact ⟨fun _ h => h, fun _ w h => ⟨w, h, rfl⟩⟩
  | publish upload =>
    obtain ⟨-, rfl⟩ := h
    refine ⟨fun _ h => h, fun n w hw => ⟨w, ?_, rfl⟩⟩
    rw [List.getElem?_append_left (List.getElem?_eq_some_iff.mp hw).1]
    exact hw
  | await n =>
    obtain ⟨-, rfl⟩ := h
    exact Grows.refl _

/-- What a worker that got further has to show. -/
theorem Named.progress {e e' : Outer received} (h : e.Named) {n : Nat} {w : Worker received}
    {p : Progress} (hworkers : e'.workers = e.workers)
    (hgrows : ∀ path, (e.files path).isSome = true → (e'.files path).isSome = true)
    (hfiles : ∀ path content, e'.files path = some content →
      path = relativePathForHash (hexdigest content) ∧ Text.isSha256 (hexdigest content) = true)
    (hhex : p ≠ .looking → p ≠ .done none → Text.isSha256 w.upload.sha256 = true)
    (hrenamed : p = .renamed → (e'.files w.target).isSome = true)
    (hpublished : ∀ file, p = .done (some file) →
      file.storagePath = w.target ∧ (e'.files w.target).isSome = true) :
    (e'.progress n w p).Named := by
  have hmem : ∀ v ∈ (e'.progress n w p).workers, v ∈ e.workers ∨ v = ⟨w.upload, p⟩ := by
    intro v hv
    rw [← hworkers]
    exact mem_progress hv
  refine ⟨hfiles, ?_, ?_, ?_⟩
  · intro v hv
    rcases hmem v hv with hv | rfl
    · exact h.hex v hv
    · exact hhex
  · intro v hv hr
    rcases hmem v hv with hv | rfl
    · exact hgrows _ (h.renamed v hv hr)
    · exact hrenamed hr
  · intro v hv file hdone
    rcases hmem v hv with hv | rfl
    · obtain ⟨hpath, hfile⟩ := h.published v hv file hdone
      exact ⟨hpath, hgrows _ hfile⟩
    · exact hpublished file hdone

theorem Named.drift {e e' : Outer received} (h : e.Named) (hdrift : Drift e e') : e'.Named := by
  cases hdrift with
  | found hw hlooking hhex hfile =>
    refine h.progress rfl (fun _ h => h) h.files (fun _ _ => hhex) (by simp) ?_
    intro file heq
    obtain rfl := Option.some.inj (Progress.done.inj heq)
    exact ⟨rfl, hfile⟩
  | clear hw hlooking hhex hnone =>
    exact h.progress rfl (fun _ h => h) h.files (fun _ _ => hhex) (by simp) (by simp)
  | @rename n w hw hclear htemporary =>
    have hmem : w ∈ e.workers := List.mem_of_getElem? hw
    have hhex := h.hex w hmem (by simp [hclear]) (by simp [hclear])
    refine h.progress rfl ?_ ?_ (fun _ _ => hhex) (fun _ => by simp) (by simp)
    · intro path hpath
      by_cases ht : path = w.target
      · simp [ht]
      · simpa [Function.update_of_ne ht] using hpath
    · intro path content hcontent
      by_cases ht : path = w.target
      · subst ht
        obtain rfl : received w.upload.temporaryPath = content := by simpa using hcontent
        rw [← w.upload.hashed]
        exact ⟨rfl, hhex⟩
      · exact h.files path content (by simpa [Function.update_of_ne ht] using hcontent)
  | @finish n w hw hrenamed =>
    have hmem : w ∈ e.workers := List.mem_of_getElem? hw
    refine h.progress rfl (fun _ h => h) h.files
      (fun _ _ => h.hex w hmem (by simp [hrenamed]) (by simp [hrenamed])) (by simp) ?_
    intro file heq
    obtain rfl := Option.some.inj (Progress.done.inj heq)
    exact ⟨rfl, h.renamed w hmem hrenamed⟩
  | fail hw _ => exact h.progress rfl (fun _ h => h) h.files (by simp) (by simp) (by simp)
  | receive => exact ⟨h.files, h.hex, h.renamed, h.published⟩
  | discard => exact ⟨h.files, h.hex, h.renamed, h.published⟩

theorem Named.call {x : Ask received} {e e' : Outer received} {a : x.Answer} (h : e.Named)
    (hcall : Call x e a e') : e'.Named := by
  cases x with
  | nextval s =>
    obtain ⟨-, rfl⟩ := hcall
    exact ⟨h.files, h.hex, h.renamed, h.published⟩
  | publish upload =>
    obtain ⟨-, rfl⟩ := hcall
    refine ⟨h.files, ?_, ?_, ?_⟩ <;>
    · intro w hw
      rcases List.mem_append.mp hw with hw | hw
      · first | exact h.hex w hw | exact h.renamed w hw | exact h.published w hw
      · rw [List.mem_singleton.mp hw]
        simp
  | await n =>
    obtain ⟨-, rfl⟩ := hcall
    exact h

end Outer

end ProductPdfQr.Version
