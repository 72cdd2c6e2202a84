/-
# The QR images and the products

An image of a product's QR code is kept under the product's code and served from there for as
long as it can be opened.  Neither the name of the file nor the look at it mentions the token
that the image encodes, and a restore takes the products back without taking away the images of
those made since.  So a code that is created again, with another token, finds the image of the
first one.

`served_right_iff` says that this is all: along any run every product is served its own token
exactly when no product is created, and none comes back in a restore, under the image of
another token.
-/
import ProductPdfQr.Version.Service

namespace ProductPdfQr.QRCode

open Version (normalizeProductCode normalizeProductName Failure)

/-! ## 1. Images -/

/-- What draws an image, what opens one, and what a scanner reads in it. -/
class Drawing (Image : Type) where
  draw : (payload label : String) → Option Image
  opens : Image → Bool
  reads : Image → Option String

/-- What is drawn reads as its payload. -/
def Drawing.Faithful (Image : Type) [Drawing Image] : Prop :=
  ∀ (payload label : String) (image : Image),
    Drawing.draw payload label = some image → Drawing.reads image = some payload

variable {Image : Type} [Drawing Image]

/-- The files under `qrcodes`, each under the code that it is named by. -/
abbrev Cache (Image : Type) := String → Option Image

structure Product where
  code : String
  name : Option String
  publicToken : String
  deriving DecidableEq, Repr

/-- `QRCodeGenerationError`. -/
structure GenerationError where
  message : String
  deriving DecidableEq, Repr

/-- `public_url`. -/
def publicUrl (publicBaseUrl publicToken : String) : String :=
  publicBaseUrl ++ "/p/" ++ publicToken

/-- `^[A-Z0-9_-]{1,64}$`. -/
def isNormalizedProductCode (code : String) : Bool :=
  0 < code.length && code.length ≤ 64 &&
    code.toList.all fun c => ('A' ≤ c && c ≤ 'Z') || c.isDigit || c = '_' || c = '-'

/-- `generate`. -/
def generate (publicBaseUrl code publicToken productName : String) :
    Except GenerationError Image :=
  if !isNormalizedProductCode code then .error ⟨"产品编码不符合二维码文件名契约。"⟩
  else
    let normalizedName := Text.strip productName
    if normalizedName = "" || 120 < normalizedName.length then
      .error ⟨"产品名称不符合二维码标签契约。"⟩
    else match Drawing.draw (publicUrl publicBaseUrl publicToken) normalizedName with
      | some image => .ok image
      | none => .error ⟨"二维码生成失败。"⟩

/-- `_read_current_cache`. -/
def readCurrentCache (cache : Cache Image) (code : String) : Option Image :=
  (cache code).filter Drawing.opens

/-- `get_or_generate`.  `written` says whether the write of the file succeeds. -/
def getOrGenerate (publicBaseUrl : String) (cache : Cache Image)
    (code publicToken productName : String) (written : Bool) :
    Except GenerationError (Image × Cache Image) :=
  match readCurrentCache cache code with
  | some image => .ok (image, cache)
  | none => do
    let image ← generate publicBaseUrl code publicToken productName
    -- Under the lock the file is looked for again.
    match readCurrentCache cache code with
    | some image => pure (image, cache)
    | none => pure (image, if written then Function.update cache code (some image) else cache)

/-! ## 2. The products, the backups and the restores -/

/-- What a backup holds of both. -/
structure Snapshot (Image : Type) where
  rows : List Product
  files : Cache Image

structure State (Image : Type) where
  rows : List Product
  cache : Cache Image
  backups : List (String × Snapshot Image)

/-- `create_product`: the row of the first token drawn that is free, if the code is. -/
def createdProduct (rows : List Product) (rawCode rawName : String) (tokens : List String) :
    Except Failure Product := do
  let code ← normalizeProductCode rawCode
  let name ← normalizeProductName rawName
  if rows.any fun p => p.code = code then
    throw (.app ⟨"duplicate_product_code", "产品编码已存在。", 409⟩)
  match (tokens.take 5).find? fun token => !(rows.any fun p => p.publicToken = token) with
  | some token => pure ⟨code, some name, token⟩
  | none => throw (.app ⟨"token_generation_failed", "无法生成公开标识, 请重试。", 503⟩)

/-- The files of the manifest are written, the others stay. -/
def restoredFiles (files cache : Cache Image) : Cache Image := fun code =>
  (files code).or (cache code)

inductive Step where
  | create (rawCode rawName : String) (tokens : List String)
  | request (code : String) (written : Bool)
  | backup (id : String)
  | restore (id : String)
  deriving DecidableEq, Repr

/-- The image of a product, as the detail page and the download ask for it. -/
def serve (publicBaseUrl : String) (cache : Cache Image) (p : Product) (written : Bool) :
    Except GenerationError (Image × Cache Image) :=
  getOrGenerate publicBaseUrl cache p.code p.publicToken (p.name.getD p.code) written

def step (publicBaseUrl : String) (s : State Image) : Step → State Image
  | .create rawCode rawName tokens =>
    match createdProduct s.rows rawCode rawName tokens with
    | .ok p => { s with rows := p :: s.rows }
    | _ => s
  | .request code written =>
    match s.rows.find? fun p => p.code = code with
    | none => s
    | some p =>
      match serve publicBaseUrl s.cache p written with
      | .ok (_, cache) => { s with cache }
      | .error _ => s
  | .backup id => { s with backups := (id, ⟨s.rows, s.cache⟩) :: s.backups }
  | .restore id =>
    match s.backups.lookup id with
    | none => s
    | some snapshot =>
      { s with rows := snapshot.rows, cache := restoredFiles snapshot.files s.cache }

/-! ## 3. Right images -/

section
variable (publicBaseUrl : String)

/-- What lies under the product's code either does not open or is the product's own. -/
def Agrees (cache : Cache Image) (p : Product) : Prop :=
  ∀ image, readCurrentCache cache p.code = some image →
    Drawing.reads image = some (publicUrl publicBaseUrl p.publicToken)

def Fresh (rows : List Product) (cache : Cache Image) : Prop :=
  ∀ p ∈ rows, Agrees publicBaseUrl cache p

/-- Whichever product is asked for, the image served encodes its token. -/
def ServesRight (s : State Image) : Prop :=
  ∀ p ∈ s.rows, ∀ written image cache,
    serve publicBaseUrl s.cache p written = .ok (image, cache) →
      Drawing.reads image = some (publicUrl publicBaseUrl p.publicToken)

/-- No product is created, and none comes back, under the image of another token. -/
def Safe (s : State Image) : Step → Prop
  | .create rawCode rawName tokens => ∀ p,
      createdProduct s.rows rawCode rawName tokens = .ok p → Agrees publicBaseUrl s.cache p
  | .restore id => ∀ snapshot, s.backups.lookup id = some snapshot →
      ∀ p ∈ snapshot.rows, snapshot.files p.code = none → Agrees publicBaseUrl s.cache p
  | _ => True

def trace (s : State Image) : List Step → List (State Image)
  | [] => [s]
  | x :: steps => s :: trace (step publicBaseUrl s x) steps

def AllSafe (s : State Image) : List Step → Prop
  | [] => True
  | x :: steps => Safe publicBaseUrl s x ∧ AllSafe (step publicBaseUrl s x) steps

/-- Codes name one product, and a backup was taken of a state that served right. -/
structure Proper (s : State Image) : Prop where
  codes : (s.rows.map (·.code)).Nodup
  backupCodes : ∀ b ∈ s.backups, (b.2.rows.map (·.code)).Nodup
  backupFresh : ∀ b ∈ s.backups, Fresh publicBaseUrl b.2.rows b.2.files

end

def State.empty : State Image := ⟨[], fun _ => none, []⟩

variable {publicBaseUrl : String}

theorem readCurrentCache_eq_some {cache : Cache Image} {code : String} {image : Image} :
    readCurrentCache cache code = some image ↔ cache code = some image ∧ Drawing.opens image := by
  rw [readCurrentCache, Option.filter_eq_some_iff]

/-- A new image reads as the link of the token that it was asked for. -/
theorem reads_generate (faithful : Drawing.Faithful Image) {code token name : String}
    {image : Image} (made : generate publicBaseUrl code token name = .ok image) :
    Drawing.reads image = some (publicUrl publicBaseUrl token) := by
  simp only [generate] at made
  split at made
  · cases made
  split at made
  · cases made
  split at made
  · rename_i drawn
    cases made
    exact faithful _ _ _ drawn
  · cases made

/-- What is served is what was there, or else a new image. -/
theorem getOrGenerate_ok {cache cache' : Cache Image} {code token name : String}
    {written : Bool} {image : Image}
    (served : getOrGenerate publicBaseUrl cache code token name written = .ok (image, cache')) :
    (readCurrentCache cache code = some image ∧ cache' = cache) ∨
      (readCurrentCache cache code = none ∧
        generate publicBaseUrl code token name = .ok image ∧
        cache' = if written then Function.update cache code (some image) else cache) := by
  unfold getOrGenerate at served
  cases seen : readCurrentCache cache code with
  | some there =>
    rw [seen] at served
    cases served
    exact .inl ⟨rfl, rfl⟩
  | none =>
    rw [seen] at served
    cases made : (generate publicBaseUrl code token name : Except GenerationError Image) with
    | error e =>
      rw [made] at served
      cases served
    | ok fresh =>
      rw [made] at served
      cases served
      exact .inr ⟨rfl, rfl, rfl⟩

theorem servesRight_iff (faithful : Drawing.Faithful Image) {s : State Image} :
    ServesRight publicBaseUrl s ↔ Fresh publicBaseUrl s.rows s.cache := by
  constructor
  · intro right p mem image seen
    refine right p mem true image s.cache ?_
    simp only [serve, getOrGenerate, seen]
  · intro fresh p mem written image cache served
    rcases getOrGenerate_ok served with ⟨seen, -⟩ | ⟨-, made, -⟩
    · exact fresh p mem image seen
    · exact reads_generate faithful made

/-! ## 4. One step -/

theorem createdProduct_ok {rows : List Product} {rawCode rawName : String}
    {tokens : List String} {p : Product}
    (created : createdProduct rows rawCode rawName tokens = .ok p) :
    p.code ∉ rows.map (·.code) := by
  simp only [createdProduct] at created
  cases normal : normalizeProductCode rawCode with
  | error e => rw [normal] at created; cases created
  | ok code =>
    cases named : normalizeProductName rawName with
    | error e => rw [normal, named] at created; cases created
    | ok name =>
      rw [normal, named] at created
      by_cases taken : rows.any fun p => p.code = code
      · simp only [bind, Except.bind, taken, if_true] at created
        cases created
      · simp only [bind, Except.bind, taken, Bool.false_eq_true, if_false, pure,
          Except.pure] at created
        split at created
        · cases created
          simpa using taken
        · cases created

/-- An image that is written for a product is of no other. -/
theorem agrees_update {cache : Cache Image} {p q : Product} {image : Image}
    (own : Drawing.reads image = some (publicUrl publicBaseUrl p.publicToken))
    (same : q.code = p.code → q = p) (agrees : Agrees publicBaseUrl cache q) :
    Agrees publicBaseUrl (Function.update cache p.code (some image)) q := by
  intro shown seen
  rw [readCurrentCache_eq_some] at seen
  by_cases code : q.code = p.code
  · rw [code, Function.update_self] at seen
    cases seen.1
    rw [same code]
    exact own
  · rw [Function.update_of_ne code] at seen
    exact agrees shown (readCurrentCache_eq_some.mpr seen)

theorem eq_of_code {rows : List Product} (codes : (rows.map (·.code)).Nodup) {p q : Product}
    (left : p ∈ rows) (right : q ∈ rows) (same : q.code = p.code) : q = p :=
  List.inj_on_of_nodup_map codes right left same

/-- The files of a backup stand over those that were there. -/
theorem agrees_restoredFiles {files cache : Cache Image} {p : Product}
    (own : Agrees publicBaseUrl files p) :
    Agrees publicBaseUrl (restoredFiles files cache) p ↔
      (files p.code = none → Agrees publicBaseUrl cache p) := by
  cases kept : files p.code with
  | none => simp [Agrees, readCurrentCache, restoredFiles, kept]
  | some image =>
    simp only [reduceCtorEq, false_implies, iff_true]
    intro shown seen
    refine own shown ?_
    rw [readCurrentCache_eq_some] at seen ⊢
    simpa [restoredFiles, kept] using seen

omit [Drawing Image] in
theorem mem_of_lookup {backups : List (String × Snapshot Image)} {id : String}
    {snapshot : Snapshot Image} (found : backups.lookup id = some snapshot) :
    (id, snapshot) ∈ backups := by
  obtain ⟨before, after, rfl, -⟩ := List.lookup_eq_some_iff.mp found
  simp

/-- A step leaves the images right exactly when it is safe. -/
theorem fresh_step (faithful : Drawing.Faithful Image) {s : State Image}
    (proper : Proper publicBaseUrl s) (fresh : Fresh publicBaseUrl s.rows s.cache) (x : Step) :
    Fresh publicBaseUrl (step publicBaseUrl s x).rows (step publicBaseUrl s x).cache ↔
      Safe publicBaseUrl s x := by
  cases x with
  | create rawCode rawName tokens =>
    simp only [step, Safe]
    split
    · rename_i p created
      constructor
      · intro after q same
        rw [created] at same
        cases same
        exact after p List.mem_cons_self
      · intro safe q mem
        rcases List.mem_cons.mp mem with rfl | old
        · exact safe q created
        · exact fresh q old
    · rename_i refused
      exact ⟨fun _ p created => absurd created (refused p), fun _ => fresh⟩
  | request code written =>
    simp only [step, Safe, iff_true]
    split
    · exact fresh
    · rename_i p found
      have mem := List.mem_of_find?_eq_some found
      split
      · rename_i image cache served
        rcases getOrGenerate_ok served with ⟨-, same⟩ | ⟨-, made, same⟩
        · rw [same]
          exact fresh
        · rw [same]
          cases written with
          | false => exact fresh
          | true =>
            intro q there
            exact agrees_update (reads_generate faithful made)
              (eq_of_code proper.codes mem there) (fresh q there)
      · exact fresh
  | backup id => exact ⟨fun _ => trivial, fun _ => fresh⟩
  | restore id =>
    simp only [step, Safe]
    split
    · rename_i none
      exact ⟨fun _ snapshot found => absurd found (by simp [none]), fun _ => fresh⟩
    · rename_i snapshot found
      have own := proper.backupFresh _ (mem_of_lookup found)
      constructor
      · intro after other same p mem
        rw [found] at same
        cases same
        exact (agrees_restoredFiles (own p mem)).mp (after p mem)
      · intro safe p mem
        exact (agrees_restoredFiles (own p mem)).mpr (safe snapshot found p mem)

/-- Codes stay apart, and so do those of the backups, which are taken while all is right. -/
theorem Proper.step {s : State Image} (proper : Proper publicBaseUrl s)
    (fresh : Fresh publicBaseUrl s.rows s.cache) (x : Step) :
    Proper publicBaseUrl (step publicBaseUrl s x) := by
  cases x with
  | create rawCode rawName tokens =>
    simp only [QRCode.step]
    split
    · rename_i p created
      refine { proper with codes := ?_ }
      exact List.nodup_cons.mpr ⟨createdProduct_ok created, proper.codes⟩
    · exact proper
  | request code written =>
    simp only [QRCode.step]
    split
    · exact proper
    split
    · exact { proper with }
    · exact proper
  | backup id =>
    exact {
      codes := proper.codes
      backupCodes := List.forall_mem_cons.mpr ⟨proper.codes, proper.backupCodes⟩
      backupFresh := List.forall_mem_cons.mpr ⟨fresh, proper.backupFresh⟩ }
  | restore id =>
    simp only [QRCode.step]
    split
    · exact proper
    · rename_i snapshot found
      refine { proper with codes := ?_ }
      exact proper.backupCodes _ (mem_of_lookup found)

/-! ## 5. Whole runs -/

theorem mem_trace_self (s : State Image) (steps : List Step) :
    s ∈ trace publicBaseUrl s steps := by
  cases steps <;> simp [trace]

theorem last_mem_trace (s : State Image) (steps : List Step) :
    steps.foldl (step publicBaseUrl) s ∈ trace publicBaseUrl s steps := by
  induction steps generalizing s with
  | nil => exact List.mem_cons_self
  | cons x steps ih => exact List.mem_cons_of_mem _ (ih _)

/-- From a state in which all is right. -/
theorem fresh_trace (faithful : Drawing.Faithful Image) {s : State Image}
    (proper : Proper publicBaseUrl s) (fresh : Fresh publicBaseUrl s.rows s.cache)
    (steps : List Step) :
    (∀ t ∈ trace publicBaseUrl s steps, Fresh publicBaseUrl t.rows t.cache) ↔
      AllSafe publicBaseUrl s steps := by
  induction steps generalizing s with
  | nil => simpa [trace, AllSafe] using fresh
  | cons x steps ih =>
    have one := fresh_step faithful proper fresh x
    simp only [trace, AllSafe, List.forall_mem_cons]
    constructor
    · rintro ⟨-, rest⟩
      have next := rest _ (mem_trace_self _ _)
      exact ⟨one.mp next, (ih (proper.step fresh x) next).mp rest⟩
    · rintro ⟨safe, rest⟩
      have next := one.mpr safe
      exact ⟨fresh, (ih (proper.step fresh x) next).mpr rest⟩

theorem proper_empty : Proper publicBaseUrl (State.empty : State Image) :=
  ⟨List.nodup_nil, by simp [State.empty], by simp [State.empty]⟩

/-- All along a run every product is served its own token exactly when each step is safe: when
a product is created, or comes back in a restore that holds no image for it, whatever image
lies under its code does not open or encodes its token. -/
theorem served_right_iff (faithful : Drawing.Faithful Image) (publicBaseUrl : String)
    (steps : List Step) :
    (∀ s ∈ trace publicBaseUrl (State.empty : State Image) steps, ServesRight publicBaseUrl s) ↔
      AllSafe publicBaseUrl (State.empty : State Image) steps := by
  simp only [servesRight_iff faithful]
  exact fresh_trace faithful proper_empty (by simp [Fresh, State.empty]) steps

/-! ## 6. A code that is created again -/

/-- An image that is no more than what a scanner reads in it. -/
instance : Drawing String where
  draw payload _ := some payload
  opens _ := true
  reads := some

theorem faithful_string : Drawing.Faithful String := by
  intro payload label image drawn
  exact drawn.symm

/-- A restore takes the product away and leaves its image to the next of that code. -/
def createdAgain : List Step := [
  .backup "b0",
  .create "a001" "阀门" ["first"],
  .request "A001" true,
  .restore "b0",
  .create "a001" "阀门" ["second"]]

/-- The image of the second product takes a scanner to the first. -/
theorem created_again_served_wrong :
    ¬ ∀ steps, ∀ s ∈ trace "https://qr.example" (State.empty : State String) steps,
      ServesRight "https://qr.example" s := by
  intro right
  have last := right createdAgain _ (last_mem_trace _ _)
  have wrong := last ⟨"A001", some "阀门", "second"⟩ (by decide) false
    "https://qr.example/p/first" _ rfl
  revert wrong
  decide

theorem served_right_from_one : ServesRight "https://qr.example"
    (step "https://qr.example" (State.empty : State String) (.create "a001" "阀门" ["first"])) :=
  (served_right_iff faithful_string "https://qr.example" [.create "a001" "阀门" ["first"]]).mpr
    ⟨fun p _ image seen => by simp [readCurrentCache, State.empty] at seen, trivial⟩ _
    (by simp [trace])

end ProductPdfQr.QRCode
