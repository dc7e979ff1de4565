import Ekumidayomi.Storage.Types
import Ekumidayomi.Lib.Run
import Mathlib.Logic.Function.Basic

/-!
# The object storage in memory

`storage/memory.py`, with any number of callers. `put` gives way at every chunk, so chunks of several
uploads, the reads and the deletions come in any order; `Serves` is the step relation, and between
two chunks an upload is the local variables of its call. What the storage holds is what the labels of
the run say (`objects_exact`): under each key the object of the last upload completed there, if no
deletion came after it, and its bytes are the chunks of that upload, in order, which have the length
and the digest it declared. How the bytes were cut into chunks never matters (`uploads_decided`).
-/

namespace Ekumidayomi.Storage

open Unicode

/-- The variables of a `put` between two chunks; `digested` is what `hashlib.sha256` was fed. -/
structure Upload where
  key : ObjectKey
  metadata : UploadMetadata
  content : Bytes
  digested : Bytes

def Upload.start (key : ObjectKey) (metadata : UploadMetadata) : Upload := ⟨key, metadata, [], []⟩

/-- The body of the loop over the chunks. -/
def Upload.receive (upload : Upload) (chunk : Bytes) : Except StorageError Upload :=
  let content := upload.content ++ chunk
  let digested := upload.digested ++ chunk
  if (content.length : Int) > upload.metadata.sizeBytes then .error .exceeds
  else .ok { upload with content, digested }

/-- `MemoryObjectStorage`; `_objects` maps the text of a key to its bytes and its description. -/
structure MemoryObjectStorage where
  objects : Text → Option (Bytes × StoredObject)

section
variable (sha256 : Bytes → Bytes)

/-- What `put` does after the last chunk. -/
def MemoryObjectStorage.complete (storage : MemoryObjectStorage) (upload : Upload) (now : Time) :
    Except StorageError (StoredObject × MemoryObjectStorage) :=
  if (upload.content.length : Int) ≠ upload.metadata.sizeBytes ∨
      hexdigest (sha256 upload.digested) ≠ upload.metadata.sha256 then .error .mismatch
  else
    let stored := { key := upload.key, metadata := upload.metadata, storedAt := now }
    .ok (stored, { storage with
      objects := Function.update storage.objects upload.key.value (some (upload.content, stored)) })

end

def MemoryObjectStorage.head (storage : MemoryObjectStorage) (key : ObjectKey) :
    Option StoredObject := (storage.objects key.value).map (·.2)

def urlFront : List Char := "https://storage.test/".toList

def urlBack : List Char := "?signature=test-only".toList

/-- `f"https://storage.test/{quote(key.value)}?signature=test-only"`. -/
def signedUrl (path : List Char) : String := String.ofList (urlFront ++ (path ++ urlBack))

def MemoryObjectStorage.signRead (storage : MemoryObjectStorage) (key : ObjectKey) (expiresIn : Int)
    (now : Time) : Except StorageError SignedAccess :=
  if (storage.objects key.value).isNone then .error (.missing key.value)
  else if ¬ (seconds 1 ≤ expiresIn ∧ expiresIn ≤ seconds (15 * 60)) then .error .expiry
  else match quote key.value with
    | none => .error .encoding
    | some path => SignedAccess.create (signedUrl path) (now + expiresIn)

def MemoryObjectStorage.delete (storage : MemoryObjectStorage) (key : ObjectKey) :
    MemoryObjectStorage :=
  { storage with objects := Function.update storage.objects key.value none }

/-! ## Callers -/

/-- Where a `put` stands: not called yet, between two chunks, or over. -/
inductive Progress
  | idle
  | running (upload : Upload)
  | over

/-- What happens next: a `put` is called, its iterator gives a chunk, ends, or raises (or the task
is cancelled); or one of the calls without a loop. -/
inductive Call
  | put (task : Nat) (key : ObjectKey) (metadata : UploadMetadata)
  | chunk (task : Nat) (bytes : Bytes)
  | finish (task : Nat) (now : Time)
  | lose (task : Nat)
  | head (key : ObjectKey)
  | signRead (key : ObjectKey) (expiresIn : Int) (now : Time)
  | delete (key : ObjectKey)

inductive Answer
  | awaits
  | stored (stored : StoredObject)
  | refused (error : StorageError)
  | found (stored : Option StoredObject)
  | signed (access : SignedAccess)
  | done

abbrev Label := Call × Answer

structure State where
  storage : MemoryObjectStorage
  puts : Nat → Progress

/-- Nothing is stored and nobody has called. -/
def State.fresh : State := ⟨⟨fun _ => none⟩, fun _ => .idle⟩

def State.set (s : State) (task : Nat) (progress : Progress) : State :=
  { s with puts := Function.update s.puts task progress }

section
variable (sha256 : Bytes → Bytes)

inductive Serves (s : State) : Label → State → Prop
  | put {task key metadata} (h : s.puts task = .idle) :
      Serves s (.put task key metadata, .awaits) (s.set task (.running (.start key metadata)))
  | chunk {task bytes upload upload'} (h : s.puts task = .running upload)
      (hreceive : upload.receive bytes = .ok upload') :
      Serves s (.chunk task bytes, .awaits) (s.set task (.running upload'))
  | overlong {task bytes upload error} (h : s.puts task = .running upload)
      (hreceive : upload.receive bytes = .error error) :
      Serves s (.chunk task bytes, .refused error) (s.set task .over)
  | finish {task now upload stored storage} (h : s.puts task = .running upload)
      (hcomplete : s.storage.complete sha256 upload now = .ok (stored, storage)) :
      Serves s (.finish task now, .stored stored) { s.set task .over with storage }
  | mismatch {task now upload error} (h : s.puts task = .running upload)
      (hcomplete : s.storage.complete sha256 upload now = .error error) :
      Serves s (.finish task now, .refused error) (s.set task .over)
  | lose {task upload} (h : s.puts task = .running upload) :
      Serves s (.lose task, .done) (s.set task .over)
  | head {key} : Serves s (.head key, .found (s.storage.head key)) s
  | signed {key expiresIn now access} (h : s.storage.signRead key expiresIn now = .ok access) :
      Serves s (.signRead key expiresIn now, .signed access) s
  | unsigned {key expiresIn now error} (h : s.storage.signRead key expiresIn now = .error error) :
      Serves s (.signRead key expiresIn now, .refused error) s
  | delete {key} : Serves s (.delete key, .done) { s with storage := s.storage.delete key }

end

/-! ## What the labels say -/

/-- The bytes that a call brings to an upload. -/
def Call.brings (task : Nat) : Call → Bytes
  | .chunk t bytes => if t = task then bytes else []
  | _ => []

/-- The upload that a call is about. -/
def Call.task : Call → Option Nat
  | .put task _ _ | .chunk task _ | .finish task _ | .lose task => some task
  | .head _ | .signRead _ _ _ | .delete _ => none

/-- The bytes that came for an upload, in order. -/
def delivered (task : Nat) (tr : List Label) : Bytes := tr.flatMap (·.1.brings task)

/-- The upload was called with this key and these declarations. -/
def Opened (task : Nat) (key : ObjectKey) (metadata : UploadMetadata) (tr : List Label) : Prop :=
  (.put task key metadata, .awaits) ∈ tr

/-- The bytes are those that were declared. -/
def Matches (sha256 : Bytes → Bytes) (metadata : UploadMetadata) (bytes : Bytes) : Prop :=
  (bytes.length : Int) = metadata.sizeBytes ∧ hexdigest (sha256 bytes) = metadata.sha256

/-- The step puts something else under the key, or removes what is there. -/
inductive Replaces (key : Text) : Label → Prop
  | stored {task now stored} (h : stored.key.value = key) :
      Replaces key (.finish task now, .stored stored)
  | deleted {k answer} (h : k.value = key) : Replaces key (.delete k, answer)

/-- The object is that of an upload completed under the key, and nothing has replaced it. -/
def Keeps (sha256 : Bytes → Bytes) (tr : List Label) (key : Text) (bytes : Bytes)
    (stored : StoredObject) : Prop :=
  ∃ before task after, tr = before ++ (.finish task stored.storedAt, .stored stored) :: after ∧
    stored.key.value = key ∧ Opened task stored.key stored.metadata before ∧
    bytes = delivered task before ∧ Matches sha256 stored.metadata bytes ∧
    ∀ l ∈ after, ¬ Replaces key l

section
variable {sha256 : Bytes → Bytes} {tr : List Label} {l : Label} {task : Nat} {key : Text}
  {bytes : Bytes} {stored : StoredObject}

theorem delivered_snoc : delivered task (tr ++ [l]) = delivered task tr ++ l.1.brings task := by
  simp [delivered]

/-- A label settles what is kept under a key: the upload it completes is, or what was is still. -/
theorem keeps_snoc : Keeps sha256 (tr ++ [l]) key bytes stored ↔
    (Keeps sha256 tr key bytes stored ∧ ¬ Replaces key l) ∨
      ∃ task, l = (.finish task stored.storedAt, .stored stored) ∧ stored.key.value = key ∧
        Opened task stored.key stored.metadata tr ∧ bytes = delivered task tr ∧
        Matches sha256 stored.metadata bytes := by
  constructor
  · rintro ⟨before, task, after, heq, hkey, hopen, hbytes, hmatch, hafter⟩
    obtain rfl | ⟨after, last, rfl⟩ := List.eq_nil_or_concat' after
    · obtain ⟨rfl, hl⟩ := List.append_inj' heq rfl
      exact .inr ⟨task, (List.cons.inj hl).1, hkey, hopen, hbytes, hmatch⟩
    · rw [← List.cons_append, ← List.append_assoc] at heq
      obtain ⟨rfl, hl⟩ := List.append_inj' heq rfl
      obtain rfl := (List.cons.inj hl).1
      exact .inl ⟨⟨before, task, after, rfl, hkey, hopen, hbytes, hmatch,
        fun k hk => hafter k (List.mem_append_left _ hk)⟩, hafter l (by simp)⟩
  · rintro (⟨⟨before, task, after, rfl, hkey, hopen, hbytes, hmatch, hafter⟩, hl⟩ |
      ⟨task, rfl, hkey, hopen, hbytes, hmatch⟩)
    · refine ⟨before, task, after ++ [l], by simp, hkey, hopen, hbytes, hmatch, fun k hk => ?_⟩
      obtain hk | hk := List.mem_append.1 hk
      · exact hafter k hk
      · rwa [List.mem_singleton.1 hk]
    · exact ⟨tr, task, [], rfl, hkey, hopen, hbytes, hmatch, List.forall_mem_nil _⟩

end

/-! ## The storage and its history -/

/-- A running upload holds what came for it. -/
structure Upload.Fed (task : Nat) (tr : List Label) (upload : Upload) : Prop where
  opened : Opened task upload.key upload.metadata tr
  content : upload.content = delivered task tr
  digested : upload.digested = delivered task tr
  fits : (upload.content.length : Int) ≤ upload.metadata.sizeBytes

/-- The state is what the labels say. -/
structure Told (sha256 : Bytes → Bytes) (tr : List Label) (s : State) : Prop where
  idle : ∀ task, s.puts task = .idle →
    delivered task tr = [] ∧ ∀ key metadata, ¬ Opened task key metadata tr
  running : ∀ task upload, s.puts task = .running upload → upload.Fed task tr
  once : ∀ task key key' metadata metadata', Opened task key metadata tr →
    Opened task key' metadata' tr → key = key' ∧ metadata = metadata'
  objects : ∀ key bytes stored, s.storage.objects key = some (bytes, stored) ↔
    Keeps sha256 tr key bytes stored

section
variable {sha256 : Bytes → Bytes} {tr : List Label} {s s' : State} {l : Label}

theorem told_fresh : Told sha256 [] State.fresh where
  idle _ _ := ⟨rfl, fun _ _ => List.not_mem_nil⟩
  running _ _ h := by cases h
  once _ _ _ _ _ h := by cases h
  objects key bytes stored := by
    refine ⟨by rintro ⟨⟩, ?_⟩
    rintro ⟨before, task, after, heq, -⟩
    simp at heq

/-- What an upload accepts of a chunk. -/
theorem receive_cases (upload : Upload) (bytes : Bytes) :
    upload.receive bytes = .error .exceeds ∧
        upload.metadata.sizeBytes < (upload.content ++ bytes).length ∨
      upload.receive bytes = .ok { upload with
        content := upload.content ++ bytes, digested := upload.digested ++ bytes } ∧
        ((upload.content ++ bytes).length : Int) ≤ upload.metadata.sizeBytes := by
  by_cases h : ((upload.content ++ bytes).length : Int) > upload.metadata.sizeBytes
  · exact .inl ⟨if_pos h, h⟩
  · exact .inr ⟨if_neg h, Int.not_lt.1 h⟩

/-- How an upload ends that got every chunk. -/
theorem complete_cases (sha256 : Bytes → Bytes) {upload : Upload} {task : Nat} (hfed : upload.Fed task tr)
    (storage : MemoryObjectStorage) (now : Time) :
    storage.complete sha256 upload now = .error .mismatch ∧
        ¬ Matches sha256 upload.metadata (delivered task tr) ∨
      storage.complete sha256 upload now = .ok (⟨upload.key, upload.metadata, now⟩,
        ⟨Function.update storage.objects upload.key.value
          (some (delivered task tr, ⟨upload.key, upload.metadata, now⟩))⟩) ∧
        Matches sha256 upload.metadata (delivered task tr) := by
  have hif : ((upload.content.length : Int) ≠ upload.metadata.sizeBytes ∨
      hexdigest (sha256 upload.digested) ≠ upload.metadata.sha256) ↔
      ¬ Matches sha256 upload.metadata (delivered task tr) := by
    rw [hfed.content, hfed.digested, Matches, not_and_or]
  by_cases h : Matches sha256 upload.metadata (delivered task tr)
  · right
    rw [MemoryObjectStorage.complete, if_neg (fun hno => hif.1 hno h), hfed.content]
    exact ⟨rfl, h⟩
  · exact .inl ⟨if_pos (hif.2 h), h⟩

theorem brings_eq_nil {call : Call} {task : Nat} (h : call.task ≠ some task) :
    call.brings task = [] := by
  cases call with
  | chunk t bytes => exact if_neg fun heq => h (congrArg some heq)
  | _ => rfl

theorem opened_snoc {task : Nat} {key : ObjectKey} {metadata : UploadMetadata} :
    Opened task key metadata (tr ++ [l]) ↔
      Opened task key metadata tr ∨ l = (.put task key metadata, .awaits) := by
  rw [Opened, Opened, List.mem_append, List.mem_singleton, eq_comm (a := l)]

/-- A step on one upload leaves what is said of the others. -/
theorem Upload.Fed.other {upload : Upload} {task : Nat} (h : upload.Fed task tr)
    (hl : l.1.task ≠ some task) : upload.Fed task (tr ++ [l]) where
  opened := opened_snoc.2 (.inl h.opened)
  content := by rw [delivered_snoc, brings_eq_nil hl, List.append_nil, h.content]
  digested := by rw [delivered_snoc, brings_eq_nil hl, List.append_nil, h.digested]
  fits := h.fits

/-- What a step must show: the upload it is about, and the objects. -/
theorem Told.next (h : Told sha256 tr s)
    (hother : ∀ task, l.1.task ≠ some task → s'.puts task = s.puts task)
    (hidle : ∀ task, l.1.task = some task → s'.puts task ≠ .idle)
    (hrunning : ∀ task upload, l.1.task = some task → s'.puts task = .running upload →
      upload.Fed task (tr ++ [l]))
    (hput : ∀ task key metadata, l = (.put task key metadata, .awaits) → s.puts task = .idle)
    (hobjects : ∀ key bytes stored, s'.storage.objects key = some (bytes, stored) ↔
      Keeps sha256 (tr ++ [l]) key bytes stored) : Told sha256 (tr ++ [l]) s' where
  idle task htask := by
    by_cases hl : l.1.task = some task
    · exact absurd htask (hidle task hl)
    · rw [hother task hl] at htask
      obtain ⟨hnone, hclosed⟩ := h.idle task htask
      refine ⟨by rw [delivered_snoc, brings_eq_nil hl, hnone]; rfl, fun key metadata hopen => ?_⟩
      obtain hopen | rfl := opened_snoc.1 hopen
      · exact hclosed key metadata hopen
      · exact hl rfl
  running task upload htask := by
    by_cases hl : l.1.task = some task
    · exact hrunning task upload hl htask
    · rw [hother task hl] at htask
      exact (h.running task upload htask).other hl
  once task key key' metadata metadata' hopen hopen' := by
    obtain hopen | rfl := opened_snoc.1 hopen <;> obtain hopen' | heq := opened_snoc.1 hopen'
    · exact h.once task key key' metadata metadata' hopen hopen'
    · exact absurd hopen ((h.idle task (hput task _ _ heq)).2 _ _)
    · exact absurd hopen' ((h.idle task (hput task _ _ rfl)).2 _ _)
    · cases heq
      exact ⟨rfl, rfl⟩
  objects := hobjects

/-- A step that replaces nothing leaves what is kept. -/
theorem Told.unreplaced (h : Told sha256 tr s) (hl : ∀ key, ¬ Replaces key l)
    (key : Text) (bytes : Bytes) (stored : StoredObject) :
    s.storage.objects key = some (bytes, stored) ↔ Keeps sha256 (tr ++ [l]) key bytes stored := by
  rw [h.objects, keeps_snoc, and_iff_left (hl key), or_iff_left]
  rintro ⟨task, rfl, -⟩
  exact hl _ (.stored rfl)

theorem State.set_puts_ne {s : State} {task task' : Nat} {progress : Progress} (h : some task ≠ some task') :
    (s.set task progress).puts task' = s.puts task' :=
  Function.update_of_ne (fun heq => h (congrArg some heq.symm)) _ _

@[simp] theorem State.set_puts_self {s : State} {task : Nat} {progress : Progress} :
    (s.set task progress).puts task = progress := Function.update_self _ _ _

/-- An upload's step that stores nothing. -/
theorem Told.advance (h : Told sha256 tr s) {task : Nat} {progress : Progress}
    (hl : l.1.task = some task) (hidle : progress ≠ .idle)
    (hrunning : ∀ upload, progress = .running upload → upload.Fed task (tr ++ [l]))
    (hput : ∀ task key metadata, l = (.put task key metadata, .awaits) → s.puts task = .idle)
    (hkeep : ∀ key, ¬ Replaces key l) : Told sha256 (tr ++ [l]) (s.set task progress) := by
  refine h.next (fun u hu => State.set_puts_ne (hl ▸ hu)) ?_ ?_ hput (h.unreplaced hkeep)
  · intro u hu
    obtain rfl := Option.some.inj (hl.symm.trans hu)
    rwa [State.set_puts_self]
  · intro u upload hu hprogress
    obtain rfl := Option.some.inj (hl.symm.trans hu)
    rw [State.set_puts_self] at hprogress
    exact hrunning upload hprogress

/-- A step on no upload. -/
theorem Told.aside (h : Told sha256 tr s) (hl : l.1.task = none) {storage : MemoryObjectStorage}
    (hobjects : ∀ key bytes stored, storage.objects key = some (bytes, stored) ↔
      Keeps sha256 (tr ++ [l]) key bytes stored) :
    Told sha256 (tr ++ [l]) { s with storage } := by
  refine h.next (fun _ _ => rfl) ?_ ?_ ?_ hobjects
  · intro task htask
    rw [hl] at htask
    cases htask
  · intro task _ htask
    rw [hl] at htask
    cases htask
  · rintro task key metadata rfl
    cases hl

/-- An upload that completes is what is kept under its key. -/
theorem Told.stores (h : Told sha256 tr s) {task : Nat} {now : Time} {key : ObjectKey}
    {metadata : UploadMetadata} (hopen : Opened task key metadata tr)
    (hmatch : Matches sha256 metadata (delivered task tr)) (k : Text) (bytes : Bytes)
    (stored : StoredObject) :
    Function.update s.storage.objects key.value
        (some (delivered task tr, ⟨key, metadata, now⟩)) k = some (bytes, stored) ↔
      Keeps sha256 (tr ++ [(.finish task now, .stored ⟨key, metadata, now⟩)]) k bytes stored := by
  rw [keeps_snoc]
  by_cases hk : key.value = k
  · subst hk
    rw [Function.update_self]
    constructor
    · rintro ⟨⟩
      exact .inr ⟨task, rfl, rfl, hopen, rfl, hmatch⟩
    · rintro (⟨-, hno⟩ | ⟨u, heq, -, -, hbytes, -⟩)
      · exact absurd (.stored rfl) hno
      · obtain ⟨hcall, hanswer⟩ := Prod.mk.inj heq
        obtain rfl := Answer.stored.inj hanswer
        obtain rfl := (Call.finish.inj hcall).1
        rw [hbytes]
  · rw [Function.update_of_ne (Ne.symm hk), ← h.objects, and_iff_left, or_iff_left]
    · rintro ⟨u, heq, hkey, -⟩
      obtain rfl := Answer.stored.inj (Prod.mk.inj heq).2
      exact hk hkey
    · intro hreplaces
      cases hreplaces with
      | stored hkey => exact hk hkey

theorem told_step (h : Told sha256 tr s) (hs : Serves sha256 s l s') :
    Told sha256 (tr ++ [l]) s' := by
  cases hs with
  | @put task key metadata hidle =>
    refine h.advance rfl (by rintro ⟨⟩) ?_ (by rintro _ _ _ ⟨⟩; exact hidle) (by rintro _ ⟨⟩)
    rintro _ ⟨⟩
    refine ⟨opened_snoc.2 (.inr rfl), ?_, ?_, by have := metadata.size_bytes_range; simp [Upload.start]; omega⟩
    all_goals
      rw [delivered_snoc, (h.idle task hidle).1]
      rfl
  | @chunk task bytes upload upload' hrun hreceive =>
    have hfed := h.running task upload hrun
    refine h.advance rfl (by rintro ⟨⟩) ?_ (by rintro _ _ _ ⟨⟩) (by rintro _ ⟨⟩)
    rintro _ ⟨⟩
    have hbrings : (Call.chunk task bytes).brings task = bytes := if_pos rfl
    obtain ⟨herror, -⟩ | ⟨hok, hfits⟩ := receive_cases upload bytes
    · rw [herror] at hreceive
      cases hreceive
    · rw [hok] at hreceive
      obtain rfl := Except.ok.inj hreceive
      refine ⟨opened_snoc.2 (.inl hfed.opened), ?_, ?_, hfits⟩
      · rw [delivered_snoc, hbrings, hfed.content]
      · rw [delivered_snoc, hbrings, hfed.digested]
  | overlong | mismatch | lose =>
    exact h.advance rfl (by rintro ⟨⟩) (by rintro _ ⟨⟩) (by rintro _ _ _ ⟨⟩) (by rintro _ ⟨⟩)
  | @finish task now upload stored storage hrun hcomplete =>
    have hfed := h.running task upload hrun
    obtain ⟨herror, -⟩ | ⟨hok, hmatch⟩ := complete_cases sha256 hfed s.storage now
    · rw [herror] at hcomplete
      cases hcomplete
    · rw [hok] at hcomplete
      obtain ⟨rfl, rfl⟩ := Prod.mk.inj (Except.ok.inj hcomplete)
      refine h.next (fun u hu => State.set_puts_ne hu) ?_ ?_ (by rintro _ _ _ ⟨⟩) ?_
      · rintro u ⟨⟩ hover
        exact absurd (State.set_puts_self.symm.trans hover) (by rintro ⟨⟩)
      · rintro u upload ⟨⟩ hover
        exact absurd (State.set_puts_self.symm.trans hover) (by rintro ⟨⟩)
      · exact h.stores hfed.opened hmatch
  | head | signed | unsigned => exact h.aside rfl (h.unreplaced (by rintro _ ⟨⟩))
  | @delete key =>
    refine h.aside rfl fun k bytes stored => ?_
    rw [MemoryObjectStorage.delete, keeps_snoc, ← h.objects]
    dsimp only
    by_cases hk : key.value = k
    · subst hk
      rw [Function.update_self]
      constructor
      · rintro ⟨⟩
      · rintro (⟨-, hno⟩ | ⟨task, ⟨⟩, -⟩)
        exact absurd (.deleted rfl) hno
    · rw [Function.update_of_ne (Ne.symm hk), and_iff_left, or_iff_left]
      · rintro ⟨task, ⟨⟩, -⟩
      · intro hreplaces
        cases hreplaces with
        | deleted hkey => exact hk hkey

/-- What the storage holds after any run is what the labels of the run say. -/
theorem objects_exact (h : Lts.Run (Serves sha256) .fresh tr s) (key : Text) (bytes : Bytes)
    (stored : StoredObject) :
    s.storage.objects key = some (bytes, stored) ↔ Keeps sha256 tr key bytes stored :=
  (h.history told_step told_fresh).objects key bytes stored

/-- The answer to a chunk, and to the end of the chunks, by what came before. -/
structure Decided (sha256 : Bytes → Bytes) (before : List Label) (l : Label) : Prop where
  chunk : ∀ task bytes, l.1 = .chunk task bytes →
    ∃ key metadata, Opened task key metadata before ∧
      l.2 = if metadata.sizeBytes < (delivered task before ++ bytes).length then .refused .exceeds
        else .awaits
  finish : ∀ task now, l.1 = .finish task now →
    ∃ key metadata, Opened task key metadata before ∧
      (Matches sha256 metadata (delivered task before) → l.2 = .stored ⟨key, metadata, now⟩) ∧
      (¬ Matches sha256 metadata (delivered task before) → l.2 = .refused .mismatch)
  once : ∀ task key key' metadata metadata', Opened task key metadata before →
    Opened task key' metadata' before → key = key' ∧ metadata = metadata'

theorem Told.decided (h : Told sha256 tr s) (hs : Serves sha256 s l s') : Decided sha256 tr l where
  chunk task bytes hl := by
    cases hs <;> cases hl
    case chunk upload upload' hrun hreceive =>
      have hfed := h.running task upload hrun
      refine ⟨upload.key, upload.metadata, hfed.opened, ?_⟩
      rw [← hfed.content]
      obtain ⟨herror, -⟩ | ⟨-, hfits⟩ := receive_cases upload bytes
      · rw [herror] at hreceive
        cases hreceive
      · rw [if_neg (Int.not_lt.2 hfits)]
    case overlong upload error hrun hreceive =>
      have hfed := h.running task upload hrun
      refine ⟨upload.key, upload.metadata, hfed.opened, ?_⟩
      rw [← hfed.content]
      obtain ⟨herror, hlong⟩ | ⟨hok, -⟩ := receive_cases upload bytes
      · rw [herror] at hreceive
        obtain rfl := Except.error.inj hreceive
        rw [if_pos hlong]
      · rw [hok] at hreceive
        cases hreceive
  finish task now hl := by
    cases hs <;> cases hl
    case finish upload stored storage hrun hcomplete =>
      have hfed := h.running task upload hrun
      refine ⟨upload.key, upload.metadata, hfed.opened, ?_⟩
      obtain ⟨herror, -⟩ | ⟨hok, hmatch⟩ := complete_cases sha256 hfed s.storage now
      · rw [herror] at hcomplete
        cases hcomplete
      · rw [hok] at hcomplete
        obtain ⟨rfl, -⟩ := Prod.mk.inj (Except.ok.inj hcomplete)
        exact ⟨fun _ => rfl, fun hno => absurd hmatch hno⟩
    case mismatch upload error hrun hcomplete =>
      have hfed := h.running task upload hrun
      refine ⟨upload.key, upload.metadata, hfed.opened, ?_⟩
      obtain ⟨herror, hno⟩ | ⟨hok, -⟩ := complete_cases sha256 hfed s.storage now
      · rw [herror] at hcomplete
        obtain rfl := Except.error.inj hcomplete
        exact ⟨fun hmatch => absurd hmatch hno, fun _ => rfl⟩
      · rw [hok] at hcomplete
        cases hcomplete
  once := h.once

/-- Whether an upload is stored is decided by the bytes that came for it and by what it declared. -/
theorem uploads_decided (h : Lts.Run (Serves sha256) .fresh tr s) {before after : List Label}
    (heq : tr = before ++ l :: after) : Decided sha256 before l :=
  h.judged (I := Told sha256) (V := Decided sha256) told_step Told.decided told_fresh heq

/-! ## Signed reads -/

/-- The text of the key that an address was signed for. -/
def keyOfUrl (url : String) : Option Text :=
  if urlFront.isPrefixOf url.toList then
    unquote ((url.toList.drop urlFront.length).takeWhile (· ≠ '?'))
  else none

theorem keyOfUrl_signedUrl {text : Text} {path : List Char} (h : quote text = some path) :
    keyOfUrl (signedUrl path) = some text := by
  have hprefix : urlFront.isPrefixOf (urlFront ++ (path ++ urlBack)) = true :=
    List.isPrefixOf_iff_prefix.2 (List.prefix_append _ _)
  have hpath : ∀ c ∈ path, decide (c ≠ '?') = true := by
    intro c hc
    refine decide_eq_true fun heq => ?_
    have hchar := isPathChar_of_mem_quote h hc
    rw [heq] at hchar
    revert hchar
    decide
  have hstop : urlBack.takeWhile (fun c => decide (c ≠ '?')) = [] := by decide
  rw [keyOfUrl, signedUrl, String.toList_ofList, if_pos hprefix, List.drop_left,
    List.takeWhile_append_of_pos hpath, hstop, List.append_nil, unquote_quote h]

/-- An address that was handed out: it stands for the key, its path consists of the characters of a
path and goes nowhere upwards, and it ends within a quarter of an hour. -/
structure SignedFor (key : ObjectKey) (expiresIn : Int) (now : Time) (access : SignedAccess) :
    Prop where
  key : keyOfUrl access.url = some key.value
  path : ∃ path, access.url = signedUrl path ∧ (∀ c ∈ path, isPathChar c = true) ∧
    "..".toList ∉ path.splitOn '/'
  expires : seconds 1 ≤ expiresIn ∧ expiresIn ≤ seconds (15 * 60)
  expiresAt : access.expiresAt = now + expiresIn

theorem ObjectKey.no_parent (key : ObjectKey) : parent ∉ key.value.splitOn slash := by
  have haccepted := key.accepted
  simp only [unsafeKey, Bool.or_eq_false_iff] at haccepted
  simpa using haccepted.1.2

theorem signRead_ok {key : ObjectKey} {expiresIn : Int} {now : Time} {access : SignedAccess}
    (h : s.storage.signRead key expiresIn now = .ok access) :
    (s.storage.objects key.value).isSome ∧ SignedFor key expiresIn now access := by
  unfold MemoryObjectStorage.signRead at h
  split at h
  case isTrue => cases h
  case isFalse hpresent =>
    split at h
    case isTrue => cases h
    case isFalse hexpires =>
      cases hquote : quote key.value with
      | none =>
        rw [hquote] at h
        cases h
      | some path =>
        rw [hquote] at h
        unfold SignedAccess.create at h
        dsimp only at h
        split at h
        case isFalse => cases h
        case isTrue =>
          obtain rfl := Except.ok.inj h
          refine ⟨by simpa [Option.isSome_iff_ne_none] using hpresent, ?_⟩
          exact ⟨keyOfUrl_signedUrl hquote, ⟨path, rfl, fun c => isPathChar_of_mem_quote hquote,
            fun hparent => key.no_parent (parent_of_quote hquote hparent)⟩,
            not_not.1 hexpires, rfl⟩

/-- An address is only signed for what is stored then, and stands for its key. -/
def Signs (sha256 : Bytes → Bytes) (before : List Label) (l : Label) : Prop :=
  ∀ key expiresIn now access, l = (.signRead key expiresIn now, .signed access) →
    (∃ bytes stored, Keeps sha256 before key.value bytes stored) ∧
      SignedFor key expiresIn now access

theorem Told.signs (h : Told sha256 tr s) (hs : Serves sha256 s l s') : Signs sha256 tr l := by
  rintro key expiresIn now access rfl
  cases hs with
  | signed hsigned =>
    obtain ⟨hpresent, hfor⟩ := signRead_ok hsigned
    obtain ⟨⟨bytes, stored⟩, hobject⟩ := Option.isSome_iff_exists.1 hpresent
    exact ⟨⟨bytes, stored, (h.objects _ _ _).1 hobject⟩, hfor⟩

theorem signed_reads (h : Lts.Run (Serves sha256) .fresh tr s) {before after : List Label}
    (heq : tr = before ++ l :: after) : Signs sha256 before l :=
  h.judged (I := Told sha256) (V := Signs sha256) told_step Told.signs told_fresh heq

/-- Addresses of product images with one text are of one image. -/
theorem product_images_apart {productId objectId productId' objectId' : UUID}
    {extension extension' : String} {key key' : ObjectKey} {expiresIn expiresIn' : Int}
    {now now' : Time} {access access' : SignedAccess}
    (hkey : ObjectKey.productImage productId objectId extension = .ok key)
    (hkey' : ObjectKey.productImage productId' objectId' extension' = .ok key')
    (h : s.storage.signRead key expiresIn now = .ok access)
    (h' : s'.storage.signRead key' expiresIn' now' = .ok access') (hurl : access.url = access'.url) :
    productId = productId' ∧ objectId = objectId' ∧ extension = extension' := by
  obtain ⟨hextension, hvalue⟩ := productImage_eq_ok hkey
  obtain ⟨hextension', hvalue'⟩ := productImage_eq_ok hkey'
  have hread := (signRead_ok h).2.key
  rw [hurl, (signRead_ok h').2.key] at hread
  refine imagePath_inj hextension hextension' ?_
  rw [← hvalue, ← hvalue', Option.some.inj hread]

end

/-! ## An upload in two chunks -/

/-- The digest of the two letters `ab`. -/
def digestAb : Bytes :=
  [0xfb, 0x8e, 0x20, 0xfc, 0x2e, 0x4c, 0x3f, 0x24, 0x8c, 0x60, 0xc3, 0x9b, 0xd6, 0x52, 0xf3, 0xc1,
    0x34, 0x72, 0x98, 0xbb, 0x97, 0x7b, 0x8b, 0x4d, 0x59, 0x03, 0xb8, 0x50, 0x55, 0x62, 0x06, 0x03]

def imageAb : ObjectKey := ⟨ofString "a/b c.png", by decide⟩

def metadataAb : UploadMetadata :=
  ⟨"image/png", 2, "fb8e20fc2e4c3f248c60c39bd652f3c1347298bb977b8b4d5903b85055620603",
    by decide, by decide, by decide⟩

def storedAb : StoredObject := ⟨imageAb, metadataAb, 0⟩

def accessAb : SignedAccess :=
  ⟨"https://storage.test/a/b%20c.png?signature=test-only", 60000000, by decide⟩

def labelsAb : List Label :=
  [(.put 0 imageAb metadataAb, .awaits), (.chunk 0 [0x61], .awaits), (.chunk 0 [0x62], .awaits),
    (.finish 0 0, .stored storedAb), (.signRead imageAb (seconds 60) 0, .signed accessAb)]

theorem run_ab : ∃ s, Lts.Run (Serves fun _ => digestAb) .fresh labelsAb s ∧
    s.storage.objects imageAb.value = some ([0x61, 0x62], storedAb) := by
  refine ⟨_, ((((Lts.Run.nil.snoc (.put rfl)).snoc (.chunk rfl rfl)).snoc (.chunk rfl rfl)).snoc
    (.finish rfl rfl)).snoc (.signed ?_), ?_⟩
  · decide
  · rfl

theorem objects_exact_ab :
    Keeps (fun _ => digestAb) labelsAb imageAb.value [0x61, 0x62] storedAb := by
  obtain ⟨s, hrun, hobject⟩ := run_ab
  exact (objects_exact hrun _ _ _).1 hobject

theorem uploads_decided_ab : Decided (fun _ => digestAb)
    [(.put 0 imageAb metadataAb, .awaits), (.chunk 0 [0x61], .awaits)]
    (.chunk 0 [0x62], .awaits) := by
  obtain ⟨s, hrun, -⟩ := run_ab
  exact uploads_decided hrun rfl

theorem signed_reads_ab : SignedFor imageAb (seconds 60) 0 accessAb := by
  obtain ⟨s, hrun, -⟩ := run_ab
  have hsigns : Signs (fun _ => digestAb) (labelsAb.take 4)
    (.signRead imageAb (seconds 60) 0, .signed accessAb) := signed_reads hrun rfl
  exact (hsigns imageAb (seconds 60) 0 accessAb rfl).2

/-- A storage that holds a product's image. -/
def shelf : State := ⟨⟨fun _ => some ([0x61, 0x62], storedAb)⟩, fun _ => .idle⟩

def imageKey : ObjectKey := ⟨imagePath 1 2 "png", unsafeKey_imagePath rfl⟩

def accessImage : SignedAccess :=
  ⟨"https://storage.test/products/00000000-0000-0000-0000-000000000001/" ++
    "00000000-0000-0000-0000-000000000002.png?signature=test-only", 60000000, by decide +kernel⟩

/-- Another storage, with other bytes under the key. -/
def attic : State := ⟨⟨fun _ => some ([0x63], storedAb)⟩, fun _ => .idle⟩

/-- Half a minute's access, a minute later. -/
def accessLater : SignedAccess :=
  ⟨accessImage.url, 90000000, accessImage.https⟩

/-- The two storages sign one address at different times, and it is of no image but this. -/
theorem product_images_apart_shelf :
    shelf.storage.signRead imageKey (seconds 60) 0 = .ok accessImage ∧
    attic.storage.signRead imageKey (seconds 30) (seconds 60) = .ok accessLater ∧
    ∀ productId objectId extension,
      ObjectKey.productImage productId objectId extension = .ok imageKey →
        productId = 1 ∧ objectId = 2 ∧ extension = "png" := by
  have hkey : ObjectKey.productImage 1 2 "png" = .ok imageKey := productImage_ok rfl
  have hshelf : shelf.storage.signRead imageKey (seconds 60) 0 = .ok accessImage := by
    decide +kernel
  have hattic : attic.storage.signRead imageKey (seconds 30) (seconds 60) = .ok accessLater := by
    decide +kernel
  exact ⟨hshelf, hattic, fun _ _ _ hother => product_images_apart hother hkey hattic hshelf rfl⟩

end Ekumidayomi.Storage
