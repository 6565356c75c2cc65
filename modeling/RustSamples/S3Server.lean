import RustSamples.LastWrite
import RustSamples.Machine

/-! # The store of `s3_server`

`InMemoryS3` keeps the buckets behind one mutex, and a request holds it from its first line to its
last.  For `create_bucket` and `get_object` that is one step.  `put_object` looks for the bucket and
then awaits the bytes of the request body with the lock in its hand; what the client sends, and
when, is not in the server's power.

So the answers are those of a store that does one request at a time, in the order in which they
are given, and can be told from the requests answered before: a read gives the bytes of the last
upload of its object that succeeded (`answers_in_order`).  This is so whichever thread runs a
request, and whether or not it stops the thread while it waits for the mutex.

A request that is dropped, because its client is gone, gives the lock back and leaves no trace.  The
history is for the statements only and is read by no step.
-/
namespace RustSamples.S3
open Scheduling

/-! ## Requests -/

/-- The errors that the service answers with. -/
inductive S3Error
  | bucketAlreadyExists
  | noSuchBucket
  | invalidRequestBody
  | internalError
  | noSuchKey
  deriving DecidableEq

/-- `CreateBucketInput`, `PutObjectInput`, whose body can be missing, and `GetObjectInput`. -/
inductive Input
  | createBucket (bucket : String)
  | putObject (bucket key : String) (hasBody : Bool)
  | getObject (bucket key : String)
  deriving DecidableEq

inductive Output
  | bucketCreated
  | objectPut
  | object (body : List UInt8) (contentLength : Int64)
  deriving DecidableEq

abbrev Response := Except S3Error Output

/-- `HashMap<String, HashMap<String, Bytes>>`. -/
abbrev Buckets := String → Option (String → Option (List UInt8))

/-- `create_bucket`. -/
def createBucket (buckets : Buckets) (bucket : String) : Response × Buckets :=
  if (buckets bucket).isSome then (.error .bucketAlreadyExists, buckets)
  else (.ok .bucketCreated, Function.update buckets bucket (some fun _ => none))

/-- `get_object`. -/
def getObject (buckets : Buckets) (bucket key : String) : Response :=
  match buckets bucket with
  | none => .error .noSuchBucket
  | some objects =>
      match objects key with
      | none => .error .noSuchKey
      | some data => .ok (.object data (Int64.ofNat data.length))

/-- `put_object` up to its `await`. -/
def admitPut (buckets : Buckets) (bucket : String) (hasBody : Bool) : Except S3Error Unit :=
  match buckets bucket with
  | none => .error .noSuchBucket
  | some _ => if hasBody then .ok () else .error .invalidRequestBody

theorem admitPut_eq_ok_iff {buckets : Buckets} {bucket : String} {hasBody : Bool} :
    admitPut buckets bucket hasBody = .ok () ↔ (buckets bucket).isSome ∧ hasBody = true := by
  unfold admitPut
  cases buckets bucket with
  | none => simp
  | some objects => cases hasBody <;> simp

/-- `bucket.insert(req.key, data)`. -/
def insertObject (buckets : Buckets) (bucket key : String) (data : List UInt8) : Buckets :=
  Function.update buckets bucket
    ((buckets bucket).map fun objects => Function.update objects key (some data))

/-- `put_object` after its `await`; `none` is an error of the body stream. -/
def finishPut (buckets : Buckets) (bucket key : String) (result : Option (List UInt8)) :
    Response × Buckets :=
  match result with
  | none => (.error .internalError, buckets)
  | some data => (.ok .objectPut, insertObject buckets bucket key data)

/-! ## The server -/

/-- Where a request stands. -/
inductive Phase
  /-- before the lock -/
  | waiting
  /-- in `collect_to_bytes` -/
  | collecting
  | answered (response : Response)
  | dropped
  deriving DecidableEq

structure Request where
  input : Input
  phase : Phase
  deriving DecidableEq

/-- An answer, with the place of its request, and what the body stream has given. -/
structure Entry where
  place : Nat
  input : Input
  result : Option (List UInt8)
  response : Response
  deriving DecidableEq

structure Server where
  buckets : Buckets
  /-- the request that holds the mutex over an `await` -/
  lock : Option Nat
  requests : List Request
  history : List Entry

inductive Action
  | request (input : Input)
  /-- the mutex is locked -/
  | enter (i : Nat)
  /-- the body is complete, or its stream fails -/
  | collected (i : Nat) (result : Option (List UInt8))
  /-- the future of the request is dropped at an `await`, or before it began -/
  | drop (i : Nat)
  deriving DecidableEq

namespace Server

def start : Server := ⟨fun _ => none, none, [], []⟩

def setPhase (s : Server) (i : Nat) (r : Request) (phase : Phase) : Server :=
  { s with requests := s.requests.set i { r with phase := phase } }

/-- The request is answered, and the mutex is free. -/
def answer (s : Server) (i : Nat) (r : Request) (result : Option (List UInt8))
    (effect : Response × Buckets) : Server :=
  { s.setPhase i r (.answered effect.1) with
    buckets := effect.2
    lock := none
    history := s.history ++ [⟨i, r.input, result, effect.1⟩] }

def onEnter (s : Server) (i : Nat) (r : Request) : Server :=
  match r.input with
  | .createBucket bucket => s.answer i r none (createBucket s.buckets bucket)
  | .getObject bucket key => s.answer i r none (getObject s.buckets bucket key, s.buckets)
  | .putObject bucket _ hasBody =>
      match admitPut s.buckets bucket hasBody with
      | .error e => s.answer i r none (.error e, s.buckets)
      | .ok () => { s.setPhase i r .collecting with lock := some i }

def onCollected (s : Server) (i : Nat) (r : Request) (result : Option (List UInt8)) :
    Option Server :=
  match r.input with
  | .putObject bucket key _ => some (s.answer i r result (finishPut s.buckets bucket key result))
  | _ => none

def step (s : Server) : Action → Option Server
  | .request input => some { s with requests := s.requests ++ [⟨input, .waiting⟩] }
  | .enter i => s.requests[i]?.bind fun r =>
      if r.phase = .waiting ∧ s.lock = none then some (s.onEnter i r) else none
  | .collected i result => s.requests[i]?.bind fun r =>
      if r.phase = .collecting then s.onCollected i r result else none
  | .drop i => s.requests[i]?.bind fun r =>
      if r.phase = .waiting then some (s.setPhase i r .dropped)
      else if r.phase = .collecting then some { s.setPhase i r .dropped with lock := none }
      else none

end Server

def server : Machine Server Action := ⟨Server.step⟩

/-! ## One request at a time -/

/-- A request as a single step of the store, of which the body stream gives `result`. -/
def perform (store : Buckets) (result : Option (List UInt8)) : Input → Response × Buckets
  | .createBucket bucket => createBucket store bucket
  | .getObject bucket key => (getObject store bucket key, store)
  | .putObject bucket key hasBody =>
      match admitPut store bucket hasBody with
      | .error e => (.error e, store)
      | .ok () => finishPut store bucket key result

/-- The store after these requests, one after the other. -/
def replay (history : List Entry) : Buckets :=
  history.foldl (fun store e => (perform store e.result e.input).2) fun _ => none

theorem replay_concat (history : List Entry) (e : Entry) :
    replay (history ++ [e]) = (perform (replay history) e.result e.input).2 := by
  rw [replay, List.foldl_append]
  rfl

/-- A create of the bucket that succeeded. -/
def Entry.creates (bucket : String) (e : Entry) : Bool :=
  e.input = .createBucket bucket && e.response = .ok .bucketCreated

/-- The bytes of an upload of the object that succeeded. -/
def Entry.stored (bucket key : String) (e : Entry) : Option (List UInt8) :=
  match e.input, e.response with
  | .putObject b k _, .ok .objectPut => if b = bucket ∧ k = key then e.result else none
  | _, _ => none

def created (bucket : String) (history : List Entry) : Bool := history.any (·.creates bucket)

/-- The last upload of the object that succeeded. -/
def lastPut (bucket key : String) (history : List Entry) : Option (List UInt8) :=
  (history.filterMap (·.stored bucket key)).getLast?

/-- The answer that the requests answered before call for. -/
def answerTo (before : List Entry) (result : Option (List UInt8)) : Input → Response
  | .createBucket bucket =>
      if created bucket before then .error .bucketAlreadyExists else .ok .bucketCreated
  | .putObject bucket _ hasBody =>
      if !created bucket before then .error .noSuchBucket
      else if !hasBody then .error .invalidRequestBody
      else if result.isSome then .ok .objectPut else .error .internalError
  | .getObject bucket key =>
      if !created bucket before then .error .noSuchBucket
      else match lastPut bucket key before with
        | none => .error .noSuchKey
        | some data => .ok (.object data (Int64.ofNat data.length))

theorem created_concat (bucket : String) (history : List Entry) (e : Entry) :
    created bucket (history ++ [e]) = (created bucket history || e.creates bucket) := by
  simp [created]

theorem lastPut_concat (bucket key : String) (history : List Entry) (e : Entry) :
    lastPut bucket key (history ++ [e]) = (e.stored bucket key).or (lastPut bucket key history) :=
  LastWrite.getLast?_filterMap_concat _ _ _

/-- Each answer is that of the store which the answers before it leave. -/
def Legal (history : List Entry) : Prop :=
  ∀ pre e, pre ++ [e] <+: history → e.response = (perform (replay pre) e.result e.input).1

theorem legal_concat {history : List Entry} {e : Entry} :
    Legal (history ++ [e]) ↔
      Legal history ∧ e.response = (perform (replay history) e.result e.input).1 := by
  constructor
  · intro h
    exact ⟨fun pre e' hp => h pre e' (hp.trans (List.prefix_append _ _)),
      h history e List.prefix_rfl⟩
  · rintro ⟨h, he⟩ pre e' hp
    rcases List.prefix_concat_iff.1 hp with heq | hp
    · obtain ⟨rfl, hlast⟩ := List.append_inj' heq rfl
      obtain rfl := List.singleton_inj.1 hlast
      exact he
    · exact h pre e' hp

theorem Legal.of_prefix {history history' : List Entry} (h : Legal history)
    (hp : history' <+: history) : Legal history' :=
  fun pre e he => h pre e (he.trans hp)

/-- The store that the answers leave, as their history has it. -/
structure Reflects (store : Buckets) (history : List Entry) : Prop where
  lookup : ∀ bucket,
    store bucket = if created bucket history then some (lastPut bucket · history) else none
  unwritten : ∀ bucket key, created bucket history = false → lastPut bucket key history = none

theorem Reflects.isSome_iff {store : Buckets} {history : List Entry} (h : Reflects store history)
    (bucket : String) : (store bucket).isSome = created bucket history := by
  rw [h.lookup]
  cases created bucket history <;> rfl

/-- An answer that changes nothing is not in the way. -/
theorem Reflects.unchanged {store : Buckets} {history : List Entry} (h : Reflects store history)
    {e : Entry} (hcreates : ∀ bucket, e.creates bucket = false)
    (hstored : ∀ bucket key, e.stored bucket key = none) : Reflects store (history ++ [e]) := by
  constructor
  · intro bucket
    simp only [created_concat, lastPut_concat, hcreates, hstored, Bool.or_false, Option.none_or]
    exact h.lookup bucket
  · intro bucket key
    simp only [created_concat, lastPut_concat, hcreates, hstored, Bool.or_false, Option.none_or]
    exact h.unwritten bucket key

theorem Entry.creates_of_error {e : Entry} {error : S3Error} (h : e.response = .error error)
    (bucket : String) : e.creates bucket = false := by
  simp [Entry.creates, h]

theorem Entry.stored_of_error {e : Entry} {error : S3Error} (h : e.response = .error error)
    (bucket key : String) : e.stored bucket key = none := by
  unfold Entry.stored
  rw [h]
  split
  · rename_i heq
    cases heq
  · rfl

theorem Reflects.create {store : Buckets} {history : List Entry} (h : Reflects store history)
    {e : Entry} {b : String} (hnew : created b history = false)
    (hcreates : ∀ bucket, e.creates bucket = decide (b = bucket))
    (hstored : ∀ bucket key, e.stored bucket key = none) :
    Reflects (Function.update store b (some fun _ => none)) (history ++ [e]) := by
  refine ⟨fun bucket => ?_, fun bucket key hc => ?_⟩
  · simp only [created_concat, lastPut_concat, hcreates, hstored, Option.none_or]
    by_cases hbucket : bucket = b
    · subst hbucket
      simp [h.unwritten _ _ hnew]
    · rw [Function.update_of_ne hbucket, h.lookup, decide_eq_false (Ne.symm hbucket),
        Bool.or_false]
  · rw [created_concat] at hc
    rw [lastPut_concat, hstored, Option.none_or]
    exact h.unwritten _ _ (Bool.or_eq_false_iff.1 hc).1

theorem Reflects.insert {store : Buckets} {history : List Entry} (h : Reflects store history)
    {e : Entry} {b k : String} {data : List UInt8} (hb : created b history = true)
    (hcreates : ∀ bucket, e.creates bucket = false)
    (hstored : ∀ bucket key,
      e.stored bucket key = if b = bucket ∧ k = key then some data else none) :
    Reflects (insertObject store b k data) (history ++ [e]) := by
  refine ⟨fun bucket => ?_, fun bucket key hc => ?_⟩
  · simp only [insertObject, created_concat, lastPut_concat, hcreates, hstored, Bool.or_false]
    by_cases hbucket : bucket = b
    · subst hbucket
      rw [Function.update_self, h.lookup, hb, if_pos rfl, Option.map_some, if_pos rfl]
      refine congrArg some (funext fun key => ?_)
      by_cases hkey : key = k
      · subst hkey
        rw [Function.update_self, if_pos ⟨rfl, rfl⟩, Option.some_or]
      · rw [Function.update_of_ne hkey, if_neg fun heq => hkey heq.2.symm, Option.none_or]
    · rw [Function.update_of_ne hbucket, h.lookup]
      have hne (key : String) : ¬(b = bucket ∧ k = key) := fun heq => hbucket heq.1.symm
      simp only [hne, if_false, Option.none_or]
  · have hc : created bucket history = false := by
      rw [created_concat] at hc
      exact (Bool.or_eq_false_iff.1 hc).1
    have hne : ¬(b = bucket ∧ k = key) := by
      rintro ⟨rfl, -⟩
      rw [hb] at hc
      cases hc
    rw [lastPut_concat, hstored, if_neg hne, Option.none_or]
    exact h.unwritten _ _ hc

/-- One more answer: each of the three requests by its own cases. -/
theorem Reflects.perform {store : Buckets} {history : List Entry} (h : Reflects store history)
    {e : Entry} (he : e.response = (perform store e.result e.input).1) :
    Reflects (S3.perform store e.result e.input).2 (history ++ [e]) := by
  obtain ⟨place, input, result, response⟩ := e
  dsimp only at he ⊢
  subst he
  cases input with
  | createBucket b =>
    simp only [S3.perform, createBucket]
    by_cases hb : (store b).isSome
    · simp only [if_pos hb]
      exact h.unchanged (Entry.creates_of_error rfl) (Entry.stored_of_error rfl)
    · simp only [if_neg hb]
      have hnew : created b history = false := by
        rw [← h.isSome_iff]
        exact Bool.eq_false_iff.2 hb
      exact h.create hnew (fun bucket => by simp [Entry.creates]) (fun _ _ => rfl)
  | getObject b k => exact h.unchanged (fun _ => by simp [Entry.creates]) (fun _ _ => rfl)
  | putObject b k hasBody =>
    simp only [S3.perform]
    cases hadmit : admitPut store b hasBody with
    | error error => exact h.unchanged (Entry.creates_of_error rfl) (Entry.stored_of_error rfl)
    | ok value =>
      cases result with
      | none => exact h.unchanged (Entry.creates_of_error rfl) (Entry.stored_of_error rfl)
      | some data =>
        have hb : created b history = true := by
          rw [← h.isSome_iff]
          exact (admitPut_eq_ok_iff.1 hadmit).1
        exact h.insert hb (fun _ => by simp [Entry.creates]) (fun _ _ => rfl)

/-- The store is what the uploads that succeeded have made of it. -/
theorem reflects_replay {history : List Entry} (h : Legal history) :
    Reflects (replay history) history := by
  induction history using List.reverseRecOn with
  | nil => exact ⟨fun _ => rfl, fun _ _ _ => rfl⟩
  | append_singleton history e ih =>
    obtain ⟨h, he⟩ := legal_concat.1 h
    rw [replay_concat]
    exact (ih h).perform he

theorem perform_eq_answerTo {store : Buckets} {history : List Entry} (h : Reflects store history)
    (result : Option (List UInt8)) (input : Input) :
    (perform store result input).1 = answerTo history result input := by
  cases input with
  | createBucket bucket =>
    simp only [perform, createBucket, answerTo, ← h.isSome_iff]
    split <;> rfl
  | getObject bucket key =>
    simp only [perform, getObject, answerTo, h.lookup]
    cases created bucket history <;> rfl
  | putObject bucket key hasBody =>
    simp only [perform, answerTo, admitPut, ← h.isSome_iff]
    cases store bucket with
    | none => rfl
    | some objects => cases hasBody <;> cases result <;> rfl

/-- **What a step can do**: a request arrives, or is dropped; it is answered as `perform` says, from
the lock on or when its body is there; or it waits for its body with the lock. -/
inductive Server.Step (s : Server) : Action → Server → Prop
  | request (input : Input) :
      Step s (.request input) { s with requests := s.requests ++ [⟨input, .waiting⟩] }
  | answered {i : Nat} {r : Request} (hr : s.requests[i]? = some r) (hp : r.phase = .waiting)
      (hlock : s.lock = none) : Step s (.enter i)
        (s.answer i r none (perform s.buckets none r.input))
  | admitted {i : Nat} {r : Request} {bucket key : String} (hr : s.requests[i]? = some r)
      (hp : r.phase = .waiting) (hlock : s.lock = none)
      (hinput : r.input = .putObject bucket key true) (hbucket : (s.buckets bucket).isSome) :
      Step s (.enter i) { s.setPhase i r .collecting with lock := some i }
  | uploaded {i : Nat} {r : Request} {bucket key : String} {hasBody : Bool}
      (hr : s.requests[i]? = some r) (hp : r.phase = .collecting)
      (hinput : r.input = .putObject bucket key hasBody) (result : Option (List UInt8)) :
      Step s (.collected i result)
        (s.answer i r result (finishPut s.buckets bucket key result))
  | left {i : Nat} {r : Request} (hr : s.requests[i]? = some r) (hp : r.phase = .waiting) :
      Step s (.drop i) (s.setPhase i r .dropped)
  | abandoned {i : Nat} {r : Request} (hr : s.requests[i]? = some r) (hp : r.phase = .collecting) :
      Step s (.drop i) { s.setPhase i r .dropped with lock := none }

theorem step_onEnter {s : Server} {i : Nat} {r : Request} (hr : s.requests[i]? = some r)
    (hp : r.phase = .waiting) (hlock : s.lock = none) : s.Step (.enter i) (s.onEnter i r) := by
  have hstep := Server.Step.answered hr hp hlock
  cases hinput : r.input with
  | createBucket | getObject =>
    rw [hinput] at hstep
    simpa only [Server.onEnter, hinput, perform] using hstep
  | putObject bucket key hasBody =>
    cases hadmit : admitPut s.buckets bucket hasBody with
    | error e =>
      rw [hinput] at hstep
      simpa only [Server.onEnter, hinput, perform, hadmit] using hstep
    | ok value =>
      obtain ⟨hbucket, rfl⟩ := admitPut_eq_ok_iff.1 hadmit
      have hstep := Server.Step.admitted hr hp hlock hinput hbucket
      simpa only [Server.onEnter, hinput, hadmit] using hstep

theorem step_cases {s t : Server} {a : Action} (h : server.step s a = some t) : s.Step a t := by
  change s.step a = some t at h
  cases a with
  | request input => exact Option.some.inj h ▸ .request input
  | enter i =>
    obtain ⟨r, hr, h⟩ := Option.bind_eq_some_iff.1 h
    by_cases hp : r.phase = .waiting ∧ s.lock = none
    · rw [if_pos hp] at h
      exact Option.some.inj h ▸ step_onEnter hr hp.1 hp.2
    · rw [if_neg hp] at h
      cases h
  | collected i result =>
    obtain ⟨r, hr, h⟩ := Option.bind_eq_some_iff.1 h
    by_cases hp : r.phase = .collecting
    · rw [if_pos hp, Server.onCollected] at h
      split at h
      · rename_i bucket key hasBody hinput
        exact Option.some.inj h ▸ .uploaded hr hp hinput result
      · cases h
    · rw [if_neg hp] at h
      cases h
  | drop i =>
    obtain ⟨r, hr, h⟩ := Option.bind_eq_some_iff.1 h
    by_cases hp : r.phase = .waiting
    · rw [if_pos hp] at h
      exact Option.some.inj h ▸ .left hr hp
    · rw [if_neg hp] at h
      by_cases hc : r.phase = .collecting
      · rw [if_pos hc] at h
        exact Option.some.inj h ▸ .abandoned hr hc
      · rw [if_neg hc] at h
        cases h

/-! ## The answers in their order -/

/-- The history is that of a store that does one request at a time, has each request that was
answered once, and the lock is with the request that waits for its body. -/
structure Linear (s : Server) : Prop where
  store : s.buckets = replay s.history
  legal : Legal s.history
  recorded : ∀ (i : Nat) r response, s.requests[i]? = some r → r.phase = .answered response →
    ∃ result, ⟨i, r.input, result, response⟩ ∈ s.history
  answered : ∀ e ∈ s.history, s.requests[e.place]? = some ⟨e.input, .answered e.response⟩
  nodup : (s.history.map (·.place)).Nodup
  holder : ∀ i : Nat, s.lock = some i ↔ ∃ r, s.requests[i]? = some r ∧ r.phase = .collecting
  admitted : ∀ (i : Nat) r, s.requests[i]? = some r → r.phase = .collecting →
    ∃ bucket key, r.input = .putObject bucket key true ∧ (s.buckets bucket).isSome

theorem Linear.not_recorded {s : Server} (h : Linear s) {i : Nat} {r : Request}
    (hr : s.requests[i]? = some r) (hp : ∀ response, r.phase ≠ .answered response) :
    i ∉ s.history.map (·.place) := by
  intro hi
  obtain ⟨e, he, rfl⟩ := List.mem_map.1 hi
  have hr' := h.answered e he
  rw [hr] at hr'
  exact hp e.response (Option.some.inj hr' ▸ rfl)

/-- Of two requests one at most waits for its body. -/
theorem Linear.holder_unique {s : Server} (h : Linear s) {i j : Nat} {r r' : Request}
    (hr : s.requests[i]? = some r) (hp : r.phase = .collecting)
    (hr' : s.requests[j]? = some r') (hp' : r'.phase = .collecting) : i = j :=
  Option.some.inj (((h.holder i).2 ⟨r, hr, hp⟩).symm.trans ((h.holder j).2 ⟨r', hr', hp'⟩))

/-- With the mutex free, or held by request `i`, no other request waits for its body. -/
theorem Linear.not_collecting {s : Server} (h : Linear s) {i j : Nat} {r r' : Request}
    (hr : s.requests[i]? = some r) (hfree : r.phase = .collecting ∨ s.lock = none) (hj : j ≠ i)
    (hr' : s.requests[j]? = some r') : r'.phase ≠ .collecting := by
  intro hp'
  rcases hfree with hp | hlock
  · exact hj (h.holder_unique hr' hp' hr hp)
  · have hlock' := (h.holder j).2 ⟨r', hr', hp'⟩
    rw [hlock] at hlock'
    cases hlock'

theorem Linear.answer {s : Server} (h : Linear s) {i : Nat} {r : Request}
    {result : Option (List UInt8)} (hr : s.requests[i]? = some r)
    (hp : ∀ response, r.phase ≠ .answered response)
    (hfree : r.phase = .collecting ∨ s.lock = none) :
    Linear (s.answer i r result (perform s.buckets result r.input)) := by
  have hnew := h.not_recorded hr hp
  have hlt : i < s.requests.length := (List.getElem?_eq_some_iff.1 hr).1
  constructor
  · change (perform s.buckets result r.input).2 = replay (s.history ++ [_])
    rw [replay_concat, ← h.store]
  · change Legal (s.history ++ [_])
    rw [legal_concat, ← h.store]
    exact ⟨h.legal, rfl⟩
  · intro j r' response hr' hp'
    change ∃ _, _ ∈ s.history ++ [_]
    rcases getElem?_set_cases hr' with ⟨rfl, rfl⟩ | ⟨-, hr'⟩
    · obtain rfl := Phase.answered.inj hp'
      exact ⟨result, List.mem_append_right _ List.mem_cons_self⟩
    · obtain ⟨result', he⟩ := h.recorded j r' response hr' hp'
      exact ⟨result', List.mem_append_left _ he⟩
  · intro e he
    change (s.requests.set i _)[e.place]? = _
    rcases List.mem_append.1 he with he | he
    · have hne : i ≠ e.place := fun heq => hnew (heq ▸ List.mem_map_of_mem he)
      rw [List.getElem?_set_ne hne]
      exact h.answered e he
    · obtain rfl := List.mem_singleton.1 he
      exact List.getElem?_set_self hlt
  · change ((s.history ++ [_]).map _).Nodup
    rw [List.map_append, List.map_singleton]
    refine List.nodup_append.2 ⟨h.nodup, List.pairwise_singleton _ _, fun a ha b hb heq => ?_⟩
    obtain rfl := List.mem_singleton.1 hb
    exact hnew (heq ▸ ha)
  · intro j
    refine ⟨fun hlock => (by cases hlock), ?_⟩
    rintro ⟨r', hr', hp'⟩
    rcases getElem?_set_cases hr' with ⟨rfl, rfl⟩ | ⟨hj, hr'⟩
    · cases hp'
    · exact absurd hp' (h.not_collecting hr hfree hj hr')
  · intro j r' hr' hp'
    rcases getElem?_set_cases hr' with ⟨rfl, rfl⟩ | ⟨hj, hr'⟩
    · cases hp'
    · exact absurd hp' (h.not_collecting hr hfree hj hr')

/-- A request that is not answered, and changes the phase without an answer: `lock'` is right for
the new phase. -/
theorem Linear.setPhase {s : Server} (h : Linear s) {i : Nat} {r : Request} {phase : Phase}
    (hr : s.requests[i]? = some r) (hp : ∀ response, r.phase ≠ .answered response)
    (hphase : ∀ response, phase ≠ .answered response) (lock' : Option Nat)
    (hlock : ∀ j, lock' = some j ↔
      j = i ∧ phase = .collecting ∨ j ≠ i ∧ s.lock = some j)
    (hput : phase = .collecting →
      ∃ bucket key, r.input = .putObject bucket key true ∧ (s.buckets bucket).isSome) :
    Linear { s.setPhase i r phase with lock := lock' } := by
  have hlt : i < s.requests.length := (List.getElem?_eq_some_iff.1 hr).1
  refine ⟨h.store, h.legal, ?_, ?_, h.nodup, ?_, ?_⟩
  · intro j r' response hr' hp'
    rcases getElem?_set_cases hr' with ⟨rfl, rfl⟩ | ⟨-, hr'⟩
    · exact absurd hp' (hphase response)
    · exact h.recorded j r' response hr' hp'
  · intro e he
    change (s.requests.set i _)[e.place]? = _
    have hne : i ≠ e.place := fun heq => h.not_recorded hr hp (heq ▸ List.mem_map_of_mem he)
    rw [List.getElem?_set_ne hne]
    exact h.answered e he
  · intro j
    rw [hlock, h.holder]
    constructor
    · rintro (⟨rfl, rfl⟩ | ⟨hj, r', hr', hp'⟩)
      · exact ⟨_, List.getElem?_set_self hlt, rfl⟩
      · exact ⟨r', (List.getElem?_set_ne (Ne.symm hj)).trans hr', hp'⟩
    · rintro ⟨r', hr', hp'⟩
      rcases getElem?_set_cases hr' with ⟨rfl, rfl⟩ | ⟨hj, hr'⟩
      · exact Or.inl ⟨rfl, hp'⟩
      · exact Or.inr ⟨hj, r', hr', hp'⟩
  · intro j r' hr' hp'
    rcases getElem?_set_cases hr' with ⟨rfl, rfl⟩ | ⟨-, hr'⟩
    · exact hput hp'
    · exact h.admitted j r' hr' hp'

theorem Linear.request {s : Server} (h : Linear s) (input : Input) :
    Linear { s with requests := s.requests ++ [⟨input, .waiting⟩] } := by
  refine ⟨h.store, h.legal, ?_, ?_, h.nodup, ?_, ?_⟩
  · intro i r response hr hp
    rcases getElem?_concat_cases hr with hr | ⟨-, rfl⟩
    · exact h.recorded i r response hr hp
    · cases hp
  · intro e he
    have hold := h.answered e he
    exact (List.getElem?_append_left (List.getElem?_eq_some_iff.1 hold).1).trans hold
  · intro i
    rw [h.holder]
    constructor
    · rintro ⟨r, hr, hp⟩
      exact ⟨r, (List.getElem?_append_left (List.getElem?_eq_some_iff.1 hr).1).trans hr, hp⟩
    · rintro ⟨r, hr, hp⟩
      rcases getElem?_concat_cases hr with hr | ⟨-, rfl⟩
      · exact ⟨r, hr, hp⟩
      · cases hp
  · intro i r hr hp
    rcases getElem?_concat_cases hr with hr | ⟨-, rfl⟩
    · exact h.admitted i r hr hp
    · cases hp

theorem linear_start : Linear .start where
  store := rfl
  legal _ _ hp := by cases List.append_eq_nil_iff.1 (List.prefix_nil.1 hp) |>.2
  recorded i r response hr := by cases hr
  answered e he := by cases he
  nodup := List.nodup_nil
  holder i := by simp [Server.start]
  admitted i r hr := by cases hr

theorem linear_step {s t : Server} {a : Action} (h : Linear s) (hstep : server.step s a = some t) :
    Linear t := by
  cases step_cases hstep with
  | request input => exact h.request input
  | answered hr hp hlock => exact h.answer hr (by simp [hp]) (Or.inr hlock)
  | admitted hr hp hlock hinput hbucket =>
    refine h.setPhase hr (by simp [hp]) (by simp) _ (fun j => ?_)
      fun _ => ⟨_, _, hinput, hbucket⟩
    simp [hlock, eq_comm]
  | uploaded hr hp hinput result =>
    obtain ⟨bucket, key, heq, hbucket⟩ := h.admitted _ _ hr hp
    rw [hinput] at heq
    cases heq
    have hadmit := admitPut_eq_ok_iff.2 ⟨hbucket, rfl⟩
    have hanswer : Linear (s.answer _ _ result _) := h.answer hr (by simp [hp]) (Or.inl hp)
    simpa only [hinput, perform, hadmit] using hanswer
  | @left i r hr hp =>
    have hnot : s.lock ≠ some i := by
      rw [Ne, h.holder]
      rintro ⟨r', hr', hp'⟩
      rw [hr] at hr'
      obtain rfl := Option.some.inj hr'
      rw [hp] at hp'
      cases hp'
    refine h.setPhase hr (by simp [hp]) (by simp) s.lock (fun j => ?_) (by simp)
    by_cases hj : j = i
    · subst hj
      simp [hnot]
    · simp [hj]
  | @abandoned i r hr hp =>
    have hlock := (h.holder i).2 ⟨r, hr, hp⟩
    refine h.setPhase hr (by simp [hp]) (by simp) none (fun j => ?_) (by simp)
    simp [hlock, eq_comm]

theorem linear_run {schedule : List Action} {s : Server}
    (h : server.run .start schedule = some s) : Linear s :=
  server.run_invariant (fun _ _ _ ht hstep => linear_step ht hstep) linear_start h

/-- An answer is given once and for all. -/
theorem history_grows {s t : Server} {later : List Action} (h : server.run s later = some t) :
    s.history <+: t.history := by
  refine server.run_induction (I := fun _ t => s.history <+: t.history) List.prefix_rfl ?_ h
  intro _ u a v _ hu hstep
  cases step_cases hstep with
  | answered hr hp hlock => exact hu.trans (List.prefix_append _ _)
  | uploaded hr hp hinput result => exact hu.trans (List.prefix_append _ _)
  | request | admitted | left | abandoned => exact hu

/-- The bytes that the history has are those that the body gave. -/
theorem collected_of_history {schedule : List Action} {s : Server}
    (h : server.run .start schedule = some s) {e : Entry} (he : e ∈ s.history)
    {data : List UInt8} (hdata : e.result = some data) :
    .collected e.place (some data) ∈ schedule := by
  refine server.run_induction (I := fun schedule s => ∀ e ∈ s.history, ∀ data,
    e.result = some data → .collected e.place (some data) ∈ schedule) ?_ ?_ h e he data hdata
  · intro e he
    cases he
  · intro schedule s a t _ hs hstep e he data hdata
    have hold (he : e ∈ s.history) : .collected e.place (some data) ∈ schedule ++ [a] :=
      List.mem_append_left _ (hs e he data hdata)
    cases step_cases hstep with
    | answered hr hp hlock =>
      rcases List.mem_append.1 he with he | he
      · exact hold he
      · obtain rfl := List.mem_singleton.1 he
        cases hdata
    | uploaded hr hp hinput result =>
      rcases List.mem_append.1 he with he | he
      · exact hold he
      · obtain rfl := List.mem_singleton.1 he
        obtain rfl : result = some data := hdata
        exact List.mem_append_right _ List.mem_cons_self
    | request | admitted | left | abandoned => exact hold he

/-- **Linearizable.**  A request that is answered after the server was in state `s` has its place
behind all that were answered up to then, and its answer is the one that the requests before it in
this order call for: a read gives the bytes of the last upload of its object that succeeded.  Each
request has one place, and what the order says of a request is what its client was told. -/
theorem answers_in_order {schedule later : List Action} {s t : Server}
    (hs : server.run .start schedule = some s) (ht : server.run s later = some t)
    {i : Nat} {r : Request} {response : Response} (hr : t.requests[i]? = some r)
    (hp : r.phase = .answered response)
    (hopen : ∀ r', s.requests[i]? = some r' → r'.phase ≠ .answered response) :
    (∃ pre result, s.history <+: pre ∧ pre ++ [⟨i, r.input, result, response⟩] <+: t.history ∧
      response = answerTo pre result r.input) ∧
    (t.history.map (·.place)).Nodup ∧
    ∀ e ∈ t.history, t.requests[e.place]? = some ⟨e.input, .answered e.response⟩ ∧
      ∀ data, e.result = some data → .collected e.place (some data) ∈ schedule ++ later := by
  have hrun : server.run .start (schedule ++ later) = some t := by
    rw [Machine.run_append, hs]
    exact ht
  have h := linear_run hrun
  obtain ⟨result, he⟩ := h.recorded i r response hr hp
  obtain ⟨pre, post, heq⟩ := List.append_of_mem he
  have hpre : pre ++ [⟨i, r.input, result, response⟩] <+: t.history :=
    ⟨post, by rw [heq, List.append_assoc, List.singleton_append]⟩
  have hnew : ⟨i, r.input, result, response⟩ ∉ s.history := fun he =>
    hopen _ ((linear_run hs).answered _ he) rfl
  have hpast : s.history <+: pre := by
    rcases List.prefix_or_prefix_of_prefix (history_grows ht) hpre with hle | hle
    · rcases List.prefix_concat_iff.1 hle with heq | hle
      · exact absurd (heq ▸ List.mem_append_right _ List.mem_cons_self) hnew
      · exact hle
    · exact absurd (hle.subset (List.mem_append_right _ List.mem_cons_self)) hnew
  refine ⟨⟨pre, result, hpast, hpre, ?_⟩, h.nodup, fun e he => ⟨h.answered e he, fun data hdata =>
    collected_of_history hrun he hdata⟩⟩
  have hlegal : Legal pre := h.legal.of_prefix ((List.prefix_append _ _).trans hpre)
  rw [← perform_eq_answerTo (reflects_replay hlegal)]
  exact h.legal pre _ hpre

/-- Two uploads of one object, the second of which waits for its body, and a read of it. -/
def twoUploads : List Action :=
  [.request (.createBucket "b"), .enter 0, .request (.putObject "b" "k" true), .enter 1,
    .request (.putObject "b" "k" true), .collected 1 (some [1]), .enter 2,
    .request (.getObject "b" "k")]

theorem second_upload_is_read : ∃ s t : Server,
    server.run .start twoUploads = some s ∧
    server.run s [.collected 2 (some [2, 3]), .enter 3] = some t ∧
    t.requests[3]? = some ⟨.getObject "b" "k", .answered (.ok (.object [2, 3] 2))⟩ ∧
    ∃ pre result, s.history <+: pre ∧
      pre ++ [⟨3, .getObject "b" "k", result, .ok (.object [2, 3] 2)⟩] <+: t.history ∧
      .ok (.object [2, 3] 2) = answerTo pre result (.getObject "b" "k") := by
  refine ⟨_, _, rfl, rfl, rfl, ?_⟩
  refine (answers_in_order (i := 3) (r := ⟨.getObject "b" "k", .answered _⟩)
    (rfl : server.run .start twoUploads = some _)
    (rfl : server.run _ [.collected 2 (some [2, 3]), .enter 3] = some _) rfl rfl
    fun r' hr' => ?_).1
  obtain rfl := Option.some.inj hr'
  exact Phase.noConfusion

end RustSamples.S3
