/-
  Completed turns wake once (push.py, `PushObserver.observe` and `PushBridge.wake`).

  A turn is numbered by the `seq` of its start, or else by how many starts there were.
  The log of an observer tells of each frame what it said, and what became of it.

  * `wake_ready`: what one wake does, with a generic row and room in the queue;
  * `watchKept_observe`: the observer and the log agree.
-/
import Mathlib.Data.List.Perm.Subperm
import MercuryRelay.Lib.Run
import MercuryRelay.Push.Observer

set_option autoImplicit false

namespace MercuryRelay

open Python Transition

/-! ## One wake -/

namespace PushBridge

variable {functions : PushFunctions} {turn : WakeTurn} {b : PushBridge} {device : Str} {epoch : ℤ}
  {route : Option PushRoute} {preview : PreviewData} {identity : Bytes} {handle : Str}

/-- The wakes in the queue. -/
def wakeJobs (b : PushBridge) : ℕ := b.queue.countP (·.action = .wake)

theorem see_queue (key : WakeKey) : (b.see key).queue = b.queue := rfl

theorem see_put (key : WakeKey) (action : PushAction) (fields : List (Str × Json)) :
    (b.see key).put action handle fields = (b.put action handle fields).map (·.see key) := by
  unfold put
  rw [see_queue]
  split <;> rfl

theorem see_putUnregister (key : WakeKey) : (b.see key).putUnregister handle = (b.putUnregister handle).see key := by
  unfold putUnregister
  rw [see_put]
  cases b.put .unregister handle [] <;> rfl

/-- Seeing a key does not change what the start of the worker queues. -/
theorem see_start (key : WakeKey) : (b.see key).start = b.start.see key := by
  have hfold : ∀ (handles : List (Str × PushRow)) (b : PushBridge),
      handles.foldl (fun b x => b.putUnregister x.1) (b.see key) =
        (handles.foldl (fun b x => b.putUnregister x.1) b).see key := by
    intro handles
    induction handles with
    | nil => exact fun b => rfl
    | cons x handles ih =>
      intro b
      rw [List.foldl_cons, List.foldl_cons, see_putUnregister, ih]
  have hstarted : ((b.see key).started || (b.see key).closed) = (b.started || b.closed) := rfl
  unfold start
  rw [hstarted]
  split
  · rfl
  · exact hfold _ { b with started := true }

theorem putUnregister_rest : (b.putUnregister handle).wakeJobs = b.wakeJobs ∧ (b.putUnregister handle).seen = b.seen ∧
    (b.putUnregister handle).rows = b.rows := by
  unfold putUnregister put
  split
  · exact ⟨rfl, rfl, rfl⟩
  · refine ⟨?_, rfl, rfl⟩
    simp [wakeJobs, List.countP_append]

/-- The start of the worker queues no wake. -/
theorem start_rest : b.start.wakeJobs = b.wakeJobs ∧ b.start.seen = b.seen ∧ b.start.rows = b.rows := by
  have hfold : ∀ (handles : List (Str × PushRow)) (b : PushBridge),
      (handles.foldl (fun b x => b.putUnregister x.1) b).wakeJobs = b.wakeJobs ∧
        (handles.foldl (fun b x => b.putUnregister x.1) b).seen = b.seen ∧
        (handles.foldl (fun b x => b.putUnregister x.1) b).rows = b.rows := by
    intro handles
    induction handles with
    | nil => exact fun b => ⟨rfl, rfl, rfl⟩
    | cons x handles ih =>
      intro b
      obtain ⟨hjobs, hseen, hrows⟩ := ih (b.putUnregister x.1)
      obtain ⟨hjobs', hseen', hrows'⟩ := @putUnregister_rest b x.1
      exact ⟨hjobs.trans hjobs', hseen.trans hseen', hrows.trans hrows'⟩
  unfold start
  split
  · exact ⟨rfl, rfl, rfl⟩
  · exact hfold _ { b with started := true }

theorem keepRoute_rest (handle eventId : Str) : (b.keepRoute turn handle eventId device epoch route).queue = b.queue ∧
    (b.keepRoute turn handle eventId device epoch route).seen = b.seen := by
  cases route <;> exact ⟨rfl, rfl⟩

/-- One row is there for the device and the epoch, it is generic, and the queue has room. -/
structure Ready (b : PushBridge) (turn : WakeTurn) (device : Str) (epoch : ℤ) : Prop where
  authorized : b.isAuthorized turn device epoch = true
  row : ∃ handle row, b.validHandles turn device epoch = [handle] ∧ b.rows.get handle = some row ∧ row.mode = .generic
  room : b.start.queue.length < pushQueueSize

/-- **A wake** that was not seen is queued, unless the route raises. -/
theorem wake_ready (h : b.Ready turn device epoch) (hnew : ⟨device, epoch, identity⟩ ∉ b.seen) :
    (b.wake functions turn device epoch identity route preview).seen = remember b.seen ⟨device, epoch, identity⟩ ∧
      (b.wake functions turn device epoch identity route preview).wakeJobs =
        b.wakeJobs + if routeValid route = none then 0 else 1 := by
  obtain ⟨handle, row, hhandles, hrow, hgeneric⟩ := h.row
  have hwake : b.wake functions turn device epoch identity route preview =
      (b.see ⟨device, epoch, identity⟩).wakeNew functions turn device epoch route preview [handle] := by
    have hgo : ¬ (¬ b.isAuthorized turn device epoch = true ∨ b.validHandles turn device epoch = []) := by
      rw [h.authorized, hhandles]
      simp
    rw [wake, if_neg hgo, if_neg hnew, hhandles]
  rw [hwake, wakeNew]
  cases hroute : routeValid route with
  | none => exact ⟨rfl, rfl⟩
  | some valid =>
    obtain ⟨hjobs, -, -⟩ := @start_rest b
    have hroom : ¬ pushQueueSize ≤ b.start.queue.length := Nat.not_le.2 h.room
    have hput : (b.see ⟨device, epoch, identity⟩).enqueue .wake handle [(lit "event_id", .str (turn.eventId handle))] =
        (b.start.put .wake handle [(lit "event_id", .str (turn.eventId handle))]).map
          (·.see ⟨device, epoch, identity⟩) := by
      rw [enqueue, see_start, see_put]
    rw [put, if_neg hroom, Option.map_some] at hput
    have hrow' : (b.see ⟨device, epoch, identity⟩).rows.get handle = some row := hrow
    simp only [wakeRows, hrow', wakeFields, hgeneric, hput]
    constructor
    · rw [(keepRoute_rest _ _).2, clearPending, see, start_rest.2.1]
    · rw [wakeJobs, (keepRoute_rest _ _).1, clearPending, see_queue, List.countP_append, ← wakeJobs, hjobs]
      rfl

theorem wake_seen (hseen : ⟨device, epoch, identity⟩ ∈ b.seen) :
    b.wake functions turn device epoch identity route preview = b := by
  unfold wake
  dsimp only
  split
  · rfl
  · rfl

end PushBridge

/-! ## The log -/

/-- What is told of a frame: what it said, whether the route of its session raises, the identity that
    a wake was asked for, and how many wakes were queued. -/
structure WatchEntry where
  observation : Observation
  unencodable : Bool
  offered : Option WakeIdentity
  jobs : ℕ
  deriving DecidableEq

/-- The session of a frame. -/
def Observation.session : Observation → Option Str
  | .nothing => none
  | .title sid _ | .start sid _ | .complete sid _ _ | .attention sid _ _ => some sid

/-- A frame, or what else happens to the bridge. -/
inductive WatchEvent where
  | observe (turn : ObserveTurn) (text : Str)
  | other (bridge : PushBridge)

namespace PushWatch

variable (functions : PushFunctions) (repr : WakeIdentity → Bytes)

def entry (w : PushWatch) (turn : ObserveTurn) (observation : Observation) : WatchEntry where
  observation := observation
  unencodable := observation.session.any fun sid => PushBridge.routeValid (turn.binding sid) = none
  offered := (w.observer.wakes observation).map (·.2.1)
  jobs := (w.observe functions repr turn observation).bridge.wakeJobs - w.bridge.wakeJobs

/-- A frame finds a generic row and room; nobody else has wakes seen. -/
def Step (depths : JsonDepths) (m : PushWatch × List WatchEntry) (e : WatchEvent) (m' : PushWatch × List WatchEntry) :
    Prop :=
  match e with
  | .observe turn text =>
    let observation := Observation.ofText functions.unicode depths text
    m.1.bridge.Ready turn.toWakeTurn m.1.device m.1.epoch ∧
      m' = (m.1.observe functions repr turn observation, m.2 ++ [m.1.entry functions repr turn observation])
  | .other bridge => bridge.seen = m.1.bridge.seen ∧ m' = ({ m.1 with bridge := bridge }, m.2)

end PushWatch

namespace WatchLog

variable {log : List WatchEntry} {sid : Str} {i j k : ℕ}

/-- A turn starts. -/
def StartAt (log : List WatchEntry) (i : ℕ) (sid : Str) (seq : Option ℤ) : Prop :=
  log[i]?.map (·.observation) = some (.start sid seq)

/-- A completion is observed. -/
def CompleteAt (log : List WatchEntry) (i : ℕ) (sid : Str) : Prop :=
  ∃ seq content, log[i]?.map (·.observation) = some (.complete sid seq content)

/-- Between the start of a turn and the next one of its session. -/
structure InTurn (log : List WatchEntry) (sid : Str) (i j : ℕ) : Prop where
  start : ∃ seq, StartAt log i sid seq
  later : i < j
  same : ∀ k, i < k → k < j → ∀ seq, ¬ StartAt log k sid seq

/-- A completion of a turn. -/
def Completes (log : List WatchEntry) (sid : Str) (i j : ℕ) : Prop := InTurn log sid i j ∧ CompleteAt log j sid

/-- The first completion of a turn. -/
def First (log : List WatchEntry) (sid : Str) (i j : ℕ) : Prop :=
  Completes log sid i j ∧ ∀ k, i < k → k < j → ¬ CompleteAt log k sid

/-- The starts among the entries. -/
def starts (log : List WatchEntry) : ℕ :=
  log.countP fun e => match e.observation with | .start _ _ => true | _ => false

/-- The number that the turn has that starts here. -/
def number (log : List WatchEntry) (i : ℕ) (seq : Option ℤ) : ℤ := seq.getD (starts (log.take i) + 1 : ℕ)

/-- A turn with a completion, and its number. -/
def IsTurn (log : List WatchEntry) (sid : Str) (i : ℕ) (n : ℤ) : Prop :=
  (∃ j, Completes log sid i j) ∧ ∃ seq, StartAt log i sid seq ∧ n = number log i seq

/-- What was queued, and asked for, here. -/
def jobsAt (log : List WatchEntry) (j : ℕ) : ℕ := (log[j]?.map (·.jobs)).getD 0

def offeredAt (log : List WatchEntry) (j : ℕ) : Option WakeIdentity := log[j]?.bind (·.offered)

/-! ### What is said of turns -/

/-- Every turn with a completion queues one wake, and no two of them have an identity in common. -/
structure WakesOnce (digest : WakeIdentity → Bytes) (log : List WatchEntry) : Prop where
  once : ∀ sid i n, IsTurn log sid i n → ∃ j, Completes log sid i j ∧ jobsAt log j = 1 ∧
    ∀ k, Completes log sid i k → k ≠ j → jobsAt log k = 0
  apart : ∀ sid i n sid' i' n', IsTurn log sid i n → IsTurn log sid' i' n' → i ≠ i' → ∀ j j', Completes log sid i j →
    Completes log sid' i' j' → ∀ a ∈ offeredAt log j, ∀ a' ∈ offeredAt log j', digest a ≠ digest a'

/-- The turns of a session are numbered apart, and the route of its first completion encodes. -/
structure Numbered (log : List WatchEntry) : Prop where
  numbers : ∀ sid i n i' n', IsTurn log sid i n → IsTurn log sid i' n' → i ≠ i' → n ≠ n'
  encodes : ∀ sid i j, First log sid i j → ∀ e ∈ log[j]?, e.unencodable = false

/-- There are few sessions and few identities. -/
structure Few (log : List WatchEntry) : Prop where
  sessions : ∃ sids : List Str, sids.length ≤ maxTurns ∧ ∀ i sid seq, StartAt log i sid seq → sid ∈ sids
  identities : ∃ identities : List WakeIdentity, identities.length < maxSeen ∧
    ∀ j, ∀ a ∈ offeredAt log j, a ∈ identities

/-- No two identities have a digest in common. -/
def NoCollision (digest : WakeIdentity → Bytes) (log : List WatchEntry) : Prop :=
  ∀ j j', ∀ a ∈ offeredAt log j, ∀ a' ∈ offeredAt log j', digest a = digest a' → a = a'

/-! ### An entry more -/

variable {e : WatchEntry} {seq : Option ℤ} {digest : WakeIdentity → Bytes}

theorem observation_snoc (k : ℕ) : (log ++ [e])[k]?.map (·.observation) =
    if k = log.length then some e.observation else log[k]?.map (·.observation) := by
  split
  · rename_i hk
    rw [hk, List.getElem?_concat_length, Option.map_some]
  · rename_i hk
    rcases Nat.lt_or_ge k log.length with hlt | hge
    · rw [List.getElem?_append_left hlt]
    · rw [List.getElem?_eq_none hge, List.getElem?_eq_none]
      rw [List.length_append, List.length_singleton]
      omega

theorem startAt_snoc : StartAt (log ++ [e]) k sid seq ↔
    k = log.length ∧ e.observation = .start sid seq ∨ k ≠ log.length ∧ StartAt log k sid seq := by
  rw [StartAt, observation_snoc]
  split
  · rename_i hk
    simp [hk]
  · rename_i hk
    simp [hk, StartAt]

theorem completeAt_snoc : CompleteAt (log ++ [e]) k sid ↔
    k = log.length ∧ (∃ seq content, e.observation = .complete sid seq content) ∨ k ≠ log.length ∧ CompleteAt log k sid := by
  rw [CompleteAt, observation_snoc]
  split
  · rename_i hk
    simp [hk]
  · rename_i hk
    simp [hk, CompleteAt]

theorem StartAt.lt (h : StartAt log k sid seq) : k < log.length := by
  rw [StartAt] at h
  obtain ⟨e, he, -⟩ := Option.map_eq_some_iff.1 h
  exact (List.getElem?_eq_some_iff.1 he).1

theorem CompleteAt.lt (h : CompleteAt log k sid) : k < log.length := by
  obtain ⟨seq, content, h⟩ := h
  obtain ⟨e, he, -⟩ := Option.map_eq_some_iff.1 h
  exact (List.getElem?_eq_some_iff.1 he).1

theorem StartAt.snoc (h : StartAt log k sid seq) (e : WatchEntry) : StartAt (log ++ [e]) k sid seq :=
  startAt_snoc.2 (.inr ⟨h.lt.ne, h⟩)

theorem CompleteAt.snoc (h : CompleteAt log k sid) (e : WatchEntry) : CompleteAt (log ++ [e]) k sid :=
  completeAt_snoc.2 (.inr ⟨h.lt.ne, h⟩)

theorem startAt_of_snoc (hk : k < log.length) (h : StartAt (log ++ [e]) k sid seq) : StartAt log k sid seq :=
  (startAt_snoc.1 h).elim (fun h => absurd h.1 hk.ne) (·.2)

theorem completeAt_of_snoc (hk : k < log.length) (h : CompleteAt (log ++ [e]) k sid) : CompleteAt log k sid :=
  (completeAt_snoc.1 h).elim (fun h => absurd h.1 hk.ne) (·.2)

theorem number_snoc (h : StartAt log i sid seq) : number (log ++ [e]) i seq = number log i seq := by
  rw [number, List.take_append_of_le_length h.lt.le, number]

theorem offeredAt_snoc (hk : k < log.length) : offeredAt (log ++ [e]) k = offeredAt log k := by
  rw [offeredAt, List.getElem?_append_left hk, offeredAt]

theorem offeredAt_last : offeredAt (log ++ [e]) log.length = e.offered := by
  rw [offeredAt, List.getElem?_concat_length, Option.bind_some]

theorem offeredAt_lt {a : WakeIdentity} (h : a ∈ offeredAt log k) : k < log.length := by
  obtain ⟨e, he, -⟩ := Option.bind_eq_some_iff.1 h
  exact (List.getElem?_eq_some_iff.1 he).1

theorem offered_snoc {a : WakeIdentity} (h : a ∈ offeredAt log k) (e : WatchEntry) :
    a ∈ offeredAt (log ++ [e]) k := by
  rw [offeredAt_snoc (offeredAt_lt h)]
  exact h

theorem InTurn.snoc (h : InTurn log sid i j) (hj : j ≤ log.length) (e : WatchEntry) : InTurn (log ++ [e]) sid i j :=
  ⟨h.start.imp fun _ hs => hs.snoc e, h.later, fun k hik hkj seq hk =>
    h.same k hik hkj seq (startAt_of_snoc (hkj.trans_le hj) hk)⟩

theorem First.snoc (h : First log sid i j) (e : WatchEntry) : First (log ++ [e]) sid i j :=
  ⟨⟨h.1.1.snoc h.1.2.lt.le e, h.1.2.snoc e⟩, fun k hik hkj hk =>
    h.2 k hik hkj (completeAt_of_snoc (hkj.trans h.1.2.lt) hk)⟩

theorem Few.of_snoc (h : Few (log ++ [e])) : Few log := by
  obtain ⟨sids, hlen, hsids⟩ := h.sessions
  obtain ⟨identities, hlen', hidentities⟩ := h.identities
  exact ⟨⟨sids, hlen, fun i sid seq hi => hsids i sid seq (hi.snoc e)⟩,
    ⟨identities, hlen', fun j a ha => hidentities j a (offered_snoc ha e)⟩⟩

/-! ### What is said of an entry -/

/-- The identity that a wake is asked for. -/
def Offered (log : List WatchEntry) (j : ℕ) (e : WatchEntry) : Prop :=
  match e.observation with
  | .complete sid _ _ =>
    (∃ i seq, First log sid i j ∧ StartAt log i sid seq ∧ e.offered = some (.turn sid (number log i seq))) ∨
    (∃ i k, InTurn log sid i j ∧ i < k ∧ k < j ∧ CompleteAt log k sid ∧ e.offered = none) ∨
    (∀ k < j, ∀ seq, ¬ StartAt log k sid seq) ∧ ∀ sid' n, e.offered ≠ some (.turn sid' n)
  | _ => ∀ sid n, e.offered ≠ some (.turn sid n)

/-- The wakes that are queued. -/
structure Queued (digest : WakeIdentity → Bytes) (log : List WatchEntry) (j : ℕ) (e : WatchEntry) : Prop where
  none : e.offered = none → e.jobs = 0
  again : ∀ a ∈ e.offered, (∃ k < j, ∃ b ∈ offeredAt log k, digest b = digest a) → e.jobs = 0
  fresh : ∀ a ∈ e.offered, (∀ k < j, ∀ b ∈ offeredAt log k, digest b ≠ digest a) →
    e.jobs = if e.unencodable then 0 else 1

theorem Offered.snoc {x : WatchEntry} (h : Offered log j x) (hj : j < log.length) (e : WatchEntry) :
    Offered (log ++ [e]) j x := by
  unfold Offered at h ⊢
  split
  · rename_i sid seq content hobservation
    rw [hobservation] at h
    rcases h with ⟨i, seq, hfirst, hstart, ho⟩ | ⟨i, k, hturn, hik, hkj, hk, ho⟩ | ⟨hnone, ho⟩
    · exact .inl ⟨i, seq, hfirst.snoc e, hstart.snoc e, by rw [number_snoc hstart]; exact ho⟩
    · exact .inr (.inl ⟨i, k, hturn.snoc hj.le e, hik, hkj, hk.snoc e, ho⟩)
    · exact .inr (.inr ⟨fun k hk seq hs => hnone k hk seq (startAt_of_snoc (hk.trans hj) hs), ho⟩)
  · rename_i hother
    split at h
    · rename_i sid seq content hobservation
      exact absurd hobservation (hother sid seq content)
    · exact h

theorem Queued.snoc {x : WatchEntry} (h : Queued digest log j x) (hj : j < log.length) (e : WatchEntry) :
    Queued digest (log ++ [e]) j x := by
  refine ⟨h.none, fun a ha => ?_, fun a ha hnew => ?_⟩
  · rintro ⟨k, hk, b, hb, heq⟩
    rw [offeredAt_snoc (hk.trans hj)] at hb
    exact h.again a ha ⟨k, hk, b, hb, heq⟩
  · refine h.fresh a ha fun k hk b hb => hnew k hk b ?_
    exact offered_snoc hb e

/-- What the observer knows of turns. -/
structure TurnsKept (o : PushObserver) (log : List WatchEntry) : Prop where
  serial : o.serial = starts log
  keyed : o.turns.Keyed
  turn : ∀ (sid : Str) (n : ℤ) (done : Bool), o.turns.get sid = some (n, done) →
    ∃ i seq, StartAt log i sid seq ∧ (∀ k, i < k → ∀ seq, ¬ StartAt log k sid seq) ∧ n = number log i seq ∧
      (done = true ↔ ∃ k, i < k ∧ CompleteAt log k sid)
  fresh : ∀ (sid : Str), o.turns.get sid = none → ∀ k seq, ¬ StartAt log k sid seq

/-- The observer, the keys that were seen and the log agree. -/
structure WatchKept (digest : WakeIdentity → Bytes) (w : PushWatch) (log : List WatchEntry) : Prop
    extends TurnsKept w.observer log where
  nodup : w.bridge.seen.Nodup
  seen : ∀ key, key ∈ w.bridge.seen ↔ ∃ j, ∃ a ∈ offeredAt log j, key = ⟨w.device, w.epoch, digest a⟩
  entries : ∀ (j : ℕ) (e : WatchEntry), log[j]? = some e → Offered log j e ∧ Queued digest log j e

/-! ### Every frame -/

section Frames

variable {w : PushWatch} {seq₀ : Option ℤ} {o : Observation}

theorem last_of_le {κ α : Type} {d : Dict κ α} {n : ℕ} (h : d.length ≤ n) : Dict.last n d = d := by
  rw [Dict.last, Nat.sub_eq_zero_of_le h, List.drop_zero]

/-- There is room for the turn of one session more. -/
theorem WatchKept.startTurn_turns (h : WatchKept digest w log) (hfew : Few (log ++ [e]))
    (ho : e.observation = .start sid seq₀) :
    (w.observer.startTurn sid seq₀).turns = w.observer.turns.set sid (number (log ++ [e]) log.length seq₀, false) := by
  have hnumber : number (log ++ [e]) log.length seq₀ = seq₀.getD (w.observer.serial + 1 : ℕ) := by
    rw [number, List.take_left, h.serial]
  rw [hnumber]
  refine last_of_le ?_
  obtain ⟨sids, hlen, hsids⟩ := hfew.sessions
  have hkeyed := h.keyed.set sid (seq₀.getD (w.observer.serial + 1 : ℕ), false)
  have hsub : (w.observer.turns.set sid (seq₀.getD (w.observer.serial + 1 : ℕ), false)).map (·.1) ⊆ sids := by
    intro x hx
    rcases Dict.keys_set_subset hx with rfl | hx
    · exact hsids log.length x seq₀ (startAt_snoc.2 (.inl ⟨rfl, ho⟩))
    · obtain ⟨⟨key, n, done⟩, hmem, rfl⟩ := List.mem_map.1 hx
      obtain ⟨i, seq, hstart, -⟩ := h.turn key n done (h.keyed.get_of_mem hmem)
      exact hsids i key seq (hstart.snoc e)
  have hle := (List.Nodup.subperm hkeyed hsub).length_le
  rw [List.length_map] at hle
  exact hle.trans hlen

theorem starts_snoc : starts (log ++ [e]) = starts log +
    if (match e.observation with | .start _ _ => true | _ => false) then 1 else 0 := by
  rw [starts, List.countP_append, List.countP_singleton, starts]

/-- The number of a turn stays, and so does what is said of its start. -/
theorem WatchKept.turn_snoc (h : WatchKept digest w log) {n : ℤ} {done : Bool}
    (hget : w.observer.turns.get sid = some (n, done)) (hstart : ∀ seq, e.observation ≠ .start sid seq) :
    ∃ i seq, StartAt (log ++ [e]) i sid seq ∧ (∀ k, i < k → ∀ seq, ¬ StartAt (log ++ [e]) k sid seq) ∧
      n = number (log ++ [e]) i seq ∧ ((done = true ∨ ∃ seq content, e.observation = .complete sid seq content) ↔
        ∃ k, i < k ∧ CompleteAt (log ++ [e]) k sid) := by
  obtain ⟨i, seq, hi, hlast, hn, hdone⟩ := h.turn sid n done hget
  refine ⟨i, seq, hi.snoc e, fun k hik seq' hk => ?_, by rw [number_snoc hi]; exact hn, ?_⟩
  · rcases startAt_snoc.1 hk with ⟨-, hk⟩ | ⟨-, hk⟩
    · exact hstart seq' hk
    · exact hlast k hik seq' hk
  · constructor
    · rintro (hd | hc)
      · obtain ⟨k, hik, hk⟩ := hdone.1 hd
        exact ⟨k, hik, hk.snoc e⟩
      · exact ⟨log.length, hi.lt, completeAt_snoc.2 (.inl ⟨rfl, hc⟩)⟩
    · rintro ⟨k, hik, hk⟩
      rcases completeAt_snoc.1 hk with ⟨-, hc⟩ | ⟨-, hk⟩
      · exact .inr hc
      · exact .inl (hdone.2 ⟨k, hik, hk⟩)

theorem WatchKept.fresh_snoc (h : WatchKept digest w log) (hget : w.observer.turns.get sid = none)
    (hstart : ∀ seq, e.observation ≠ .start sid seq) (k : ℕ) (seq : Option ℤ) : ¬ StartAt (log ++ [e]) k sid seq := by
  intro hk
  rcases startAt_snoc.1 hk with ⟨-, hk⟩ | ⟨-, hk⟩
  · exact hstart seq hk
  · exact h.fresh sid hget k seq hk

/-- A frame that says nothing of turns. -/
theorem WatchKept.quiet (h : WatchKept digest w log) (hstart : ∀ sid seq, e.observation ≠ .start sid seq)
    (hcomplete : ∀ sid seq content, e.observation ≠ .complete sid seq content) {o : PushObserver}
    (hserial : o.serial = w.observer.serial) (hturns : o.turns = w.observer.turns) : TurnsKept o (log ++ [e]) := by
  constructor
  · rw [hserial, h.serial, starts_snoc]
    cases ho : e.observation with
    | start sid seq => exact absurd ho (hstart sid seq)
    | _ => rfl
  · rw [hturns]
    exact h.keyed
  · intro sid n done hget
    rw [hturns] at hget
    obtain ⟨i, seq, hi, hlast, hn, hdone⟩ := h.turn_snoc hget (hstart sid)
    exact ⟨i, seq, hi, hlast, hn, ⟨fun hd => hdone.1 (.inl hd), fun hk => (hdone.2 hk).resolve_right fun hc => by
      obtain ⟨seq, content, hc⟩ := hc
      exact hcomplete sid seq content hc⟩⟩
  · intro sid hget
    rw [hturns] at hget
    exact h.fresh_snoc hget (hstart sid)

/-- **After a frame**, the observer still knows the turns. -/
theorem WatchKept.noted (h : WatchKept digest w log) (hfew : Few (log ++ [e])) :
    TurnsKept (w.observer.note e.observation) (log ++ [e]) := by
  cases ho : e.observation with
  | nothing => exact h.quiet (by simp [ho]) (by simp [ho]) rfl rfl
  | title sid title => exact h.quiet (by simp [ho]) (by simp [ho]) rfl rfl
  | attention sid kind request => exact h.quiet (by simp [ho]) (by simp [ho]) rfl rfl
  | start sid₀ seq₀ =>
    have hturns := h.startTurn_turns hfew ho
    constructor
    · show w.observer.serial + 1 = _
      rw [h.serial, starts_snoc, ho]
      rfl
    · show (w.observer.startTurn sid₀ seq₀).turns.Keyed
      rw [hturns]
      exact h.keyed.set _ _
    · intro sid n done hget
      have hget : (w.observer.startTurn sid₀ seq₀).turns.get sid = some (n, done) := hget
      rw [hturns, Dict.get_set] at hget
      split at hget
      · rename_i hsid
        obtain ⟨rfl, rfl⟩ := Prod.mk.inj (Option.some.inj hget)
        refine ⟨log.length, seq₀, startAt_snoc.2 (.inl ⟨rfl, hsid ▸ ho⟩), fun k hk seq hs => ?_, rfl, ?_⟩
        · have hlt := hs.lt
          rw [List.length_append, List.length_singleton] at hlt
          omega
        · constructor
          · exact fun hf => absurd hf (by decide)
          · rintro ⟨k, hk, hc⟩
            have hlt := hc.lt
            rw [List.length_append, List.length_singleton] at hlt
            omega
      · rename_i hsid
        obtain ⟨i, seq, hi, hlast, hn, hdone⟩ := h.turn_snoc (e := e) hget fun seq hs => by
          rw [ho] at hs
          exact hsid (Observation.start.inj hs).1
        refine ⟨i, seq, hi, hlast, hn, fun hd => hdone.1 (.inl hd), fun hk => (hdone.2 hk).resolve_right ?_⟩
        rintro ⟨seq, content, hc⟩
        rw [ho] at hc
        cases hc
    · intro sid hget
      have hget : (w.observer.startTurn sid₀ seq₀).turns.get sid = none := hget
      rw [hturns, Dict.get_set] at hget
      split at hget
      · cases hget
      · rename_i hsid
        refine h.fresh_snoc hget fun seq hs => ?_
        rw [ho] at hs
        exact hsid (Observation.start.inj hs).1
  | complete sid₀ seq₀ content₀ =>
    have hstart : ∀ sid seq, e.observation ≠ .start sid seq := by simp [ho]
    have hserial : starts (log ++ [e]) = starts log := by
      rw [starts_snoc, ho]
      rfl
    cases hturn : w.observer.turns.get sid₀ with
    | none =>
      have hsame : w.observer.complete sid₀ = w.observer := by rw [PushObserver.complete, hturn]
      show TurnsKept (w.observer.complete sid₀) _
      rw [hsame]
      refine ⟨h.serial.trans hserial.symm, h.keyed, fun sid n done hget => ?_, fun sid hget =>
        h.fresh_snoc hget (hstart sid)⟩
      obtain ⟨i, seq, hi, hlast, hn, hdone⟩ := h.turn_snoc hget (hstart sid)
      refine ⟨i, seq, hi, hlast, hn, fun hd => hdone.1 (.inl hd), fun hk => (hdone.2 hk).resolve_right ?_⟩
      rintro ⟨seq, content, hc⟩
      rw [ho] at hc
      obtain ⟨rfl, -, -⟩ := Observation.complete.inj hc
      rw [hturn] at hget
      cases hget
    | some x =>
      obtain ⟨n₀, done₀⟩ := x
      have hsame : w.observer.complete sid₀ =
          { w.observer with turns := w.observer.turns.set sid₀ (n₀, true) } := by
        rw [PushObserver.complete, hturn]
      show TurnsKept (w.observer.complete sid₀) _
      rw [hsame]
      refine ⟨h.serial.trans hserial.symm, h.keyed.set _ _, fun sid n done hget => ?_, fun sid hget => ?_⟩
      · rw [Dict.get_set] at hget
        split at hget
        · rename_i hsid
          obtain ⟨rfl, rfl⟩ := Prod.mk.inj (Option.some.inj hget)
          subst hsid
          obtain ⟨i, seq, hi, hlast, hn, hdone⟩ := h.turn_snoc hturn (hstart sid₀)
          exact ⟨i, seq, hi, hlast, hn, fun _ => hdone.1 (.inr ⟨seq₀, content₀, ho⟩), fun _ => rfl⟩
        · rename_i hsid
          obtain ⟨i, seq, hi, hlast, hn, hdone⟩ := h.turn_snoc hget (hstart sid)
          refine ⟨i, seq, hi, hlast, hn, fun hd => hdone.1 (.inl hd), fun hk => (hdone.2 hk).resolve_right ?_⟩
          rintro ⟨seq, content, hc⟩
          rw [ho] at hc
          exact hsid (Observation.complete.inj hc).1
      · rw [Dict.get_set] at hget
        split at hget
        · cases hget
        · exact h.fresh_snoc hget (hstart sid)

/-- What a wake is asked for, by what the log says of turns. -/
theorem WatchKept.offers (h : WatchKept digest w log) {o : Observation} (ho : e.observation = o)
    (hoffered : e.offered = (w.observer.wakes o).map (·.2.1)) : Offered (log ++ [e]) log.length e := by
  unfold Offered
  subst ho
  split
  · rename_i sid seq content hobservation
    rw [hobservation] at hoffered
    have hcomplete : CompleteAt (log ++ [e]) log.length sid := completeAt_snoc.2 (.inl ⟨rfl, seq, content, hobservation⟩)
    cases hturn : w.observer.turns.get sid with
    | none =>
      refine .inr (.inr ⟨fun k hk seq' hs => ?_, fun sid' n ho => ?_⟩)
      · exact h.fresh sid hturn k seq' (startAt_of_snoc hk hs)
      · rw [hoffered] at ho
        simp only [PushObserver.wakes, PushObserver.completes, hturn, Option.map_map, Option.map_eq_some_iff] at ho
        obtain ⟨encoded, -, ho⟩ := ho
        cases ho
    | some x =>
      obtain ⟨n, done⟩ := x
      obtain ⟨i, seq', hi, hlast, hn, hdone⟩ := h.turn sid n done hturn
      have hin : InTurn (log ++ [e]) sid i log.length := ⟨⟨seq', hi.snoc e⟩, hi.lt, fun k hik hk seq'' hs =>
        hlast k hik seq'' (startAt_of_snoc hk hs)⟩
      cases done with
      | true =>
        obtain ⟨k, hik, hk⟩ := hdone.1 rfl
        refine .inr (.inl ⟨i, k, hin, hik, hk.lt, hk.snoc e, ?_⟩)
        rw [hoffered]
        simp [PushObserver.wakes, PushObserver.completes, hturn]
      | false =>
        refine .inl ⟨i, seq', ⟨⟨hin, hcomplete⟩, fun k hik hk hc => ?_⟩, hi.snoc e, ?_⟩
        · exact absurd (hdone.2 ⟨k, hik, completeAt_of_snoc hk hc⟩) (by decide)
        · rw [hoffered, number_snoc hi, ← hn]
          simp [PushObserver.wakes, PushObserver.completes, hturn]
  · rename_i hother
    intro sid n ho
    rw [hoffered] at ho
    cases hobservation : e.observation with
    | complete sid seq content => exact hother sid seq content hobservation
    | attention sid' kind request =>
      rw [hobservation] at ho
      cases ho
    | nothing | title | start =>
      rw [hobservation] at ho
      cases ho

variable {functions : PushFunctions} {repr : WakeIdentity → Bytes} {turn : ObserveTurn} {depths : JsonDepths}
  {text : Str}

/-- A key that is new goes last, while there are few. -/
theorem WatchKept.remembers (h : WatchKept digest w log) (hfew : Few (log ++ [e])) {a : WakeIdentity}
    (ha : e.offered = some a) (hnew : (⟨w.device, w.epoch, digest a⟩ : WakeKey) ∉ w.bridge.seen) :
    PushBridge.remember w.bridge.seen ⟨w.device, w.epoch, digest a⟩ =
      w.bridge.seen ++ [⟨w.device, w.epoch, digest a⟩] := by
  obtain ⟨identities, hlen, hidentities⟩ := hfew.identities
  have hnodup : (w.bridge.seen ++ [(⟨w.device, w.epoch, digest a⟩ : WakeKey)]).Nodup :=
    List.nodup_append.2 ⟨h.nodup, by simp, fun x hx y hy => by
      rw [List.mem_singleton.1 hy]
      rintro rfl
      exact hnew hx⟩
  have hsub : w.bridge.seen ++ [(⟨w.device, w.epoch, digest a⟩ : WakeKey)] ⊆
      identities.map fun b => ⟨w.device, w.epoch, digest b⟩ := by
    intro key hkey
    rcases List.mem_append.1 hkey with hkey | hkey
    · obtain ⟨j, b, hb, rfl⟩ := (h.seen key).1 hkey
      exact List.mem_map.2 ⟨b, hidentities j b (offered_snoc hb e), rfl⟩
    · rw [List.mem_singleton.1 hkey]
      refine List.mem_map.2 ⟨a, hidentities log.length a ?_, rfl⟩
      rw [offeredAt_last]
      exact ha
  have hle := (List.Nodup.subperm hnodup hsub).length_le
  rw [List.length_map] at hle
  have hnone : (w.bridge.seen ++ [(⟨w.device, w.epoch, digest a⟩ : WakeKey)]).length - maxSeen = 0 := by omega
  unfold PushBridge.remember
  rw [hnone]
  exact List.drop_zero

/-- **A frame** keeps the observer, the keys that were seen and the log in agreement. -/
theorem watchKept_observe (h : WatchKept (WakeIdentity.digest repr) w log) {o : Observation}
    (hready : w.bridge.Ready turn.toWakeTurn w.device w.epoch)
    (hfew : Few (log ++ [w.entry functions repr turn o])) :
    WatchKept (WakeIdentity.digest repr) (w.observe functions repr turn o) (log ++ [w.entry functions repr turn o]) := by
  set e := w.entry functions repr turn o with he
  have hnoted : TurnsKept (w.observer.note o) (log ++ [e]) := h.noted hfew
  have hentries : Queued (WakeIdentity.digest repr) (log ++ [e]) log.length e →
      ∀ (j : ℕ) (x : WatchEntry), (log ++ [e])[j]? = some x →
        Offered (log ++ [e]) j x ∧ Queued (WakeIdentity.digest repr) (log ++ [e]) j x := by
    intro hqueued j x hx
    rcases Nat.lt_or_ge j log.length with hj | hj
    · rw [List.getElem?_append_left hj] at hx
      exact ⟨(h.entries j x hx).1.snoc hj e, (h.entries j x hx).2.snoc hj e⟩
    · have hlt := (List.getElem?_eq_some_iff.1 hx).1
      rw [List.length_append, List.length_singleton] at hlt
      obtain rfl : j = log.length := by omega
      rw [List.getElem?_concat_length] at hx
      obtain rfl := Option.some.inj hx
      exact ⟨h.offers rfl rfl, hqueued⟩
  have hseenOld : ∀ key, (∃ j, ∃ a ∈ offeredAt (log ++ [e]) j, key = (⟨w.device, w.epoch, a.digest repr⟩ : WakeKey)) ↔
      key ∈ w.bridge.seen ∨ ∃ a ∈ e.offered, key = (⟨w.device, w.epoch, a.digest repr⟩ : WakeKey) := by
    intro key
    rw [h.seen key]
    constructor
    · rintro ⟨j, a, ha, rfl⟩
      rcases Nat.lt_or_ge j log.length with hj | hj
      · rw [offeredAt_snoc hj] at ha
        exact .inl ⟨j, a, ha, rfl⟩
      · have hlt := offeredAt_lt ha
        rw [List.length_append, List.length_singleton] at hlt
        obtain rfl : j = log.length := by omega
        rw [offeredAt_last] at ha
        exact .inr ⟨a, ha, rfl⟩
    · rintro (⟨j, a, ha, rfl⟩ | ⟨a, ha, rfl⟩)
      · exact ⟨j, a, offered_snoc ha e, rfl⟩
      · exact ⟨log.length, a, by rw [offeredAt_last]; exact ha, rfl⟩
  have hjobs : e.jobs = (w.observe functions repr turn o).bridge.wakeJobs - w.bridge.wakeJobs := rfl
  have hoffered : e.offered = (w.observer.wakes o).map (·.2.1) := rfl
  cases hwakes : w.observer.wakes o with
  | none =>
    rw [hwakes, Option.map_none] at hoffered
    have hbridge : (w.observe functions repr turn o).bridge = w.bridge := by
      simp only [PushWatch.observe, hwakes]
    rw [hbridge, Nat.sub_self] at hjobs
    refine ⟨hnoted, ?_, fun key => ?_, hentries ?_⟩
    · rw [hbridge]
      exact h.nodup
    · rw [hbridge]
      refine Iff.trans ?_ (hseenOld key).symm
      rw [hoffered]
      simp
    · refine ⟨fun _ => hjobs, fun a ha => ?_, fun a ha => ?_⟩
      · rw [hoffered] at ha
        cases ha
      · rw [hoffered] at ha
        cases ha
  | some x =>
    obtain ⟨sid, a, preview⟩ := x
    rw [hwakes, Option.map_some] at hoffered
    have hbridge : (w.observe functions repr turn o).bridge = w.bridge.wake functions turn.toWakeTurn w.device w.epoch
        (a.digest repr) (turn.binding sid) (w.titled sid (turn.binding sid) preview) := by
      simp only [PushWatch.observe, hwakes]
    have hencodes : e.unencodable = decide (PushBridge.routeValid (turn.binding sid) = none) := by
      have hsession : o.session = some sid := by
        cases o with
        | complete sid' seq content =>
          simp only [PushObserver.wakes, Option.map_eq_some_iff, Prod.mk.injEq] at hwakes
          obtain ⟨-, -, rfl, -⟩ := hwakes
          rfl
        | attention sid' kind request =>
          simp only [PushObserver.wakes, Option.some.injEq, Prod.mk.injEq] at hwakes
          rw [← hwakes.1]
          rfl
        | nothing | title | start => cases hwakes
      rw [he, PushWatch.entry, hsession]
      rfl
    by_cases hseen : (⟨w.device, w.epoch, a.digest repr⟩ : WakeKey) ∈ w.bridge.seen
    · rw [PushBridge.wake_seen hseen] at hbridge
      rw [hbridge, Nat.sub_self] at hjobs
      refine ⟨hnoted, ?_, fun key => ?_, hentries ?_⟩
      · rw [hbridge]
        exact h.nodup
      · rw [hbridge]
        refine Iff.trans ?_ (hseenOld key).symm
        constructor
        · exact .inl
        · rintro (hkey | ⟨b, hb, rfl⟩)
          · exact hkey
          · rw [hoffered] at hb
            rw [← Option.some.inj hb]
            exact hseen
      · refine ⟨fun _ => hjobs, fun _ _ _ => hjobs, fun b hb hnew => ?_⟩
        rw [hoffered] at hb
        obtain rfl := Option.some.inj hb
        obtain ⟨j, b, hb, heq⟩ := (h.seen _).1 hseen
        have hdigest : b.digest repr = a.digest repr := (congrArg WakeKey.identity heq).symm
        exact absurd hdigest (hnew j (offeredAt_lt hb) b (offered_snoc hb e))
    · obtain ⟨hkept, hqueue⟩ := @PushBridge.wake_ready functions _ _ _ _ (turn.binding sid)
        (w.titled sid (turn.binding sid) preview) _ hready hseen
      rw [h.remembers hfew hoffered hseen, ← hbridge] at hkept
      rw [← hbridge] at hqueue
      rw [hqueue, Nat.add_sub_cancel_left] at hjobs
      refine ⟨hnoted, ?_, fun key => ?_, hentries ?_⟩
      · rw [hkept]
        refine List.nodup_append.2 ⟨h.nodup, by simp, fun x hx y hy => ?_⟩
        rw [List.mem_singleton.1 hy]
        rintro rfl
        exact hseen hx
      · rw [hkept]
        refine Iff.trans ?_ (hseenOld key).symm
        rw [List.mem_append, List.mem_singleton, hoffered]
        simp
      · refine ⟨fun hnone => ?_, fun b hb hagain => ?_, fun b hb hnew => ?_⟩
        · rw [hoffered] at hnone
          cases hnone
        · rw [hoffered] at hb
          obtain rfl := Option.some.inj hb
          obtain ⟨j, hj, b, hb, heq⟩ := hagain
          rw [offeredAt_snoc hj] at hb
          refine absurd ((h.seen _).2 ⟨j, b, hb, ?_⟩) hseen
          rw [heq]
        · rw [hjobs, hencodes]
          simp

theorem watchKept_new {w : PushWatch} (hobserver : w.observer = {}) (hseen : w.bridge.seen = []) :
    WatchKept digest w [] := by
  have hturns : TurnsKept {} [] := by
    refine ⟨rfl, Dict.keyed_nil, fun sid n done hget => ?_, fun sid _ k seq hs => ?_⟩
    · cases hget
    · exact absurd hs.lt (Nat.not_lt_zero k)
  constructor
  · rw [hobserver]
    exact hturns
  · rw [hseen]
    exact List.nodup_nil
  · intro key
    rw [hseen]
    constructor
    · intro hkey
      cases hkey
    · rintro ⟨j, a, ha, -⟩
      exact absurd (offeredAt_lt ha) (Nat.not_lt_zero j)
  · intro j e he
    cases he

end Frames

end WatchLog

end MercuryRelay
