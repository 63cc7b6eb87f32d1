/-
  When every completed turn wakes once.

  * `wakesOnce_iff`: it does if and only if the turns of a session are numbered apart,
    and the route of a session encodes when its turn completes;
  * `turns_wake_once_iff`: along every run of an observer.
-/
import Mathlib.Data.Nat.Find
import Mathlib.Tactic.IntervalCases
import MercuryRelay.Push.Turns

set_option autoImplicit false

namespace MercuryRelay

open Python Transition

namespace WatchLog

variable {log : List WatchEntry} {sid : Str} {i i' j j' k : ℕ} {n : ℤ} {seq seq' : Option ℤ}
  {digest : WakeIdentity → Bytes} {w : PushWatch} {a : WakeIdentity}

/-! ## Turns -/

theorem StartAt.unique (h : StartAt log i sid seq) (h' : StartAt log i sid seq') : seq = seq' :=
  (Observation.start.inj (Option.some.inj (h.symm.trans h'))).2

theorem InTurn.unique (h : InTurn log sid i j) (h' : InTurn log sid i' j) : i = i' := by
  obtain ⟨seq, hs⟩ := h.start
  obtain ⟨seq', hs'⟩ := h'.start
  rcases Nat.lt_trichotomy i i' with hlt | heq | hgt
  · exact absurd hs' (h.same i' hlt h'.later seq')
  · exact heq
  · exact absurd hs (h'.same i hgt h.later seq)

/-- A turn with a completion has a first one. -/
theorem Completes.first (h : Completes log sid i j) : ∃ j', First log sid i j' := by
  classical
  have hex : ∃ j, Completes log sid i j := ⟨j, h⟩
  have hfound := Nat.find_spec hex
  refine ⟨Nat.find hex, hfound, fun k hik hk hc => Nat.find_min hex hk ?_⟩
  exact ⟨⟨hfound.1.start, hik, fun m him hmk => hfound.1.same m him (hmk.trans hk)⟩, hc⟩

theorem First.unique (h : First log sid i j) (h' : First log sid i j') : j = j' := by
  rcases Nat.lt_trichotomy j j' with hlt | heq | hgt
  · exact absurd h.1.2 (h'.2 j h.1.1.later hlt)
  · exact heq
  · exact absurd h'.1.2 (h.2 j' h'.1.1.later hgt)

theorem First.isTurn (h : First log sid i j) (hs : StartAt log i sid seq) : IsTurn log sid i (number log i seq) :=
  ⟨⟨j, h.1⟩, seq, hs, rfl⟩

theorem CompleteAt.entry (h : CompleteAt log j sid) : ∃ e seq content, log[j]? = some e ∧
    e.observation = .complete sid seq content := by
  obtain ⟨seq, content, h⟩ := h
  obtain ⟨e, he, ho⟩ := Option.map_eq_some_iff.1 h
  exact ⟨e, seq, content, he, ho⟩

theorem offeredAt_eq {e : WatchEntry} (he : log[j]? = some e) : offeredAt log j = e.offered := by
  rw [offeredAt, he, Option.bind_some]

theorem jobsAt_eq {e : WatchEntry} (he : log[j]? = some e) : jobsAt log j = e.jobs := by
  rw [jobsAt, he]
  rfl

/-! ## What is asked for -/

/-- The first completion of a turn asks for the wake of its number. -/
theorem WatchKept.first_offers (h : WatchKept digest w log) (hfirst : First log sid i j) (hs : StartAt log i sid seq) :
    offeredAt log j = some (.turn sid (number log i seq)) := by
  obtain ⟨e, _, _, he, ho⟩ := hfirst.1.2.entry
  have hoffered := (h.entries j e he).1
  rw [Offered, ho] at hoffered
  rw [offeredAt_eq he]
  rcases hoffered with ⟨i', seq', hfirst', hs', hoffered⟩ | ⟨i', k, hin, hik, hkj, hk, -⟩ | ⟨hnone, -⟩
  · obtain rfl := hfirst.1.1.unique hfirst'.1.1
    obtain rfl := hs.unique hs'
    exact hoffered
  · obtain rfl := hfirst.1.1.unique hin
    exact absurd hk (hfirst.2 k hik hkj)
  · exact absurd hs (hnone i hfirst.1.1.later seq)

/-- Later completions of a turn ask for nothing. -/
theorem WatchKept.later_quiet (h : WatchKept digest w log) (hfirst : First log sid i j) (hk : Completes log sid i k)
    (hne : k ≠ j) : offeredAt log k = none ∧ jobsAt log k = 0 := by
  obtain ⟨e, _, _, he, ho⟩ := hk.2.entry
  obtain ⟨hoffered, hqueued⟩ := h.entries k e he
  rw [Offered, ho] at hoffered
  rw [offeredAt_eq he, jobsAt_eq he]
  have hnone : e.offered = none := by
    rcases hoffered with ⟨i', seq', hfirst', -, -⟩ | ⟨_, _, -, -, -, -, hnone⟩ | ⟨hfresh, -⟩
    · obtain rfl := hk.1.unique hfirst'.1.1
      exact absurd (hfirst'.unique hfirst) hne
    · exact hnone
    · obtain ⟨seq, hs⟩ := hk.1.start
      exact absurd hs (hfresh i hk.1.later seq)
  exact ⟨hnone, hqueued.none hnone⟩

/-- Who asks for the wake of a turn is its first completion. -/
theorem WatchKept.first_of_offered (h : WatchKept digest w log) (ha : .turn sid n ∈ offeredAt log j) :
    ∃ i seq, First log sid i j ∧ StartAt log i sid seq ∧ n = number log i seq := by
  obtain ⟨e, he, hoffered⟩ := Option.bind_eq_some_iff.1 ha
  have hkept := (h.entries j e he).1
  unfold Offered at hkept
  split at hkept
  · rcases hkept with ⟨i, seq, hfirst, hs, ho⟩ | ⟨_, _, -, -, -, -, ho⟩ | ⟨-, ho⟩
    · rw [hoffered] at ho
      obtain ⟨rfl, rfl⟩ := WakeIdentity.turn.inj (Option.some.inj ho)
      exact ⟨i, seq, hfirst, hs, rfl⟩
    · rw [hoffered] at ho
      cases ho
    · exact absurd hoffered (ho sid n)
  · exact absurd hoffered (hkept sid n)

theorem WatchKept.completes_offer (h : WatchKept digest w log) (hj : Completes log sid i j) (ha : a ∈ offeredAt log j) :
    ∃ seq, First log sid i j ∧ StartAt log i sid seq ∧ a = .turn sid (number log i seq) := by
  obtain ⟨j', hfirst⟩ := hj.first
  obtain ⟨seq, hs⟩ := hj.1.start
  by_cases heq : j = j'
  · subst heq
    rw [h.first_offers hfirst hs] at ha
    exact ⟨seq, hfirst, hs, (Option.some.inj ha).symm⟩
  · rw [(h.later_quiet hfirst hj heq).1] at ha
    cases ha

/-! ## When they wake once -/

theorem WatchKept.wakesOnce (h : WatchKept digest w log) (hcollision : NoCollision digest log)
    (hnumbered : Numbered log) : WakesOnce digest log := by
  constructor
  · rintro sid i n ⟨⟨j₀, hj₀⟩, -⟩
    obtain ⟨j, hfirst⟩ := hj₀.first
    obtain ⟨seq, hs⟩ := hj₀.1.start
    obtain ⟨e, _, _, he, -⟩ := hfirst.1.2.entry
    have ha := h.first_offers hfirst hs
    refine ⟨j, hfirst.1, ?_, fun k hk hne => (h.later_quiet hfirst hk hne).2⟩
    rw [offeredAt_eq he] at ha
    rw [jobsAt_eq he, (h.entries j e he).2.fresh _ ha, hnumbered.encodes sid i j hfirst e he]
    · rfl
    · -- An earlier wake of this number is of another turn.
      intro k hk b hb heq
      have hturn : b = .turn sid (number log i seq) := hcollision k j b hb _ (by rw [offeredAt_eq he]; exact ha) heq
      rw [hturn] at hb
      obtain ⟨i', seq', hfirst', hs', hnumber⟩ := h.first_of_offered hb
      refine hnumbered.numbers sid i _ i' _ (hfirst.isTurn hs) (hfirst'.isTurn hs') ?_ hnumber
      rintro rfl
      exact absurd (hfirst'.unique hfirst) hk.ne
  · intro sid i n sid' i' n' hturn hturn' hne j j' hj hj' a ha a' ha' heq
    obtain ⟨seq, hfirst, hs, rfl⟩ := h.completes_offer hj ha
    obtain ⟨seq', hfirst', hs', rfl⟩ := h.completes_offer hj' ha'
    obtain ⟨rfl, hnumber⟩ := WakeIdentity.turn.inj (hcollision j j' _ ha _ ha' heq)
    exact hnumbered.numbers sid i _ i' _ (hfirst.isTurn hs) (hfirst'.isTurn hs') hne hnumber

theorem WatchKept.numbered (h : WatchKept digest w log) (honce : WakesOnce digest log) : Numbered log := by
  constructor
  · rintro sid i n i' n' hturn hturn' hne rfl
    obtain ⟨⟨j, hj⟩, seq, hs, hn⟩ := hturn
    obtain ⟨⟨j', hj'⟩, seq', hs', hn'⟩ := hturn'
    obtain ⟨first, hfirst⟩ := hj.first
    obtain ⟨first', hfirst'⟩ := hj'.first
    have ha := h.first_offers hfirst hs
    have ha' := h.first_offers hfirst' hs'
    rw [← hn] at ha
    rw [← hn'] at ha'
    exact honce.apart sid i n sid i' n ⟨⟨j, hj⟩, seq, hs, hn⟩ ⟨⟨j', hj'⟩, seq', hs', hn'⟩ hne first first' hfirst.1
      hfirst'.1 _ ha _ ha' rfl
  · intro sid i j hfirst e he
    obtain ⟨seq, hs⟩ := hfirst.1.1.start
    obtain ⟨j', hj', hone, -⟩ := honce.once sid i _ (hfirst.isTurn hs)
    have heq : j' = j := by
      by_contra hne
      rw [(h.later_quiet hfirst hj' hne).2] at hone
      cases hone
    rw [heq, jobsAt_eq he] at hone
    have ha := h.first_offers hfirst hs
    rw [offeredAt_eq he] at ha
    have hqueued := (h.entries j e he).2
    by_cases hagain : ∃ k < j, ∃ b ∈ offeredAt log k, digest b = digest (.turn sid (number log i seq))
    · rw [hqueued.again _ ha hagain] at hone
      cases hone
    · rw [hqueued.fresh _ ha fun k hk b hb heq => hagain ⟨k, hk, b, hb, heq⟩] at hone
      cases hunencodable : e.unencodable with
      | false => rfl
      | true =>
        rw [hunencodable] at hone
        cases hone

/-- **Turns wake once** if and only if they are numbered apart, and their routes encode. -/
theorem wakesOnce_iff (h : WatchKept digest w log) (hcollision : NoCollision digest log) :
    WakesOnce digest log ↔ Numbered log :=
  ⟨h.numbered, h.wakesOnce hcollision⟩

end WatchLog

/-! ## Runs -/

section Runs

variable {functions : PushFunctions} {repr : WakeIdentity → Bytes} {depths : JsonDepths} {w₀ w : PushWatch}
  {log : List WatchEntry} {events : List WatchEvent}

theorem watchKept_run (h : Run (PushWatch.Step functions repr depths) (w₀, []) events (w, log))
    (hobserver : w₀.observer = {}) (hseen : w₀.bridge.seen = []) (hfew : WatchLog.Few log) :
    WatchLog.WatchKept (WakeIdentity.digest repr) w log := by
  have hall := h.invariant (I := fun m => WatchLog.Few m.2 → WatchLog.WatchKept (WakeIdentity.digest repr) m.1 m.2) ?_ ?_
  · exact hall hfew
  · rintro ⟨u, l⟩ e ⟨u', l'⟩ hkept hstep hfew'
    cases e with
    | observe turn text =>
      obtain ⟨hready, heq⟩ := hstep
      obtain ⟨rfl, rfl⟩ := Prod.mk.inj heq
      exact WatchLog.watchKept_observe (hkept hfew'.of_snoc) hready hfew'
    | other bridge =>
      obtain ⟨hbridge, heq⟩ := hstep
      obtain ⟨rfl, rfl⟩ := Prod.mk.inj heq
      have hold := hkept hfew'
      refine ⟨hold.toTurnsKept, ?_, fun key => ?_, hold.entries⟩
      · show bridge.seen.Nodup
        rw [hbridge]
        exact hold.nodup
      · show key ∈ bridge.seen ↔ _
        rw [hbridge]
        exact hold.seen key
  · exact fun _ => WatchLog.watchKept_new hobserver hseen

/-- **Every completed turn wakes once**, and no two of them have an identity in common, if and only if
    the turns of a session are numbered apart and its route encodes when they complete. -/
theorem turns_wake_once_iff (h : Run (PushWatch.Step functions repr depths) (w₀, []) events (w, log))
    (hobserver : w₀.observer = {}) (hseen : w₀.bridge.seen = []) (hfew : WatchLog.Few log)
    (hcollision : WatchLog.NoCollision (WakeIdentity.digest repr) log) :
    WatchLog.WakesOnce (WakeIdentity.digest repr) log ↔ WatchLog.Numbered log :=
  WatchLog.wakesOnce_iff (watchKept_run h hobserver hseen hfew) hcollision

end Runs

/-! ## Runs on texts -/

instance (b : PushBridge) (turn : WakeTurn) (device : Str) (epoch : ℤ) : Decidable (b.Ready turn device epoch) :=
  decidable_of_iff (b.isAuthorized turn device epoch = true ∧
    (∃ x ∈ b.rows, b.validHandles turn device epoch = [x.1] ∧ b.rows.get x.1 = some x.2 ∧ x.2.mode = .generic) ∧
      b.start.queue.length < pushQueueSize)
    ⟨fun ⟨hauthorized, ⟨x, _, hrow⟩, hroom⟩ => ⟨hauthorized, ⟨x.1, x.2, hrow⟩, hroom⟩,
      fun ⟨hauthorized, ⟨handle, row, hhandles, hrow, hmode⟩, hroom⟩ =>
        ⟨hauthorized, ⟨(handle, row), Dict.get_mem hrow, hhandles, hrow, hmode⟩, hroom⟩⟩

namespace PushWatch

variable {functions : PushFunctions} {repr : WakeIdentity → Bytes} {depths : JsonDepths} {turn : ObserveTurn}

/-- A text is observed, and told of. -/
def observeText (functions : PushFunctions) (repr : WakeIdentity → Bytes) (depths : JsonDepths) (turn : ObserveTurn)
    (m : PushWatch × List WatchEntry) (text : Str) : PushWatch × List WatchEntry :=
  let observation := Observation.ofText functions.unicode depths text
  (m.1.observe functions repr turn observation, m.2 ++ [m.1.entry functions repr turn observation])

theorem run_observeText {m : PushWatch × List WatchEntry} {texts : List Str}
    (h : Along (observeText functions repr depths turn)
      (fun m _ => m.1.bridge.Ready turn.toWakeTurn m.1.device m.1.epoch) m texts) :
    Run (Step functions repr depths) m (texts.map (.observe turn))
      (texts.foldl (observeText functions repr depths turn) m) := by
  show Run _ (id m) _ (id _)
  refine Run.map ?_ (run_of_along h)
  rintro m text m' ⟨hready, rfl⟩
  exact ⟨hready, rfl⟩

end PushWatch

/-! ### A session that numbers some of its turns -/

/-- `repr(identity).encode()`, where nothing has to be escaped. -/
def plainRepr : WakeIdentity → Bytes
  | .turn sid number =>
    (lit "('" ++ sid ++ lit "', 'message.complete', 'turn', " ++ intRepr number ++ lit ")").map UInt8.ofNat
  | .content sid _ digest => (lit "('" ++ sid ++ lit "', 'message.complete', ").map UInt8.ofNat ++ digest
  | .attention sid kind request => (lit "('" ++ sid ++ lit "', '" ++ kind ++ lit "', '" ++ request ++ lit "')").map UInt8.ofNat

def plainFunctions : PushFunctions where
  unicode := basicUnicode
  aead := ⟨fun _ _ plaintext _ => plaintext ++ List.replicate 16 0, by simp⟩

/-- The worker runs; a generic row is active. -/
def watchedFirst : PushWatch where
  device := lit "device"
  epoch := 1
  bridge := {
    origin := lit "https://push"
    route := lit "host"
    rows := [(lit "handle", {
      device := lit "device"
      epoch := 1
      status := .active
      origin := some (lit "https://push")
      route := some (lit "host")
      mode := .generic
      environment := lit "sandbox"
      preview := none })]
    started := true }

def watchedTurn : ObserveTurn where
  clock := 0
  wallClock := 1700000000
  authorized _ _ := true
  eventId _ := lit "event"
  nonce _ := List.replicate 12 0
  binding _ := some (lit "durable", lit "default")

/-- An event of the session `s`. -/
def watchedText (kind rest : String) : Str :=
  lit "\x7b\"method\":\"event\",\"params\":\x7b\"session_id\":\"s\",\"type\":\"" ++ lit kind ++ lit "\"" ++
    lit rest ++ lit "\x7d\x7d"

def startText (rest : String) : Str := watchedText "message.start" rest

def completeText : Str := watchedText "message.complete" ",\"payload\":\x7b\"text\":\"Done\"\x7d"

def watchedDepths : JsonDepths := ⟨9, 9⟩

/-- What becomes of texts. -/
def watched (texts : List Str) : PushWatch × List WatchEntry :=
  texts.foldl (PushWatch.observeText plainFunctions plainRepr watchedDepths watchedTurn) (watchedFirst, [])

theorem run_watched {texts : List Str} {log : List WatchEntry} (hlog : (watched texts).2 = log)
    (h : Along (PushWatch.observeText plainFunctions plainRepr watchedDepths watchedTurn)
      (fun m _ => m.1.bridge.Ready watchedTurn.toWakeTurn m.1.device m.1.epoch) (watchedFirst, []) texts) :
    Run (PushWatch.Step plainFunctions plainRepr watchedDepths) (watchedFirst, []) (texts.map (.observe watchedTurn))
      ((watched texts).1, log) := by
  rw [← hlog]
  exact PushWatch.run_observeText h

/-- The entries of a turn that starts and completes. -/
def turnEntries (seq : Option ℤ) (number : ℤ) (jobs : ℕ) : List WatchEntry :=
  [⟨.start (lit "s") seq, false, none, 0⟩,
    ⟨.complete (lit "s") .null (lit "Done"), false, some (.turn (lit "s") number), jobs⟩]

section TwoTurns

variable {seq seq' : Option ℤ} {n n' : ℤ} {jobs jobs' : ℕ}

/-- Two turns, one after the other. -/
def twoTurns (seq : Option ℤ) (n : ℤ) (jobs : ℕ) (seq' : Option ℤ) (n' : ℤ) (jobs' : ℕ) : List WatchEntry :=
  turnEntries seq n jobs ++ turnEntries seq' n' jobs'

theorem twoTurns_start {k : ℕ} {sid : Str} {start : Option ℤ}
    (h : WatchLog.StartAt (twoTurns seq n jobs seq' n' jobs') k sid start) :
    sid = lit "s" ∧ (k = 0 ∧ start = seq ∨ k = 2 ∧ start = seq') := by
  have hlt : k < 4 := h.lt
  unfold WatchLog.StartAt at h
  interval_cases k
  · obtain ⟨hsid, hseq⟩ := Observation.start.inj (Option.some.inj h)
    exact ⟨hsid.symm, .inl ⟨rfl, hseq.symm⟩⟩
  · cases Option.some.inj h
  · obtain ⟨hsid, hseq⟩ := Observation.start.inj (Option.some.inj h)
    exact ⟨hsid.symm, .inr ⟨rfl, hseq.symm⟩⟩
  · cases Option.some.inj h

theorem twoTurns_offered {k : ℕ} {a : WakeIdentity}
    (h : a ∈ WatchLog.offeredAt (twoTurns seq n jobs seq' n' jobs') k) :
    a = .turn (lit "s") n ∨ a = .turn (lit "s") n' := by
  have hlt : k < 4 := WatchLog.offeredAt_lt h
  interval_cases k
  · cases h
  · exact .inl (Option.some.inj h).symm
  · cases h
  · exact .inr (Option.some.inj h).symm

theorem twoTurns_few : WatchLog.Few (twoTurns seq n jobs seq' n' jobs') := by
  constructor
  · refine ⟨[lit "s"], by decide, fun i sid start h => ?_⟩
    rw [(twoTurns_start h).1]
    exact List.mem_singleton_self _
  · refine ⟨[.turn (lit "s") n, .turn (lit "s") n'], by simp [maxSeen], fun j a ha => ?_⟩
    rcases twoTurns_offered ha with rfl | rfl
    · exact List.mem_cons_self
    · exact List.mem_cons_of_mem _ (List.mem_singleton_self _)

theorem twoTurns_noCollision {digest : WakeIdentity → Bytes}
    (h : digest (.turn (lit "s") n) = digest (.turn (lit "s") n') → n = n') :
    WatchLog.NoCollision digest (twoTurns seq n jobs seq' n' jobs') := by
  intro j j' a ha a' ha' heq
  rcases twoTurns_offered ha with rfl | rfl <;> rcases twoTurns_offered ha' with rfl | rfl
  · rfl
  · rw [h heq]
  · rw [h heq.symm]
  · rfl

end TwoTurns

theorem watched_unnumbered : (watched [startText "", completeText, startText "", completeText]).2 =
    twoTurns none 1 1 none 2 1 := by
  decide +kernel

theorem unnumbered_numbered : WatchLog.Numbered (twoTurns none 1 1 none 2 1) := by
  constructor
  · rintro sid i n i' n' ⟨-, seq, hs, rfl⟩ ⟨-, seq', hs', rfl⟩ hne
    rcases (twoTurns_start hs).2 with ⟨rfl, rfl⟩ | ⟨rfl, rfl⟩ <;>
      rcases (twoTurns_start hs').2 with ⟨rfl, rfl⟩ | ⟨rfl, rfl⟩
    · exact absurd rfl hne
    · decide
    · decide
    · exact absurd rfl hne
  · intro sid i j h e he
    have hlt : j < 4 := h.1.2.lt
    interval_cases j <;> cases he <;> rfl

theorem turns_wake_once_unnumbered : ∃ w log, Run (PushWatch.Step plainFunctions plainRepr watchedDepths)
    (watchedFirst, []) ([startText "", completeText, startText "", completeText].map (.observe watchedTurn)) (w, log) ∧
      WatchLog.WakesOnce (WakeIdentity.digest plainRepr) log ∧ log.map (·.jobs) = [0, 1, 0, 1] := by
  have hrun := run_watched watched_unnumbered (by decide +kernel)
  have hdigest : WakeIdentity.digest plainRepr (.turn (lit "s") 1) ≠ WakeIdentity.digest plainRepr (.turn (lit "s") 2) := by
    decide +kernel
  refine ⟨_, _, hrun, ?_, rfl⟩
  exact (turns_wake_once_iff hrun rfl rfl twoTurns_few (twoTurns_noCollision fun h => absurd h hdigest)).2
    unnumbered_numbered

theorem watched_numbered : (watched [startText "", completeText, startText ",\"seq\":1", completeText]).2 =
    twoTurns none 1 1 (some 1) 1 0 := by
  decide +kernel

/-- A turn of which the `seq` is how many starts there were before is taken for an earlier one. -/
theorem numbered_turn_lost : ∃ w log, Run (PushWatch.Step plainFunctions plainRepr watchedDepths) (watchedFirst, [])
    ([startText "", completeText, startText ",\"seq\":1", completeText].map (.observe watchedTurn)) (w, log) ∧
      watchedFirst.observer = {} ∧ watchedFirst.bridge.seen = [] ∧ WatchLog.Few log ∧
      WatchLog.NoCollision (WakeIdentity.digest plainRepr) log ∧ ¬ WatchLog.WakesOnce (WakeIdentity.digest plainRepr) log := by
  have hrun := run_watched watched_numbered (by decide +kernel)
  refine ⟨_, _, hrun, rfl, rfl, twoTurns_few, twoTurns_noCollision fun _ => rfl, fun h => ?_⟩
  have hin : WatchLog.InTurn (twoTurns none 1 1 (some 1) 1 0) (lit "s") 2 3 :=
    ⟨⟨some 1, rfl⟩, by decide, fun k h2 h3 => absurd h3 (by omega)⟩
  have hcompletes : WatchLog.Completes (twoTurns none 1 1 (some 1) 1 0) (lit "s") 2 3 := ⟨hin, .null, lit "Done", rfl⟩
  obtain ⟨j, hj, hone, -⟩ := h.once (lit "s") 2 1 ⟨⟨3, hcompletes⟩, some 1, rfl, rfl⟩
  have hlater := hj.1.later
  have hlt : j < 4 := hj.2.lt
  obtain rfl : j = 3 := by omega
  cases hone

end MercuryRelay
