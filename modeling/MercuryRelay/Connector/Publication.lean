/-
  What is sent for an attachment that is gone.

  A task is cancelled when its attachment is marked detached, with the call of `send`
  that it awaits; it calls `send` again only past a check that the attachment is there.

  * `gone_publishes_nothing`: whatever happens after an attachment is marked detached, or
    its lease is released, no ciphertext of it is handed to the host socket.
-/
import MercuryRelay.Connector.Outbound

set_option autoImplicit false

namespace MercuryRelay

open Python Transition

/-- Calls of `send` change, and nothing is changed that their connector relies on. -/
theorem Connector.Kept.mapSends {s : Connector} (h : s.Kept) {f : SendCall → SendCall}
    (hf : ∀ call, (f call).connection = call.connection ∧ (f call).socket = call.socket ∧
      ((f call).isEnded = false → call.isEnded = false)) : Connector.Kept { s with sends := s.sends.map f } := by
  refine ⟨h.registered, h.socket, h.between, fun k call hk hopen => ?_, h.sound⟩
  have hk : (s.sends.map f)[k]? = some call := hk
  rw [List.getElem?_map] at hk
  obtain ⟨old, hold, rfl⟩ := Option.map_eq_some_iff.1 hk
  obtain ⟨hconnection, hsocket, hended⟩ := hf old
  show ∃ connection, s.connections[(f old).connection]? = some connection ∧ connection.openedOn = (f old).socket
  rw [hconnection, hsocket]
  exact h.sends k old hold (hended hopen)

/-- `next_text` takes an item, and leaves who holds the lease. -/
theorem Lease.nextText_tenure (l : Lease) (a : ℕ) : (l.nextText a).1.tenure = l.tenure := by
  rcases hn : l.nextText a with ⟨l', r⟩
  rcases Lease.nextText_spec hn with ⟨item, att, -, rfl, -, hdetached, -⟩ | ⟨rfl, -⟩
  · exact Lease.tenure_modify hdetached
  · rfl

/-- What a record changes of the lease. -/
theorem Link.feed_changes {σ : Type} {noise : Decrypt σ} {s : Link σ} {env : Surroundings} {ciphertext : Bytes}
    (h : s.transport.attachment < s.lease.opened) :
    Tenure.Changes s.lease.tenure (s.feedCiphertext noise env ciphertext).2.lease.tenure ∧
      (s.feedCiphertext noise env ciphertext).2.transport.attachment = s.transport.attachment := by
  have hfed : ∀ {text : Str} {lease : Lease} {fault : Option LeaseFault},
      s.lease.feedText env s.transport.attachment text = (lease, fault) →
        Tenure.Changes s.lease.tenure lease.tenure := by
    intro text lease fault hfeed
    refine @Lease.step_changes _ _
      (.submit env s.transport.attachment text, s.lease.submitOutput lease text fault) ⟨h, ?_⟩
    simp only [Lease.perform, hfeed]
  have hcases := Link.feed_cases noise s env ciphertext
  revert hcases
  generalize s.feedCiphertext noise env ciphertext = fed
  rcases fed with ⟨result, s'⟩
  intro hcases
  cases hcases with
  | dead => exact ⟨.refl, rfl⟩
  | @failed reason m hm =>
    refine ⟨?_, (Link.close_transport _).trans hm.attachment⟩
    rw [← hm.lease]
    exact Link.close_changes _
  | buffered hm => exact ⟨by rw [hm.lease], hm.attachment⟩
  | delivered hm _ hfeed => exact ⟨hfed hfeed, hm.attachment⟩
  | @refused m text lease fault hm _ hfeed =>
    refine ⟨(hfed hfeed).trans ?_, (Link.close_transport _).trans hm.attachment⟩
    exact Link.close_changes (s := { m with lease := lease }) _

namespace Outbound

variable {σ : Type} {noise : NoiseFunctions σ} {s t u : Outbound σ} {a p x k : ℕ} {turn : Turn}

/-! ## Who sends for whom -/

theorem attachmentOf_congr (hpumps : t.pumps.map (·.transport) = s.pumps.map (·.transport))
    (htransports : t.transports.map (·.side.attachment) = s.transports.map (·.side.attachment)) (p : ℕ) :
    t.attachmentOf p = s.attachmentOf p := by
  have hof : ∀ u : Outbound σ, u.attachmentOf p =
      (u.pumps.map (·.transport))[p]?.bind fun x => (u.transports.map (·.side.attachment))[x]? := by
    intro u
    simp only [attachmentOf, List.getElem?_map, Option.bind_map]
    rfl
  rw [hof, hof, hpumps, htransports]

/-- The attachment was opened, and is marked detached. -/
def Lost (s : Outbound σ) (a : ℕ) : Prop := a < s.lease.opened ∧ (s.lease.heap a).detached = true

/-- The task is registered, and was not cancelled. -/
structure Live (s : Outbound σ) (p : ℕ) (pump : OutboundPump) : Prop where
  found : s.pumps[p]? = some pump
  registered : pump.registered = true
  cancelling : pump.cancelling = false

/-- What holds at every moment. -/
structure Kept (s : Outbound σ) : Prop where
  connector : s.connector.Kept
  tenure : s.lease.tenure.Valid
  opened : ∀ x ∈ s.transports, x.side.attachment < s.lease.opened
  active : ∀ pump ∈ s.pumps, pump.registered = true ↔ pump.phase ≠ .created ∧ pump.isEnded = false
  /-- a task that was not cancelled has an attachment that is not marked detached -/
  live : ∀ p pump, s.Live p pump → ∃ a, s.attachmentOf p = some a ∧ (s.lease.heap a).detached = false
  /-- a call that did not end is the one that its task awaits, and is cancelled with it -/
  calls : ∀ (k : ℕ) (call : SendCall) (p : ℕ), s.connector.sends[k]? = some call → call.isEnded = false →
    call.sender = some p → ∃ pump rest, s.pumps[p]? = some pump ∧ pump.phase = .sending k rest ∧
      pump.registered = true ∧ (pump.cancelling = true → call.cancelling = true)
  senders : ∀ (k : ℕ) (call : SendCall) (p : ℕ), s.connector.sends[k]? = some call → call.sender = some p →
    (∃ pump, s.pumps[p]? = some pump ∧ pump.phase ≠ .created) ∧ ∃ a, s.attachmentOf p = some a
  wire : ∀ (k socket : ℕ) (message : Bytes), Outgoing.binary k socket message ∈ s.connector.wire →
    ∃ call, s.connector.sends[k]? = some call

/-- The call is of a task whose attachment was not marked detached in `s`. -/
def Backed (s t : Outbound σ) (call : SendCall) : Prop :=
  ∀ p, call.sender = some p → ∃ a, t.attachmentOf p = some a ∧ ¬ s.Lost a

/-- What becomes of tasks, calls and messages: who they are stays, and a new one is backed. -/
structure Advances (s t : Outbound σ) : Prop where
  attachmentOf : ∀ p a, s.attachmentOf p = some a → t.attachmentOf p = some a
  lost : ∀ a, s.Lost a → t.Lost a
  senders : ∀ (k : ℕ) (call : SendCall), s.connector.sends[k]? = some call →
    ∃ call', t.connector.sends[k]? = some call' ∧ call'.sender = call.sender
  calls : ∀ (k : ℕ) (call : SendCall), t.connector.sends[k]? = some call → s.connector.sends[k]? = none →
    Backed s t call
  wire : ∃ new, t.connector.wire = s.connector.wire ++ new ∧ ∀ k socket message,
    Outgoing.binary k socket message ∈ new → ∃ call, t.connector.sends[k]? = some call ∧ Backed s t call

theorem Advances.refl (s : Outbound σ) : Advances s s := by
  refine ⟨fun _ _ => id, fun _ => id, fun k call hk => ⟨call, hk, rfl⟩, fun k call hk hnone => ?_, [], by simp, by simp⟩
  rw [hk] at hnone
  cases hnone

theorem Backed.mono {call call' : SendCall} (h : Backed s t call) (hsender : call'.sender = call.sender)
    (hof : ∀ p a, t.attachmentOf p = some a → u.attachmentOf p = some a) : Backed s u call' := by
  intro p hp
  obtain ⟨a, ha, hlost⟩ := h p (hsender ▸ hp)
  exact ⟨a, hof p a ha, hlost⟩

theorem Advances.trans (h : Advances s t) (h' : Advances t u) : Advances s u := by
  have hlater : ∀ {call : SendCall}, Backed t u call → Backed s u call := by
    intro call hbacked p hp
    obtain ⟨a, ha, hlost⟩ := hbacked p hp
    exact ⟨a, ha, fun hs => hlost (h.lost a hs)⟩
  refine ⟨fun p a ha => h'.attachmentOf p a (h.attachmentOf p a ha), fun a ha => h'.lost a (h.lost a ha),
    fun k call hk => ?_, fun k call hk hnone => ?_, ?_⟩
  · obtain ⟨call', hk', hsender⟩ := h.senders k call hk
    obtain ⟨call'', hk'', hsender'⟩ := h'.senders k call' hk'
    exact ⟨call'', hk'', hsender'.trans hsender⟩
  · cases ht : t.connector.sends[k]? with
    | none => exact hlater (h'.calls k call hk ht)
    | some call' =>
      obtain ⟨call'', hk'', hsender⟩ := h'.senders k call' ht
      obtain rfl := Option.some.inj (hk.symm.trans hk'')
      exact (h.calls k call' ht hnone).mono hsender h'.attachmentOf
  · obtain ⟨new, hwire, hnew⟩ := h.wire
    obtain ⟨new', hwire', hnew'⟩ := h'.wire
    refine ⟨new ++ new', by rw [hwire', hwire, List.append_assoc], fun k socket message hmem => ?_⟩
    rcases List.mem_append.1 hmem with hmem | hmem
    · obtain ⟨call, hk, hbacked⟩ := hnew k socket message hmem
      obtain ⟨call', hk', hsender⟩ := h'.senders k call hk
      exact ⟨call', hk', hbacked.mono hsender h'.attachmentOf⟩
    · obtain ⟨call, hk, hbacked⟩ := hnew' k socket message hmem
      exact ⟨call, hk, hlater hbacked⟩

/-- Nothing is sent. -/
theorem Advances.of_same (hof : ∀ p, t.attachmentOf p = s.attachmentOf p) (hlost : ∀ a, s.Lost a → t.Lost a)
    (hsends : Connector.SendsKept s.connector t.connector) (hwire : t.connector.wire = s.connector.wire) :
    Advances s t := by
  refine ⟨fun p a ha => by rw [hof]; exact ha, hlost, fun k call hk => ?_, fun k call hk hnone => ?_, [],
    by rw [hwire, List.append_nil], by simp⟩
  · obtain ⟨call', hk', hsender, -⟩ := hsends.kept k call hk
    exact ⟨call', hk', hsender⟩
  · have hlt := (List.getElem?_eq_some_iff.1 hk).1
    rw [hsends.length] at hlt
    have hge := List.getElem?_eq_none_iff.1 hnone
    omega

/-- The invariant holds, and nothing was sent for an attachment that is lost. -/
structure Moves (s t : Outbound σ) : Prop where
  kept : t.Kept
  advances : Advances s t

theorem Moves.refl (hs : s.Kept) : Moves s s := ⟨hs, .refl s⟩

theorem Moves.trans (h : Moves s t) (h' : Moves t u) : Moves s u := ⟨h'.kept, h.advances.trans h'.advances⟩

/-! ## Changes -/

/-- The calls of the task ended. -/
def Settled (s : Outbound σ) (p : ℕ) : Prop :=
  ∀ (k : ℕ) (call : SendCall), s.connector.sends[k]? = some call → call.sender = some p → call.isEnded = true

/-- Transports change, and carry the same attachments. -/
theorem Kept.withTransports (hs : s.Kept) {xs : List (OutboundTransport σ)}
    (hxs : xs.map (·.side.attachment) = s.transports.map (·.side.attachment)) : Moves s { s with transports := xs } := by
  have hof : ∀ p, attachmentOf { s with transports := xs } p = s.attachmentOf p := attachmentOf_congr rfl hxs
  refine ⟨⟨hs.connector, hs.tenure, fun x hx => ?_, hs.active, fun p pump hl => ?_, hs.calls, fun k call p hk hp => ?_,
    hs.wire⟩, .of_same hof (fun _ => id) (.of_eq rfl) rfl⟩
  · have hmem := List.mem_map_of_mem (f := fun x : OutboundTransport σ => x.side.attachment) hx
    rw [hxs] at hmem
    obtain ⟨y, hy, hattachment⟩ := List.mem_map.1 hmem
    rw [← hattachment]
    exact hs.opened y hy
  · rw [hof]
    exact hs.live p pump ⟨hl.found, hl.registered, hl.cancelling⟩
  · rw [hof]
    exact hs.senders k call p hk hp

theorem Kept.modifyTransport (hs : s.Kept) {f : OutboundTransport σ → OutboundTransport σ}
    (hf : ∀ y, s.transports[x]? = some y → (f y).side.attachment = y.side.attachment) :
    Moves s (s.modifyTransport x f) := by
  refine hs.withTransports ?_
  ext n : 1
  rw [List.getElem?_map, List.getElem?_modify, List.getElem?_map]
  cases hn : s.transports[n]? with
  | none => rfl
  | some y =>
    show some (if x = n then f y else y).side.attachment = some y.side.attachment
    split
    · rename_i hxn
      rw [hf y (hxn ▸ hn)]
    · rfl

theorem Kept.unlock (hs : s.Kept) (p : ℕ) : Moves s (s.unlock p) := by
  refine hs.withTransports ?_
  rw [List.map_map]
  rfl

/-- A task changes that awaits no call. -/
theorem Kept.modifyPump (hs : s.Kept) (hp : s.Settled p) {f : OutboundPump → OutboundPump}
    (hf : ∀ pump, s.pumps[p]? = some pump → (f pump).transport = pump.transport ∧ (f pump).phase ≠ .created ∧
      ((f pump).registered = true ↔ (f pump).isEnded = false) ∧ ((f pump).registered = true →
        (f pump).cancelling = false → ∃ a, s.attachmentOf p = some a ∧ (s.lease.heap a).detached = false)) :
    Moves s (s.modifyPump p f) := by
  have hget : ∀ q : ℕ, (s.pumps.modify p f)[q]? = s.pumps[q]?.map fun pump => if p = q then f pump else pump := by
    intro q
    rw [List.getElem?_modify]
    rfl
  have hof : ∀ q, (s.modifyPump p f).attachmentOf q = s.attachmentOf q := by
    refine attachmentOf_congr ?_ rfl
    ext n : 1
    rw [List.getElem?_map, List.getElem?_map]
    show Option.map _ (s.pumps.modify p f)[n]? = _
    rw [hget, Option.map_map]
    refine Option.map_congr fun pump hpump => ?_
    show (if p = n then f pump else pump).transport = pump.transport
    split
    · rename_i hpn
      exact (hf pump (hpn ▸ hpump)).1
    · rfl
  refine ⟨⟨hs.connector, hs.tenure, hs.opened, fun pump hpump => ?_, fun q pump hl => ?_,
    fun k call q hk hopen hq => ?_, fun k call q hk hq => ?_, hs.wire⟩, .of_same hof (fun _ => id) (.of_eq rfl) rfl⟩
  · obtain ⟨q, hq⟩ := List.getElem?_of_mem hpump
    have hq : (s.pumps.modify p f)[q]? = some pump := hq
    rw [hget] at hq
    obtain ⟨old, hold, rfl⟩ := Option.map_eq_some_iff.1 hq
    split
    · rename_i hpq
      obtain ⟨-, hstarted, hactive, -⟩ := hf old (hpq ▸ hold)
      exact hactive.trans ⟨fun h => ⟨hstarted, h⟩, (·.2)⟩
    · exact hs.active old (List.mem_of_getElem? hold)
  · have hq : (s.pumps.modify p f)[q]? = some pump := hl.found
    rw [hget] at hq
    obtain ⟨old, hold, hold'⟩ := Option.map_eq_some_iff.1 hq
    rw [hof]
    by_cases hpq : p = q
    · rw [if_pos hpq] at hold'
      subst hold'
      subst hpq
      exact (hf old hold).2.2.2 hl.registered hl.cancelling
    · rw [if_neg hpq] at hold'
      subst hold'
      exact hs.live q old ⟨hold, hl.registered, hl.cancelling⟩
  · obtain ⟨pump, rest, hpump, hrest⟩ := hs.calls k call q hk hopen hq
    refine ⟨pump, rest, ?_, hrest⟩
    show (s.pumps.modify p f)[q]? = some pump
    rw [hget, hpump, Option.map_some, if_neg]
    rintro rfl
    rw [hp k call hk hq] at hopen
    cases hopen
  · obtain ⟨⟨pump, hpump, hstarted⟩, hattachment⟩ := hs.senders k call q hk hq
    rw [hof]
    refine ⟨⟨if p = q then f pump else pump, ?_, ?_⟩, hattachment⟩
    · show (s.pumps.modify p f)[q]? = _
      rw [hget, hpump, Option.map_some]
    · split
      · rename_i hpq
        exact (hf pump (hpq ▸ hpump)).2.1
      · exact hstarted

/-! ### Cancellation -/

theorem cancelTasks_pump (s : Outbound σ) (f : ℕ → Bool) (q : ℕ) : (s.cancelTasks f).pumps[q]? =
    s.pumps[q]?.map fun pump => { pump with cancelling := pump.cancelling || !pump.isEnded && f q } :=
  List.getElem?_mapIdx

theorem cancelTasks_attachmentOf (s : Outbound σ) (f : ℕ → Bool) (p : ℕ) :
    (s.cancelTasks f).attachmentOf p = s.attachmentOf p := by
  refine attachmentOf_congr (s := s) (t := s.cancelTasks f) ?_ rfl p
  ext n : 1
  rw [List.getElem?_map, cancelTasks_pump, List.getElem?_map, Option.map_map]
  rfl

theorem cancelTasks_call {s : Outbound σ} {f : ℕ → Bool} {call : SendCall}
    (h : (s.cancelTasks f).connector.sends[k]? = some call) : ∃ old, s.connector.sends[k]? = some old ∧
      call = { old with cancelling := old.cancelling || !old.isEnded && old.sender.any f } := by
  have h : (s.connector.sends.map _)[k]? = some call := h
  rw [List.getElem?_map] at h
  obtain ⟨old, hold, rfl⟩ := Option.map_eq_some_iff.1 h
  exact ⟨old, hold, rfl⟩

theorem cancelTasks_sendsKept (s : Outbound σ) (f : ℕ → Bool) :
    Connector.SendsKept s.connector (s.cancelTasks f).connector := by
  refine ⟨fun k call hk => ⟨{ call with cancelling := call.cancelling || !call.isEnded && call.sender.any f }, ?_,
    rfl, id, fun hc => ?_⟩, List.length_map _⟩
  · show (s.connector.sends.map _)[k]? = _
    rw [List.getElem?_map, hk]
    rfl
  · show (call.cancelling || _) = true
    rw [hc, Bool.true_or]

/-- Tasks are cancelled while the lease changes; the ones that lose their attachment are
    among them. -/
theorem Kept.cancelTasks (hs : s.Kept) {lease : Lease} (hc : Tenure.Changes s.lease.tenure lease.tenure)
    {f : ℕ → Bool} (hf : ∀ p, s.loses lease p = true → f p = true) : Moves s { s.cancelTasks f with lease := lease } := by
  have hof : ∀ p, attachmentOf { s.cancelTasks f with lease := lease } p = s.attachmentOf p :=
    cancelTasks_attachmentOf s f
  have hpump : ∀ {p : ℕ} {pump : OutboundPump}, (s.cancelTasks f).pumps[p]? = some pump → ∃ old, s.pumps[p]? = some old ∧
      pump = { old with cancelling := old.cancelling || !old.isEnded && f p } := by
    intro p pump hp
    rw [cancelTasks_pump] at hp
    obtain ⟨old, hold, rfl⟩ := Option.map_eq_some_iff.1 hp
    exact ⟨old, hold, rfl⟩
  refine ⟨⟨hs.connector.mapSends fun _ => ⟨rfl, rfl, id⟩, hs.tenure.changes hc, fun x hx => ?_, fun pump hmem => ?_,
    fun p pump hl => ?_, fun k call p hk hopen hp => ?_, fun k call p hk hp => ?_, fun k socket message hmem => ?_⟩,
    .of_same hof (fun a ha => ?_) (cancelTasks_sendsKept s f) rfl⟩
  · exact (Tenure.detached_changes hc (hs.opened x hx)).1
  · obtain ⟨p, hp⟩ := List.getElem?_of_mem hmem
    obtain ⟨old, hold, rfl⟩ := hpump hp
    exact hs.active old (List.mem_of_getElem? hold)
  · obtain ⟨old, hold, rfl⟩ := hpump hl.found
    have hregistered : old.registered = true := hl.registered
    have hcancelling : (old.cancelling || !old.isEnded && f p) = false := hl.cancelling
    rw [Bool.or_eq_false_iff, ((hs.active old (List.mem_of_getElem? hold)).1 hregistered).2, Bool.not_false,
      Bool.true_and] at hcancelling
    obtain ⟨a, ha, hthere⟩ := hs.live p old ⟨hold, hregistered, hcancelling.1⟩
    refine ⟨a, (hof p).trans ha, ?_⟩
    show (lease.heap a).detached = false
    by_contra hgone
    rw [Bool.not_eq_false] at hgone
    have hloses : s.loses lease p = true := by simp [loses, hold, hregistered, ha, hthere, hgone]
    rw [hf p hloses] at hcancelling
    cases hcancelling.2
  · obtain ⟨old, hold, rfl⟩ := cancelTasks_call hk
    have hp : old.sender = some p := hp
    obtain ⟨pump, rest, hpump', hphase, hr, hcancels⟩ := hs.calls k old p hold hopen hp
    refine ⟨{ pump with cancelling := pump.cancelling || !pump.isEnded && f p }, rest, ?_, hphase, hr, fun hc => ?_⟩
    · show (s.cancelTasks f).pumps[p]? = _
      rw [cancelTasks_pump, hpump', Option.map_some]
    · have hc : (pump.cancelling || !pump.isEnded && f p) = true := hc
      have hopen : old.isEnded = false := hopen
      show (old.cancelling || !old.isEnded && old.sender.any f) = true
      rw [hp, hopen, Option.any_some, Bool.not_false, Bool.true_and, Bool.or_eq_true]
      rw [Bool.or_eq_true, Bool.and_eq_true] at hc
      exact hc.imp hcancels (·.2)
  · obtain ⟨old, hold, rfl⟩ := cancelTasks_call hk
    obtain ⟨⟨pump, hpump', hstarted⟩, hattachment⟩ := hs.senders k old p hold hp
    rw [hof]
    refine ⟨⟨{ pump with cancelling := pump.cancelling || !pump.isEnded && f p }, ?_, hstarted⟩, hattachment⟩
    show (s.cancelTasks f).pumps[p]? = _
    rw [cancelTasks_pump, hpump', Option.map_some]
  · obtain ⟨call, hk⟩ := hs.wire k socket message hmem
    obtain ⟨call', hk', -⟩ := (cancelTasks_sendsKept s f).kept k call hk
    exact ⟨call', hk'⟩
  · exact ⟨(Tenure.detached_changes hc ha.1).1, (Tenure.detached_changes hc ha.1).2 ha.2⟩

theorem Kept.withLease (hs : s.Kept) {lease : Lease} (hc : Tenure.Changes s.lease.tenure lease.tenure) :
    Moves s (s.withLease lease) :=
  hs.cancelTasks hc fun _ => id

/-- No task loses its attachment where the tenure stays. -/
theorem withLease_of_tenure {lease : Lease} (h : lease.tenure = s.lease.tenure) :
    s.withLease lease = { s with lease := lease } := by
  have hdetached : ∀ a, (lease.heap a).detached = (s.lease.heap a).detached := congrFun (congrArg Tenure.detached h)
  have hloses : ∀ p, s.loses lease p = false := by
    intro p
    unfold loses
    cases s.attachmentOf p with
    | none => simp
    | some a => simp [hdetached a]
  have hpumps : (s.cancelTasks (s.loses lease)).pumps = s.pumps := by
    ext n : 1
    rw [cancelTasks_pump]
    simp [hloses]
  have hsends : (s.cancelTasks (s.loses lease)).connector.sends = s.connector.sends := by
    ext n : 1
    show (s.connector.sends.map _)[n]? = _
    rw [List.getElem?_map]
    cases s.connector.sends[n]? with
    | none => rfl
    | some call =>
      have hsame : (call.cancelling || !call.isEnded && call.sender.any (s.loses lease)) = call.cancelling := by
        cases call.sender <;> simp [hloses]
      show some { call with cancelling := call.cancelling || !call.isEnded && call.sender.any (s.loses lease) } =
        some call
      rw [hsame]
  have hconnector : (s.cancelTasks (s.loses lease)).connector = s.connector := by
    show { s.connector with sends := (s.cancelTasks (s.loses lease)).connector.sends } = s.connector
    rw [hsends]
  show { (s.cancelTasks (s.loses lease)) with lease := lease } = _
  show (⟨lease, (s.cancelTasks (s.loses lease)).connector, s.transports, (s.cancelTasks (s.loses lease)).pumps⟩ :
    Outbound σ) = _
  rw [hpumps, hconnector]

theorem onTransport_moves (hs : s.Kept) {f : OutboundTransport σ → Outbound σ}
    (hf : ∀ y, s.transports[x]? = some y → Moves s (f y)) : Moves s (s.onTransport x f) := by
  unfold onTransport
  cases hx : s.transports[x]? with
  | none => exact .refl hs
  | some y => exact hf y hx

/-- A transport and the lease change together. -/
theorem Kept.withLink (hs : s.Kept) {y : OutboundTransport σ} (hy : s.transports[x]? = some y) {link : Link σ}
    (hc : Tenure.Changes s.lease.tenure link.lease.tenure)
    (hlink : link.transport.attachment = y.side.attachment) : Moves s (s.withLink x link) := by
  have hmoves := hs.withLease hc
  refine hmoves.trans (hmoves.kept.modifyTransport fun z hz => ?_)
  obtain rfl := Option.some.inj (hy.symm.trans hz)
  exact hlink

theorem Kept.closeTransport (hs : s.Kept) (x : ℕ) (reason : DetachReason) : Moves s (s.closeTransport x reason) :=
  onTransport_moves hs fun y hy =>
    hs.withLink hy (Link.close_changes (s := ⟨y.side, s.lease⟩) reason) (Link.close_transport (s := ⟨y.side, s.lease⟩) reason)

/-! ### The task -/

theorem Settled.of_eq (hp : s.Settled p) (h : t.connector = s.connector) : t.Settled p := by
  intro k call hk
  rw [h] at hk
  exact hp k call hk

theorem Kept.endPump (hs : s.Kept) (hp : s.Settled p) (result : PumpResult) : Moves s (s.endPump p result) := by
  have hmoves := hs.unlock p
  refine hmoves.trans (hmoves.kept.modifyPump (hp.of_eq rfl) fun pump _ => ⟨rfl, by simp, ?_, ?_⟩)
  · simp [OutboundPump.isEnded]
  · intro hr
    cases hr

theorem Kept.failPump (hs : s.Kept) (hp : s.Settled p) (x : ℕ) (reason : TransportReason) :
    Moves s (s.failPump p x reason) := by
  have hmoves := hs.endPump hp (.failed reason)
  exact hmoves.trans (hmoves.kept.closeTransport x _)

theorem Kept.interrupt (hs : s.Kept) (hp : s.Settled p) (x : ℕ) : Moves s (s.interrupt p x) := by
  refine onTransport_moves hs fun y _ => ?_
  split
  · exact hs.failPump hp x _
  · split
    · exact hs.failPump hp x _
    · exact hs.endPump hp _

/-! ### The connector -/

/-- A message that a step of the connector puts on the wire is of a task that is live, or of
    the one that calls. -/
theorem Kept.withConnector (hs : s.Kept) {c : Connector} {added : Option SendCall} (hk : c.Kept)
    (hhands : Connector.Hands s.connector c)
    (hsends : Connector.SendsKept { s.connector with sends := s.connector.sends ++ added.toList } c)
    (hadded : ∀ call ∈ added, ∀ p, call.sender = some p → ∃ pump rest, s.Live p pump ∧
      pump.phase = .sending s.connector.sends.length rest) : Moves s { s with connector := c } := by
  -- a call of the new state is an old one, or the one that is added
  have hcalls : ∀ {k : ℕ} {call : SendCall}, c.sends[k]? = some call →
      (∃ old, s.connector.sends[k]? = some old ∧ call.sender = old.sender ∧
        (call.isEnded = false → old.isEnded = false) ∧ (old.cancelling = true → call.cancelling = true)) ∨
      k = s.connector.sends.length ∧ ∃ new ∈ added, call.sender = new.sender := by
    intro k call hcall
    have hlt := (List.getElem?_eq_some_iff.1 hcall).1
    rw [hsends.length] at hlt
    obtain ⟨old, hold⟩ : ∃ old, (s.connector.sends ++ added.toList)[k]? = some old :=
      ⟨_, List.getElem?_eq_getElem hlt⟩
    obtain ⟨call', hcall', hsender, hended, hcancels⟩ := hsends.kept k old hold
    obtain rfl := Option.some.inj (hcall.symm.trans hcall')
    rw [List.getElem?_append] at hold
    split at hold
    · exact .inl ⟨old, hold, hsender, hended, hcancels⟩
    · rename_i hge
      cases added with
      | none => simp at hold
      | some new =>
        obtain ⟨hzero, hnew⟩ := List.getElem?_eq_some_iff.1 hold
        have hzero : k - s.connector.sends.length < 1 := hzero
        refine .inr ⟨by omega, new, rfl, ?_⟩
        have hmem := List.mem_of_getElem? hold
        rw [List.mem_singleton.1 hmem] at hsender
        exact hsender
  have hbacked : ∀ {p : ℕ} {pump : OutboundPump}, s.Live p pump → ∃ a, s.attachmentOf p = some a ∧ ¬ s.Lost a := by
    intro p pump hl
    obtain ⟨a, ha, hthere⟩ := hs.live p pump hl
    refine ⟨a, ha, fun hlost => ?_⟩
    rw [hlost.2] at hthere
    cases hthere
  have hlater : ∀ (k : ℕ) (call : SendCall), s.connector.sends[k]? = some call →
      ∃ call', c.sends[k]? = some call' ∧ call'.sender = call.sender := by
    intro k call hcall
    obtain ⟨call', hcall', hsender, -⟩ := hsends.kept k call
      ((List.getElem?_append_left (List.getElem?_eq_some_iff.1 hcall).1).trans hcall)
    exact ⟨call', hcall', hsender⟩
  obtain ⟨new, hwire, hnew⟩ := hhands
  refine ⟨⟨hk, hs.tenure, hs.opened, hs.active, fun p pump hl => hs.live p pump ⟨hl.found, hl.registered, hl.cancelling⟩,
    fun k call p hcall hopen hp => ?_, fun k call p hcall hp => ?_, fun k socket message hmem => ?_⟩,
    fun _ _ => id, fun _ => id, hlater, fun k call hcall hnone p hp => ?_, new, hwire,
    fun k socket message hmem => ?_⟩
  · rcases hcalls hcall with ⟨old, hold, hsender, hended, hcancels⟩ | ⟨rfl, call', hcall', hsender⟩
    · obtain ⟨pump, rest, hpump, hphase, hr, hc⟩ := hs.calls k old p hold (hended hopen) (hsender ▸ hp)
      exact ⟨pump, rest, hpump, hphase, hr, hcancels ∘ hc⟩
    · obtain ⟨pump, rest, hl, hphase⟩ := hadded call' hcall' p (hsender ▸ hp)
      refine ⟨pump, rest, hl.found, hphase, hl.registered, fun hc => ?_⟩
      rw [hl.cancelling] at hc
      cases hc
  · rcases hcalls hcall with ⟨old, hold, hsender, -⟩ | ⟨rfl, call', hcall', hsender⟩
    · exact hs.senders k old p hold (hsender ▸ hp)
    · obtain ⟨pump, rest, hl, hphase⟩ := hadded call' hcall' p (hsender ▸ hp)
      obtain ⟨a, ha, -⟩ := hs.live p pump hl
      exact ⟨⟨pump, hl.found, by simp [hphase]⟩, a, ha⟩
  · have hmem : Outgoing.binary k socket message ∈ c.wire := hmem
    rw [hwire] at hmem
    rcases List.mem_append.1 hmem with hold | hmem
    · obtain ⟨call, hcall⟩ := hs.wire k socket message hold
      obtain ⟨call', hcall', -⟩ := hlater k call hcall
      exact ⟨call', hcall'⟩
    · obtain ⟨⟨call, hcall, -⟩, -⟩ := hnew k socket message hmem
      exact ⟨call, hcall⟩
  · rcases hcalls hcall with ⟨old, hold, -⟩ | ⟨rfl, call', hcall', hsender⟩
    · rw [hold] at hnone
      cases hnone
    · obtain ⟨pump, rest, hl, -⟩ := hadded call' hcall' p (hsender ▸ hp)
      exact hbacked hl
  · obtain ⟨⟨call, hcall, -⟩, hgoes⟩ := hnew k socket message hmem
    refine ⟨call, hcall, fun p hp => ?_⟩
    rcases hcalls hcall with ⟨old, hold, hsender, -⟩ | ⟨rfl, call', hcall', hsender⟩
    · obtain ⟨hcancelling, hopen⟩ := hgoes old hold
      obtain ⟨pump, rest, hpump, -, hr, hc⟩ := hs.calls k old p hold hopen (hsender ▸ hp)
      refine hbacked ⟨hpump, hr, ?_⟩
      by_contra hne
      rw [hc (by simpa using hne)] at hcancelling
      cases hcancelling
    · obtain ⟨pump, rest, hl, -⟩ := hadded call' hcall' p (hsender ▸ hp)
      exact hbacked hl

/-! ### A turn of a task -/

/-- The task runs, for the transport `x`. -/
structure Ready (s : Outbound σ) (p x : ℕ) : Prop where
  live : ∃ pump, s.Live p pump ∧ pump.transport = x
  settled : s.Settled p

theorem Ready.of_eq (h : s.Ready p x) (hpumps : t.pumps = s.pumps) (hconnector : t.connector = s.connector) :
    t.Ready p x := by
  obtain ⟨pump, hl, hx⟩ := h.live
  exact ⟨⟨pump, ⟨by rw [hpumps]; exact hl.found, hl.registered, hl.cancelling⟩, hx⟩, h.settled.of_eq hconnector⟩

/-- A task waits elsewhere. -/
theorem Kept.setPhase (hs : s.Kept) (hr : s.Ready p x) {phase : PumpPhase} (hstarted : phase ≠ .created)
    (hactive : ∀ result, phase ≠ .ended result) : Moves s (s.setPhase p phase) := by
  obtain ⟨pump, hl, -⟩ := hr.live
  refine hs.modifyPump hr.settled fun other hother => ?_
  obtain rfl := Option.some.inj (hl.found.symm.trans hother)
  refine ⟨rfl, hstarted, iff_of_true hl.registered ?_, fun _ _ => hs.live p pump hl⟩
  unfold OutboundPump.isEnded
  split
  · rename_i result hphase
    exact absurd hphase (hactive result)
  · rfl

theorem Kept.callSend (hs : s.Kept) (hr : s.Ready p x) (connection : ℕ) (ciphertext : Bytes) (rest : List Bytes)
    (turn : Turn) : Moves s (s.callSend p connection ciphertext rest turn) := by
  obtain ⟨pump, hl, -⟩ := hr.live
  have hphase := @Kept.setPhase _ _ _ _ hs hr (.sending s.connector.sends.length rest) (by simp) (by simp)
  obtain ⟨call, hsender, hsends⟩ := Connector.send_sendsKept (s := s.connector) (c := connection) ciphertext (some p)
    turn.now turn.sendWaits
  refine hphase.trans (@Kept.withConnector _ _ hphase.kept _ (some call) (hs.connector.send _ _ _ _ _)
    (Connector.send_hands hs.connector _ _ _ _) hsends fun call' hcall' q hq => ?_)
  obtain rfl := Option.some.inj hcall'
  obtain rfl := Option.some.inj (hsender.symm.trans hq)
  refine ⟨{ pump with phase := .sending s.connector.sends.length rest }, rest, ⟨?_, hl.registered, hl.cancelling⟩, rfl⟩
  show (s.pumps.modify p _)[p]? = _
  rw [List.getElem?_modify_eq, hl.found]
  rfl

theorem Kept.publish (hs : s.Kept) (hr : s.Ready p x) (turn : Turn) (ciphertext : Bytes) (rest : List Bytes) :
    Moves s (s.publish p x turn ciphertext rest) := by
  refine onTransport_moves hs fun y _ => ?_
  split
  · exact hs.failPump hr.settled x _
  · split
    · exact hs.failPump hr.settled x _
    · exact hs.callSend hr _ _ _ _

theorem Kept.publishAll (hs : s.Kept) (hr : s.Ready p x) (turn : Turn) (ciphertexts : List Bytes) :
    Moves s (s.publishAll p x turn ciphertexts) := by
  cases ciphertexts with
  | nil => exact hs.setPhase hr (by simp) (by simp)
  | cons ciphertext rest => exact hs.publish hr turn ciphertext rest

theorem Kept.encryptText (hs : s.Kept) (hr : s.Ready p x) (turn : Turn) (text : Str) :
    Moves s (s.encryptText noise p x turn text) := by
  refine onTransport_moves hs fun y _ => ?_
  split
  · rename_i channel _
    have hmoves := hs.modifyTransport (x := x)
      (f := fun y => { y with side := { y.side with channel := channel } }) fun _ _ => rfl
    exact hmoves.trans (hmoves.kept.failPump (hr.settled.of_eq rfl) x _)
  · rename_i ciphertexts channel _
    have hmoves := hs.modifyTransport (x := x)
      (f := fun y => { y with side := { y.side with channel := channel } }) fun _ _ => rfl
    have hunlocked := hmoves.trans (hmoves.kept.unlock p)
    exact hunlocked.trans (hunlocked.kept.publishAll (hr.of_eq rfl rfl) turn ciphertexts)

theorem Kept.takeText (hs : s.Kept) (hr : s.Ready p x) (turn : Turn) : Moves s (s.takeText noise p x turn) := by
  refine onTransport_moves hs fun y _ => ?_
  have htenure := s.lease.nextText_tenure y.side.attachment
  rcases hnext : s.lease.nextText y.side.attachment with ⟨lease, result⟩
  rw [hnext] at htenure
  have hmoves : Moves s (s.withLease lease) := hs.withLease (by rw [htenure])
  have hready : (s.withLease lease).Ready p x := by
    rw [withLease_of_tenure htenure]
    exact hr.of_eq rfl rfl
  refine hmoves.trans ?_
  rcases result with fault | _ | item
  · exact hmoves.kept.failPump hready.settled x _
  · exact hmoves.kept.setPhase hready (by simp) (by simp)
  · exact hmoves.kept.encryptText hready turn _

theorem Kept.readText (hs : s.Kept) (hr : s.Ready p x) (turn : Turn) : Moves s (s.readText noise p x turn) := by
  refine onTransport_moves hs fun y _ => ?_
  split
  · exact hs.failPump hr.settled x _
  · have hmoves := hs.modifyTransport (x := x) (f := fun y => { y with sendLock := some p }) fun _ _ => rfl
    exact hmoves.trans (hmoves.kept.takeText (hr.of_eq rfl rfl) turn)

theorem Kept.nextCiphertexts (hs : s.Kept) (hr : s.Ready p x) (turn : Turn) :
    Moves s (s.nextCiphertexts noise p x turn) := by
  unfold Outbound.nextCiphertexts
  split
  · exact hs.setPhase hr (by simp) (by simp)
  · exact hs.readText hr turn

/-- A task registers only with an attachment that is there. -/
theorem Kept.startPump (hs : s.Kept) (hp : s.Settled p) {pump : OutboundPump} (hpump : s.pumps[p]? = some pump)
    (hcancelling : pump.cancelling = false) (turn : Turn) : Moves s (s.startPump noise p pump.transport turn) := by
  refine onTransport_moves hs fun y hy => ?_
  split
  · exact hs.failPump hp _ _
  · rename_i hthere
    have hattachment : s.attachmentOf p = some y.side.attachment := by
      simp only [attachmentOf, hpump, Option.bind_some, hy, Option.map_some]
    have hmoves : Moves s (s.modifyPump p fun pump => { pump with phase := .locking, registered := true }) := by
      refine hs.modifyPump hp fun _ _ => ⟨rfl, by simp, iff_of_true rfl rfl, fun _ _ => ⟨_, hattachment, ?_⟩⟩
      by_contra hgone
      exact hthere (.inl (by simpa using hgone))
    refine hmoves.trans (hmoves.kept.nextCiphertexts ⟨⟨{ pump with phase := .locking, registered := true },
      ⟨?_, rfl, hcancelling⟩, rfl⟩, hp.of_eq rfl⟩ turn)
    show (s.pumps.modify p _)[p]? = _
    rw [List.getElem?_modify_eq, hpump]
    rfl

theorem Kept.afterSend (hs : s.Kept) (hr : s.Ready p x) (turn : Turn) (rest : List Bytes) (result : SendResult) :
    Moves s (s.afterSend noise p x turn rest result) := by
  cases result with
  | cancelled => exact hs.interrupt hr.settled x
  | connectionError => exact hs.endPump hr.settled _
  | sent =>
    cases rest with
    | nil => exact hs.nextCiphertexts hr turn
    | cons ciphertext rest => exact hs.publish hr turn ciphertext rest

/-- Where a task does not await a call, its calls ended. -/
theorem Kept.settled (hs : s.Kept) {pump : OutboundPump} (hpump : s.pumps[p]? = some pump)
    (hphase : ∀ k rest, pump.phase = .sending k rest → (s.sendResult k).isSome) : s.Settled p := by
  intro k call hk hp
  by_contra hopen
  rw [Bool.not_eq_true] at hopen
  obtain ⟨other, rest, hother, hsending, -⟩ := hs.calls k call p hk hopen hp
  obtain rfl := Option.some.inj (hpump.symm.trans hother)
  have hresult := hphase k rest hsending
  unfold sendResult at hresult
  rw [hk, Option.bind_some] at hresult
  split at hresult
  · rename_i result hcall
    rw [SendCall.isEnded, hcall] at hopen
    cases hopen
  · cases hresult

theorem Kept.resume (hs : s.Kept) {pump : OutboundPump} (hpump : s.pumps[p]? = some pump) (hmay : s.MayResume pump)
    (turn : Turn) : Moves s (s.resume noise p turn pump) := by
  have hsettled : s.Settled p := by
    refine hs.settled hpump fun k rest hphase => ?_
    rw [MayResume, hphase] at hmay
    exact hmay
  have hready : pump.cancelling ≠ true → pump.phase ≠ .created → s.Ready p pump.transport := by
    intro hc hstarted
    have hactive : pump.isEnded = false := by
      unfold OutboundPump.isEnded
      split
      · rename_i result hphase
        rw [MayResume, hphase] at hmay
        exact hmay.elim
      · rfl
    have hregistered := (hs.active pump (List.mem_of_getElem? hpump)).2 ⟨hstarted, hactive⟩
    exact ⟨⟨pump, ⟨hpump, hregistered, by simpa using hc⟩, rfl⟩, hsettled⟩
  unfold Outbound.resume
  dsimp only
  cases hphase : pump.phase with
  | created =>
    dsimp only
    split
    · exact hs.endPump hsettled _
    · rename_i hc
      exact hs.startPump hsettled hpump (by simpa using hc) turn
  | locking =>
    dsimp only
    split
    · exact hs.interrupt hsettled _
    · rename_i hc
      exact hs.readText (hready hc (by simp [hphase])) turn
  | waking =>
    dsimp only
    split
    · exact hs.interrupt hsettled _
    · rename_i hc
      exact hs.takeText (hready hc (by simp [hphase])) turn
  | sending k rest =>
    dsimp only
    split
    · exact .refl hs
    · split
      · exact hs.interrupt hsettled _
      · rename_i hc
        exact hs.afterSend (hready hc (by simp [hphase])) turn rest _
  | ended result => exact .refl hs

/-! ## Steps and runs -/

/-- Transports and tasks are added; the tasks did not start. -/
theorem Kept.append (hs : s.Kept) {xs : List (OutboundTransport σ)} {ps : List OutboundPump}
    (hxs : ∀ x ∈ xs, x.side.attachment < s.lease.opened)
    (hps : ∀ pump ∈ ps, pump.phase = .created ∧ pump.registered = false) :
    Moves s { s with transports := s.transports ++ xs, pumps := s.pumps ++ ps } := by
  have hpump : ∀ {p : ℕ} {pump : OutboundPump}, s.pumps[p]? = some pump → (s.pumps ++ ps)[p]? = some pump := by
    intro p pump hp
    rw [List.getElem?_append_left (List.getElem?_eq_some_iff.1 hp).1, hp]
  have hof : ∀ p a, s.attachmentOf p = some a →
      attachmentOf { s with transports := s.transports ++ xs, pumps := s.pumps ++ ps } p = some a := by
    intro p a ha
    obtain ⟨pump, hp, hx⟩ := Option.bind_eq_some_iff.1 ha
    obtain ⟨y, hy, hya⟩ := Option.map_eq_some_iff.1 hx
    refine Option.bind_eq_some_iff.2 ⟨pump, hpump hp, Option.map_eq_some_iff.2 ⟨y, ?_, hya⟩⟩
    rw [List.getElem?_append_left (List.getElem?_eq_some_iff.1 hy).1, hy]
  refine ⟨⟨hs.connector, hs.tenure, fun x hx => ?_, fun pump hmem => ?_, fun p pump hl => ?_,
    fun k call p hk hopen hp => ?_, fun k call p hk hp => ?_, hs.wire⟩, hof, fun _ => id,
    fun k call hk => ⟨call, hk, rfl⟩, fun k call hk hnone => ?_, [], by simp, by simp⟩
  · rcases List.mem_append.1 hx with hx | hx
    · exact hs.opened x hx
    · exact hxs x hx
  · rcases List.mem_append.1 hmem with hmem | hmem
    · exact hs.active pump hmem
    · obtain ⟨hphase, hr⟩ := hps pump hmem
      simp [hphase, hr]
  · have hfound : (s.pumps ++ ps)[p]? = some pump := hl.found
    rw [List.getElem?_append] at hfound
    split at hfound
    · obtain ⟨a, ha, hthere⟩ := hs.live p pump ⟨hfound, hl.registered, hl.cancelling⟩
      exact ⟨a, hof p a ha, hthere⟩
    · have hr := (hps pump (List.mem_of_getElem? hfound)).2
      rw [hl.registered] at hr
      cases hr
  · obtain ⟨pump, rest, hp', hrest⟩ := hs.calls k call p hk hopen hp
    exact ⟨pump, rest, hpump hp', hrest⟩
  · obtain ⟨⟨pump, hp', hstarted⟩, a, ha⟩ := hs.senders k call p hk hp
    exact ⟨⟨pump, hpump hp', hstarted⟩, a, hof p a ha⟩
  · have hk : s.connector.sends[k]? = some call := hk
    rw [hk] at hnone
    cases hnone

theorem Kept.cancel (hs : s.Kept) (f : ℕ → Bool) : Moves s (s.cancelTasks f) := by
  refine hs.cancelTasks .refl fun p hloses => ?_
  rw [loses, Bool.and_eq_true] at hloses
  cases ha : s.attachmentOf p with
  | none => simp [ha] at hloses
  | some a => simp [ha] at hloses

/-- What a step does. -/
theorem moves_step {e : Event σ} (hs : s.Kept) (hstep : Step noise s e t) : Moves s t := by
  obtain ⟨hen, rfl⟩ := hstep
  cases e with
  | lease e => exact hs.withLease (@Lease.step_changes _ _ (e, (s.lease.perform e).2) ⟨hen, rfl⟩)
  | connector e =>
    obtain ⟨hforeign, hen⟩ := hen
    have hstep : Connector.Step s.connector e (s.connector.perform e) := ⟨hen, rfl⟩
    have hk := Connector.kept_step hs.connector hstep
    have hhands := Connector.hands_step hs.connector hstep
    by_cases hsend : ∃ c data sender now waits, e = .send c data sender now waits
    · obtain ⟨c, data, sender, now, waits, rfl⟩ := hsend
      obtain rfl : sender = none := hforeign
      obtain ⟨call, hsender, hsends⟩ := Connector.send_sendsKept (s := s.connector) (c := c) data none now waits
      refine @Kept.withConnector _ _ hs _ (some call) hk hhands hsends fun call' hcall' p hp => ?_
      obtain rfl := Option.some.inj hcall'
      rw [hsender] at hp
      cases hp
    · have hsends := Connector.sendsKept_step hstep fun c data sender now waits he =>
        hsend ⟨c, data, sender, now, waits, he⟩
      refine @Kept.withConnector _ _ hs _ none hk hhands ?_ fun call hcall => by cases hcall
      refine .trans (.of_eq ?_) hsends
      simp
  | bind channel channelId attachment connection =>
    have hmoves := @Kept.append _ _ hs [⟨⟨channel, attachment, { channelId := some channelId }, false⟩, channelId,
      connection, none⟩] [] (fun x hx => by rw [List.mem_singleton.1 hx]; exact hen.1) (by simp)
    simpa [perform] using hmoves
  | feed x env ciphertext =>
    refine onTransport_moves hs fun y hy => ?_
    have hchanges := @Link.feed_changes _ noise.decrypt ⟨y.side, s.lease⟩ env ciphertext
      (hs.opened y (List.mem_of_getElem? hy))
    exact hs.withLink hy hchanges.1 hchanges.2
  | close x reason => exact hs.closeTransport x reason
  | pump x =>
    have hmoves := @Kept.append _ _ hs [] [{ transport := x }] (by simp) (by simp)
    simpa [perform] using hmoves
  | resume p turn =>
    obtain ⟨pump, hpump, hmay, -⟩ := hen
    have hpump : s.pumps[p]? = some pump := hpump
    simp only [perform, hpump, Option.map_some, Option.getD_some]
    exact hs.resume hpump hmay turn
  | cancel p => exact hs.cancel _

theorem moves_run {events : List (Event σ)} (hs : s.Kept) (h : Run (Step noise) s events t) : Moves s t := by
  induction h with
  | nil => exact .refl hs
  | cons hstep _ ih =>
    have hmoves := moves_step hs hstep
    exact hmoves.trans (ih hmoves.kept)

theorem Fresh.kept (h : s.Fresh) : s.Kept := by
  obtain ⟨depths, hconnector⟩ := h.connector
  refine ⟨?_, h.lease.tenure_valid, ?_, ?_, fun p pump hl => ?_, ?_, ?_, ?_⟩
  · rw [hconnector]
    exact Connector.kept_new depths
  · simp [h.transports]
  · simp [h.pumps]
  · have hfound := hl.found
    rw [h.pumps] at hfound
    cases hfound
  all_goals simp [hconnector]

/-- A message is for the same attachment later. -/
theorem Advances.isFor_old (hs : s.Kept) (h : Advances s t) {message : Outgoing} (hmem : message ∈ s.connector.wire) :
    t.isFor a message = s.isFor a message := by
  cases message with
  | close => rfl
  | binary k socket message =>
    obtain ⟨call, hcall⟩ := hs.wire k socket message hmem
    obtain ⟨call', hcall', hsender⟩ := h.senders k call hcall
    simp only [isFor]
    rw [hcall, hcall', Option.bind_some, Option.bind_some, hsender]
    cases hp : call.sender with
    | none => rfl
    | some p =>
      obtain ⟨-, b, hb⟩ := hs.senders k call p hcall hp
      rw [Option.bind_some, Option.bind_some, hb, h.attachmentOf p b hb]

/-- A message of a call that is backed is not for an attachment that is lost. -/
theorem isFor_backed {call : SendCall} (hcall : t.connector.sends[k]? = some call) (hbacked : Backed s t call)
    (hlost : s.Lost a) (socket : ℕ) (message : Bytes) : t.isFor a (.binary k socket message) = false := by
  simp only [isFor, hcall, Option.bind_some, decide_eq_false_iff_not]
  intro ha
  obtain ⟨p, hp, ha⟩ := Option.bind_eq_some_iff.1 ha
  obtain ⟨b, hb, hthere⟩ := hbacked p hp
  obtain rfl := Option.some.inj (ha.symm.trans hb)
  exact hthere hlost

theorem Advances.published (hs : s.Kept) (h : Advances s t) (hlost : s.Lost a) : t.published a = s.published a := by
  obtain ⟨new, hwire, hnew⟩ := h.wire
  have hnone : new.filter (t.isFor a) = [] := by
    rw [List.filter_eq_nil_iff]
    intro message hmem
    cases message with
    | close => exact Bool.false_ne_true
    | binary k socket message =>
      obtain ⟨call, hcall, hbacked⟩ := hnew k socket message hmem
      rw [isFor_backed hcall hbacked hlost]
      exact Bool.false_ne_true
  unfold Outbound.published
  rw [hwire, List.filter_append, hnone, List.append_nil]
  exact List.filter_congr fun message hmem => h.isFor_old hs hmem

end Outbound

/-- **What is gone publishes nothing.**  However things go on after an attachment is marked
    detached, or its lease is released, the host socket is handed no more of its
    ciphertexts, and a task of it that did not start by then does not call `send`. -/
theorem gone_publishes_nothing {σ : Type} {noise : NoiseFunctions σ} {s₀ s t : Outbound σ}
    {before after : List (Outbound.Event σ)} {a : ℕ} (h₀ : s₀.Fresh) (h : Run (Outbound.Step noise) s₀ before s)
    (ha : a < s.lease.opened) (hgone : s.Gone a) (hafter : Run (Outbound.Step noise) s after t) :
    t.published a = s.published a ∧
      ∀ p, t.attachmentOf p = some a → (∀ pump ∈ s.pumps[p]?, pump.phase = .created) → t.callsOf p = [] := by
  have hs := (Outbound.moves_run h₀.kept h).kept
  have hlost : s.Lost a := by
    refine ⟨ha, ?_⟩
    rcases hgone with hdetached | hreleased
    · exact hdetached
    · -- a lease that is released has no attachment that is not marked
      by_contra hthere
      rw [Bool.not_eq_true] at hthere
      have hcurrent := (hs.tenure.current a).2 ⟨ha, hthere⟩
      rw [hs.tenure.released hreleased] at hcurrent
      cases hcurrent
  have hadvances := (Outbound.moves_run hs hafter).advances
  refine ⟨hadvances.published hs hlost, fun p hp hcreated => ?_⟩
  rw [Outbound.callsOf, List.filter_eq_nil_iff]
  intro call hmem hsender
  have hsender : call.sender = some p := by simpa using hsender
  obtain ⟨k, hk⟩ := List.getElem?_of_mem hmem
  cases hold : s.connector.sends[k]? with
  | some old =>
    obtain ⟨call', hk', hsame⟩ := hadvances.senders k old hold
    obtain rfl := Option.some.inj (hk.symm.trans hk')
    obtain ⟨⟨pump, hpump, hstarted⟩, -⟩ := hs.senders k old p hold (hsame ▸ hsender)
    exact hstarted (hcreated pump hpump)
  | none =>
    obtain ⟨b, hb, hthere⟩ := hadvances.calls k call hk hold p hsender
    obtain rfl := Option.some.inj (hp.symm.trans hb)
    exact hthere hlost

/-- A connection that adds sixteen octets to a record. -/
def tagging : NoiseFunctions Unit := ⟨fun _ plaintext => (some (plaintext ++ List.replicate 16 0), ()), Link.tagged⟩

def firstTurn : Turn := { messageId := List.replicate 16 1, now := 0 }

/-- A device is attached, and gets the status of its attachment; a frame is encrypted
    for it, and waits to be sent when the device is detached. -/
def frameWaits : List (Outbound.Event Unit) :=
  (devicesOpened 1).map .connector ++ [.lease (.attach (.standing 0 fun _ => true) 0 {}),
    .bind { connection := some () } (List.replicate 16 7) 0 0, .pump 0, .resume 0 firstTurn,
    .connector (.sendDone 0 true 0), .lease (.frame (.standing 0 fun _ => true) 0 (lit "\x7b\x7d")), .resume 0 firstTurn,
    .lease (.detach 0 .detached)]

/-- The task ends where it sleeps, and another one does not start. -/
def pumpEnds : List (Outbound.Event Unit) :=
  [.connector (.sendCancelled 1), .resume 0 firstTurn, .pump 0, .resume 1 firstTurn]

def performAll (s : Outbound Unit) (events : List (Outbound.Event Unit)) : Outbound Unit :=
  events.foldl (fun s e => s.perform tagging e) s

theorem gone_publishes_nothing_waiting : ∃ s t : Outbound Unit,
    s.connector.sends.map (·.phase) = [.ended .sent, .pacing] ∧ s.connector.sends.map (·.cancelling) = [false, true] ∧
      (s.published 0).length = 1 ∧ t.published 0 = s.published 0 ∧ t.callsOf 1 = [] := by
  have hfresh : Outbound.Fresh (⟨{}, {}, [], []⟩ : Outbound Unit) :=
    ⟨⟨rfl, rfl, rfl, rfl, rfl, rfl, rfl, rfl, rfl, rfl, rfl, rfl, rfl, rfl⟩, ⟨⟨900, 900⟩, rfl⟩, rfl, rfl⟩
  have hbefore : Run (Outbound.Step tagging) ⟨{}, {}, [], []⟩ frameWaits (performAll ⟨{}, {}, [], []⟩ frameWaits) :=
    run_of_along (by decide +kernel)
  have hafter : Run (Outbound.Step tagging) (performAll ⟨{}, {}, [], []⟩ frameWaits) pumpEnds
      (performAll (performAll ⟨{}, {}, [], []⟩ frameWaits) pumpEnds) :=
    run_of_along (by decide +kernel)
  have hopened : 0 < (performAll ⟨{}, {}, [], []⟩ frameWaits).lease.opened := by decide +kernel
  have hgone : (performAll ⟨{}, {}, [], []⟩ frameWaits).Gone 0 := by decide +kernel
  obtain ⟨hsame, hcalls⟩ := gone_publishes_nothing hfresh hbefore hopened hgone hafter
  refine ⟨_, _, ?_, ?_, ?_, hsame, hcalls 1 ?_ ?_⟩
  · decide +kernel
  · decide +kernel
  · decide +kernel
  · decide +kernel
  · decide +kernel

end MercuryRelay
