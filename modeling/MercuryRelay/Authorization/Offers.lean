/-
  A pairing capability is used at most once.

  The active offer is the live ticket of the issuer of `Lib.OneTime`: each
  `create_offer` issues one, a `consume_offer` that pairs redeems it.

  * `repository_events`: the events of a run;
  * `capability_used_once`: single use, at any order of the calls.
-/
import MercuryRelay.Authorization.Revocation
import MercuryRelay.Authorization.Writes
import MercuryRelay.Lib.OneTime

set_option autoImplicit false

namespace MercuryRelay

open Python Transaction
open Transition (Run)
open OneTime (Event)

/-! ## Tickets -/

/-- What an offer and its record have in common. -/
structure Ticket where
  offerId : Str
  digest : Raw
  expiresAt : ℤ

def PairingOfferRecord.ticket (o : PairingOfferRecord) : Ticket :=
  ⟨o.offerId, o.capabilityDigest, o.expiresAt⟩

def PairingOffer.ticket (o : PairingOffer) : Ticket :=
  ⟨o.offerId, sha256 o.capability.1, o.expiresAt⟩

/-- The ticket of the active offer. -/
def AuthState.liveTicket (f : AuthState) : Option Ticket :=
  (f.pairingOffer.filter (·.status = .active)).map (·.ticket)

def Write.event : Write → Event Ticket
  | .offer o _ => .issue o.ticket
  | .pair o _ _ => .redeem o.ticket
  | .expireOffer => .withdraw
  | .identity _ | .sweep _ _ | .update _ _ => .keep

section Tickets

variable {f f' : AuthState} {w : Write} {ws : List Write} {k : Ticket}

theorem liveTicket_eq_some : f.liveTicket = some k ↔
    ∃ o, f.pairingOffer = some o ∧ o.status = .active ∧ o.ticket = k := by
  simp only [AuthState.liveTicket, Option.map_eq_some_iff, Option.filter_eq_some_iff,
    decide_eq_true_eq, and_assoc]

theorem liveTicket_congr (h : f'.pairingOffer = f.pairingOffer) : f'.liveTicket = f.liveTicket := by
  rw [AuthState.liveTicket, h]; rfl

/-- A write is a step of the issuer. -/
theorem FileWrite.oneTime (h : FileWrite f w f') :
    OneTime.Step f.liveTicket w.event f'.liveTicket := by
  cases h with
  | identity i h =>
    rw [show AuthState.liveTicket { f with hostIdentity := some i } = f.liveTicket from
      liveTicket_congr rfl]
    exact .keep _
  | sweep t maxAge =>
    rw [show (expirePendingInState f t maxAge).1.liveTicket = f.liveTicket from
      liveTicket_congr rfl]
    exact .keep _
  | offer o t _ _ => exact .issue _ _
  | expireOffer _ => exact .withdraw _
  | @pair o i k d t ho ha ht =>
    have hlive : f.liveTicket = some o.ticket := liveTicket_eq_some.2 ⟨o, ho, ha, rfl⟩
    rw [hlive]
    exact .redeem _
  | @update r u _ _ =>
    rw [show (replaceDevice f r u).liveTicket = f.liveTicket from liveTicket_congr rfl]
    exact .keep _

theorem Write.Quiet.events (h : ∀ w ∈ ws, w.Quiet) :
    OneTime.issued (ws.map (·.event)) = [] ∧ OneTime.redeemed (ws.map (·.event)) = [] := by
  induction ws with
  | nil => exact ⟨rfl, rfl⟩
  | cons w ws ih =>
    obtain ⟨h1, h2⟩ := ih fun x hx => h x (List.mem_cons_of_mem w hx)
    have hw := h w List.mem_cons_self
    rw [List.map_cons, OneTime.issued_cons, OneTime.redeemed_cons]
    · exact ⟨h1, h2⟩
    · rintro k hk
      cases w with
      | pair => exact hw
      | identity | sweep | offer | expireOffer | update => cases hk
    · rintro k hk
      cases w with
      | offer => exact hw
      | identity | sweep | pair | expireOffer | update => cases hk

end Tickets

/-! ## Offers and their consumption -/

/-- The offer a step returned. -/
def Invocation.offered (f : AuthState) (i : Invocation) : Option PairingOffer :=
  match (i.exec f).1 with
  | .ok (.offer o) => some o
  | _ => none

/-- The capability a step consumed. -/
def Invocation.consumed (f : AuthState) (i : Invocation) : Option Bytes :=
  match i.call, (i.exec f).1 with
  | .consumeOffer capability _ _, .ok _ => some capability
  | _, _ => none

/-- The offers that the `create_offer` calls of a run returned. -/
def offers : AuthState → List Invocation → List PairingOffer
  | _, [] => []
  | f, i :: is => (i.offered f).toList ++ offers (i.exec f).2 is

/-- The capabilities that the `consume_offer` calls of a run consumed. -/
def consumptions : AuthState → List Invocation → List Bytes
  | _, [] => []
  | f, i :: is => (i.consumed f).toList ++ consumptions (i.exec f).2 is

section Events

variable {f : AuthState} {i : Invocation} {is js : List Invocation}

theorem offers_append :
    offers f (is ++ js) = offers f is ++ offers (runRepository f is) js := by
  induction is generalizing f with
  | nil => rfl
  | cons i is ih =>
    rw [List.cons_append, offers, offers, ih, List.append_assoc]
    rfl

theorem Invocation.offered_eq {o : PairingOffer} (h : (i.exec f).1 = .ok (.offer o)) :
    i.offered f = some o := by
  rw [Invocation.offered, h]

theorem Invocation.offered_none (h : ∀ o, (i.exec f).1 ≠ .ok (.offer o)) : i.offered f = none := by
  unfold Invocation.offered
  split
  · rename_i o ho
    exact absurd ho (h o)
  · rfl

theorem Invocation.consumed_eq {a k b : Bytes} {reply : Reply} (hc : i.call = .consumeOffer a k b)
    (h : (i.exec f).1 = .ok reply) : i.consumed f = some a := by
  unfold Invocation.consumed
  split
  · rename_i hc' _
    rw [hc] at hc'
    cases hc'
    rfl
  · rename_i hn
    exact absurd h (hn _ _ _ _ hc)

theorem Invocation.consumed_some {a : Bytes} (h : i.consumed f = some a) :
    ∃ k b reply, i.call = .consumeOffer a k b ∧ (i.exec f).1 = .ok reply := by
  unfold Invocation.consumed at h
  split at h
  · rename_i hc hr
    cases h
    exact ⟨_, _, _, hc, hr⟩
  · cases h

/-- The events of a step: its last one issues the offer returned, or redeems
    the capability consumed. -/
theorem Invocation.events (f : AuthState) (i : Invocation) :
    ∃ es, Run OneTime.Step f.liveTicket es (i.exec f).2.liveTicket ∧
      OneTime.issued es = (i.offered f).toList.map (·.ticket) ∧
      (OneTime.redeemed es).map (·.digest) = (i.consumed f).toList.map sha256 ∧
      (∀ o, i.offered f = some o → (i.exec f).2.liveTicket = some o.ticket) ∧
      ((i.consumed f).isSome → (i.exec f).2.liveTicket = none) := by
  obtain ⟨ws, hrun, hw⟩ := i.writes f
  have hes := hrun.map (φ := AuthState.liveTicket) (ψ := Write.event) fun _ _ _ h => h.1.oneTime
  refine ⟨_, hes, ?_⟩
  generalize hc : i.call = c at hw
  generalize hrs : i.readings = rs at hw
  generalize hr : (i.exec f).1 = reply at hw
  have hconsumed : (∀ a k b, i.call = .consumeOffer a k b → ∃ e, (i.exec f).1 = .error e) →
      i.consumed f = none := by
    intro h
    cases hx : i.consumed f with
    | none => rfl
    | some a =>
      obtain ⟨k, b, reply, hcall, hok⟩ := i.consumed_some hx
      obtain ⟨e, he⟩ := h a k b hcall
      rw [hok] at he
      cases he
  cases hw with
  | @created ttl t rs o ws hidle _ =>
    obtain ⟨h1, h2⟩ := Write.Quiet.events fun w hw => (hidle w hw).quiet
    have hoff := i.offered_eq hr
    have hcon := hconsumed fun a k b h => by rw [hc] at h; cases h
    rw [hoff, hcon, List.map_append, OneTime.issued_append, OneTime.redeemed_append, h1, h2]
    refine ⟨rfl, rfl, ?_, by simp⟩
    rintro _ ⟨⟩
    obtain ⟨g, -, hlast⟩ := hrun.split
    cases hlast with
    | cons hs hnil =>
      cases hnil
      exact OneTime.issue_live hs.1.oneTime
  | @paired c k b t rs ws o r hidle hdigest =>
    obtain ⟨h1, h2⟩ := Write.Quiet.events fun w hw => (hidle w hw).quiet
    have hoff := i.offered_none fun o ho => by rw [hr] at ho; cases ho
    have hcon := i.consumed_eq hc hr
    rw [hoff, hcon, List.map_append, OneTime.issued_append, OneTime.redeemed_append, h1, h2]
    refine ⟨rfl, ?_, by simp, fun _ => ?_⟩
    · show [o.ticket.digest] = [sha256 c.1]
      rw [hdigest]
      rfl
    · obtain ⟨g, -, hlast⟩ := hrun.split
      cases hlast with
      | cons hs hnil =>
        cases hnil
        exact (OneTime.redeem_live hs.1.oneTime).2
  | @failed c rs e ws _ hidle =>
    obtain ⟨h1, h2⟩ := Write.Quiet.events fun w hw => (hidle w hw).quiet
    have hoff := i.offered_none fun o ho => by rw [hr] at ho; cases ho
    have hcon := hconsumed fun a k b _ => ⟨e, hr⟩
    rw [h1, h2, hoff, hcon]
    exact ⟨rfl, rfl, by simp, by simp⟩
  | @other c rs reply ws hpairs hreply hquiet =>
    obtain ⟨h1, h2⟩ := Write.Quiet.events hquiet
    have hoff := i.offered_none fun o ho => hreply o (hr ▸ ho)
    have hcon := hconsumed fun a k b h => by rw [hc] at h; exact absurd (h ▸ trivial) hpairs
    rw [h1, h2, hoff, hcon]
    exact ⟨rfl, rfl, by simp, by simp⟩

/-- **The events of a run.** -/
theorem repository_events (f : AuthState) (is : List Invocation) :
    ∃ es, Run OneTime.Step f.liveTicket es (runRepository f is).liveTicket ∧
      OneTime.issued es = (offers f is).map (·.ticket) ∧
      (OneTime.redeemed es).map (·.digest) = (consumptions f is).map sha256 := by
  induction is generalizing f with
  | nil => exact ⟨[], .nil, rfl, rfl⟩
  | cons i is ih =>
    obtain ⟨es, h1, h2, h3, -⟩ := i.events f
    obtain ⟨es', h1', h2', h3'⟩ := ih (i.exec f).2
    refine ⟨es ++ es', h1.append h1', ?_, ?_⟩
    · rw [OneTime.issued_append, h2, h2', offers, List.map_append]
    · rw [OneTime.redeemed_append, List.map_append, h3, h3', consumptions, List.map_append]

end Events

/-! ## Single use -/

/-- The active offer has the digest of the capability and is not due at `t`. -/
def Redeemable (f : AuthState) (t : ℤ) (capability : Raw) : Prop :=
  ∃ o ∈ f.pairingOffer, o.status = .active ∧ t < o.expiresAt ∧
    sha256 capability.1 = o.capabilityDigest

/-- The step supersedes, cancels or consumes the offer. -/
def Finishes (f : AuthState) (i : Invocation) (o : PairingOffer) : Prop :=
  (i.offered f).isSome ∨
    (i.call = .cancelOffer o.offerId ∧ ∃ reply, (i.exec f).1 = .ok reply) ∨
    i.consumed f = some o.capability.1

section SingleUse

variable {f : AuthState} {i : Invocation} {t : ℤ} {c : Raw}

theorem redeemable_iff : Redeemable f t c ↔
    ∃ k, f.liveTicket = some k ∧ k.digest = sha256 c.1 ∧ t < k.expiresAt := by
  constructor
  · rintro ⟨o, ho, ha, ht, hd⟩
    exact ⟨o.ticket, liveTicket_eq_some.2 ⟨o, ho, ha, rfl⟩, hd.symm, ht⟩
  · rintro ⟨k, hk, hd, ht⟩
    obtain ⟨o, ho, ha, rfl⟩ := liveTicket_eq_some.1 hk
    exact ⟨o, ho, ha, ht, hd.symm⟩

/-- Idle writes keep the records and make nothing redeemable. -/
theorem Wrote.idle {g : AuthState} (h : Wrote Write.Idle f g) :
    g.devices = f.devices ∧ (Redeemable g t c → Redeemable f t c) := by
  obtain ⟨ws, hr, hi⟩ := h
  induction hr with
  | nil => exact ⟨rfl, id⟩
  | @cons f w f' ws g hs _ ih =>
    obtain ⟨h1, h2⟩ := ih fun x hx => hi x (List.mem_cons_of_mem w hx)
    have hw := hi w List.mem_cons_self
    rw [h1]
    cases hs.1 with
    | identity i _ => exact ⟨rfl, h2⟩
    | expireOffer _ =>
      refine ⟨rfl, fun hg => ?_⟩
      obtain ⟨o, ho, ha, -⟩ := h2 hg
      cases ho
      cases ha
    | sweep | offer | pair | update => exact hw.elim

/-- A `consume_offer` that raises leaves the records, and makes no capability
    redeemable. -/
theorem Invocation.consume_rejected {a k b : Bytes} {e : AuthError}
    (hc : i.call = .consumeOffer a k b) (hr : (i.exec f).1 = .error e) :
    (i.exec f).2.devices = f.devices ∧
      ∀ t c, Redeemable (i.exec f).2 t c → Redeemable f t c := by
  obtain ⟨ws, hrun, hw⟩ := i.writes f
  rw [hc, hr] at hw
  generalize i.readings = rs at hw
  cases hw with
  | failed _ hidle =>
    have h := fun t c => Wrote.idle (t := t) (c := c) ⟨ws, hrun, hidle⟩
    exact ⟨(h 0 ⟨List.replicate 32 0, rfl⟩).1, fun t c => (h t c).2⟩
  | other hpairs => exact absurd trivial hpairs

/-- A `consume_offer` that returns had a redeemable capability. -/
theorem Invocation.consume_redeemable {k b : Bytes} {reply : Reply}
    (hc : i.call = .consumeOffer c.1 k b) (hr : (i.exec f).1 = .ok reply) :
    ∃ t, i.readings.head? = some (some t) ∧ Redeemable f t c := by
  obtain ⟨ws, hrun, hw⟩ := i.writes f
  rw [hc, hr] at hw
  generalize hrs : i.readings = rs at hw
  generalize hcall : Call.consumeOffer c.1 k b = call at hw
  cases hw with
  | created => cases hcall
  | @paired c' k' b' t rs ws o r hidle hdigest =>
    obtain ⟨hcc, -, -⟩ := Call.consumeOffer.inj hcall
    obtain ⟨g, hrun', hlast⟩ := hrun.split
    refine ⟨t, rfl, (Wrote.idle ⟨ws, hrun', hidle⟩).2 ?_⟩
    cases hlast with
    | cons hs _ =>
      cases hs.1 with
      | pair i k d t ho ha ht => exact ⟨o, ho, ha, ht, by rw [hcc, hdigest]⟩
  | other hpairs => exact absurd (hcall ▸ trivial) hpairs

end SingleUse

section Distinct

variable {is xs ys zs : List Invocation} {i : Invocation} {S : Set Raw} {o o' : PairingOffer}

/-- The offers of a run whose capabilities are distinct, and whose digests are,
    have distinct digests. -/
theorem offers_digests (hS : Set.InjOn (fun c : Raw => sha256 c.1) S)
    (hissued : ∀ o ∈ offers default is, o.capability ∈ S)
    (hdistinct : ((offers default is).map (·.capability)).Nodup) :
    ((offers default is).map (·.ticket.digest)).Nodup := by
  have h := List.Nodup.map_on (f := fun c : Raw => sha256 c.1) (fun x hx y hy hxy => ?_) hdistinct
  · rw [List.map_map] at h
    exact h
  · obtain ⟨o, ho, rfl⟩ := List.mem_map.1 hx
    obtain ⟨o', ho', rfl⟩ := List.mem_map.1 hy
    exact hS (hissued o ho) (hissued o' ho') hxy

/-- The active offer that has the digest of an offer returned is that offer. -/
theorem live_offer {f : AuthState} {k : Ticket}
    (hdigests : ((offers default is).map (·.ticket.digest)).Nodup)
    (hf : f = runRepository default is) (hk : f.liveTicket = some k) (ho : o ∈ offers default is)
    (hd : k.digest = o.ticket.digest) : k = o.ticket := by
  obtain ⟨es, hrun, hissued, -⟩ := repository_events default is
  rw [← hf, hk] at hrun
  have hmem := OneTime.live_issued hrun
  rw [hissued] at hmem
  obtain ⟨o', ho', rfl⟩ := List.mem_map.1 hmem
  rw [List.inj_on_of_nodup_map hdigests ho' ho hd]

theorem offers_initial (hdigests : ((offers default (is ++ ys)).map (·.ticket.digest)).Nodup) :
    ((offers default is).map (·.ticket.digest)).Nodup := by
  rw [offers_append, List.map_append] at hdigests
  exact (List.nodup_append.1 hdigests).1

/-- A finished offer is not the active one. -/
theorem Finishes.lost {f : AuthState} (h : Finishes f i o)
    (hne : ∀ o', i.offered f = some o' → o'.ticket ≠ o.ticket) :
    (i.exec f).2.liveTicket ≠ some o.ticket := by
  obtain ⟨es, -, -, -, hoffered, hconsumed⟩ := i.events f
  rcases h with hsome | ⟨hc, reply, hr⟩ | hcons
  · obtain ⟨o', ho'⟩ := Option.isSome_iff_exists.1 hsome
    rw [hoffered o' ho']
    intro heq
    exact hne o' ho' (Option.some.inj heq)
  · intro hlive
    obtain ⟨r, hr', ha, ht⟩ := liveTicket_eq_some.1 hlive
    have hid : r.offerId = o.offerId := congrArg Ticket.offerId ht
    exact i.cancelled hc hr r hr' hid ha
  · rw [hconsumed (by rw [hcons]; rfl)]
    simp

/-- A finished offer is never redeemable again. -/
theorem finished_not_redeemable
    (hdigests : ((offers default (xs ++ i :: ys)).map (·.ticket.digest)).Nodup)
    (ho : o ∈ offers default xs) (hfin : Finishes (runRepository default xs) i o) (t : ℤ) :
    ¬ Redeemable (runRepository default (xs ++ i :: ys)) t o.capability := by
  intro hred
  obtain ⟨k, hk, hd, -⟩ := redeemable_iff.1 hred
  have hmem : o ∈ offers default (xs ++ i :: ys) := by
    rw [offers_append]
    exact List.mem_append_left _ ho
  obtain rfl := live_offer hdigests rfl hk hmem hd
  -- the events up to the step that finishes the offer, and those after it
  obtain ⟨es, hrun, hissued, -⟩ := repository_events default (xs ++ [i])
  obtain ⟨es', hrun', hissued', -⟩ :=
    repository_events (runRepository default (xs ++ [i])) ys
  have hend : runRepository (runRepository default (xs ++ [i])) ys =
      runRepository default (xs ++ i :: ys) := by
    rw [← runRepository_append, List.append_assoc]
    rfl
  have hoffers : offers default (xs ++ [i]) ++ offers (runRepository default (xs ++ [i])) ys =
      offers default (xs ++ i :: ys) := by
    rw [← offers_append, List.append_assoc]
    rfl
  have hstep : runRepository default (xs ++ [i]) = (i.exec (runRepository default xs)).2 := by
    rw [runRepository_append]
    rfl
  rw [hend] at hrun'
  refine @OneTime.stays_lost _ _ _ _ es _ hrun' ?_ ?_ ?_ hk
  · rw [hstep]
    refine hfin.lost fun o' ho' heq => ?_
    rw [offers_append, List.map_append] at hdigests
    refine List.disjoint_of_nodup_append hdigests (List.mem_map_of_mem ho) ?_
    rw [offers, ho', ← heq]
    exact List.mem_map_of_mem (List.mem_append_left _ (by simp))
  · rw [hissued, offers_append]
    exact List.mem_map_of_mem (List.mem_append_left _ ho)
  · rw [OneTime.issued_append, hissued, hissued', ← List.map_append, hoffers]
    refine List.Nodup.of_map (·.digest) ?_
    rw [List.map_map]
    exact hdigests

/-- A capability is consumed at most as often as offered. -/
theorem consumptions_count (hdigests : ((offers default is).map (·.ticket.digest)).Nodup)
    (c : Raw) : (consumptions default is).count c.1 ≤ 1 := by
  obtain ⟨es, hrun, hissued, hredeemed⟩ := repository_events default is
  have hsub := (List.sublist_append_left _ _).trans (OneTime.redeemed_sublist hrun)
  have hnil : (default : AuthState).liveTicket.toList = [] := rfl
  rw [hnil, List.nil_append, hissued] at hsub
  have hsub' := hsub.map (·.digest)
  rw [hredeemed, List.map_map] at hsub'
  have hnodup : ((consumptions default is).map sha256).Nodup := hdigests.sublist hsub'
  exact List.nodup_iff_count_le_one.1 hnodup.of_map c.1

end Distinct

/-- **A pairing capability is usable at most once**, where the capabilities
    offered are distinct and the digest tells those in `S` apart.  Each one is
    consumed once at most; at any time one at most is redeemable, and only
    before it expires; none is after its offer was superseded, cancelled or
    consumed; and a `consume_offer` that raises adds no record and makes no
    capability redeemable. -/
theorem capability_used_once (is : List Invocation) (S : Set Raw)
    (hS : Set.InjOn (fun c : Raw => sha256 c.1) S)
    (hissued : ∀ o ∈ offers default is, o.capability ∈ S)
    (hdistinct : ((offers default is).map (·.capability)).Nodup) :
    (∀ o ∈ offers default is, (consumptions default is).count o.capability.1 ≤ 1) ∧
    (∀ xs ys, is = xs ++ ys → let f := runRepository default xs
      (∀ c ∈ S, ∀ c' ∈ S, ∀ t t', Redeemable f t c → Redeemable f t' c' → c = c') ∧
      (∀ o ∈ offers default xs, ∀ t, o.expiresAt ≤ t → ¬ Redeemable f t o.capability)) ∧
    (∀ xs i ys zs, is = xs ++ i :: ys ++ zs → ∀ o ∈ offers default xs,
      Finishes (runRepository default xs) i o → ∀ t,
        ¬ Redeemable (runRepository default (xs ++ i :: ys)) t o.capability) ∧
    ∀ xs i ys, is = xs ++ i :: ys → let f := runRepository default xs
      ∀ (c : Raw) k b, i.call = .consumeOffer c.1 k b →
        (∀ reply, (i.exec f).1 = .ok reply →
          ∃ t, i.readings.head? = some (some t) ∧ Redeemable f t c) ∧
        ∀ e, (i.exec f).1 = .error e → (i.exec f).2.devices = f.devices ∧
          ∀ t c', Redeemable (i.exec f).2 t c' → Redeemable f t c' := by
  have hdigests := offers_digests hS hissued hdistinct
  refine ⟨fun o _ => consumptions_count hdigests o.capability, ?_, ?_, ?_⟩
  · rintro xs ys rfl f
    constructor
    · intro c hc c' hc' t t' h h'
      obtain ⟨k, hk, hd, -⟩ := redeemable_iff.1 h
      obtain ⟨k', hk', hd', -⟩ := redeemable_iff.1 h'
      obtain rfl := Option.some.inj (hk.symm.trans hk')
      exact hS hc hc' (hd.symm.trans hd')
    · intro o ho t ht hred
      obtain ⟨k, hk, hd, hdue⟩ := redeemable_iff.1 hred
      obtain rfl := live_offer (offers_initial hdigests) rfl hk ho hd
      exact absurd ht (not_le.2 hdue)
  · rintro xs i ys zs rfl o ho hfin t
    exact finished_not_redeemable (offers_initial hdigests) ho hfin t
  · intro xs i ys _ f c k b hc
    exact ⟨fun reply hr => i.consume_redeemable hc hr, fun e hr => i.consume_rejected hc hr⟩

/-- The offer that a second one supersedes. -/
theorem capability_used_once_superseded :
    let is := identityDraws :: pairing 1 (octets 32 50) 1001
    let c : Raw := ⟨octets 32 9, by decide⟩
    let d : Raw := ⟨octets 32 1, by decide⟩
    (consumptions default is).count d.1 ≤ 1 ∧
      ∀ t, ¬ Redeemable (runRepository default (is.take 2)) t c := by
  intro is c d
  have hoffers : (offers default is).map (·.capability) = [c, d] := by decide +kernel
  have hS : Set.InjOn (fun c : Raw => sha256 c.1) {x | x = c ∨ x = d} := by
    have hcd : sha256 c.1 ≠ sha256 d.1 := by decide
    rintro x (rfl | rfl) y (rfl | rfl) hxy
    · rfl
    · exact absurd hxy hcd
    · exact absurd hxy hcd.symm
    · rfl
  have hissued : ∀ o ∈ offers default is, o.capability ∈ {x | x = c ∨ x = d} := by
    intro o ho
    have hmem : o.capability ∈ [c, d] := hoffers ▸ List.mem_map_of_mem ho
    simpa using hmem
  have hdistinct : ((offers default is).map (·.capability)).Nodup := by
    rw [hoffers]
    decide
  obtain ⟨h1, -, h3, -⟩ := capability_used_once is _ hS hissued hdistinct
  have hd : d ∈ (offers default is).map (·.capability) := by rw [hoffers]; simp
  obtain ⟨o, ho, hod⟩ := List.mem_map.1 hd
  refine ⟨hod ▸ h1 o ho, fun t => ?_⟩
  have hfirst : ((offers default [identityDraws]).map (·.capability)) = [c] := by decide
  have hc : c ∈ (offers default [identityDraws]).map (·.capability) := by rw [hfirst]; simp
  obtain ⟨o', ho', hoc⟩ := List.mem_map.1 hc
  rw [← hoc]
  exact h3 [identityDraws] _ [] _ rfl o' ho' (Or.inl (by decide)) t

end MercuryRelay
