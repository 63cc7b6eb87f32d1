/-
  Tickets of an issuer that keeps one of them live at a time.

  A new ticket supersedes the live one; the live one is redeemed or withdrawn.
  No ticket is redeemed more often than it was issued (`redeemed_sublist`), and
  one that is not live becomes live only by being issued again (`live_again`).
-/
import Mathlib.Data.List.Nodup
import MercuryRelay.Lib.Run

set_option autoImplicit false

namespace OneTime

open Transition (Run)

variable {κ δ : Type}

/-- What happens to the ticket an issuer keeps. -/
inductive Event (κ : Type) where
  | issue (k : κ)
  | redeem (k : κ)
  | withdraw
  | keep

/-- The live ticket before and after an event. -/
inductive Step : Option κ → Event κ → Option κ → Prop
  | issue (s : Option κ) (k : κ) : Step s (.issue k) (some k)
  | redeem (k : κ) : Step (some k) (.redeem k) none
  | withdraw (s : Option κ) : Step s .withdraw none
  | keep (s : Option κ) : Step s .keep s

/-- The tickets issued. -/
def issued (es : List (Event κ)) : List κ :=
  es.filterMap fun | .issue k => some k | _ => none

/-- The tickets redeemed. -/
def redeemed (es : List (Event κ)) : List κ :=
  es.filterMap fun | .redeem k => some k | _ => none

section Lists

variable {es es' : List (Event κ)} {e : Event κ} {k : κ}

@[simp] theorem issued_nil : issued ([] : List (Event κ)) = [] := rfl

@[simp] theorem redeemed_nil : redeemed ([] : List (Event κ)) = [] := rfl

theorem issued_append : issued (es ++ es') = issued es ++ issued es' := List.filterMap_append

theorem redeemed_append : redeemed (es ++ es') = redeemed es ++ redeemed es' :=
  List.filterMap_append

@[simp] theorem issued_issue : issued (.issue k :: es) = k :: issued es := rfl

@[simp] theorem redeemed_redeem : redeemed (.redeem k :: es) = k :: redeemed es := rfl

theorem issued_cons (h : ∀ k, e ≠ .issue k) : issued (e :: es) = issued es := by
  cases e with
  | issue k => exact absurd rfl (h k)
  | redeem | withdraw | keep => rfl

theorem redeemed_cons (h : ∀ k, e ≠ .redeem k) : redeemed (e :: es) = redeemed es := by
  cases e with
  | redeem k => exact absurd rfl (h k)
  | issue | withdraw | keep => rfl

end Lists

section Runs

variable {s t : Option κ} {es : List (Event κ)} {k k' : κ}

/-- What is redeemed, and then what is live, was issued, in this order. -/
theorem redeemed_sublist (h : Run Step s es t) :
    (redeemed es ++ t.toList).Sublist (s.toList ++ issued es) := by
  induction h with
  | nil => simp
  | @cons s e t es u hst _ ih =>
    cases hst with
    | issue s k => exact ih.trans (List.sublist_append_right _ _)
    | redeem k => exact ih.cons_cons k
    | withdraw s => exact ih.trans (List.sublist_append_right _ _)
    | keep s => exact ih

/-- A live ticket was live before, or has been issued. -/
theorem live_again (h : Run Step s es (some k)) : s = some k ∨ k ∈ issued es := by
  have hmem : k ∈ s.toList ++ issued es :=
    (redeemed_sublist h).subset (List.mem_append_right _ (by simp))
  rcases List.mem_append.1 hmem with hs | hk
  · left; simpa using hs
  · exact Or.inr hk

/-- The live ticket is among those issued. -/
theorem live_issued (h : Run Step none es (some k)) : k ∈ issued es := by
  rcases live_again h with hn | hk
  · cases hn
  · exact hk

/-- A ticket redeemed was live. -/
theorem redeem_live (h : Step s (.redeem k) t) : s = some k ∧ t = none := by
  cases h with
  | redeem k => exact ⟨rfl, rfl⟩

/-- After an issue, the live ticket is the one issued. -/
theorem issue_live (h : Step s (.issue k) t) : t = some k := by
  cases h with
  | issue s k => rfl

/-- A ticket issued only once, before it was lost, stays lost. -/
theorem stays_lost {as bs : List (Event κ)} (h : Run Step s bs t) (hs : s ≠ some k)
    (hk : k ∈ issued as) (hn : (issued (as ++ bs)).Nodup) : t ≠ some k := by
  rintro rfl
  rcases live_again h with hl | hb
  · exact hs hl
  · rw [issued_append] at hn
    exact List.disjoint_of_nodup_append hn hk hb

end Runs

end OneTime
