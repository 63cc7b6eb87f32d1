/-
  A registry of keyed entries with one-way lifecycles.

  An entry is paired as pending, may be authorized, and ends denied or
  revoked.  Denied entries may be forgotten; a revoked entry may be archived,
  which replaces it by the digest of its key.  A key is banned when a revoked
  entry has it or its digest is in evidence, and a banned key is never paired.

  * `Run.banned`: a ban is never lifted;
  * `Run.not_open`: an entry that ended never opens again;
  * `Clean.step`: no authorized entry is banned, if no edit authorizes a banned
    key and none revokes a key another authorized entry has;
  * `Maintained`: what the edits that neither pair, authorize nor revoke keep.
-/
import MercuryRelay.Lib.Run
import Mathlib.Data.Int.Notation

set_option autoImplicit false

namespace Registry

open Transition (Run)

inductive Status where
  | pending | authorized | revoked | denied
  deriving DecidableEq

structure Entry (ι κ τ : Type) where
  id : ι
  key : κ
  tag : τ
  status : Status
  born : ℤ
  deriving DecidableEq

/-- The registry: its entries, and the digests of archived keys. -/
structure Reg (ι κ τ δ : Type) where
  entries : List (Entry ι κ τ)
  evidence : List δ

inductive Edit (ι κ τ : Type) where
  | pair (e : Entry ι κ τ)
  /-- the pending ones among these entries are denied -/
  | refuse (xs : List (Entry ι κ τ))
  | authorize (e : Entry ι κ τ)
  | revoke (i : ι)
  | forget (e : Entry ι κ τ)
  | archive (e : Entry ι κ τ)

variable {ι κ τ δ : Type}

section Edits

variable [DecidableEq ι] [DecidableEq κ] [DecidableEq τ]

def refuseIn (xs es : List (Entry ι κ τ)) : List (Entry ι κ τ) :=
  es.map fun e => if e ∈ xs ∧ e.status = .pending then { e with status := .denied } else e

def authorizeIn (x : Entry ι κ τ) (es : List (Entry ι κ τ)) : List (Entry ι κ τ) :=
  es.map fun e => if e = x then { e with status := .authorized } else e

theorem mem_refuseIn {xs es : List (Entry ι κ τ)} {e : Entry ι κ τ} :
    e ∈ refuseIn xs es ↔ ∃ x ∈ es,
      e = if x ∈ xs ∧ x.status = .pending then { x with status := .denied } else x := by
  simp only [refuseIn, List.mem_map, eq_comm]

theorem mem_authorizeIn {y : Entry ι κ τ} {es : List (Entry ι κ τ)} {e : Entry ι κ τ} :
    e ∈ authorizeIn y es ↔
      ∃ x ∈ es, e = if x = y then { x with status := .authorized } else x := by
  simp only [authorizeIn, List.mem_map, eq_comm]

end Edits

def revokeIn [DecidableEq ι] (i : ι) (es : List (Entry ι κ τ)) : List (Entry ι κ τ) :=
  es.map fun e => if e.id = i then { e with status := .revoked } else e

theorem mem_revokeIn [DecidableEq ι] {i : ι} {es : List (Entry ι κ τ)} {e : Entry ι κ τ} :
    e ∈ revokeIn i es ↔ ∃ x ∈ es, e = if x.id = i then { x with status := .revoked } else x := by
  simp only [revokeIn, List.mem_map, eq_comm]

/-- `ds` with `d` in it. -/
def addNew [DecidableEq δ] (d : δ) (ds : List δ) : List δ := if d ∈ ds then ds else ds ++ [d]

theorem mem_addNew [DecidableEq δ] {d d' : δ} {ds : List δ} : d' ∈ addNew d ds ↔ d' ∈ ds ∨ d' = d := by
  unfold addNew; split
  · constructor
    · exact Or.inl
    · rintro (h | rfl) <;> assumption
  · simp

theorem prefix_addNew [DecidableEq δ] (d : δ) (ds : List δ) : ds <+: addNew d ds := by
  unfold addNew; split
  · exact List.prefix_refl _
  · exact List.prefix_append _ _

variable (digest : κ → δ)

/-- The key of a revoked entry, or one whose digest is in evidence. -/
def Banned (s : Reg ι κ τ δ) (k : κ) : Prop :=
  digest k ∈ s.evidence ∨ ∃ e ∈ s.entries, e.status = .revoked ∧ e.key = k

variable [DecidableEq ι] [DecidableEq κ] [DecidableEq τ] [DecidableEq δ]

/-- One edit. -/
inductive Step : Reg ι κ τ δ → Edit ι κ τ → Reg ι κ τ δ → Prop
  | pair {s} (e) : e.status = .pending → (∀ x ∈ s.entries, x.id ≠ e.id) →
      ¬ Banned digest s e.key → Step s (.pair e) { s with entries := s.entries ++ [e] }
  | refuse {s} (xs) : Step s (.refuse xs) { s with entries := refuseIn xs s.entries }
  | authorize {s} (e) : e ∈ s.entries → e.status = .pending →
      Step s (.authorize e) { s with entries := authorizeIn e s.entries }
  | revoke {s} (i) :
      Step s (.revoke i) { s with entries := revokeIn i s.entries }
  | forget {s} (e) : e ∈ s.entries → e.status = .denied →
      Step s (.forget e) { s with entries := s.entries.erase e }
  | archive {s} (e) : e ∈ s.entries → e.status = .revoked →
      Step s (.archive e) ⟨s.entries.erase e, addNew (digest e.key) s.evidence⟩

variable {digest} {s s' : Reg ι κ τ δ} {ed : Edit ι κ τ} {eds : List (Edit ι κ τ)}

/-! ## Bans -/

theorem Step.banned (h : Step digest s ed s') {k : κ} (hk : Banned digest s k) :
    Banned digest s' k := by
  rcases hk with hk | ⟨e, he, hr, rfl⟩
  · cases h with
    | archive => exact Or.inl (mem_addNew.2 (Or.inl hk))
    | _ => exact Or.inl hk
  · cases h with
    | pair => exact Or.inr ⟨e, List.mem_append_left _ he, hr, rfl⟩
    | refuse => exact Or.inr ⟨e, mem_refuseIn.2 ⟨e, he, by simp [hr]⟩, hr, rfl⟩
    | authorize y _ hy =>
      have hne : e ≠ y := by rintro rfl; rw [hr] at hy; cases hy
      exact Or.inr ⟨e, mem_authorizeIn.2 ⟨e, he, (if_neg hne).symm⟩, hr, rfl⟩
    | revoke i =>
      refine Or.inr ⟨_, mem_revokeIn.2 ⟨e, he, rfl⟩, ?_, ?_⟩ <;> split <;> simp [hr]
    | forget x _ hx =>
      refine Or.inr ⟨e, (List.mem_erase_of_ne ?_).2 he, hr, rfl⟩
      rintro rfl; rw [hr] at hx; cases hx
    | archive x _ hx =>
      by_cases hex : e = x
      · subst hex; exact Or.inl (mem_addNew.2 (Or.inr rfl))
      · exact Or.inr ⟨e, (List.mem_erase_of_ne hex).2 he, hr, rfl⟩

theorem Step.authorize_pending {e : Entry ι κ τ} (h : Step digest s (.authorize e) s') :
    e ∈ s.entries ∧ e.status = .pending := by
  cases h; exact ⟨by assumption, by assumption⟩

/-- A banned key is not paired. -/
theorem Step.not_banned {e : Entry ι κ τ} (h : Step digest s (.pair e) s') :
    ¬ Banned digest s e.key := by
  cases h; assumption

/-- **A ban is never lifted.** -/
theorem Run.banned (h : Run (Step digest) s eds s') {k : κ} (hk : Banned digest s k) :
    Banned digest s' k :=
  h.invariant (I := fun s => Banned digest s k) (fun _ _ _ hb hs => hs.banned hb) hk

theorem Step.evidence (h : Step digest s ed s') : s.evidence <+: s'.evidence := by
  cases h with
  | archive => exact prefix_addNew _ _
  | _ => exact List.prefix_refl _

/-- Evidence only grows. -/
theorem Run.evidence (h : Run (Step digest) s eds s') : s.evidence <+: s'.evidence :=
  h.relates (r := fun s s' => s.evidence <+: s'.evidence) (fun _ => List.prefix_refl _)
    (fun _ _ _ => List.IsPrefix.trans) fun _ _ _ => Step.evidence

/-! ## Lifecycles -/

/-- An entry with identifier `i` is pending or authorized. -/
def Open (s : Reg ι κ τ δ) (i : ι) : Prop :=
  ∃ e ∈ s.entries, e.id = i ∧ (e.status = .pending ∨ e.status = .authorized)

/-- The identifiers an edit pairs. -/
def Edit.paired : Edit ι κ τ → List ι
  | .pair e => [e.id]
  | _ => []

theorem Step.not_open (h : Step digest s ed s') {i : ι} (hi : ¬ Open s i)
    (hp : i ∉ ed.paired) : ¬ Open s' i := by
  rintro ⟨e, he, rfl, ho⟩
  cases h with
  | pair =>
    rcases List.mem_append.1 he with he | he
    · exact hi ⟨e, he, rfl, ho⟩
    · rw [List.mem_singleton] at he; subst he; simp [Edit.paired] at hp
  | refuse =>
    obtain ⟨x, hx, rfl⟩ := mem_refuseIn.1 he
    split at ho
    · simp at ho
    · refine hi ⟨x, hx, ?_, ho⟩; split <;> rfl
  | authorize y _ hy =>
    obtain ⟨x, hx, rfl⟩ := mem_authorizeIn.1 he
    refine hi ⟨x, hx, by split <;> rfl, ?_⟩
    split at ho
    · rename_i hc; exact Or.inl (hc ▸ hy)
    · exact ho
  | revoke =>
    obtain ⟨x, hx, rfl⟩ := mem_revokeIn.1 he
    split at ho
    · simp at ho
    · refine hi ⟨x, hx, ?_, ho⟩; split <;> rfl
  | forget => exact hi ⟨e, List.mem_of_mem_erase he, rfl, ho⟩
  | archive => exact hi ⟨e, List.mem_of_mem_erase he, rfl, ho⟩

theorem Step.not_open_of_revoke {i : ι} (h : Step digest s (.revoke i) s') : ¬ Open s' i := by
  rintro ⟨e, he, hi, ho⟩
  cases h
  obtain ⟨x, -, hx⟩ := mem_revokeIn.1 he
  split at hx
  · subst hx; simp at ho
  · rename_i hn; subst hx; exact hn hi

/-- **An entry that ended never opens again**, unless its identifier is paired
    anew. -/
theorem Run.not_open (h : Run (Step digest) s eds s') {i : ι} (hi : ¬ Open s i)
    (hp : ∀ ed ∈ eds, i ∉ ed.paired) : ¬ Open s' i :=
  h.invariant_mem (I := fun s => ¬ Open s i) (fun _ ed hed _ ho hs => hs.not_open ho (hp ed hed)) hi

theorem Step.pending (h : Step digest s ed s') {e : Entry ι κ τ} (he : e ∈ s'.entries)
    (hp : e.status = .pending) : e ∈ s.entries ∨ ed = .pair e := by
  cases h with
  | pair =>
    rcases List.mem_append.1 he with he | he
    · exact Or.inl he
    · rw [List.mem_singleton] at he; subst he; exact Or.inr rfl
  | refuse =>
    obtain ⟨x, hx, rfl⟩ := mem_refuseIn.1 he
    split at hp
    · simp at hp
    · rename_i hc; rw [if_neg hc]; exact Or.inl hx
  | authorize =>
    obtain ⟨x, hx, rfl⟩ := mem_authorizeIn.1 he
    split at hp
    · simp at hp
    · rename_i hc; rw [if_neg hc]; exact Or.inl hx
  | revoke =>
    obtain ⟨x, hx, rfl⟩ := mem_revokeIn.1 he
    split at hp
    · simp at hp
    · rename_i hc; rw [if_neg hc]; exact Or.inl hx
  | forget => exact Or.inl (List.mem_of_mem_erase he)
  | archive => exact Or.inl (List.mem_of_mem_erase he)

theorem Step.authorized (h : Step digest s ed s') {e : Entry ι κ τ} (he : e ∈ s'.entries)
    (ha : e.status = .authorized) :
    e ∈ s.entries ∨ ∃ x ∈ s.entries, ed = .authorize x ∧ x.status = .pending ∧
      e = { x with status := .authorized } := by
  cases h with
  | pair p hp =>
    rcases List.mem_append.1 he with he | he
    · exact Or.inl he
    · rw [List.mem_singleton] at he; subst he; rw [hp] at ha; cases ha
  | refuse =>
    obtain ⟨x, hx, rfl⟩ := mem_refuseIn.1 he
    split at ha
    · simp at ha
    · rename_i hc; rw [if_neg hc]; exact Or.inl hx
  | authorize y hy hp =>
    obtain ⟨x, hx, rfl⟩ := mem_authorizeIn.1 he
    split
    · rename_i hc; subst hc; exact Or.inr ⟨x, hx, rfl, hp, rfl⟩
    · exact Or.inl hx
  | revoke =>
    obtain ⟨x, hx, rfl⟩ := mem_revokeIn.1 he
    split at ha
    · simp at ha
    · rename_i hc; rw [if_neg hc]; exact Or.inl hx
  | forget => exact Or.inl (List.mem_of_mem_erase he)
  | archive => exact Or.inl (List.mem_of_mem_erase he)

/-- An edit other than `pair` makes no entry: it changes statuses. -/
theorem Step.origin (h : Step digest s ed s') {e : Entry ι κ τ} (he : e ∈ s'.entries) :
    (∃ x ∈ s.entries, x.id = e.id ∧ x.key = e.key) ∨ ed = .pair e := by
  cases h with
  | pair =>
    rcases List.mem_append.1 he with he | he
    · exact Or.inl ⟨e, he, rfl, rfl⟩
    · rw [List.mem_singleton] at he; subst he; exact Or.inr rfl
  | refuse =>
    obtain ⟨x, hx, rfl⟩ := mem_refuseIn.1 he
    exact Or.inl ⟨x, hx, by split <;> rfl, by split <;> rfl⟩
  | authorize =>
    obtain ⟨x, hx, rfl⟩ := mem_authorizeIn.1 he
    exact Or.inl ⟨x, hx, by split <;> rfl, by split <;> rfl⟩
  | revoke =>
    obtain ⟨x, hx, rfl⟩ := mem_revokeIn.1 he
    exact Or.inl ⟨x, hx, by split <;> rfl, by split <;> rfl⟩
  | forget => exact Or.inl ⟨e, List.mem_of_mem_erase he, rfl, rfl⟩
  | archive => exact Or.inl ⟨e, List.mem_of_mem_erase he, rfl, rfl⟩

theorem Step.revoked (h : Step digest s ed s') {e : Entry ι κ τ} (he : e ∈ s'.entries)
    (hr : e.status = .revoked) :
    e ∈ s.entries ∨ ∃ x ∈ s.entries, ed = .revoke x.id ∧ e = { x with status := .revoked } := by
  cases h with
  | pair p hp =>
    rcases List.mem_append.1 he with he | he
    · exact Or.inl he
    · rw [List.mem_singleton] at he; subst he; rw [hp] at hr; cases hr
  | refuse =>
    obtain ⟨x, hx, rfl⟩ := mem_refuseIn.1 he
    split at hr
    · simp at hr
    · rename_i hn; rw [if_neg hn]; exact Or.inl hx
  | authorize =>
    obtain ⟨x, hx, rfl⟩ := mem_authorizeIn.1 he
    split at hr
    · simp at hr
    · rename_i hn; rw [if_neg hn]; exact Or.inl hx
  | revoke i =>
    obtain ⟨x, hx, rfl⟩ := mem_revokeIn.1 he
    split
    · rename_i hi; subst hi; exact Or.inr ⟨x, hx, rfl, rfl⟩
    · exact Or.inl hx
  | forget => exact Or.inl (List.mem_of_mem_erase he)
  | archive => exact Or.inl (List.mem_of_mem_erase he)

/-! ## Maintenance -/

/-- An edit that neither pairs, authorizes nor revokes. -/
def Edit.Maintenance : Edit ι κ τ → Prop
  | .refuse _ | .forget _ | .archive _ => True
  | _ => False

variable (digest) in
/-- Maintenance leads from `s` to `s'`. -/
def Maintained (s s' : Reg ι κ τ δ) : Prop :=
  ∃ eds, Run (Step digest) s eds s' ∧ ∀ ed ∈ eds, ed.Maintenance

theorem Maintained.refl : Maintained digest s s := ⟨[], .nil, by simp⟩

theorem Maintained.trans {s'' : Reg ι κ τ δ} (h : Maintained digest s s')
    (h' : Maintained digest s' s'') : Maintained digest s s'' := by
  obtain ⟨as, ha, ham⟩ := h
  obtain ⟨bs, hb, hbm⟩ := h'
  exact ⟨as ++ bs, ha.append hb, fun ed hed => (List.mem_append.1 hed).elim (ham ed) (hbm ed)⟩

theorem Maintained.single (h : Step digest s ed s') (hed : ed.Maintenance) :
    Maintained digest s s' := ⟨[ed], .single h, by simpa using hed⟩

theorem Maintained.keeps {I : Reg ι κ τ δ → Prop} (h : Maintained digest s s')
    (hI : ∀ s ed s', ed.Maintenance → I s → Step digest s ed s' → I s') (hs : I s) : I s' := by
  obtain ⟨eds, hr, hm⟩ := h
  exact hr.invariant_mem (fun s ed hed s' hi hst => hI s ed s' (hm ed hed) hi hst) hs

theorem Maintained.origin (h : Maintained digest s s') {e : Entry ι κ τ} (he : e ∈ s'.entries) :
    ∃ x ∈ s.entries, x.id = e.id ∧ x.key = e.key := by
  refine h.keeps (I := fun t => ∀ e ∈ t.entries, ∃ x ∈ s.entries, x.id = e.id ∧ x.key = e.key)
    ?_ (fun e he => ⟨e, he, rfl, rfl⟩) e he
  intro t ed t' hed hi hst e he
  rcases hst.origin he with ⟨x, hx, hid, hk⟩ | rfl
  · rw [← hid, ← hk]; exact hi x hx
  · exact hed.elim

theorem Maintained.authorized (h : Maintained digest s s') {e : Entry ι κ τ}
    (he : e ∈ s'.entries) (ha : e.status = .authorized) : e ∈ s.entries := by
  refine h.keeps (I := fun t => ∀ e ∈ t.entries, e.status = .authorized → e ∈ s.entries)
    ?_ (fun e he _ => he) e he ha
  intro t ed t' hed hi hst e he ha
  rcases hst.authorized he ha with hx | ⟨x, -, rfl, -⟩
  · exact hi e hx ha
  · exact hed.elim

theorem Maintained.pending (h : Maintained digest s s') {e : Entry ι κ τ}
    (he : e ∈ s'.entries) (hp : e.status = .pending) : e ∈ s.entries := by
  refine h.keeps (I := fun t => ∀ e ∈ t.entries, e.status = .pending → e ∈ s.entries)
    ?_ (fun e he _ => he) e he hp
  intro t ed t' hed hi hst e he hp
  rcases hst.pending he hp with hx | rfl
  · exact hi e hx hp
  · exact hed.elim

theorem Maintained.not_open (h : Maintained digest s s') {i : ι} (hi : ¬ Open s i) :
    ¬ Open s' i := by
  refine h.keeps (I := fun t => ¬ Open t i) (fun t ed t' hed ho hst => hst.not_open ho ?_) hi
  cases ed <;> first | exact hed.elim | simp [Edit.paired]

/-! ## Bans and authorizations -/

/-- A ban up to the digest of the key. -/
def Suspect (digest : κ → δ) (s : Reg ι κ τ δ) (k : κ) : Prop :=
  digest k ∈ s.evidence ∨ ∃ e ∈ s.entries, e.status = .revoked ∧ digest e.key = digest k

omit [DecidableEq ι] [DecidableEq κ] [DecidableEq τ] [DecidableEq δ] in
theorem Banned.suspect {k : κ} (h : Banned digest s k) : Suspect digest s k :=
  h.imp id fun ⟨e, he, hr, hk⟩ => ⟨e, he, hr, by rw [hk]⟩

/-- Only revoking makes a key suspect. -/
theorem Step.suspect (h : Step digest s ed s') {k : κ} (hk : Suspect digest s' k) :
    Suspect digest s k ∨ ∃ x ∈ s.entries, ed = .revoke x.id ∧ digest x.key = digest k := by
  rcases hk with hk | ⟨e, he, hr, hk⟩
  · cases h with
    | archive p hp hpr =>
      rcases mem_addNew.1 hk with hk | hk
      · exact Or.inl (Or.inl hk)
      · exact Or.inl (Or.inr ⟨p, hp, hpr, hk.symm⟩)
    | _ => exact Or.inl (Or.inl hk)
  · rcases h.revoked he hr with he | ⟨x, hx, hed, rfl⟩
    · exact Or.inl (Or.inr ⟨e, he, hr, hk⟩)
    · exact Or.inr ⟨x, hx, hed, hk⟩

theorem Maintained.suspect (h : Maintained digest s s') {k : κ} (hk : ¬ Suspect digest s k) :
    ¬ Suspect digest s' k := by
  refine h.keeps (I := fun t => ¬ Suspect digest t k) ?_ hk
  intro t ed t' hed hn hst hk'
  rcases hst.suspect hk' with hk' | ⟨x, -, rfl, -⟩
  · exact hn hk'
  · exact hed.elim

/-- No authorized entry is suspect. -/
def Clean (digest : κ → δ) (s : Reg ι κ τ δ) : Prop :=
  ∀ e ∈ s.entries, e.status = .authorized → ¬ Suspect digest s e.key

/-- An edit that neither authorizes a suspect key nor revokes a key that
    another authorized entry has. -/
def Careful (digest : κ → δ) (s : Reg ι κ τ δ) : Edit ι κ τ → Prop
  | .authorize e => ¬ Suspect digest s e.key
  | .revoke i => ∀ e ∈ s.entries, e.id = i → ∀ x ∈ s.entries, x.id ≠ i →
      x.status = .authorized → digest x.key ≠ digest e.key
  | _ => True

omit [DecidableEq ι] [DecidableEq κ] [DecidableEq τ] [DecidableEq δ] in
theorem Edit.Maintenance.careful (h : ed.Maintenance) : Careful digest s ed := by
  cases ed <;> first | exact h.elim | trivial

/-- What is careful before maintenance is careful after. -/
theorem Maintained.careful (h : Maintained digest s s') (hc : Careful digest s ed) :
    Careful digest s' ed := by
  cases ed with
  | authorize e => exact h.suspect hc
  | revoke i =>
    rintro e he rfl x hx hxi hxa
    obtain ⟨y, hy, hid, hk⟩ := h.origin he
    rw [← hk]
    exact hc y hy hid x (h.authorized hx hxa) hxi hxa
  | _ => trivial

/-- **A careful edit keeps authorized keys clear of bans.** -/
theorem Clean.step (hc : Clean digest s) (h : Step digest s ed s') (hed : Careful digest s ed) :
    Clean digest s' := by
  intro e he ha hsus
  rcases h.suspect hsus with hsus | ⟨x, hx, rfl, hk⟩
  · rcases h.authorized he ha with he | ⟨x, -, rfl, -, rfl⟩
    · exact hc e he ha hsus
    · exact hed hsus
  · rcases h.authorized he ha with hes | ⟨y, -, hy, -⟩
    · refine hed x hx rfl e hes ?_ ha hk.symm
      intro hid
      cases h with
      | revoke =>
        obtain ⟨z, -, hz⟩ := mem_revokeIn.1 he
        split at hz
        · subst hz; cases ha
        · subst hz; contradiction
    · cases hy

theorem Clean.maintained (hc : Clean digest s) (h : Maintained digest s s') : Clean digest s' :=
  h.keeps (fun _ _ _ hed hc hst => hc.step hst hed.careful) hc

end Registry
