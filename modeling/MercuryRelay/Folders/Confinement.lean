/-
  What the folder extension does stays inside the policy.

  * `resolveExisting_gives`: the path that a request resolves to passed every check;
  * `listTarget_gives`: a listing holds directories that are no links and not sensitive;
  * `createFolder_frames`: at most one directory is asked for, where there was nothing;
  * `listFolders_inside`, `createFolder_inside`: what is returned stays inside the policy.
-/
import MercuryRelay.Folders.Service

set_option autoImplicit false

namespace MercuryRelay

open Python Effect Effect.Program

namespace Folders

variable {service : Service} {helpers : Helpers} {policy : Policy} {inside : Path → Prop} {d d' : Disk}
  {path target parent : Path} {raw name : Json} {allowDefault : Bool} {profile : Str}

/-! ## Checks -/

/-- What the checks of the policy let pass. -/
structure Allowed (helpers : Helpers) (policy : Policy) (path : Path) : Prop where
  under : ∀ root, policy.lockedRoot = some root → helpers.isUnder root path = some true
  insensitive : helpers.isSensitive path = some false

theorem requireUnder_ok (h : requireUnder helpers policy path = .ok ()) (root : Path)
    (hroot : policy.lockedRoot = some root) : helpers.isUnder root path = some true := by
  unfold requireUnder under at h
  rw [hroot] at h
  cases hunder : helpers.isUnder root path with
  | none => simp [hunder, Except.bind] at h
  | some answer =>
    cases answer with
    | false => simp [hunder, Except.bind] at h
    | true => rfl

theorem requireInsensitive_ok (h : requireInsensitive helpers path = .ok ()) :
    helpers.isSensitive path = some false := by
  unfold requireInsensitive sensitive at h
  cases hsensitive : helpers.isSensitive path with
  | none => simp [hsensitive, Except.bind] at h
  | some answer =>
    cases answer with
    | true => simp [hsensitive, Except.bind] at h
    | false => rfl

theorem checkTarget_ok (h : checkTarget helpers policy path = .ok ()) :
    (∃ path', validatePath (.str (text path)) = .ok path') ∧ Allowed helpers policy path := by
  unfold checkTarget at h
  cases hvalid : validatePath (.str (text path)) with
  | error fault => simp [hvalid, bind, Except.bind] at h
  | ok path' =>
    cases hsensitive : requireInsensitive helpers path with
    | error fault => simp [hvalid, hsensitive, bind, Except.bind] at h
    | ok _ =>
      simp only [hvalid, hsensitive, bind, Except.bind] at h
      exact ⟨⟨path', rfl⟩, requireUnder_ok h, requireInsensitive_ok hsensitive⟩

/-- A path that a client may ask for is read as itself. -/
theorem validatePath_text {path' : Path} (h : validatePath (.str (text path)) = .ok path') : path' = path := by
  unfold validatePath at h
  cases hunits : pathUnits (text path) with
  | none => simp [hunits] at h
  | some units =>
    simp only [hunits] at h
    split at h
    · cases h
    · split at h
      · cases h
      · cases h
        exact pathOf_text path

/-! ## The context -/

theorem context_frames : Frames (Confined inside) (context service profile) d := by
  unfold context
  split
  · exact frames_fail .refl
  · split
    · exact frames_fail .refl
    · split
      · exact frames_fail .refl
      · split
        · exact frames_fail .refl
        · refine frames_bind (fun _ _ _ => .trans) ?_ fun _ t _ => ?_
          · refine frames_rescue .refl (fun _ _ _ => .trans) (openNofollow_frames trivial rfl) fun _ _ _ => ?_
            exact frames_fail .refl
          · split
            · exact frames_fail .refl
            · exact frames_pure .refl

theorem context_gives {found : Helpers × Policy} (h : Gives (context service profile) d found d') :
    service.helpersFactory = .ok found.1 ∧ found.1.managedPolicy = some found.2 := by
  unfold context at h
  split at h
  · exact absurd h not_gives_fail
  · split at h
    · exact absurd h not_gives_fail
    · rename_i helpers hhelpers
      split at h
      · exact absurd h not_gives_fail
      · split at h
        · exact absurd h not_gives_fail
        · obtain ⟨_, t, -, h⟩ := gives_bind.1 h
          split at h
          · exact absurd h not_gives_fail
          · rename_i policy hpolicy
            obtain ⟨rfl, -⟩ := gives_pure.1 h
            exact ⟨hhelpers, hpolicy⟩

/-! ## Resolving -/

theorem openExistingDirectory_frames (h : inside path) :
    Frames (Confined inside) (openExistingDirectory service path) d :=
  frames_rescue .refl (fun _ _ _ => .trans) (openNofollow_frames h rfl) fun _ _ _ => frames_fail .refl

theorem openExistingDirectory_gives (h : Gives (openExistingDirectory service path) d () d') :
    d.fs.Real path := by
  rcases gives_rescue h with h | ⟨fault, t, -, h⟩
  · exact openNofollow_gives h
  · exact absurd h not_gives_fail

theorem canonicalPath_gives (h : Gives (canonicalPath helpers path) d target d') :
    helpers.canonical d.fs path = some (some target) ∧ d' = d := by
  obtain ⟨disk, t, hstate, hrest⟩ := gives_bind.1 h
  obtain ⟨rfl, rfl⟩ := gives_state.1 hstate
  split at hrest
  · rename_i target' htarget
    obtain ⟨rfl, rfl⟩ := gives_pure.1 hrest
    exact ⟨htarget, rfl⟩
  · exact absurd hrest not_gives_fail

theorem canonicalPath_frames : Frames (Confined inside) (canonicalPath helpers path) d := by
  refine frames_bind (fun _ _ _ => .trans) (frames_state .refl) fun disk t _ => ?_
  split
  · exact frames_pure .refl
  · exact frames_fail .refl

/-- Resolving opens the path that was asked for and the canonical one, if each passed the
    checks. -/
theorem resolveExisting_frames
    (hrequested : ∀ candidate, candidateOf policy raw allowDefault = .ok candidate →
      Allowed helpers policy candidate → inside candidate)
    (hcanonical : ∀ candidate target, candidateOf policy raw allowDefault = .ok candidate → d.fs.Real candidate →
      helpers.canonical d.fs candidate = some (some target) → Allowed helpers policy target → inside target) :
    Frames (Confined inside) (resolveExisting service helpers policy raw allowDefault) d := by
  have hlift : ∀ {x : Except Fault Unit} {s : Disk},
      Frames (Confined inside) (lift x : Program Disk Fault Unit) s := frames_lift .refl
  refine frames_bind (fun _ _ _ => .trans) (frames_lift .refl) fun candidate _ hfirst => ?_
  obtain ⟨hcandidate, rfl⟩ := gives_lift.1 hfirst
  refine frames_bind (fun _ _ _ => .trans) hlift fun _ _ hsecond => ?_
  obtain ⟨hunder, rfl⟩ := gives_lift.1 hsecond
  refine frames_bind (fun _ _ _ => .trans) hlift fun _ _ hthird => ?_
  obtain ⟨hinsensitive, rfl⟩ := gives_lift.1 hthird
  have hallowed := hrequested candidate hcandidate ⟨requireUnder_ok hunder, requireInsensitive_ok hinsensitive⟩
  have hopen : Frames (Confined inside) (openExistingDirectory service candidate) d :=
    openExistingDirectory_frames hallowed
  refine frames_bind (fun _ _ _ => .trans) hopen fun _ first hreal => ?_
  have hfs : first.fs = d.fs := (hopen.of_gives hreal).fs
  refine frames_bind (fun _ _ _ => .trans) canonicalPath_frames fun target _ hpath => ?_
  obtain ⟨htarget, rfl⟩ := canonicalPath_gives hpath
  rw [hfs] at htarget
  refine frames_bind (fun _ _ _ => .trans) hlift fun _ _ _ => ?_
  refine frames_bind (fun _ _ _ => .trans) hlift fun _ _ hunder' => ?_
  refine frames_bind (fun _ _ _ => .trans) hlift fun _ _ hinsensitive' => ?_
  have hallowed' := hcanonical candidate target hcandidate (openExistingDirectory_gives hreal) htarget
    ⟨requireUnder_ok (gives_lift.1 hunder').1, requireInsensitive_ok (gives_lift.1 hinsensitive').1⟩
  refine frames_bind (fun _ _ _ => .trans) (openExistingDirectory_frames hallowed') fun _ _ _ => ?_
  exact frames_pure .refl

/-- Resolving looks at nothing but what passed the checks. -/
theorem resolveExisting_allowed :
    Frames (Confined (Allowed helpers policy)) (resolveExisting service helpers policy raw allowDefault) d :=
  resolveExisting_frames (fun _ _ h => h) fun _ _ _ _ _ h => h

/-- What a request resolves to. -/
structure Resolved (helpers : Helpers) (policy : Policy) (fs : FileSystem) (raw : Json) (allowDefault : Bool)
    (candidate target : Path) : Prop where
  requested : candidateOf policy raw allowDefault = .ok candidate
  requested_allowed : Allowed helpers policy candidate
  requested_real : fs.Real candidate
  canonical : helpers.canonical fs candidate = some (some target)
  short : requireShort target = .ok ()
  allowed : Allowed helpers policy target
  real : fs.Real target

/-- **What is resolved passed every check, in every spelling.** -/
theorem resolveExisting_gives
    (h : Gives (resolveExisting service helpers policy raw allowDefault) d target d') :
    d'.fs = d.fs ∧ ∃ candidate, Resolved helpers policy d.fs raw allowDefault candidate target := by
  have hfs : d'.fs = d.fs := (resolveExisting_allowed.of_gives h).fs
  simp only [resolveExisting, gives_bind, gives_lift, gives_pure] at h
  obtain ⟨candidate, _, ⟨hcandidate, rfl⟩, _, _, ⟨hunder, rfl⟩, _, _, ⟨hinsensitive, rfl⟩, _, first, hopen,
    target', _, hcanonical, _, _, ⟨hshort, rfl⟩, _, _, ⟨hunder', rfl⟩, _, _, ⟨hinsensitive', rfl⟩, _, _, hopen',
    rfl, rfl⟩ := h
  have hallowed : Allowed helpers policy candidate :=
    ⟨requireUnder_ok hunder, requireInsensitive_ok hinsensitive⟩
  have hfirst : first.fs = d.fs := ((openExistingDirectory_frames hallowed).of_gives hopen).fs
  obtain ⟨htarget, rfl⟩ := canonicalPath_gives hcanonical
  have hreal := openExistingDirectory_gives hopen'
  rw [hfirst] at htarget hreal
  exact ⟨hfs, candidate, hcandidate, hallowed, openExistingDirectory_gives hopen, htarget, hshort,
    ⟨requireUnder_ok hunder', requireInsensitive_ok hinsensitive'⟩, hreal⟩

/-! ## Listing -/

theorem scanEntry_frames {name : Component} :
    Frames (Confined inside) (scanEntry service helpers target name) d := by
  unfold scanEntry
  split
  · exact frames_fail .refl
  · refine frames_bind (fun _ _ _ => .trans) (frames_attempt lstat_frames) fun found _ _ => ?_
    split
    · exact frames_pure .refl
    · exact frames_fail .refl
    · exact frames_pure .refl
    · exact frames_pure .refl
    · split
      · exact frames_fail .refl
      · split
        · exact frames_fail .refl
        · refine frames_bind (fun _ _ _ => .trans) (frames_lift .refl) fun hidden _ _ => ?_
          split
          · exact frames_pure .refl
          · exact frames_pure .refl

/-- An entry is a directory, no link and not sensitive. -/
structure Shown (helpers : Helpers) (fs : FileSystem) (target : Path) (entry : Entry) : Prop where
  path : entry.path = target ++ [entry.name]
  kind : fs.kind entry.path = some .directory
  insensitive : helpers.isSensitive entry.path = some false

theorem scanEntry_gives {name : Component} {entry : Entry}
    (h : Gives (scanEntry service helpers target name) d (some entry) d') : Shown helpers d.fs target entry := by
  unfold scanEntry at h
  split at h
  · exact absurd h not_gives_fail
  · obtain ⟨found, t, hfound, hrest⟩ := gives_bind.1 h
    split at hrest
    · cases (gives_pure.1 hrest).1
    · exact absurd hrest not_gives_fail
    · cases (gives_pure.1 hrest).1
    · cases (gives_pure.1 hrest).1
    · have hkind := lstat_gives (gives_attempt.1 hfound)
      split at hrest
      · exact absurd hrest not_gives_fail
      · split at hrest
        · exact absurd hrest not_gives_fail
        · obtain ⟨hidden, u, hhidden, hlast⟩ := gives_bind.1 hrest
          obtain ⟨hhidden, rfl⟩ := gives_lift.1 hhidden
          split at hlast
          · cases (gives_pure.1 hlast).1
          · rename_i hshown
            obtain ⟨hentry, -⟩ := gives_pure.1 hlast
            cases hentry
            refine ⟨rfl, hkind, ?_⟩
            unfold sensitive at hhidden
            split at hhidden
            · rename_i answer hanswer
              cases hhidden
              simp only [Bool.not_eq_true] at hshown
              rw [hanswer, hshown]
            · cases hhidden

theorem next_rescue_frames :
    Frames (Confined inside) ((next service.fails target).rescue fun _ => (fail notAvailable : Program Disk Fault Unit)) d :=
  frames_rescue .refl (fun _ _ _ => .trans) next_frames fun _ _ _ => frames_fail .refl

theorem scanEntries_frames {names : List Component} {scanned : ℕ} {entries : List Entry} :
    Frames (Confined inside) (scanEntries service helpers target names scanned entries) d := by
  induction names generalizing scanned entries d with
  | nil => exact frames_bind (fun _ _ _ => .trans) next_rescue_frames fun _ _ _ => frames_pure .refl
  | cons name names ih =>
    refine frames_bind (fun _ _ _ => .trans) next_rescue_frames fun _ _ _ => ?_
    split
    · exact frames_fail .refl
    · refine frames_bind (fun _ _ _ => .trans) scanEntry_frames fun found _ _ => ?_
      split
      · exact ih
      · split
        · exact frames_fail .refl
        · exact ih

/-- The loop adds directories that are shown. -/
theorem scanEntries_gives {names : List Component} {scanned : ℕ} {entries found : List Entry}
    (h : Gives (scanEntries service helpers target names scanned entries) d found d') :
    ∀ entry ∈ found, entry ∈ entries ∨ Shown helpers d.fs target entry := by
  induction names generalizing scanned entries d with
  | nil =>
    obtain ⟨_, _, -, hrest⟩ := gives_bind.1 h
    obtain ⟨rfl, -⟩ := gives_pure.1 hrest
    exact fun entry hentry => .inl hentry
  | cons name names ih =>
    obtain ⟨_, first, hnext, hrest⟩ := gives_bind.1 h
    have hfirst : first.fs = d.fs :=
      (next_rescue_frames.of_gives hnext : Confined (fun _ => True) d first).fs
    split at hrest
    · exact absurd hrest not_gives_fail
    · obtain ⟨one, second, hone, hlast⟩ := gives_bind.1 hrest
      have hsecond : second.fs = first.fs :=
        (scanEntry_frames.of_gives hone : Confined (fun _ => True) first second).fs
      intro entry hentry
      split at hlast
      · have hall := ih hlast entry hentry
        rwa [hsecond, hfirst] at hall
      · rename_i shown
        split at hlast
        · exact absurd hlast not_gives_fail
        · rcases ih hlast entry hentry with hmem | hshown
          · rcases List.mem_append.1 hmem with hmem | hmem
            · exact .inl hmem
            · rw [List.mem_singleton.1 hmem]
              have hnew := scanEntry_gives hone
              rw [hfirst] at hnew
              exact .inr hnew
          · rw [hsecond, hfirst] at hshown
            exact .inr hshown

theorem listTarget_frames (h : inside target) :
    Frames (Confined inside) (listTarget service helpers policy target) d := by
  refine frames_bind (fun _ _ _ => .trans) (openExistingDirectory_frames h) fun _ _ _ => ?_
  refine frames_bind (fun _ _ _ => .trans) ?_ fun names _ _ => ?_
  · exact frames_rescue .refl (fun _ _ _ => .trans) (scandir_frames h) fun _ _ _ => frames_fail .refl
  · exact frames_bind (fun _ _ _ => .trans) scanEntries_frames fun _ _ _ => frames_lift .refl

theorem boundListing_ok {l l' : Listing} (h : boundListing service l = .ok l') : l' = l := by
  unfold boundListing at h
  split at h
  · cases h
  · split at h
    · cases h
    · cases h
      rfl

/-- **A listing is of the directory that was resolved, and holds only what may be shown.** -/
theorem listTarget_gives {l : Listing} (hinside : inside target)
    (h : Gives (listTarget service helpers policy target) d l d') :
    l.path = target ∧ ∀ entry ∈ l.entries, Shown helpers d.fs target entry := by
  obtain ⟨_, first, hopen, hrest⟩ := gives_bind.1 h
  have hfirst : first.fs = d.fs := ((openExistingDirectory_frames hinside).of_gives hopen).fs
  obtain ⟨names, second, hnames, hrest'⟩ := gives_bind.1 hrest
  have hscan : Frames (Confined inside)
      ((scandir service.fails target).rescue fun _ => (fail notAvailable : Program Disk Fault (List Component)))
      first :=
    frames_rescue .refl (fun _ _ _ => .trans) (scandir_frames hinside) fun _ _ _ => frames_fail .refl
  have hsecond : second.fs = first.fs := (hscan.of_gives hnames).fs
  obtain ⟨found, third, hfound, hlast⟩ := gives_bind.1 hrest'
  obtain rfl := boundListing_ok (gives_lift.1 hlast).1
  refine ⟨rfl, fun entry hentry => ?_⟩
  have hentry : entry ∈ found := List.mem_mergeSort.1 hentry
  rcases scanEntries_gives hfound entry hentry with hmem | hshown
  · cases hmem
  · rwa [hsecond, hfirst] at hshown

/-! ## Creating -/

/-- Only what is inside was looked at, and at most the target was made. -/
def MadeAtMost (inside : Path → Prop) (target : Path) (d d' : Disk) : Prop :=
  Confined inside d d' ∨ Made inside target d d'

theorem MadeAtMost.before {d'' : Disk} (h : Confined inside d d') (h' : MadeAtMost inside target d' d'') :
    MadeAtMost inside target d d'' :=
  h'.imp h.trans (Made.before h)

theorem MadeAtMost.after {d'' : Disk} (h : MadeAtMost inside target d d') (h' : Confined inside d' d'') :
    MadeAtMost inside target d d'' :=
  h.imp (fun h => h.trans h') fun h => h.after h'

theorem makeOrFind_frames (h : d.fs.kind target = none → inside target) :
    Frames (MadeAtMost inside target) (makeOrFind service parent target) d := by
  refine frames_seq (fun _ _ => .inl) (fun _ _ _ => .before) (frames_attempt lstat_frames) fun found t hfound => ?_
  split
  · exact frames_pure fun s => .inl (.refl s)
  · have hrun := gives_attempt.1 hfound
    have hnone : d.fs.kind target = none := lstat_notFound hrun
    have hfs : t.fs = d.fs := by
      have hlstat : Frames (Confined inside) (lstat service.fails target) d := lstat_frames
      unfold Frames at hlstat
      rw [hrun] at hlstat
      exact hlstat.fs
    refine frames_seq (fun _ _ => .inr) (fun _ _ _ hmade hrest => .inr (hmade.after hrest))
      (frames_attempt (mkdir_frames (h hnone) (by rw [hfs, hnone]))) fun made _ _ => ?_
    split
    · refine frames_bind (fun _ _ _ => .trans) (frames_attempt fsync_frames) fun _ _ _ => ?_
      exact lstat_frames
    · exact lstat_frames
    · exact frames_fail .refl
  · exact frames_fail fun s => .inl (.refl s)

/-- What was found is there in the end. -/
theorem makeOrFind_gives {kind : Kind} (h : Gives (makeOrFind service parent target) d kind d') :
    d'.fs.kind target = some kind := by
  have hlstat : ∀ {s t : Disk}, Gives (lstat service.fails target) s kind t → t.fs.kind target = some kind := by
    intro s t hgives
    have hframe : Confined (fun _ => True) s t := lstat_frames.of_gives hgives
    rw [hframe.fs]
    exact lstat_gives hgives
  obtain ⟨found, t, hfound, hrest⟩ := gives_bind.1 h
  split at hrest
  · obtain ⟨rfl, rfl⟩ := gives_pure.1 hrest
    exact hlstat (gives_attempt.1 hfound)
  · obtain ⟨made, u, -, hlast⟩ := gives_bind.1 hrest
    split at hlast
    · obtain ⟨_, _, -, hlast'⟩ := gives_bind.1 hlast
      exact hlstat hlast'
    · exact hlstat hlast
    · exact absurd hlast not_gives_fail
  · exact absurd hrest not_gives_fail

theorem makeChild_frames (h : d.fs.kind target = none → inside target) :
    Frames (MadeAtMost inside target) (makeChild service parent target) d := by
  refine frames_seq (fun _ _ h => h) (fun _ _ _ => MadeAtMost.after) (frames_attempt (makeOrFind_frames h))
    fun found _ _ => ?_
  split
  · exact frames_pure .refl
  · exact frames_fail .refl
  · exact frames_fail .refl
  · exact frames_fail .refl

theorem makeChild_gives (h : Gives (makeChild service parent target) d () d') :
    d'.fs.kind target = some .directory := by
  obtain ⟨found, t, hfound, hrest⟩ := gives_bind.1 h
  split at hrest
  · obtain ⟨-, rfl⟩ := gives_pure.1 hrest
    exact makeOrFind_gives (gives_attempt.1 hfound)
  · exact absurd hrest not_gives_fail
  · exact absurd hrest not_gives_fail
  · exact absurd hrest not_gives_fail

/-- The helpers and the policy of the host let a path pass. -/
def Permitted (service : Service) (path : Path) : Prop :=
  ∃ helpers policy, service.helpersFactory = .ok helpers ∧ helpers.managedPolicy = some policy ∧
    Allowed helpers policy path

/-- A target that passed every check of `create_folder`, before anything is made. -/
def Checked (service : Service) (fs : FileSystem) (parentPath name : Json) (target : Path) : Prop :=
  ∃ helpers policy candidate parent component, service.helpersFactory = .ok helpers ∧
    helpers.managedPolicy = some policy ∧ Resolved helpers policy fs parentPath false candidate parent ∧
    validateName name = .ok component ∧ target = parent ++ [component] ∧
    checkTarget helpers policy target = .ok ()

variable {parentPath : Json} {fs : FileSystem}

/-- A request has one target. -/
theorem Checked.unique {target' : Path} (h : Checked service fs parentPath name target)
    (h' : Checked service fs parentPath name target') : target = target' := by
  obtain ⟨helpers, policy, candidate, parent, component, hhelpers, hpolicy, hresolved, hname, rfl, -⟩ := h
  obtain ⟨helpers', policy', candidate', parent', component', hhelpers', hpolicy', hresolved', hname', rfl, -⟩ := h'
  obtain rfl : helpers = helpers' := Except.ok.inj (hhelpers.symm.trans hhelpers')
  obtain rfl : policy = policy' := Option.some.inj (hpolicy.symm.trans hpolicy')
  obtain rfl : candidate = candidate' := Except.ok.inj (hresolved.requested.symm.trans hresolved'.requested)
  obtain rfl : parent = parent' :=
    Option.some.inj (Option.some.inj (hresolved.canonical.symm.trans hresolved'.canonical))
  obtain rfl : component = component' := Except.ok.inj (hname.symm.trans hname')
  rfl

theorem Checked.permitted (h : Checked service fs parentPath name target) : Permitted service target := by
  obtain ⟨helpers, policy, candidate, parent, component, hhelpers, hpolicy, -, -, -, hcheck⟩ := h
  exact ⟨helpers, policy, hhelpers, hpolicy, (checkTarget_ok hcheck).2⟩

/-- What `create_folder` may do to the disk. -/
def Creates (service : Service) (parentPath name : Json) (d d' : Disk) : Prop :=
  Confined (Permitted service) d d' ∨
    ∃ target, Checked service d.fs parentPath name target ∧ Made (Permitted service) target d d'

theorem Creates.before {d'' : Disk} (h : Confined (Permitted service) d d')
    (h' : Creates service parentPath name d' d'') : Creates service parentPath name d d'' := by
  rcases h' with h' | ⟨target, hchecked, hmade⟩
  · exact .inl (h.trans h')
  · rw [h.fs] at hchecked
    exact .inr ⟨target, hchecked, Made.before h hmade⟩

theorem resolveExisting_permitted (hhelpers : service.helpersFactory = .ok helpers)
    (hpolicy : helpers.managedPolicy = some policy) :
    Frames (Confined (Permitted service)) (resolveExisting service helpers policy raw allowDefault) d :=
  resolveExisting_frames (fun _ _ h => ⟨helpers, policy, hhelpers, hpolicy, h⟩)
    fun _ _ _ _ _ h => ⟨helpers, policy, hhelpers, hpolicy, h⟩

theorem createFolder_frames :
    Frames (Creates service parentPath name) (createFolder service profile parentPath name) d := by
  refine frames_seq (fun _ _ => .inl) (fun _ _ _ => .before) context_frames fun found t hcontext => ?_
  obtain ⟨helpers, policy⟩ := found
  obtain ⟨hhelpers, hpolicy⟩ := context_gives hcontext
  refine frames_seq (fun _ _ => .inl) (fun _ _ _ => .before) (resolveExisting_permitted hhelpers hpolicy)
    fun parent u hparent => ?_
  obtain ⟨hfs, candidate, hresolved⟩ := resolveExisting_gives hparent
  refine frames_seq (fun _ _ => .inl) (fun _ _ _ => .before) (frames_lift .refl) fun component _ hfirst => ?_
  obtain ⟨hname, rfl⟩ := gives_lift.1 hfirst
  refine frames_seq (fun _ _ => .inl) (fun _ _ _ => .before) (frames_lift .refl) fun _ _ hsecond => ?_
  obtain ⟨hcheck, rfl⟩ := gives_lift.1 hsecond
  have hopen : Frames (Confined (Permitted service)) (openExistingDirectory service parent) u :=
    openExistingDirectory_frames ⟨helpers, policy, hhelpers, hpolicy, hresolved.allowed⟩
  refine frames_seq (fun _ _ => .inl) (fun _ _ _ => .before) hopen fun _ w hreal => ?_
  have hchecked : Checked service w.fs parentPath name (parent ++ [component]) := by
    rw [(hopen.of_gives hreal).fs, hfs]
    exact ⟨helpers, policy, candidate, parent, component, hhelpers, hpolicy, hresolved, hname, rfl, hcheck⟩
  have hcreates : ∀ {d' : Disk}, MadeAtMost (Permitted service) (parent ++ [component]) w d' →
      Creates service parentPath name w d' := fun h => h.imp id fun hmade => ⟨_, hchecked, hmade⟩
  refine hcreates (frames_seq (fun _ _ h => h) (fun _ _ _ => .after) (makeChild_frames fun _ => hchecked.permitted)
    fun _ x _ => ?_)
  refine frames_bind (fun _ _ _ => .trans) (resolveExisting_permitted hhelpers hpolicy) fun created _ hcreated => ?_
  obtain ⟨-, _, hresolved'⟩ := resolveExisting_gives hcreated
  exact listTarget_frames ⟨helpers, policy, hhelpers, hpolicy, hresolved'.allowed⟩

/-- The candidate for the text of a path below a directory is the path. -/
theorem candidateOf_text {candidate : Path} {component : Component}
    (h : candidateOf policy (.str (text (parent ++ [component]))) allowDefault = .ok candidate) :
    candidate = parent ++ [component] := by
  unfold candidateOf at h
  cases hvalid : validatePath (.str (text (parent ++ [component]))) with
  | error fault => simp [hvalid, Except.map] at h
  | ok requested =>
    obtain rfl := validatePath_text hvalid
    simp only [hvalid, Except.map, Except.ok.injEq] at h
    split at h
    · rw [if_neg (by simp)] at h
      exact h.symm
    · exact h.symm

/-- The helpers of the host compute what they are for. -/
structure Correct (helpers : Helpers) (Sensitive : Path → Prop) : Prop where
  /-- what is under a root begins with it -/
  under : ∀ root path, helpers.isUnder root path = some true → root <+: path
  /-- only what is sensitive is said to be, and all of it -/
  sensitive : ∀ path answer, helpers.isSensitive path = some answer → (answer = true ↔ Sensitive path)
  /-- a path of real directories is canonical -/
  canonical : ∀ fs path target, fs.Real path → helpers.canonical fs path = some (some target) → target = path

variable {Sensitive : Path → Prop}

/-- **What is returned is the target, a directory by then.** -/
theorem createFolder_gives {l : Listing} (hcorrect : ∀ helpers, service.helpersFactory = .ok helpers →
      Correct helpers Sensitive) (h : Gives (createFolder service profile parentPath name) d l d') :
    Checked service d.fs parentPath name l.path ∧ d'.fs.kind l.path = some .directory ∧
      ∃ helpers, service.helpersFactory = .ok helpers ∧ ∀ entry ∈ l.entries, Shown helpers d'.fs l.path entry := by
  obtain ⟨⟨helpers, policy⟩, t, hcontext, hrest⟩ := gives_bind.1 h
  obtain ⟨hhelpers, hpolicy⟩ := context_gives hcontext
  have ht : t.fs = d.fs := (context_frames.of_gives hcontext : Confined (fun _ => True) d t).fs
  simp only [gives_bind, gives_lift] at hrest
  obtain ⟨parent, u, hparent, component, _, ⟨hname, rfl⟩, _, _, ⟨hcheck, rfl⟩, _, w, hopen, _, x, hmake, created, y,
    hcreated, hlist⟩ := hrest
  obtain ⟨-, candidate, hresolved⟩ := resolveExisting_gives hparent
  rw [ht] at hresolved
  have hdirectory := makeChild_gives hmake
  obtain ⟨hy, again, hresolved'⟩ := resolveExisting_gives hcreated
  obtain rfl := candidateOf_text hresolved'.requested
  obtain rfl := (hcorrect helpers hhelpers).canonical _ _ _ hresolved'.requested_real hresolved'.canonical
  have hframe : Confined (Allowed helpers policy) y d' := (listTarget_frames hresolved'.allowed).of_gives hlist
  obtain ⟨hpath, hentries⟩ := listTarget_gives hresolved'.allowed hlist
  rw [hpath]
  refine ⟨⟨helpers, policy, candidate, parent, component, hhelpers, hpolicy, hresolved, hname, rfl, hcheck⟩, ?_,
    helpers, hhelpers, ?_⟩
  · rw [hframe.fs, hy]
    exact hdirectory
  · rw [hframe.fs]
    exact hentries

/-- Where something is that is no directory, only the parent is opened. -/
theorem createFolder_taken {kind : Kind} (hcorrect : ∀ helpers, service.helpersFactory = .ok helpers →
      Correct helpers Sensitive) (hchecked : Checked service d.fs parentPath name target)
    (hkind : d.fs.kind target = some kind) (hother : kind ≠ .directory) :
    Frames (Confined (· = target.dropLast)) (createFolder service profile parentPath name) d := by
  obtain ⟨helpers, policy, candidate, parent, component, hhelpers, hpolicy, hresolved, hname, rfl, -⟩ := hchecked
  have hparent := (hcorrect helpers hhelpers).canonical _ _ _ hresolved.requested_real hresolved.canonical
  rw [List.dropLast_concat]
  refine frames_bind (fun _ _ _ => .trans) context_frames fun found t hcontext => ?_
  have ht : t.fs = d.fs := (context_frames.of_gives hcontext : Confined (fun _ => True) d t).fs
  obtain ⟨helpers', policy'⟩ := found
  obtain ⟨hhelpers', hpolicy'⟩ := context_gives hcontext
  obtain rfl : helpers = helpers' := Except.ok.inj (hhelpers.symm.trans hhelpers')
  obtain rfl : policy = policy' := Option.some.inj (hpolicy.symm.trans hpolicy')
  refine frames_bind (fun _ _ _ => .trans) (resolveExisting_frames ?_ ?_) fun parent' u hparent' => ?_
  · intro candidate' hcandidate' _
    rw [hparent]
    exact Except.ok.inj (hcandidate'.symm.trans hresolved.requested)
  · intro candidate' target' hcandidate' hreal' hcanonical' _
    rw [hparent, ← Except.ok.inj (hcandidate'.symm.trans hresolved.requested)]
    exact (hcorrect helpers hhelpers).canonical _ _ _ hreal' hcanonical'
  obtain ⟨hu, candidate', hresolved'⟩ := resolveExisting_gives hparent'
  have hsame : parent' = parent := by
    rw [ht] at hresolved'
    obtain rfl : candidate' = candidate :=
      Except.ok.inj (hresolved'.requested.symm.trans hresolved.requested)
    exact Option.some.inj (Option.some.inj (hresolved'.canonical.symm.trans hresolved.canonical))
  subst hsame
  refine frames_bind (fun _ _ _ => .trans) (frames_lift .refl) fun component' _ hfirst => ?_
  obtain ⟨hname', rfl⟩ := gives_lift.1 hfirst
  obtain rfl : component = component' := Except.ok.inj (hname.symm.trans hname')
  refine frames_bind (fun _ _ _ => .trans) (frames_lift .refl) fun _ _ hsecond => ?_
  obtain ⟨-, rfl⟩ := gives_lift.1 hsecond
  have hopen : Frames (Confined (· = parent')) (openExistingDirectory service parent') u :=
    openExistingDirectory_frames rfl
  refine frames_bind (fun _ _ _ => .trans) hopen fun _ w hreal => ?_
  have hw : w.fs.kind (parent' ++ [component]) = some kind := by
    rw [(hopen.of_gives hreal).fs, hu, ht]
    exact hkind
  have hmake : Frames (Confined (· = parent')) (makeChild service parent' (parent' ++ [component])) w := by
    have hframe : Frames (MadeAtMost (· = parent') (parent' ++ [component]))
        (makeChild service parent' (parent' ++ [component])) w :=
      makeChild_frames fun hnone => absurd (hnone.symm.trans hw) (by simp)
    rcases hframe with hconfined | hmade
    · exact hconfined
    · exact absurd (hmade.none.symm.trans hw) (by simp)
  refine frames_bind (fun _ _ _ => .trans) hmake fun _ x hdone => ?_
  have hdirectory := makeChild_gives hdone
  rw [(hmake.of_gives hdone).fs, hw] at hdirectory
  exact absurd (Option.some.inj hdirectory) hother

/-! ## Listing and creating -/

theorem listFolders_frames {request : Json} :
    Frames (Confined (Permitted service)) (listFolders service profile request) d := by
  refine frames_bind (fun _ _ _ => .trans) context_frames fun found _ hcontext => ?_
  obtain ⟨helpers, policy⟩ := found
  obtain ⟨hhelpers, hpolicy⟩ := context_gives hcontext
  refine frames_bind (fun _ _ _ => .trans) (resolveExisting_permitted hhelpers hpolicy) fun target _ htarget => ?_
  obtain ⟨-, _, hresolved⟩ := resolveExisting_gives htarget
  exact listTarget_frames ⟨helpers, policy, hhelpers, hpolicy, hresolved.allowed⟩

theorem listFolders_gives {request : Json} {l : Listing} (h : Gives (listFolders service profile request) d l d') :
    ∃ helpers, service.helpersFactory = .ok helpers ∧ ∀ entry ∈ l.entries, Shown helpers d'.fs l.path entry := by
  have hfs : d'.fs = d.fs := (listFolders_frames.of_gives h).fs
  obtain ⟨⟨helpers, policy⟩, t, hcontext, hrest⟩ := gives_bind.1 h
  have ht : t.fs = d.fs := (context_frames.of_gives hcontext : Confined (fun _ => True) d t).fs
  obtain ⟨target, u, htarget, hlist⟩ := gives_bind.1 hrest
  obtain ⟨hu, _, hresolved⟩ := resolveExisting_gives htarget
  obtain ⟨hpath, hentries⟩ := listTarget_gives hresolved.allowed hlist
  refine ⟨helpers, (context_gives hcontext).1, ?_⟩
  rw [hfs, ← ht, ← hu, hpath]
  exact hentries

/-- The root that the host has locked, if it has. -/
def Service.lockedRoot (service : Service) : Option Path :=
  match service.helpersFactory with
  | .ok helpers => helpers.managedPolicy.bind (·.lockedRoot)
  | .error _ => none

/-- A path is not sensitive, and not outside a locked root. -/
def Inside (service : Service) (Sensitive : Path → Prop) (path : Path) : Prop :=
  ¬ Sensitive path ∧ ∀ root, service.lockedRoot = some root → root <+: path

theorem Permitted.stays (hcorrect : ∀ helpers, service.helpersFactory = .ok helpers → Correct helpers Sensitive)
    (h : Permitted service path) : Inside service Sensitive path := by
  obtain ⟨helpers, policy, hhelpers, hpolicy, hallowed⟩ := h
  have hhost := hcorrect helpers hhelpers
  refine ⟨fun hsensitive => ?_, fun root hroot => ?_⟩
  · exact absurd ((hhost.sensitive path false hallowed.insensitive).2 hsensitive) (by simp)
  · unfold Service.lockedRoot at hroot
    rw [hhelpers] at hroot
    simp only [hpolicy, Option.bind_some] at hroot
    exact hhost.under root path (hallowed.under root hroot)

/-- A listing holds no link, nothing sensitive and nothing but directories. -/
def Clean (Sensitive : Path → Prop) (fs : FileSystem) (l : Listing) : Prop :=
  ∀ entry ∈ l.entries, entry.path = l.path ++ [entry.name] ∧ fs.kind entry.path = some .directory ∧
    ¬ Sensitive entry.path

theorem clean_of_shown {l : Listing} (hcorrect : Correct helpers Sensitive)
    (h : ∀ entry ∈ l.entries, Shown helpers fs l.path entry) : Clean Sensitive fs l := by
  intro entry hentry
  have hshown := h entry hentry
  refine ⟨hshown.path, hshown.kind, fun hsensitive => ?_⟩
  exact absurd ((hcorrect.sensitive _ false hshown.insensitive).2 hsensitive) (by simp)

/-- How a request to list ends: the outcome, and the disk. -/
structure ListedInside (service : Service) (Sensitive : Path → Prop) (fs : FileSystem)
    (r : Except Fault Listing × Disk) : Prop where
  unchanged : r.2.fs = fs
  confined : ∀ operation ∈ r.2.log, operation.Inside (Inside service Sensitive) ∧ operation.isMkdir = false
  clean : ∀ l, r.1 = .ok l → Clean Sensitive fs l

/-- How a request to create ends. -/
structure CreatedInside (service : Service) (Sensitive : Path → Prop) (parentPath name : Json) (fs : FileSystem)
    (r : Except Fault Listing × Disk) : Prop where
  confined : ∀ operation ∈ r.2.log, operation.Inside (Inside service Sensitive)
  once : (r.2.log.filter Operation.isMkdir).length ≤ 1
  /-- `mkdir` is called of the target whose checks all passed, where there is nothing -/
  checked : ∀ path, .mkdir path ∈ r.2.log → Checked service fs parentPath name path ∧ fs.kind path = none
  changed : r.2.fs = fs ∨ ∃ path, .mkdir path ∈ r.2.log ∧ r.2.fs = fs.make path
  /-- what is there already stays, and is what is returned -/
  existing : ∀ path kind, Checked service fs parentPath name path → fs.kind path = some kind →
    r.2.fs = fs ∧ (∀ path', .mkdir path' ∉ r.2.log) ∧ ∀ l, r.1 = .ok l → l.path = path
  /-- a link, or what is no directory, is neither opened nor returned -/
  taken : ∀ path kind, Checked service fs parentPath name path → fs.kind path = some kind → kind ≠ .directory →
    (∃ fault, r.1 = .error fault) ∧ ∀ operation ∈ r.2.log, operation.Inside (· = path.dropLast)
  clean : ∀ l, r.1 = .ok l → Clean Sensitive r.2.fs l

section

variable {request : Json} (hcorrect : ∀ helpers, service.helpersFactory = .ok helpers → Correct helpers Sensitive)

include hcorrect

theorem listFolders_inside :
    ListedInside service Sensitive fs ((listFolders service profile request).run ⟨fs, []⟩) := by
  have hframe : Confined (Permitted service) ⟨fs, []⟩ ((listFolders service profile request).run ⟨fs, []⟩).2 :=
    listFolders_frames
  refine ⟨hframe.fs, ?_, fun l hl => ?_⟩
  · exact (hframe.mono fun _ h => h.stays hcorrect).logged
  · obtain ⟨helpers, hhelpers, hshown⟩ := listFolders_gives (Prod.ext hl rfl)
    rw [hframe.fs] at hshown
    exact clean_of_shown (hcorrect helpers hhelpers) hshown

theorem createFolder_inside :
    CreatedInside service Sensitive parentPath name fs
      ((createFolder service profile parentPath name).run ⟨fs, []⟩) := by
  generalize hrun : (createFolder service profile parentPath name).run ⟨fs, []⟩ = r
  have hcreates : Creates service parentPath name ⟨fs, []⟩ r.2 := by
    rw [← hrun]
    exact createFolder_frames
  have hgives : ∀ l, r.1 = .ok l → Gives (createFolder service profile parentPath name) ⟨fs, []⟩ l r.2 :=
    fun l hl => hrun.trans (Prod.ext hl rfl)
  have hclean : ∀ l, r.1 = .ok l → Clean Sensitive r.2.fs l := by
    intro l hl
    obtain ⟨-, -, helpers, hhelpers, hshown⟩ := createFolder_gives hcorrect (hgives l hl)
    exact clean_of_shown (hcorrect helpers hhelpers) hshown
  -- what is there already keeps the request from making anything
  have hthere : ∀ path kind, Checked service fs parentPath name path → fs.kind path = some kind →
      Confined (Permitted service) ⟨fs, []⟩ r.2 := by
    intro path kind hchecked hkind
    rcases hcreates with hconfined | ⟨target, hchecked', hmade⟩
    · exact hconfined
    · obtain rfl := hchecked.unique hchecked'
      exact absurd (hmade.none.symm.trans hkind) (by simp)
  have hnoMkdir : ∀ path', Confined (Permitted service) ⟨fs, []⟩ r.2 → .mkdir path' ∉ r.2.log := by
    intro path' hconfined hmem
    exact absurd (hconfined.logged _ hmem).2 (by simp [Operation.isMkdir])
  have hexisting : ∀ path kind, Checked service fs parentPath name path → fs.kind path = some kind →
      r.2.fs = fs ∧ (∀ path', .mkdir path' ∉ r.2.log) ∧ ∀ l, r.1 = .ok l → l.path = path := by
    intro path kind hchecked hkind
    have hconfined := hthere path kind hchecked hkind
    refine ⟨hconfined.fs, fun path' => hnoMkdir path' hconfined, fun l hl => ?_⟩
    exact (createFolder_gives hcorrect (hgives l hl)).1.unique hchecked
  have htaken : ∀ path kind, Checked service fs parentPath name path → fs.kind path = some kind →
      kind ≠ .directory →
      (∃ fault, r.1 = .error fault) ∧ ∀ operation ∈ r.2.log, operation.Inside (· = path.dropLast) := by
    intro path kind hchecked hkind hother
    constructor
    · cases hr : r.1 with
      | error fault => exact ⟨fault, rfl⟩
      | ok l =>
        obtain ⟨hchecked', hdirectory, -⟩ := createFolder_gives hcorrect (hgives l hr)
        rw [(hthere path kind hchecked hkind).fs, hchecked'.unique hchecked, hkind] at hdirectory
        exact absurd (Option.some.inj hdirectory) hother
    · have hframe : Confined (· = path.dropLast) ⟨fs, []⟩ r.2 := by
        rw [← hrun]
        exact createFolder_taken hcorrect hchecked hkind hother
      exact fun operation hmem => (hframe.logged operation hmem).1
  rcases hcreates with hconfined | ⟨target, hchecked, hmade⟩
  · have hlogged := (hconfined.mono fun _ h => h.stays hcorrect).logged
    refine ⟨fun operation hmem => (hlogged operation hmem).1, ?_, fun path hmem => ?_, .inl hconfined.fs,
      hexisting, htaken, hclean⟩
    · rw [List.filter_eq_nil_iff.2 fun operation hmem => by simp [(hlogged operation hmem).2]]
      exact Nat.zero_le 1
    · exact absurd hmem (hnoMkdir path hconfined)
  · obtain ⟨before, after, hlog, hlogged⟩ := (hmade.mono fun _ h => h.stays hcorrect).logged
    have hnot : ∀ path, .mkdir path ∉ before ++ after := fun path hmem =>
      absurd (hlogged _ hmem).2 (by simp [Operation.isMkdir])
    have htarget : ∀ path, .mkdir path ∈ r.2.log → path = target := by
      intro path hmem
      rw [hlog] at hmem
      by_contra hne
      refine hnot path ?_
      simpa [hne] using hmem
    refine ⟨fun operation hmem => ?_, ?_, fun path hmem => ?_, ?_, hexisting, htaken, hclean⟩
    · by_cases hmkdir : operation = .mkdir target
      · subst hmkdir
        exact hmade.permits.stays hcorrect
      · refine (hlogged operation ?_).1
        rw [hlog] at hmem
        simpa [hmkdir] using hmem
    · rw [hlog, List.filter_append, List.filter_cons_of_pos rfl, List.length_append, List.length_cons,
        List.filter_eq_nil_iff.2 fun operation hmem => by simp [(hlogged operation (List.mem_append_left _ hmem)).2],
        List.filter_eq_nil_iff.2 fun operation hmem => by simp [(hlogged operation (List.mem_append_right _ hmem)).2]]
      exact Nat.le_refl 1
    · obtain rfl := htarget path hmem
      exact ⟨hchecked, hmade.none⟩
    · refine hmade.fs.imp id fun hmake => ⟨target, ?_, hmake⟩
      rw [hlog]
      simp

end

end Folders

end MercuryRelay
