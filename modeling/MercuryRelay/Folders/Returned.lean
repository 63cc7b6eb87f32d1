/-
  Creating a folder that is there already.

  Where nothing raises, how a program ends does not depend on what was asked before, so
  that the listing which `create_folder` returns is the one of `list_folders`.

  * `createFolder_existing`: creating a directory that is there is listing it;
  * `folders_confined`: listing and creating, from every file system.
-/
import MercuryRelay.Folders.Confinement

set_option autoImplicit false

namespace MercuryRelay

open Python Effect Effect.Program

namespace Folders

variable {service : Service} {helpers : Helpers} {policy : Policy} {d d' : Disk} {fs : FileSystem}
  {path target parent : Path} {raw name parentPath : Json} {allowDefault : Bool} {profile : Str}

/-! ## Programs that do not depend on the log -/

/-- How the program ends, and what it makes of the file system, is the same for every log. -/
def LogFree {ε α : Type} (m : Program Disk ε α) : Prop :=
  ∀ fs log log', (m.run ⟨fs, log⟩).1 = (m.run ⟨fs, log'⟩).1 ∧ (m.run ⟨fs, log⟩).2.fs = (m.run ⟨fs, log'⟩).2.fs

section LogFree

variable {ε ε' α β : Type} {m : Program Disk ε α} {k : α → Program Disk ε β}

theorem logFree_pure {a : α} : LogFree (pure a : Program Disk ε α) := fun _ _ _ => ⟨rfl, rfl⟩

theorem logFree_fail {e : ε} : LogFree (fail e : Program Disk ε α) := fun _ _ _ => ⟨rfl, rfl⟩

theorem logFree_lift {x : Except ε α} : LogFree (lift x : Program Disk ε α) := fun _ _ _ => ⟨rfl, rfl⟩

theorem logFree_bind (hm : LogFree m) (hk : ∀ a, LogFree (k a)) : LogFree (m >>= k) := by
  intro fs log log'
  obtain ⟨hend, hfs⟩ := hm fs log log'
  rw [run_bind, run_bind]
  rcases h : m.run ⟨fs, log⟩ with ⟨x, t, new⟩
  rcases h' : m.run ⟨fs, log'⟩ with ⟨x', t', new'⟩
  simp only [h, h'] at hend hfs
  subst hend hfs
  cases x with
  | ok a => exact hk a _ _ _
  | error e => exact ⟨rfl, rfl⟩

theorem logFree_attempt (hm : LogFree m) : LogFree (m.attempt : Program Disk ε' (Except ε α)) :=
  fun fs log log' => ⟨congrArg Except.ok (hm fs log log').1, (hm fs log log').2⟩

theorem logFree_rescue {h : ε → Program Disk ε' α} (hm : LogFree m) (hh : ∀ e, LogFree (h e)) :
    LogFree (m.rescue h) := by
  refine logFree_bind (logFree_attempt hm) fun x => ?_
  cases x with
  | ok a => exact logFree_pure
  | error e => exact hh e

end LogFree

section

variable {fails : List Operation → Bool} (hfails : ∀ log, fails log = false)

include hfails

theorem operate_run {α : Type} {operation : Operation} {act : FileSystem → Except OsFault α × FileSystem} :
    (operate fails operation act).run d = ((act d.fs).1, ⟨(act d.fs).2, d.log ++ [operation]⟩) := by
  show operate fails operation act d = _
  rw [operate, if_neg (by simp [hfails])]

theorem logFree_operate {α : Type} {operation : Operation} {act : FileSystem → Except OsFault α × FileSystem} :
    LogFree (operate fails operation act) := by
  intro fs log log'
  rw [operate_run hfails, operate_run hfails]
  exact ⟨rfl, rfl⟩

end

section

variable (hfails : ∀ log, service.fails log = false)

include hfails

omit hfails in
theorem canonicalPath_run : (canonicalPath helpers path).run d =
    ((match helpers.canonical d.fs path with
      | some (some target) => .ok target
      | _ => .error notAvailable), d) := by
  rw [canonicalPath, run_bind]
  show (match helpers.canonical d.fs path with
    | some (some target) => (pure target : Program Disk Fault Path)
    | _ => fail notAvailable).run d = _
  split <;> rfl

theorem openExistingDirectory_logFree : LogFree (openExistingDirectory service path) :=
  logFree_rescue (logFree_operate hfails) fun _ => logFree_fail

theorem resolveExisting_logFree : LogFree (resolveExisting service helpers policy raw allowDefault) := by
  refine logFree_bind logFree_lift fun candidate => logFree_bind logFree_lift fun _ =>
    logFree_bind logFree_lift fun _ => logFree_bind (openExistingDirectory_logFree hfails) fun _ =>
    logFree_bind ?_ fun target => logFree_bind logFree_lift fun _ => logFree_bind logFree_lift fun _ =>
    logFree_bind logFree_lift fun _ => logFree_bind (openExistingDirectory_logFree hfails) fun _ => logFree_pure
  -- the helper is asked about the file system alone
  intro fs log log'
  rw [canonicalPath_run, canonicalPath_run]
  exact ⟨rfl, rfl⟩

theorem scanEntry_logFree {name : Component} : LogFree (scanEntry service helpers target name) := by
  unfold scanEntry
  split
  · exact logFree_fail
  · refine logFree_bind (logFree_attempt (logFree_operate hfails)) fun found => ?_
    split
    · exact logFree_pure
    · exact logFree_fail
    · exact logFree_pure
    · exact logFree_pure
    · split
      · exact logFree_fail
      · split
        · exact logFree_fail
        · refine logFree_bind logFree_lift fun hidden => ?_
          split
          · exact logFree_pure
          · exact logFree_pure

theorem scanEntries_logFree {names : List Component} {scanned : ℕ} {entries : List Entry} :
    LogFree (scanEntries service helpers target names scanned entries) := by
  have hnext : LogFree ((next service.fails target).rescue fun _ => (fail notAvailable : Program Disk Fault Unit)) :=
    logFree_rescue (logFree_operate hfails) fun _ => logFree_fail
  induction names generalizing scanned entries with
  | nil => exact logFree_bind hnext fun _ => logFree_pure
  | cons name names ih =>
    refine logFree_bind hnext fun _ => ?_
    split
    · exact logFree_fail
    · refine logFree_bind (scanEntry_logFree hfails) fun found => ?_
      split
      · exact ih
      · split
        · exact logFree_fail
        · exact ih

theorem listTarget_logFree : LogFree (listTarget service helpers policy target) :=
  logFree_bind (openExistingDirectory_logFree hfails) fun _ =>
    logFree_bind (logFree_rescue (logFree_operate hfails) fun _ => logFree_fail) fun _ =>
    logFree_bind (scanEntries_logFree hfails) fun _ => logFree_lift

/-! ## Going through -/

theorem openExistingDirectory_run (hreal : d.fs.Real path) :
    ∃ d', Gives (openExistingDirectory service path) d () d' ∧ d'.fs = d.fs := by
  have hopen : (openNofollow service.fails (.openDirectory path) path).run d =
      (.ok (), ⟨d.fs, d.log ++ [.openDirectory path]⟩) := by
    rw [openNofollow, operate_run hfails, if_pos hreal]
  refine ⟨⟨d.fs, d.log ++ [.openDirectory path]⟩, ?_, rfl⟩
  exact gives_bind.2 ⟨.ok (), _, gives_attempt.2 hopen, gives_pure.2 ⟨rfl, rfl⟩⟩

omit hfails in
theorem requireUnder_of_allowed (h : Allowed helpers policy path) : requireUnder helpers policy path = .ok () := by
  unfold requireUnder under
  cases hroot : policy.lockedRoot with
  | none => rfl
  | some root => simp [h.under root hroot, Except.bind]

omit hfails in
theorem requireInsensitive_of_allowed (h : Allowed helpers policy path) :
    requireInsensitive helpers path = .ok () := by
  unfold requireInsensitive sensitive
  simp [h.insensitive, Except.bind]

/-- What a request resolves to, it resolves to. -/
theorem resolveExisting_run {candidate : Path}
    (h : Resolved helpers policy d.fs raw allowDefault candidate target) :
    ∃ d', Gives (resolveExisting service helpers policy raw allowDefault) d target d' ∧ d'.fs = d.fs := by
  obtain ⟨first, hfirst, hfs⟩ := openExistingDirectory_run (d := d) hfails h.requested_real
  have hreal : first.fs.Real target := by
    rw [hfs]
    exact h.real
  obtain ⟨second, hsecond, hfs'⟩ := openExistingDirectory_run (d := first) hfails hreal
  have hcanonical : Gives (canonicalPath helpers candidate) first target first := by
    unfold Gives
    rw [canonicalPath_run, hfs, h.canonical]
  refine ⟨second, ?_, hfs'.trans hfs⟩
  simp only [resolveExisting, gives_bind, gives_lift, gives_pure]
  exact ⟨candidate, d, ⟨h.requested, rfl⟩, (), d, ⟨requireUnder_of_allowed h.requested_allowed, rfl⟩, (), d,
    ⟨requireInsensitive_of_allowed h.requested_allowed, rfl⟩, (), first, hfirst, target, first, hcanonical, (), first,
    ⟨h.short, rfl⟩, (), first, ⟨requireUnder_of_allowed h.allowed, rfl⟩, (), first,
    ⟨requireInsensitive_of_allowed h.allowed, rfl⟩, (), second, hsecond, rfl, rfl⟩

/-- A directory that is there is found. -/
theorem makeChild_run (h : d.fs.kind target = some .directory) :
    ∃ d', Gives (makeChild service parent target) d () d' ∧ d'.fs = d.fs := by
  have hlstat : (lstat service.fails target).run d = (.ok .directory, ⟨d.fs, d.log ++ [.lstat target]⟩) := by
    rw [lstat, operate_run hfails, h]
  have hfind : (makeOrFind service parent target).run d = (.ok .directory, ⟨d.fs, d.log ++ [.lstat target]⟩) :=
    gives_bind.2 ⟨.ok .directory, _, gives_attempt.2 hlstat, gives_pure.2 ⟨rfl, rfl⟩⟩
  exact ⟨_, gives_bind.2 ⟨.ok .directory, _, gives_attempt.2 hfind, gives_pure.2 ⟨rfl, rfl⟩⟩, rfl⟩

/-- **Creating a directory that is there is listing it.** -/
theorem createFolder_existing (hchecked : Checked service fs parentPath name target)
    (hkind : fs.kind target = some .directory) :
    ((createFolder service profile parentPath name).run ⟨fs, []⟩).1 =
      ((listFolders service profile (.str (text target))).run ⟨fs, []⟩).1 := by
  obtain ⟨helpers, policy, candidate, parent, component, hhelpers, hpolicy, hresolved, hname, rfl, hcheck⟩ := hchecked
  rw [createFolder, listFolders, run_bind, run_bind]
  rcases hcontext : (context service profile).run ⟨fs, []⟩ with ⟨x, t⟩
  cases x with
  | error fault => rfl
  | ok found =>
    have hgives : Gives (context service profile) ⟨fs, []⟩ found t := hcontext
    have ht : t.fs = fs := (context_frames.of_gives hgives : Confined (fun _ => True) ⟨fs, []⟩ t).fs
    obtain ⟨helpers', policy'⟩ := found
    obtain ⟨hhelpers', hpolicy'⟩ := context_gives hgives
    obtain rfl : helpers = helpers' := Except.ok.inj (hhelpers.symm.trans hhelpers')
    obtain rfl : policy = policy' := Option.some.inj (hpolicy.symm.trans hpolicy')
    -- the request to create gets as far as listing the directory
    rw [← ht] at hresolved hkind
    obtain ⟨u, hu, hufs⟩ := resolveExisting_run hfails hresolved
    have hreal : u.fs.Real parent := by
      rw [hufs]
      exact hresolved.real
    obtain ⟨w, hw, hwfs⟩ := openExistingDirectory_run hfails hreal
    have hthere : w.fs.kind (parent ++ [component]) = some .directory := by
      rw [hwfs, hufs]
      exact hkind
    obtain ⟨x, hx, hxfs⟩ := makeChild_run hfails hthere
    have hrest : LogFree (do
        let created ← resolveExisting service helpers policy (.str (text (parent ++ [component]))) true
        listTarget service helpers policy created) :=
      logFree_bind (resolveExisting_logFree hfails) fun _ => listTarget_logFree hfails
    dsimp only
    rw [hu.run, (gives_lift.2 ⟨hname, rfl⟩ : Gives _ u component u).run,
      (gives_lift.2 ⟨hcheck, rfl⟩ : Gives _ u () u).run, hw.run, hx.run]
    have hsame : x.fs = t.fs := by rw [hxfs, hwfs, hufs]
    have hboth := (hrest x.fs x.log t.log).1
    rwa [show (⟨x.fs, t.log⟩ : Disk) = t by rw [hsame]] at hboth

end

/-- **Whoever lists or creates folders stays inside the policy**, and what is there already is
    returned as it is. -/
theorem folders_confined {service : Service} {Sensitive : Path → Prop}
    (hcorrect : ∀ helpers, service.helpersFactory = .ok helpers → Correct helpers Sensitive) (profile : Str)
    (request name : Json) (fs : FileSystem) :
    ListedInside service Sensitive fs ((listFolders service profile request).run ⟨fs, []⟩) ∧
      CreatedInside service Sensitive request name fs ((createFolder service profile request name).run ⟨fs, []⟩) ∧
      ((∀ log, service.fails log = false) → ∀ target, Checked service fs request name target →
        fs.kind target = some .directory →
        ((createFolder service profile request name).run ⟨fs, []⟩).1 =
          ((listFolders service profile (.str (text target))).run ⟨fs, []⟩).1) :=
  ⟨listFolders_inside hcorrect, createFolder_inside hcorrect,
    fun hfails _ hchecked hkind => createFolder_existing hfails hchecked hkind⟩

section Runs

def work : Component := ⟨lit "work", by decide⟩
def notes : Component := ⟨lit "notes", by decide⟩
def secret : Component := ⟨lit "secret", by decide⟩

/-- A host that has locked `/work`, of which `/work/secret` is sensitive. -/
def workHelpers : Helpers where
  profileDir _ := some []
  isSensitive path := some (decide (path = [work, secret]))
  canonical fs path := if fs.Real path then some (some path) else none
  managedPolicy := some ⟨[work], some [work], false⟩
  isUnder root path := some (root.isPrefixOf path)

def workService : Service where
  helpersFactory := .ok workHelpers
  secureAdapter := true
  casefold := id
  fails _ := false

def workFiles : FileSystem where
  kind path := if path = [work] ∨ path = [work, secret] then some .directory else none
  names path := if path = [work] then [secret] else []

theorem workHelpers_correct : Correct workHelpers (· = [work, secret]) := by
  constructor
  · intro root path h
    exact List.isPrefixOf_iff_prefix.1 (Option.some.inj h)
  · intro path answer h
    cases h
    simp
  · intro fs path target hreal h
    simp only [workHelpers, if_pos hreal, Option.some.injEq] at h
    exact h.symm

theorem folders_confined_work :
    ListedInside workService (· = [work, secret]) workFiles
        ((listFolders workService (lit "default") (.str (lit "/"))).run ⟨workFiles, []⟩) ∧
      CreatedInside workService (· = [work, secret]) (.str (lit "/work")) (.str (lit "notes")) workFiles
        ((createFolder workService (lit "default") (.str (lit "/work")) (.str (lit "notes"))).run ⟨workFiles, []⟩) := by
  have hcorrect : ∀ helpers, workService.helpersFactory = .ok helpers → Correct helpers (· = [work, secret]) := by
    intro helpers hhelpers
    cases hhelpers
    exact workHelpers_correct
  exact ⟨(folders_confined hcorrect (lit "default") (.str (lit "/")) (.str (lit "notes")) workFiles).1,
    (folders_confined hcorrect (lit "default") (.str (lit "/work")) (.str (lit "notes")) workFiles).2.1⟩

/-- The new directory is listed, and the sensitive one is not. -/
example : ((createFolder workService (lit "default") (.str (lit "/work")) (.str (lit "notes"))).run
      ⟨workFiles, []⟩).2.log.filter Operation.isMkdir = [.mkdir [work, notes]] ∧
    (((listFolders workService (lit "default") (.str (lit "/"))).run ⟨workFiles, []⟩).1.toOption.map
      fun l => (l.path, l.entries.length)) = some ([work], 0) := by decide +kernel

end Runs

end Folders

end MercuryRelay
