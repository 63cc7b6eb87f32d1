/-
  The directories that the folder extension works on (folders.py over secure_fs.py).

  A path is one that pathlib makes of an absolute text; a file system has a kind at each
  path.  What is asked of it is logged, and whether it raises may depend on all of that.

  * `pathOf_text`: the text of a path is read as the path;
  * `Confined`, `Made`: what a part of a request may do to the disk.
-/
import MercuryRelay.Lib.Effect
import MercuryRelay.Python.Text
import Mathlib.Tactic.Common

set_option autoImplicit false

namespace MercuryRelay

open Python Effect Effect.Program

namespace Folders

/-! ## Paths -/

/-- A component of a path: no separator, and none of the names that stand for another
    directory. -/
abbrev Component := {s : Str // s ≠ [] ∧ 47 ∉ s ∧ s ≠ lit "." ∧ s ≠ lit ".."}

/-- An absolute `Path`, by its components. -/
abbrev Path := List Component

/-- `str(path)`. -/
def text (path : Path) : Str :=
  if path = [] then [47] else [47].intercalate ([] :: path.map (·.1))

/-- A component, if a text is one. -/
def component (s : Str) : Option Component :=
  if h : s ≠ [] ∧ 47 ∉ s ∧ s ≠ lit "." ∧ s ≠ lit ".." then some ⟨s, h⟩ else none

/-- `Path(raw)` of an absolute text. -/
def pathOf (raw : Str) : Path := (raw.splitOn 47).filterMap component

theorem component_val (c : Component) : component c.1 = some c := by
  rw [component, dif_pos c.2]

theorem component_nil : component [] = none := by
  rw [component, dif_neg (by simp)]

theorem splitOn_text {path : Path} (h : path ≠ []) : (text path).splitOn 47 = [] :: path.map (·.1) := by
  rw [text, if_neg h]
  refine List.splitOn_intercalate 47 ?_ (by simp)
  intro part hpart
  rcases List.mem_cons.1 hpart with rfl | hpart
  · simp
  · obtain ⟨c, -, rfl⟩ := List.mem_map.1 hpart
    exact c.2.2.1

theorem pathOf_text (path : Path) : pathOf (text path) = path := by
  by_cases h : path = []
  · subst h
    decide
  · have hcomponents : (path.map (·.1)).filterMap component = path := by
      rw [List.filterMap_map]
      exact (List.filterMap_congr fun c _ => component_val c).trans List.filterMap_some
    rw [pathOf, splitOn_text h, List.filterMap_cons_none component_nil, hcomponents]

/-! ## File systems -/

inductive Kind where
  | directory
  /-- `is_link_like` -/
  | link
  | other
  deriving DecidableEq

/-- What is at each path, and the names in a directory in the order of `scandir`. -/
structure FileSystem where
  kind : Path → Option Kind
  names : Path → List Component

/-- Every component of the path is a directory, and no link. -/
def FileSystem.Real (fs : FileSystem) (path : Path) : Prop :=
  ∀ prior ∈ path.inits, prior = [] ∨ fs.kind prior = some .directory

instance (fs : FileSystem) (path : Path) : Decidable (fs.Real path) :=
  inferInstanceAs (Decidable (∀ _ ∈ _, _))

/-- The file system with a new, empty directory. -/
def FileSystem.make (fs : FileSystem) (path : Path) : FileSystem where
  kind p := if p = path then some .directory else fs.kind p
  names p :=
    if p = path then [] else
      match path.getLast? with
      | some name => if p = path.dropLast then fs.names p ++ [name] else fs.names p
      | none => fs.names p

/-! ## Operations -/

/-- What is asked of the file system. -/
inductive Operation where
  /-- `open_directory_nofollow`, of the profile's directory -/
  | openProfile (path : Path)
  /-- `open_directory_nofollow` -/
  | openDirectory (path : Path)
  | scandir (path : Path)
  /-- the next name of a scan, or its end -/
  | next (path : Path)
  | lstat (path : Path)
  | mkdir (path : Path)
  | fsync (path : Path)
  deriving DecidableEq

/-- What a file system raises. -/
inductive OsFault where
  | notFound
  | exists
  | other
  deriving DecidableEq

/-- The file system, and what was asked of it. -/
structure Disk where
  fs : FileSystem
  log : List Operation

section

variable (fails : List Operation → Bool)

/-- An operation is logged, and may raise. -/
def operate {α : Type} (operation : Operation) (act : FileSystem → Except OsFault α × FileSystem) :
    Program Disk OsFault α := fun disk =>
  if fails (disk.log ++ [operation]) then (.error .other, ⟨disk.fs, disk.log ++ [operation]⟩)
  else ((act disk.fs).1, ⟨(act disk.fs).2, disk.log ++ [operation]⟩)

/-- `open_directory_nofollow`. -/
def openNofollow (operation : Operation) (path : Path) : Program Disk OsFault Unit :=
  operate fails operation fun fs => (if fs.Real path then .ok () else .error .other, fs)

def scandir (path : Path) : Program Disk OsFault (List Component) :=
  operate fails (.scandir path) fun fs => (.ok (fs.names path), fs)

def next (path : Path) : Program Disk OsFault Unit := operate fails (.next path) fun fs => (.ok (), fs)

def lstat (path : Path) : Program Disk OsFault Kind :=
  operate fails (.lstat path) fun fs =>
    (match fs.kind path with | some kind => .ok kind | none => .error .notFound, fs)

def mkdir (path : Path) : Program Disk OsFault Unit :=
  operate fails (.mkdir path) fun fs =>
    if (fs.kind path).isSome then (.error .exists, fs) else (.ok (), fs.make path)

def fsync (path : Path) : Program Disk OsFault Unit := operate fails (.fsync path) fun fs => (.ok (), fs)

end

/-! ## What may be done -/

/-- What is opened for a listing, listed or made is inside. -/
def Operation.Inside (inside : Path → Prop) : Operation → Prop
  | .openDirectory path | .scandir path | .mkdir path => inside path
  | _ => True

def Operation.isMkdir : Operation → Bool
  | .mkdir _ => true
  | _ => false

/-- Only what is inside was looked at, and nothing changed. -/
structure Confined (inside : Path → Prop) (d d' : Disk) : Prop where
  fs : d'.fs = d.fs
  log : ∃ new, d'.log = d.log ++ new ∧ ∀ operation ∈ new, operation.Inside inside ∧ operation.isMkdir = false

/-- Besides, a directory was asked for where there was nothing. -/
def Made (inside : Path → Prop) (target : Path) (d d' : Disk) : Prop :=
  ∃ before after : Disk, Confined inside d before ∧ inside target ∧ before.fs.kind target = none ∧
    after.log = before.log ++ [.mkdir target] ∧ (after.fs = before.fs ∨ after.fs = before.fs.make target) ∧
    Confined inside after d'

variable {inside inside' : Path → Prop} {d d' d'' : Disk} {fails : List Operation → Bool}
  {operation : Operation} {path target : Path}

theorem Confined.refl (d : Disk) : Confined inside d d := ⟨rfl, [], (List.append_nil _).symm, by simp⟩

theorem Confined.trans (h : Confined inside d d') (h' : Confined inside d' d'') : Confined inside d d'' := by
  obtain ⟨new, hlog, hnew⟩ := h.log
  obtain ⟨new', hlog', hnew'⟩ := h'.log
  refine ⟨h'.fs.trans h.fs, new ++ new', by rw [hlog', hlog, List.append_assoc], ?_⟩
  intro operation hmem
  rcases List.mem_append.1 hmem with hmem | hmem
  · exact hnew operation hmem
  · exact hnew' operation hmem

theorem Operation.Inside.mono (h : ∀ p, inside p → inside' p) (ho : operation.Inside inside) :
    operation.Inside inside' := by
  cases operation <;> first | exact h _ ho | trivial

theorem Confined.mono (h : ∀ p, inside p → inside' p) (hd : Confined inside d d') : Confined inside' d d' := by
  obtain ⟨new, hlog, hnew⟩ := hd.log
  exact ⟨hd.fs, new, hlog, fun operation hmem => ⟨(hnew operation hmem).1.mono h, (hnew operation hmem).2⟩⟩

theorem Made.mono (h : ∀ p, inside p → inside' p) (hd : Made inside target d d') : Made inside' target d d' := by
  obtain ⟨before, after, hbefore, htarget, hrest, hlog, hfs, hafter⟩ := hd
  exact ⟨before, after, hbefore.mono h, h _ htarget, hrest, hlog, hfs, hafter.mono h⟩

theorem Made.after (h : Made inside target d d') (h' : Confined inside d' d'') : Made inside target d d'' := by
  obtain ⟨before, after, hbefore, hinside, hrest, hlog, hfs, hafter⟩ := h
  exact ⟨before, after, hbefore, hinside, hrest, hlog, hfs, hafter.trans h'⟩

theorem Made.before (h : Confined inside d d') (h' : Made inside target d' d'') : Made inside target d d'' := by
  obtain ⟨before, after, hbefore, hrest⟩ := h'
  exact ⟨before, after, h.trans hbefore, hrest⟩

/-- What is logged from an empty log on. -/
theorem Confined.logged {fs : FileSystem} (h : Confined inside ⟨fs, []⟩ d) :
    ∀ operation ∈ d.log, operation.Inside inside ∧ operation.isMkdir = false := by
  obtain ⟨new, hlog, hnew⟩ := h.log
  rw [hlog]
  exact hnew

/-- What is logged from an empty log on, if a directory was made. -/
theorem Made.logged {fs : FileSystem} (h : Made inside target ⟨fs, []⟩ d) :
    ∃ before after, d.log = before ++ .mkdir target :: after ∧
      ∀ operation ∈ before ++ after, operation.Inside inside ∧ operation.isMkdir = false := by
  obtain ⟨first, second, hfirst, -, -, hmkdir, -, hsecond⟩ := h
  obtain ⟨new, hlog, hnew⟩ := hsecond.log
  refine ⟨first.log, new, by rw [hlog, hmkdir, List.append_assoc]; rfl, ?_⟩
  intro operation hmem
  rcases List.mem_append.1 hmem with hmem | hmem
  · exact hfirst.logged operation hmem
  · exact hnew operation hmem

/-- The file system in the end is that of the start, or that with the new directory. -/
theorem Made.fs (h : Made inside target d d') : d'.fs = d.fs ∨ d'.fs = d.fs.make target := by
  obtain ⟨before, after, hbefore, -, -, -, hfs, hafter⟩ := h
  rw [hafter.fs, ← hbefore.fs]
  exact hfs

/-- What was made was not there, and may be. -/
theorem Made.none (h : Made inside target d d') : d.fs.kind target = none := by
  obtain ⟨before, after, hbefore, -, hnone, -⟩ := h
  rwa [hbefore.fs] at hnone

theorem Made.permits (h : Made inside target d d') : inside target := by
  obtain ⟨before, after, -, hinside, -⟩ := h
  exact hinside

/-- An operation that changes nothing is confined to where it is. -/
theorem operate_frames {α : Type} {act : FileSystem → Except OsFault α × FileSystem}
    (hinside : operation.Inside inside) (hmkdir : operation.isMkdir = false) (hact : ∀ fs, (act fs).2 = fs) :
    Frames (Confined inside) (operate fails operation act) d := by
  have hlog : ∀ fs, fs = d.fs → Confined inside d ⟨fs, d.log ++ [operation]⟩ := by
    rintro fs rfl
    exact ⟨rfl, [operation], rfl, by simpa using ⟨hinside, hmkdir⟩⟩
  show Confined inside d (operate fails operation act d).2
  unfold operate
  split
  · exact hlog d.fs rfl
  · exact hlog _ (hact d.fs)

theorem operate_gives {α : Type} {a : α} {act : FileSystem → Except OsFault α × FileSystem}
    (h : Gives (operate fails operation act) d a d') :
    (act d.fs).1 = .ok a ∧ d' = ⟨(act d.fs).2, d.log ++ [operation]⟩ := by
  have hrun : operate fails operation act d = (.ok a, d') := h
  unfold operate at hrun
  split at hrun
  · cases hrun
  · exact ⟨congrArg Prod.fst hrun, (congrArg Prod.snd hrun).symm⟩

theorem openNofollow_frames (hinside : operation.Inside inside) (hmkdir : operation.isMkdir = false) :
    Frames (Confined inside) (openNofollow fails operation path) d :=
  operate_frames hinside hmkdir fun _ => rfl

/-- What was opened is a directory, and so are its parents. -/
theorem openNofollow_gives (h : Gives (openNofollow fails operation path) d () d') : d.fs.Real path := by
  have hreal := (operate_gives h).1
  by_contra hnot
  simp [hnot] at hreal

theorem lstat_frames : Frames (Confined inside) (lstat fails path) d :=
  operate_frames trivial rfl fun _ => rfl

theorem lstat_gives {kind : Kind} (h : Gives (lstat fails path) d kind d') : d.fs.kind path = some kind := by
  have hkind := (operate_gives h).1
  cases hpath : d.fs.kind path with
  | none => simp [hpath] at hkind
  | some kind' =>
    simp only [hpath, Except.ok.injEq] at hkind
    rw [hkind]

/-- Nothing is where `lstat` finds nothing. -/
theorem lstat_notFound (h : (lstat fails path).run d = (.error .notFound, d')) : d.fs.kind path = none := by
  have hrun : operate fails _ _ d = (.error .notFound, d') := h
  unfold operate at hrun
  split at hrun
  · cases hrun
  · have hkind := congrArg Prod.fst hrun
    cases hpath : d.fs.kind path with
    | none => rfl
    | some kind => simp [hpath] at hkind

theorem next_frames : Frames (Confined inside) (next fails path) d :=
  operate_frames trivial rfl fun _ => rfl

theorem fsync_frames : Frames (Confined inside) (fsync fails path) d :=
  operate_frames trivial rfl fun _ => rfl

theorem scandir_frames (h : inside path) : Frames (Confined inside) (scandir fails path) d :=
  operate_frames h rfl fun _ => rfl

theorem mkdir_frames (hinside : inside target) (hnone : d.fs.kind target = none) :
    Frames (Made inside target) (mkdir fails target) d := by
  have hrun : (mkdir fails target).run d =
      if fails (d.log ++ [.mkdir target]) then (.error .other, ⟨d.fs, d.log ++ [.mkdir target]⟩)
      else (.ok (), ⟨d.fs.make target, d.log ++ [.mkdir target]⟩) := by
    simp only [mkdir, run, operate, hnone, Option.isSome_none, Bool.false_eq_true, if_false]
  unfold Frames
  rw [hrun]
  split
  · exact ⟨d, ⟨d.fs, _⟩, .refl d, hinside, hnone, rfl, .inl rfl, .refl _⟩
  · exact ⟨d, ⟨d.fs.make target, _⟩, .refl d, hinside, hnone, rfl, .inr rfl, .refl _⟩

end Folders

end MercuryRelay
