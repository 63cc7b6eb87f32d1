/-
  The rotating files of the connection journal (connection_journal.py, `_persist` and
  `_rotate`), with every operation on the disk on its own.

  The loop of `_rotate` renames `.{max_files - 1}` too, so that a file comes to be that
  no reader opens.

  * `rotation_respects_iff`: the bounds hold, and what is kept is the end of what was
    written, exactly as long as no write rotates while `.{max_files - 1}` exists.
-/
import MercuryRelay.Journal.Event
import Mathlib.Data.Set.Card

set_option autoImplicit false

namespace MercuryRelay

open Python

namespace Journal

/-- The lines of a journal file. -/
abbrev File := List Bytes

/-- The journal files: the current one, `.1`, `.2` and so on. -/
abbrev Files := ℕ → Option File

def File.size (file : File) : ℕ := (file.map List.length).sum

/-- What is done to the disk. -/
inductive Operation where
  /-- `os.replace` -/
  | replace (source destination : ℕ)
  | unlink (index : ℕ)
  /-- `os.write` to the current file, which is made if there is none -/
  | write (line : Bytes)
  deriving DecidableEq

def Operation.perform (files : Files) : Operation → Files
  | .replace source destination =>
    Function.update (Function.update files destination (files source)) source none
  | .unlink index => Function.update files index none
  | .write line => Function.update files 0 (some ((files 0).getD [] ++ [line]))

/-- The files after some operations. -/
def performed (files : Files) (operations : List Operation) : Files := operations.foldl Operation.perform files

section Source

variable (maxBytes maxFiles : ℕ)

/-- The loop of `_rotate` from this index on, and what is after it. -/
def rotateFrom : ℕ → Files → List Operation
  | 0, files => if (files 0).isSome then [.replace 0 1] else []
  | index + 1, files =>
    if (files (index + 1)).isSome then
      let operation :=
        if index + 1 + 1 > maxFiles then .unlink (index + 1) else .replace (index + 1) (index + 1 + 1)
      operation :: rotateFrom index (operation.perform files)
    else rotateFrom index files

/-- `_rotate`. -/
def rotate (files : Files) : List Operation :=
  if maxFiles ≤ 1 then (if (files 0).isSome then [.unlink 0] else [])
  else rotateFrom maxFiles (maxFiles - 1) files

/-- The size of the current file. -/
def currentSize (files : Files) : ℕ := ((files 0).getD []).size

/-- The current file has no room for a line. -/
def NoRoom (files : Files) (line : Bytes) : Prop := currentSize files + line.length > maxBytes

instance (files : Files) (line : Bytes) : Decidable (NoRoom maxBytes files line) :=
  inferInstanceAs (Decidable (_ > _))

/-- `_persist`, when nothing fails. -/
def persist (files : Files) (line : Bytes) : List Operation :=
  let rotation := if NoRoom maxBytes files line then rotate maxFiles files else []
  let size := if NoRoom maxBytes files line then 0 else currentSize files
  if size + line.length > maxBytes then rotation else rotation ++ [.write line]

/-- Persisting one line after another. -/
def persistAll : Files → List Bytes → List Operation
  | _, [] => []
  | files, line :: lines =>
    persist maxBytes maxFiles files line ++
      persistAll (performed files (persist maxBytes maxFiles files line)) lines

/-- `_persisted_paths`. -/
def persistedPaths : List ℕ := (List.range (maxFiles - 1)).reverse.map (· + 1) ++ [0]

/-- The lines that are kept, in the order of `_persisted_paths`. -/
def kept (files : Files) : List Bytes := (persistedPaths maxFiles).flatMap fun index => (files index).getD []

end Source

/-- The lines that were written. -/
def written (operations : List Operation) : List Bytes :=
  operations.filterMap fun | .write line => some line | _ => none

/-- The bounds of the journal hold of the files, and what is kept is the end of what was
    written. -/
structure Respects (maxBytes maxFiles : ℕ) (files : Files) (lines : List Bytes) : Prop where
  count : {index | (files index).isSome}.encard ≤ maxFiles
  size : ∀ index file, files index = some file → file.size ≤ maxBytes
  read : ∀ index, (files index).isSome → index ∈ persistedPaths maxFiles
  kept : kept maxFiles files <:+ lines

/-- The empty directory. -/
def noFiles : Files := fun _ => none

variable {maxBytes maxFiles n i : ℕ} {files files' : Files} {file : File} {line : Bytes} {lines : List Bytes}
  {operation : Operation} {operations as bs : List Operation} {P : Files → List Bytes → Prop}

/-! ## Operations in a row -/

theorem written_append (as bs : List Operation) : written (as ++ bs) = written as ++ written bs :=
  List.filterMap_append

theorem performed_append (files : Files) (as bs : List Operation) :
    performed files (as ++ bs) = performed (performed files as) bs :=
  List.foldl_append

/-- `P` holds of the files and of the lines written, before every operation and after
    the last one. -/
def Throughout (P : Files → List Bytes → Prop) : Files → List Bytes → List Operation → Prop
  | files, lines, [] => P files lines
  | files, lines, operation :: operations =>
    P files lines ∧ Throughout P (operation.perform files) (lines ++ written [operation]) operations

theorem throughout_iff : Throughout P files lines operations ↔
    ∀ earlier, earlier <+: operations → P (performed files earlier) (lines ++ written earlier) := by
  induction operations generalizing files lines with
  | nil =>
    constructor
    · intro h earlier hearlier
      rw [List.prefix_nil.1 hearlier]
      simpa [written, performed, Throughout] using h
    · intro h
      simpa [written, performed, Throughout] using h [] (List.prefix_refl [])
  | cons operation operations ih =>
    constructor
    · rintro ⟨hfirst, hrest⟩ earlier hearlier
      cases earlier with
      | nil => simpa [written, performed] using hfirst
      | cons operation' earlier =>
        obtain ⟨rfl, htail⟩ := List.cons_prefix_cons.1 hearlier
        have hlast := ih.1 hrest earlier htail
        rwa [List.append_assoc, ← written_append] at hlast
    · intro h
      refine ⟨by simpa [written, performed] using h [] List.nil_prefix, ih.2 fun earlier hearlier => ?_⟩
      rw [List.append_assoc, ← written_append]
      exact h (operation :: earlier) (List.cons_prefix_cons.2 ⟨rfl, hearlier⟩)

theorem throughout_first (h : Throughout P files lines operations) : P files lines := by
  cases operations with
  | nil => exact h
  | cons operation operations => exact h.1

theorem throughout_append : Throughout P files lines (as ++ bs) ↔
    Throughout P files lines as ∧ Throughout P (performed files as) (lines ++ written as) bs := by
  induction as generalizing files lines with
  | nil =>
    rw [show lines ++ written [] = lines from List.append_nil lines]
    constructor
    · intro h
      exact ⟨throughout_first h, h⟩
    · intro h
      exact h.2
  | cons operation as ih =>
    rw [List.cons_append, Throughout, Throughout, ih, List.append_assoc, ← written_append, and_assoc]
    rfl

theorem perform_replace {j : ℕ} (h : j ≠ i) : (Operation.replace i j).perform files j = files i := by
  rw [Operation.perform, Function.update_of_ne h, Function.update_self]

/-! ## What is kept -/

/-- The lines of the files below an index, those of the greatest one first. -/
def keptBelow : ℕ → Files → List Bytes
  | 0, _ => []
  | n + 1, files => (files n).getD [] ++ keptBelow n files

theorem mem_persistedPaths (h : 0 < maxFiles) : i ∈ persistedPaths maxFiles ↔ i < maxFiles := by
  simp only [persistedPaths, List.mem_append, List.mem_map, List.mem_reverse, List.mem_range,
    List.mem_singleton]
  constructor
  · rintro (⟨j, hj, rfl⟩ | rfl) <;> omega
  · intro hi
    cases i with
    | zero => exact .inr rfl
    | succ i => exact .inl ⟨i, by omega, rfl⟩

theorem kept_eq (files : Files) (n : ℕ) : kept (n + 1) files = keptBelow (n + 1) files := by
  have hlast : ∀ m, ((List.range m).reverse.map (· + 1) ++ [0]).flatMap (fun index => (files index).getD []) =
      keptBelow (m + 1) files := by
    intro m
    induction m with
    | zero => simp [keptBelow]
    | succ m ih =>
      rw [List.range_succ, List.reverse_append, List.reverse_singleton, List.singleton_append, List.map_cons,
        List.cons_append, List.flatMap_cons, ih]
      rfl
  exact hlast n

theorem keptBelow_congr (h : ∀ i < n, files' i = files i) : keptBelow n files' = keptBelow n files := by
  induction n with
  | zero => rfl
  | succ n ih => rw [keptBelow, keptBelow, h n n.lt_succ_self, ih fun i hi => h i (by omega)]

/-- Renaming a file to the next index, which is free, keeps the lines in their order. -/
theorem keptBelow_replace (hfree : files (i + 1) = none) (hi : i + 1 < n) :
    keptBelow n ((Operation.replace i (i + 1)).perform files) = keptBelow n files := by
  induction n with
  | zero => omega
  | succ n ih =>
    rcases Nat.lt_or_ge (i + 1) n with hlt | hge
    · rw [keptBelow, keptBelow, ih hlt]
      have hn : (Operation.replace i (i + 1)).perform files n = files n := by
        simp only [Operation.perform]
        rw [Function.update_of_ne (by omega), Function.update_of_ne (by omega)]
      rw [hn]
    · obtain rfl : n = i + 1 := by omega
      have hlow : keptBelow i ((Operation.replace i (i + 1)).perform files) = keptBelow i files := by
        refine keptBelow_congr fun j hj => ?_
        simp only [Operation.perform]
        rw [Function.update_of_ne (by omega), Function.update_of_ne (by omega)]
      simp only [keptBelow, hlow, hfree]
      simp [Operation.perform]

theorem keptBelow_write (hn : 0 < n) :
    keptBelow n ((Operation.write line).perform files) = keptBelow n files ++ [line] := by
  induction n with
  | zero => omega
  | succ n ih =>
    rw [keptBelow, keptBelow]
    cases n with
    | zero => simp [keptBelow, Operation.perform]
    | succ n => rw [ih n.succ_pos, Operation.perform, Function.update_of_ne (by omega), List.append_assoc]

/-! ## What an operation keeps -/

/-- The files are those that are read, within their bounds, and hold the end of the lines. -/
structure Sound (maxBytes n : ℕ) (files : Files) (lines : List Bytes) : Prop where
  below : ∀ i, (files i).isSome → i < n
  size : ∀ i file, files i = some file → file.size ≤ maxBytes
  tail : keptBelow n files <:+ lines

namespace Sound

theorem empty : Sound maxBytes n noFiles [] := by
  refine ⟨fun i hi => by simp [noFiles] at hi, fun i file hfile => by simp [noFiles] at hfile, ?_⟩
  have hnothing : ∀ m, keptBelow m noFiles = [] := by
    intro m
    induction m with
    | zero => rfl
    | succ m ih => rw [keptBelow, ih]; rfl
  rw [hnothing]

theorem respects (h : Sound maxBytes (n + 1) files lines) : Respects maxBytes (n + 1) files lines := by
  refine ⟨?_, h.size, fun i hi => (mem_persistedPaths n.succ_pos).2 (h.below i hi), ?_⟩
  · have hsub : {i | (files i).isSome} ⊆ ↑(Finset.range (n + 1)) := by
      intro i hi
      simpa using h.below i hi
    refine (Set.encard_le_encard hsub).trans ?_
    rw [Set.encard_coe_eq_coe_finsetCard, Finset.card_range]
  · rw [kept_eq]
    exact h.tail

theorem replace (h : Sound maxBytes n files lines) (hfree : files (i + 1) = none) (hi : i + 1 < n) :
    Sound maxBytes n ((Operation.replace i (i + 1)).perform files) lines := by
  refine ⟨fun j hj => ?_, fun j file hfile => ?_, ?_⟩
  · by_cases hnext : j = i + 1
    · omega
    · by_cases hold : j = i
      · omega
      · simp only [Operation.perform] at hj
        rw [Function.update_of_ne hold, Function.update_of_ne hnext] at hj
        exact h.below j hj
  · by_cases hold : j = i
    · subst hold
      simp [Operation.perform] at hfile
    · simp only [Operation.perform] at hfile
      rw [Function.update_of_ne hold] at hfile
      by_cases hnext : j = i + 1
      · subst hnext
        rw [Function.update_self] at hfile
        exact h.size i file hfile
      · rw [Function.update_of_ne hnext] at hfile
        exact h.size j file hfile
  · rw [keptBelow_replace hfree hi]
    exact h.tail

theorem unlink (h : Sound maxBytes 1 files lines) : Sound maxBytes 1 ((Operation.unlink 0).perform files) lines := by
  have hzero : ∀ j, (Operation.unlink 0).perform files j ≠ none → j ≠ 0 ∧ files j ≠ none := by
    intro j hj
    by_cases hj0 : j = 0
    · subst hj0
      simp [Operation.perform] at hj
    · simp only [Operation.perform, Function.update_of_ne hj0] at hj
      exact ⟨hj0, hj⟩
  refine ⟨fun j hj => ?_, fun j file hfile => ?_, ?_⟩
  · exact h.below j (Option.isSome_iff_ne_none.2 (hzero j (Option.isSome_iff_ne_none.1 hj)).2)
  · have hne := (hzero j (by rw [hfile]; simp)).1
    simp only [Operation.perform, Function.update_of_ne hne] at hfile
    exact h.size j file hfile
  · simp [keptBelow, Operation.perform]

theorem write (h : Sound maxBytes n files lines) (hn : 0 < n)
    (hroom : currentSize files + line.length ≤ maxBytes) :
    Sound maxBytes n ((Operation.write line).perform files) (lines ++ [line]) := by
  refine ⟨fun j hj => ?_, fun j file hfile => ?_, ?_⟩
  · by_cases hj0 : j = 0
    · omega
    · simp only [Operation.perform, Function.update_of_ne hj0] at hj
      exact h.below j hj
  · by_cases hj0 : j = 0
    · subst hj0
      simp only [Operation.perform, Function.update_self, Option.some.injEq] at hfile
      subst hfile
      simpa [File.size, currentSize] using hroom
    · simp only [Operation.perform, Function.update_of_ne hj0] at hfile
      exact h.size j file hfile
  · rw [keptBelow_write hn]
    obtain ⟨before, hbefore⟩ := h.tail
    exact ⟨before, by rw [← hbefore, List.append_assoc]⟩

/-- A rotation that begins below a free index keeps every line, and frees the current file. -/
theorem rotateFrom (index : ℕ) (h : Sound maxBytes n files lines) (hfree : files (index + 1) = none)
    (hi : index + 1 < n) : Throughout (Sound maxBytes n) files lines (Journal.rotateFrom n index files) ∧
      written (Journal.rotateFrom n index files) = [] ∧
      performed files (Journal.rotateFrom n index files) 0 = none := by
  induction index generalizing files with
  | zero =>
    unfold Journal.rotateFrom
    split
    · refine ⟨⟨h, ?_⟩, rfl, by simp [performed, Operation.perform]⟩
      simpa [Throughout, written] using h.replace hfree hi
    · rename_i hnone
      exact ⟨h, rfl, Option.not_isSome_iff_eq_none.1 hnone⟩
  | succ index ih =>
    unfold Journal.rotateFrom
    split
    · rw [if_neg (by omega)]
      have hnext := h.replace hfree hi
      obtain ⟨hall, hwritten, hcurrent⟩ := ih hnext (by simp [Operation.perform]) (by omega)
      refine ⟨⟨h, ?_⟩, ?_, ?_⟩
      · simpa [written] using hall
      · simpa [written] using hwritten
      · exact hcurrent
    · rename_i hnone
      exact ih h (by simpa using hnone) (by omega)

/-- A rotation keeps the end of the lines, if there is one file or the last index is free. -/
theorem rotate (h : Sound maxBytes n files lines) (hn : 0 < n) (hfree : n = 1 ∨ files (n - 1) = none) :
    Throughout (Sound maxBytes n) files lines (Journal.rotate n files) ∧
      written (Journal.rotate n files) = [] ∧ performed files (Journal.rotate n files) 0 = none := by
  unfold Journal.rotate
  split
  · obtain rfl : n = 1 := by omega
    split
    · refine ⟨⟨h, ?_⟩, rfl, by simp [performed, Operation.perform]⟩
      simpa [Throughout, written] using h.unlink
    · rename_i hnone
      exact ⟨h, rfl, Option.not_isSome_iff_eq_none.1 hnone⟩
  · obtain ⟨index, rfl⟩ : ∃ index, n = index + 2 := ⟨n - 2, by omega⟩
    have hlast : files (index + 1) = none := by
      rcases hfree with hone | hnone
      · omega
      · exact hnone
    -- nothing is done at the last index, so that the loop goes on below it
    rw [show index + 2 - 1 = index + 1 from rfl, Journal.rotateFrom, if_neg (by simp [hlast])]
    exact h.rotateFrom index hlast (by omega)

end Sound

/-! ## Persisting -/

theorem throughout_last (h : Throughout P files lines operations) :
    P (performed files operations) (lines ++ written operations) :=
  throughout_iff.1 h operations (List.prefix_refl _)

/-- A write that finds room, or can make it without a loss of order, keeps the bounds. -/
theorem Sound.persist (h : Sound maxBytes n files lines) (hn : 0 < n)
    (hfree : NoRoom maxBytes files line → n = 1 ∨ files (n - 1) = none) :
    Throughout (Sound maxBytes n) files lines (Journal.persist maxBytes n files line) := by
  have hrotation : ∃ rotation size, Journal.persist maxBytes n files line =
        (if size + line.length > maxBytes then rotation else rotation ++ [.write line]) ∧
      Throughout (Sound maxBytes n) files lines rotation ∧ written rotation = [] ∧
      currentSize (performed files rotation) = size := by
    by_cases hroom : NoRoom maxBytes files line
    · obtain ⟨hall, hwritten, hcurrent⟩ := h.rotate hn (hfree hroom)
      refine ⟨_, 0, by rw [Journal.persist, if_pos hroom, if_pos hroom], hall, hwritten, ?_⟩
      rw [currentSize, hcurrent]
      rfl
    · exact ⟨[], currentSize files, by rw [Journal.persist, if_neg hroom, if_neg hroom], h, rfl, rfl⟩
  obtain ⟨rotation, size, hpersist, hall, hwritten, hsize⟩ := hrotation
  rw [hpersist]
  split
  · exact hall
  · rename_i hroom
    have hlast := throughout_last hall
    refine throughout_append.2 ⟨hall, hlast, ?_⟩
    have hwrite := @Sound.write _ _ _ line _ hlast hn (by rw [hsize]; omega)
    simpa [Throughout, written] using hwrite

theorem persistAll_append (files : Files) (as bs : List Bytes) :
    persistAll maxBytes maxFiles files (as ++ bs) = persistAll maxBytes maxFiles files as ++
      persistAll maxBytes maxFiles (performed files (persistAll maxBytes maxFiles files as)) bs := by
  induction as generalizing files with
  | nil => rfl
  | cons line as ih => simp only [List.cons_append, persistAll, ih, performed_append, List.append_assoc]

/-- The files after these lines, from an empty directory. -/
def after (maxBytes maxFiles : ℕ) (lines : List Bytes) : Files :=
  performed noFiles (persistAll maxBytes maxFiles noFiles lines)

/-- The lines written of these. -/
def writtenOf (maxBytes maxFiles : ℕ) (lines : List Bytes) : List Bytes :=
  written (persistAll maxBytes maxFiles noFiles lines)

theorem persistAll_snoc (earlier : List Bytes) : persistAll maxBytes maxFiles noFiles (earlier ++ [line]) =
    persistAll maxBytes maxFiles noFiles earlier ++
      persist maxBytes maxFiles (after maxBytes maxFiles earlier) line := by
  rw [persistAll_append, persistAll, persistAll, List.append_nil]
  rfl

theorem after_snoc (earlier : List Bytes) : after maxBytes maxFiles (earlier ++ [line]) =
    performed (after maxBytes maxFiles earlier)
      (persist maxBytes maxFiles (after maxBytes maxFiles earlier) line) := by
  rw [after, persistAll_snoc, performed_append]
  rfl

theorem writtenOf_snoc (earlier : List Bytes) : writtenOf maxBytes maxFiles (earlier ++ [line]) =
    writtenOf maxBytes maxFiles earlier ++
      written (persist maxBytes maxFiles (after maxBytes maxFiles earlier) line) := by
  rw [writtenOf, persistAll_snoc, written_append]
  rfl

/-- No write of these lines rotates while the last index is taken. -/
def NeverTaken (maxBytes maxFiles : ℕ) (lines : List Bytes) : Prop :=
  ∀ earlier line later, lines = earlier ++ line :: later →
    NoRoom maxBytes (after maxBytes maxFiles earlier) line →
    after maxBytes maxFiles earlier (maxFiles - 1) = none

/-- The files stay sound over the lines that come after some. -/
theorem persistAll_sound (hn : 0 < n) (hfree : n = 1 ∨ NeverTaken maxBytes n lines) {earlier later : List Bytes}
    (hlines : lines = earlier ++ later)
    (h : Sound maxBytes n (after maxBytes n earlier) (writtenOf maxBytes n earlier)) :
    Throughout (Sound maxBytes n) (after maxBytes n earlier) (writtenOf maxBytes n earlier)
      (persistAll maxBytes n (after maxBytes n earlier) later) := by
  induction later generalizing earlier with
  | nil => exact h
  | cons line later ih =>
    have hstep := h.persist hn fun hroom =>
      hfree.imp id fun hnever => hnever earlier line later hlines hroom
    have hlast := throughout_last hstep
    rw [← after_snoc, ← writtenOf_snoc] at hlast
    have hrest := ih (by rw [hlines, List.append_assoc]; rfl) hlast
    rw [persistAll, throughout_append, ← after_snoc, ← writtenOf_snoc]
    exact ⟨hstep, hrest⟩

/-- A write that rotates while the last index is taken renames it out of sight. -/
theorem persist_taken (hn : 2 ≤ n) (hroom : NoRoom maxBytes files line) (htaken : (files (n - 1)).isSome) :
    [Operation.replace (n - 1) n] <+: Journal.persist maxBytes n files line := by
  obtain ⟨index, rfl⟩ : ∃ index, n = index + 2 := ⟨n - 2, by omega⟩
  have htaken : (files (index + 1)).isSome := htaken
  have hrotate : [Operation.replace (index + 1) (index + 2)] <+: Journal.rotate (index + 2) files := by
    rw [Journal.rotate, if_neg (by omega), show index + 2 - 1 = index + 1 from rfl, rotateFrom,
      if_pos htaken, if_neg (by omega)]
    exact ⟨_, rfl⟩
  rw [Journal.persist, if_pos hroom, if_pos hroom]
  split
  · exact hrotate
  · exact hrotate.trans (List.prefix_append _ _)

/-- **The journal keeps to its bounds, and keeps the end of what was written, exactly when
    no write rotates while the last index is taken.** -/
theorem rotation_respects_iff (maxBytes : ℕ) {maxFiles : ℕ} (h : 0 < maxFiles) (lines : List Bytes) :
    (∀ operations, operations <+: persistAll maxBytes maxFiles noFiles lines →
      Respects maxBytes maxFiles (performed noFiles operations) (written operations)) ↔
    (maxFiles = 1 ∨ NeverTaken maxBytes maxFiles lines) := by
  constructor
  · intro hrespects
    rcases Nat.lt_or_ge maxFiles 2 with hone | htwo
    · exact .inl (by omega)
    · refine .inr fun earlier line later hlines hroom => ?_
      by_contra htaken
      have htaken := Option.ne_none_iff_isSome.1 htaken
      have hbegins : persistAll maxBytes maxFiles noFiles earlier ++ [.replace (maxFiles - 1) maxFiles] <+:
          persistAll maxBytes maxFiles noFiles lines := by
        have hwrite := (List.prefix_append_right_inj (persistAll maxBytes maxFiles noFiles earlier)).2
          (persist_taken htwo hroom htaken)
        rw [← persistAll_snoc] at hwrite
        rw [hlines, show earlier ++ line :: later = (earlier ++ [line]) ++ later by simp, persistAll_append]
        exact hwrite.trans (List.prefix_append _ _)
      have hout : (performed noFiles (persistAll maxBytes maxFiles noFiles earlier ++
          [.replace (maxFiles - 1) maxFiles]) maxFiles).isSome := by
        rw [performed_append]
        exact (congrArg Option.isSome (perform_replace (by omega))).trans htaken
      have hread := (mem_persistedPaths h).1 ((hrespects _ hbegins).read maxFiles hout)
      exact absurd hread (Nat.lt_irrefl _)
  · intro hfree operations hoperations
    obtain ⟨n, rfl⟩ : ∃ n, maxFiles = n + 1 := ⟨maxFiles - 1, by omega⟩
    have hall := @persistAll_sound _ _ _ h hfree [] _ rfl .empty
    exact (throughout_iff.1 hall operations hoperations).respects

section Runs

/-- An event as `connection_open` records it. -/
def openEvent : Event :=
  cleaned [(lit "connection_id", .str (lit "0123456789abcdef")), (lit "generation", .int 7)]
    (lit "2026-09-05T00:00:00.000Z") (.str (lit "connection_open")) (.str (lit "success")) .null .null

/-- Its line, in files that have room for one. -/
def openLine : Bytes := (journalLine 512 openEvent).getD []

example : journalLine 512 openEvent = some openLine ∧ openLine.length = 348 := by decide +kernel

theorem rotation_respects_iff_two :
    Respects 512 2 (performed noFiles (persistAll 512 2 noFiles [openLine, openLine]))
      (written (persistAll 512 2 noFiles [openLine, openLine])) := by
  refine (rotation_respects_iff 512 (by decide) [openLine, openLine]).2 (.inr ?_) _ (List.prefix_refl _)
  rintro earlier line later hlines -
  rcases earlier with _ | ⟨first, _ | ⟨second, earlier⟩⟩
  · rfl
  · obtain ⟨rfl, -⟩ := List.cons.inj hlines
    decide +kernel
  · have hlength := congrArg List.length hlines
    simp at hlength

/-- Three lines that fill a file each leave a third file where two are allowed, and the
    first line where no reader looks. -/
theorem rotation_three_files :
    ¬ ∀ operations, operations <+: persistAll 512 2 noFiles [openLine, openLine, openLine] →
      Respects 512 2 (performed noFiles operations) (written operations) := by
  intro h
  have hread := (h _ (List.prefix_refl _)).read 2 (by decide +kernel)
  exact absurd hread (by decide)

end Runs

end Journal

end MercuryRelay
