import LunaCore.Storage.Local
import Mathlib.Data.List.Nodup

/-! The local storage as what it stands for: a map from paths to bytes.

        upload a/b/c     a, a/b become directories, and stay           c is stored
        upload a/b       refused, a/b is a directory by now            nothing changes
        upload a/b/c/d   refused, a/b/c is a file                      nothing changes
        upload_path      refused, from a/b/c to itself                 nothing changes
        delete a/b/c/d   refused, a/b/c is a file                      nothing changes
        delete a/b/c     the directories stay                          c is gone

    A write that is refused half way may leave directories behind. They hold nothing, so to whoever
    reads contents it never happened. -/

namespace LunaCore.Storage
open LunaCore.Schemes LunaCore.Providers

/-- What is stored at a path. -/
def FileSystem.content (fs : FileSystem) (path : CanonicalPath) : Option Bytes :=
  match fs path with
  | some (.file content) => some content
  | _ => none

/-- A file can be written or removed there: no file stands where a directory is needed, nor a
    directory in the file's place. -/
def FileSystem.Writable (fs : FileSystem) (target : CanonicalPath) : Prop :=
  (∀ path ∈ target.dropLast.inits, fs.content path = none) ∧ fs target ≠ some .directory

instance (fs : FileSystem) (target : CanonicalPath) : Decidable (fs.Writable target) :=
  inferInstanceAs (Decidable (_ ∧ _))

/-- One path and what is stored there from now on. -/
abbrev Write := CanonicalPath × Option Bytes

/-- The contents once that was written, if anything was. -/
def applied (write : Option Write) (contents : CanonicalPath → Option Bytes) :
    CanonicalPath → Option Bytes :=
  match write with
  | some (target, content) => fun path => if path = target then content else contents path
  | none => contents

section
variable (resolve : PurePath → CanonicalPath) (repr : String → String)

/-- What can be copied from a file of the caller's to a path: its content, unless it is the file at
    that path. -/
def FileSystem.copied (fs : FileSystem) (target : CanonicalPath) : Source → Option Bytes
  | .elsewhere content => content
  | .within path => if path = target then none else fs.content path

/-- What an operation writes to a writable path: an upload its file, a removal nothing. -/
def LocalStorageBackend.writes (self : LocalStorageBackend) (op : Operation) : Option Write :=
  match op with
  | .upload file key =>
    (self.resolveKey resolve repr key).toOption.bind fun target =>
      if self.fs.Writable target then some (target, some file) else none
  | .uploadPath source key =>
    (self.resolveKey resolve repr key).toOption.bind fun target =>
      if self.fs.Writable target then (self.fs.copied target source).map (target, some ·) else none
  | .delete key =>
    (self.resolveKey resolve repr key).toOption.bind fun target =>
      if self.fs.Writable target then some (target, none) else none
  | _ => none

/-- The contents after a run, as the writes of its operations tell. -/
def LocalStorageBackend.replay (contents : CanonicalPath → Option Bytes) :
    LocalStorageBackend → List Operation → CanonicalPath → Option Bytes
  | _, [] => contents
  | self, op :: ops =>
    replay (applied (self.writes resolve repr op) contents) (self.after resolve repr op) ops

end

/-! ### One write -/

variable {fs : FileSystem} {target path : CanonicalPath}

theorem content_set_file (data : Bytes) :
    (fs.set target (some (.file data))).content = applied (some (target, some data)) fs.content := by
  funext path
  by_cases h : path = target <;> simp [FileSystem.content, FileSystem.set, applied, h]

theorem content_set_none :
    (fs.set target none).content = applied (some (target, none)) fs.content := by
  funext path
  by_cases h : path = target <;> simp [FileSystem.content, FileSystem.set, applied, h]

/-- Making directories changes no content. -/
theorem content_makeDirs (fs : FileSystem) (paths : List CanonicalPath) :
    (makeDirs fs paths).fs.content = fs.content := by
  induction paths generalizing fs with
  | nil => rfl
  | cons first below ih =>
    rw [makeDirs]
    split
    · exact ih fs
    · rfl
    · next hnone =>
      refine (ih _).trans ?_
      funext path
      by_cases h : path = first
      · subst h
        simp [FileSystem.content, hnone]
      · simp [FileSystem.content, fs.set_other _ h]

theorem makeDirs_other {paths : List CanonicalPath} (h : path ∉ paths) :
    (makeDirs fs paths).fs path = fs path := by
  induction paths generalizing fs with
  | nil => rfl
  | cons first below ih =>
    rw [List.mem_cons, not_or] at h
    obtain ⟨hfirst, hbelow⟩ := h
    rw [makeDirs]
    split
    · exact ih hbelow
    · rfl
    · exact (ih hbelow).trans (fs.set_other _ hfirst)

/-- Directories can be made where no file is in the way. -/
theorem makeDirs_ok_iff {paths : List CanonicalPath} (hpaths : paths.Nodup) :
    (makeDirs fs paths).result = .ok () ↔ ∀ path ∈ paths, fs.content path = none := by
  induction paths generalizing fs with
  | nil => simp [makeDirs]
  | cons first below ih =>
    obtain ⟨hfirst, hbelow⟩ := List.nodup_cons.mp hpaths
    rw [makeDirs, List.forall_mem_cons]
    split
    · next hdir =>
      rw [ih hbelow]
      simp [FileSystem.content, hdir]
    · next data hfile => simp [FileSystem.content, hfile]
    · next hnone =>
      have hsame : ∀ path ∈ below,
          (fs.set first (some .directory)).content path = fs.content path := by
        intro path hpath
        have hne : path ≠ first := fun heq => hfirst (heq ▸ hpath)
        simp [FileSystem.content, fs.set_other _ hne]
      simp only [ih hbelow]
      rw [forall₂_congr fun path hpath => by rw [hsame path hpath]]
      simp [FileSystem.content, hnone]

theorem nodup_inits {α : Type*} (l : List α) : l.inits.Nodup := by
  induction l with
  | nil => simp
  | cons a l ih =>
    rw [List.inits_cons, List.nodup_cons]
    exact ⟨by simp, List.Nodup.map List.cons_injective ih⟩

theorem fileAbove_eq_none_iff :
    fs.fileAbove target = none ↔ ∀ path ∈ target.dropLast.inits, fs.content path = none := by
  rw [FileSystem.fileAbove, List.find?_eq_none]
  refine forall₂_congr fun path _ => ?_
  unfold FileSystem.isFile FileSystem.content
  cases fs path with
  | none => simp
  | some node => cases node <;> simp

/-- Making the directories above a path leaves the path itself as it is. -/
theorem makeParents_target (hroot : fs [] = some .directory) :
    (makeDirs fs target.dropLast.inits).fs target = fs target := by
  by_cases hnil : target = []
  · subst hnil
    rw [hroot]
    exact makeDirs_directory hroot
  · refine makeDirs_other fun hmem => ?_
    have hlength := ((List.mem_inits _ _).mp hmem).length_le
    rw [List.length_dropLast] at hlength
    have := List.length_pos_iff.mpr hnil
    omega

/-- The data is put at the path if it may be and there is some; otherwise no content changes. -/
structure Puts (fs : FileSystem) (target : CanonicalPath) (may : Prop) [Decidable may]
    (data : Option Bytes) (effect : Effect Unit) : Prop where
  ok : effect.result = .ok () ↔ may ∧ data.isSome
  content : effect.fs.content =
    applied (if may then data.map (target, some ·) else none) fs.content

theorem puts_none {may : Prop} [Decidable may] {failure : Failure} {touched : List CanonicalPath} :
    Puts fs target may none ⟨.error failure, fs, touched⟩ := ⟨by simp, by simp [applied]⟩

theorem puts_writeFile (data : Bytes) :
    Puts fs target (fs target ≠ some .directory) data (writeFile fs target data) := by
  rw [writeFile]
  split
  · next hdir => exact ⟨by simp [hdir], by simp [hdir, applied]⟩
  · next hnot => exact ⟨iff_of_true rfl ⟨hnot, rfl⟩, by rw [if_pos hnot, content_set_file]; rfl⟩

/-- What is put at a path once the directories above it are made. -/
theorem Puts.next {act : FileSystem → Effect Unit} {data : Option Bytes}
    (hroot : fs [] = some .directory)
    (hact : ∀ made : FileSystem, made.content = fs.content →
      Puts made target (made target ≠ some .directory) data (act made)) :
    Puts fs target (fs.Writable target) data ((makeDirs fs target.dropLast.inits).next act) := by
  have hparents := content_makeDirs fs target.dropLast.inits
  rw [Effect.next]
  cases hmade : (makeDirs fs target.dropLast.inits).result with
  | error failure =>
    have hno : ¬ fs.Writable target := fun h => by
      rw [(makeDirs_ok_iff (nodup_inits _)).mpr h.1] at hmade
      cases hmade
    exact ⟨iff_of_false (by simp) fun h => hno h.1, by rw [if_neg hno]; exact hparents⟩
  | ok =>
    have hwritable : fs.Writable target ↔ fs target ≠ some .directory :=
      and_iff_right ((makeDirs_ok_iff (nodup_inits _)).mp hmade)
    obtain ⟨hok, hcontent⟩ := hact _ hparents
    rw [makeParents_target hroot] at hok
    simp only [makeParents_target hroot, hparents] at hcontent
    exact ⟨hok.trans (and_congr_left' hwritable.symm), by simp only [hcontent, hwritable]⟩

/-- SPEC: a file is written where it can be, and otherwise no content changes. -/
theorem puts_writeBytes (target : CanonicalPath) (data : Bytes) (hroot : fs [] = some .directory) :
    Puts fs target (fs.Writable target) data (writeBytes fs target data) :=
  Puts.next hroot fun _ _ => puts_writeFile data

theorem readFile_ok_iff (content : Bytes) :
    (readFile fs target).result = .ok content ↔ fs.content target = some content := by
  unfold readFile FileSystem.content
  cases fs target with
  | none => simp
  | some node => cases node <;> simp

theorem readFile_fs : (readFile fs target).fs = fs := by
  rw [readFile]
  split <;> rfl

theorem puts_copyContent (source : Source) : Puts fs target (fs target ≠ some .directory)
    (fs.copied target source) (copyContent fs source target) := by
  cases source with
  | elsewhere content =>
    cases content with
    | some data => exact puts_writeFile data
    | none => exact puts_none
  | within path =>
    rw [copyContent, FileSystem.copied]
    by_cases hsame : path = target
    · rw [if_pos hsame]
      split
      · exact puts_none
      · next hnot =>
        have hmissing : fs target = none := by simpa [hsame] using hnot
        rw [hsame, readFile, hmissing]
        exact puts_none
    · rw [if_neg hsame, if_neg fun h => hsame h.1]
      cases hread : (readFile fs path).result with
      | ok data =>
        rw [(readFile_ok_iff data).mp hread]
        exact puts_writeFile data
      | error failure =>
        have hnone : fs.content path = none := by
          rw [Option.eq_none_iff_forall_ne_some]
          intro data hdata
          rw [(readFile_ok_iff data).mpr hdata] at hread
          cases hread
        rw [hnone]
        exact puts_none

/-- SPEC: a file is copied where it can be, and otherwise no content changes. -/
theorem puts_copyFile (target : CanonicalPath) (source : Source) (hroot : fs [] = some .directory) :
    Puts fs target (fs.Writable target) (fs.copied target source) (copyFile fs source target) := by
  refine Puts.next hroot fun made hcontent => ?_
  have hcopied : fs.copied target source = made.copied target source := by
    cases source with
    | elsewhere content => rfl
    | within path => simp only [FileSystem.copied, hcontent]
  rw [hcopied]
  exact puts_copyContent source

/-- SPEC: what is no directory is removed where no file is in the way, and otherwise no content
    changes. -/
theorem safeRemove_content (fs : FileSystem) (target : CanonicalPath) :
    ((safeRemove fs target).result = .ok () ↔ fs.Writable target) ∧
      (safeRemove fs target).fs.content =
        applied (if fs.Writable target then some (target, none) else none) fs.content := by
  rw [safeRemove]
  split
  case h_1 path habove =>
    have hno : ¬ fs.Writable target := fun h => by
      rw [fileAbove_eq_none_iff.mpr h.1] at habove
      cases habove
    rw [if_neg hno]
    exact ⟨iff_of_false (by simp) hno, rfl⟩
  case h_2 habove =>
    have hwritable : fs.Writable target ↔ fs target ≠ some .directory :=
      and_iff_right (fileAbove_eq_none_iff.mp habove)
    simp only [hwritable]
    split
    · next hdir => simp [hdir, applied]
    · next hfile => simp [hfile, content_set_none]
    · next hnone =>
      refine ⟨by simp [hnone], ?_⟩
      rw [if_pos (by simp [hnone])]
      funext path
      by_cases h : path = target
      · simp [applied, h, FileSystem.content, hnone]
      · simp [applied, h]

/-! ### One operation -/

section
variable {resolve : PurePath → CanonicalPath} {repr : String → String}
  {self : LocalStorageBackend}

theorem next_done_fs {first : Effect Unit} {answer : Answer} :
    (first.next fun fs => ⟨.ok answer, fs, []⟩).fs = first.fs := by
  rw [Effect.next]
  split <;> rfl

theorem next_done_ok_iff {first : Effect Unit} {answer : Answer} :
    (∃ a, (first.next fun fs => ⟨.ok answer, fs, []⟩).result = .ok a) ↔ first.result = .ok () := by
  rw [Effect.next]
  cases first.result <;> simp

/-- What only looks leaves the file system as it is. -/
theorem withTarget_fs {key : String} {act : CanonicalPath → Effect Answer}
    (h : ∀ target, (act target).fs = self.fs) :
    (self.withTarget resolve repr key act).fs = self.fs := by
  rw [LocalStorageBackend.withTarget]
  split
  · exact h _
  · rfl

/-- The operation is one that writes: an upload, or a removal. -/
def Operation.isWrite : Operation → Bool
  | .upload .. | .uploadPath .. | .delete _ => true
  | _ => false

/-- STEP: an operation changes the contents by what it writes, and one that is to write succeeds
    just when it writes something. -/
theorem after_content (op : Operation) :
    (self.after resolve repr op).fs.content =
        applied (self.writes resolve repr op) self.fs.content ∧
      (op.isWrite = true → ((∃ answer, (self.run resolve repr op).result = .ok answer) ↔
        (self.writes resolve repr op).isSome)) := by
  have hroot : self.fs [] = some .directory := self.mounted [] List.nil_prefix
  change (self.run resolve repr op).fs.content = _ ∧ _
  cases op with
  | upload file key =>
    rw [LocalStorageBackend.run, LocalStorageBackend.upload, LocalStorageBackend.writes]
    cases hkey : self.resolveKey resolve repr key with
    | error failure =>
      rw [withTarget_error hkey]
      exact ⟨rfl, fun _ => by simp [Except.toOption]⟩
    | ok target =>
      have hputs := puts_writeBytes target file hroot
      rw [withTarget_ok hkey, next_done_fs, next_done_ok_iff, hputs.content, hputs.ok]
      exact ⟨rfl, fun _ => by simp [Except.toOption]⟩
  | uploadPath source key =>
    rw [LocalStorageBackend.run, LocalStorageBackend.uploadPath, LocalStorageBackend.writes]
    cases hkey : self.resolveKey resolve repr key with
    | error failure =>
      rw [withTarget_error hkey]
      exact ⟨rfl, fun _ => by simp [Except.toOption]⟩
    | ok target =>
      have hputs := puts_copyFile target source hroot
      rw [withTarget_ok hkey, next_done_fs, next_done_ok_iff, hputs.content, hputs.ok]
      refine ⟨rfl, fun _ => ?_⟩
      by_cases hwritable : self.fs.Writable target <;> simp [Except.toOption, hwritable]
  | delete key =>
    rw [LocalStorageBackend.run, LocalStorageBackend.delete, LocalStorageBackend.writes]
    cases hkey : self.resolveKey resolve repr key with
    | error failure =>
      rw [withTarget_error hkey]
      exact ⟨rfl, fun _ => by simp [Except.toOption]⟩
    | ok target =>
      obtain ⟨hok, hcontent⟩ := safeRemove_content self.fs target
      rw [withTarget_ok hkey, next_done_fs, next_done_ok_iff, hcontent, hok]
      exact ⟨rfl, fun _ => by simp [Except.toOption]⟩
  | download key =>
    refine ⟨?_, by simp [Operation.isWrite]⟩
    rw [LocalStorageBackend.run, LocalStorageBackend.download, withTarget_fs fun _ => readFile_fs]
    rfl
  | downloadToPath key destination =>
    refine ⟨?_, by simp [Operation.isWrite]⟩
    rw [LocalStorageBackend.run, LocalStorageBackend.downloadToPath, withTarget_fs fun target => ?_]
    · rfl
    · cases destination with
      | true => exact readFile_fs
      | false => rfl
  | localPath key =>
    refine ⟨?_, by simp [Operation.isWrite]⟩
    rw [LocalStorageBackend.run, LocalStorageBackend.localPath, withTarget_fs fun _ => rfl]
    rfl
  | getUrl key => exact ⟨rfl, by simp [Operation.isWrite]⟩

theorem content_download_iff {key : String} {content : Bytes} :
    (self.run resolve repr (.download key)).result = .ok (.content content) ↔
      ∃ target, self.resolveKey resolve repr key = .ok target ∧
        self.fs.content target = some content := by
  rw [LocalStorageBackend.run, LocalStorageBackend.download]
  cases hkey : self.resolveKey resolve repr key with
  | error failure => simp [withTarget_error hkey]
  | ok target =>
    rw [withTarget_ok hkey, Effect.map]
    simp only [map_eq_ok_iff, Answer.content.injEq, exists_eq_right, readFile_ok_iff,
      Except.ok.injEq, exists_eq_left']

/-! ### Runs -/

variable (resolve repr) in
/-- The storage after a run. -/
def LocalStorageBackend.afterAll (self : LocalStorageBackend) (ops : List Operation) :
    LocalStorageBackend :=
  ops.foldl (fun storage op => storage.after resolve repr op) self

theorem afterAll_content (ops : List Operation) {contents : CanonicalPath → Option Bytes}
    (h : self.fs.content = contents) : (self.afterAll resolve repr ops).fs.content =
      LocalStorageBackend.replay resolve repr contents self ops := by
  induction ops generalizing self contents with
  | nil => exact h
  | cons op ops ih =>
    rw [LocalStorageBackend.replay, ← h]
    exact ih (after_content op).1

/-- A run does not move the root, so it does not change what a key stands for. -/
theorem resolveKey_afterAll (ops : List Operation) (key : String) :
    (self.afterAll resolve repr ops).resolveKey resolve repr key =
      self.resolveKey resolve repr key := by
  induction ops generalizing self with
  | nil => rfl
  | cons op ops ih => exact ih

/-- REFINEMENT: in any run of operations a write succeeds just when its path can be written, one
    that fails changes no content, and after the run a download gives just what the last write to
    the path of its key stored there, under whatever key, and nothing where that was a removal. -/
theorem storage_run (ops : List Operation) :
    (∀ before op behind, ops = before ++ op :: behind → op.isWrite = true →
      ((∃ answer, ((self.afterAll resolve repr before).run resolve repr op).result = .ok answer) ↔
        ((self.afterAll resolve repr before).writes resolve repr op).isSome)) ∧
    ∀ key content, ((self.afterAll resolve repr ops).run resolve repr (.download key)).result =
        .ok (.content content) ↔
      ∃ target, self.resolveKey resolve repr key = .ok target ∧
        LocalStorageBackend.replay resolve repr self.fs.content self ops target = some content := by
  constructor
  · intro before op behind _ hwrite
    exact (after_content op).2 hwrite
  · intro key content
    rw [content_download_iff, resolveKey_afterAll, afterAll_content ops rfl]

end

end LunaCore.Storage
