import LunaCore.Schemes.Fallible
import LunaCore.Schemes.Joined
import LunaCore.Providers.StdoutLines
import Mathlib.Data.List.DropRight
import Mathlib.Data.List.Infix

/-! Does a key of the local storage reach only what is under its root?

        root            /srv/data
        key a/b         /srv/data/a/b            inside
        key ../x        /srv/x                   the text does not begin with the root's: refused
        key ../data2/x  /srv/data2/x             the text does, the names do not
        key (empty)     /srv/data                the root itself

    What a path resolves to is the file system's to say: `resolve` gives a canonical absolute path,
    and nothing more is known of it. -/

namespace LunaCore.Storage
open LunaCore.Schemes LunaCore.Providers

/-- What can stand between two slashes of a canonical path. -/
def ValidName (name : List Char) : Prop :=
  name ≠ [] ∧ name ≠ ['.'] ∧ name ≠ ['.', '.'] ∧ '/' ∉ name

instance (name : List Char) : Decidable (ValidName name) := inferInstanceAs (Decidable (_ ∧ _))

abbrev Name := { name : List Char // ValidName name }

/-- A canonical absolute path: its names, from the top. -/
abbrev CanonicalPath := List Name

/-- A name of a path as it was written, or `..`. -/
inductive Segment where
  | parent
  | name (name : Name)
  deriving DecidableEq

/-- A path as it was written. -/
structure PurePath where
  absolute : Bool
  segments : List Segment

/-- An empty segment and `.` say nothing. -/
def segmentOf (text : List Char) : Option Segment :=
  if text = ['.', '.'] then some .parent
  else if h : ValidName text then some (.name ⟨text, h⟩) else none

def PurePath.parse (text : String) : PurePath where
  absolute := text.toList.head? = some '/'
  segments := (text.toList.splitOn '/').filterMap segmentOf

/-- `root / key`: an absolute key stands for itself. -/
def CanonicalPath.join (root : CanonicalPath) (key : PurePath) : PurePath :=
  if key.absolute then key else ⟨true, root.map .name ++ key.segments⟩

/-- `str(path)`. -/
def CanonicalPath.str (path : CanonicalPath) : List Char :=
  if path = [] then ['/'] else joined '/' (path.map Subtype.val)

inductive Node where
  | file (content : Bytes)
  | directory
  deriving DecidableEq

abbrev FileSystem := CanonicalPath → Option Node

def FileSystem.set (fs : FileSystem) (path : CanonicalPath) (node : Option Node) : FileSystem :=
  fun other => if other = path then node else fs other

@[simp] theorem FileSystem.set_self (fs : FileSystem) (path : CanonicalPath)
    (node : Option Node) : fs.set path node path = node := if_pos rfl

theorem FileSystem.set_other (fs : FileSystem) {path other : CanonicalPath} (node : Option Node)
    (h : other ≠ path) : fs.set path node other = fs other := if_neg h

inductive Failure where
  | valueError (text : String)
  | fileNotFound (path : CanonicalPath)
  | notADirectory (path : CanonicalPath)
  | isADirectory (path : CanonicalPath)
  | fileExists (path : CanonicalPath)
  | sameFile (path : CanonicalPath)
  -- the caller's own file, which `upload_path` copies from and `download_to_path` to
  | callersFile

/-- What an operation did: its result, the file system after it, and the paths it handed to it. -/
structure Effect (α : Type) where
  result : Except Failure α
  fs : FileSystem
  touched : List CanonicalPath

/-- The one and then the other, where the one succeeds. -/
def Effect.next {α : Type} (first : Effect Unit) (second : FileSystem → Effect α) : Effect α :=
  match first.result with
  | .ok () => ⟨(second first.fs).result, (second first.fs).fs,
      first.touched ++ (second first.fs).touched⟩
  | .error failure => ⟨.error failure, first.fs, first.touched⟩

def Effect.map {α β : Type} (f : α → β) (effect : Effect α) : Effect β :=
  ⟨effect.result.map f, effect.fs, effect.touched⟩

/-- `mkdir(parents=True, exist_ok=True)`, over a path's ancestors and itself, the topmost first. -/
def makeDirs (fs : FileSystem) : List CanonicalPath → Effect Unit
  | [] => ⟨.ok (), fs, []⟩
  | path :: below => match fs path with
    | some .directory => makeDirs fs below
    | some (.file _) =>
      ⟨.error (if below = [] then .fileExists path else .notADirectory path), fs, [path]⟩
    | none =>
      let rest := makeDirs (fs.set path (some .directory)) below
      ⟨rest.result, rest.fs, path :: rest.touched⟩

/-- `open(target, "wb")` and the write. -/
def writeFile (fs : FileSystem) (target : CanonicalPath) (data : Bytes) : Effect Unit :=
  match fs target with
  | some .directory => ⟨.error (.isADirectory target), fs, [target]⟩
  | _ => ⟨.ok (), fs.set target (some (.file data)), [target]⟩

def FileSystem.isFile (fs : FileSystem) (path : CanonicalPath) : Bool :=
  match fs path with
  | some (.file _) => true
  | _ => false

/-- A file that stands where a directory above the path is needed. -/
def FileSystem.fileAbove (fs : FileSystem) (target : CanonicalPath) : Option CanonicalPath :=
  target.dropLast.inits.find? fs.isFile

/-- Why nothing is found at a path. -/
def FileSystem.missing (fs : FileSystem) (target : CanonicalPath) : Failure :=
  match fs.fileAbove target with
  | some path => .notADirectory path
  | none => .fileNotFound target

def readFile (fs : FileSystem) (target : CanonicalPath) : Effect Bytes :=
  match fs target with
  | some .directory => ⟨.error (.isADirectory target), fs, [target]⟩
  | some (.file content) => ⟨.ok content, fs, [target]⟩
  | none => ⟨.error (fs.missing target), fs, [target]⟩

def writeBytes (fs : FileSystem) (target : CanonicalPath) (data : Bytes) : Effect Unit :=
  (makeDirs fs target.dropLast.inits).next fun made => writeFile made target data

/-- A file of the caller's: one elsewhere, with its content where it can be read, or whatever is at
    a path of this file system. -/
inductive Source where
  | elsewhere (content : Option Bytes)
  | within (path : CanonicalPath)

/-- `shutil.copyfile`: a file is not copied onto itself, and both files are looked at first. -/
def copyContent (fs : FileSystem) (source : Source) (target : CanonicalPath) : Effect Unit :=
  match source with
  | .elsewhere (some data) => writeFile fs target data
  | .elsewhere none => ⟨.error .callersFile, fs, [target]⟩
  | .within path =>
    if path = target ∧ (fs target).isSome then ⟨.error (.sameFile target), fs, [target]⟩
    else match (readFile fs path).result with
      | .ok data => writeFile fs target data
      | .error failure => ⟨.error failure, fs, [target]⟩

/-- `_copy_file` from a file of the caller. -/
def copyFile (fs : FileSystem) (source : Source) (target : CanonicalPath) : Effect Unit :=
  (makeDirs fs target.dropLast.inits).next fun made => copyContent made source target

/-- `_safe_remove`: only what is not found is passed over. -/
def safeRemove (fs : FileSystem) (target : CanonicalPath) : Effect Unit :=
  match fs.fileAbove target with
  | some path => ⟨.error (.notADirectory path), fs, [target]⟩
  | none => match fs target with
    | some .directory => ⟨.error (.isADirectory target), fs, [target]⟩
    | some (.file _) => ⟨.ok (), fs.set target none, [target]⟩
    | none => ⟨.ok (), fs, [target]⟩

theorem makeDirs_directory {fs : FileSystem} {paths : List CanonicalPath} {path : CanonicalPath}
    (h : fs path = some .directory) : (makeDirs fs paths).fs path = some .directory := by
  induction paths generalizing fs with
  | nil => exact h
  | cons first below ih =>
    rw [makeDirs]
    split
    · exact ih h
    · exact h
    · next hnone =>
      refine ih ?_
      rw [fs.set_other _ fun heq => by simp [← heq, h] at hnone]
      exact h

/-- Where it succeeds, every path is a directory. -/
theorem makeDirs_ok {fs : FileSystem} {paths : List CanonicalPath}
    (h : (makeDirs fs paths).result = .ok ()) :
    ∀ path ∈ paths, (makeDirs fs paths).fs path = some .directory := by
  induction paths generalizing fs with
  | nil => simp
  | cons first below ih =>
    intro path hpath
    rw [makeDirs] at h ⊢
    split at h
    · next hdir =>
      rcases List.mem_cons.mp hpath with rfl | hbelow
      · exact makeDirs_directory hdir
      · exact ih h path hbelow
    · simp at h
    · rcases List.mem_cons.mp hpath with rfl | hbelow
      · exact makeDirs_directory (fs.set_self _ _)
      · exact ih h path hbelow

/-- The storage over a file system where its root is a directory, and so all above it. -/
structure LocalStorageBackend where
  root : CanonicalPath
  baseUrl : String
  fs : FileSystem
  mounted : ∀ path, path <+: root → fs path = some .directory

/-- What an operation gives back. -/
inductive Answer where
  | key (key : String)
  | content (content : Bytes)
  | path (path : Option CanonicalPath)
  | url (url : String)
  | done

inductive Operation where
  | upload (file : Bytes) (path : String)
  | download (key : String)
  | uploadPath (source : Source) (key : String)
  -- whether the directory of the caller's destination can be made
  | downloadToPath (key : String) (destination : Bool)
  | localPath (key : String)
  | delete (key : String)
  | getUrl (key : String)

section
variable (resolve : PurePath → CanonicalPath) (repr : String → String)

/-- `__init__`. -/
def LocalStorageBackend.mount (fs : FileSystem) (rootPath baseUrl : String) :
    Except Failure LocalStorageBackend :=
  let root := resolve (PurePath.parse rootPath)
  match h : (makeDirs fs root.inits).result with
  | .ok () => .ok
    { root := root
      baseUrl := String.ofList (baseUrl.toList.rdropWhile (· == '/'))
      fs := (makeDirs fs root.inits).fs
      mounted := fun path hpath => makeDirs_ok h path ((List.mem_inits _ _).mpr hpath) }
  | .error failure => .error failure

variable (self : LocalStorageBackend)

/-- `_resolve`. A path with a NUL in it cannot be resolved. -/
def LocalStorageBackend.resolveKey (key : String) : Except Failure CanonicalPath :=
  if '\x00' ∈ key.toList then .error (.valueError "embedded null byte")
  else
    let target := resolve (self.root.join (PurePath.parse key))
    if self.root.str.isPrefixOf target.str then .ok target
    else .error (.valueError ("key " ++ repr key ++ " resolves outside storage root"))

/-- What is done with the path of a key, once it is resolved. -/
def LocalStorageBackend.withTarget (key : String) (act : CanonicalPath → Effect Answer) :
    Effect Answer :=
  match self.resolveKey resolve repr key with
  | .ok target => act target
  | .error failure => ⟨.error failure, self.fs, []⟩

def LocalStorageBackend.upload (file : Bytes) (path : String) : Effect Answer :=
  self.withTarget resolve repr path fun target =>
    (writeBytes self.fs target file).next fun fs => ⟨.ok (.key path), fs, []⟩

def LocalStorageBackend.download (key : String) : Effect Answer :=
  self.withTarget resolve repr key fun target => (readFile self.fs target).map .content

def LocalStorageBackend.uploadPath (source : Source) (key : String) : Effect Answer :=
  self.withTarget resolve repr key fun target =>
    (copyFile self.fs source target).next fun fs => ⟨.ok (.key key), fs, []⟩

/-- The content goes to the caller's destination. -/
def LocalStorageBackend.downloadToPath (key : String) (destination : Bool) : Effect Answer :=
  self.withTarget resolve repr key fun target =>
    if destination then (readFile self.fs target).map .content
    else ⟨.error .callersFile, self.fs, []⟩

def LocalStorageBackend.localPath (key : String) : Effect Answer :=
  self.withTarget resolve repr key fun target =>
    ⟨.ok (.path (if (self.fs target).isSome then some target else none)), self.fs, [target]⟩

def LocalStorageBackend.delete (key : String) : Effect Answer :=
  self.withTarget resolve repr key fun target =>
    (safeRemove self.fs target).next fun fs => ⟨.ok .done, fs, []⟩

/-- Nothing is resolved. -/
def LocalStorageBackend.getUrl (key : String) : Effect Answer :=
  ⟨.ok (.url (self.baseUrl ++ "/" ++ String.ofList (key.toList.dropWhile (· == '/')))), self.fs, []⟩

def LocalStorageBackend.run : Operation → Effect Answer
  | .upload file path => self.upload resolve repr file path
  | .download key => self.download resolve repr key
  | .uploadPath source key => self.uploadPath resolve repr source key
  | .downloadToPath key destination => self.downloadToPath resolve repr key destination
  | .localPath key => self.localPath resolve repr key
  | .delete key => self.delete resolve repr key
  | .getUrl key => self.getUrl key

end

/-- The key whose path an operation goes on to use. -/
def Operation.used? : Operation → Option String
  | .upload _ key | .download key | .uploadPath _ key | .localPath key | .delete key => some key
  | .downloadToPath key destination => if destination then some key else none
  | .getUrl _ => none

def StrictlyInside (root path : CanonicalPath) : Prop := root <+: path ∧ path ≠ root

/-- It raised a ValueError, or handed the file system only what is strictly inside the root. -/
def Contained (root : CanonicalPath) (effect : Effect Answer) : Prop :=
  (∃ text, effect.result = .error (.valueError text)) ∨
    ∀ path ∈ effect.touched, StrictlyInside root path

instance (root path : CanonicalPath) : Decidable (StrictlyInside root path) :=
  inferInstanceAs (Decidable (_ ∧ _))

/-- The root itself, or in the place of its last name one that begins with it and goes on. -/
def Astray (root target : CanonicalPath) : Prop :=
  target = root ∨ Extended (root.map Subtype.val) (target.map Subtype.val)

theorem Name.slash_notMem {path : CanonicalPath} {name : List Char}
    (h : name ∈ path.map Subtype.val) : '/' ∉ name := by
  obtain ⟨valid, -, rfl⟩ := List.mem_map.mp h
  exact valid.2.2.2.2

/-- What the test on the texts says of the names. -/
theorem str_prefix_iff (root target : CanonicalPath) :
    root.str <+: target.str ↔ StrictlyInside root target ∨ Astray root target := by
  have hnames : root.map Subtype.val <+: target.map Subtype.val ↔
      StrictlyInside root target ∨ target = root := by
    rw [List.prefix_map_iff_of_injective Subtype.val_injective]
    by_cases heq : target = root
    · simp [heq]
    · simp [StrictlyInside, heq]
  rw [Astray, ← or_assoc, ← hnames, CanonicalPath.str, CanonicalPath.str]
  by_cases hroot : root = []
  · -- every path begins with the slash
    have hslash : ['/'] <+: if target = [] then ['/'] else joined '/' (target.map Subtype.val) := by
      cases target with
      | nil => exact List.prefix_rfl
      | cons name target => exact (List.prefix_append ['/'] _)
    rw [hroot, if_pos rfl, List.map_nil]
    exact iff_of_true hslash (.inl List.nil_prefix)
  · obtain ⟨name, rest, rfl⟩ := List.exists_cons_of_ne_nil hroot
    rw [if_neg hroot]
    by_cases htarget : target = []
    · have hname : ¬ joined '/' ((name :: rest).map Subtype.val) <+: ['/'] := by
        rw [List.map_cons, joined_cons, List.cons_prefix_cons, List.prefix_nil]
        rintro ⟨-, happend⟩
        exact name.2.1 (List.append_eq_nil_iff.mp happend).1
      have hextended : ¬ Extended ((name :: rest).map Subtype.val) [] := by
        rintro ⟨base, _, _, _, _, _, hothers⟩
        simp at hothers
      rw [if_pos htarget, htarget, List.map_nil]
      exact iff_of_false hname fun hor => hor.elim (by simp) hextended
    · rw [if_neg htarget]
      exact joined_prefix_iff (fun _ => Name.slash_notMem) (fun _ => Name.slash_notMem)

theorem not_strictlyInside_of_astray {root target : CanonicalPath} (h : Astray root target) :
    ¬ StrictlyInside root target := by
  rintro ⟨hfront, hne⟩
  rcases h with rfl | hextended
  · exact hne rfl
  · exact not_prefix_of_extended hextended (hfront.map _)

/-- What is done with the path of a key: the file system is handed that path, or one above it that
    is no directory yet; nothing else changes, and no directory does. -/
structure Handles (fs : FileSystem) (target : CanonicalPath) {α : Type} (effect : Effect α) :
    Prop where
  only : ∀ path ∈ effect.touched, path <+: target ∧ (path = target ∨ fs path ≠ some .directory)
  frame : ∀ path, path ∉ effect.touched → effect.fs path = fs path
  keeps : ∀ path, fs path = some .directory → effect.fs path = some .directory
  quiet : ∀ text, effect.result ≠ .error (.valueError text)

section
variable {fs : FileSystem} {target : CanonicalPath} {α β : Type}

/-- Nothing but a look at the path. -/
theorem handles_look {result : Except Failure α}
    (h : ∀ text, result ≠ .error (.valueError text)) :
    Handles fs target ⟨result, fs, [target]⟩ where
  only path hpath := by
    obtain rfl := List.mem_singleton.mp hpath
    exact ⟨List.prefix_rfl, .inl rfl⟩
  frame _ _ := rfl
  keeps _ hdir := hdir
  quiet := h

/-- A file is put in the place of the path, or taken away. -/
theorem handles_set {node : Option Node} (h : fs target ≠ some .directory) :
    Handles fs target (⟨.ok (), fs.set target node, [target]⟩ : Effect Unit) where
  only path hpath := by
    obtain rfl := List.mem_singleton.mp hpath
    exact ⟨List.prefix_rfl, .inl rfl⟩
  frame path hpath := fs.set_other node fun heq => hpath (List.mem_singleton.mpr heq)
  keeps path hdir := by
    have hne : path ≠ target := by
      rintro rfl
      exact h hdir
    exact (fs.set_other node hne).trans hdir
  quiet text := by simp

theorem Handles.map {effect : Effect α} (f : α → β) (h : Handles fs target effect) :
    Handles fs target (effect.map f) where
  only := h.only
  frame := h.frame
  keeps := h.keeps
  quiet text htext := h.quiet text (map_eq_error_iff.mp htext)

/-- The one and then the other, on the file system the one left. -/
theorem Handles.next {first : Effect Unit} {second : FileSystem → Effect α}
    (h : Handles fs target first) (hsecond : Handles first.fs target (second first.fs)) :
    Handles fs target (first.next second) := by
  rw [Effect.next]
  split
  · constructor
    case only =>
      intro path hpath
      rcases List.mem_append.mp hpath with hpath | hpath
      · exact h.only path hpath
      · exact (hsecond.only path hpath).imp_right fun hor =>
          hor.imp_right fun hnot hdir => hnot (h.keeps path hdir)
    case frame =>
      intro path hpath
      rw [List.mem_append, not_or] at hpath
      exact (hsecond.frame path hpath.2).trans (h.frame path hpath.1)
    case keeps => exact fun path hdir => hsecond.keeps path (h.keeps path hdir)
    case quiet => exact hsecond.quiet
  · next failure hfailure =>
    exact ⟨h.only, h.frame, h.keeps, fun text htext =>
      h.quiet text (hfailure.trans (congrArg Except.error (Except.error.inj htext)))⟩

theorem handles_done (result : α) : Handles fs target ⟨.ok result, fs, []⟩ where
  only := by simp
  frame _ _ := rfl
  keeps _ hdir := hdir
  quiet := by simp

theorem handles_makeDirs {paths : List CanonicalPath} (h : ∀ path ∈ paths, path <+: target) :
    Handles fs target (makeDirs fs paths) := by
  induction paths generalizing fs with
  | nil => exact ⟨by simp [makeDirs], fun _ _ => rfl, fun _ hdir => hdir, by simp [makeDirs]⟩
  | cons first below ih =>
    have hfirst := h first List.mem_cons_self
    have hbelow : ∀ path ∈ below, path <+: target := fun path hpath =>
      h path (List.mem_cons_of_mem _ hpath)
    rw [makeDirs]
    split
    · exact ih hbelow
    · next hfile =>
      refine ⟨fun path hpath => ?_, fun _ _ => rfl, fun _ hdir => hdir, fun text => ?_⟩
      case refine_2 => split <;> simp
      obtain rfl := List.mem_singleton.mp hpath
      exact ⟨hfirst, .inr (by simp [hfile])⟩
    · next hnone =>
      have hset : ∀ path, fs path = some .directory →
          fs.set first (some .directory) path = some .directory := by
        intro path hdir
        rw [fs.set_other _ fun heq => by simp [← heq, hdir] at hnone]
        exact hdir
      have hrest : Handles (fs.set first (some .directory)) target _ := ih hbelow
      constructor
      case only =>
        intro path hpath
        rcases List.mem_cons.mp hpath with rfl | hpath
        · exact ⟨hfirst, .inr (by simp [hnone])⟩
        · exact (hrest.only path hpath).imp_right fun hor =>
            hor.imp_right fun hnot hdir => hnot (hset path hdir)
      case frame =>
        intro path hpath
        rw [List.mem_cons, not_or] at hpath
        exact (hrest.frame path hpath.2).trans (fs.set_other _ hpath.1)
      case keeps => exact fun path hdir => hrest.keeps path (hset path hdir)
      case quiet => exact hrest.quiet

theorem handles_writeFile (data : Bytes) : Handles fs target (writeFile fs target data) := by
  rw [writeFile]
  split
  · exact handles_look (by simp)
  · next hnot => exact handles_set hnot

theorem missing_ne (fs : FileSystem) (target : CanonicalPath) (text : String) :
    fs.missing target ≠ .valueError text := by
  unfold FileSystem.missing
  split <;> simp

theorem handles_readFile : Handles fs target (readFile fs target) := by
  rw [readFile]
  split
  · exact handles_look (by simp)
  · exact handles_look (by simp)
  · exact handles_look fun text h => missing_ne fs target text (Except.error.inj h)

theorem handles_safeRemove : Handles fs target (safeRemove fs target) := by
  rw [safeRemove]
  split
  · exact handles_look (by simp)
  · split
    · exact handles_look (by simp)
    · next hfile => exact handles_set (by simp [hfile])
    · exact handles_look (by simp)

theorem handles_writeBytes (data : Bytes) : Handles fs target (writeBytes fs target data) := by
  refine (handles_makeDirs fun path hpath => ?_).next (handles_writeFile data)
  exact ((List.mem_inits _ _).mp hpath).trans (List.dropLast_prefix target)

theorem handles_copyContent (source : Source) :
    Handles fs target (copyContent fs source target) := by
  cases source with
  | elsewhere content =>
    cases content with
    | some data => exact handles_writeFile data
    | none => exact handles_look (by simp)
  | within path =>
    rw [copyContent]
    split
    · exact handles_look (by simp)
    · split
      · exact handles_writeFile _
      · next failure hread =>
        exact handles_look fun text h => handles_readFile.quiet text
          (hread.trans (congrArg Except.error (Except.error.inj h)))

theorem handles_copyFile (source : Source) : Handles fs target (copyFile fs source target) := by
  refine (handles_makeDirs fun path hpath => ?_).next (handles_copyContent source)
  exact ((List.mem_inits _ _).mp hpath).trans (List.dropLast_prefix target)

/-- Making directories fails at a path that is then handed over. -/
theorem touched_makeDirs {paths : List CanonicalPath} {failure : Failure}
    (h : (makeDirs fs paths).result = .error failure) : (makeDirs fs paths).touched ≠ [] := by
  induction paths generalizing fs with
  | nil => simp [makeDirs] at h
  | cons first below ih =>
    rw [makeDirs] at h ⊢
    split at h
    · exact ih h
    · simp
    · simp

/-- What the second hands over, or what the first failed at. -/
theorem touched_next {first : Effect Unit} {second : FileSystem → Effect α}
    (h : ∀ failure, first.result = .error failure → first.touched ≠ [])
    (hsecond : (second first.fs).touched ≠ []) : (first.next second).touched ≠ [] := by
  rw [Effect.next]
  split
  · simp [hsecond]
  · next failure hfailure => exact h failure hfailure

theorem touched_next_left {first : Effect Unit} {second : FileSystem → Effect α}
    (h : first.touched ≠ []) : (first.next second).touched ≠ [] := by
  rw [Effect.next]
  split
  · simp [h]
  · exact h

theorem touched_writeFile (data : Bytes) : (writeFile fs target data).touched ≠ [] := by
  rw [writeFile]
  split <;> simp

theorem touched_readFile : (readFile fs target).touched ≠ [] := by
  rw [readFile]
  split <;> simp

theorem touched_safeRemove : (safeRemove fs target).touched ≠ [] := by
  rw [safeRemove]
  split
  · simp
  · split <;> simp

theorem touched_writeBytes (data : Bytes) : (writeBytes fs target data).touched ≠ [] :=
  touched_next (fun _ => touched_makeDirs) (touched_writeFile data)

theorem touched_copyContent (source : Source) : (copyContent fs source target).touched ≠ [] := by
  cases source with
  | elsewhere content =>
    cases content with
    | some data => exact touched_writeFile data
    | none => simp [copyContent]
  | within path =>
    rw [copyContent]
    split
    · simp
    · split
      · exact touched_writeFile _
      · simp

theorem touched_copyFile (source : Source) : (copyFile fs source target).touched ≠ [] :=
  touched_next (fun _ => touched_makeDirs) (touched_copyContent source)

end

section
variable {resolve : PurePath → CanonicalPath} {repr : String → String}
  {self : LocalStorageBackend}

/-- What a key is resolved to, where it is accepted. -/
theorem resolveKey_ok_iff {key : String} {target : CanonicalPath} :
    self.resolveKey resolve repr key = .ok target ↔
      '\x00' ∉ key.toList ∧ resolve (self.root.join (PurePath.parse key)) = target ∧
        (StrictlyInside self.root target ∨ Astray self.root target) := by
  rw [← str_prefix_iff, LocalStorageBackend.resolveKey]
  by_cases hnul : '\x00' ∈ key.toList
  · simp [hnul]
  · rw [if_neg hnul]
    by_cases hfront :
        self.root.str.isPrefixOf (resolve (self.root.join (PurePath.parse key))).str
    · have hstr := List.isPrefixOf_iff_prefix.mp hfront
      simp only [hfront, if_true, Except.ok.injEq]
      constructor
      · rintro rfl
        exact ⟨hnul, rfl, hstr⟩
      · rintro ⟨-, rfl, -⟩
        rfl
    · have hstr := mt List.isPrefixOf_iff_prefix.mpr hfront
      simp only [hfront]
      constructor
      · simp
      · rintro ⟨-, rfl, hno⟩
        exact absurd hno hstr

/-- A key that is not accepted raises a ValueError, and one without a NUL was not astray. -/
theorem resolveKey_error {key : String} {failure : Failure}
    (h : self.resolveKey resolve repr key = .error failure) :
    (∃ text, failure = .valueError text) ∧ ('\x00' ∉ key.toList →
      ¬ Astray self.root (resolve (self.root.join (PurePath.parse key)))) := by
  constructor
  · simp only [LocalStorageBackend.resolveKey] at h
    split at h
    · exact ⟨_, (Except.error.inj h).symm⟩
    · split at h
      · simp at h
      · exact ⟨_, (Except.error.inj h).symm⟩
  · intro hnul hastray
    have hok : self.resolveKey resolve repr key = .ok _ :=
      resolveKey_ok_iff.mpr ⟨hnul, rfl, .inr hastray⟩
    simp [h] at hok

theorem withTarget_ok {key : String} {target : CanonicalPath} {act : CanonicalPath → Effect Answer}
    (h : self.resolveKey resolve repr key = .ok target) :
    self.withTarget resolve repr key act = act target := by
  rw [LocalStorageBackend.withTarget, h]

theorem withTarget_error {key : String} {failure : Failure} {act : CanonicalPath → Effect Answer}
    (h : self.resolveKey resolve repr key = .error failure) :
    self.withTarget resolve repr key act = ⟨.error failure, self.fs, []⟩ := by
  rw [LocalStorageBackend.withTarget, h]

/-- STEP: an operation whose key is resolved hands the file system something, as `Handles` says. -/
theorem run_used {op : Operation} {key : String} {target : CanonicalPath}
    (hop : op.used? = some key) (h : self.resolveKey resolve repr key = .ok target) :
    Handles self.fs target (self.run resolve repr op) ∧
      (self.run resolve repr op).touched ≠ [] := by
  cases op with
  | upload file path =>
    obtain rfl := Option.some.inj hop
    rw [LocalStorageBackend.run, LocalStorageBackend.upload, withTarget_ok h]
    exact ⟨(handles_writeBytes file).next (handles_done _),
      touched_next_left (touched_writeBytes file)⟩
  | download other =>
    obtain rfl := Option.some.inj hop
    rw [LocalStorageBackend.run, LocalStorageBackend.download, withTarget_ok h]
    exact ⟨handles_readFile.map _, touched_readFile⟩
  | uploadPath source other =>
    obtain rfl := Option.some.inj hop
    rw [LocalStorageBackend.run, LocalStorageBackend.uploadPath, withTarget_ok h]
    exact ⟨(handles_copyFile source).next (handles_done _),
      touched_next_left (touched_copyFile source)⟩
  | downloadToPath other destination =>
    rw [LocalStorageBackend.run, LocalStorageBackend.downloadToPath]
    cases destination with
    | true =>
      obtain rfl := Option.some.inj hop
      rw [withTarget_ok h]
      exact ⟨handles_readFile.map _, touched_readFile⟩
    | false => simp [Operation.used?] at hop
  | localPath other =>
    obtain rfl := Option.some.inj hop
    rw [LocalStorageBackend.run, LocalStorageBackend.localPath, withTarget_ok h]
    exact ⟨handles_look (by simp), by simp⟩
  | delete other =>
    obtain rfl := Option.some.inj hop
    rw [LocalStorageBackend.run, LocalStorageBackend.delete, withTarget_ok h]
    exact ⟨handles_safeRemove.next (handles_done _), touched_next_left touched_safeRemove⟩
  | getUrl other => simp [Operation.used?] at hop

/-- STEP: an operation whose key is refused leaves the file system alone. -/
theorem run_refused {op : Operation} {key : String} {failure : Failure}
    (hop : op.used? = some key) (h : self.resolveKey resolve repr key = .error failure) :
    self.run resolve repr op = ⟨.error failure, self.fs, []⟩ := by
  cases op with
  | upload file path => obtain rfl := Option.some.inj hop; exact withTarget_error h
  | download other => obtain rfl := Option.some.inj hop; exact withTarget_error h
  | uploadPath source other => obtain rfl := Option.some.inj hop; exact withTarget_error h
  | downloadToPath other destination =>
    cases destination with
    | true => obtain rfl := Option.some.inj hop; exact withTarget_error h
    | false => simp [Operation.used?] at hop
  | localPath other => obtain rfl := Option.some.inj hop; exact withTarget_error h
  | delete other => obtain rfl := Option.some.inj hop; exact withTarget_error h
  | getUrl other => simp [Operation.used?] at hop

/-- STEP: an operation that uses no key hands over nothing. -/
theorem run_unused {op : Operation} (hop : op.used? = none) :
    (self.run resolve repr op).touched = [] ∧ (self.run resolve repr op).fs = self.fs := by
  cases op with
  | downloadToPath key destination =>
    cases destination with
    | true => simp [Operation.used?] at hop
    | false =>
      rw [LocalStorageBackend.run, LocalStorageBackend.downloadToPath]
      cases h : self.resolveKey resolve repr key with
      | ok target => rw [withTarget_ok h]; exact ⟨rfl, rfl⟩
      | error failure => rw [withTarget_error h]; exact ⟨rfl, rfl⟩
  | getUrl key => exact ⟨rfl, rfl⟩
  | _ => simp [Operation.used?] at hop

/-- What is handed over for a path is strictly inside the root just when the path is. -/
theorem Handles.inside_iff {target : CanonicalPath} {effect : Effect Answer}
    (h : Handles self.fs target effect) (hne : effect.touched ≠ []) :
    (∀ path ∈ effect.touched, StrictlyInside self.root path) ↔
      StrictlyInside self.root target := by
  constructor
  · intro hall
    obtain ⟨path, hpath⟩ := List.exists_mem_of_ne_nil _ hne
    obtain ⟨hroot, hneq⟩ := hall path hpath
    have habove := (h.only path hpath).1
    refine ⟨hroot.trans habove, ?_⟩
    rintro rfl
    exact hneq (habove.eq_of_length_le hroot.length_le)
  · rintro ⟨hroot, hneq⟩ path hpath
    obtain ⟨habove, hkind⟩ := h.only path hpath
    -- a path above the target and not above the root is inside it; those above it are directories
    have hnot : ¬ path <+: self.root := by
      intro hup
      rcases hkind with rfl | hmissing
      · exact hneq (hup.eq_of_length_le hroot.length_le)
      · exact hmissing (self.mounted path hup)
    rcases List.prefix_or_prefix_of_prefix hroot habove with hin | hup
    · refine ⟨hin, ?_⟩
      rintro rfl
      exact hnot List.prefix_rfl
    · exact absurd hup hnot

/-- EXACT CONDITION: an operation raises a ValueError or stays strictly inside the root, just when
    the path of the key it uses is not astray. -/
theorem contained_iff (op : Operation) :
    Contained self.root (self.run resolve repr op) ↔
      ∀ key, op.used? = some key → '\x00' ∉ key.toList →
        ¬ Astray self.root (resolve (self.root.join (PurePath.parse key))) := by
  cases hop : op.used? with
  | none =>
    refine iff_of_true (.inr fun path hpath => ?_) (by simp)
    rw [(run_unused hop).1] at hpath
    exact absurd hpath List.not_mem_nil
  | some key =>
    cases h : self.resolveKey resolve repr key with
    | error failure =>
      obtain ⟨⟨text, rfl⟩, hastray⟩ := resolveKey_error h
      refine iff_of_true (.inl ⟨text, by rw [run_refused hop h]⟩) ?_
      rintro other hother
      exact Option.some.inj hother ▸ hastray
    | ok target =>
      obtain ⟨hhandles, htouched⟩ := run_used hop h
      obtain ⟨hnul, rfl, hwhere⟩ := resolveKey_ok_iff.mp h
      have hquiet : ¬ ∃ text, (self.run resolve repr op).result = .error (.valueError text) :=
        fun ⟨text, htext⟩ => hhandles.quiet text htext
      rw [Contained, or_iff_right hquiet, hhandles.inside_iff htouched]
      constructor
      · intro hinside other hother _
        obtain rfl := Option.some.inj hother
        exact fun hastray => not_strictlyInside_of_astray hastray hinside
      · intro hall
        exact hwhere.resolve_right (hall key rfl hnul)

variable (resolve repr self) in
/-- The storage after an operation: its root is still mounted. -/
def LocalStorageBackend.after (op : Operation) : LocalStorageBackend where
  root := self.root
  baseUrl := self.baseUrl
  fs := (self.run resolve repr op).fs
  mounted := by
    intro path hpath
    have hdir := self.mounted path hpath
    cases hop : op.used? with
    | none => rw [(run_unused hop).2, hdir]
    | some key =>
      cases h : self.resolveKey resolve repr key with
      | ok target => exact (run_used hop h).1.keeps path hdir
      | error failure => rw [run_refused hop h]; exact hdir

/-- An operation that is contained leaves everything else as it was. -/
theorem after_outside {op : Operation} {path : CanonicalPath}
    (h : Contained self.root (self.run resolve repr op))
    (hout : ¬ StrictlyInside self.root path) :
    (self.after resolve repr op).fs path = self.fs path := by
  change (self.run resolve repr op).fs path = self.fs path
  cases hop : op.used? with
  | none => rw [(run_unused hop).2]
  | some key =>
    cases hkey : self.resolveKey resolve repr key with
    | error failure => rw [run_refused hop hkey]
    | ok target =>
      have hhandles := (run_used hop hkey).1
      refine hhandles.frame path fun hpath => ?_
      rcases h with ⟨text, htext⟩ | hall
      · exact hhandles.quiet text htext
      · exact hout (hall path hpath)

/-- RUN: operations that are each contained where they are taken change nothing outside. -/
theorem run_outside {ops : List Operation} {path : CanonicalPath}
    (h : ∀ before op behind, ops = before ++ op :: behind → Contained self.root
      ((before.foldl (fun storage first => storage.after resolve repr first) self).run
        resolve repr op))
    (hout : ¬ StrictlyInside self.root path) :
    (ops.foldl (fun storage op => storage.after resolve repr op) self).fs path = self.fs path := by
  induction ops generalizing self with
  | nil => rfl
  | cons op ops ih =>
    have hrest : (ops.foldl (fun storage op => storage.after resolve repr op)
        (self.after resolve repr op)).fs path = (self.after resolve repr op).fs path :=
      ih (fun before other behind hops => h (op :: before) other behind (hops ▸ rfl)) hout
    exact hrest.trans (after_outside (h [] op ops rfl) hout)

end

/-- A file system without links: `..` takes the last name off. -/
def collapse (cwd : CanonicalPath) (path : PurePath) : CanonicalPath :=
  path.segments.foldl (fun reached segment => match segment with
    | .parent => reached.dropLast
    | .name name => reached ++ [name]) (if path.absolute then [] else cwd)

/-- A storage with nothing in it yet. -/
def LocalStorageBackend.empty (root : CanonicalPath) : LocalStorageBackend where
  root := root
  baseUrl := "/static/storage"
  fs := fun path => if path <+: root then some .directory else none
  mounted := fun _ hpath => if_pos hpath

/-- The root `/data`, and a sibling whose name begins with the root's. -/
theorem download_from_sibling :
    ¬ Contained [⟨['d', 'a', 't', 'a'], by decide⟩]
      ((LocalStorageBackend.empty [⟨['d', 'a', 't', 'a'], by decide⟩]).run (collapse []) id
        (.download "../data-evil/secret")) := by
  have htouched : [⟨"data-evil".toList, by decide⟩, ⟨"secret".toList, by decide⟩] ∈
      ((LocalStorageBackend.empty [⟨['d', 'a', 't', 'a'], by decide⟩]).run (collapse []) id
        (.download "../data-evil/secret")).touched := by
    decide
  rintro (⟨text, htext⟩ | hall)
  · have hmissing : ((LocalStorageBackend.empty [⟨['d', 'a', 't', 'a'], by decide⟩]).run
        (collapse []) id (.download "../data-evil/secret")).result = .error (.fileNotFound
          [⟨"data-evil".toList, by decide⟩, ⟨"secret".toList, by decide⟩]) := rfl
    cases hmissing.symm.trans htext
  · exact absurd (hall _ htouched) (by decide)

end LunaCore.Storage
