/-! File systems, as a program sees them that asks for the bytes at a path. One of them is a
tree in memory with a home folder. There a path is followed one name at a time, from the root
if it starts with a slash and from home if not, and every name but the last has to lead to a
folder. The main statement is that it does not matter which way a path goes to home. -/
namespace ScriptLexer.CommandLine

/-- What a place that was asked for its bytes answers. It is absent if it cannot be
found, and it refuses if it is a folder or may not be read. -/
inductive Fetched
  | absent
  | refused (reason : String)
  | bytes (content : ByteArray)

structure FileSystem where
  fetch : String → Fetched

def FileSystem.empty : FileSystem where
  fetch _ := .absent

/-- The names that a path goes through. -/
def pathNames (path : String) : List String := (path.toList.splitOn '/').map String.ofList

/-- An entry of a folder has a name without a slash. The empty name and a dot stay in a
folder, and two dots go back. -/
def IsName (name : String) : Prop := '/' ∉ name.toList ∧ name ∉ ["", ".", ".."]

/-- Folders and files, each at its list of names from the root on. What holds a folder is
one too. Paths without a leading slash start at home. -/
structure Directory where
  home : List String
  folders : List (List String)
  files : List (List String × ByteArray)
  home_mem : home ∈ folders
  home_named : ∀ name ∈ home, IsName name

inductive Place
  | folder (names : List String)
  | file (content : ByteArray)

def longestPath : Nat := 4095

namespace Directory

def empty : Directory where
  home := ["tmp", "run"]
  folders := [["tmp", "run"]]
  files := []
  home_mem := List.mem_singleton_self _
  home_named := by simp [IsName]

/-- The names from the root on of an entry that is added below home. -/
def namesBelow (d : Directory) (path : String) : List String :=
  d.home ++ (pathNames path).filter (!·.isEmpty)

def addFolder (d : Directory) (path : String) : Directory :=
  { d with
    folders := d.namesBelow path :: d.folders
    home_mem := List.mem_cons_of_mem _ d.home_mem }

def addFile (d : Directory) (path : String) (content : ByteArray) : Directory :=
  { d with
    folders := (d.namesBelow path).dropLast :: d.folders
    files := (d.namesBelow path, content) :: d.files
    home_mem := List.mem_cons_of_mem _ d.home_mem }

def isFolder (d : Directory) (names : List String) : Bool := d.folders.any names.isPrefixOf

def lookup? (d : Directory) (names : List String) : Option Place :=
  if d.isFolder names then some (.folder names) else (d.files.lookup names).map .file

/-- One name further on. The root is its own parent, and nothing is behind a file. -/
def follow (d : Directory) (place : Place) (name : String) : Option Place :=
  match place with
  | .folder names =>
    if name = "" ∨ name = "." then some (.folder names)
    else if name = ".." then some (.folder names.dropLast)
    else d.lookup? (names ++ [name])
  | .file _ => none

def start (d : Directory) (path : String) : Place :=
  .folder (if path.toList.head? = some '/' then [] else d.home)

/-- The place that a path names, if it names one. The empty path and one that is too long
name nothing. -/
def place? (d : Directory) (path : String) : Option Place :=
  if path = "" ∨ longestPath < path.utf8ByteSize then none
  else (pathNames path).foldlM d.follow (d.start path)

def fetch (d : Directory) (path : String) : Fetched :=
  match d.place? path with
  | none => .absent
  | some (.folder _) => .refused "Is a directory (os error 21)"
  | some (.file content) => .bytes content

instance : Coe Directory FileSystem := ⟨fun d => ⟨d.fetch⟩⟩

end Directory

theorem pathNames_slash (front path : String) :
    pathNames (front ++ "/" ++ path) = pathNames front ++ pathNames path := by
  simp [pathNames, List.splitOn_append_cons_self]

theorem pathNames_single {name : String} (noSlash : '/' ∉ name.toList) :
    pathNames name = [name] := by
  simp [pathNames, List.splitOn_eq_singleton noSlash]

namespace Directory

variable {d : Directory} {names : List String} {name path : String}

theorem isFolder_append {more : List String} (folder : d.isFolder (names ++ more) = true) :
    d.isFolder names = true := by
  obtain ⟨other, member, inside⟩ := List.any_eq_true.1 folder
  refine List.any_eq_true.2 ⟨other, member, ?_⟩
  rw [List.isPrefixOf_iff_prefix] at inside ⊢
  exact (List.prefix_append names more).trans inside

theorem isFolder_home (d : Directory) : d.isFolder d.home = true :=
  List.any_eq_true.2 ⟨d.home, d.home_mem, List.isPrefixOf_iff_prefix.2 (List.prefix_refl _)⟩

theorem follow_name (named : IsName name) (folder : d.isFolder (names ++ [name]) = true) :
    d.follow (.folder names) name = some (.folder (names ++ [name])) := by
  have other := named.2
  simp only [List.mem_cons, List.not_mem_nil, or_false, not_or] at other
  simp [follow, lookup?, other, folder]

/-- Names of folders lead from each of them to the next. -/
theorem foldlM_follow {front : List String} (named : ∀ name ∈ names, IsName name)
    (folder : d.isFolder (front ++ names) = true) :
    names.foldlM d.follow (.folder front) = some (.folder (front ++ names)) := by
  induction names generalizing front with
  | nil => simp
  | cons name names ih =>
    rw [List.append_cons] at folder
    rw [List.foldlM_cons, follow_name (named name (by simp)) (isFolder_append folder)]
    have rest := ih (fun other member => named other (List.mem_cons_of_mem _ member)) folder
    simpa using rest

/-- The absolute path of home. -/
def homePath (d : Directory) : String := String.join (d.home.map ("/" ++ ·))

theorem pathNames_join (named : ∀ name ∈ names, IsName name) {first : String}
    (noSlash : '/' ∉ first.toList) :
    pathNames (first ++ String.join (names.map ("/" ++ ·))) = first :: names := by
  induction names generalizing first with
  | nil => simpa using pathNames_single noSlash
  | cons name names ih =>
    -- Behind the first slash, the first of the names takes the place of `first`.
    have rest := ih (fun other member => named other (List.mem_cons_of_mem _ member))
      (named name (by simp)).1
    rw [List.map_cons, String.join_cons, String.append_assoc, ← String.append_assoc,
      pathNames_slash, rest, pathNames_single noSlash]
    rfl

/-- A path behind another one that leads home names what it names from home. -/
theorem place?_behind {front : String} (relative : path.toList.head? ≠ some '/')
    (given : path ≠ "") (short : (front ++ "/" ++ path).utf8ByteSize ≤ longestPath)
    (leads : (pathNames front).foldlM d.follow (d.start (front ++ "/" ++ path)) =
      some (.folder d.home)) :
    d.place? (front ++ "/" ++ path) = d.place? path := by
  have alone : path.utf8ByteSize ≤ longestPath := by
    rw [String.utf8ByteSize_append] at short
    exact Nat.le_of_add_left_le short
  have whole : ¬(front ++ "/" ++ path = "" ∨ longestPath < (front ++ "/" ++ path).utf8ByteSize) :=
    not_or.2 ⟨by simp, Nat.not_lt.2 short⟩
  have home : d.start path = .folder d.home := by simp [start, relative]
  rw [place?, place?, if_neg whole, if_neg (not_or.2 ⟨given, Nat.not_lt.2 alone⟩),
    pathNames_slash, List.foldlM_append, leads, home]
  rfl

/-- A relative path names what the absolute one through home does. -/
theorem place?_homePath (d : Directory) (relative : path.toList.head? ≠ some '/')
    (given : path ≠ "") (short : (d.homePath ++ "/" ++ path).utf8ByteSize ≤ longestPath) :
    d.place? (d.homePath ++ "/" ++ path) = d.place? path := by
  refine place?_behind relative given short ?_
  have names : pathNames d.homePath = "" :: d.home := by
    rw [homePath, ← String.empty_append (s := String.join _)]
    exact pathNames_join d.home_named (by simp)
  have root : d.start (d.homePath ++ "/" ++ path) = .folder [] := by
    cases same : d.home with
    | nil => simp [start, homePath, same]
    | cons name names => simp [start, homePath, same]
  have walk : d.home.foldlM d.follow (.folder []) = some (.folder d.home) :=
    foldlM_follow d.home_named d.isFolder_home
  rw [root, names, List.foldlM_cons]
  exact walk

/-- A path may leave home through its parent and come back. -/
theorem place?_parent {front : List String} (d : Directory) (home : d.home = front ++ [name])
    (relative : path.toList.head? ≠ some '/') (given : path ≠ "")
    (short : ("../" ++ name ++ "/" ++ path).utf8ByteSize ≤ longestPath) :
    d.place? ("../" ++ name ++ "/" ++ path) = d.place? path := by
  refine place?_behind relative given short ?_
  have named : IsName name := d.home_named name (by simp [home])
  have parts : pathNames ("../" ++ name) = ["..", name] := by
    have split := pathNames_slash ".." name
    rwa [pathNames_single named.1] at split
  have start : d.start ("../" ++ name ++ "/" ++ path) = .folder d.home := by
    simp [Directory.start]
  have back : d.follow (.folder d.home) ".." = some (.folder front) := by
    simp [follow, home]
  have forth : d.follow (.folder front) name = some (.folder d.home) := by
    rw [home]
    exact follow_name named (home ▸ d.isFolder_home)
  rw [parts, start, List.foldlM_cons, back]
  simpa using forth

example (content : ByteArray) :
    (empty.addFile "a.sb" content).fetch "/tmp/run/../run/a.sb" = .bytes content := rfl

end Directory
end ScriptLexer.CommandLine
