import Mathlib.Logic.Function.Iterate
import SharedNode.Text.Path

/-!
# Path resolution

How a kernel resolves a path string in a file system with symbolic links. A symbolic link is given
by the file its target resolves to, `none` for a dangling link or a loop, so that resolution is one
pass over the components of the path.

* Every component but the last must lead to a directory, links followed; the last one is looked up
  and not followed (`lstat`). A trailing slash makes the last component empty, so the link before it
  is followed.
* `walk_route`: empty components, `.` and a leading `..` of an absolute path change nothing.

Left out: permissions, and changes while a path is resolved.
-/

namespace SharedNode.Quota

open Text

inductive Node (Inode : Type) where
  | dir (parent : Inode) (entries : Bytes → Option Inode)
  | symlink (target : Option Inode)
  | other

def Node.parent? {Inode : Type} : Node Inode → Option Inode
  | .dir parent _ => some parent
  | _ => none

def Node.entryAt {Inode : Type} : Node Inode → Bytes → Option Inode
  | .dir _ entries, name => entries name
  | _, _ => none

/-- A file system, with the working directory of the process that uses it: a tree of directories, in
which links may lead anywhere. -/
structure FileSystem (Inode : Type) where
  node : Inode → Node Inode
  root : Inode
  cwd : Inode
  /-- The root is its own parent. -/
  root_parent : (node root).parent? = some root
  /-- A directory is an entry of its parent only. -/
  entry_parent : ∀ {d name c q}, (node d).entryAt name = some c → (node c).parent? = some q → q = d
  /-- Every directory but the root is an entry of its parent. -/
  listed : ∀ {d p}, (node d).parent? = some p → d ≠ root → ∃ name, (node p).entryAt name = some d
  /-- The root is above every directory. -/
  grounded : ∀ d, ((node d).parent?).isSome →
    ∃ depth : Nat, (fun i => (node i).parent?.getD i)^[depth] d = root

variable {Inode : Type}

/-- Absolute components without those that stay and without `..` at the root. -/
def route (cs : List Bytes) : List Bytes :=
  (cs.filter fun c => !stays c).dropWhile (· = dotdot)

namespace FileSystem

/-- The directory a component leads to, from a directory. -/
def step (fs : FileSystem Inode) (d : Inode) (c : Bytes) : Option Inode :=
  match fs.node d with
  | .dir parent entries =>
    if stays c then some d else if c = dotdot then some parent else entries c
  | _ => none

def follow (fs : FileSystem Inode) (i : Inode) : Option Inode :=
  match fs.node i with
  | .symlink target => target
  | _ => some i

def isDir (fs : FileSystem Inode) (i : Inode) : Bool := (fs.node i).parent?.isSome

/-- A component that is not the last one: it leads to a directory. -/
def enter (fs : FileSystem Inode) (d : Inode) (c : Bytes) : Option Inode :=
  ((fs.step d c).bind fs.follow).filter fs.isDir

/-- The directory some components lead to. -/
def walk (fs : FileSystem Inode) : Inode → List Bytes → Option Inode
  | d, [] => some d
  | d, c :: cs => (fs.enter d c).bind (fs.walk · cs)

/-- The file some components lead to, the last one not followed. -/
def lookup (fs : FileSystem Inode) : Inode → List Bytes → Option Inode
  | d, [] => some d
  | d, [c] => fs.step d c
  | d, c :: cs => (fs.enter d c).bind (fs.lookup · cs)

def start (fs : FileSystem Inode) (p : Bytes) : Inode := if isAbs p then fs.root else fs.cwd

/-- `lstat`: the file a path names. -/
def lstat (fs : FileSystem Inode) (p : Bytes) : Option Inode :=
  fs.lookup (fs.start p) (components p)

/-- The directory a path names, links followed. -/
def directory (fs : FileSystem Inode) (p : Bytes) : Option Inode :=
  fs.walk (fs.start p) (components p)

/-- The file `path` names is an entry of the directory `root` names. -/
def DirectChild (fs : FileSystem Inode) (root path : Bytes) : Prop :=
  ∃ r i name, fs.directory root = some r ∧ fs.lstat path = some i ∧
    (fs.node r).entryAt name = some i

theorem walk_append (fs : FileSystem Inode) (d : Inode) (cs ds : List Bytes) :
    fs.walk d (cs ++ ds) = (fs.walk d cs).bind (fs.walk · ds) := by
  induction cs generalizing d with
  | nil => rfl
  | cons c cs ih =>
    simp only [List.cons_append, walk, ih]
    rw [Option.bind_assoc]

theorem lookup_concat (fs : FileSystem Inode) (d : Inode) (cs : List Bytes) (c : Bytes) :
    fs.lookup d (cs ++ [c]) = (fs.walk d cs).bind (fs.step · c) := by
  induction cs generalizing d with
  | nil => rfl
  | cons b cs ih =>
    cases cs with
    | nil => simp [lookup, walk]
    | cons b' cs =>
      rw [walk, Option.bind_assoc]
      simp only [← ih]
      rfl

variable {fs : FileSystem Inode} {d : Inode}

theorem follow_of_isDir {i : Inode} (h : fs.isDir i = true) : fs.follow i = some i := by
  unfold follow
  split
  next target ht => rw [isDir, ht] at h; simp [Node.parent?] at h
  · rfl

theorem node_of_parent {p : Inode} (h : (fs.node d).parent? = some p) :
    ∃ entries, fs.node d = .dir p entries := by
  cases hnode : fs.node d with
  | dir parent entries =>
    rw [hnode] at h
    exact ⟨entries, by rw [Option.some.inj h]⟩
  | symlink target => simp [hnode, Node.parent?] at h
  | other => simp [hnode, Node.parent?] at h

theorem enter_stays (hd : fs.isDir d = true) {c : Bytes}
    (hc : stays c = true) : fs.enter d c = some d := by
  have hstep : fs.step d c = some d := by
    obtain ⟨p, hp⟩ := Option.isSome_iff_exists.mp hd
    obtain ⟨entries, hnode⟩ := node_of_parent hp
    simp only [step, hnode, if_pos hc]
  rw [enter, hstep, Option.bind_some, follow_of_isDir hd, Option.filter_some_pos hd]

theorem isDir_of_enter {i : Inode} {c : Bytes} (h : fs.enter d c = some i) : fs.isDir i = true :=
  (Option.filter_eq_some_iff.mp h).2

theorem walk_filter (hd : fs.isDir d = true) (cs : List Bytes) :
    fs.walk d cs = fs.walk d (cs.filter fun c => !stays c) := by
  induction cs generalizing d with
  | nil => rfl
  | cons c cs ih =>
    by_cases hc : stays c = true
    · rw [walk, enter_stays hd hc, Option.bind_some, ih hd,
        List.filter_cons_of_neg (by simp [hc])]
    · rw [List.filter_cons_of_pos (by simp [hc]), walk, walk]
      cases he : fs.enter d c with
      | none => rfl
      | some i => exact ih (isDir_of_enter he)

theorem isDir_root (fs : FileSystem Inode) : fs.isDir fs.root = true := by
  rw [isDir, fs.root_parent]
  rfl

theorem enter_dotdot {p : Inode} (hd : (fs.node d).parent? = some p)
    (hp : fs.isDir p = true) : fs.enter d dotdot = some p := by
  have hstep : fs.step d dotdot = some p := by
    obtain ⟨entries, hnode⟩ := node_of_parent hd
    simp only [step, hnode]
    rfl
  rw [enter, hstep, Option.bind_some, follow_of_isDir hp, Option.filter_some_pos hp]

theorem walk_root_dropWhile (fs : FileSystem Inode) (cs : List Bytes) :
    fs.walk fs.root (cs.dropWhile (· = dotdot)) = fs.walk fs.root cs := by
  induction cs with
  | nil => rfl
  | cons c cs ih =>
    by_cases hc : c = dotdot
    · subst hc
      rw [List.dropWhile_cons_of_pos (by simp), ih, walk,
        enter_dotdot fs.root_parent fs.isDir_root, Option.bind_some]
    · rw [List.dropWhile_cons_of_neg (by simpa using hc)]

theorem walk_route (fs : FileSystem Inode) (cs : List Bytes) :
    fs.walk fs.root (route cs) = fs.walk fs.root cs := by
  rw [route, walk_root_dropWhile, ← walk_filter fs.isDir_root]

end FileSystem

end SharedNode.Quota
