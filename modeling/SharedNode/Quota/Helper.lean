import SharedNode.Quota.Spelling

/-!
# The quota helper

Model of `cmd/xmcl-quota-helper/main.go`, which runs with root privileges for the agent: the
acceptance of its configuration, the check of a directory argument and `execute`. As in the source,
`execute` gets the quota command, the agent identity and the change of ownership from outside; the
model also records which of them it calls.

`validateDirectory` tests the argument lexically with `filepath.Rel` and then asks the kernel for
the file the same string names. The two agree in every file system exactly for the arguments that
are spelled as the workspace root and a name (`acts_on_direct_child_iff`); a trailing slash behind a
link leads the helper out of the workspace root (`trailing_slash_leaves_workspace`).
-/

namespace SharedNode.Quota

open Text

/-- The configuration of the helper. -/
structure Config where
  workspaceRoot : Bytes
  mountPath : Bytes
  projectBase : UInt32
  agentUser : Bytes

/-- The characters a path of the helper must not contain. -/
def unsafeChars : Bytes := lit " \t\n\r'\""

/-- `validAgentUser`. Its loop is over characters; a character of several bytes is refused at its
first one. -/
def validAgentUser (value : Bytes) : Bool :=
  let lower (b : UInt8) : Bool := 0x61 ≤ b && b ≤ 0x7a
  let first (b : UInt8) : Bool := lower b || b = 0x5f
  let later (b : UInt8) : Bool := first b || (0x30 ≤ b && b ≤ 0x39) || b = 0x2d
  1 ≤ value.length && value.length ≤ 32 && value.head?.all first && value.tail.all later

/-- The check `loadConfig` makes of the decoded file. -/
def Config.accepted (config : Config) : Bool :=
  isAbs config.workspaceRoot && isAbs config.mountPath &&
    !containsAny (config.workspaceRoot ++ config.mountPath) unsafeChars &&
    config.projectBase ≠ 0 && validAgentUser config.agentUser

/-- The lexical half of `validateDirectory`. -/
def lexicalChild (config : Config) (directory : Bytes) : Bool :=
  match Rel config.workspaceRoot directory with
  | none => false
  | some relative =>
    !(relative = dot || relative = dotdot || relative.contains slash ||
      (dotdot ++ [slash]).isPrefixOf relative || containsAny directory unsafeChars)

variable {Inode : Type}

/-- `validateDirectory`, with the text of its error. -/
def validateDirectory (config : Config) (fs : FileSystem Inode) (directory : Bytes) :
    Option String :=
  if ¬ lexicalChild config directory then some "directory is not a direct workspace child"
  else if ¬ (fs.lstat directory).any fs.isDir then
    some "workspace directory must be a real direct child"
  else none

/-- `projectID`: the base plus 30 bits of the FNV-1a hash of the directory. -/
def projectID (base : UInt32) (directory : Bytes) : Bytes :=
  let hash := directory.foldl (fun h b => (h ^^^ b.toUInt32) * 16777619) (2166136261 : UInt32)
  formatNat (base + (hash &&& 0x3fffffff)).toNat

/-- The commands for `xfs_quota`. -/
inductive QuotaCommand where
  | state
  | project (directory id : Bytes)
  | limit (gib : Int) (id : Bytes)
  deriving DecidableEq

def QuotaCommand.text : QuotaCommand → Bytes
  | .state => lit "state"
  | .project directory id => lit "project -s -p " ++ directory ++ lit " " ++ id
  | .limit gib id => lit "limit -p bhard=" ++ formatInt gib ++ lit "g " ++ id

/-- What the helper does to the system. -/
inductive Act where
  | quota (command : QuotaCommand)
  | transition (directory : Bytes) (uid gid : Int) (directoryMode fileMode : Nat)
  deriving DecidableEq

/-- The directory whose ownership or project an act changes. -/
def Act.directory : Act → Option Bytes
  | .quota (.project directory _) => some directory
  | .transition directory .. => some directory
  | _ => none

/-- What `execute` gets from outside: the outcomes of `xfs_quota`, of the lookup of the agent user
and of the change of ownership. -/
structure Outside where
  runQuota : Bytes → Option String
  identity : Except String (Int × Int)
  transition : Bytes → Int → Int → Nat → Nat → Option String

def Outside.perform (out : Outside) : Act → List Act × Option String
  | .quota command => ([.quota command], out.runQuota command.text)
  | .transition directory uid gid directoryMode fileMode =>
    ([.transition directory uid gid directoryMode fileMode],
      out.transition directory uid gid directoryMode fileMode)

/-- The `prepare` and `seal` cases of `execute`, for a checked directory. -/
def changeOwner (out : Outside) (prepare : Bool) (directory : Bytes) : List Act × Option String :=
  match out.identity with
  | .error err => ([], some err)
  | .ok (uid, gid) =>
    if prepare then out.perform (.transition directory 1000 gid 0o750 0o640)
    else out.perform (.transition directory uid gid 0o700 0o600)

/-- The `apply` case of `execute`, for a checked directory. -/
def applyQuota (config : Config) (out : Outside) (directory gib : Bytes) :
    List Act × Option String :=
  match (parseInt gib).filter (1 ≤ ·) with
  | none => ([], some "quota limit must be positive")
  | some limit =>
    let id := projectID config.projectBase directory
    match out.perform (.quota (.project directory id)) with
    | (acts, some err) => (acts, some err)
    | (acts, none) =>
      let (more, err) := out.perform (.quota (.limit limit id))
      (acts ++ more, err)

/-- `execute`: the acts it performs, and its error. -/
def execute (config : Config) (fs : FileSystem Inode) (args : List Bytes) (out : Outside) :
    List Act × Option String :=
  match args with
  | [verb] =>
    if verb = lit "check" then out.perform (.quota .state)
    else ([], some "invalid quota helper arguments")
  | [verb, flag, directory] =>
    if (verb = lit "prepare" ∨ verb = lit "seal") ∧ flag = lit "--directory" then
      match validateDirectory config fs directory with
      | some err => ([], some err)
      | none => changeOwner out (verb = lit "prepare") directory
    else ([], some "invalid quota helper arguments")
  | [verb, flag, directory, flag', gib] =>
    if verb = lit "apply" ∧ flag = lit "--directory" ∧ flag' = lit "--gib" then
      match validateDirectory config fs directory with
      | some err => ([], some err)
      | none => applyQuota config out directory gib
    else ([], some "invalid quota helper arguments")
  | _ => ([], some "invalid quota helper arguments")

/-- The directory an argument vector asks to change, if it is well formed. -/
def addressed : List Bytes → Option Bytes
  | [verb, flag, directory] =>
    if (verb = lit "prepare" ∨ verb = lit "seal") ∧ flag = lit "--directory" then some directory
    else none
  | [verb, flag, directory, flag', gib] =>
    if verb = lit "apply" ∧ flag = lit "--directory" ∧ flag' = lit "--gib" ∧
        ((parseInt gib).filter (1 ≤ ·)).isSome then some directory
    else none
  | _ => none

variable {config : Config} {fs : FileSystem Inode} {directory d : Bytes} {out : Outside} {act : Act}

theorem validateDirectory_none :
    validateDirectory config fs directory = none ↔ lexicalChild config directory = true ∧
      ∃ i, fs.lstat directory = some i ∧ fs.isDir i = true := by
  unfold validateDirectory
  split
  next hlex => simp [hlex]
  next hlex =>
    split
    next hdir =>
      simp only [not_not] at hlex
      simp only [reduceCtorEq, hlex, true_and, false_iff, not_exists, not_and]
      intro i hi
      simpa [hi] using hdir
    next hdir =>
      simp only [not_not] at hlex hdir
      simpa [hlex, Option.any_eq_true] using hdir

/-- The acts on a directory are on the argument, after it was checked. -/
theorem mem_changeOwner {prepare : Bool}
    (ha : act ∈ (changeOwner out prepare directory).1) (hd : act.directory = some d) :
    d = directory := by
  unfold changeOwner at ha
  split at ha
  · cases ha
  · split at ha <;>
    · obtain rfl := List.mem_singleton.mp ha
      exact (Option.some.inj hd).symm

theorem mem_applyQuota {gib : Bytes}
    (ha : act ∈ (applyQuota config out directory gib).1) (hd : act.directory = some d) :
    d = directory ∧ ((parseInt gib).filter (1 ≤ ·)).isSome := by
  unfold applyQuota at ha
  split at ha
  · cases ha
  next limit hlimit =>
    refine ⟨?_, by rw [hlimit]; rfl⟩
    simp only [Outside.perform] at ha
    split at ha
    next acts err hp =>
      obtain ⟨rfl, -⟩ := Prod.mk.inj hp
      obtain rfl := List.mem_singleton.mp ha
      exact (Option.some.inj hd).symm
    next acts hp =>
      obtain ⟨rfl, -⟩ := Prod.mk.inj hp
      rcases List.mem_append.mp ha with ha | ha
      · obtain rfl := List.mem_singleton.mp ha
        exact (Option.some.inj hd).symm
      · obtain rfl := List.mem_singleton.mp ha
        simp [Act.directory] at hd

theorem mem_execute {args : List Bytes} (ha : act ∈ (execute config fs args out).1)
    (hd : act.directory = some d) :
    addressed args = some d ∧ validateDirectory config fs d = none := by
  unfold execute at ha
  split at ha
  next verb =>
    split at ha
    · obtain rfl := List.mem_singleton.mp ha
      simp [Act.directory] at hd
    · cases ha
  next verb flag directory =>
    split at ha
    next hargs =>
      split at ha
      · cases ha
      next hvalid =>
        obtain rfl := mem_changeOwner ha hd
        exact ⟨if_pos hargs, hvalid⟩
    · cases ha
  next verb flag directory flag' gib =>
    split at ha
    next hargs =>
      split at ha
      · cases ha
      next hvalid =>
        obtain ⟨rfl, hlimit⟩ := mem_applyQuota ha hd
        exact ⟨if_pos ⟨hargs.1, hargs.2.1, hargs.2.2, hlimit⟩, hvalid⟩
    · cases ha
  · cases ha

def smooth : Outside := ⟨fun _ => none, .ok (999, 999), fun _ _ _ _ _ => none⟩

theorem execute_smooth {args : List Bytes}
    (hd : addressed args = some d) (hvalid : validateDirectory config fs d = none) :
    ∃ act ∈ (execute config fs args smooth).1, act.directory = some d := by
  unfold addressed at hd
  split at hd
  next verb flag directory =>
    split at hd
    next hargs =>
      cases hd
      simp only [execute, if_pos hargs, hvalid, changeOwner, smooth, Outside.perform]
      split <;> exact ⟨_, List.mem_cons_self, rfl⟩
    · cases hd
  next verb flag directory flag' gib =>
    split at hd
    next hargs =>
      cases hd
      obtain ⟨limit, hlimit⟩ := Option.isSome_iff_exists.mp hargs.2.2.2
      simp only [execute, if_pos (And.intro hargs.1 (And.intro hargs.2.1 hargs.2.2.1)), hvalid,
        applyQuota, hlimit, smooth, Outside.perform]
      exact ⟨_, List.mem_cons_self, rfl⟩
    · cases hd
  · cases hd

theorem not_mem_of_not_containsAny {s chars : Bytes} (h : containsAny s chars = false) {b : UInt8}
    (hb : b ∈ chars) : b ∉ s := by
  intro hs
  have hall := List.any_eq_false.mp h b hs
  exact hall (List.contains_iff_mem.mpr hb)

theorem accepted_root (h : config.accepted = true) :
    isAbs config.workspaceRoot = true ∧ newline ∉ config.workspaceRoot := by
  simp only [Config.accepted, Bool.and_eq_true, Bool.not_eq_true'] at h
  obtain ⟨⟨⟨⟨habs, -⟩, hchars⟩, -⟩, -⟩ := h
  exact ⟨habs, fun hn => not_mem_of_not_containsAny hchars (by decide) (List.mem_append_left _ hn)⟩

theorem lexicalChild_directory (hc : config.accepted = true)
    (h : lexicalChild config directory = true) :
    isAbs directory = true ∧ newline ∉ directory := by
  unfold lexicalChild at h
  split at h
  · cases h
  next relative hrel =>
    simp only [Bool.not_eq_true', Bool.or_eq_false_iff, decide_eq_false_iff_not] at h
    obtain ⟨⟨⟨⟨hdot, -⟩, -⟩, -⟩, hchars⟩ := h
    exact ⟨(isAbs_of_rel hrel hdot).trans (accepted_root hc).1,
      not_mem_of_not_containsAny hchars (by decide)⟩

/-- **The helper changes direct children of the workspace root only, in every file system, exactly
for the arguments spelled as the workspace root and a name.** -/
theorem acts_on_direct_child_iff {config : Config} (hc : config.accepted = true)
    (args : List Bytes) :
    (∀ (Inode : Type) (fs : FileSystem Inode) (out : Outside),
      ∀ act ∈ (execute config fs args out).1, ∀ d, act.directory = some d →
        fs.DirectChild config.workspaceRoot d) ↔
    ∀ d, addressed args = some d → lexicalChild config d = true →
      Spelled config.workspaceRoot d := by
  constructor
  · intro hsafe d hd hlex
    by_contra hspell
    obtain ⟨habs, hnl⟩ := lexicalChild_directory hc hlex
    obtain ⟨Inode, fs, i, hi, hdir, hchild⟩ :=
      exists_not_directChild (accepted_root hc).1 habs (accepted_root hc).2 hnl hspell
    have hvalid : validateDirectory config fs d = none :=
      validateDirectory_none.mpr ⟨hlex, i, hi, hdir⟩
    obtain ⟨act, hact, hactd⟩ := execute_smooth hd hvalid
    exact hchild (hsafe Inode fs smooth act hact d hactd)
  · intro hspell Inode fs out act hact d hd
    obtain ⟨haddr, hvalid⟩ := mem_execute hact hd
    obtain ⟨hlex, i, hi, hdir⟩ := validateDirectory_none.mp hvalid
    exact (hspell d haddr hlex).directChild (accepted_root hc).1
      (lexicalChild_directory hc hlex).1 hi hdir

/-! ## A link in the workspace root -/

/-- The files of a node with workspaces under `/w` and a link `/w/l` to `/etc`. -/
inductive Demo where
  | top
  | w
  | etc
  | l
  deriving DecidableEq

def demo : FileSystem Demo where
  node
    | .top => .dir .top fun name =>
      if name = lit "w" then some .w else if name = lit "etc" then some .etc else none
    | .w => .dir .top fun name => if name = lit "l" then some .l else none
    | .etc => .dir .top fun _ => none
    | .l => .symlink (some .etc)
  root := .top
  cwd := .top
  root_parent := rfl
  entry_parent {d name c q} hc hq := by
    cases d with
    | top =>
      simp only [Node.entryAt] at hc
      split at hc
      · cases hc
        exact (Option.some.inj hq).symm
      split at hc
      · cases hc
        exact (Option.some.inj hq).symm
      · cases hc
    | w =>
      simp only [Node.entryAt] at hc
      split at hc
      · cases hc
        simp [Node.parent?] at hq
      · cases hc
    | etc | l => simp [Node.entryAt] at hc
  listed {d p} hp hd := by
    cases d with
    | top => exact absurd rfl hd
    | w => cases hp; exact ⟨lit "w", rfl⟩
    | etc => cases hp; exact ⟨lit "etc", rfl⟩
    | l => simp [Node.parent?] at hp
  grounded d hd := by
    cases d with
    | top => exact ⟨0, rfl⟩
    | w | etc => exact ⟨1, rfl⟩
    | l => simp [Node.parent?] at hd

def demoConfig : Config := ⟨lit "/w", lit "/w", 1, lit "xmcl"⟩

/-- `/w/s` is spelled as the workspace root and a name, so preparing it is safe in every file
system. -/
theorem acts_on_direct_child_iff_demo :
    demoConfig.accepted = true ∧ lexicalChild demoConfig (lit "/w/s") = true ∧
      ∀ (Inode : Type) (fs : FileSystem Inode) (out : Outside),
        ∀ act ∈ (execute demoConfig fs [lit "prepare", lit "--directory", lit "/w/s"] out).1,
          ∀ d, act.directory = some d → fs.DirectChild demoConfig.workspaceRoot d := by
  refine ⟨by decide, by decide, (acts_on_direct_child_iff (by decide) _).mpr fun d hd _ => ?_⟩
  obtain rfl : lit "/w/s" = d := Option.some.inj (Eq.trans (by decide) hd)
  exact ⟨components (lit "/w"), lit "s", by decide, by decide, .here⟩

/-- `prepare --directory /w/l/` passes both checks, and the ownership of `/etc` is changed. -/
theorem trailing_slash_leaves_workspace : demoConfig.accepted = true ∧
      (execute demoConfig demo [lit "prepare", lit "--directory", lit "/w/l/"] smooth).1 =
        [.transition (lit "/w/l/") 1000 999 0o750 0o640] ∧
      demo.lstat (lit "/w/l/") = some .etc ∧
      ¬ demo.DirectChild demoConfig.workspaceRoot (lit "/w/l/") := by
  refine ⟨by decide, by decide, by decide, ?_⟩
  rintro ⟨r, i, name, hr, hi, hentry⟩
  obtain rfl : .w = r := Option.some.inj (Eq.trans (by decide) hr)
  obtain rfl : .etc = i := Option.some.inj (Eq.trans (by decide) hi)
  simp [demo, Node.entryAt] at hentry

end SharedNode.Quota
