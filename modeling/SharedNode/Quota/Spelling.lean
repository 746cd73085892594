import Mathlib.Data.List.Induction
import Mathlib.Logic.Equiv.List
import SharedNode.Quota.FileSystem

/-!
# Spellings of a direct child

Which path strings name a direct child of a directory `root` in every file system, given that the
kernel finds a directory there. The answer is lexical (`Spelled`): the last component of the path is
a name, so that no link is followed at the end, and the components before it are those of `root`.

It is asked of the argument of the quota helper (`cmd/xmcl-quota-helper/main.go`).
-/

namespace SharedNode.Quota

open Text

variable {c path root : Bytes} {above cs h names : List Bytes}

def isName (c : Bytes) : Bool := !stays c && c ≠ dotdot

/-- Components that lead to where `above` leads, if `name` is a directory there. -/
inductive Around (above : List Bytes) (name : Bytes) : List Bytes → Prop where
  | here : Around above name above
  | detour {cs : List Bytes} (h : Around above name cs) : Around above name (cs ++ [name, dotdot])
  | top {cs : List Bytes} (hroot : above = []) (h : Around above name cs) :
      Around above name (cs ++ [dotdot])

theorem Around.length_le {name : Bytes} (h : Around above name cs) : above.length ≤ cs.length := by
  induction h with
  | here => exact Nat.le_refl _
  | detour h ih => rw [List.length_append]; omega
  | top hroot h ih => rw [List.length_append]; omega

/-- `path` is `root` followed by a name, component by component. -/
def Spelled (root path : Bytes) : Prop :=
  ∃ above name, components path = above ++ [name] ∧ isName name = true ∧
    Around (route above) name (route (components root))

theorem stays_of_isName (h : isName c = true) : stays c = false := by
  simpa [isName] using (Bool.and_eq_true_iff.mp h).1

theorem ne_dotdot_of_isName (h : isName c = true) : c ≠ dotdot := by
  simpa [isName] using (Bool.and_eq_true_iff.mp h).2

variable {Inode : Type} {fs : FileSystem Inode}

theorem FileSystem.step_name {d i : Inode} (hc : isName c = true) :
    fs.step d c = some i ↔ (fs.node d).entryAt c = some i := by
  unfold step
  cases fs.node d with
  | dir p entries =>
    simp only [stays_of_isName hc, ne_dotdot_of_isName hc, Bool.false_eq_true, if_false]
    rfl
  | symlink t => simp [Node.entryAt]
  | other => simp [Node.entryAt]

theorem FileSystem.isDir_of_entry {d i : Inode} (h : (fs.node d).entryAt c = some i) :
    fs.isDir d = true := by
  unfold isDir
  cases hn : fs.node d with
  | dir p entries => rfl
  | symlink t => rw [hn] at h; simp [Node.entryAt] at h
  | other => rw [hn] at h; simp [Node.entryAt] at h

theorem Around.walk {name : Bytes} (h : Around above name cs) {b i : Inode}
    (hname : isName name = true) (hb : fs.walk fs.root above = some b)
    (hi : (fs.node b).entryAt name = some i) (hdir : fs.isDir i = true) :
    fs.walk fs.root cs = some b := by
  induction h with
  | here => exact hb
  | detour h ih =>
    have hin : fs.enter b name = some i := by
      rw [FileSystem.enter, (FileSystem.step_name hname).mpr hi, Option.bind_some,
        FileSystem.follow_of_isDir hdir, Option.filter_some_pos hdir]
    obtain ⟨q, hq⟩ := Option.isSome_iff_exists.mp hdir
    obtain rfl : q = b := fs.entry_parent hi hq
    have hout : fs.enter i dotdot = some q :=
      FileSystem.enter_dotdot hq (FileSystem.isDir_of_entry hi)
    rw [FileSystem.walk_append, ih, Option.bind_some, FileSystem.walk, hin, Option.bind_some,
      FileSystem.walk, hout]
    rfl
  | top hroot h ih =>
    subst hroot
    obtain rfl : fs.root = b := Option.some.inj hb
    rw [FileSystem.walk_append, ih, Option.bind_some, FileSystem.walk,
      FileSystem.enter_dotdot fs.root_parent fs.isDir_root]
    rfl

/-- **A path spelled as `root` and a name, where a directory is found, is a direct child.** -/
theorem Spelled.directChild (hs : Spelled root path) (hroot : isAbs root = true)
    (hpath : isAbs path = true) {i : Inode} (hi : fs.lstat path = some i) (hdir : fs.isDir i = true)
    : fs.DirectChild root path := by
  obtain ⟨above, name, hcomp, hname, haround⟩ := hs
  have hlook := hi
  rw [FileSystem.lstat, FileSystem.start, if_pos hpath, hcomp, FileSystem.lookup_concat] at hlook
  obtain ⟨b, hb, hstep⟩ := Option.bind_eq_some_iff.mp hlook
  rw [FileSystem.step_name hname] at hstep
  rw [← FileSystem.walk_route] at hb
  refine ⟨b, i, name, ?_, hi, hstep⟩
  rw [FileSystem.directory, FileSystem.start, if_pos hroot, ← FileSystem.walk_route]
  exact haround.walk hname hb hstep hdir

/-! ## Paths that end in a slash, `.` or `..` -/

/-- A top directory (`true`) in which every name of `names` is a link back to it (`false`). -/
def loop (names : List Bytes) : FileSystem Bool where
  node
    | true => .dir true fun name => if name ∈ names then some false else none
    | false => .symlink (some true)
  root := true
  cwd := true
  root_parent := rfl
  entry_parent {d name c q} hc hq := by
    cases c with
    | true => cases d <;> simp [Node.entryAt] at hc
    | false => simp [Node.parent?] at hq
  listed {d p} hp hd := by
    cases d with
    | true => exact absurd rfl hd
    | false => simp [Node.parent?] at hp
  grounded d hd := by
    cases d with
    | true => exact ⟨0, rfl⟩
    | false => simp [Node.parent?] at hd

theorem loop_enter (hc : c ∈ names) : (loop names).enter true c = some true := by
  by_cases hs : stays c = true
  · exact FileSystem.enter_stays rfl hs
  by_cases hd : c = dotdot
  · subst hd
    exact FileSystem.enter_dotdot rfl rfl
  have hstep : (loop names).step true c = some false := by
    rw [FileSystem.step_name (by simp [isName, hs, hd])]
    exact if_pos hc
  rw [FileSystem.enter, hstep]
  rfl

theorem loop_walk (h : ∀ c ∈ cs, c ∈ names) : (loop names).walk true cs = some true := by
  induction cs with
  | nil => rfl
  | cons c cs ih =>
    rw [FileSystem.walk, loop_enter (h c List.mem_cons_self), Option.bind_some]
    exact ih fun d hd => h d (List.mem_cons_of_mem c hd)

theorem loop_not_directChild (h : (loop names).lstat path = some true) :
    ¬ (loop names).DirectChild root path := by
  rintro ⟨r, i, name, -, hi, hentry⟩
  obtain rfl : true = i := Option.mem_unique h hi
  cases r with
  | false => simp [loop, Node.entryAt] at hentry
  | true => simp [loop, Node.entryAt] at hentry

theorem loop_lstat (hpath : isAbs path = true) (hcomp : components path = above ++ [c])
    (hc : isName c = false) : (loop above).lstat path = some true := by
  have habove : (loop above).walk (loop above).root above = some true := loop_walk fun _ hd => hd
  rw [FileSystem.lstat, FileSystem.start, if_pos hpath, hcomp, FileSystem.lookup_concat, habove,
    Option.bind_some]
  by_cases hs : stays c = true
  · simp [FileSystem.step, loop, hs]
  · have hd : c = dotdot := by simpa [isName, hs] using hc
    simp [FileSystem.step, loop, hd]

/-! ## Other ways to the parent -/

instance countableUInt8 : Countable UInt8 :=
  Function.Injective.countable fun _ _ h => UInt8.toNat_inj.mp h

noncomputable def number : List Bytes → ℕ := Classical.choose (exists_injective_nat (List Bytes))

theorem number_injective : Function.Injective number :=
  Classical.choose_spec (exists_injective_nat (List Bytes))

/-- The newline, which neither a configured root nor a checked path contains. -/
def newline : UInt8 := 0x0a

/-- The name under which the place reached by `h` is listed. -/
noncomputable def hidden (h : List Bytes) : Bytes := newline :: List.replicate (number h) 0x61

theorem hidden_injective : Function.Injective hidden := by
  intro g h hgh
  refine number_injective ?_
  have hlen := congrArg List.length hgh
  simpa [hidden] using hlen

/-- The files of a maze: the place a route leads to, the link to it, and the one child. -/
inductive Place where
  | spot (h : List Bytes)
  | link (h : List Bytes)
  | child
  deriving DecidableEq

section Maze

/- Routes are kept in reverse. The child `name` is listed where `above` leads, and no route of
`limit` steps or more is needed. -/
variable (above : List Bytes) (name : Bytes) (limit : ℕ)

/-- Going up leads to a new place, too; from very deep it leads to the top. -/
def up (h : List Bytes) : List Bytes := if h = [] ∨ limit ≤ h.length then [] else dotdot :: h

open Classical in
/-- The entries of a place: links to the places one step further, the child, and the directories
this place is the parent of. -/
noncomputable def entries (h : List Bytes) (c : Bytes) : Option Place :=
  if h = above.reverse ∧ c = name then some .child
  else if hq : ∃ q, q ≠ [] ∧ up limit q = h ∧ hidden q = c then some (.spot (Classical.choose hq))
  else some (.link (c :: h))

noncomputable def mazeNode : Place → Node Place
  | .spot h => .dir (.spot (up limit h)) (entries above name limit h)
  | .link h => .symlink (some (.spot h))
  | .child => .dir (.spot above.reverse) fun _ => none

variable {above name limit}

theorem entries_hidden (hname : newline ∉ name) {q : List Bytes} (hq : q ≠ []) :
    entries above name limit (up limit q) (hidden q) = some (.spot q) := by
  have hne : ¬ (up limit q = above.reverse ∧ hidden q = name) := by
    rintro ⟨-, rfl⟩
    exact hname List.mem_cons_self
  have hex : ∃ q', q' ≠ [] ∧ up limit q' = up limit q ∧ hidden q' = hidden q := ⟨q, hq, rfl, rfl⟩
  rw [entries, if_neg hne, dif_pos hex]
  rw [hidden_injective (Classical.choose_spec hex).2.2]

theorem entries_parent {i q : Place} (hc : entries above name limit h c = some i)
    (hq : (mazeNode above name limit i).parent? = some q) : q = .spot h := by
  unfold entries at hc
  split at hc
  next hh =>
    cases hc
    cases hq
    rw [hh.1]
  split at hc
  next hex =>
    cases hc
    cases hq
    rw [(Classical.choose_spec hex).2.1]
  next =>
    cases hc
    simp [mazeNode, Node.parent?] at hq

variable (above name limit) in
theorem maze_grounded (h : List Bytes) :
    ∃ depth, (fun i => (mazeNode above name limit i).parent?.getD i)^[depth] (.spot h) =
      .spot [] := by
  induction hk : limit - h.length generalizing h with
  | zero =>
    have hup : up limit h = [] := if_pos (Or.inr (by omega))
    exact ⟨1, congrArg Place.spot hup⟩
  | succ k ih =>
    by_cases hnil : h = []
    · exact ⟨0, by rw [hnil]; rfl⟩
    · have hup : up limit h = dotdot :: h := if_neg (by rintro (h' | h') <;> [exact hnil h'; omega])
      obtain ⟨depth, hd⟩ := ih (dotdot :: h) (by simp only [List.length_cons]; omega)
      refine ⟨depth + 1, ?_⟩
      simpa [mazeNode, Node.parent?, hup] using hd

variable (above limit) in
/-- A file system in which every route leads to a place of its own. -/
noncomputable def maze (hname : newline ∉ name) : FileSystem Place where
  node := mazeNode above name limit
  root := .spot []
  cwd := .spot []
  root_parent := by simp [mazeNode, Node.parent?, up]
  entry_parent {d c i q} hc hq := by
    cases d with
    | spot h => exact entries_parent hc hq
    | link h => simp [mazeNode, Node.entryAt] at hc
    | child => simp [mazeNode, Node.entryAt] at hc
  listed {d p} hp hd := by
    cases d with
    | spot h =>
      cases hp
      exact ⟨hidden h, entries_hidden hname fun hnil => hd (by rw [hnil])⟩
    | link h => simp [mazeNode, Node.parent?] at hp
    | child =>
      cases hp
      exact ⟨name, if_pos ⟨rfl, rfl⟩⟩
  grounded d hd := by
    cases d with
    | spot h => exact maze_grounded above name limit h
    | link h => simp [mazeNode, Node.parent?] at hd
    | child =>
      obtain ⟨depth, hd⟩ := maze_grounded above name limit above.reverse
      exact ⟨depth + 1, by rw [Function.iterate_succ_apply]; exact hd⟩

variable {hname : newline ∉ name}

theorem maze_up (h : List Bytes) :
    (maze above limit hname).enter (.spot h) dotdot = some (.spot (up limit h)) :=
  FileSystem.enter_dotdot rfl rfl

theorem maze_enter (hc : isName c = true) (hn : newline ∉ c) (h : List Bytes) :
    (maze above limit hname).enter (.spot h) c =
      some (if h = above.reverse ∧ c = name then .child else .spot (c :: h)) := by
  by_cases hh : h = above.reverse ∧ c = name
  · have hstep : (maze above limit hname).step (.spot h) c = some .child :=
      (FileSystem.step_name hc).mpr (if_pos hh)
    rw [FileSystem.enter, hstep, if_pos hh]
    rfl
  · have hno : ¬ ∃ q, q ≠ [] ∧ up limit q = h ∧ hidden q = c := by
      rintro ⟨q, -, -, rfl⟩
      exact hn List.mem_cons_self
    have hentry : entries above name limit h c = some (.link (c :: h)) := by
      rw [entries, if_neg hh, dif_neg hno]
    have hstep : (maze above limit hname).step (.spot h) c = some (.link (c :: h)) :=
      (FileSystem.step_name hc).mpr hentry
    rw [FileSystem.enter, hstep, if_neg hh]
    rfl

theorem maze_enter_child (hc : isName c = true) :
    (maze above limit hname).enter .child c = none := by
  have hstep : (maze above limit hname).step .child c = none := by
    simp [FileSystem.step, maze, mazeNode, stays_of_isName hc, ne_dotdot_of_isName hc]
  rw [FileSystem.enter, hstep]
  rfl

/-- The components of a route: no step stays, and none has a newline. -/
def Steps (cs : List Bytes) : Prop := ∀ c ∈ cs, stays c = false ∧ newline ∉ c

variable (above name) in
/-- What the place a route leads to tells about the route. -/
def Reached (cs : List Bytes) : Place → Prop
  | .spot h => h.length ≤ cs.length ∧ (cs = h.reverse ∨
      ∃ around rest, Around above name around ∧ cs = around ++ rest ∧ h.reverse = above ++ rest)
  | .child => ∃ around, Around above name around ∧ cs = around ++ [name]
  | .link _ => False

theorem reached_up (hr : Reached above name cs (.spot h)) (hlim : cs.length < limit)
    (hhead : (cs ++ [dotdot]).head? ≠ some dotdot) :
    Reached above name (cs ++ [dotdot]) (.spot (up limit h)) := by
  obtain ⟨hlen, hr⟩ := hr
  by_cases hnil : h = []
  · have hup : Quota.up limit h = [] := if_pos (Or.inl hnil)
    rw [hup]
    subst hnil
    rcases hr with rfl | ⟨around, rest, ha, rfl, hrest⟩
    · exact absurd rfl hhead
    · obtain ⟨habove, rfl⟩ := List.append_eq_nil_iff.mp hrest.symm
      exact ⟨by simp, Or.inr ⟨_, [], ha.top habove, by simp, by simp [habove]⟩⟩
  · have hup : Quota.up limit h = dotdot :: h :=
      if_neg (by rintro (h' | h') <;> [exact hnil h'; omega])
    rw [hup]
    refine ⟨by simpa using hlen, ?_⟩
    rcases hr with rfl | ⟨around, rest, ha, rfl, hrest⟩
    · exact Or.inl (by simp)
    · exact Or.inr ⟨around, rest ++ [dotdot], ha, by simp, by simp [hrest]⟩

theorem reached_name (hr : Reached above name cs (.spot h)) (c : Bytes) :
    Reached above name (cs ++ [c])
      (if h = above.reverse ∧ c = name then .child else .spot (c :: h)) := by
  obtain ⟨hlen, hr⟩ := hr
  split
  next hh =>
    obtain ⟨rfl, rfl⟩ := hh
    rcases hr with rfl | ⟨around, rest, ha, rfl, hrest⟩
    · exact ⟨above, .here, by simp⟩
    · obtain rfl : rest = [] := by simpa using hrest
      exact ⟨around, ha, by simp⟩
  next hh =>
    refine ⟨by simpa using hlen, ?_⟩
    rcases hr with rfl | ⟨around, rest, ha, rfl, hrest⟩
    · exact Or.inl (by simp)
    · exact Or.inr ⟨around, rest ++ [c], ha, by simp, by simp [hrest]⟩

theorem maze_reached (hcs : Steps cs) (hhead : cs.head? ≠ some dotdot) (hlim : cs.length < limit)
    {i : Place} (hi : (maze above limit hname).walk (.spot []) cs = some i) :
    Reached above name cs i := by
  induction cs using List.reverseRecOn generalizing i with
  | nil =>
    cases hi
    exact ⟨Nat.le_refl _, Or.inl rfl⟩
  | append_singleton cs c ih =>
    rw [FileSystem.walk_append] at hi
    obtain ⟨j, hj, hi⟩ := Option.bind_eq_some_iff.mp hi
    obtain ⟨k, hk, hi⟩ := Option.bind_eq_some_iff.mp hi
    obtain rfl : k = i := Option.some.inj hi
    have hc := hcs c (List.mem_append_right cs List.mem_cons_self)
    have hlim' : cs.length < limit := by simp at hlim; omega
    have hhead' : cs.head? ≠ some dotdot := by
      cases cs with
      | nil => simp
      | cons b cs => simpa using hhead
    have hprev := ih (List.forall_mem_append.mp hcs).1 hhead' hlim' hj
    by_cases hdd : c = dotdot
    · subst hdd
      cases j with
      | spot h =>
        cases hk
        exact reached_up hprev hlim' hhead
      | link h => exact hprev.elim
      | child =>
        cases hk
        obtain ⟨around, ha, rfl⟩ := hprev
        refine ⟨?_, Or.inr ⟨_, [], ha.detour, by simp, by simp⟩⟩
        have hlen := ha.length_le
        simp only [List.length_reverse, List.length_append, List.length_singleton]
        omega
    · have hcn : isName c = true := by simp [isName, hc.1, hdd]
      cases j with
      | spot h =>
        rw [maze_enter hcn hc.2] at hk
        cases hk
        exact reached_name hprev c
      | link h => exact hprev.elim
      | child => rw [maze_enter_child hcn] at hk; cases hk

/-- The components before the name lead to the place where it is listed. -/
theorem maze_walk_above (hcs : Steps above) (hhead : above.head? ≠ some dotdot)
    (hlim : above.length < limit) :
    (maze above limit hname).walk (.spot []) above = some (.spot above.reverse) := by
  suffices h : ∀ cs, cs <+: above →
      (maze above limit hname).walk (.spot []) cs = some (.spot cs.reverse) from
    h above (List.prefix_refl above)
  intro cs
  induction cs using List.reverseRecOn with
  | nil => exact fun _ => rfl
  | append_singleton cs c ih =>
    intro hpre
    have hlen : cs.length < above.length := by
      have hle := hpre.length_le
      rw [List.length_append, List.length_singleton] at hle
      omega
    have hc := hcs c (hpre.subset (List.mem_append_right cs List.mem_cons_self))
    rw [FileSystem.walk_append, ih ((List.prefix_append cs [c]).trans hpre), Option.bind_some,
      FileSystem.walk]
    by_cases hdd : c = dotdot
    · have hnil : cs ≠ [] := by
        rintro rfl
        obtain ⟨rest, hrest⟩ := hpre
        exact hhead (by rw [← hrest, hdd]; rfl)
      have hup : up limit cs.reverse = dotdot :: cs.reverse := by
        refine if_neg ?_
        rw [List.reverse_eq_nil_iff, List.length_reverse]
        rintro (h' | h') <;> [exact hnil h'; omega]
      rw [hdd, maze_up, hup]
      simp [FileSystem.walk]
    · have hne : ¬ (cs.reverse = above.reverse ∧ c = name) := by
        rintro ⟨h', -⟩
        rw [List.reverse_inj.mp h'] at hlen
        exact absurd hlen (Nat.lt_irrefl _)
      rw [maze_enter (by simp [isName, hc.1, hdd]) hc.2, if_neg hne]
      simp [FileSystem.walk]

theorem maze_entry_child {i : Place} (h : ((maze above limit hname).node i).entryAt c = some .child)
    : i = .spot above.reverse := by
  have hparent : ((maze above limit hname).node .child).parent? = some (.spot above.reverse) := rfl
  exact ((maze above limit hname).entry_parent h hparent).symm

end Maze

theorem steps_route {p : Bytes} (hp : newline ∉ p) (hcs : ∀ c ∈ cs, c ∈ components p) :
    Steps (route cs) := by
  intro c hc
  have hmem := (List.dropWhile_sublist _).subset hc
  rw [List.mem_filter] at hmem
  exact ⟨by simpa using hmem.2, fun hn => hp (mem_of_mem_components (hcs c hmem.1) hn)⟩

theorem route_head (cs : List Bytes) : (route cs).head? ≠ some dotdot := by
  intro h
  have hhead := List.head?_dropWhile_not (· = dotdot) (cs.filter fun c => !stays c)
  rw [show List.dropWhile _ _ = route cs from rfl, h] at hhead
  simp at hhead

/-- **Any other spelling names some other directory in some file system.** -/
theorem exists_not_directChild (hroot : isAbs root = true) (hpath : isAbs path = true)
    (hnlr : newline ∉ root) (hnlp : newline ∉ path) (hs : ¬ Spelled root path) :
    ∃ (Inode : Type) (fs : FileSystem Inode) (i : Inode), fs.lstat path = some i ∧
      fs.isDir i = true ∧ ¬ fs.DirectChild root path := by
  obtain ⟨above, c, hcomp⟩ : ∃ above c, components path = above ++ [c] :=
    ⟨_, _, (List.dropLast_append_getLast (List.splitOn_ne_nil slash path)).symm⟩
  by_cases hc : isName c = true
  · have hcn : newline ∉ c := fun hn =>
      hnlp (mem_of_mem_components
        (by rw [hcomp]; exact List.mem_append_right _ List.mem_cons_self) hn)
    have habove : Steps (route above) := steps_route hnlp fun d hd => by
      rw [hcomp]
      exact List.mem_append_left _ hd
    have hsteps : Steps (route (components root)) := steps_route hnlr fun d hd => hd
    -- the maze whose child is where `above` leads, deep enough for both routes
    let fs := maze (route above) ((route above).length + (route (components root)).length + 1) hcn
    have hwalk : fs.walk fs.root above = some (.spot (route above).reverse) := by
      rw [← FileSystem.walk_route]
      exact maze_walk_above habove (route_head above) (by omega)
    have hstep : fs.step (.spot (route above).reverse) c = some .child :=
      (FileSystem.step_name hc).mpr (if_pos ⟨rfl, rfl⟩)
    have hlstat : fs.lstat path = some .child := by
      rw [FileSystem.lstat, FileSystem.start, if_pos hpath, hcomp, FileSystem.lookup_concat, hwalk,
        Option.bind_some, hstep]
    refine ⟨Place, fs, .child, hlstat, rfl, ?_⟩
    rintro ⟨r, i, name, hr, hi, hentry⟩
    obtain rfl : .child = i := Option.mem_unique hlstat hi
    obtain rfl := maze_entry_child hentry
    rw [FileSystem.directory, FileSystem.start, if_pos hroot, ← FileSystem.walk_route] at hr
    obtain ⟨-, hreach⟩ := maze_reached hsteps (route_head _) (by omega) hr
    refine hs ⟨above, c, hcomp, hc, ?_⟩
    rcases hreach with heq | ⟨around, rest, ha, heq, hrest⟩
    · rw [heq, List.reverse_reverse]
      exact .here
    · obtain rfl : rest = [] := by simpa using hrest
      rw [heq, List.append_nil]
      exact ha
  · have hl := loop_lstat hpath hcomp (by simpa using hc)
    exact ⟨Bool, loop above, true, hl, rfl, loop_not_directChild hl⟩

end SharedNode.Quota
