import Mathlib.Logic.Function.Basic
import SharedNode.Text.Bytes

/-!
# Reading a shell script

The part of a POSIX shell that decides whether a script only assigns variables: quotes, backslashes,
comments, words and assignments. A script is scanned into symbols, its lines are cut into words, and
a line of assignments alone assigns. Whatever else a line does, such as a command, an expansion or
an operator, is `Statement.other`; what it does is left open. A NUL is dropped, as `bash` does.

An unquoted tilde counts as an expansion wherever it stands in a value, and what follows an
expansion is scanned as if it were not there.

* `Quotes`: a text that stands for a value in any place of a word.
* `source_assignments`: lines of a name, an equals sign and such a text assign the values.
-/

namespace SharedNode.Text.Shell

/-- What a byte of a script stands for. -/
inductive Symbol where
  /-- An unquoted byte that stands for itself. -/
  | byte (b : UInt8)
  | quoted (b : UInt8)
  /-- An opening quote; an empty string in quotes is a word. -/
  | quote
  /-- An expansion or an operator. -/
  | special (b : UInt8)
  | blank
  | newline
  deriving DecidableEq

def Symbol.text : Symbol → Option UInt8
  | .byte b | .quoted b => some b
  | _ => none

/-- Where a byte stands: between words, in a word, in quotes, behind a backslash or in a comment. -/
inductive Mode where
  | start
  | word
  | single
  | double
  | escape (inWord : Bool)
  | doubleEscape
  | comment
  deriving DecidableEq

/-- The unquoted bytes that do not stand for themselves. -/
def isReserved (b : UInt8) : Bool := (lit "'\"\\\n \t#;&|<>()$`").contains b

/-- The symbols of an unquoted byte, and where the next byte stands. -/
def unquoted (inWord : Bool) (b : UInt8) : List Symbol × Mode :=
  if ¬ isReserved b then ([.byte b], .word)
  else if b = 0x27 then ([.quote], .single)
  else if b = 0x22 then ([.quote], .double)
  else if b = 0x5c then ([], .escape inWord)
  else if b = 0x0a then ([.newline], .start)
  else if b = 0x20 ∨ b = 0x09 then ([.blank], .start)
  else if b = 0x23 then if inWord then ([.byte b], .word) else ([], .comment)
  else if b = 0x24 ∨ b = 0x60 then ([.special b], .word)
  else ([.special b], .start)

/-- The symbols of a byte, and where the next byte stands. -/
def next (b : UInt8) : Mode → List Symbol × Mode
  | .start => unquoted false b
  | .word => unquoted true b
  | .single => if b = 0x27 then ([], .word) else ([.quoted b], .single)
  | .double =>
    if b = 0x22 then ([], .word)
    else if b = 0x5c then ([], .doubleEscape)
    else if b = 0x24 ∨ b = 0x60 then ([.special b], .double)
    else ([.quoted b], .double)
  | .escape inWord =>
    if b = 0x0a then ([], if inWord then .word else .start) else ([.quoted b], .word)
  | .doubleEscape =>
    if b = 0x0a then ([], .double)
    else if (lit "$`\"\\").contains b then ([.quoted b], .double)
    else ([.quoted 0x5c, .quoted b], .double)
  | .comment => if b = 0x0a then ([.newline], .start) else ([], .comment)

/-- The symbols of a text; `none` if a quote is not closed. -/
def scan : Bytes → Mode → Option (List Symbol)
  | [], .single | [], .double | [], .doubleEscape => none
  | [], .escape _ => some [.quoted 0x5c]
  | [], _ => some []
  | b :: rest, mode => (scan rest (next b mode).2).map ((next b mode).1 ++ ·)

def isNameByte (b : UInt8) : Bool :=
  (0x41 ≤ b && b ≤ 0x5a) || (0x61 ≤ b && b ≤ 0x7a) || (0x30 ≤ b && b ≤ 0x39) || b = 0x5f

/-- The name of a variable: it does not start with a digit. -/
def isName (name : Bytes) : Bool :=
  name.all isNameByte && name.head?.any fun b => !(0x30 ≤ b && b ≤ 0x39)

/-- The name and the value of a word that assigns. -/
def assignment (word : List Symbol) : Option (Bytes × Bytes) :=
  let front := word.takeWhile (· ≠ .byte 0x3d)
  let value := word.drop (front.length + 1)
  let name := front.filterMap Symbol.text
  if front = name.map .byte ∧ isName name ∧ front.length < word.length ∧
      value.all (fun x => x.text.isSome || x = .quote) ∧ .byte 0x7e ∉ value then
    some (name, value.filterMap Symbol.text)
  else none

inductive Statement where
  | assign (name value : Bytes)
  | other
  deriving DecidableEq

def command (line : List Symbol) : List Statement :=
  match ((line.splitOn .blank).filter (· ≠ [])).mapM assignment with
  | some l => l.map fun a => .assign a.1 a.2
  | none => [.other]

def statements (script : Bytes) : Option (List Statement) :=
  (scan (script.filter (· ≠ 0)) .start).map fun symbols =>
    (symbols.splitOn .newline).flatMap command

abbrev Env := Bytes → Option Bytes

/-- A statement; `none` if it does something else than to assign a variable. -/
def Statement.run (env : Env) : Statement → Option Env
  | .assign name value => some (Function.update env name (some value))
  | .other => none

/-- `source`: the variables after a script that does nothing but assign them. -/
def source (script : Bytes) (env : Env) : Option Env :=
  (statements script).bind fun l => l.foldlM Statement.run env

/-! ## Assignments -/

/-- In a word the text stands for the value, with all of its bytes in quotes. -/
def Quotes (text value : Bytes) : Prop :=
  ∃ symbols : List Symbol, symbols.filterMap Symbol.text = value ∧
    (∀ x ∈ symbols, x = .quote ∨ ∃ b, x = .quoted b) ∧
    ∀ rest, scan (text ++ rest) .word = (scan rest .word).map (symbols ++ ·)

variable {name : Bytes} {b : UInt8} {mode : Mode} {rest : Bytes}

theorem scan_cons {l : List Symbol} {mode' : Mode} (h : next b mode = (l, mode')) (rest : Bytes) :
    scan (b :: rest) mode = (scan rest mode').map (l ++ ·) := by
  rw [scan, h]

theorem next_unreserved (hmode : mode = .start ∨ mode = .word) (hb : isReserved b = false) :
    next b mode = ([.byte b], .word) := by
  rcases hmode with rfl | rfl
  · exact if_pos (by simp [hb])
  · exact if_pos (by simp [hb])

theorem isReserved_of_isNameByte (h : isNameByte b = true) : isReserved b = false := by
  have hall : ∀ n : Fin 256, isNameByte (UInt8.ofFin n) = true →
      isReserved (UInt8.ofFin n) = false := by
    decide +kernel
  exact hall b.toFin h

theorem scan_name (hname : ∀ b ∈ name, isNameByte b = true) (hmode : mode = .start ∨ mode = .word) :
    scan (name ++ 0x3d :: rest) mode =
      (scan rest .word).map ((name.map .byte ++ [.byte 0x3d]) ++ ·) := by
  induction name generalizing mode with
  | nil => exact scan_cons (next_unreserved hmode (by decide)) rest
  | cons b name ih =>
    rw [List.forall_mem_cons] at hname
    rw [List.cons_append, scan_cons (next_unreserved hmode (isReserved_of_isNameByte hname.1)),
      ih hname.2 (Or.inr rfl), Option.map_map]
    rfl

def entryWord (name : Bytes) (symbols : List Symbol) : List Symbol :=
  name.map .byte ++ .byte 0x3d :: symbols

section Words

variable {value : Bytes} {symbols : List Symbol}
  (hquoted : ∀ x ∈ symbols, x = .quote ∨ ∃ b, x = .quoted b)

include hquoted

theorem assignment_entryWord (hname : isName name = true) :
    assignment (entryWord name symbols) = some (name, symbols.filterMap Symbol.text) := by
  have hbytes := hname
  rw [isName, Bool.and_eq_true, List.all_eq_true] at hbytes
  have hfront : (entryWord name symbols).takeWhile (· ≠ .byte 0x3d) = name.map .byte := by
    rw [entryWord, List.takeWhile_append_of_pos, List.takeWhile_cons_of_neg (by simp),
      List.append_nil]
    intro x hx
    obtain ⟨b, hb, rfl⟩ := List.mem_map.mp hx
    have hne : b ≠ 0x3d := by
      rintro rfl
      exact absurd (hbytes.1 _ hb) (by decide)
    simpa using hne
  have htext : (name.map Symbol.byte).filterMap Symbol.text = name := by
    rw [List.filterMap_map]
    exact List.filterMap_some
  have hdrop : (entryWord name symbols).drop ((name.map Symbol.byte).length + 1) = symbols := by
    simp [entryWord, List.drop_append]
  unfold assignment
  simp only [hfront, hdrop, htext]
  rw [if_pos]
  refine ⟨trivial, hname, by simp [entryWord], List.all_eq_true.mpr fun x hx => ?_, fun hx => ?_⟩
  · obtain rfl | ⟨b, rfl⟩ := hquoted x hx <;> rfl
  · obtain h | ⟨b, h⟩ := hquoted _ hx <;> cases h

theorem mem_entryWord {x : Symbol} (hx : x ∈ entryWord name symbols) :
    x ≠ .newline ∧ x ≠ .blank := by
  rcases List.mem_append.mp hx with hx | hx
  · obtain ⟨b, -, rfl⟩ := List.mem_map.mp hx
    exact ⟨nofun, nofun⟩
  · rcases List.mem_cons.mp hx with rfl | hx
    · exact ⟨nofun, nofun⟩
    · obtain rfl | ⟨b, rfl⟩ := hquoted x hx <;> exact ⟨nofun, nofun⟩

theorem command_entryWord (hname : isName name = true) :
    command (entryWord name symbols) = [.assign name (symbols.filterMap Symbol.text)] := by
  have hblank : (entryWord name symbols).splitOn .blank = [entryWord name symbols] :=
    List.splitOn_eq_singleton fun h => (mem_entryWord hquoted h).2 rfl
  have hne : entryWord name symbols ≠ [] := by simp [entryWord]
  rw [command, hblank, List.filter_cons_of_pos (by simpa using hne), List.filter_nil]
  simp [assignment_entryWord hquoted hname]

end Words

/-- Lines of names and texts that stand for values assign the values, in order. -/
theorem scan_lines {entries : List (Bytes × Bytes)} {text : Bytes → Bytes}
    (hnames : ∀ e ∈ entries, isName e.1 = true) (htexts : ∀ e ∈ entries, Quotes (text e.2) e.2) :
    (scan (entries.flatMap fun e => e.1 ++ 0x3d :: (text e.2 ++ [0x0a])) .start).map
        (fun symbols => (symbols.splitOn .newline).flatMap command) =
      some (entries.map fun e => .assign e.1 e.2) := by
  induction entries with
  | nil => rfl
  | cons e entries ih =>
    rw [List.forall_mem_cons] at hnames htexts
    obtain ⟨symbols, hvalue, hquoted, htext⟩ := htexts.1
    have hname := hnames.1
    rw [isName, Bool.and_eq_true, List.all_eq_true] at hname
    obtain ⟨tail, hscan, htail⟩ := Option.map_eq_some_iff.mp (ih hnames.2 htexts.2)
    have hline : scan ((e :: entries).flatMap fun e => e.1 ++ 0x3d :: (text e.2 ++ [0x0a])) .start =
        some (entryWord e.1 symbols ++ .newline :: tail) := by
      simp only [List.flatMap_cons, List.append_assoc, List.cons_append, List.nil_append]
      have hnewline : next 0x0a .word = ([.newline], .start) := rfl
      rw [scan_name hname.1 (Or.inl rfl), htext, scan_cons hnewline, hscan]
      simp [entryWord]
    rw [hline, Option.map_some, List.splitOn_append_cons_self_of_not_mem fun h =>
      (mem_entryWord hquoted h).1 rfl, List.flatMap_cons, command_entryWord hquoted hnames.1, htail,
      hvalue]
    rfl

/-- A script of such lines leaves every variable with its value, and changes no other. -/
theorem source_lines {entries : List (Bytes × Bytes)} {text : Bytes → Bytes}
    (hnames : ∀ e ∈ entries, isName e.1 = true) (htexts : ∀ e ∈ entries, Quotes (text e.2) e.2)
    (hnul : 0 ∉ entries.flatMap fun e => e.1 ++ 0x3d :: (text e.2 ++ [0x0a]))
    (hdistinct : (entries.map (·.1)).Nodup) (env : Env) :
    ∃ env', source (entries.flatMap fun e => e.1 ++ 0x3d :: (text e.2 ++ [0x0a])) env = some env' ∧
      (∀ e ∈ entries, env' e.1 = some e.2) ∧ ∀ name ∉ entries.map (·.1), env' name = env name := by
  have hstatements : statements (entries.flatMap fun e => e.1 ++ 0x3d :: (text e.2 ++ [0x0a])) =
      some (entries.map fun e => .assign e.1 e.2) := by
    rw [statements, List.filter_eq_self.mpr fun b hb => ?_, scan_lines hnames htexts]
    exact decide_eq_true fun h => hnul (h ▸ hb)
  rw [source, hstatements, Option.bind_some]
  clear hstatements hnames htexts hnul
  induction entries generalizing env with
  | nil => exact ⟨env, rfl, nofun, fun _ _ => rfl⟩
  | cons e entries ih =>
    rw [List.map_cons, List.nodup_cons] at hdistinct
    obtain ⟨env', hrun, hvalues, hrest⟩ := ih hdistinct.2 (Function.update env e.1 (some e.2))
    refine ⟨env', hrun, ?_, fun name hname => ?_⟩
    · rw [List.forall_mem_cons]
      exact ⟨by rw [hrest _ hdistinct.1, Function.update_self], hvalues⟩
    · rw [List.map_cons, List.mem_cons, not_or] at hname
      rw [hrest _ hname.2, Function.update_of_ne hname.1]

end SharedNode.Text.Shell
