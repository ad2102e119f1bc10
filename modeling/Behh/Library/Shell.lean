import Mathlib.Data.List.Basic
import Mathlib.Tactic.Common

/-!
# Commands for the shell

How a POSIX shell reads a text as a list of simple commands. Words consist of characters without
special meaning, of quoted characters and of texts in quotes. A here-document with a delimiter that
is not quoted, named at the end of a line, makes the lines that follow the input of the command, up
to the first line that is the delimiter.

What needs more of the shell than this is not read: expansions, patterns, assignments, the other
redirections, compound commands. A text that is read to a list of commands is that list of commands
for every shell.

A text is *verbatim* before a character when the shell takes all of it for itself, where some
characters are special and a backslash escapes some.

## Main definitions

* `Command`, `State`: commands, and how far a text has been read.
* `parse`: the commands of a text.
* `Verbatim`: texts without meaning to the shell.

## Main results

* `run_double`: a verbatim text between double quotes.
* `run_body`: a verbatim text in a here-document.
* `verbatim_append_iff`, `Verbatim.mono`: texts put together, and where less is special.
-/

namespace Shell

/-- A text. -/
abbrev Text : Type := List UInt8

/-! ### Characters -/

abbrev tab : UInt8 := 0x09
abbrev newline : UInt8 := 0x0a
abbrev space : UInt8 := 0x20
abbrev quote : UInt8 := 0x22
abbrev hash : UInt8 := 0x23
abbrev dollar : UInt8 := 0x24
abbrev apostrophe : UInt8 := 0x27
abbrev semicolon : UInt8 := 0x3b
abbrev less : UInt8 := 0x3c
abbrev backslash : UInt8 := 0x5c
abbrev backquote : UInt8 := 0x60

/-- Letters, digits and the underscore. -/
def isName (c : UInt8) : Bool :=
  (0x30 ≤ c && c ≤ 0x39) || (0x41 ≤ c && c ≤ 0x5a) || (0x61 ≤ c && c ≤ 0x7a) || c == 0x5f

/-- Characters that stand for themselves outside of quotes: besides these `%`, `+`, `,`, `-`, `.`,
`/`, `:` and `@`. -/
def isPlain (c : UInt8) : Bool :=
  isName c || [0x25, 0x2b, 0x2c, 0x2d, 0x2e, 0x2f, 0x3a, 0x40].contains c

/-- Words with a meaning of their own at the beginning of a command. -/
def reserved : List Text :=
  ["case", "do", "done", "elif", "else", "esac", "fi", "for", "if", "in", "then", "until",
    "while"].map fun s => s.toList.map fun c => UInt8.ofNat c.toNat

/-! ### Reading -/

/-- A simple command. -/
structure Command where
  /-- The name of the command, and its arguments. -/
  words : List Text
  /-- The here-document, if there is one. -/
  input : Option Text
  deriving DecidableEq

/-- Where a text is being read. -/
inductive Mode where
  /-- Outside of quotes, in a word or between words. -/
  | command (word : Option Text)
  /-- Behind a backslash outside of quotes. -/
  | escaped (word : Option Text)
  /-- In double quotes. -/
  | double (word : Text)
  /-- Behind a backslash in double quotes. -/
  | doubleEscaped (word : Text)
  /-- In single quotes. -/
  | single (word : Text)
  /-- In a comment. -/
  | comment
  /-- Behind the first character of `<<`. -/
  | less
  /-- In the delimiter of a here-document. -/
  | delimiter (delim : Text)
  /-- In a line of a here-document. -/
  | body (delim text line : Text)
  /-- Behind a backslash in a line of a here-document. -/
  | bodyEscaped (delim text line : Text)
  deriving DecidableEq

/-- How far a text has been read. -/
structure State where
  /-- The commands that are complete. -/
  done : List Command
  /-- The words of the command. -/
  words : List Text
  /-- What is being read. -/
  mode : Mode
  deriving DecidableEq

namespace State

/-- A word ends. -/
def endWord (s : State) (word : Option Text) : State :=
  { s with words := s.words ++ word.toList, mode := .command none }

/-- A command ends. -/
def endCommand (s : State) (input : Option Text) : Option State :=
  match s.words, input with
  | [], none => some { s with mode := .command none }
  | [], some _ => none
  | name :: args, input =>
    if name ∈ reserved then none
    else some { done := s.done ++ [⟨name :: args, input⟩], words := [], mode := .command none }

/-- One character. -/
def step (s : State) (c : UInt8) : Option State :=
  match s.mode with
  | .command word =>
    if c = space ∨ c = tab then some (s.endWord word)
    else if c = newline then (s.endWord word).endCommand none
    else if c = semicolon then
      if (s.endWord word).words = [] then none else (s.endWord word).endCommand none
    else if c = quote then some { s with mode := .double (word.getD []) }
    else if c = apostrophe then some { s with mode := .single (word.getD []) }
    else if c = backslash then some { s with mode := .escaped word }
    else if c = hash ∧ word = none then some { s with mode := .comment }
    else if c = Shell.less ∧ word = none then some { s with mode := .less }
    else if isPlain c then some { s with mode := .command (some (word.getD [] ++ [c])) }
    else none
  | .escaped word =>
    if c = newline then some { s with mode := .command word }
    else some { s with mode := .command (some (word.getD [] ++ [c])) }
  | .double word =>
    if c = quote then some { s with mode := .command (some word) }
    else if c = backslash then some { s with mode := .doubleEscaped word }
    else if c = dollar ∨ c = backquote then none
    else some { s with mode := .double (word ++ [c]) }
  | .doubleEscaped word =>
    if c = newline then some { s with mode := .double word }
    else if c ∈ [dollar, backquote, quote, backslash] then
      some { s with mode := .double (word ++ [c]) }
    else some { s with mode := .double (word ++ [backslash, c]) }
  | .single word =>
    if c = apostrophe then some { s with mode := .command (some word) }
    else some { s with mode := .single (word ++ [c]) }
  | .comment => if c = newline then s.endCommand none else some s
  | .less => if c = Shell.less then some { s with mode := .delimiter [] } else none
  | .delimiter delim =>
    if c = space ∧ delim = [] then some s
    else if c = newline ∧ delim ≠ [] then some { s with mode := .body delim [] [] }
    else if isName c then some { s with mode := .delimiter (delim ++ [c]) }
    else none
  | .body delim text line =>
    if c = newline then
      if line = delim then s.endCommand (some text)
      else some { s with mode := .body delim (text ++ line ++ [newline]) [] }
    else if c = backslash then some { s with mode := .bodyEscaped delim text line }
    else if c = dollar ∨ c = backquote then none
    else some { s with mode := .body delim text (line ++ [c]) }
  | .bodyEscaped delim text line =>
    if c = newline then none
    else if c ∈ [dollar, backquote, backslash] then
      some { s with mode := .body delim text (line ++ [c]) }
    else some { s with mode := .body delim text (line ++ [backslash, c]) }

/-- The text ends; a here-document ends with it. -/
def finish (s : State) : Option State :=
  match s.mode with
  | .command word => (s.endWord word).endCommand none
  | .comment => s.endCommand none
  | .body delim text line =>
    s.endCommand (some (if line = delim then text else text ++ line))
  | _ => none

/-- A text, from a state on. -/
def run (s : State) (t : Text) : Option State := t.foldlM step s

end State

/-- The commands of a text; `none` when it cannot be read. -/
def parse (t : Text) : Option (List Command) :=
  ((State.run ⟨[], [], .command none⟩ t).bind State.finish).map State.done

/-! ### Verbatim texts -/

section

variable {special special' escapable escapable' : List UInt8} {t u : Text} {next next' : UInt8}

/-- No character of the text is special, and no backslash in it is followed by a character that it
escapes; `next` is the character behind the text. -/
def Verbatim (special escapable : List UInt8) : Text → UInt8 → Prop
  | [], _ => True
  | c :: t, next => c ∉ special ∧ (c = backslash → t.headD next ∉ escapable) ∧
      Verbatim special escapable t next

instance decidableVerbatim (special escapable : List UInt8) (next : UInt8) :
    (t : Text) → Decidable (Verbatim special escapable t next)
  | [] => isTrue trivial
  | c :: t =>
    have := decidableVerbatim special escapable next t
    inferInstanceAs (Decidable (c ∉ special ∧ (c = backslash → t.headD next ∉ escapable) ∧
      Verbatim special escapable t next))

theorem verbatim_append_iff : Verbatim special escapable (t ++ u) next ↔
    Verbatim special escapable t (u.headD next) ∧ Verbatim special escapable u next := by
  induction t with
  | nil => simp [Verbatim]
  | cons c t ih =>
    have hhead : (t ++ u).headD next = t.headD (u.headD next) := by cases t <;> rfl
    rw [List.cons_append, Verbatim, Verbatim, ih, hhead, and_assoc, and_assoc]

/-- A text without special characters and backslashes is verbatim before every character. -/
theorem verbatim_of_forall (h : ∀ c ∈ t, c ∉ special ∧ c ≠ backslash) :
    Verbatim special escapable t next := by
  induction t with
  | nil => trivial
  | cons c t ih =>
    obtain ⟨⟨hspecial, hc⟩, ht⟩ := List.forall_mem_cons.1 h
    exact ⟨hspecial, fun heq => absurd heq hc, ih ht⟩

/-- A text that is verbatim before a character that a backslash escapes is verbatim before every
other one, and where less is special. -/
theorem Verbatim.mono (h : Verbatim special escapable t next) (hnext : next ∈ escapable)
    (hspecial : special' ⊆ special) (hescapable : escapable' ⊆ escapable) :
    Verbatim special' escapable' t next' := by
  induction t with
  | nil => trivial
  | cons c t ih =>
    obtain ⟨hc, hescape, ht⟩ := h
    refine ⟨fun hmem => hc (hspecial hmem), fun heq hmem => ?_, ih ht⟩
    cases t with
    | nil => exact hescape heq hnext
    | cons d t => exact hescape heq (hescapable hmem)

end

/-- Texts that stand for themselves between double quotes. -/
abbrev DoubleVerbatim (t : Text) (next : UInt8) : Prop :=
  Verbatim [quote, dollar, backquote] [newline, quote, dollar, backquote, backslash] t next

/-- Texts that stand for themselves in the lines of a here-document. -/
abbrev BodyVerbatim (t : Text) (next : UInt8) : Prop :=
  Verbatim [dollar, backquote] [newline, dollar, backquote, backslash] t next

namespace State

theorem run_cons (s : State) (c : UInt8) (t : Text) : s.run (c :: t) = (s.step c).bind (run · t) :=
  List.foldlM_cons

theorem run_append (s : State) (t t' : Text) : s.run (t ++ t') = (s.run t).bind (run · t') :=
  List.foldlM_append

theorem run_append_of {s s' : State} {t : Text} (h : s.run t = some s') (t' : Text) :
    s.run (t ++ t') = s'.run t' := by
  rw [run_append, h, Option.bind_some]

/-- The text behind a text begins with the character that is behind it. -/
theorem exists_append_eq (t : Text) (next : UInt8) (rest : Text) :
    ∃ u, t ++ next :: rest = t.headD next :: u := by
  cases t with
  | nil => exact ⟨rest, rfl⟩
  | cons c t => exact ⟨t ++ next :: rest, rfl⟩

section Steps

variable (done : List Command) (words : List Text) {c : UInt8}

theorem step_double (word : Text) (h : c ∉ [quote, dollar, backquote]) (hc : c ≠ backslash) :
    step ⟨done, words, .double word⟩ c = some ⟨done, words, .double (word ++ [c])⟩ := by
  simp only [List.mem_cons, List.not_mem_nil, or_false, not_or] at h
  simp [step, h, hc]

theorem step_doubleEscaped (word : Text)
    (h : c ∉ [newline, quote, dollar, backquote, backslash]) :
    step ⟨done, words, .doubleEscaped word⟩ c =
      some ⟨done, words, .double (word ++ [backslash, c])⟩ := by
  simp only [List.mem_cons, List.not_mem_nil, or_false, not_or] at h
  simp [step, h]

theorem step_body (delim text line : Text) (h : c ∉ [dollar, backquote]) (hc : c ≠ backslash)
    (hn : c ≠ newline) :
    step ⟨done, words, .body delim text line⟩ c =
      some ⟨done, words, .body delim text (line ++ [c])⟩ := by
  simp only [List.mem_cons, List.not_mem_nil, or_false, not_or] at h
  simp [step, h, hc, hn]

theorem step_bodyEscaped (delim text line : Text)
    (h : c ∉ [newline, dollar, backquote, backslash]) :
    step ⟨done, words, .bodyEscaped delim text line⟩ c =
      some ⟨done, words, .body delim text (line ++ [backslash, c])⟩ := by
  simp only [List.mem_cons, List.not_mem_nil, or_false, not_or] at h
  simp [step, h]

theorem step_body_newline {delim line : Text} (text : Text) (h : line ≠ delim) :
    step ⟨done, words, .body delim text line⟩ newline =
      some ⟨done, words, .body delim (text ++ line ++ [newline]) []⟩ := by
  simp [step, h]

end Steps

section Verbatim

variable (done : List Command) (words : List Text) {t : Text} {next : UInt8}

/-- A backslash in double quotes stays in front of a character that it does not escape. -/
theorem run_double_backslash (word : Text)
    (h : t.headD next ∉ [newline, quote, dollar, backquote, backslash]) (rest : Text) :
    run ⟨done, words, .double word⟩ (backslash :: (t ++ next :: rest)) =
      run ⟨done, words, .double (word ++ [backslash])⟩ (t ++ next :: rest) := by
  obtain ⟨u, hu⟩ := exists_append_eq t next rest
  generalize t.headD next = d at h hu
  obtain ⟨-, hquote, hdollar, hbackquote, hbackslash⟩ : d ≠ newline ∧ d ≠ quote ∧ d ≠ dollar ∧
      d ≠ backquote ∧ d ≠ backslash := by simpa using h
  have hspecial : d ∉ [quote, dollar, backquote] := by simp [hquote, hdollar, hbackquote]
  have hfirst : step ⟨done, words, .double word⟩ backslash =
    some ⟨done, words, .doubleEscaped word⟩ := rfl
  rw [hu, run_cons, hfirst, Option.bind_some, run_cons, run_cons, step_doubleEscaped _ _ _ h,
    step_double _ _ _ hspecial hbackslash, List.append_assoc]
  rfl

/-- A backslash in a here-document stays in front of a character that it does not escape. -/
theorem run_body_backslash (delim text line : Text)
    (h : t.headD next ∉ [newline, dollar, backquote, backslash]) (rest : Text) :
    run ⟨done, words, .body delim text line⟩ (backslash :: (t ++ next :: rest)) =
      run ⟨done, words, .body delim text (line ++ [backslash])⟩ (t ++ next :: rest) := by
  obtain ⟨u, hu⟩ := exists_append_eq t next rest
  generalize t.headD next = d at h hu
  obtain ⟨hnewline, hdollar, hbackquote, hbackslash⟩ : d ≠ newline ∧ d ≠ dollar ∧
      d ≠ backquote ∧ d ≠ backslash := by simpa using h
  have hspecial : d ∉ [dollar, backquote] := by simp [hdollar, hbackquote]
  have hfirst : step ⟨done, words, .body delim text line⟩ backslash =
    some ⟨done, words, .bodyEscaped delim text line⟩ := rfl
  rw [hu, run_cons, hfirst, Option.bind_some, run_cons, run_cons, step_bodyEscaped _ _ _ _ _ h,
    step_body _ _ _ _ _ hspecial hbackslash hnewline, List.append_assoc]
  rfl

/-- **Double quotes.** A verbatim text between double quotes becomes part of the word. -/
theorem run_double (word : Text) (h : DoubleVerbatim t next) {u : Text}
    (hu : u.head? = some next) :
    run ⟨done, words, .double word⟩ (t ++ u) = run ⟨done, words, .double (word ++ t)⟩ u := by
  obtain ⟨rest, rfl⟩ := List.head?_eq_some_iff.1 hu
  induction t generalizing word with
  | nil => rw [List.nil_append, List.append_nil]
  | cons c t ih =>
    obtain ⟨hspecial, hescape, ht⟩ := h
    have hrest := ih (word ++ [c]) ht
    rw [List.append_assoc, List.singleton_append] at hrest
    rw [← hrest, List.cons_append]
    by_cases hc : c = backslash
    · subst hc
      exact run_double_backslash done words word (hescape rfl) rest
    · rw [run_cons, step_double done words word hspecial hc, Option.bind_some]

/-- **Here-documents.** A verbatim text none of whose lines is the delimiter is taken as it is,
with the line break behind it. -/
theorem run_body {delim line : Text} (text : Text) (h : BodyVerbatim t newline)
    (hline : newline ∉ line) (hdelim : delim ∉ (line ++ t).splitOn newline) (rest : Text) :
    run ⟨done, words, .body delim text line⟩ (t ++ newline :: rest) =
      run ⟨done, words, .body delim (text ++ line ++ t ++ [newline]) []⟩ rest := by
  induction t generalizing text line with
  | nil =>
    rw [List.append_nil, List.splitOn_eq_singleton hline, List.mem_singleton] at hdelim
    rw [List.nil_append, run_cons, step_body_newline done words text (Ne.symm hdelim),
      Option.bind_some, List.append_nil]
  | cons c t ih =>
    obtain ⟨hspecial, hescape, ht⟩ := h
    by_cases hn : c = newline
    · -- a line ends
      subst hn
      rw [List.splitOn_append_cons_self_of_not_mem hline, List.mem_cons, not_or] at hdelim
      have hempty : newline ∉ ([] : Text) := List.not_mem_nil
      have hrest := ih (text ++ line ++ [newline]) ht hempty hdelim.2
      rw [List.cons_append, run_cons, step_body_newline done words text (Ne.symm hdelim.1),
        Option.bind_some, hrest]
      simp only [List.append_assoc, List.singleton_append, List.append_nil]
    · have hline' : newline ∉ line ++ [c] := by
        rw [List.mem_append, List.mem_singleton, not_or]
        exact ⟨hline, fun heq => hn heq.symm⟩
      have hdelim' : delim ∉ (line ++ [c] ++ t).splitOn newline := by
        rwa [List.append_assoc, List.singleton_append]
      have hrest := ih text ht hline' hdelim'
      rw [← List.append_assoc text, List.append_assoc (text ++ line), List.singleton_append]
        at hrest
      rw [← hrest, List.cons_append]
      by_cases hc : c = backslash
      · subst hc
        exact run_body_backslash done words delim text line (hescape rfl) rest
      · rw [run_cons, step_body done words delim text line hspecial hc hn, Option.bind_some]

end Verbatim

end State

end Shell
